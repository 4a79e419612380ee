import Wish5380.Bytes.Store

/-!
# The TT's DMA chip

`wish5380.c` of the Hatari patch: the DMA chip of an Atari TT, between its registers, the RAM and
the core of a 5380.  The core is another program behind a table of functions, and is a parameter
here; so is the check that an area is RAM or ROM.
-/

namespace Wish5380.Tt

/-- The functions of the core that the DMA chip calls. -/
structure Core (σ : Type*) where
  drq : σ → Bool × σ
  read : σ → ℕ → BitVec 8 × σ
  runNs : σ → ℕ → σ
  setEop : σ → Bool → σ
  dackRead : σ → BitVec 8 × σ
  dackWrite : σ → BitVec 8 → σ
  irq : σ → Bool × σ

/-- The machine around it: `config.tt` is `Config_IsMachineTT()`, `area` is
`STMemory_CheckAreaType(.., .., ABFLAG_RAM | ABFLAG_ROM)`. -/
structure Config where
  tt : Bool
  area : BitVec 32 → BitVec 32 → Bool

/-- `wish`, `IoMem`, the memory and the MFP's line 7. -/
structure Machine (σ : Type*) where
  core : σ
  irqLine : Bool
  armed : Bool
  io : BitVec 32 → BitVec 8
  ram : BitVec 32 → BitVec 8
  gpip : Bool

/-- `DRQ_WAIT_NS` -/
def drqWaitNs : ℕ := 2 * 1000 * 1000

/-- `DRQ_STEP_NS` -/
def drqStepNs : ℕ := 200

/-- `BSR_PHASE_MATCH` -/
def bsrPhaseMatch : BitVec 8 := 0x08

/-- `TT_DMA_ENABLE` -/
def ttDmaEnable : BitVec 8 := 0x02

/-! ## Its registers -/

/-- Four bytes on the odd addresses from `a`, high byte first. -/
def longAt (io : BitVec 32 → BitVec 8) (a : BitVec 32) : BitVec 32 :=
  (io a).setWidth 32 <<< 24 ||| (io (a + 2)).setWidth 32 <<< 16 |||
    (io (a + 4)).setWidth 32 <<< 8 ||| (io (a + 6)).setWidth 32

def setLongAt (io : BitVec 32 → BitVec 8) (a v : BitVec 32) : BitVec 32 → BitVec 8 :=
  Function.update (Function.update (Function.update (Function.update io
    a ((v >>> 24).setWidth 8)) (a + 2) ((v >>> 16).setWidth 8)) (a + 4) ((v >>> 8).setWidth 8))
    (a + 6) (v.setWidth 8)

def dmaAddr (io : BitVec 32 → BitVec 8) : BitVec 32 :=
  longAt io 0xff8701

def dmaLen (io : BitVec 32 → BitVec 8) : BitVec 32 :=
  longAt io 0xff8709

def setDmaAddrAndLen (io : BitVec 32 → BitVec 8) (addr len : BitVec 32) : BitVec 32 → BitVec 8 :=
  setLongAt (setLongAt io 0xff8701 addr) 0xff8709 len

/-- `0xff8710 + i`: the bytes still in the packer. -/
def residueAt (i : ℕ) : BitVec 32 :=
  0xff8710 + BitVec.ofNat 32 i

/-! ## The transfer -/

section Transfer

variable {σ : Type*} (c : Core σ)

/-- The loop of `Wish5380_WaitDrq`, with `left` steps before the patience is over. -/
def Core.waitFrom : ℕ → σ → Bool × σ
  | left, core =>
      if (c.drq core).1 then (true, (c.drq core).2)
      else
        let bsr := c.read (c.drq core).2 5
        if bsr.1 &&& bsrPhaseMatch = 0 then (false, bsr.2)
        else match left with
          | 0 => (false, bsr.2)
          | left + 1 => waitFrom left (c.runNs bsr.2 drqStepNs)

def Core.waitDrq (core : σ) : Bool × σ :=
  c.waitFrom (drqWaitNs / drqStepNs) core

/-- The variables of `Wish5380_DmaTransfer`; `packed` is the length of `pack`. -/
structure Transfer (σ : Type*) where
  core : σ
  ram : BitVec 32 → BitVec 8
  pack : List (BitVec 8) := []
  done : ℕ := 0

/-- The packer: a byte more, and all of them to memory at the end of a longword. -/
def Transfer.push (addr : BitVec 32) (x : Transfer σ) (b : BitVec 8) : Transfer σ :=
  let pack := x.pack ++ [b]
  let past := addr + BitVec.ofNat 32 x.done + 1
  if past &&& 3 = 0 then
    { x with
      ram := Bytes.store x.ram (past - BitVec.ofNat 32 pack.length) pack
      pack := [] }
  else { x with pack := pack }

/-- The body of the loop after `Wish5380_WaitDrq`. -/
def Core.moveByte (addr : BitVec 32) (len : ℕ) (sending : Bool) (x : Transfer σ) : Transfer σ :=
  let x := if x.done + 1 = len then { x with core := c.setEop x.core true } else x
  let x :=
    if sending then
      { x with core := c.dackWrite x.core (x.ram (addr + BitVec.ofNat 32 x.done)) }
    else
      let taken := c.dackRead x.core
      Transfer.push addr { x with core := taken.2 } taken.1
  let x := { x with done := x.done + 1 }
  if x.done = len then { x with core := c.setEop x.core false } else x

/-- `while (done < len)`, with `left` bytes to go. -/
def Core.transfer (addr : BitVec 32) (len : ℕ) (sending : Bool) : ℕ → Transfer σ → Transfer σ
  | 0, x => x
  | left + 1, x =>
      let drq := c.waitDrq x.core
      if drq.1 then transfer addr len sending left (c.moveByte addr len sending { x with core := drq.2 })
      else { x with core := drq.2 }

def syncIrq (config : Config) (m : Machine σ) : Machine σ :=
  let now := c.irq m.core
  let m := { m with core := now.2 }
  if now.1 = m.irqLine then m
  else { m with irqLine := now.1, gpip := if config.tt then now.1 else m.gpip }

/-- What is left to do when the loop is over. -/
def finish (config : Config) (addr len : BitVec 32) (m : Machine σ) (x : Transfer σ) : Machine σ :=
  let io := Bytes.store m.io (residueAt 0) x.pack
  let irq := c.irq x.core
  let core := if irq.1 then irq.2 else c.runNs irq.2 (drqWaitNs / 8)
  syncIrq c config { m with
    core := core
    ram := x.ram
    io := setDmaAddrAndLen io (addr + BitVec.ofNat 32 x.done) (len - BitVec.ofNat 32 x.done) }

/-- `Wish5380_DmaTransfer` -/
def dmaTransfer (config : Config) (m : Machine σ) : Machine σ :=
  let addr := dmaAddr m.io
  let len := dmaLen m.io
  let sending := (m.io 0xff8715).getLsbD 0
  if m.armed = false ∨ m.io 0xff8715 &&& ttDmaEnable = 0 then m
  else
    let m := { m with armed := false }
    if len = 0 ∨ config.area addr len = false then m
    else finish c config addr len m
      (c.transfer addr len.toNat sending len.toNat ⟨m.core, m.ram, [], 0⟩)

end Transfer

end Wish5380.Tt
