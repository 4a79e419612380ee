import Wish5380.Bus.Wires
import Wish5380.Callback.Activity

/-!
# The Sun-3 board

`sun3-si.c` of the QEMU patches: an Am9516 and a FIFO between the registers of a Sun-3, its
memory and a 5380.  The 5380 calls the board back through its two pins from inside the board's own
calls of it, and the board may then call it again; so the chip is a component that calls back.
What the source keeps for its traces only is left out, and every DACK cycle and every byte moved
in memory is noted instead.
-/

namespace Wish5380.Sun3

open Callback (Activity)

/-! ## Its registers -/

def csrDmaActive : BitVec 16 := 0x8000
def csrDmaBusErr : BitVec 16 := 0x2000
def csrFifoFull : BitVec 16 := 0x0800
def csrFifoEmpty : BitVec 16 := 0x0400
def csrSbcIp : BitVec 16 := 0x0200
def csrDmaIp : BitVec 16 := 0x0100
def csrSend : BitVec 16 := 0x0008
def csrIntrEn : BitVec 16 := 0x0004
def csrFifoRes : BitVec 16 := 0x0002
def csrScsiRes : BitVec 16 := 0x0001

def csrWritable : BitVec 16 :=
  csrSend ||| csrIntrEn ||| csrFifoRes ||| csrScsiRes

def udcAdrMode : Byte := 0x38
def udcAdrCommand : Byte := 0x2e
def udcAdrCarHigh : Byte := 0x26
def udcAdrCarLow : Byte := 0x22
def udcAdrCount : Byte := 0x32

def udcCmdReset : Byte := 0x00
def udcCmdCie : Byte := 0x32
def udcCmdStrtChn : Byte := 0xa0

def udcSrCie : BitVec 16 := 0x8000
def udcSrIp : BitVec 16 := 0x2000
def udcSrCa : BitVec 16 := 0x1000
def udcSrNac : BitVec 16 := 0x0800
def udcSrTc : BitVec 16 := 0x0001

def bsrPhaseMatch : Byte := 0x08

/-- A C truth value: does `r & mask` leave anything? -/
def has (r mask : BitVec 16) : Bool :=
  r &&& mask != 0

/-! ## Memory and the chip -/

/-- What the UDC finds on its bus: bytes, and the addresses where an access fails. -/
structure Memory where
  byte : BitVec 32 → Byte
  readOk : BitVec 32 → Bool
  writeOk : BitVec 32 → Bool

/-- `dma_memory_read` of a word, high byte first. -/
def Memory.word (m : Memory) (a : BitVec 32) : Option (BitVec 16) :=
  if m.readOk a && m.readOk (a + 1) then some (m.byte a ++ m.byte (a + 1)) else none

/-- The outputs of the chip, as they move. -/
inductive Pin where
  | irq
  | drq (level : Bool)

/-- The chip as the board knows it.  `async` is whatever the block layer makes it do by itself.
The EOP input is the board's to move: the chip leaves it alone, and a hard reset clears it. -/
structure Chip (σ ι : Type) where
  drq : σ → Bool
  irq : σ → Bool
  eop : σ → Bool
  regRead : σ → BitVec 3 → Activity σ Pin Byte
  regWrite : σ → BitVec 3 → Byte → Activity σ Pin Unit
  dackRead : σ → Activity σ Pin Byte
  dackWrite : σ → Byte → Activity σ Pin Unit
  setEop : σ → Bool → Activity σ Pin Unit
  hardReset : σ → Activity σ Pin Unit
  async : ι → σ → Activity σ Pin Unit
  regRead_eop : ∀ s reg, (regRead s reg).Steady eop (eop s)
  regWrite_eop : ∀ s reg val, (regWrite s reg val).Steady eop (eop s)
  dackRead_eop : ∀ s, (dackRead s).Steady eop (eop s)
  dackWrite_eop : ∀ s val, (dackWrite s val).Steady eop (eop s)
  setEop_eop : ∀ s asserted, (setEop s asserted).Steady eop asserted
  hardReset_eop : ∀ s, (hardReset s).Steady eop false
  async_eop : ∀ i s, (async i s).Steady eop (eop s)

/-- `Sun3SiState`, the memory it masters, and what was moved: the bytes of the DACK cycles with EOP
as it stood, and the bytes of the memory accesses with their addresses. -/
structure Board (σ : Type) where
  core : σ
  mem : Memory
  pumping : Bool := false
  irqLevel : Bool := false
  csr : BitVec 16 := csrFifoEmpty
  fifoCount : BitVec 16 := 0
  sawDrq : Bool := false
  fifoData : BitVec 16 := 0
  vme : ℕ → BitVec 16 := fun _ => 0
  udcPtr : Byte := 0
  udcMode : BitVec 16 := 0
  udcCarHi : BitVec 16 := 0
  udcCarLo : BitVec 16 := 0
  udcCount : BitVec 16 := 0
  udcStatus : BitVec 16 := udcSrCa ||| udcSrNac
  dmaAddr : BitVec 32 := 0
  dmaRunning : Bool := false
  dacks : List (Byte × Bool) := []
  accesses : List (BitVec 32 × Byte) := []

section

variable {σ ι α : Type} (chip : Chip σ ι)

def Board.putCore (core : σ) (b : Board σ) : Board σ :=
  { b with core := core }

/-- `sun3_si_update_irq` -/
def updateIrq (b : Board σ) : Board σ :=
  let csr := b.csr &&& ~~~csrSbcIp ||| (if chip.irq b.core then csrSbcIp else 0)
  { b with csr := csr, irqLevel := has csr csrIntrEn && has csr (csrSbcIp ||| csrDmaIp) }

/-! ## The pump -/

/-- What the pins call while the pump is on the stack: the pump they call returns at once. -/
def changedInside (pin : Pin) (b : Board σ) : Board σ :=
  match pin with
  | .irq => updateIrq chip b
  | .drq level => if level then updateIrq chip b else b

/-- A call of the chip by the pump. -/
def nested (act : Activity σ Pin α) (b : Board σ) : α × Board σ :=
  act.run Board.core Board.putCore (changedInside chip) b

/-- The chip is not asking: the transfer is over when the target has left the phase. -/
def pumpIdle (b : Board σ) : Board σ :=
  let bsr := nested chip (chip.regRead b.core 5) b
  let b := bsr.2
  let b :=
    if b.sawDrq && bsr.1 &&& bsrPhaseMatch == 0 && chip.irq b.core then
      { b with dmaRunning := false, csr := b.csr &&& ~~~csrDmaActive }
    else b
  { b with pumping := false }

def raiseEop (last : Bool) (b : Board σ) : Board σ :=
  if last then (nested chip (chip.setEop b.core true) b).2 else b

def dropEop (last : Bool) (b : Board σ) : Board σ :=
  if last then (nested chip (chip.setEop b.core false) b).2 else b

/-- The counters after a byte. -/
def countByte (byte : Byte) (b : Board σ) : Board σ :=
  let fifoCount := b.fifoCount - 1
  { b with
    fifoData := byte.setWidth 16 <<< 8
    dmaAddr := b.dmaAddr + 1
    fifoCount := fifoCount
    udcCount := if b.udcCount ≠ 0 ∧ fifoCount &&& 1 = 0 then b.udcCount - 1 else b.udcCount }

/-- A byte from memory to the chip, or `none` at a fault. -/
def fetchByte (b : Board σ) : Option (Byte × Board σ) :=
  if b.mem.readOk b.dmaAddr then
    let byte := b.mem.byte b.dmaAddr
    let noted := { b with
      accesses := b.accesses ++ [(b.dmaAddr, byte)]
      dacks := b.dacks ++ [(byte, chip.eop b.core)] }
    some (byte, (nested chip (chip.dackWrite noted.core byte) noted).2)
  else none

/-- A byte from the chip; `none` in its place when memory does not take it. -/
def storeByte (b : Board σ) : Option Byte × Board σ :=
  let taken := nested chip (chip.dackRead b.core) b
  let b' := { taken.2 with dacks := taken.2.dacks ++ [(taken.1, chip.eop b.core)] }
  if b'.mem.writeOk b'.dmaAddr then
    (some taken.1, { b' with
      mem := { b'.mem with byte := Function.update b'.mem.byte b'.dmaAddr taken.1 }
      accesses := b'.accesses ++ [(b'.dmaAddr, taken.1)] })
  else (none, b')

/-- The body of the loop once the chip asks: `false` at a fault. -/
def moveByte (b : Board σ) : Bool × Board σ :=
  let last := b.fifoCount == 1
  let b := raiseEop chip last { b with sawDrq := true }
  if has b.csr csrSend then
    match fetchByte chip b with
    | some (byte, b) => (true, countByte byte (dropEop chip last b))
    | none => (false, { b with csr := b.csr ||| csrDmaBusErr })
  else
    match storeByte chip b with
    | (some byte, b) => (true, countByte byte (dropEop chip last b))
    | (none, b) => (false, { b with csr := b.csr ||| csrDmaBusErr })

/-- After the loop: terminal count, or a fault. -/
def pumpEnd (b : Board σ) : Board σ :=
  let b :=
    if b.fifoCount = 0 ∨ has b.csr csrDmaBusErr then
      let b := { b with
        dmaRunning := false
        csr := b.csr &&& ~~~csrDmaActive
        udcStatus := b.udcStatus ||| udcSrTc ||| udcSrNac }
      if has b.csr csrDmaBusErr && has b.udcStatus udcSrCie then
        { b with udcStatus := b.udcStatus ||| udcSrIp, csr := b.csr ||| csrDmaIp }
      else b
    else b
  { b with pumping := false }

/-- `while (s->fifo_count > 0)`, with as many rounds to go. -/
def pumpLoop : ℕ → Board σ → Board σ
  | 0, b => pumpEnd b
  | n + 1, b =>
      if chip.drq b.core then
        match moveByte chip b with
        | (true, b) => pumpLoop n b
        | (false, b) => pumpEnd b
      else pumpIdle chip b

/-- `sun3_si_pump` -/
def pump (b : Board σ) : Board σ :=
  if b.dmaRunning = false ∨ b.pumping = true then b
  else pumpLoop chip b.fifoCount.toNat { b with pumping := true }

/-! ## The UDC -/

/-- `sun3_si_udc_reset` -/
def udcReset (b : Board σ) : Board σ :=
  { b with
    dmaRunning := false
    udcMode := 0
    udcCount := 0
    udcStatus := udcSrCa ||| udcSrNac
    csr := b.csr &&& ~~~(csrDmaActive ||| csrDmaIp) }

/-- What a chain sets up. -/
structure Chain where
  addrHi : BitVec 16 := 0
  addrLo : BitVec 16 := 0
  gotAddr : Bool := false
  count : BitVec 16

/-- How many words bit `i` of the reload word selects. -/
def chainWords (i : ℕ) : ℕ :=
  if i = 9 ∨ i = 8 ∨ i = 6 ∨ i = 5 ∨ i = 1 ∨ i = 0 ∨ i = 3 then 2 else 1

/-- A word of the chain for bit `i`. -/
def Chain.take (c : Chain) (i : ℕ) (w : BitVec 16) : Chain :=
  if i = 9 ∨ i = 8 then
    if c.gotAddr then { c with addrLo := w } else { c with addrHi := w, gotAddr := true }
  else if i = 7 then { c with count := w }
  else c

/-- The words of one bit from `at`. -/
def chainBit (m : Memory) (i : ℕ) : ℕ → BitVec 32 → Chain → Option (BitVec 32 × Chain)
  | 0, place, c => some (place, c)
  | words + 1, place, c =>
      match m.word place with
      | some w => chainBit m i words (place + 2) (c.take i w)
      | none => none

/-- The reload word from bit `n - 1` down to bit 0.  The count goes to its register word by word,
so that a fault further on leaves what was read. -/
def chainScan (m : Memory) (rsel : BitVec 16) : ℕ → BitVec 32 → Chain → Chain × Bool
  | 0, _, c => (c, true)
  | n + 1, place, c =>
      if rsel.getLsbD n then
        match chainBit m n (chainWords n) place c with
        | some (place, c) => chainScan m rsel n place c
        | none => (c, false)
      else chainScan m rsel n place c

/-- `sun3_si_start_chain`, and whether it got to its end. -/
def startChain (b : Board σ) : Bool × Board σ :=
  let place : BitVec 32 := (b.udcCarHi &&& 0xff00).setWidth 32 <<< 8 ||| b.udcCarLo.setWidth 32
  let b := { b with udcStatus := b.udcStatus &&& ~~~udcSrCa }
  match b.mem.word place with
  | none => (false, { b with csr := b.csr ||| csrDmaBusErr })
  | some rsel =>
      match chainScan b.mem rsel 10 (place + 2) ⟨0, 0, false, b.udcCount⟩ with
      | (c, false) => (false, { b with udcCount := c.count, csr := b.csr ||| csrDmaBusErr })
      | (c, true) => (true, { b with
          udcCount := c.count
          dmaAddr := (c.addrHi &&& 0xff00).setWidth 32 <<< 8 ||| c.addrLo.setWidth 32
          udcStatus := b.udcStatus &&& ~~~(udcSrTc ||| udcSrNac)
          sawDrq := false
          dmaRunning := true
          csr := (b.csr ||| csrDmaActive) &&& ~~~(csrDmaIp ||| csrDmaBusErr) })

/-- `sun3_si_udc_write` -/
def udcWrite (b : Board σ) (val : BitVec 16) : Board σ :=
  if b.udcPtr = udcAdrMode then { b with udcMode := val }
  else if b.udcPtr = udcAdrCarHigh then { b with udcCarHi := val }
  else if b.udcPtr = udcAdrCarLow then { b with udcCarLo := val }
  else if b.udcPtr = udcAdrCount then { b with udcCount := val }
  else if b.udcPtr = udcAdrCommand then
    if val.setWidth 8 = udcCmdReset then udcReset b
    else if val.setWidth 8 = udcCmdCie then { b with udcStatus := b.udcStatus ||| udcSrCie }
    else if val.setWidth 8 = udcCmdStrtChn then (startChain b).2
    else b
  else b

/-- `sun3_si_udc_read` -/
def udcRead (b : Board σ) : BitVec 16 :=
  if b.udcPtr = udcAdrCommand then b.udcStatus
  else if b.udcPtr = udcAdrMode then b.udcMode
  else if b.udcPtr = udcAdrCarHigh then b.udcCarHi
  else if b.udcPtr = udcAdrCarLow then b.udcCarLo
  else if b.udcPtr = udcAdrCount then b.udcCount
  else 0

/-! ## The register port -/

/-- A board, and the calls of the pump that were not nested, each as it found the board and as it
left it. -/
structure Traced (σ : Type) where
  board : Board σ
  pumps : List (Board σ × Board σ) := []

namespace Traced

variable {chip}

def modify (f : Board σ → Board σ) (x : Traced σ) : Traced σ :=
  { x with board := f x.board }

variable (chip)

def pump (x : Traced σ) : Traced σ :=
  if x.board.pumping then x
  else ⟨Sun3.pump chip x.board, x.pumps ++ [(x.board, Sun3.pump chip x.board)]⟩

/-- `sun3_si_irq_changed` and `sun3_si_drq_changed` -/
def changed (pin : Pin) (x : Traced σ) : Traced σ :=
  match pin with
  | .irq => (x.pump chip).modify (updateIrq chip)
  | .drq level => if level then (x.pump chip).modify (updateIrq chip) else x

/-- A call of the chip from outside the pump. -/
def call (act : Activity σ Pin α) (x : Traced σ) : α × Traced σ :=
  act.run (fun x => x.board.core) (fun core => modify (Board.putCore core)) (changed chip) x

/-- The end of every access. -/
def settle (x : Traced σ) : Traced σ :=
  (x.pump chip).modify (updateIrq chip)

end Traced

/-- `sun3_si_in_data_phase` -/
def inDataPhase (x : Traced σ) : Bool × Traced σ :=
  let csb := x.call chip (chip.regRead x.board.core 4)
  let phase := (csb.1 >>> 2) &&& 7
  (phase == 0 || phase == 1, csb.2)

/-- The places of the VME-only registers. -/
def vmeOnly (addr : ℕ) : Bool :=
  addr ∈ [0x08, 0x0a, 0x0c, 0x0e, 0x1a, 0x1c, 0x1e, 0x20]

/-- The registers of the board itself, read. -/
def boardRead (addr : ℕ) (b : Board σ) : BitVec 16 × Board σ :=
  if addr = 0x10 then (udcRead b, b)
  else if addr = 0x12 then (b.udcPtr.setWidth 16, b)
  else if addr = 0x14 then (b.fifoData, b)
  else if addr = 0x16 then (b.fifoCount, b)
  else if vmeOnly addr then (b.vme ((addr - 8) / 2), b)
  else if addr = 0x18 then
    let b := updateIrq chip b
    let csr := b.csr &&& ~~~(csrFifoFull ||| csrFifoEmpty) |||
      (if b.dmaRunning then 0 else csrFifoEmpty)
    (csr, { b with csr := csr })
  else (0, b)

/-- `sun3_si_read` -/
def siRead (addr : ℕ) (wide : Bool) (x : Traced σ) : BitVec 16 × Traced σ :=
  if addr < 8 then
    let first := x.call chip (chip.regRead x.board.core (BitVec.ofNat 3 addr))
    if wide then
      let second := first.2.call chip
        (chip.regRead first.2.board.core (BitVec.ofNat 3 (addr + 1)))
      (first.1.setWidth 16 <<< 8 ||| second.1.setWidth 16, second.2.settle chip)
    else (first.1.setWidth 16, first.2.settle chip)
  else
    ((boardRead chip addr x.board).1, (x.modify fun b => (boardRead chip addr b).2).settle chip)

/-- A write of the control register, up to the reset of the chip. -/
def csrWrite (val : BitVec 16) (b : Board σ) : Board σ :=
  let b := { b with csr := b.csr &&& ~~~csrWritable ||| val &&& csrWritable }
  if has val csrScsiRes then b else udcReset b

/-- Both resets are active low. -/
def writeCsr (val : BitVec 16) (x : Traced σ) : Traced σ :=
  let x := x.modify (csrWrite val)
  let x :=
    if has val csrScsiRes then x
    else ((x.call chip (chip.hardReset x.board.core)).2).modify fun b =>
      { b with csr := b.csr &&& ~~~csrDmaBusErr }
  if has val csrFifoRes then x else x.modify fun b => { b with fifoData := 0 }

/-- The count is not taken in a data phase. -/
def writeFifoCount (val : BitVec 16) (x : Traced σ) : Traced σ :=
  let phase := inDataPhase chip x
  if phase.1 then phase.2 else phase.2.modify fun b => { b with fifoCount := val }

/-- The registers of the board itself, written. -/
def boardWrite (addr : ℕ) (val : BitVec 16) (x : Traced σ) : Traced σ :=
  if addr = 0x10 then x.modify fun b => udcWrite b val
  else if addr = 0x12 then x.modify fun b => { b with udcPtr := val.setWidth 8 &&& 0x7e }
  else if addr = 0x16 then writeFifoCount chip val x
  else if addr = 0x18 then writeCsr chip val x
  else if vmeOnly addr then
    x.modify fun b => { b with vme := Function.update b.vme ((addr - 8) / 2) val }
  else x

/-- `sun3_si_write` -/
def siWrite (addr : ℕ) (val : BitVec 16) (wide : Bool) (x : Traced σ) : Traced σ :=
  if addr < 8 then
    if wide then
      let first := (x.call chip
        (chip.regWrite x.board.core (BitVec.ofNat 3 addr) ((val >>> 8).setWidth 8))).2
      ((first.call chip
        (chip.regWrite first.board.core (BitVec.ofNat 3 (addr + 1)) (val.setWidth 8))).2).settle chip
    else
      ((x.call chip
        (chip.regWrite x.board.core (BitVec.ofNat 3 addr) (val.setWidth 8))).2).settle chip
  else (boardWrite chip addr val x).settle chip

/-! ## Runs -/

/-- What happens to a board: accesses of the processor, activity of the chip's own, and other
masters at work on the memory. -/
inductive Event (ι : Type) where
  | read (addr : ℕ) (wide : Bool)
  | write (addr : ℕ) (val : BitVec 16) (wide : Bool)
  | async (i : ι)
  | remap (mem : Memory)

def step (x : Traced σ) : Event ι → Traced σ
  | .read addr wide => (siRead chip addr wide x).2
  | .write addr val wide => siWrite chip addr val wide x
  | .async i => (x.call chip (chip.async i x.board.core)).2
  | .remap mem => x.modify fun b => { b with mem := mem }

def runs (events : List (Event ι)) (x : Traced σ) : Traced σ :=
  events.foldl (step chip) x

end

end Wish5380.Sun3
