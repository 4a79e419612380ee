import Mathlib.Data.PNat.Basic
import Wish5380.Clocked.Program
import Wish5380.Dma.System

/-!
# The initiator driver

`sci_driver.cpp`: a SCSI initiator in software that reaches the chip by a port of its registers,
and in the data phases, where `use_pdma` is set, by a window for whole chunks.  How many polls fit
into a timeout depends on the clock of the simulation, so a poll asks for that number; a delay
passes by without an access and is left to the machine, which may let any number of cycles pass
before the next one.  The port of the machine is one whose window errs, as the port of the second
driver in `env.cpp` does; the texts of `err_` are left out, since nothing reads them.
-/

namespace Wish5380.Driver

open Clocked

/-! ## The registers, from `ncr5380.h` -/

abbrev rCsd : BitVec 3 := 0
abbrev rOdr : BitVec 3 := 0
abbrev rIcr : BitVec 3 := 1
abbrev rMr : BitVec 3 := 2
abbrev rTcr : BitVec 3 := 3
abbrev rCsb : BitVec 3 := 4
abbrev rSer : BitVec 3 := 4
abbrev rBsr : BitVec 3 := 5
abbrev rSds : BitVec 3 := 5
abbrev rSdir : BitVec 3 := 7

abbrev icrAip : Byte := 0x40
abbrev icrLa : Byte := 0x20
abbrev icrAck : Byte := 0x10
abbrev icrBsy : Byte := 0x08
abbrev icrSel : Byte := 0x04
abbrev icrAtn : Byte := 0x02
abbrev icrData : Byte := 0x01

abbrev mrMonBsy : Byte := 0x04
abbrev mrDma : Byte := 0x02
abbrev mrArb : Byte := 0x01

abbrev csbBsy : Byte := 0x40
abbrev csbReq : Byte := 0x20

abbrev bsrIrq : Byte := 0x10
abbrev bsrPhaseMatch : Byte := 0x08

def csbToPhase (csb : Byte) : BitVec 3 :=
  (csb >>> 2).setWidth 3

/-! ## The port -/

/-- `RegPort`: one access of a register, or of the pseudo-DMA window for some bytes. -/
inductive Access where
  | read (reg : BitVec 3)
  | write (reg : BitVec 3) (v : Byte)
  | pdmaRead (n : ℕ)
  | pdmaWrite (bytes : List Byte)
  deriving DecidableEq, Repr

/-- What an access gives back: the byte of a register, or the bytes that the window has moved in,
unless the bus errored. -/
structure Reply where
  byte : Byte := 0
  chunk : Option (List Byte) := none
  deriving DecidableEq, Repr

/-- The port of the chip in a cycle with an access, or without. -/
def port : Option Access → Chip.Port
  | some (.read reg) => { stb := true, adr := reg }
  | some (.write reg v) => { stb := true, we := true, adr := reg, dat := v }
  | _ => {}

/-- The chip and the target as the driver meets them, with no window; the back end is the world. -/
def machine (pc : Chip.Params) (pt : Targ.Params) : Machine Dma.System BlkRsp Access Reply where
  next y blk a := y.next pc pt { port := port a, blk := blk }
  answer y blk a :=
    { byte := y.chip.datO (port (some a)) (y.bus pt { port := port (some a), blk := blk }) }

abbrev Code (ρ : Type) : Type :=
  Program Access Reply ρ

def r (reg : BitVec 3) : Code Byte := do
  let reply ← Program.perform (.read reg)
  pure reply.byte

def w (reg : BitVec 3) (v : Byte) : Code Unit := do
  let _ ← Program.perform (.write reg v)
  pure ()

def poll (reg : BitVec 3) (mask val : Byte) : Code Bool := do
  let reads ← Program.any
  .await (.read reg) (fun reply => reply.byte &&& mask == val) reads

/-! ## Selection -/

def idMask (host : ℕ) : Byte :=
  BitVec.ofNat 8 (1 <<< host)

/-- The bits of the IDs above the host's own. -/
def higher (host : ℕ) : Byte :=
  ~~~((idMask host <<< 1) - 1)

/-- `select` from the arbitration delay on, with the arbitration won. -/
def selectTarget (host target : ℕ) : Code Bool := do
  w rIcr (icrSel ||| icrBsy)
  w rOdr (idMask host ||| BitVec.ofNat 8 (1 <<< target))
  w rIcr (icrBsy ||| icrData ||| icrAtn ||| icrSel)
  w rMr 0
  w rSer 0
  w rIcr (icrData ||| icrAtn ||| icrSel)
  let answered ← poll rCsb csbBsy csbBsy
  if answered then
    w rIcr icrAtn
    pure true
  else
    w rIcr 0
    pure false

/-- `select`: arbitrate, then select the target with ATN. -/
def select (host target : ℕ) : Code Bool := do
  w rTcr 0
  w rOdr (idMask host)
  w rMr mrArb
  let begun ← poll rIcr icrAip icrAip
  if begun then
    let icr ← r rIcr
    if icr &&& icrLa ≠ 0 then
      w rMr 0
      pure false
    else
      let csd ← r rCsd
      if csd &&& higher host ≠ 0 then
        w rMr 0
        pure false
      else
        selectTarget host target
  else
    w rMr 0
    pure false

/-! ## Programmed transfers -/

/-- What moves a byte, up to ACK: the byte that came in, or the one that went out. -/
def hand (phase : BitVec 3) (keep out : Byte) : Code Byte := do
  if phase.getLsbD 0 then
    let v ← r rCsd
    w rIcr (keep ||| icrAck)
    pure v
  else
    w rOdr out
    w rIcr (keep ||| icrData)
    w rIcr (keep ||| icrData ||| icrAck)
    pure out

/-- The loop of `pio` from byte `i` of `n` on, `left` to go; `got` is what `in` holds so far. -/
def pioFrom (phase : BitVec 3) (out : List Byte) (n : ℕ) :
    ℕ → ℕ → List Byte → Code (ℕ × List Byte)
  | 0, i, got => pure (i, got)
  | left + 1, i, got => do
      let asked ← poll rCsb (csbReq ||| csbBsy) (csbReq ||| csbBsy)
      if asked then
        let csb ← r rCsb
        if csbToPhase csb ≠ phase then
          pure (i, got)
        else
          -- ATN goes with the last byte of a message.
          let keep := if phase = phMsgOut ∧ i + 1 < n then icrAtn else 0
          let v ← hand phase keep (out.getD i 0)
          let got := if phase.getLsbD 0 then got ++ [v] else got
          let released ← poll rCsb csbReq 0
          if released then
            w rIcr keep
            pioFrom phase out n left (i + 1) got
          else
            pure (i + 1, got)
      else
        pure (i, got)

/-- `pio`: how many bytes moved, and what came in. -/
def pio (phase : BitVec 3) (out : List Byte) (n : ℕ) : Code (ℕ × List Byte) := do
  w rTcr (phase.setWidth 8)
  pioFrom phase out n n 0 []

/-! ## Transfers through the window -/

/-- The bytes of one bus cycle, with `left` to go. -/
def chunkOf (width : ℕ+) (left : ℕ) : ℕ :=
  let chunk := min (width : ℕ) left
  if chunk = 3 then 2 else chunk

/-- The loop of `pdma` with `done` of `n` bytes moved, in `rounds` rounds at most, of which each
moves a byte; `got` is what `in` holds so far. -/
def pdmaFrom (phase : BitVec 3) (width : ℕ+) (out : List Byte) (n : ℕ) :
    ℕ → ℕ → List Byte → Code (ℕ × List Byte)
  | 0, done, got => pure (done, got)
  | rounds + 1, done, got =>
      if n ≤ done then
        pure (done, got)
      else do
        let chunk := chunkOf width (n - done)
        let basr ← r rBsr
        if basr &&& bsrPhaseMatch = 0 ∨ basr &&& bsrIrq ≠ 0 then
          pure (done, got)
        else
          let reply ← Program.perform
            (if phase.getLsbD 0 then .pdmaRead chunk else .pdmaWrite ((out.drop done).take chunk))
          match reply.chunk with
          | some bytes => pdmaFrom phase width out n rounds (done + chunk) (got ++ bytes)
          | none => pure (done, got)

/-- `pdma`: how many bytes moved, and what came in. -/
def pdma (phase : BitVec 3) (width : ℕ+) (out : List Byte) (n : ℕ) : Code (ℕ × List Byte) := do
  w rTcr (phase.setWidth 8)
  w rMr (mrDma ||| mrMonBsy)
  if phase.getLsbD 0 then
    w rIcr 0
    w rSdir 0
  else
    w rIcr icrData
    w rSds 0
  let done ← pdmaFrom phase width out n n 0 []
  w rMr 0
  w rIcr 0
  pure done

/-! ## A whole command -/

/-- The arguments of `execute`, with `use_pdma` and `pdma_width` as they are set; with no width the
loop of `pdma` would not end. -/
structure Command where
  target : ℕ
  cdb : List Byte
  dataOut : List Byte := []
  maxIn : ℕ := 0
  lun : Byte := 0
  usePdma : Bool := false
  pdmaWidth : ℕ+ := ⟨2, Nat.two_pos⟩
  deriving DecidableEq, Repr

/-- IDENTIFY, with disconnection not permitted. -/
def Command.identify (c : Command) : Byte :=
  0x80 ||| (c.lun &&& 7)

structure Result where
  ok : Bool := false
  status : Byte := 0xff
  message : Byte := 0xff
  data : List Byte := []
  deriving DecidableEq, Repr

/-- What an arm of the phase loop leaves: whether the loop goes on, `out_pos` and `res`. -/
structure Turned where
  onward : Bool
  pos : ℕ
  res : Result
  deriving DecidableEq, Repr

def giveMessage (c : Command) (pos : ℕ) (res : Result) : Code Turned := do
  let (moved, _) ← pio phMsgOut [c.identify] 1
  pure ⟨moved == 1, pos, res⟩

def giveCommand (c : Command) (pos : ℕ) (res : Result) : Code Turned := do
  let (moved, _) ← pio phCommand c.cdb c.cdb.length
  pure ⟨moved == c.cdb.length, pos, res⟩

/-- A data phase. -/
def move (c : Command) (phase : BitVec 3) (out : List Byte) (n : ℕ) : Code (ℕ × List Byte) :=
  if c.usePdma then pdma phase c.pdmaWidth out n else pio phase out n

theorem move_plain {c : Command} (plain : c.usePdma = false) (phase : BitVec 3) (out : List Byte)
    (n : ℕ) : move c phase out n = pio phase out n := by
  rw [move, plain]
  rfl

def giveData (c : Command) (pos : ℕ) (res : Result) : Code Turned := do
  let left := c.dataOut.length - pos
  if left = 0 then
    pure ⟨false, pos, res⟩
  else
    let (moved, _) ← move c phDataOut (c.dataOut.drop pos) left
    pure ⟨true, pos + moved, res⟩

def takeData (c : Command) (pos : ℕ) (res : Result) : Code Turned := do
  let left := c.maxIn - res.data.length
  if c.maxIn = 0 ∨ left = 0 then
    pure ⟨false, pos, res⟩
  else
    let (_, got) ← move c phDataIn [] left
    pure ⟨true, pos, { res with data := res.data ++ got }⟩

def takeStatus (pos : ℕ) (res : Result) : Code Turned := do
  let (moved, got) ← pio phStatus [] 1
  if moved = 1 then
    pure ⟨true, pos, { res with status := got.getD 0 0 }⟩
  else
    pure ⟨false, pos, res⟩

def takeMessage (pos : ℕ) (res : Result) : Code Turned := do
  let (moved, got) ← pio phMsgIn [] 1
  if moved = 1 then
    let msg := got.getD 0 0
    let res := { res with message := msg }
    -- COMMAND COMPLETE
    if msg = 0x00 then
      let free ← poll rCsb csbBsy 0
      pure ⟨false, pos, { res with ok := free }⟩
    else
      pure ⟨true, pos, res⟩
  else
    pure ⟨false, pos, res⟩

/-- The arm of the phase loop for `phase`. -/
def answer (c : Command) (phase : BitVec 3) (pos : ℕ) (res : Result) : Code Turned :=
  if phase = phMsgOut then giveMessage c pos res
  else if phase = phCommand then giveCommand c pos res
  else if phase = phDataOut then giveData c pos res
  else if phase = phDataIn then takeData c pos res
  else if phase = phStatus then takeStatus pos res
  else if phase = phMsgIn then takeMessage pos res
  else pure ⟨false, pos, res⟩

/-- The phase loop of `execute`, with `guard` rounds to go. -/
def transfer (c : Command) : ℕ → ℕ → Result → Code Result
  | 0, _, res => pure res
  | guard + 1, pos, res => do
      let asked ← poll rCsb csbReq csbReq
      let csb ← r rCsb
      if asked ∧ csb &&& csbBsy ≠ 0 then
        let turned ← answer c (csbToPhase csb) pos res
        if turned.onward then transfer c guard turned.pos turned.res else pure turned.res
      else
        pure res

/-- `execute`. -/
def execute (host : ℕ) (c : Command) : Code Result := do
  let connected ← select host c.target
  if connected then transfer c 4096 0 {} else pure {}

end Wish5380.Driver
