import Wish5380.Soft.Settles

/-!
# The other end of the wires

The target side of `ncr5380.c`: every device on the bus as one state machine over QEMU's SCSI
layer.  The layer is asked for the data of a request and calls back when it has some, from inside
the call that asked or at any later time; a callback from inside only marks the loop dirty, since
the loop is already running.
-/

namespace Wish5380.Soft

/-- `NCR5380Phase`. -/
inductive Phase where
  | free | selected | msgOut | command | dataIn | dataOut | status | msgIn
  deriving DecidableEq, Repr

/-- `NCR5380Hs`: where the handshake of one byte stands. -/
inductive Hs where
  | setup | req | rel
  deriving DecidableEq, Repr

def msgCommandComplete : Byte := 0x00
def msgAbort : Byte := 0x06
def msgBusDeviceReset : Byte := 0x0c

/-- `sizeof(s->cdb)`. -/
def cdbMax : ℕ := 16

/-- The target side of `NCR5380State`.  `cdb` holds the `cdb_n` bytes taken so far, and the length
of the window into a request's buffer is the length of `asyncBuf`. -/
structure Target where
  phase : Phase := .free
  hs : Hs := .setup
  sreq : Option ℕ := none
  selId : ℕ := 0
  selLun : ℕ := 0
  atnAtSelect : Bool := false
  cdb : List Byte := []
  cdbLen : ℕ := 0
  asyncBuf : Option (List Byte) := none
  asyncOff : ℕ := 0
  status : Byte := 0
  hsByte : Byte := 0
  deriving DecidableEq, Repr

/-- What QEMU's SCSI layer answers for a request that goes on. -/
inductive Callback where
  | transferData (buf : List Byte)
  | complete (status : Byte)
  deriving DecidableEq, Repr

/-- QEMU's SCSI layer with states in `ρ`.  Requests are numbered.  `reqEnqueue` answers with the
length and the direction of the data, and with a status if the command is over at once;
`reqContinue` sees the buffer as it was left and may call back from inside. -/
structure Layer (ρ : Type) where
  deviceFind : ρ → ℕ → ℕ → Bool
  cdbLength : Byte → ℤ
  reqNew : ρ → ℕ → ℕ → List Byte → ℕ × ρ
  reqEnqueue : ρ → ℕ → ℤ × Option Byte × ρ
  reqContinue : ρ → ℕ → List Byte → Option Callback × ρ
  reqCancel : ρ → ℕ → ρ

/-- The chip, the target side and the layer behind it.  `asked` says that the layer owes the
current request a callback, and `handed` lists the callbacks that were taken. -/
structure Attached (ρ : Type) where
  chip : State := {}
  targ : Target := {}
  scsi : ρ
  asked : Bool := false
  handed : List Callback := []
  deriving DecidableEq, Repr

namespace Target

/-- MSG, C/D and I/O in a phase. -/
def phaseLines : Phase → Bool × Bool × Bool
  | .msgOut => (true, true, false)
  | .command => (false, true, false)
  | .dataIn => (false, false, true)
  | .status => (false, true, true)
  | .msgIn => (true, true, true)
  | .dataOut | .free | .selected => (false, false, false)

/-- `ncr5380_target_is_input`. -/
def isInput (t : Target) : Bool :=
  t.phase == .dataIn || t.phase == .status || t.phase == .msgIn

/-- `ncr5380_target_have_byte`. -/
def haveByte (t : Target) : Bool :=
  match t.phase with
  | .dataIn | .dataOut =>
      match t.asyncBuf with
      | some buf => decide (t.asyncOff < buf.length)
      | none => false
  | .msgOut | .command | .status | .msgIn => true
  | .free | .selected => false

/-- `ncr5380_target_out_byte`. -/
def outByte (t : Target) : Byte :=
  match t.phase with
  | .dataIn => (t.asyncBuf.getD []).getD t.asyncOff 0
  | .status => t.status
  | .msgIn => msgCommandComplete
  | _ => 0

end Target

namespace Attached

variable {ρ : Type}

/-! ## Letting go of the bus -/

/-- `ncr5380_target_free`. -/
def targetFree (a : Attached ρ) : Attached ρ :=
  { a with
    chip := { a.chip with peer := {}, dirty := true }
    targ :=
      { a.targ with
        sreq := none, phase := .free, hs := .setup, asyncBuf := none, asyncOff := 0
        cdb := [], cdbLen := 0, selId := 0, selLun := 0, atnAtSelect := false } }

/-- The request is forgotten first, so what `scsi_req_cancel` calls back is not taken. -/
def dropRequest (layer : Layer ρ) (a : Attached ρ) : Attached ρ :=
  match a.targ.sreq with
  | some req =>
      { a with targ := { a.targ with sreq := none }, scsi := layer.reqCancel a.scsi req }
  | none => a

/-- `ncr5380_target_bus_reset`. -/
def targetBusReset (layer : Layer ρ) (a : Attached ρ) : Attached ρ :=
  let dropped := a.dropRequest layer
  { dropped with
    chip := { dropped.chip with peer := {} }
    targ :=
      { dropped.targ with
        phase := .free, hs := .setup, asyncBuf := none, asyncOff := 0, cdb := [], cdbLen := 0 } }

/-! ## Callbacks -/

/-- `ncr5380_transfer_data` and `ncr5380_command_complete`, up to the settle loop. -/
def back (a : Attached ρ) (req : ℕ) (callback : Callback) : Attached ρ :=
  if a.targ.sreq != some req then a
  else
    let taken :=
      { a with
        chip := { a.chip with dirty := true }
        asked := false, handed := a.handed ++ [callback] }
    match callback with
    | .transferData buf =>
        { taken with targ := { a.targ with asyncBuf := some buf, asyncOff := 0 } }
    | .complete status =>
        { taken with
          targ :=
            { a.targ with
              status := status, asyncBuf := none, asyncOff := 0, phase := .status, hs := .setup } }

/-- `ncr5380_request_cancelled`, up to the settle loop. -/
def requestCancelled (a : Attached ρ) (req : ℕ) : Attached ρ :=
  if a.targ.sreq != some req then a else { a.targetFree with asked := false }

/-- A callback from inside a call of the layer, if there is one. -/
def backs (a : Attached ρ) (req : ℕ) : Option Callback → Attached ρ
  | some callback => a.back req callback
  | none => a

/-- `scsi_req_continue` for the current request. -/
def reqContinue (layer : Layer ρ) (a : Attached ρ) (buf : List Byte) : Attached ρ :=
  match a.targ.sreq with
  | some req =>
      let answer := layer.reqContinue a.scsi req buf
      backs { a with scsi := answer.2, asked := true } req answer.1
  | none => a

/-! ## The phases -/

/-- `scsi_req_new` and `scsi_req_enqueue`: the length and direction of the data, and a command that
is over already has called back. -/
def enqueue (layer : Layer ρ) (a : Attached ρ) : ℤ × Attached ρ :=
  let made := layer.reqNew a.scsi a.targ.selId a.targ.selLun a.targ.cdb
  let answer := layer.reqEnqueue made.2 made.1
  (answer.1,
    backs { a with targ := { a.targ with sreq := some made.1 }, scsi := answer.2.2, asked := true }
      made.1 (answer.2.1.map .complete))

/-- The phase from the direction, before the request goes on. -/
def direct (a : Attached ρ) (datalen : ℤ) : Attached ρ :=
  { a with
    chip := { a.chip with dirty := true }
    targ :=
      { a.targ with
        asyncBuf := none, asyncOff := 0, hs := .setup
        phase := if datalen > 0 then .dataIn else if datalen < 0 then .dataOut else a.targ.phase } }

/-- `ncr5380_target_command`: the CDB is complete. -/
def targetCommand (layer : Layer ρ) (a : Attached ρ) : Attached ρ :=
  if !layer.deviceFind a.scsi a.targ.selId a.targ.selLun then a.targetFree
  else
    let (datalen, enqueued) := a.enqueue layer
    let directed := enqueued.direct datalen
    if datalen != 0 then directed.reqContinue layer [] else directed

/-- `ncr5380_target_message`: whether MESSAGE OUT is over. -/
def targetMessage (layer : Layer ρ) (a : Attached ρ) (m : Byte) (atn : Bool) : Bool × Attached ρ :=
  if 0x80 ≤ m.toNat then (!atn, { a with targ := { a.targ with selLun := (m &&& 7).toNat } })
  else if m == msgAbort || m == msgBusDeviceReset then (true, (a.dropRequest layer).targetFree)
  else (!atn, a)

/-- The byte of a data phase is over, and with the last of them the buffer. -/
def nextByte (layer : Layer ρ) (a : Attached ρ) : Attached ρ :=
  let buf := a.targ.asyncBuf.getD []
  if a.targ.asyncOff + 1 < buf.length then
    { a with targ := { a.targ with asyncOff := a.targ.asyncOff + 1 } }
  else
    reqContinue layer { a with targ := { a.targ with asyncBuf := none, asyncOff := 0 } } buf

/-- `ncr5380_target_advance`: a byte has been handshaked. -/
def targetAdvance (layer : Layer ρ) (a : Attached ρ) (byte : Byte) (atn : Bool) : Attached ρ :=
  match a.targ.phase with
  | .msgOut =>
      let (ended, told) := a.targetMessage layer byte atn
      if ended && told.targ.phase == .msgOut then
        { told with targ := { told.targ with phase := .command, cdb := [], cdbLen := 0 } }
      else told
  | .command =>
      let cdb := if a.targ.cdb.length < cdbMax then a.targ.cdb ++ [byte] else a.targ.cdb
      let cdbLen :=
        if cdb.length == 1 then
          if layer.cdbLength byte ≤ 0 then 6 else (layer.cdbLength byte).toNat
        else a.targ.cdbLen
      let taken := { a with targ := { a.targ with cdb := cdb, cdbLen := cdbLen } }
      if cdb.length == cdbLen then taken.targetCommand layer else taken
  | .dataIn => a.nextByte layer
  | .dataOut =>
      nextByte layer
        { a with
          targ := { a.targ with asyncBuf := a.targ.asyncBuf.map (·.set a.targ.asyncOff byte) } }
  | .status => { a with targ := { a.targ with phase := .msgIn } }
  | .msgIn => a.targetFree
  | .free | .selected => a

/-- `ncr5380_target_handshake`. -/
def targetHandshake (layer : Layer ρ) (a : Attached ρ) : Attached ρ :=
  match a.targ.hs with
  | .setup =>
      if !a.targ.haveByte then
        { a with chip := { a.chip with peer := { a.chip.peer with req := false } } }
      else
        let data := if a.targ.isInput then a.targ.outByte else 0
        let dbp := if a.targ.isInput then Soft.dbp a.targ.outByte else false
        { a with
          chip :=
            { a.chip with
              peer := { a.chip.peer with data := data, dbp := dbp, req := true }
              dirty := true }
          targ := { a.targ with hs := .req } }
  | .req =>
      if a.chip.wires.ack then
        { a with
          chip := { a.chip with peer := { a.chip.peer with req := false }, dirty := true }
          targ :=
            { a.targ with
              hsByte := a.chip.wires.data, atnAtSelect := a.chip.wires.atn, hs := .rel } }
      else a
  | .rel =>
      if !a.chip.wires.ack then
        targetAdvance layer
          { a with chip := { a.chip with dirty := true }, targ := { a.targ with hs := .setup } }
          a.targ.hsByte a.targ.atnAtSelect
      else a

/-- `ncr5380_target_present`. -/
def targetPresent (layer : Layer ρ) (a : Attached ρ) (id : ℕ) : Bool :=
  (List.range 8).any (layer.deviceFind a.scsi id)

/-- `ncr5380_target_select`. -/
def targetSelect (layer : Layer ρ) (a : Attached ρ) : Attached ρ :=
  let ids := a.chip.wires.data &&& ~~~a.chip.arbId
  match (List.range 8).find? fun id => ids.getLsbD id && a.targetPresent layer id with
  | some id =>
      { a with
        chip := { a.chip with peer := { a.chip.peer with bsy := true }, dirty := true }
        targ :=
          { a.targ with
            selId := id, selLun := 0, atnAtSelect := a.chip.wires.atn, phase := .selected } }
  | none => a

/-- BSY, held by the target while it is connected. -/
def holdBsy (a : Attached ρ) : Attached ρ :=
  { a with chip := { a.chip with peer := { a.chip.peer with bsy := true } } }

/-- The target's reaction to the wires, before it sets the phase lines. -/
def targetReact (layer : Layer ρ) (a : Attached ρ) : Attached ρ :=
  match a.targ.phase with
  | .free =>
      if a.chip.wires.sel && !a.chip.wires.bsy && !a.chip.wires.io then a.targetSelect layer else a
  | .selected =>
      let held := a.holdBsy
      if !a.chip.wires.sel then
        { held with
          chip := { held.chip with dirty := true }
          targ :=
            { a.targ with
              phase := if a.targ.atnAtSelect || a.chip.wires.atn then .msgOut else .command
              hs := .setup, cdb := [], cdbLen := 0 } }
      else if a.chip.wires.atn then { held with targ := { a.targ with atnAtSelect := true } }
      else held
  | _ => a.holdBsy.targetHandshake layer

/-- `ncr5380_target_phase_lines`, for a connected target. -/
def targetPhaseLines (a : Attached ρ) : Attached ρ :=
  if a.targ.phase == .free then a
  else
    let lines := Target.phaseLines a.targ.phase
    { a with
      chip :=
        { a.chip with
          peer := { a.chip.peer with msg := lines.1, cd := lines.2.1, io := lines.2.2 } } }

/-- `ncr5380_target_settled`. -/
def targetSettled (layer : Layer ρ) (a : Attached ρ) : Attached ρ :=
  (a.targetReact layer).targetPhaseLines

/-! ## The settle loop -/

/-- `ncr5380_tick`; a reset of the bus reaches the target too. -/
def tick (layer : Layer ρ) (a : Attached ρ) : Attached ρ :=
  if a.chip.wires.rst && !a.chip.prevRst then
    { a.targetBusReset layer with chip := a.chip.tick }
  else { a with chip := a.chip.tick }

/-- The wires of the pass. -/
def combined (a : Attached ρ) : Attached ρ :=
  { a with chip := State.combine settleMax { a.chip with dirty := false } }

/-- One round of `ncr5380_settle`. -/
def pass (layer : Layer ρ) (a : Attached ρ) : Attached ρ :=
  let next := (a.combined.tick layer).targetSettled layer
  { next with
    chip := { next.chip with dirty := next.chip.dirty || !(a.chip.wires == next.chip.wires) } }

/-- The rounds, until one changes nothing. -/
def rounds (layer : Layer ρ) : ℕ → Attached ρ → Attached ρ
  | 0, a => a
  | n + 1, a => if (a.pass layer).chip.dirty then rounds layer n (a.pass layer) else a.pass layer

/-- `ncr5380_settle`. -/
def settle (layer : Layer ρ) (a : Attached ρ) : Attached ρ :=
  rounds layer settleMax a

/-! ## Calls -/

/-- A call of the board. -/
def perform (layer : Layer ρ) (a : Attached ρ) (call : Call) : Attached ρ :=
  settle layer { a with chip := call.enter a.chip }

/-- A callback while no loop is running. -/
def deliver (layer : Layer ρ) (a : Attached ρ) (req : ℕ) (callback : Callback) : Attached ρ :=
  if a.targ.sreq != some req then a else (a.back req callback).settle layer

/-- A request is cancelled while no loop is running. -/
def cancel (layer : Layer ρ) (a : Attached ρ) (req : ℕ) : Attached ρ :=
  if a.targ.sreq != some req then a else (a.requestCancelled req).settle layer

/-- `ncr5380_hard_reset`. -/
def hardReset (layer : Layer ρ) (a : Attached ρ) : Attached ρ :=
  settle layer (targetBusReset layer { a with chip := { wires := a.chip.wires } })

end Attached

end Wish5380.Soft
