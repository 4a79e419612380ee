import Wish5380.Chip.Model

/-!
# The software 5380

`ncr5380.c`, the chip of the QEMU patch, with no device on its SCSI bus.  It has no
clock: a register access changes the registers or raises a strobe, and the settle
loop then runs the wires and the sequential half to a fixed point.
-/

namespace Wish5380.Soft

/-! ## Registers and their bits -/

/-- A C truth value: does `r & mask` leave anything? -/
def has (r mask : Byte) : Bool :=
  r &&& mask != 0

def icrRst : Byte := 0x80
def icrAip : Byte := 0x40
def icrTest : Byte := 0x40
def icrLa : Byte := 0x20
def icrAck : Byte := 0x10
def icrBsy : Byte := 0x08
def icrSel : Byte := 0x04
def icrAtn : Byte := 0x02
def icrData : Byte := 0x01

def mrTarget : Byte := 0x40
def mrParChk : Byte := 0x20
def mrParIntr : Byte := 0x10
def mrEopIntr : Byte := 0x08
def mrMonBsy : Byte := 0x04
def mrDma : Byte := 0x02
def mrArb : Byte := 0x01

def tcrReq : Byte := 0x08
def tcrMsg : Byte := 0x04
def tcrCd : Byte := 0x02
def tcrIo : Byte := 0x01
def tcrRwMask : Byte := 0x0f

def csbRst : Byte := 0x80
def csbBsy : Byte := 0x40
def csbReq : Byte := 0x20
def csbMsg : Byte := 0x10
def csbCd : Byte := 0x08
def csbIo : Byte := 0x04
def csbSel : Byte := 0x02
def csbDbp : Byte := 0x01

def bsrEndDma : Byte := 0x80
def bsrDrq : Byte := 0x40
def bsrParErr : Byte := 0x20
def bsrIrq : Byte := 0x10
def bsrPhaseMatch : Byte := 0x08
def bsrBusyErr : Byte := 0x04
def bsrAtn : Byte := 0x02
def bsrAck : Byte := 0x01

def settleMax : ℕ := 64

/-- `ctpop8`: how many bits of the byte are set. -/
def ctpop8 (v : Byte) : ℕ :=
  ((List.range 8).filter v.getLsbD).length

/-- Odd parity: set when the byte has an even number of ones. -/
def dbp (v : Byte) : Bool :=
  ctpop8 v % 2 == 0

/-- The fields the DMA handshake moves. -/
structure Handshake where
  dmaSt : Chip.DmaSt := .idle
  dmaTgt : Bool := false
  drqRaw : Bool := false
  idr : Byte := 0
  deriving DecidableEq, Repr

/-- `NCR5380State`, without the pins and the target side: with no device attached that
side stays in its free phase and drives nothing. -/
structure State extends Handshake where
  odr : Byte := 0
  icr : Byte := 0
  mr : Byte := 0
  tcr : Byte := 0
  ser : Byte := 0
  aip : Bool := false
  lostArb : Bool := false
  arbActive : Bool := false
  arbId : Byte := 0
  parErr : Bool := false
  busyErr : Bool := false
  irqLatch : Bool := false
  endDma : Bool := false
  eop : Bool := false
  prevReq : Bool := false
  prevRst : Bool := false
  drv : Scsi := {}
  peer : Scsi := {}
  wires : Scsi := {}
  stCsdRd : Bool := false
  stRpi : Bool := false
  stSds : Bool := false
  stSdtr : Bool := false
  stSdir : Bool := false
  stDackRd : Bool := false
  stDackWr : Bool := false
  dirty : Bool := false
  deriving DecidableEq, Repr

namespace State

/-! ## The wires -/

/-- `ncr5380_phase_match`. -/
def phaseMatch (s : State) : Bool :=
  let onBus : Byte := (if s.wires.msg then 4 else 0) ||| (if s.wires.cd then 2 else 0) |||
    (if s.wires.io then 1 else 0)
  onBus == s.tcr &&& 0x07

/-- `ncr5380_drive`: what the chip drives when it sees `wires`. -/
def drive (s : State) : State :=
  let targetMode := has s.mr mrTarget
  let testMode := has s.icr icrTest
  let arbitrating := s.arbActive && has s.mr mrArb
  let dmaMode := has s.mr mrDma
  let en := !testMode
  let dmaAck := dmaMode && !s.dmaTgt && (s.dmaSt == .sHs || s.dmaSt == .rHs)
  let dmaReq := dmaMode && s.dmaTgt && (s.dmaSt == .sHs || s.dmaSt == .rWant)
  let driveData := arbitrating ||
    (has s.icr icrData && (targetMode || (!s.wires.io && s.phaseMatch)))
  { s with
    drv :=
      { rst := en && has s.icr icrRst
        bsy := en && (has s.icr icrBsy || arbitrating)
        sel := en && has s.icr icrSel
        atn := en && !targetMode && has s.icr icrAtn
        ack := en && !targetMode && (has s.icr icrAck || dmaAck)
        req := en && targetMode && (has s.tcr tcrReq || dmaReq)
        msg := en && targetMode && has s.tcr tcrMsg
        cd := en && targetMode && has s.tcr tcrCd
        io := en && targetMode && has s.tcr tcrIo
        data := if en && driveData then s.odr else 0
        dbp := if en && driveData then Soft.dbp s.odr else false } }

/-- One round of the inner loop. -/
def resolve (s : State) : State :=
  { s.drive with wires := s.drive.drv.or s.drive.peer }

/-- The inner loop of the settle loop: the combinational half to its own fixed point. -/
def combine : ℕ → State → State
  | 0, s => s
  | n + 1, s => if s.wires == s.resolve.wires then s.resolve else combine n s.resolve

/-! ## The sequential half -/

/-- `ncr5380_scsi_reset`. -/
def scsiReset (s : State) : State :=
  { s with
    odr := 0, icr := s.icr &&& icrRst, mr := 0, tcr := 0, ser := 0
    arbActive := false, lostArb := false, aip := false
    dmaSt := .idle, dmaTgt := false, drqRaw := false, idr := 0
    parErr := false, busyErr := false, endDma := false
    peer := {} }

/-- Every strobe is one pass wide. -/
def consume (s : State) : State :=
  { s with
    stCsdRd := false, stRpi := false, stSds := false, stSdtr := false, stSdir := false
    stDackRd := false, stDackWr := false }

/-- Arbitration. -/
def tickArb (s : State) : State :=
  if !has s.mr mrArb then { s with arbActive := false, lostArb := false, aip := false }
  else
    let begun :=
      if !s.arbActive && !s.wires.bsy && !s.wires.sel then
        { s with arbActive := true, arbId := s.odr, dirty := true }
      else s
    let lost :=
      if begun.arbActive && begun.wires.sel && !begun.drv.sel && !begun.lostArb then
        { begun with lostArb := true, dirty := true }
      else begun
    { lost with aip := lost.arbActive }

/-- `recv_latch`: only an enabled handshake latches. -/
def recvLatch (s : State) : Bool :=
  has s.mr mrDma && s.dmaSt == .rWant &&
    (if s.dmaTgt then s.wires.ack else s.wires.req && s.phaseMatch)

/-- The switch over the states of the handshake. -/
def dmaSwitch (s : State) : Handshake :=
  let h := s.toHandshake
  match s.dmaSt with
  | .idle =>
      if s.stSds then { h with dmaSt := .sWant, dmaTgt := has s.mr mrTarget, drqRaw := true }
      else if s.stSdtr then { h with dmaSt := .rWant, dmaTgt := true }
      else if s.stSdir then { h with dmaSt := .rWant, dmaTgt := false }
      else h
  | .sWant => if s.stDackWr then { h with drqRaw := false, dmaSt := .sHave } else h
  | .sHave =>
      if s.dmaTgt || (s.wires.req && s.phaseMatch) then { h with dmaSt := .sHs } else h
  | .sHs =>
      if s.dmaTgt then
        if s.wires.ack then { h with dmaSt := .sTrel } else h
      else if !s.wires.req then { h with dmaSt := .sWant, drqRaw := true }
      else h
  | .sTrel => if !s.wires.ack then { h with dmaSt := .sWant, drqRaw := true } else h
  | .rWant =>
      if s.recvLatch then { h with idr := s.wires.data, drqRaw := true, dmaSt := .rHave } else h
  | .rHave => if s.stDackRd then { h with drqRaw := false, dmaSt := .rHs } else h
  | .rHs =>
      if (if s.dmaTgt then !s.wires.ack else !s.wires.req) then { h with dmaSt := .rWant } else h

/-- The DMA handshake. -/
def tickDma (s : State) : State :=
  if !has s.mr mrDma then
    let halted :=
      if s.dmaSt != .idle || s.drqRaw then { s with dmaSt := .idle, drqRaw := false, dirty := true }
      else s
    { halted with endDma := false }
  else
    let moved := { s with toHandshake := s.dmaSwitch }
    let traced := if moved.dmaSt != s.dmaSt then { moved with dirty := true } else moved
    if traced.eop && (traced.stDackRd || traced.stDackWr) then { traced with endDma := true }
    else traced

/-- The parity and loss-of-BSY latches and what a loss of BSY takes away. -/
def tickLatches (s : State) (parityBad recvLatch selInt busyLost : Bool) : State :=
  let parity :=
    if s.stRpi then { s with parErr := false }
    else if has s.mr mrParChk && parityBad && (s.stCsdRd || recvLatch || selInt) then
      { s with parErr := true }
    else s
  let busy :=
    if parity.stRpi then { parity with busyErr := false, dirty := true }
    else if busyLost then { parity with busyErr := true, dirty := true }
    else parity
  if busyLost then { busy with icr := busy.icr &&& 0xc0, mr := busy.mr &&& 0xfd } else busy

/-- The interrupt latch. -/
def tickIrq (s : State) (raised : Bool) : State :=
  if s.stRpi then { s with irqLatch := false }
  else if raised then
    { s with irqLatch := true, dirty := if !s.irqLatch then true else s.dirty }
  else s

/-- `ncr5380_tick`: one pass of the sequential half. -/
def tick (s : State) : State :=
  let targetMode := has s.mr mrTarget
  let dmaMode := has s.mr mrDma
  let reqRise := s.wires.req && !s.prevReq
  let scsiRst := s.wires.rst && !s.prevRst
  let bsyFalse := !s.wires.bsy
  let parityBad := s.wires.dbp != Soft.dbp s.wires.data
  let selInt := s.wires.sel && !s.wires.bsy && has s.wires.data s.ser && bsyFalse
  let mismatchInt := dmaMode && !targetMode && reqRise && !s.phaseMatch
  let busyLost := has s.mr mrMonBsy && bsyFalse && !s.busyErr
  let eopInt := has s.mr mrEopIntr && s.eop && dmaMode
  let latch := s.recvLatch
  let parityInt := has s.mr mrParChk && has s.mr mrParIntr && parityBad && (s.stCsdRd || latch)
  let seen := { s with prevReq := s.wires.req, prevRst := s.wires.rst }
  if scsiRst then { seen.scsiReset with irqLatch := true, dirty := true }.consume
  else
    ((seen.tickArb.tickDma.tickLatches parityBad latch selInt busyLost).tickIrq
      (selInt || eopInt || parityInt || mismatchInt || busyLost)).consume

/-! ## The settle loop -/

/-- One round of `ncr5380_settle`. -/
def pass (s : State) : State :=
  let next := (combine settleMax { s with dirty := false }).tick
  { next with dirty := next.dirty || !(s.wires == next.wires) }

/-- The rounds, until one changes nothing. -/
def rounds : ℕ → State → State
  | 0, s => s
  | n + 1, s => if s.pass.dirty then rounds n s.pass else s.pass

/-- `ncr5380_settle`. -/
def settle (s : State) : State :=
  rounds settleMax s

/-! ## The register port -/

def drq (s : State) : Bool :=
  s.drqRaw && has s.mr mrDma

/-- `ncr5380_bsr`. -/
def bsr (s : State) : Byte :=
  (if s.endDma && has s.mr mrDma then bsrEndDma else 0) ||| (if s.drq then bsrDrq else 0) |||
    (if s.parErr then bsrParErr else 0) ||| (if s.irqLatch then bsrIrq else 0) |||
    (if s.phaseMatch then bsrPhaseMatch else 0) ||| (if s.busyErr then bsrBusyErr else 0) |||
    (if s.wires.atn then bsrAtn else 0) ||| (if s.wires.ack then bsrAck else 0)

/-- `ncr5380_csb`. -/
def csb (s : State) : Byte :=
  (if s.wires.rst then csbRst else 0) ||| (if s.wires.bsy then csbBsy else 0) |||
    (if s.wires.req then csbReq else 0) ||| (if s.wires.msg then csbMsg else 0) |||
    (if s.wires.cd then csbCd else 0) ||| (if s.wires.io then csbIo else 0) |||
    (if s.wires.sel then csbSel else 0) ||| (if s.wires.dbp then csbDbp else 0)

/-- What `ncr5380_reg_read` returns. -/
def readValue (s : State) (reg : BitVec 3) : Byte :=
  match reg.toNat with
  | 0 => s.wires.data
  | 1 => (s.icr &&& ~~~(icrAip ||| icrLa)) ||| (if s.aip then icrAip else 0) |||
      (if s.lostArb && has s.mr mrArb then icrLa else 0)
  | 2 => s.mr
  | 3 => s.tcr &&& tcrRwMask
  | 4 => s.csb
  | 5 => s.bsr
  | 6 => s.idr
  | _ => 0

/-- The strobe `ncr5380_reg_read` raises. -/
def readStrobe (s : State) (reg : BitVec 3) : State :=
  match reg.toNat with
  | 0 => { s with stCsdRd := true }
  | 7 => { s with stRpi := true }
  | _ => s

/-- `ncr5380_reg_read`, after the value is taken. -/
def regRead (s : State) (reg : BitVec 3) : State :=
  (s.readStrobe reg).settle

/-- What `ncr5380_reg_write` changes before it settles. -/
def written (s : State) (reg : BitVec 3) (val : Byte) : State :=
  match reg.toNat with
  | 0 => { s with odr := val }
  | 1 => { s with icr := val }
  | 2 => { s with mr := if !s.wires.bsy then val &&& 0xfd else val }
  | 3 => { s with tcr := val }
  | 4 => { s with ser := val }
  | 5 => { s with stSds := true }
  | 6 => { s with stSdtr := true }
  | _ => { s with stSdir := true }

/-- `ncr5380_reg_write`. -/
def regWrite (s : State) (reg : BitVec 3) (val : Byte) : State :=
  (s.written reg val).settle

/-- `ncr5380_dack_read`, after the value is taken. -/
def dackRead (s : State) : State :=
  settle { s with stDackRd := true }

/-- `ncr5380_dack_write`. -/
def dackWrite (s : State) (val : Byte) : State :=
  settle { s with odr := val, stDackWr := true }

/-- `ncr5380_set_eop`. -/
def setEop (s : State) (asserted : Bool) : State :=
  settle { s with eop := asserted }

/-- `ncr5380_hard_reset`: everything but the wires, which settle by themselves. -/
def hardReset (s : State) : State :=
  settle { wires := s.wires }

end State

end Wish5380.Soft
