import Wish5380.Bus.Wires
import Wish5380.Clocked.Run

/-!
# The 5380

`wish5380.sv`: the register file (`sci_regs.sv`) and the engine behind it
(`sci_bus.sv`).  The two step together: each reads the other as it was before
the edge.
-/

namespace Wish5380.Chip

/-- The module's parameter, with the source's default. -/
structure Params where
  clkPeriodPs : ℕ := 20000
  deriving DecidableEq, Repr

namespace Params

def tBusFree (p : Params) : ℕ :=
  (400000 + p.clkPeriodPs - 1) / p.clkPeriodPs

def tBusSettle (p : Params) : ℕ :=
  (400000 + p.clkPeriodPs - 1) / p.clkPeriodPs

def tMax (p : Params) : ℕ :=
  if p.tBusSettle < p.tBusFree then p.tBusFree else p.tBusSettle

/-- `CNT_W`, the width of the counter of clocks BSY has been false. -/
def cntW (p : Params) : ℕ :=
  clog2 (p.tMax + 1)

def nMax (p : Params) : ℕ :=
  p.tMax % 2 ^ p.cntW

def nBusFree (p : Params) : ℕ :=
  p.tBusFree % 2 ^ p.cntW

def nBusSettle (p : Params) : ℕ :=
  p.tBusSettle % 2 ^ p.cntW

/-- The two delays are one, and the counter is wide enough for it. -/
theorem tMax_eq (p : Params) : p.tMax = p.tBusFree := by
  simp [tMax, tBusSettle, tBusFree]

theorem nBusFree_eq (p : Params) : p.nBusFree = p.tBusFree := by
  rw [nBusFree, cntW, tMax_eq]
  exact mod_two_pow_clog2 _

theorem nBusSettle_eq (p : Params) : p.nBusSettle = p.tBusFree :=
  p.nBusFree_eq

theorem nMax_eq (p : Params) : p.nMax = p.tBusFree := by
  rw [nMax, tMax_eq]
  exact p.nBusFree_eq

end Params

/-! ## The microprocessor port -/

/-- One cycle of the port, and the End of Process pin. -/
structure Port where
  stb : Bool := false
  we : Bool := false
  dack : Bool := false
  adr : BitVec 3 := 0
  dat : Byte := 0
  eop : Bool := false
  deriving DecidableEq, Repr

namespace Port

/-- A DACK access is a data transfer and never a strobe. -/
def decode (a : Port) : Bool :=
  a.stb && !a.dack

def csdRd (a : Port) : Bool :=
  a.decode && !a.we && a.adr == 0

def rpi (a : Port) : Bool :=
  a.decode && !a.we && a.adr == 7

def sds (a : Port) : Bool :=
  a.decode && a.we && a.adr == 5

def sdtr (a : Port) : Bool :=
  a.decode && a.we && a.adr == 6

def sdir (a : Port) : Bool :=
  a.decode && a.we && a.adr == 7

def dackRd (a : Port) : Bool :=
  a.stb && !a.we && a.dack

def dackWr (a : Port) : Bool :=
  a.stb && a.we && a.dack

end Port

/-! ## The register file -/

/-- `sci_regs`: the five registers that hold something. -/
structure Regs where
  odr : Byte := 0
  icr : Byte := 0
  mr : Byte := 0
  tcr : Byte := 0
  ser : Byte := 0
  deriving DecidableEq, Repr

namespace Regs

def icrRst (r : Regs) : Bool := r.icr.getLsbD 7
def testMode (r : Regs) : Bool := r.icr.getLsbD 6
def icrAck (r : Regs) : Bool := r.icr.getLsbD 4
def icrBsy (r : Regs) : Bool := r.icr.getLsbD 3
def icrSel (r : Regs) : Bool := r.icr.getLsbD 2
def icrAtn (r : Regs) : Bool := r.icr.getLsbD 1
def icrData (r : Regs) : Bool := r.icr.getLsbD 0

def targetMode (r : Regs) : Bool := r.mr.getLsbD 6
def parChk (r : Regs) : Bool := r.mr.getLsbD 5
def parIntrEn (r : Regs) : Bool := r.mr.getLsbD 4
def eopIntrEn (r : Regs) : Bool := r.mr.getLsbD 3
def monitorBsy (r : Regs) : Bool := r.mr.getLsbD 2
def dmaMode (r : Regs) : Bool := r.mr.getLsbD 1
def arbitrate (r : Regs) : Bool := r.mr.getLsbD 0

def tcrReq (r : Regs) : Bool := r.tcr.getLsbD 3
def tcrMsg (r : Regs) : Bool := r.tcr.getLsbD 2
def tcrCd (r : Regs) : Bool := r.tcr.getLsbD 1
def tcrIo (r : Regs) : Bool := r.tcr.getLsbD 0

/-- `tcr[2:0]`, the phase an initiator expects. -/
def tcrPhase (r : Regs) : BitVec 3 :=
  r.tcr.extractLsb' 0 3

/-- An access that writes.  The DMA MODE bit is refused while BSY is false. -/
def write (r : Regs) (a : Port) (bsy : Bool) : Regs :=
  if a.dack then { r with odr := a.dat }
  else
    match a.adr.toNat with
    | 0 => { r with odr := a.dat }
    | 1 => { r with icr := a.dat }
    | 2 => { r with mr := if bsy then a.dat else a.dat &&& 0xfd }
    | 3 => { r with tcr := a.dat }
    | 4 => { r with ser := a.dat }
    | _ => r

/-- An SCSI reset clears the registers but leaves ASSERT RST standing. -/
def scsiClear (r : Regs) : Regs :=
  { odr := 0, icr := r.icr &&& 0x80, mr := 0, tcr := 0, ser := 0 }

/-- The engine's own clears, on an unexpected loss of BSY. -/
def busyClear (r : Regs) : Regs :=
  { r with icr := r.icr &&& 0xc0, mr := r.mr &&& 0xfd }

/-- One edge of the register file with the RESET pin released. -/
def next (r : Regs) (a : Port) (bsy sclr busyLost : Bool) : Regs :=
  let written := if sclr then r.scsiClear else if a.stb && a.we then r.write a bsy else r
  if busyLost then written.busyClear else written

end Regs

/-! ## The engine -/

/-- `dma_st`: what a DMA transfer is waiting for. -/
inductive DmaSt where
  | idle | sWant | sHave | sHs | sTrel | rWant | rHave | rHs
  deriving DecidableEq, Repr

/-- `sci_bus`: the engine's registers. -/
structure Engine where
  reqQ : Bool := false
  rstQ : Bool := false
  freeCnt : ℕ := 0
  arbActive : Bool := false
  laQ : Bool := false
  dmaSt : DmaSt := .idle
  dmaTgt : Bool := false
  drqQ : Bool := false
  idrQ : Byte := 0
  endDmaQ : Bool := false
  parErrQ : Bool := false
  busyErrQ : Bool := false
  irqQ : Bool := false
  deriving DecidableEq, Repr

/-- The whole chip.  The values the RESET pin loads are the ones it defaults to. -/
structure State where
  regs : Regs := {}
  eng : Engine := {}
  deriving DecidableEq, Repr

namespace State

/-! ### What the engine drives -/

def phaseMatch (s : State) (bus : Scsi) : Bool :=
  bus.phase == s.regs.tcrPhase

def arbitrating (s : State) : Bool :=
  s.eng.arbActive && s.regs.arbitrate

def dmaAck (s : State) : Bool :=
  s.regs.dmaMode && !s.eng.dmaTgt && (s.eng.dmaSt == .sHs || s.eng.dmaSt == .rHs)

def dmaReq (s : State) : Bool :=
  s.regs.dmaMode && s.eng.dmaTgt && (s.eng.dmaSt == .sHs || s.eng.dmaSt == .rWant)

/-- The Output Data Register reaches the bus during arbitration, and afterwards
under ASSERT DATA BUS when the phase allows it. -/
def driveData (s : State) (bus : Scsi) : Bool :=
  s.arbitrating || (s.regs.icrData && (s.regs.targetMode || (!bus.io && s.phaseMatch bus)))

/-- TEST MODE floats every output driver. -/
def drvEn (s : State) : Bool :=
  !s.regs.testMode

/-- `drive_o`. -/
def drive (s : State) (bus : Scsi) : Scsi where
  rst := s.drvEn && s.regs.icrRst
  bsy := s.drvEn && (s.regs.icrBsy || s.arbitrating)
  sel := s.drvEn && s.regs.icrSel
  atn := s.drvEn && !s.regs.targetMode && s.regs.icrAtn
  ack := s.drvEn && !s.regs.targetMode && (s.regs.icrAck || s.dmaAck)
  req := s.drvEn && s.regs.targetMode && (s.regs.tcrReq || s.dmaReq)
  msg := s.drvEn && s.regs.targetMode && s.regs.tcrMsg
  cd := s.drvEn && s.regs.targetMode && s.regs.tcrCd
  io := s.drvEn && s.regs.targetMode && s.regs.tcrIo
  data := if s.drvEn && s.driveData bus then s.regs.odr else 0
  dbp := s.drvEn && s.driveData bus && dbpOf s.regs.odr

/-! ### What it sees -/

def drq (s : State) : Bool :=
  s.eng.drqQ && s.regs.dmaMode

def endDma (s : State) : Bool :=
  s.eng.endDmaQ && s.regs.dmaMode

def aip (s : State) : Bool :=
  s.arbitrating

def la (s : State) : Bool :=
  s.eng.laQ && s.regs.arbitrate

def busFree (p : Params) (s : State) (bus : Scsi) : Bool :=
  decide (p.nBusFree ≤ s.eng.freeCnt) && !bus.bsy

def bsySettledFalse (p : Params) (s : State) (bus : Scsi) : Bool :=
  decide (p.nBusSettle ≤ s.eng.freeCnt) && !bus.bsy

/-- A phase mismatch prevents the recognition of REQ. -/
def reqOk (s : State) (bus : Scsi) : Bool :=
  bus.req && s.phaseMatch bus

def recvLatch (s : State) (bus : Scsi) : Bool :=
  s.eng.dmaSt == .rWant && (if s.eng.dmaTgt then bus.ack else s.reqOk bus)

def selMatch (s : State) (bus : Scsi) : Bool :=
  bus.sel && !bus.bsy && (bus.data &&& s.regs.ser) != 0

def selInt (p : Params) (s : State) (bus : Scsi) : Bool :=
  s.selMatch bus && s.bsySettledFalse p bus

def parityBad (bus : Scsi) : Bool :=
  bus.dbp != dbpOf bus.data

def busyLost (p : Params) (s : State) (bus : Scsi) : Bool :=
  s.regs.monitorBsy && s.bsySettledFalse p bus && !s.eng.busyErrQ

def phaseMismatchInt (s : State) (bus : Scsi) : Bool :=
  s.regs.dmaMode && !s.regs.targetMode && bus.req && !s.eng.reqQ && !s.phaseMatch bus

/-- `scsi_rst_int`, which is also `sclr_o`. -/
def sclr (s : State) (bus : Scsi) : Bool :=
  bus.rst && !s.eng.rstQ

def eopInt (s : State) (a : Port) : Bool :=
  s.regs.eopIntrEn && a.eop && s.regs.dmaMode

def parityInt (s : State) (a : Port) (bus : Scsi) : Bool :=
  s.regs.parChk && s.regs.parIntrEn && parityBad bus && (a.csdRd || s.recvLatch bus)

/-! ### One edge -/

/-- `free_cnt`. -/
def nextFreeCnt (p : Params) (s : State) (bus : Scsi) : ℕ :=
  if bus.bsy then 0
  else if s.eng.freeCnt ≠ p.nMax then (s.eng.freeCnt + 1) % 2 ^ p.cntW
  else s.eng.freeCnt

/-- `arb_active` and `la_q`. -/
def nextArb (p : Params) (s : State) (bus : Scsi) : Bool × Bool :=
  if s.sclr bus then (false, false)
  else if !s.regs.arbitrate then (false, false)
  else
    (s.eng.arbActive || (s.busFree p bus && !bus.sel),
      s.eng.laQ || (s.eng.arbActive && bus.sel && !(s.drive bus).sel))

/-- The DMA handshake inside one period of DMA MODE. -/
def dmaStep (s : State) (a : Port) (bus : Scsi) : Engine :=
  let e := s.eng
  match e.dmaSt with
  | .idle =>
      if a.sds then { e with dmaSt := .sWant, dmaTgt := s.regs.targetMode, drqQ := true }
      else if a.sdtr then { e with dmaSt := .rWant, dmaTgt := true }
      else if a.sdir then { e with dmaSt := .rWant, dmaTgt := false }
      else e
  | .sWant => if a.dackWr then { e with drqQ := false, dmaSt := .sHave } else e
  | .sHave =>
      if e.dmaTgt then { e with dmaSt := .sHs }
      else if s.reqOk bus then { e with dmaSt := .sHs }
      else e
  | .sHs =>
      if e.dmaTgt then
        if bus.ack then { e with dmaSt := .sTrel } else e
      else if !bus.req then { e with dmaSt := .sWant, drqQ := true }
      else e
  | .sTrel => if !bus.ack then { e with dmaSt := .sWant, drqQ := true } else e
  | .rWant =>
      if s.recvLatch bus then { e with idrQ := bus.data, drqQ := true, dmaSt := .rHave } else e
  | .rHave => if a.dackRd then { e with drqQ := false, dmaSt := .rHs } else e
  | .rHs =>
      if (if e.dmaTgt then !bus.ack else !bus.req) then { e with dmaSt := .rWant } else e

/-- `dma_st`, `dma_tgt`, `drq_q` and `idr_q`. -/
def nextDma (s : State) (a : Port) (bus : Scsi) : Engine :=
  if s.sclr bus then { s.eng with dmaSt := .idle, dmaTgt := false, drqQ := false, idrQ := 0 }
  else if !s.regs.dmaMode then { s.eng with dmaSt := .idle, drqQ := false }
  else s.dmaStep a bus

def nextEndDma (s : State) (a : Port) (bus : Scsi) : Bool :=
  if s.sclr bus then false
  else if !s.regs.dmaMode then false
  else s.eng.endDmaQ || (a.eop && (a.dackRd || a.dackWr))

def nextParErr (p : Params) (s : State) (a : Port) (bus : Scsi) : Bool :=
  if s.sclr bus then false
  else if a.rpi then false
  else s.eng.parErrQ ||
    (s.regs.parChk && parityBad bus && (a.csdRd || s.recvLatch bus || s.selInt p bus))

def nextBusyErr (p : Params) (s : State) (a : Port) (bus : Scsi) : Bool :=
  if s.sclr bus then false
  else if a.rpi then false
  else s.eng.busyErrQ || s.busyLost p bus

/-- An SCSI reset spares the interrupt latch. -/
def nextIrq (p : Params) (s : State) (a : Port) (bus : Scsi) : Bool :=
  if a.rpi then false
  else s.eng.irqQ || s.selInt p bus || s.eopInt a || s.sclr bus || s.parityInt a bus ||
    s.phaseMismatchInt bus || s.busyLost p bus

/-- One edge of the engine with the RESET pin released. -/
def nextEng (p : Params) (s : State) (a : Port) (bus : Scsi) : Engine :=
  { s.nextDma a bus with
    reqQ := bus.req
    rstQ := bus.rst
    freeCnt := s.nextFreeCnt p bus
    arbActive := (s.nextArb p bus).1
    laQ := (s.nextArb p bus).2
    endDmaQ := s.nextEndDma a bus
    parErrQ := s.nextParErr p a bus
    busyErrQ := s.nextBusyErr p a bus
    irqQ := s.nextIrq p a bus }

/-- One edge of the chip with the RESET pin released. -/
def next (p : Params) (s : State) (a : Port) (bus : Scsi) : State where
  regs := s.regs.next a bus.bsy (s.sclr bus) (s.busyLost p bus)
  eng := s.nextEng p a bus

/-! ### What the host reads -/

/-- Initiator Command with AIP and LA where TEST MODE and DIFF ENBL were written. -/
def icrRd (s : State) : Byte :=
  (s.regs.icr &&& 0x9f) ||| (BitVec.ofBool s.aip).setWidth 8 <<< 6 |||
    (BitVec.ofBool s.la).setWidth 8 <<< 5

/-- Current SCSI Bus Status. -/
def csb (bus : Scsi) : Byte :=
  BitVec.ofBool bus.rst ++ BitVec.ofBool bus.bsy ++ BitVec.ofBool bus.req ++
    BitVec.ofBool bus.msg ++ BitVec.ofBool bus.cd ++ BitVec.ofBool bus.io ++
    BitVec.ofBool bus.sel ++ BitVec.ofBool bus.dbp

/-- Bus and Status. -/
def bsr (s : State) (bus : Scsi) : Byte :=
  BitVec.ofBool s.endDma ++ BitVec.ofBool s.drq ++ BitVec.ofBool s.eng.parErrQ ++
    BitVec.ofBool s.eng.irqQ ++ BitVec.ofBool (s.phaseMatch bus) ++
    BitVec.ofBool s.eng.busyErrQ ++ BitVec.ofBool bus.atn ++ BitVec.ofBool bus.ack

/-- `dat_o`. -/
def datO (s : State) (a : Port) (bus : Scsi) : Byte :=
  if a.dack then s.eng.idrQ
  else
    match a.adr.toNat with
    | 0 => bus.data
    | 1 => s.icrRd
    | 2 => s.regs.mr
    | 3 => s.regs.tcr &&& 0x0f
    | 4 => csb bus
    | 5 => s.bsr bus
    | 6 => s.eng.idrQ
    | _ => 0x00

end State

/-! ## The chip on the fabric -/

/-- The data lines depend on the phase lines and nothing depends on the data
lines, so the wires settle after the control lines have: `rest` is what the
other ports drive. -/
def settle (s : State) (rest : Scsi) : Scsi :=
  scsiFabric (s.drive (scsiFabric (s.drive rest) rest {} {})) rest {} {}

/-- The same with two chips on the fabric. -/
def settleBoth (s t : State) : Scsi :=
  let wires := scsiFabric (s.drive {}) (t.drive {}) {} {}
  scsiFabric (s.drive wires) (t.drive wires) {} {}

end Wish5380.Chip
