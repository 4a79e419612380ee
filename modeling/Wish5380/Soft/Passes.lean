import Wish5380.Clocked.Feedback
import Wish5380.Soft.Core
import Wish5380.Soft.Model

/-!
# The passes of the software

Each round of the settle loop is a pass of the core with BSY believed, and a round
that reports nothing new leaves a settled core behind.
-/

namespace Wish5380.Soft

namespace State

/-- The core of the software's state. -/
def core (c : State) : Core where
  regs := { odr := c.odr, icr := c.icr, mr := c.mr, tcr := c.tcr, ser := c.ser }
  rst := c.prevRst
  arb := c.arbActive
  dmaSt := c.dmaSt
  dmaTgt := c.dmaTgt
  drq := c.drqRaw
  idr := c.idr
  parErr := c.parErr
  busyErr := c.busyErr
  irq := c.irqLatch

end State

namespace Core

/-- The interrupt of a pass. -/
def raisesIrq (a : Chip.Port) (k : Core) : Bool :=
  k.selInt true || k.parityErr && k.regs.parIntrEn && (a.csdRd || k.latch) || k.busyLost true

/-- The handshake moves. -/
def moves (a : Chip.Port) (k : Core) : Bool :=
  if k.regs.dmaMode then (k.dma a).dmaSt != k.dmaSt else k.dmaSt != .idle || k.drq

/-- What a pass without a reset reports. -/
def news (a : Chip.Port) (k : Core) : Bool :=
  (k.regs.arbitrate && !k.arb && k.begins true) || k.moves a || a.rpi || k.busyLost true ||
    (!a.rpi && k.raisesIrq a && !k.irq)

end Core

/-! ## Bits -/

theorem has_mask : ∀ r : Byte, has r 0x80 = r.getLsbD 7 ∧ has r 0x40 = r.getLsbD 6 ∧
    has r 0x20 = r.getLsbD 5 ∧ has r 0x10 = r.getLsbD 4 ∧ has r 0x08 = r.getLsbD 3 ∧
    has r 0x04 = r.getLsbD 2 ∧ has r 0x02 = r.getLsbD 1 ∧ has r 0x01 = r.getLsbD 0 := by
  decide +kernel

theorem dbp_eq : ∀ v : Byte, dbp v = dbpOf v := by
  decide +kernel

/-- The phase lines as a number and as a vector. -/
theorem onBus_eq : ∀ (msg cd io : Bool) (tcr : Byte),
    (((if msg then 4 else 0) ||| (if cd then 2 else 0) ||| (if io then 1 else 0) : Byte) ==
      tcr &&& 0x07) =
    (BitVec.ofBool msg ++ BitVec.ofBool cd ++ BitVec.ofBool io == tcr.extractLsb' 0 3) := by
  decide +kernel

namespace State

section Bits

variable (c : State)

theorem phaseMatch_eq : c.phaseMatch = c.core.chip.phaseMatch c.wires :=
  onBus_eq _ _ _ _

theorem has_mr : has c.mr mrTarget = c.core.regs.targetMode ∧
    has c.mr mrParChk = c.core.regs.parChk ∧ has c.mr mrParIntr = c.core.regs.parIntrEn ∧
    has c.mr mrMonBsy = c.core.regs.monitorBsy ∧ has c.mr mrDma = c.core.regs.dmaMode ∧
    has c.mr mrArb = c.core.regs.arbitrate := by
  obtain ⟨-, target, check, interrupt, -, monitor, dma, arb⟩ := has_mask c.mr
  exact ⟨target, check, interrupt, monitor, dma, arb⟩

theorem has_icr : has c.icr icrRst = c.core.regs.icrRst ∧ has c.icr icrTest = c.core.regs.testMode ∧
    has c.icr icrAck = c.core.regs.icrAck ∧ has c.icr icrBsy = c.core.regs.icrBsy ∧
    has c.icr icrSel = c.core.regs.icrSel ∧ has c.icr icrAtn = c.core.regs.icrAtn ∧
    has c.icr icrData = c.core.regs.icrData := by
  obtain ⟨rst, test, -, ack, bsy, sel, atn, data⟩ := has_mask c.icr
  exact ⟨rst, test, ack, bsy, sel, atn, data⟩

theorem has_tcr : has c.tcr tcrReq = c.core.regs.tcrReq ∧ has c.tcr tcrMsg = c.core.regs.tcrMsg ∧
    has c.tcr tcrCd = c.core.regs.tcrCd ∧ has c.tcr tcrIo = c.core.regs.tcrIo := by
  obtain ⟨-, -, -, -, req, msg, cd, io⟩ := has_mask c.tcr
  exact ⟨req, msg, cd, io⟩

end Bits

/-! ## The wires -/

/-- What the software drives is what the chip does. -/
theorem drive_eq (c : State) : c.drive = { c with drv := c.core.chip.drive c.wires } := by
  obtain ⟨target, -, -, -, dma, arb⟩ := c.has_mr
  obtain ⟨rst, test, ack, bsy, sel, atn, data⟩ := c.has_icr
  obtain ⟨req, msg, cd, io⟩ := c.has_tcr
  have gate : ∀ b x : Bool, (if b then x else false) = (b && x) := by decide
  simp only [drive, target, dma, arb, rst, test, ack, bsy, sel, atn, data, req, msg, cd, io,
    phaseMatch_eq, dbp_eq, gate]
  rfl

/-- The state with other wires. -/
def wired (c : State) (drv wires : Scsi) : State :=
  { c with drv := drv, wires := wires }

theorem resolve_eq (c : State) :
    c.resolve = c.wired (c.core.chip.drive c.wires) ((c.core.chip.drive c.wires).or c.peer) := by
  rw [resolve, drive_eq]
  rfl

theorem resolve_wired {c : State} (peer : c.peer = {}) (d w : Scsi) :
    (c.wired d w).resolve = c.wired (c.core.chip.drive w) (c.core.chip.drive w) := by
  have alone : (c.core.chip.drive w).or c.peer = c.core.chip.drive w := by
    simp [peer, Scsi.or]
  calc (c.wired d w).resolve
      = c.wired (c.core.chip.drive w) ((c.core.chip.drive w).or c.peer) := resolve_eq _
    _ = c.wired (c.core.chip.drive w) (c.core.chip.drive w) := by rw [alone]

/-- Turning the loop touches the wires and nothing else. -/
theorem iterate_resolve (c : State) (k : ℕ) :
    ∃ drv wires, State.resolve^[k] c = c.wired drv wires := by
  induction k with
  | zero => exact ⟨c.drv, c.wires, rfl⟩
  | succ k ih =>
      obtain ⟨drv, wires, is⟩ := ih
      rw [Function.iterate_succ_apply', is, resolve_eq]
      exact ⟨_, _, rfl⟩

/-- The inner loop turns the wires until they rest. -/
theorem combine_turn (bound : ℕ) (c : State) :
    combine bound c = Clocked.turnUntilSettled State.resolve State.wires bound c := by
  induction bound generalizing c with
  | zero => rfl
  | succ bound ih =>
      rw [combine, Clocked.turnUntilSettled, ih]
      simp only [beq_iff_eq]

/-- What the chip drives beside `rest`, given the wires: the loop sees the phase. -/
theorem feeds (s : Chip.State) (rest : Scsi) :
    Clocked.Feeds (fun w => (s.drive w).or rest) (fun w => (w.phase, w.io)) where
  congr _ _ same := by
    obtain ⟨phase, io⟩ := Prod.mk.inj same
    simp only [s.drive_congr phase io]
  shows _ _ := rfl

theorem follows (c : State) : Clocked.Follows State.resolve State.wires
    (fun w => (c.core.chip.drive w).or c.peer) c := by
  intro k
  obtain ⟨drv, wires, is⟩ := c.iterate_resolve k
  rw [Function.iterate_succ_apply', is, resolve_eq]
  rfl

/-- The inner loop ends on the settled wires, whatever it begins on. -/
theorem combine_settles {c : State} {w : Scsi} (settled : w = (c.core.chip.drive w).or c.peer)
    (bound : ℕ) : combine (bound + 3) c = c.wired (c.core.chip.drive w) w := by
  obtain ⟨k, last, there⟩ := (feeds c.core.chip c.peer).last_turn c.follows settled bound
  obtain ⟨drv, wires, is⟩ := c.iterate_resolve k
  obtain rfl : wires = w := by rw [← there, is]; rfl
  rw [combine_turn, last, is]
  calc (c.wired drv wires).resolve
      = c.wired (c.core.chip.drive wires) ((c.core.chip.drive wires).or c.peer) := resolve_eq _
    _ = c.wired (c.core.chip.drive wires) wires := by rw [← settled]

theorem combine_eq {c : State} (peer : c.peer = {}) :
    combine settleMax c = c.wired c.core.bus c.core.bus := by
  have settled : c.core.bus = (c.core.chip.drive c.core.bus).or c.peer := by
    rw [← c.core.bus_eq]
    simp [peer, Scsi.or]
  have ends := combine_settles settled 61
  rwa [← c.core.bus_eq] at ends

/-! ## One pass -/

/-- The strobes that stand are those of `a`. -/
structure Raised (a : Chip.Port) (c : State) : Prop where
  csdRd : c.stCsdRd = a.csdRd
  rpi : c.stRpi = a.rpi
  sds : c.stSds = a.sds
  sdtr : c.stSdtr = a.sdtr
  sdir : c.stSdir = a.sdir
  dackRd : c.stDackRd = a.dackRd
  dackWr : c.stDackWr = a.dackWr

/-- What the core leaves out: nobody else on the bus, no End of Process, nobody to lose
an arbitration to. -/
structure Alone (c : State) : Prop where
  peer : c.peer = {}
  eop : c.eop = false
  lost : c.lostArb = false
  endDma : c.endDma = false

section Tick

variable {c : State}

/-- Arbitration begins, and was not under way. -/
def starts (c : State) : Bool :=
  has c.mr mrArb && !c.arbActive && !c.wires.bsy && !c.wires.sel

theorem tickArb_own (own : c.drv.sel = c.wires.sel) : c.tickArb =
    { c with
      arbActive := has c.mr mrArb && (c.arbActive || c.starts)
      lostArb := has c.mr mrArb && c.lostArb
      aip := has c.mr mrArb && (c.arbActive || c.starts)
      arbId := if c.starts then c.odr else c.arbId
      dirty := c.dirty || c.starts } := by
  cases on : has c.mr mrArb with
  | false => simp [tickArb, starts, on]
  | true =>
      cases begun : !c.arbActive && !c.wires.bsy && !c.wires.sel with
      | true =>
          have bare := begun
          simp only [Bool.and_eq_true, Bool.not_eq_true'] at bare
          simp [tickArb, starts, on, bare.1.1, bare.1.2, bare.2]
      | false =>
          have ours : (c.arbActive && c.wires.sel && !c.drv.sel && !c.lostArb) = false := by
            rw [own]
            cases c.wires.sel <;> simp
          simp only [tickArb, starts, on, Bool.not_true, Bool.false_eq_true, if_false, ours,
            begun, Bool.true_and, Bool.or_false]

theorem tickArb_eq (lost : c.lostArb = false) (own : c.drv.sel = c.wires.sel) : c.tickArb =
    { c with
      arbActive := has c.mr mrArb && (c.arbActive || !c.wires.bsy && !c.wires.sel)
      aip := has c.mr mrArb && (c.arbActive || !c.wires.bsy && !c.wires.sel)
      arbId := if c.starts then c.odr else c.arbId
      dirty := c.dirty || c.starts } := by
  have active : (has c.mr mrArb && (c.arbActive || c.starts)) =
      (has c.mr mrArb && (c.arbActive || !c.wires.bsy && !c.wires.sel)) := by
    unfold starts
    cases has c.mr mrArb <;> cases c.arbActive <;> simp
  have kept : (has c.mr mrArb && c.lostArb) = c.lostArb := by
    rw [lost, Bool.and_false]
  rw [tickArb_own own, active, kept]

/-- With DMA MODE on the handshake latches as the core says. -/
theorem recvLatch_eq (wires : c.wires = c.core.bus) : c.recvLatch = c.core.latch := by
  rw [recvLatch, phaseMatch_eq, wires, c.has_mr.2.2.2.2.1, Core.latch, Bool.and_assoc]
  rfl

/-- The fields of the handshake as the chip has them. -/
def handshake (e : Chip.Engine) : Handshake where
  dmaSt := e.dmaSt
  dmaTgt := e.dmaTgt
  drqRaw := e.drqQ
  idr := e.idrQ

/-- The switch takes the handshake's step. -/
theorem dmaSwitch_eq {a : Chip.Port} (raised : Raised a c) (wires : c.wires = c.core.bus)
    (on : c.core.regs.dmaMode = true) :
    c.dmaSwitch = handshake (c.core.chip.dmaStep a c.core.bus) := by
  have is : c.core.chip.eng.dmaSt = c.dmaSt := rfl
  have tgt : c.core.chip.eng.dmaTgt = c.dmaTgt := rfl
  have role : has c.mr mrTarget = c.core.chip.regs.targetMode := c.has_mr.1
  have reqOk : (c.core.bus.req && c.phaseMatch) = c.core.chip.reqOk c.core.bus := by
    rw [phaseMatch_eq, wires]
    rfl
  have latch : c.recvLatch = c.core.chip.recvLatch c.core.bus := by
    rw [recvLatch_eq wires, Core.latch, on, Bool.true_and]
  simp only [dmaSwitch, Chip.State.dmaStep, is, reqOk, latch, raised.sds, raised.sdtr, raised.sdir,
    raised.dackRd, raised.dackWr, role, wires, tgt]
  cases c.dmaSt with
  | idle => cases a.sds <;> cases a.sdtr <;> cases a.sdir <;> rfl
  | sWant => cases a.dackWr <;> rfl
  | sHave => cases c.dmaTgt <;> cases c.core.chip.reqOk c.core.bus <;> rfl
  | sHs => cases c.dmaTgt <;> cases c.core.bus.ack <;> cases c.core.bus.req <;> rfl
  | sTrel => cases c.core.bus.ack <;> rfl
  | rWant => cases c.core.chip.recvLatch c.core.bus <;> rfl
  | rHave => cases a.dackRd <;> rfl
  | rHs => cases c.dmaTgt <;> cases c.core.bus.ack <;> cases c.core.bus.req <;> rfl

/-- The handshake moves to `e`. -/
def moves (e : Chip.Engine) (c : State) : Bool :=
  if has c.mr mrDma then e.dmaSt != c.dmaSt else c.dmaSt != .idle || c.drqRaw

/-- The handshake after the pass. -/
def dmaNext (c : State) : Handshake :=
  if has c.mr mrDma then c.dmaSwitch else { c.toHandshake with dmaSt := .idle, drqRaw := false }

/-- The handshake moves, or is halted. -/
def dmaNews (c : State) : Bool :=
  if has c.mr mrDma then c.dmaSwitch.dmaSt != c.dmaSt else c.dmaSt != .idle || c.drqRaw

/-- END OF DMA after the pass. -/
def ends (c : State) : Bool :=
  has c.mr mrDma && (c.endDma || c.eop && (c.stDackRd || c.stDackWr))

theorem tickDma_all : c.tickDma =
    { c with toHandshake := c.dmaNext, endDma := c.ends, dirty := c.dirty || c.dmaNews } := by
  cases on : has c.mr mrDma with
  | true =>
      cases moved : c.dmaSwitch.dmaSt != c.dmaSt <;>
        cases done : c.eop && (c.stDackRd || c.stDackWr) <;>
        simp [tickDma, dmaNext, dmaNews, ends, on, moved, done]
  | false =>
      cases busy : c.dmaSt != .idle || c.drqRaw with
      | true => simp [tickDma, dmaNext, dmaNews, ends, on, busy]
      | false =>
          have rests : { c.toHandshake with dmaSt := .idle, drqRaw := false } = c.toHandshake := by
            simp only [Bool.or_eq_false_iff, bne_eq_false_iff_eq] at busy
            rw [← busy.1, ← busy.2]
          simp [tickDma, dmaNext, dmaNews, ends, on, busy, rests]

theorem tickDma_eq {e : Chip.Engine} (eop : c.eop = false) (endDma : c.endDma = false)
    (switch : has c.mr mrDma = true → c.dmaSwitch = handshake e)
    (halts : has c.mr mrDma = false →
      { c.toHandshake with dmaSt := .idle, drqRaw := false } = handshake e) :
    c.tickDma = { c with toHandshake := handshake e, dirty := c.dirty || c.moves e } := by
  have next : c.dmaNext = handshake e := by
    unfold dmaNext
    split_ifs with on
    · exact switch on
    · exact halts (eq_false_of_ne_true on)
  have news : c.dmaNews = c.moves e := by
    unfold dmaNews moves
    split_ifs with on
    · rw [switch on]
      rfl
    · rfl
  have kept : c.ends = c.endDma := by
    rw [ends, eop, endDma]
    simp
  rw [tickDma_all, next, news, kept]

theorem tickLatches_eq (parityBad latch selInt busyLost : Bool) :
    c.tickLatches parityBad latch selInt busyLost =
      { c with
        parErr := !c.stRpi &&
          (c.parErr || has c.mr mrParChk && parityBad && (c.stCsdRd || latch || selInt))
        busyErr := !c.stRpi && (c.busyErr || busyLost)
        dirty := c.dirty || c.stRpi || busyLost
        icr := if busyLost then c.icr &&& 0xc0 else c.icr
        mr := if busyLost then c.mr &&& 0xfd else c.mr } := by
  obtain ⟨h, odr, icr, mr, tcr, ser, aip, lost, arb, id, parErr, busyErr, irq, endDma, eop, req, rst,
    drv, peer, wires, csdRd, rpi, sds, sdtr, sdir, dackRd, dackWr, dirty⟩ := c
  simp only [tickLatches]
  cases has mr mrParChk && parityBad && (csdRd || latch || selInt) <;> cases rpi <;>
    cases busyLost <;> simp

theorem tickIrq_eq (raised : Bool) : c.tickIrq raised =
    { c with
      irqLatch := !c.stRpi && (c.irqLatch || raised)
      dirty := c.dirty || (!c.stRpi && raised && !c.irqLatch) } := by
  obtain ⟨h, odr, icr, mr, tcr, ser, aip, lost, arb, id, parErr, busyErr, irq, endDma, eop, req, rst,
    drv, peer, wires, csdRd, rpi, sds, sdtr, sdir, dackRd, dackWr, dirty⟩ := c
  simp only [tickIrq]
  cases rpi <;> cases irq <;> cases raised <;> simp

section Core

variable (wires : c.wires = c.core.bus)
include wires

theorem scsiRst_eq : (c.wires.rst && !c.prevRst) = c.core.sclr := by
  rw [wires]
  rfl

theorem selInt_eq : (c.wires.sel && !c.wires.bsy && has c.wires.data c.ser && !c.wires.bsy) =
    c.core.selInt true := by
  rw [Core.selInt, Chip.State.selMatch, ← wires]
  show _ = (true && (c.wires.sel && !c.wires.bsy && has c.wires.data c.ser))
  cases c.wires.bsy <;> simp

theorem busyLost_eq : (has c.mr mrMonBsy && !c.wires.bsy && !c.busyErr) = c.core.busyLost true := by
  rw [c.has_mr.2.2.2.1, Core.busyLost, wires, Bool.and_true]
  rfl

theorem parityErr_eq : (has c.mr mrParChk && (c.wires.dbp != dbp c.wires.data)) =
    c.core.parityErr := by
  rw [c.has_mr.2.1, dbp_eq, wires]
  rfl

/-- Alone on the bus an initiator sees no REQ. -/
theorem mismatchInt_eq : (has c.mr mrDma && !has c.mr mrTarget && (c.wires.req && !c.prevReq) &&
    !c.phaseMatch) = false := by
  rw [c.has_mr.1, wires, Core.bus_req]
  cases c.core.regs.targetMode <;> simp

end Core

/-- A pass without a reset, field by field. -/
theorem tick_eq {a : Chip.Port} (alone : Alone c) (raised : Raised a c)
    (wires : c.wires = c.core.bus) (own : c.drv.sel = c.wires.sel) (calm : c.core.sclr = false) :
    c.tick = consume { c with
      prevReq := c.wires.req
      prevRst := c.wires.rst
      arbActive := has c.mr mrArb && (c.arbActive || !c.wires.bsy && !c.wires.sel)
      aip := has c.mr mrArb && (c.arbActive || !c.wires.bsy && !c.wires.sel)
      arbId := if c.starts then c.odr else c.arbId
      toHandshake := handshake (c.core.dma a)
      parErr := !a.rpi &&
        (c.parErr || c.core.parityErr && (a.csdRd || c.core.latch || c.core.selInt true))
      busyErr := !a.rpi && (c.busyErr || c.core.busyLost true)
      icr := if c.core.busyLost true then c.icr &&& 0xc0 else c.icr
      mr := if c.core.busyLost true then c.mr &&& 0xfd else c.mr
      irqLatch := !a.rpi && (c.irqLatch || c.core.raisesIrq a)
      dirty := c.dirty || c.core.news a } := by
  have parity : ∀ b, (has c.mr mrParChk && (c.wires.dbp != dbp c.wires.data) && b) =
      (c.core.parityErr && b) := by
    intro b
    rw [parityErr_eq wires]
  have interrupt : (has c.mr mrParChk && has c.mr mrParIntr && (c.wires.dbp != dbp c.wires.data) &&
      (c.stCsdRd || c.recvLatch)) =
      (c.core.parityErr && c.core.regs.parIntrEn && (a.csdRd || c.core.latch)) := by
    rw [← parityErr_eq wires, c.has_mr.2.2.1, raised.csdRd, recvLatch_eq wires]
    cases c.core.regs.parIntrEn <;> simp
  have switch : has c.mr mrDma = true → c.dmaSwitch = handshake (c.core.dma a) := by
    intro on
    rw [c.has_mr.2.2.2.2.1] at on
    rw [Core.dma, if_pos on]
    exact dmaSwitch_eq raised wires on
  have halts : has c.mr mrDma = false →
      { c.toHandshake with dmaSt := .idle, drqRaw := false } = handshake (c.core.dma a) := by
    intro off
    rw [c.has_mr.2.2.2.2.1] at off
    rw [Core.dma, if_neg (by simp [off])]
    rfl
  have eopInt : (has c.mr mrEopIntr && c.eop && has c.mr mrDma) = false := by simp [alone.eop]
  let seen : State := { c with prevReq := c.wires.req, prevRst := c.wires.rst }
  let arb : State := { seen with
    arbActive := has c.mr mrArb && (c.arbActive || !c.wires.bsy && !c.wires.sel)
    aip := has c.mr mrArb && (c.arbActive || !c.wires.bsy && !c.wires.sel)
    arbId := if c.starts then c.odr else c.arbId
    dirty := c.dirty || c.starts }
  have first : seen.tickArb = arb := tickArb_eq (c := seen) alone.lost own
  have second : arb.tickDma =
      { arb with
        toHandshake := handshake (c.core.dma a)
        dirty := c.dirty || c.starts || c.moves (c.core.dma a) } :=
    tickDma_eq (c := arb) alone.eop alone.endDma switch halts
  simp only [tick, scsiRst_eq wires, calm, selInt_eq wires, busyLost_eq wires, mismatchInt_eq wires,
    interrupt, eopInt, Bool.false_eq_true, if_false]
  rw [show State.tickArb { c with prevReq := c.wires.req, prevRst := c.wires.rst } = arb from first,
    second, tickLatches_eq, tickIrq_eq]
  have starts : c.starts = (c.core.regs.arbitrate && !c.core.arb && c.core.begins true) := by
    rw [State.starts, c.has_mr.2.2.2.2.2, Core.begins, wires, Bool.true_and, Bool.and_assoc]
    rfl
  have moves : c.moves (c.core.dma a) = c.core.moves a := by
    rw [State.moves, c.has_mr.2.2.2.2.1]
    rfl
  have news : (c.dirty || c.core.news a) = (c.dirty || (c.starts || (c.moves (c.core.dma a) ||
      (a.rpi || (c.core.busyLost true || !a.rpi && c.core.raisesIrq a && !c.irqLatch))))) := by
    rw [Core.news, starts, moves]
    simp only [Bool.or_assoc]
    rfl
  simp only [consume, arb, seen, parity, recvLatch_eq wires, raised.csdRd, raised.rpi, news,
    Core.raisesIrq, Bool.or_false, Bool.or_assoc]

/-- What holds between passes: no strobe stands, nobody else is there, and AIP follows
arbitration. -/
structure Resting (c : State) : Prop extends Alone c where
  raised : Raised Core.quiet c
  aip : c.aip = (c.core.arb && c.core.regs.arbitrate)

theorem tick_core {a : Chip.Port} (alone : Alone c) (raised : Raised a c)
    (wires : c.wires = c.core.bus) (own : c.drv.sel = c.wires.sel) :
    c.tick.core = c.core.tick true a ∧ Resting c.tick ∧ c.tick.wires = c.wires ∧
      c.tick.dirty = (c.dirty || c.core.sclr || c.core.news a) := by
  cases rises : c.core.sclr with
  | true =>
      have is : c.tick = consume { scsiReset { c with
          prevReq := c.wires.req, prevRst := c.wires.rst } with irqLatch := true, dirty := true } := by
        simp only [tick, scsiRst_eq wires, rises, if_true]
      have rst : c.wires.rst = true := by
        rw [← scsiRst_eq wires, Bool.and_eq_true] at rises
        exact rises.1
      rw [Core.tick_of_sclr rises, is]
      refine ⟨?_, ⟨⟨rfl, alone.eop, rfl, rfl⟩, ⟨rfl, rfl, rfl, rfl, rfl, rfl, rfl⟩, rfl⟩, rfl,
        by simp [consume]⟩
      ext1
      · rfl
      · exact rst
      · rfl
      · rfl
      · rfl
      · rfl
      · rfl
      · rfl
      · rfl
      · rfl
  | false =>
      have arb : (has c.mr mrArb && (c.arbActive || !c.wires.bsy && !c.wires.sel)) =
          (c.core.regs.arbitrate && (c.core.arb || c.core.begins true)) := by
        rw [c.has_mr.2.2.2.2.2, Core.begins, wires, Bool.true_and]
        rfl
      rw [Core.tick_of_calm rises, tick_eq alone raised wires own rises, arb]
      refine ⟨?_, ⟨⟨alone.peer, alone.eop, alone.lost, alone.endDma⟩,
        ⟨rfl, rfl, rfl, rfl, rfl, rfl, rfl⟩, ?_⟩, rfl, by simp [consume]⟩
      · ext1
        · show Chip.Regs.mk _ _ _ _ _ = _
          simp only [Core.moved]
          cases c.core.busyLost true <;> rfl
        · show c.wires.rst = c.core.bus.rst
          rw [wires]
        · rfl
        · rfl
        · rfl
        · rfl
        · rfl
        · rfl
        · rfl
        · show (!a.rpi && (c.irqLatch || c.core.raisesIrq a)) = (c.core.moved true a).irq
          simp only [Core.moved, Core.raisesIrq, Bool.or_assoc]
          rfl
      · have kept : (if c.core.busyLost true then c.mr &&& 0xfd else c.mr).getLsbD 0 =
            c.core.regs.arbitrate := by
          split_ifs
          · simp [Chip.Regs.arbitrate, core]
          · rfl
        show (c.core.regs.arbitrate && _) = (c.core.regs.arbitrate && _ &&
          (if c.core.busyLost true then c.mr &&& 0xfd else c.mr).getLsbD 0)
        rw [kept]
        cases c.core.regs.arbitrate <;> simp

/-- A round of the settle loop. -/
theorem pass_core {a : Chip.Port} (alone : Alone c) (raised : Raised a c) :
    c.pass.core = c.core.tick true a ∧ Resting c.pass ∧ c.pass.wires = c.core.bus ∧
      c.pass.dirty = (c.core.sclr || c.core.news a || !(c.wires == c.core.bus)) := by
  let d : State := { c with dirty := false }
  have wired : combine settleMax d = d.wired c.core.bus c.core.bus := combine_eq alone.peer
  obtain ⟨core, resting, wires, dirty⟩ := tick_core (c := d.wired c.core.bus c.core.bus) (a := a)
    ⟨alone.peer, alone.eop, alone.lost, alone.endDma⟩
    ⟨raised.csdRd, raised.rpi, raised.sds, raised.sdtr, raised.sdir, raised.dackRd, raised.dackWr⟩
    rfl rfl
  rw [← wired] at core resting wires dirty
  have same : (combine settleMax d).core = c.core := by
    rw [wired]
    rfl
  have settled : (combine settleMax d).wires = c.core.bus := by
    rw [wired]
    rfl
  rw [same] at core dirty
  rw [settled] at wires
  have shape : c.pass = { (combine settleMax d).tick with
      dirty := (combine settleMax d).tick.dirty || !(c.wires == (combine settleMax d).tick.wires) } :=
    rfl
  rw [shape]
  generalize (combine settleMax d).tick = x at core resting wires dirty ⊢
  obtain ⟨csdRd, rpi, sds, sdtr, sdir, dackRd, dackWr⟩ := resting.raised
  refine ⟨core, ⟨⟨resting.peer, resting.eop, resting.lost, resting.endDma⟩,
    ⟨csdRd, rpi, sds, sdtr, sdir, dackRd, dackWr⟩, resting.aip⟩, wires, ?_⟩
  show (x.dirty || !(c.wires == x.wires)) = _
  rw [dirty, wires, wired]
  rfl

end Tick

end State

/-! ## A round without news -/

namespace Core

section News

variable {a : Chip.Port} {k : Core}

/-- A handshake that does not move changes nothing. -/
theorem Waiting.dma_still (waiting : k.Waiting) (dack : a.dack = false)
    (still : k.moves a = false) : k.dma a = k.chip.eng := by
  have is : k.chip.eng.dmaSt = k.dmaSt := rfl
  rw [moves] at still
  cases on : k.regs.dmaMode with
  | false =>
      simp only [on, Bool.false_eq_true, if_false, Bool.or_eq_false_iff, bne_eq_false_iff_eq] at still
      simp [dma, on, chip, still.1, still.2]
  | true =>
      have dackRd : a.dackRd = false := by simp [Chip.Port.dackRd, dack]
      have dackWr : a.dackWr = false := by simp [Chip.Port.dackWr, dack]
      simp only [on, if_true, bne_eq_false_iff_eq, dma] at still
      rw [dma, if_pos on]
      rcases waiting with st | st | st | st
      · simp only [Chip.State.dmaStep, is, st] at still ⊢
        revert still
        cases a.sds <;> cases a.sdtr <;> cases a.sdir <;> simp
      · simp [Chip.State.dmaStep, is, st, dackWr]
      · simp only [Chip.State.dmaStep, is, st] at still ⊢
        revert still
        cases k.chip.recvLatch k.bus <;> simp
      · simp [Chip.State.dmaStep, is, st, dackRd]

theorem Waiting.latch_still (waiting : k.Waiting) (still : k.moves a = false) :
    k.latch = false := by
  cases latches : k.latch with
  | false => rfl
  | true =>
      have is : k.chip.eng.dmaSt = k.dmaSt := rfl
      have both := latches
      rw [latch, Bool.and_eq_true] at both
      rw [waiting.latch_eq, Bool.and_eq_true, Bool.and_eq_true, beq_iff_eq] at latches
      simp [moves, dma, both.1, Chip.State.dmaStep, is, latches.1.2, both.2] at still

/-- A pass without news leaves a settled core, on the wires it found. -/
theorem settled_of_news (waiting : k.Waiting) (dack : a.dack = false) (calm : k.sclr = false)
    (none : k.news a = false) : (k.tick true a).Settled ∧ (k.tick true a).bus = k.bus := by
  simp only [Core.news, Bool.or_eq_false_iff] at none
  obtain ⟨⟨⟨⟨start, still⟩, rpi⟩, lost⟩, irq⟩ := none
  have eng := waiting.dma_still dack still
  have latch := waiting.latch_still still
  rw [tick_of_calm calm]
  have waiting' := waiting.moved_access (f := true) dack
  have arb : (k.regs.arbitrate && (k.arb || k.begins true)) = (k.regs.arbitrate && k.arb) := by
    revert start
    cases k.regs.arbitrate <;> cases k.arb <;> simp
  generalize next : k.moved true a = n at waiting' ⊢
  have fields : n.regs = k.regs ∧ n.rst = k.bus.rst ∧ n.arb = (k.regs.arbitrate && k.arb) ∧
      n.dmaSt = k.dmaSt ∧ n.dmaTgt = k.dmaTgt ∧ n.drq = k.drq ∧ n.idr = k.idr ∧
      n.busyErr = k.busyErr := by
    rw [← next]
    simp only [Core.moved, lost, eng, arb, rpi]
    simp [chip]
  obtain ⟨regs, rst, arb', st, tgt, drq, idr, err⟩ := fields
  have bus : n.bus = k.bus := by
    refine bus_eq_of regs ?_ (fun _ => ?_) (fun _ => ?_)
    · simp only [Chip.State.arbitrating, chip, arb', regs]
      cases k.regs.arbitrate <;> simp
    · rw [waiting'.ack, waiting.ack]
    · rw [waiting'.req, waiting.req, regs, tgt, st]
  have selInt : n.selInt true = k.selInt true := by
    simp [Core.selInt, Chip.State.selMatch, bus, chip, regs]
  have parityErr : n.parityErr = k.parityErr := by simp [Core.parityErr, bus, regs]
  have latch' : n.latch = false := by
    rw [waiting'.latch_eq, regs, st, tgt, ← waiting.latch_eq, latch]
  have kept : n.busyLost true = false := by
    rw [← lost]
    simp [busyLost, regs, bus, err]
  have parErr : n.parErr = (k.parErr || k.parityErr && (a.csdRd || k.latch || k.selInt true)) := by
    rw [← next]
    simp [Core.moved, rpi]
  have irq' : n.irq = (k.irq || k.raisesIrq a) := by
    rw [← next]
    simp [Core.moved, rpi, raisesIrq, Bool.or_assoc]
  have eng' : n.dma quiet = n.chip.eng := by
    rw [waiting'.dma_rest, latch', regs]
    cases on : k.regs.dmaMode with
    | true => rfl
    | false =>
        simp only [moves, on, Bool.false_eq_true, if_false, Bool.or_eq_false_iff,
          bne_eq_false_iff_eq] at still
        simp [chip, st, drq, still.1, still.2]
  refine ⟨?_, bus⟩
  rw [Settled, tick_of_calm (by rw [← next]; exact moved_sclr true a k)]
  ext1
  · simp [Core.moved, kept]
  · simp [Core.moved, bus, rst]
  · simp only [Core.moved, regs, Core.begins, bus, arb']
    rw [← arb, Core.begins]
    cases k.regs.arbitrate <;> simp
  · rw [Core.moved, eng']
    rfl
  · rw [Core.moved, eng']
    rfl
  · rw [Core.moved, eng']
    rfl
  · rw [Core.moved, eng']
    rfl
  · simp only [Core.moved, parErr, parityErr, latch', selInt, quiet_rpi, quiet_csdRd]
    cases k.parErr <;> cases k.parityErr <;> cases a.csdRd <;> cases k.latch <;>
      cases k.selInt true <;> rfl
  · simp [Core.moved, kept]
  · simp only [Core.moved, irq', parityErr, latch', selInt, kept, quiet_rpi, quiet_csdRd, raisesIrq]
    cases k.irq <;> cases k.selInt true <;> simp

/-- A settled core has no news. -/
theorem Settled.news (settled : k.Settled) : k.news quiet = false := by
  have is := settled.moved_eq
  have arb := congrArg Core.arb is
  have st := congrArg Core.dmaSt is
  have drq := congrArg Core.drq is
  have irq := congrArg Core.irq is
  have kept := settled.kept true
  simp only [Core.moved, quiet_rpi, quiet_csdRd, Bool.not_false, Bool.true_and, Bool.false_or, kept,
    Bool.or_false] at arb st drq irq
  have still : k.moves quiet = false := by
    rw [moves]
    cases on : k.regs.dmaMode with
    | true => simp [st]
    | false =>
        simp only [dma, on] at st drq
        simp [← st, ← drq]
  have start : (k.regs.arbitrate && !k.arb && k.begins true) = false := by
    revert arb
    cases k.regs.arbitrate <;> cases k.arb <;> cases k.begins true <;> simp
  have latched : (k.raisesIrq quiet && !k.irq) = false := by
    rw [raisesIrq, kept, quiet_csdRd, Bool.or_false, Bool.false_or]
    revert irq
    cases k.irq <;> cases k.selInt true <;> simp
  simp [Core.news, start, still, kept, latched]

end News

end Core

end Wish5380.Soft
