import Wish5380.Chip.Steps

/-!
# A chip alone on its bus

What the hardware 5380 and the software one have in common: the registers and the
latches, without the clock of the one and the wires the other stores.  A pass of
either is a `tick`; whether BSY has been false for long enough is an argument of it,
always true in software and counted out in hardware.
-/

namespace Wish5380.Soft

/-- The state the two models share. -/
@[ext]
structure Core where
  regs : Chip.Regs := {}
  rst : Bool := false
  arb : Bool := false
  dmaSt : Chip.DmaSt := .idle
  dmaTgt : Bool := false
  drq : Bool := false
  idr : Byte := 0
  parErr : Bool := false
  busyErr : Bool := false
  irq : Bool := false
  deriving DecidableEq, Repr

namespace Core

/-- The chip in that state. -/
def chip (k : Core) : Chip.State where
  regs := k.regs
  eng :=
    { rstQ := k.rst, arbActive := k.arb, dmaSt := k.dmaSt, dmaTgt := k.dmaTgt, drqQ := k.drq
      idrQ := k.idr, parErrQ := k.parErr, busyErrQ := k.busyErr, irqQ := k.irq }

/-- The wires, when nobody else drives them. -/
def bus (k : Core) : Scsi :=
  Chip.settle k.chip {}

/-! ## One pass -/

def sclr (k : Core) : Bool :=
  k.bus.rst && !k.rst

/-- A byte is latched, by a handshake that DMA MODE enables. -/
def latch (k : Core) : Bool :=
  k.regs.dmaMode && k.chip.recvLatch k.bus

def selInt (f : Bool) (k : Core) : Bool :=
  f && k.chip.selMatch k.bus

def busyLost (f : Bool) (k : Core) : Bool :=
  k.regs.monitorBsy && f && !k.bus.bsy && !k.busyErr

/-- Arbitration begins. -/
def begins (f : Bool) (k : Core) : Bool :=
  f && !k.bus.bsy && !k.bus.sel

/-- The handshake's step. -/
def dma (a : Chip.Port) (k : Core) : Chip.Engine :=
  if k.regs.dmaMode then k.chip.dmaStep a k.bus
  else { k.chip.eng with dmaSt := .idle, drqQ := false }

/-- A parity error under a check of parity. -/
def parityErr (k : Core) : Bool :=
  k.regs.parChk && Chip.State.parityBad k.bus

/-- An SCSI reset. -/
def cleared (k : Core) : Core :=
  { regs := k.regs.scsiClear, rst := true, irq := true }

/-- A pass without a reset, with the strobes of `a`. -/
def moved (f : Bool) (a : Chip.Port) (k : Core) : Core where
  regs := if k.busyLost f then k.regs.busyClear else k.regs
  rst := k.bus.rst
  arb := k.regs.arbitrate && (k.arb || k.begins f)
  dmaSt := (k.dma a).dmaSt
  dmaTgt := (k.dma a).dmaTgt
  drq := (k.dma a).drqQ
  idr := (k.dma a).idrQ
  parErr := !a.rpi && (k.parErr || k.parityErr && (a.csdRd || k.latch || k.selInt f))
  busyErr := !a.rpi && (k.busyErr || k.busyLost f)
  irq := !a.rpi && (k.irq || k.selInt f ||
    k.parityErr && k.regs.parIntrEn && (a.csdRd || k.latch) || k.busyLost f)

def tick (f : Bool) (a : Chip.Port) (k : Core) : Core :=
  if k.sclr then k.cleared else k.moved f a

theorem tick_of_sclr {f : Bool} {a : Chip.Port} {k : Core} (rises : k.sclr = true) :
    k.tick f a = k.cleared := by
  simp [tick, rises]

theorem tick_of_calm {f : Bool} {a : Chip.Port} {k : Core} (calm : k.sclr = false) :
    k.tick f a = k.moved f a := by
  simp [tick, calm]

/-! ## The wires of a chip alone -/

section Wires

variable (k : Core)

theorem bus_eq : k.bus = k.chip.drive k.bus := by
  have fixed := Chip.settle_eq k.chip {}
  rw [← bus] at fixed
  conv_lhs => rw [fixed]
  simp [Scsi.or]

theorem bus_rst : k.bus.rst = (!k.regs.testMode && k.regs.icrRst) := by
  rw [bus_eq]
  rfl

theorem bus_sel : k.bus.sel = (!k.regs.testMode && k.regs.icrSel) := by
  rw [bus_eq]
  rfl

theorem bus_bsy :
    k.bus.bsy = (!k.regs.testMode && (k.regs.icrBsy || (k.arb && k.regs.arbitrate))) := by
  rw [bus_eq]
  rfl

theorem bus_ack : k.bus.ack =
    (!k.regs.testMode && !k.regs.targetMode && (k.regs.icrAck || k.chip.dmaAck)) := by
  rw [bus_eq]
  rfl

theorem bus_req : k.bus.req =
    (!k.regs.testMode && k.regs.targetMode && (k.regs.tcrReq || k.chip.dmaReq)) := by
  rw [bus_eq]
  rfl

end Wires

/-- What the chip drives is decided by the registers, by whether it arbitrates, and by
the two lines of the handshake, each in its own role. -/
theorem drive_eq_of {s s' : Chip.State} (regs : s'.regs = s.regs)
    (arb : s'.arbitrating = s.arbitrating)
    (ack : s.regs.targetMode = false → s'.dmaAck = s.dmaAck)
    (req : s.regs.targetMode = true → s'.dmaReq = s.dmaReq) (b : Scsi) :
    s'.drive b = s.drive b := by
  cases role : s.regs.targetMode with
  | false =>
      simp [Chip.State.drive, Chip.State.driveData, Chip.State.phaseMatch, Chip.State.drvEn, regs,
        arb, ack role, role]
  | true =>
      simp [Chip.State.drive, Chip.State.driveData, Chip.State.phaseMatch, Chip.State.drvEn, regs,
        arb, req role, role]

theorem bus_eq_of {k k' : Core} (regs : k'.regs = k.regs)
    (arb : k'.chip.arbitrating = k.chip.arbitrating)
    (ack : k.regs.targetMode = false → k'.chip.dmaAck = k.chip.dmaAck)
    (req : k.regs.targetMode = true → k'.chip.dmaReq = k.chip.dmaReq) : k'.bus = k.bus := by
  have same : ∀ b, k'.chip.drive b = k.chip.drive b := drive_eq_of regs arb ack req
  simp only [bus, Chip.settle, same]

/-! ## Without a DMA cycle -/

/-- No access. -/
def quiet : Chip.Port := {}

@[simp] theorem quiet_rpi : quiet.rpi = false :=
  rfl

@[simp] theorem quiet_csdRd : quiet.csdRd = false :=
  rfl

/-- The line a receive waits for, as the registers drive it. -/
def line (r : Chip.Regs) (tgt : Bool) : Bool :=
  !r.testMode && (if tgt then !r.targetMode && r.icrAck else r.targetMode && r.tcrReq)

/-- No byte has been moved by DMA: the handshake is not begun, or waits for the host. -/
def Waiting (k : Core) : Prop :=
  k.dmaSt = .idle ∨ k.dmaSt = .sWant ∨ k.dmaSt = .rWant ∨ k.dmaSt = .rHave

section Waiting

variable {k : Core}

theorem Waiting.ack (waiting : k.Waiting) : k.chip.dmaAck = false := by
  rcases waiting with st | st | st | st <;> simp [Chip.State.dmaAck, chip, st]

theorem Waiting.req (waiting : k.Waiting) :
    k.chip.dmaReq = (k.regs.dmaMode && k.dmaTgt && k.dmaSt == .rWant) := by
  simp only [Chip.State.dmaReq, chip]
  rcases waiting with st | st | st | st <;> rw [st] <;> rfl

/-- A chip that drives the phase lines matches the phase. -/
theorem phaseMatch_of_role (role : k.regs.targetMode = true) (drives : k.regs.testMode = false) :
    k.chip.phaseMatch k.bus = true := by
  have phase : k.bus.phase = k.regs.tcrPhase := by
    rw [bus_eq, ← Chip.Regs.tcrPhase_eq]
    simp [Scsi.phase, Chip.State.drive, Chip.State.drvEn, chip, role, drives]
  simp [Chip.State.phaseMatch, phase, chip]

/-- A receive alone on the bus waits for a register. -/
theorem Waiting.recvLatch (waiting : k.Waiting) :
    k.chip.recvLatch k.bus = (k.dmaSt == .rWant && line k.regs k.dmaTgt) := by
  have st : k.chip.eng.dmaSt = k.dmaSt := rfl
  have tgt : k.chip.eng.dmaTgt = k.dmaTgt := rfl
  rw [Chip.State.recvLatch, st, tgt]
  cases role : k.dmaTgt with
  | true => simp [line, bus_ack, waiting.ack, Bool.and_assoc]
  | false =>
      have req : k.bus.req = line k.regs false := by
        simp [bus_req, waiting.req, role, line, Bool.and_assoc]
      rw [Chip.State.reqOk, req]
      cases up : line k.regs false with
      | false => simp
      | true =>
          simp only [line, Bool.and_eq_true, Bool.not_eq_true', Bool.false_eq_true, if_false] at up
          simp [phaseMatch_of_role up.2.1 up.1]

theorem Waiting.latch_eq (waiting : k.Waiting) :
    k.latch = (k.regs.dmaMode && k.dmaSt == .rWant && line k.regs k.dmaTgt) := by
  rw [latch, waiting.recvLatch, Bool.and_assoc]

/-- What the handshake does without a strobe. -/
theorem Waiting.dma_rest (waiting : k.Waiting) : k.dma quiet =
    if k.regs.dmaMode then
      if k.latch then { k.chip.eng with idrQ := k.bus.data, drqQ := true, dmaSt := .rHave }
      else k.chip.eng
    else { k.chip.eng with dmaSt := .idle, drqQ := false } := by
  cases on : k.regs.dmaMode with
  | false => simp [dma, on]
  | true =>
      have is : k.latch = k.chip.recvLatch k.bus := by simp [latch, on]
      rw [is]
      rcases waiting with st | st | st | st
      · simp [dma, on, Chip.State.dmaStep, Chip.State.recvLatch, chip, st, quiet, Chip.Port.sds,
          Chip.Port.sdtr, Chip.Port.sdir, Chip.Port.decode]
      · simp [dma, on, Chip.State.dmaStep, Chip.State.recvLatch, chip, st, quiet, Chip.Port.dackWr]
      · simp [dma, on, Chip.State.dmaStep, chip, st]
      · simp [dma, on, Chip.State.dmaStep, Chip.State.recvLatch, chip, st, quiet, Chip.Port.dackRd]

end Waiting

/-! ## Passes that follow each other -/

section Rest

variable {f : Bool} {k : Core}

/-- Without a DACK cycle it stays so. -/
theorem Waiting.moved_access {a : Chip.Port} (waiting : k.Waiting) (dack : a.dack = false) :
    (k.moved f a).Waiting := by
  have dackRd : a.dackRd = false := by simp [Chip.Port.dackRd, dack]
  have dackWr : a.dackWr = false := by simp [Chip.Port.dackWr, dack]
  have is : k.chip.eng.dmaSt = k.dmaSt := rfl
  simp only [Waiting, Core.moved, dma]
  cases on : k.regs.dmaMode with
  | false => simp
  | true =>
      rw [if_pos rfl]
      rcases waiting with st | st | st | st
      · rw [Chip.State.dmaStep, is, st]
        cases a.sds <;> cases a.sdtr <;> cases a.sdir <;> simp [is, st]
      · simp [Chip.State.dmaStep, is, st, dackWr]
      · rw [Chip.State.dmaStep, is, st]
        cases k.chip.recvLatch k.bus <;> simp [is, st]
      · simp [Chip.State.dmaStep, is, st, dackRd]

theorem Waiting.moved (waiting : k.Waiting) : (k.moved f quiet).Waiting :=
  waiting.moved_access rfl

/-- A pass without a loss of BSY leaves nothing to latch. -/
theorem Waiting.moved_latch (waiting : k.Waiting) (kept : k.busyLost f = false) :
    (k.moved f quiet).latch = false := by
  rw [waiting.moved.latch_eq]
  simp only [Core.moved, kept, waiting.dma_rest, Bool.false_eq_true, if_false]
  cases on : k.regs.dmaMode with
  | false => simp
  | true =>
      cases latches : k.latch with
      | true => simp
      | false =>
          rw [waiting.latch_eq, on] at latches
          simpa [chip] using latches

/-- Unless arbitration begins the wires are left alone. -/
theorem Waiting.moved_bus (waiting : k.Waiting) (kept : k.busyLost f = false)
    (rests : k.regs.arbitrate = true → k.begins f = true → k.arb = true) :
    (k.moved f quiet).bus = k.bus := by
  refine bus_eq_of ?_ ?_ (fun _ => ?_) (fun role => ?_)
  · simp [Core.moved, kept]
  · simp only [Chip.State.arbitrating, chip, Core.moved, kept, Bool.false_eq_true, if_false]
    cases arbitrate : k.regs.arbitrate with
    | false => simp
    | true =>
        cases begins : k.begins f with
        | false => simp
        | true => simp [rests arbitrate begins]
  · rw [waiting.moved.ack, waiting.ack]
  · rw [waiting.moved.req, waiting.req]
    simp only [Core.moved, kept, waiting.dma_rest, Bool.false_eq_true, if_false]
    cases on : k.regs.dmaMode with
    | false => simp
    | true =>
        cases latches : k.latch with
        | false => simp [chip]
        | true =>
            have tgt : k.dmaTgt = false := by
              rw [waiting.latch_eq, line] at latches
              cases tgt : k.dmaTgt with
              | false => rfl
              | true => simp [tgt, role] at latches
            simp [chip, tgt]

/-- The same pass again, now or with BSY believed, sees the registers the first saw. -/
theorem moved_regs (kept : k.busyLost f = false) : (k.moved f quiet).regs = k.regs := by
  simp [Core.moved, kept]

theorem moved_busyErr (kept : k.busyLost f = false) : (k.moved f quiet).busyErr = k.busyErr := by
  simp [Core.moved, kept]

/-- The handshake has nothing more to do. -/
theorem Waiting.moved_dma (waiting : k.Waiting) (kept : k.busyLost f = false) :
    ((k.moved f quiet).dma quiet).dmaSt = (k.dma quiet).dmaSt ∧
      ((k.moved f quiet).dma quiet).dmaTgt = (k.dma quiet).dmaTgt ∧
      ((k.moved f quiet).dma quiet).drqQ = (k.dma quiet).drqQ ∧
      ((k.moved f quiet).dma quiet).idrQ = (k.dma quiet).idrQ := by
  rw [waiting.moved.dma_rest, waiting.moved_latch kept, moved_regs kept]
  cases on : k.regs.dmaMode with
  | true => simp [chip, Core.moved]
  | false => simp [chip, Core.moved, waiting.dma_rest, on]

/-- A quiet pass is decided by what it reads. -/
theorem moved_eq_of {k k' : Core} {g : Bool} (regs : k'.regs = k.regs)
    (lost : k'.busyLost g = k.busyLost g) (rst : k'.bus.rst = k.bus.rst)
    (arb : (k.regs.arbitrate && (k'.arb || k'.begins g)) =
      (k.regs.arbitrate && (k.arb || k.begins g)))
    (st : (k'.dma quiet).dmaSt = (k.dma quiet).dmaSt)
    (tgt : (k'.dma quiet).dmaTgt = (k.dma quiet).dmaTgt)
    (drq : (k'.dma quiet).drqQ = (k.dma quiet).drqQ)
    (idr : (k'.dma quiet).idrQ = (k.dma quiet).idrQ)
    (parity : (k'.parErr || k'.parityErr && (k'.latch || k'.selInt g)) =
      (k.parErr || k.parityErr && (k.latch || k.selInt g)))
    (busy : k'.busyErr = k.busyErr)
    (irq : (k'.irq || k'.selInt g || k'.parityErr && k.regs.parIntrEn && k'.latch) =
      (k.irq || k.selInt g || k.parityErr && k.regs.parIntrEn && k.latch)) :
    k'.moved g quiet = k.moved g quiet := by
  simp only [moved, quiet_rpi, quiet_csdRd, Bool.not_false, Bool.true_and, Bool.false_or, regs,
    lost, rst, arb, st, tgt, drq, idr, parity, busy, irq]

/-- A pass is absorbed by one that sees at least as much: nothing it did has to be done
again, and nothing is lost by its having been done. -/
theorem Waiting.absorbs (waiting : k.Waiting) (kept : k.busyLost f = false) {g : Bool}
    (more : f = true → g = true) : (k.moved f quiet).moved g quiet = k.moved g quiet := by
  obtain ⟨st, tgt, drq, idr⟩ := waiting.moved_dma kept
  have regs := moved_regs (k := k) kept
  have err := moved_busyErr (k := k) kept
  have latch := waiting.moved_latch kept
  have sel : (k.moved f quiet).bus.sel = k.bus.sel := by rw [bus_sel, bus_sel, regs]
  have rst : (k.moved f quiet).bus.rst = k.bus.rst := by rw [bus_rst, bus_rst, regs]
  have arb : (k.moved f quiet).arb = (k.regs.arbitrate && (k.arb || k.begins f)) := rfl
  have parErr : (k.moved f quiet).parErr =
      (k.parErr || k.parityErr && (k.latch || k.selInt f)) := by simp [Core.moved]
  have irq : (k.moved f quiet).irq =
      (k.irq || k.selInt f || k.parityErr && k.regs.parIntrEn && k.latch) := by
    simp [Core.moved, kept]
  by_cases begun : k.regs.arbitrate = true ∧ k.begins f = true ∧ k.arb = false
  · obtain ⟨arbitrate, begins, off⟩ := begun
    have on : f = true := by
      simp only [Core.begins, Bool.and_eq_true] at begins
      exact begins.1.1
    have now := more on
    subst on now
    have low : k.bus.sel = false := by
      simp only [Core.begins, Bool.and_eq_true, Bool.not_eq_true'] at begins
      exact begins.2
    have noSel : k.selInt true = false := by simp [selInt, Chip.State.selMatch, low]
    have noSel' : (k.moved true quiet).selInt true = false := by
      simp [selInt, Chip.State.selMatch, sel, low]
    have kept' : (k.moved true quiet).busyLost true = false := by
      rw [arbitrate, begins, Bool.or_true, Bool.and_true] at arb
      simp only [busyLost, regs, err, bus_bsy, arb, off, arbitrate] at kept ⊢
      revert kept
      cases k.regs.testMode <;> cases k.regs.icrBsy <;> simp
    refine moved_eq_of regs (kept'.trans kept.symm) rst ?_ st tgt drq idr ?_ err ?_
    · simp [arb, arbitrate, begins]
    · simp [parErr, latch, noSel, noSel']
    · simp [irq, latch, noSel, noSel']
  · have rests : k.regs.arbitrate = true → k.begins f = true → k.arb = true := by
      intro arbitrate begins
      cases off : k.arb with
      | true => rfl
      | false => exact absurd ⟨arbitrate, begins, off⟩ begun
    have bus := waiting.moved_bus kept rests
    have selInt : (k.moved f quiet).selInt g = k.selInt g := by
      simp [Core.selInt, Chip.State.selMatch, bus, chip, regs]
    have parityErr : (k.moved f quiet).parityErr = k.parityErr := by
      simp [Core.parityErr, bus, regs]
    have believed : k.selInt f = true → k.selInt g = true := by
      simp only [Core.selInt, Bool.and_eq_true]
      exact fun ⟨on, matched⟩ => ⟨more on, matched⟩
    refine moved_eq_of regs ?_ rst ?_ st tgt drq idr ?_ err ?_
    · simp [busyLost, regs, bus, err]
    · have begins : (k.moved f quiet).begins g = k.begins g := by simp [Core.begins, bus]
      have sooner : k.begins f = true → k.begins g = true := by
        simp only [Core.begins, Bool.and_eq_true]
        exact fun ⟨⟨on, free⟩, low⟩ => ⟨⟨more on, free⟩, low⟩
      rw [arb, begins]
      revert sooner
      cases k.regs.arbitrate <;> cases k.begins f <;> cases k.begins g <;> simp
    · rw [parErr, parityErr, latch, selInt]
      revert believed
      cases k.selInt f <;> cases k.selInt g <;> cases k.parityErr <;> cases k.latch <;> simp
    · rw [irq, parityErr, latch, selInt]
      revert believed
      cases k.selInt f <;> cases k.selInt g <;> simp

end Rest

/-! ## Settling -/

theorem busyClear_bits (r : Chip.Regs) :
    r.busyClear.icrRst = r.icrRst ∧ r.busyClear.testMode = r.testMode := by
  simp [Chip.Regs.busyClear, Chip.Regs.icrRst, Chip.Regs.testMode]

/-- A pass has seen RST. -/
theorem moved_sclr (f : Bool) (a : Chip.Port) (k : Core) : (k.moved f a).sclr = false := by
  have same : (k.moved f a).bus.rst = k.bus.rst := by
    rw [bus_rst, bus_rst]
    simp only [Core.moved]
    split_ifs
    · rw [(busyClear_bits k.regs).1, (busyClear_bits k.regs).2]
    · rfl
  rw [sclr, same]
  simp [Core.moved]

theorem cleared_sclr (k : Core) : k.cleared.sclr = false := by
  simp [sclr, cleared]

theorem Waiting.cleared (k : Core) : k.cleared.Waiting :=
  .inl rfl

theorem cleared_busyLost (k : Core) (f : Bool) : k.cleared.busyLost f = false := by
  simp [busyLost, cleared, Chip.Regs.scsiClear, Chip.Regs.monitorBsy]

/-- After a reset there is nothing to do. -/
theorem cleared_tick {k : Core} (f : Bool) (rises : k.sclr = true) :
    k.cleared.tick f quiet = k.cleared := by
  have mode : k.cleared.regs.mr = 0 := rfl
  have icr : k.cleared.regs.icr = k.regs.icr &&& 0x80 := rfl
  have sel : k.cleared.selInt f = false := by
    simp [selInt, Chip.State.selMatch, chip, cleared, Chip.Regs.scsiClear]
  have lost := k.cleared_busyLost f
  have dma : k.cleared.dma quiet = { k.cleared.chip.eng with dmaSt := .idle, drqQ := false } := by
    simp [Core.dma, Chip.Regs.dmaMode, mode]
  have rst : k.cleared.bus.rst = true := by
    simp only [sclr, bus_rst, Bool.and_eq_true, Chip.Regs.icrRst] at rises
    simp [bus_rst, Chip.Regs.testMode, Chip.Regs.icrRst, icr, rises.1.2]
  have parity : k.cleared.parityErr = false := by
    simp [parityErr, Chip.Regs.parChk, mode]
  rw [tick_of_calm k.cleared_sclr]
  simp only [Core.moved, sel, lost, dma, rst, parity]
  simp [cleared, chip, Chip.Regs.scsiClear, Chip.Regs.arbitrate]

section Settle

variable {f : Bool} {k : Core}

theorem Waiting.tick_access {a : Chip.Port} (waiting : k.Waiting) (dack : a.dack = false) :
    (k.tick f a).Waiting := by
  cases rises : k.sclr with
  | true =>
      rw [tick_of_sclr rises]
      exact Waiting.cleared k
  | false =>
      rw [tick_of_calm rises]
      exact waiting.moved_access dack

theorem Waiting.tick (waiting : k.Waiting) : (k.tick f quiet).Waiting :=
  waiting.tick_access rfl

/-- A state that a pass leaves alone. -/
def Settled (k : Core) : Prop :=
  k.tick true quiet = k

/-- A pass before BSY is believed makes no difference to the ones after. -/
theorem Waiting.tick_tick (waiting : k.Waiting) :
    (k.tick false quiet).tick true quiet = k.tick true quiet := by
  cases rises : k.sclr with
  | true => rw [tick_of_sclr rises, tick_of_sclr rises, cleared_tick true rises]
  | false =>
      rw [tick_of_calm rises, tick_of_calm rises, tick_of_calm (moved_sclr false quiet k)]
      exact waiting.absorbs (by simp [busyLost]) (by simp)

/-- Without a loss of BSY one pass settles the chip. -/
theorem Waiting.settled_of_kept (waiting : k.Waiting) (kept : k.busyLost true = false) :
    (k.tick true quiet).Settled := by
  cases rises : k.sclr with
  | true =>
      rw [tick_of_sclr rises]
      exact cleared_tick true rises
  | false =>
      rw [tick_of_calm rises, Settled, tick_of_calm (moved_sclr true quiet k)]
      exact waiting.absorbs kept (fun on => on)

/-- Two passes always do. -/
theorem Waiting.settles (waiting : k.Waiting) :
    ((k.tick true quiet).tick true quiet).Settled := by
  cases lost : k.busyLost true with
  | false =>
      have settled := waiting.settled_of_kept lost
      rw [Settled] at settled
      rw [settled]
      exact settled
  | true =>
      refine waiting.tick.settled_of_kept ?_
      cases rises : k.sclr with
      | true =>
          rw [tick_of_sclr rises]
          exact k.cleared_busyLost true
      | false =>
          rw [tick_of_calm rises]
          have latched : (k.moved true quiet).busyErr = true := by simp [Core.moved, lost]
          simp [busyLost, latched]

/-- Where the core is bound to end. -/
def bound (k : Core) : Core :=
  (k.tick true quiet).tick true quiet

/-- A pass changes nothing about it. -/
theorem Waiting.bound_tick (waiting : k.Waiting) : (k.tick true quiet).bound = k.bound := by
  have settled := waiting.settles
  rw [Settled] at settled
  rw [bound, settled, bound]

theorem Settled.bound (settled : k.Settled) : k.bound = k := by
  rw [Settled] at settled
  rw [Core.bound, settled, settled]

/-- What is known of a settled chip. -/
theorem Settled.calm (settled : k.Settled) : k.sclr = false := by
  cases rises : k.sclr with
  | false => rfl
  | true =>
      rw [Settled, tick_of_sclr rises] at settled
      rw [← settled, cleared_sclr] at rises
      cases rises

theorem Settled.moved_eq (settled : k.Settled) : k.moved true quiet = k := by
  rw [← tick_of_calm settled.calm]
  exact settled

theorem Settled.kept (settled : k.Settled) (f : Bool) : k.busyLost f = false := by
  have err := congrArg busyErr settled.moved_eq
  simp only [Core.moved, quiet_rpi, Bool.not_false, Bool.true_and] at err
  cases lost : k.busyLost f with
  | false => rfl
  | true =>
      have now : k.busyLost true = true := by
        simp only [busyLost, Bool.and_eq_true] at lost ⊢
        exact ⟨⟨⟨lost.1.1.1, trivial⟩, lost.1.2⟩, lost.2⟩
      rw [now, Bool.or_true] at err
      simp [busyLost, ← err] at lost

/-- Without DMA MODE a settled chip has no handshake under way. -/
theorem Settled.idle (settled : k.Settled) (off : k.regs.dmaMode = false) :
    k.dmaSt = .idle := by
  have st := congrArg Core.dmaSt settled.moved_eq
  simp only [Core.moved, dma, off] at st
  exact st.symm

/-- A settled chip does not care whether BSY is believed. -/
theorem Settled.moved_any (settled : k.Settled) (f : Bool) (a : Chip.Port) :
    k.moved f a = k.moved true a := by
  have is := settled.moved_eq
  have arb := congrArg Core.arb is
  have parErr := congrArg Core.parErr is
  have irq := congrArg Core.irq is
  simp only [Core.moved, quiet_rpi, quiet_csdRd, Bool.not_false, Bool.true_and, Bool.false_or,
    settled.kept, Bool.or_false] at arb parErr irq
  have sel : k.selInt f = true → k.selInt true = true := by
    simp only [selInt, Bool.and_eq_true]
    exact fun ⟨_, matched⟩ => ⟨trivial, matched⟩
  have begins : k.begins f = true → k.begins true = true := by
    simp only [Core.begins, Bool.and_eq_true]
    exact fun ⟨⟨_, free⟩, low⟩ => ⟨⟨trivial, free⟩, low⟩
  ext1
  · simp [Core.moved, settled.kept]
  · rfl
  · simp only [Core.moved]
    revert arb begins
    cases k.arb <;> cases k.regs.arbitrate <;> cases k.begins f <;> cases k.begins true <;> simp
  · rfl
  · rfl
  · rfl
  · rfl
  · simp only [Core.moved]
    revert parErr sel
    cases k.parErr <;> cases k.parityErr <;> cases k.selInt f <;> cases k.selInt true <;> simp
  · simp [Core.moved, settled.kept]
  · simp only [Core.moved, settled.kept]
    revert irq sel
    cases k.irq <;> cases k.selInt f <;> cases k.selInt true <;> simp

theorem Settled.tick_any (settled : k.Settled) (f : Bool) (a : Chip.Port) :
    k.tick f a = k.tick true a := by
  rw [tick_of_calm settled.calm, tick_of_calm settled.calm]
  exact settled.moved_any f a

theorem Settled.stays (settled : k.Settled) (f : Bool) : k.tick f quiet = k := by
  rw [settled.tick_any]
  exact settled

end Settle

/-! ## An access -/

/-- The core after an access: a strobe acts on the pass it comes with, a write takes
effect after it. -/
def access (a : Chip.Port) (k : Core) : Core :=
  { k.tick true a with regs := if a.we then k.regs.write a k.bus.bsy else k.regs }

/-- An access without a strobe. -/
structure Unstrobed (a : Chip.Port) : Prop where
  csdRd : a.csdRd = false
  rpi : a.rpi = false
  sds : a.sds = false
  sdtr : a.sdtr = false
  sdir : a.sdir = false
  dack : a.dack = false

theorem Unstrobed.tick {a : Chip.Port} (plain : Unstrobed a) (f : Bool) (k : Core) :
    k.tick f a = k.tick f quiet := by
  have dackRd : a.dackRd = false := by simp [Chip.Port.dackRd, plain.dack]
  have dackWr : a.dackWr = false := by simp [Chip.Port.dackWr, plain.dack]
  have none : quiet.sds = false ∧ quiet.sdtr = false ∧ quiet.sdir = false ∧
      quiet.dackRd = false ∧ quiet.dackWr = false := ⟨rfl, rfl, rfl, rfl, rfl⟩
  have dma : k.dma a = k.dma quiet := by
    simp only [Core.dma, Chip.State.dmaStep, plain.sds, plain.sdtr, plain.sdir, dackRd, dackWr, none]
  simp only [Core.tick, moved, dma, plain.rpi, plain.csdRd, quiet_rpi, quiet_csdRd]

/-- On a settled chip such an access only writes. -/
theorem Settled.access_unstrobed {k : Core} (settled : k.Settled) {a : Chip.Port}
    (plain : Unstrobed a) (writes : a.we = true) :
    k.access a = { k with regs := k.regs.write a k.bus.bsy } := by
  rw [access, plain.tick, settled.stays, writes]
  rfl

end Core

end Wish5380.Soft
