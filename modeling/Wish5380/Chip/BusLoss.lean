import Wish5380.Chip.Interrupt
import Wish5380.Chip.Steps

/-!
# Unexpected loss of BSY

A loss of BSY takes the bus away: it resets the lower six bits of Initiator Command and the
DMA MODE bit.  What the chip drives has two more sources.  The Target Command Register keeps
its lines as long as the Mode Register says target, and the clock in which the loss is seen
is also the first in which the bus is free, so that an arbitration may begin in it.
-/

namespace Wish5380.Chip

/-- The registers after the cycle's access, before the engine's own clears. -/
def Regs.accessed (r : Regs) (a : Port) (bsy : Bool) : Regs :=
  if a.stb && a.we then r.write a bsy else r

namespace State

/-- Off the bus: RST apart nothing is driven, the lower six bits of Initiator Command and the
DMA MODE bit read zero, and DRQ is down. -/
structure OffBus (s : State) (bus : Scsi) : Prop where
  silent : { s.drive bus with rst := false } = ({} : Scsi)
  icr : s.icrRd &&& 0x3f = 0
  mode : s.regs.dmaMode = false
  drq : s.drq = false

/-- ARBITRATE is set before and after the access. -/
def keepsArbitrate (s : State) (a : Port) (bus : Scsi) : Bool :=
  s.regs.arbitrate && (s.regs.accessed a bus.bsy).arbitrate

/-- Nothing is left to drive: TEST MODE is on, or there is neither an arbitration under way or
about to begin nor a line of the Target Command Register; and no arbitration has been lost. -/
def LetsGo (s : State) (a : Port) (bus : Scsi) : Prop :=
  (s.keepsArbitrate a bus = true →
      s.eng.laQ = false ∧ (s.eng.arbActive = true → bus.sel = true → (s.drive bus).sel = true)) ∧
    ((s.regs.accessed a bus.bsy).testMode = true ∨
      (s.keepsArbitrate a bus = true → s.eng.arbActive = false ∧ bus.sel = true) ∧
        ((s.regs.accessed a bus.bsy).targetMode = true →
          (s.regs.accessed a bus.bsy).tcr &&& 0x0f = 0))

instance (s : State) (a : Port) (bus : Scsi) : Decidable (s.LetsGo a bus) :=
  inferInstanceAs (Decidable ((_ → _ ∧ (_ → _ → _)) ∧ (_ ∨ (_ → _ ∧ _) ∧ (_ → _))))

end State

/-! ## What the clears leave -/

namespace Regs

variable (r : Regs)

@[simp] theorem busyClear_testMode : r.busyClear.testMode = r.testMode := by
  simp [busyClear, testMode]

@[simp] theorem busyClear_targetMode : r.busyClear.targetMode = r.targetMode := by
  simp [busyClear, targetMode]

@[simp] theorem busyClear_arbitrate : r.busyClear.arbitrate = r.arbitrate := by
  simp [busyClear, arbitrate]

@[simp] theorem busyClear_dmaMode : r.busyClear.dmaMode = false := by
  simp [busyClear, dmaMode]

@[simp] theorem busyClear_tcr : r.busyClear.tcr = r.tcr :=
  rfl

theorem busyClear_lines :
    r.busyClear.icrAck = false ∧ r.busyClear.icrBsy = false ∧ r.busyClear.icrSel = false ∧
      r.busyClear.icrAtn = false ∧ r.busyClear.icrData = false := by
  simp [busyClear, icrAck, icrBsy, icrSel, icrAtn, icrData]

theorem busyClear_icr : r.busyClear.icr &&& 0x3f = 0 := by
  have split : r.busyClear.icr &&& 0x3f = r.icr &&& (0xc0 &&& 0x3f) := BitVec.and_assoc _ _ _
  rw [split]
  simp

theorem tcr_lines_iff (tcr : Byte) :
    tcr &&& 0x0f = 0 ↔ tcr.getLsbD 3 = false ∧ tcr.getLsbD 2 = false ∧ tcr.getLsbD 1 = false ∧
      tcr.getLsbD 0 = false := by
  revert tcr
  decide

end Regs

namespace State

section Lost

variable {p : Params} {s : State} {a : Port} {bus bus' : Scsi}

theorem busyLost_settled (lost : s.busyLost p bus = true) : s.bsySettledFalse p bus = true := by
  simp only [busyLost, Bool.and_eq_true] at lost
  exact lost.1.2

/-- The two delays of the source are the same, so a loss of BSY finds the bus free. -/
theorem busyLost_busFree (lost : s.busyLost p bus = true) : s.busFree p bus = true :=
  busyLost_settled lost

theorem next_regs_lost (lost : s.busyLost p bus = true) (calm : s.sclr bus = false) :
    (s.next p a bus).regs = (s.regs.accessed a bus.bsy).busyClear := by
  simp [next, Regs.next, lost, calm, Regs.accessed]

theorem next_arbitrating_lost (lost : s.busyLost p bus = true) (calm : s.sclr bus = false) :
    (s.next p a bus).arbitrating =
      (s.keepsArbitrate a bus && (s.eng.arbActive || !bus.sel)) := by
  have active : (s.next p a bus).eng.arbActive =
      (s.regs.arbitrate && (s.eng.arbActive || !bus.sel)) := by
    cases on : s.regs.arbitrate <;>
      simp [next, nextEng, nextArb, calm, on, busyLost_busFree lost]
  rw [arbitrating, active, next_regs_lost lost calm, Regs.busyClear_arbitrate, keepsArbitrate]
  cases s.regs.arbitrate <;> simp [Bool.and_comm]

theorem next_la_lost (lost : s.busyLost p bus = true) (calm : s.sclr bus = false) :
    (s.next p a bus).la = (s.keepsArbitrate a bus &&
      (s.eng.laQ || (s.eng.arbActive && bus.sel && !(s.drive bus).sel))) := by
  have latch : (s.next p a bus).eng.laQ = (s.regs.arbitrate &&
      (s.eng.laQ || (s.eng.arbActive && bus.sel && !(s.drive bus).sel))) := by
    cases on : s.regs.arbitrate <;> simp [next, nextEng, nextArb, calm, on]
  rw [la, latch, next_regs_lost lost calm, Regs.busyClear_arbitrate, keepsArbitrate]
  cases s.regs.arbitrate <;> simp [Bool.and_comm]

/-- With the lines of Initiator Command and DMA MODE gone, an arbitration and the Target
Command Register remain. -/
theorem drive_silent_iff {t : State} {r : Regs} (regs : t.regs = r.busyClear) :
    { t.drive bus with rst := false } = ({} : Scsi) ↔
      r.testMode = true ∨ t.arbitrating = false ∧ (r.targetMode = true → r.tcr &&& 0x0f = 0) := by
  obtain ⟨ack, bsy, sel, atn, data⟩ := r.busyClear_lines
  have test : t.drvEn = !r.testMode := by rw [drvEn, regs, Regs.busyClear_testMode]
  have dmaAck : t.dmaAck = false := by simp [State.dmaAck, regs]
  have dmaReq : t.dmaReq = false := by simp [State.dmaReq, regs]
  have bus : t.driveData bus = t.arbitrating := by simp [driveData, regs, data]
  simp only [drive, test, dmaAck, dmaReq, bus, regs, ack, bsy, sel, atn, Regs.busyClear_targetMode,
    Regs.tcrReq, Regs.tcrMsg, Regs.tcrCd, Regs.tcrIo, Regs.busyClear_tcr, Regs.tcr_lines_iff,
    Bool.or_false, Bool.false_or, Bool.and_false]
  cases r.testMode <;> cases t.arbitrating <;> cases r.targetMode <;> simp

/-- The lower six bits of Initiator Command read zero unless LA stands among them. -/
theorem icrRd_low_iff {t : State} {r : Regs} (regs : t.regs = r.busyClear) :
    t.icrRd &&& 0x3f = 0 ↔ t.la = false := by
  have low : r.busyClear.icr &&& 0x3f = 0 := r.busyClear_icr
  rw [icrRd, regs]
  generalize r.busyClear.icr = icr at low ⊢
  cases t.aip <;> cases t.la <;> revert icr <;> decide

/-- After a loss of BSY the chip is off the bus exactly when it has let go of everything. -/
theorem offBus_iff_letsGo (p : Params) (s : State) (a : Port) (bus bus' : Scsi)
    (lost : s.busyLost p bus = true) (calm : s.sclr bus = false) :
    (s.next p a bus).OffBus bus' ↔ s.LetsGo a bus := by
  have regs := next_regs_lost (a := a) lost calm
  have la := next_la_lost (a := a) lost calm
  have arb := next_arbitrating_lost (a := a) lost calm
  have mode : (s.next p a bus).regs.dmaMode = false := by rw [regs, Regs.busyClear_dmaMode]
  have drq : (s.next p a bus).drq = false := by simp [State.drq, mode]
  have fields : (s.next p a bus).OffBus bus' ↔ _ ∧ _ :=
    ⟨fun off => ⟨off.icr, off.silent⟩, fun ⟨icr, silent⟩ => ⟨silent, icr, mode, drq⟩⟩
  rw [fields, icrRd_low_iff regs, drive_silent_iff regs, la, arb, LetsGo]
  cases s.keepsArbitrate a bus <;> cases s.eng.laQ <;> cases s.eng.arbActive <;> cases bus.sel <;>
    cases (s.drive bus).sel <;> simp

end Lost

end State

/-! ## Three losses -/

/-- The host writes Mode, then register `adr`, while BSY is true; from cycle 2 on BSY is false
and the bus shows `bus`. -/
def losing (mode : Byte) (adr : BitVec 3) (dat : Byte) (bus : Scsi) (t : ℕ) : Cycle :=
  match t with
  | 0 => { port := { stb := true, we := true, adr := 2, dat := mode }, bus := { bsy := true } }
  | 1 => { port := { stb := true, we := true, adr := adr, dat := dat }, bus := { bsy := true } }
  | _ => { bus := bus }

/-- An initiator in DMA mode with ACK and ATN up loses BSY and is off the bus. -/
theorem initiator_off_bus :
    (run {} (losing 0x06 1 0x13 {}) 22).busyLost {} {} = true ∧
      (run {} (losing 0x06 1 0x13 {}) 23).OffBus {} := by
  have lost : (run {} (losing 0x06 1 0x13 {}) 22).busyLost {} {} = true := by decide +kernel
  exact ⟨lost, (State.offBus_iff_letsGo {} _ {} {} {} lost (by decide +kernel)).mpr
    (by decide +kernel)⟩

/-- A target that shows I/O keeps showing it, and a chip told to arbitrate takes the bus in the
very clock it loses it. -/
theorem loss_leaves_lines :
    ((run {} (losing 0x44 3 0x01 { io := true }) 22).busyLost {} { io := true } = true ∧
      (run {} (losing 0x44 3 0x01 { io := true }) 22).sclr { io := true } = false ∧
      ((run {} (losing 0x44 3 0x01 { io := true }) 23).drive { io := true }).io = true) ∧
    ((run {} (losing 0x05 0 0x80 {}) 22).busyLost {} {} = true ∧
      (run {} (losing 0x05 0 0x80 {}) 22).sclr {} = false ∧
      ((run {} (losing 0x05 0 0x80 {}) 23).drive {}).bsy = true ∧
      ((run {} (losing 0x05 0 0x80 {}) 23).drive {}).data = 0x80) := by
  decide +kernel

end Wish5380.Chip
