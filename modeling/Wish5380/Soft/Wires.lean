import Wish5380.Chip.Steps
import Wish5380.Soft.Passes

/-!
# The wires of both models

The data lines depend on the phase lines, which the chip may itself be driving.  In the
hardware that is a loop through the fabric, in the software one that is turned by hand.
The chip cannot change the phase it sees by seeing it, so the loop has one solution, and
the software finds it from whatever wires it was left with.
-/

namespace Wish5380

theorem scsiFabric_eq (a b c d : Scsi) : scsiFabric a b c d = a.or ((b.or c).or d) := by
  simp [scsiFabric, Scsi.or, Bool.or_assoc, BitVec.or_assoc]

namespace Soft

/-- The software is in the state of the chip, as far as what they drive depends on it. -/
structure Corresponds (s : Chip.State) (c : State) : Prop where
  odr : c.odr = s.regs.odr
  icr : c.icr = s.regs.icr
  mr : c.mr = s.regs.mr
  tcr : c.tcr = s.regs.tcr
  arbActive : c.arbActive = s.eng.arbActive
  dmaSt : c.dmaSt = s.eng.dmaSt
  dmaTgt : c.dmaTgt = s.eng.dmaTgt

variable {s : Chip.State} {c : State}

theorem Corresponds.drive_eq (same : Corresponds s c) (w : Scsi) :
    c.core.chip.drive w = s.drive w := by
  obtain ⟨⟨odr, icr, mr, tcr, ser⟩, eng⟩ := s
  obtain ⟨rfl, rfl, rfl, rfl, arb, st, tgt⟩ := same
  simp [Chip.State.drive, Chip.State.driveData, Chip.State.arbitrating, Chip.State.dmaAck,
    Chip.State.dmaReq, Chip.State.drvEn, Chip.State.phaseMatch, Core.chip, State.core, arb, st, tgt,
    Chip.Regs.tcrPhase, Chip.Regs.testMode, Chip.Regs.icrRst, Chip.Regs.icrBsy, Chip.Regs.icrSel,
    Chip.Regs.icrAtn, Chip.Regs.icrAck, Chip.Regs.icrData, Chip.Regs.targetMode,
    Chip.Regs.dmaMode, Chip.Regs.arbitrate, Chip.Regs.tcrReq, Chip.Regs.tcrMsg, Chip.Regs.tcrCd,
    Chip.Regs.tcrIo]

/-- On a fabric with whatever the other three ports drive there is exactly one value that
agrees with what the chip drives when it sees it.  The software's inner loop ends on that
value from any wires, through its own test and in no more than three turns. -/
theorem wires_agree (s : Chip.State) (x y z : Scsi) :
    ∃ w, w = scsiFabric (s.drive w) x y z ∧ (∀ v, v = scsiFabric (s.drive v) x y z → v = w) ∧
      ∀ c : State, Corresponds s c → c.peer = (x.or y).or z →
        Clocked.turns State.resolve State.wires settleMax c ≤ 3 ∧
        State.combine settleMax c =
          State.resolve^[Clocked.turns State.resolve State.wires settleMax c] c ∧
        (State.combine settleMax c).drv = s.drive w ∧
        (State.combine settleMax c).wires = w := by
  have feeds := State.feeds s ((x.or y).or z)
  have : Nonempty Scsi := ⟨{}⟩
  obtain ⟨w, settled, unique⟩ := (feeds.existsUnique : ∃! w, w = (s.drive w).or ((x.or y).or z))
  simp only [scsiFabric_eq]
  refine ⟨w, settled, unique, fun c same others => ?_⟩
  have loop : (fun w => (c.core.chip.drive w).or c.peer) =
      fun w => (s.drive w).or ((x.or y).or z) := by
    funext v
    rw [same.drive_eq, others]
  have follows := c.follows
  rw [loop] at follows
  have still : w = (c.core.chip.drive w).or c.peer := by
    rw [same.drive_eq, others]
    exact settled
  have ends : State.combine settleMax c = c.wired (c.core.chip.drive w) w :=
    State.combine_settles still 61
  refine ⟨feeds.turns_le follows settleMax, ?_, ?_, ?_⟩
  · rw [State.combine_turn]
    exact Clocked.turnUntilSettled_eq settleMax c
  · rw [ends, ← same.drive_eq]
    rfl
  · rw [ends]
    rfl

/-- A chip that has just left the target role. -/
def left : Chip.State where
  regs := { odr := 0x5a, icr := 0x01, tcr := 0x02 }

/-- The phase and the byte it drove before are still on the wires. -/
def leaving : State where
  odr := 0x5a
  icr := 0x01
  tcr := 0x02
  wires := { cd := true, data := 0x5a, dbp := true }

theorem leaving_agrees : ∃ w : Scsi, w = scsiFabric (left.drive w) {} {} {} ∧
    Clocked.turns State.resolve State.wires settleMax leaving ≤ 3 ∧
    (State.combine settleMax leaving).wires = w := by
  obtain ⟨w, settled, -, ends⟩ := wires_agree left {} {} {}
  have same : Corresponds left leaving := ⟨rfl, rfl, rfl, rfl, rfl, rfl, rfl⟩
  obtain ⟨few, -, -, wires⟩ := ends leaving same rfl
  exact ⟨w, settled, few, wires⟩

end Soft

end Wish5380
