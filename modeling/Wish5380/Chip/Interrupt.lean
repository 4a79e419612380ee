import Wish5380.Chip.Model
import Wish5380.Clocked.Run

/-!
# The interrupt latch

IRQ against the history of a run: the latch holds the conditions there have been since
register 7 was last read, and a read wins over a condition of its own cycle.
-/

namespace Wish5380.Chip

/-- The inputs of one cycle: the RESET pin, the host's access and the bus. -/
structure Cycle where
  rst : Bool := false
  port : Port := {}
  bus : Scsi := {}
  deriving DecidableEq, Repr

/-- One edge of the chip. -/
def clock (p : Params) (s : State) (c : Cycle) : State :=
  if c.rst then {} else s.next p c.port c.bus

/-- A run of the chip from RESET, one `Cycle` of inputs a clock. -/
def run (p : Params) (input : ℕ → Cycle) : ℕ → State :=
  Clocked.run (clock p) {} input

theorem run_succ (p : Params) (input : ℕ → Cycle) (t : ℕ) :
    run p input (t + 1) = clock p (run p input t) (input t) :=
  rfl

/-- One of the six enabled conditions holds. -/
def State.interrupts (p : Params) (s : State) (c : Cycle) : Bool :=
  s.selInt p c.bus || s.eopInt c.port || s.sclr c.bus || s.parityInt c.port c.bus ||
    s.phaseMismatchInt c.bus || s.busyLost p c.bus

/-- One edge of the latch. -/
theorem clock_irqQ (p : Params) (s : State) (c : Cycle) :
    (clock p s c).eng.irqQ = (!(c.rst || c.port.rpi) && (s.eng.irqQ || s.interrupts p c)) := by
  cases pin : c.rst with
  | true => simp [clock, pin]
  | false =>
      have edge : (clock p s c).eng.irqQ = s.nextIrq p c.port c.bus := by
        simp [clock, pin, State.next, State.nextEng]
      rw [edge, State.nextIrq, State.interrupts]
      cases c.port.rpi <;> simp [Bool.or_assoc]

/-- IRQ is up exactly when a condition has held since the last RESET and register 7 has
been read neither in its cycle nor since. -/
theorem irq_iff_unread (p : Params) (input : ℕ → Cycle) (t : ℕ) :
    (run p input t).eng.irqQ = true ↔
      ∃ s, s < t ∧ (run p input s).interrupts p (input s) = true ∧
        ∀ u, s ≤ u → u < t → (input u).rst = false ∧ (input u).port.rpi = false := by
  have latch := Clocked.latch_iff (fun t => (run p input t).eng.irqQ)
    (fun t => (run p input t).interrupts p (input t))
    (fun t => (input t).rst || (input t).port.rpi) rfl
    (fun t => clock_irqQ p (run p input t) (input t)) t
  simpa only [Bool.or_eq_false_iff] using latch

/-- A reset of the bus begins in the cycle in which register 7 is read. -/
def readAtReset (t : ℕ) : Cycle :=
  if t = 0 then { port := { stb := true, adr := 7 }, bus := { rst := true } }
  else { bus := { rst := true } }

/-- The condition held, nothing has been read since, and IRQ is down. -/
theorem read_hides_reset :
    (run {} readAtReset 0).interrupts {} (readAtReset 0) = true ∧
      (∀ u, 0 < u → u < 2 → (readAtReset u).rst = false ∧ (readAtReset u).port.rpi = false) ∧
      (readAtReset 0).rst = false ∧ (run {} readAtReset 2).eng.irqQ = false := by
  refine ⟨by decide +kernel, ?_, rfl, by decide +kernel⟩
  intro u above below
  obtain rfl : u = 1 := by omega
  exact ⟨rfl, rfl⟩

end Wish5380.Chip
