import Mathlib.Algebra.Order.Floor.Div
import Wish5380.Clocked.Streak
import Wish5380.Sd.Progress
import Wish5380.Sd.Transceiver

/-!
# The speed of the card clock

The card clock moves only when the counter of the transceiver has come up to the divider,
and then the counter starts again.  So two edges are as far apart as the divider says at
the second of them, whatever it was at the first.
-/

namespace Wish5380.Sd

/-! ## The dividers -/

namespace Params

/-- A half period of `half` picoseconds fits into the divider's sixteen bits, and is not cut
short. -/
theorem half_period (half : ℕ) {period : ℕ} (low : 20 ≤ period) (some : 0 < half)
    (slow : half ≤ 1250000) :
    ((half + period - 1) / period - 1) % 2 ^ 16 = (half + period - 1) / period - 1 ∧
      half ≤ ((half + period - 1) / period - 1 + 1) * period := by
  have positive : 0 < period := by omega
  have clocks : (half + period - 1) / period = half ⌈/⌉ period :=
    (Nat.ceilDiv_eq_add_pred_div half period).symm
  have enough : half ≤ period * (half ⌈/⌉ period) := le_smul_ceilDiv positive
  have few : half ⌈/⌉ period ≤ 2 ^ 16 := by
    rw [ceilDiv_le_iff_le_smul positive, smul_eq_mul]
    calc half ≤ 20 * 2 ^ 16 := by omega
      _ ≤ period * 2 ^ 16 := Nat.mul_le_mul_right _ low
  have one : 0 < half ⌈/⌉ period := by
    rw [Nat.pos_iff_ne_zero]
    intro none
    rw [none] at enough
    omega
  rw [clocks]
  refine ⟨Nat.mod_eq_of_lt (by omega), ?_⟩
  rw [Nat.sub_add_cancel one, Nat.mul_comm]
  exact enough

end Params

/-! ## The transceiver -/

namespace Spi

variable {s : Spi} {div : ℕ} {go miso : Bool} {tx : Byte}

theorem cnt_next : (s.next div go tx miso).cnt ≤ s.cnt + 1 := by
  have wrapped := Nat.mod_le (s.cnt + 1) (2 ^ 16)
  cases run : s.run with
  | false => cases go <;> simp [next, run]
  | true =>
      simp only [next, run, Bool.not_true, Bool.false_eq_true, if_false]
      split_ifs <;> first | exact wrapped | exact Nat.zero_le _

/-- The card clock moves when the counter has come up to the divider. -/
theorem edge_next (low : s.run = false → s.sclk = false)
    (edge : (s.next div go tx miso).sclk ≠ s.sclk) :
    div ≤ s.cnt ∧ (s.next div go tx miso).cnt = 0 := by
  cases run : s.run with
  | false =>
      refine absurd ?_ edge
      rw [low run]
      cases go <;> simp [next, run]
  | true =>
      revert edge
      simp only [next, run, Bool.not_true, Bool.false_eq_true, if_false]
      split_ifs with waits <;> simp <;> omega

end Spi

/-! ## The divider in a run -/

namespace Dev

section Run

variable (p : Params) (input : ℕ → Input)

/-- The card clock moves at the edge after cycle `t`. -/
def Edge (t : ℕ) : Prop :=
  (run p input (t + 1)).spi.sclk ≠ (run p input t).spi.sclk

/-- The divider, by what has become of the card. -/
structure Geared (t : ℕ) : Prop where
  either : (run p input t).blk.div = p.divSlow ∨ (run p input t).blk.div = p.divFast
  slow : (∀ u ≤ t, (run p input u).blk.cardReady = false) → (run p input t).blk.div = p.divSlow

theorem div_next (d : Dev) (i : Input) : (d.next p i).blk.div = d.blk.div ∨
    (d.next p i).blk.div = p.divFast ∧ (d.next p i).blk.cardReady = true := by
  cases idle : d.idle with
  | false =>
      rw [next_of_busy idle i]
      exact .inl rfl
  | true =>
      rw [(next_of_idle idle i).1]
      exact (leaves_step ..).div

theorem geared (t : ℕ) : Geared p input t := by
  induction t with
  | zero => exact ⟨.inl rfl, fun _ => rfl⟩
  | succ t ih =>
      rcases div_next p (run p input t) (input t) with same | ⟨fast, ready⟩
      · refine ⟨?_, fun early => ?_⟩
        · rw [run_succ, same]
          exact ih.either
        · rw [run_succ, same]
          exact ih.slow fun u before => early u (by omega)
      · refine ⟨.inr fast, fun early => ?_⟩
        have unready := early (t + 1) (Nat.le_refl _)
        rw [run_succ, ready] at unready
        exact absurd unready (by decide)

theorem low_run (t : ℕ) (rest : (run p input t).spi.run = false) :
    (run p input t).spi.sclk = false := by
  cases t with
  | zero => rfl
  | succ t => exact Spi.sclk_next rest

variable {p input}

/-- Two edges are as far apart as the divider says. -/
theorem Edge.apart {first second : ℕ} (one : Edge p input first) (two : Edge p input second)
    (order : first < second) : (run p input second).blk.div + 1 ≤ second - first := by
  have cleared : (run p input (first + 1)).spi.cnt = 0 :=
    (Spi.edge_next (low_run p input first) one).2
  have reached : (run p input second).blk.div ≤ (run p input second).spi.cnt :=
    (Spi.edge_next (low_run p input second) two).1
  have counted := Clocked.counter_le (q := fun t => (run p input t).spi.cnt) cleared
    (fun _ => Spi.cnt_next) (show first + 1 ≤ second by omega)
  omega

end Run

/-- For every clock period from 20 ps to a millisecond the dividers are computed in 32-bit
integers and fit into 16 bits.  Two edges of the card clock are 20 ns apart or more, and 1250 ns
if the card has not been ready before the second. -/
theorem never_too_fast (p : Params) (low : 20 ≤ p.clkPeriodPs) (high : p.clkPeriodPs ≤ 1000000000)
    (input : ℕ → Input) :
    (1250000 + p.clkPeriodPs - 1 < 2 ^ 31 ∧
      p.divSlow = (1250000 + p.clkPeriodPs - 1) / p.clkPeriodPs - 1 ∧
      p.divFast = (20000 + p.clkPeriodPs - 1) / p.clkPeriodPs - 1) ∧
    ∀ first second, Edge p input first → Edge p input second → first < second →
      20000 ≤ (second - first) * p.clkPeriodPs ∧
      ((∀ u ≤ second, (run p input u).blk.cardReady = false) →
        1250000 ≤ (second - first) * p.clkPeriodPs) := by
  obtain ⟨exactSlow, slow⟩ := Params.half_period 1250000 low (by decide) (by decide)
  obtain ⟨exactFast, fast⟩ := Params.half_period 20000 low (by decide) (by decide)
  rw [← exactSlow] at slow
  rw [← exactFast] at fast
  refine ⟨⟨by omega, exactSlow, exactFast⟩, fun first second one two order => ?_⟩
  have apart := one.apart two order
  have gears := geared p input second
  have times := Nat.mul_le_mul_right p.clkPeriodPs apart
  refine ⟨?_, fun early => ?_⟩
  · rcases gears.either with is | is
    · rw [is] at times
      exact Nat.le_trans (by decide) (Nat.le_trans slow times)
    · rw [is] at times
      exact Nat.le_trans fast times
  · rw [gears.slow early] at times
    exact Nat.le_trans slow times

/-- The first pulse of the wake-up clocks. -/
theorem first_pulse : Edge .slow (fun _ => {}) 204 ∧ Edge .slow (fun _ => {}) 205 ∧
    1250000 ≤ (205 - 204) * Params.slow.clkPeriodPs := by
  have state : (run .slow (fun _ => {}) 204).spi.sclk = false ∧
      (run .slow (fun _ => {}) 205).spi.sclk = true ∧
      (run .slow (fun _ => {}) 206).spi.sclk = false ∧
      (run .slow (fun _ => {}) 205).blk.cardReady = false := by
    decide +kernel
  obtain ⟨low, high, again, unready⟩ := state
  have rises : Edge .slow (fun _ => {}) 204 := by
    rw [Edge, low, high]
    decide
  have falls : Edge .slow (fun _ => {}) 205 := by
    rw [Edge, high, again]
    decide
  have early : ∀ u ≤ 205, (run .slow (fun _ => {}) u).blk.cardReady = false := by
    intro u before
    by_contra ready
    have later := cardReady_mono before (Bool.not_eq_false _ ▸ ready)
    rw [unready] at later
    exact Bool.false_ne_true later
  have spaced := (never_too_fast .slow (by decide) (by decide) fun _ => {}).2 204 205 rises falls
    (by decide)
  exact ⟨rises, falls, spaced.2 early⟩

end Dev

end Wish5380.Sd
