import Mathlib.Data.Nat.Find
import Mathlib.Tactic.Common

/-!
# Work under a watchdog

A machine goes through phases, and a counter that wraps watches each of them.  While the
counter stands late enough in its range the machine has no choice but to count its own
rank down; early in the range it may do as it likes.  If the late part of the range is
longer than any rank, no phase can last.
-/

namespace Clocked

variable {rank clock : ℕ → ℕ} {a n wrap low : ℕ}

/-- A rank that falls at every edge falls by the number of edges. -/
theorem rank_add_le (falls : ∀ t, a ≤ t → t < a + n → rank (t + 1) < rank t) :
    rank (a + n) + n ≤ rank a := by
  induction n with
  | zero => exact Nat.le_refl _
  | succ n ih =>
      have before := ih fun t late early => falls t late (by omega)
      have last : rank (a + (n + 1)) < rank (a + n) := falls (a + n) (by omega) (by omega)
      omega

/-- A wrapping counter that counts every edge is where the number of edges says. -/
theorem clock_add (counts : ∀ t, a ≤ t → clock (t + 1) % wrap = (clock t + 1) % wrap) (n : ℕ) :
    clock (a + n) % wrap = (clock a + n) % wrap := by
  induction n with
  | zero => rfl
  | succ n ih =>
      rw [← Nat.add_assoc, counts (a + n) (by omega), Nat.add_mod, ih, ← Nat.add_mod,
        Nat.add_assoc]

/-- So it comes to any place of its range, and goes on from there to the end. -/
theorem exists_clock_eq
    (counts : ∀ t, a ≤ t → clock (t + 1) % wrap = (clock t + 1) % wrap) (low : ℕ) :
    ∃ b, a ≤ b ∧ ∀ n, low + n < wrap → clock (b + n) % wrap = low + n := by
  refine ⟨a + (wrap - clock a % wrap + low), Nat.le_add_right a _, fun n inside => ?_⟩
  have positive : 0 < wrap := by omega
  have below := Nat.mod_lt (clock a) positive
  have split := Nat.div_add_mod (clock a) wrap
  have whole : clock a + (wrap - clock a % wrap + low + n) =
      low + n + wrap * (clock a / wrap + 1) := by
    rw [Nat.mul_succ]
    omega
  rw [Nat.add_assoc a, clock_add counts, whole, Nat.add_mul_mod_self_left, Nat.mod_eq_of_lt inside]

variable {phase : ℕ → ℕ}

/-- What an edge does under the watchdog: it ends the phase, or the counter counts it and, when
that is late, the rank falls. -/
def Watched (phase rank clock : ℕ → ℕ) (wrap low t : ℕ) : Prop :=
  phase (t + 1) < phase t ∨
    phase (t + 1) = phase t ∧ clock (t + 1) % wrap = (clock t + 1) % wrap ∧
      (low ≤ clock t % wrap → rank (t + 1) < rank t)

/-- No phase lasts. -/
theorem phase_ends
    (step : ∀ t, a ≤ t → phase t ≠ 0 → Watched phase rank clock wrap low t)
    (enough : ∀ t, low + rank t < wrap) (busy : phase a ≠ 0) :
    ∃ u, a < u ∧ phase u < phase a := by
  by_contra lasting
  push Not at lasting
  have same : ∀ n, phase (a + n) = phase a := by
    intro n
    induction n with
    | zero => rfl
    | succ n ih =>
        have high := lasting (a + (n + 1)) (by omega)
        rw [← Nat.add_assoc] at high ⊢
        rcases step (a + n) (by omega) (ih ▸ busy) with lower | kept
        · omega
        · exact kept.1.trans ih
  have going : ∀ t, a ≤ t → clock (t + 1) % wrap = (clock t + 1) % wrap ∧
      (low ≤ clock t % wrap → rank (t + 1) < rank t) := by
    intro t later
    have now := same (t - a)
    have next := same (t + 1 - a)
    rw [Nat.add_sub_cancel' (by omega)] at now next
    rcases step t later (now ▸ busy) with lower | kept
    · omega
    · exact kept.2
  obtain ⟨b, later, place⟩ := exists_clock_eq (fun t late => (going t late).1) low
  have fits := enough b
  have falls : ∀ t, b ≤ t → t < b + (rank b + 1) → rank (t + 1) < rank t := by
    intro t late early
    have here := place (t - b) (by omega)
    rw [Nat.add_sub_cancel' late] at here
    exact (going t (by omega)).2 (by omega)
  have fallen := rank_add_le falls
  omega

/-- The machine comes to the end of its last phase. -/
theorem phases_end (phase rank clock : ℕ → ℕ) {a : ℕ}
    (step : ∀ t, a ≤ t → phase t ≠ 0 → Watched phase rank clock wrap low t)
    (enough : ∀ t, low + rank t < wrap) : ∃ u, a ≤ u ∧ phase u = 0 := by
  induction left : phase a using Nat.strong_induction_on generalizing a with
  | _ left ih =>
      by_cases finished : phase a = 0
      · exact ⟨a, Nat.le_refl a, finished⟩
      · obtain ⟨b, later, lower⟩ := phase_ends step enough finished
        obtain ⟨u, last, ended⟩ := ih (phase b) (left ▸ lower)
          (fun t late => step t (by omega)) rfl
        exact ⟨u, by omega, ended⟩

end Clocked
