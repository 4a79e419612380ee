import Mathlib.Tactic.Common

/-!
# Streaks and tallies

How long a condition has held without a break, up to but not including the present cycle, and
the counters that measure it; and in how many cycles of a window it has held.
-/

namespace Clocked

/-- A counter that grows by one an edge at most is not ahead of the time since it was cleared. -/
theorem counter_le {q : ℕ → ℕ} {a t : ℕ} (cleared : q a = 0) (grows : ∀ u, q (u + 1) ≤ q u + 1)
    (later : a ≤ t) : q t ≤ t - a := by
  obtain ⟨n, rfl⟩ := Nat.exists_eq_add_of_le later
  clear later
  induction n with
  | zero => simp [cleared]
  | succ n ih =>
      have next : q (a + (n + 1)) ≤ q (a + n) + 1 := grows (a + n)
      omega

/-- The condition has held in each of the `k` cycles before cycle `t`. -/
def Streak (good : ℕ → Prop) (k t : ℕ) : Prop :=
  k ≤ t ∧ ∀ u, t - k ≤ u → u < t → good u

namespace Streak

variable {good live : ℕ → Prop} {k t : ℕ}

theorem zero (good : ℕ → Prop) (t : ℕ) : Streak good 0 t :=
  ⟨Nat.zero_le t, fun u low high => by omega⟩

theorem succ_iff : Streak good (k + 1) (t + 1) ↔ good t ∧ Streak good k t := by
  constructor
  · rintro ⟨within, held⟩
    refine ⟨held t (by omega) (by omega), by omega, fun u low high => ?_⟩
    exact held u (by omega) (by omega)
  · rintro ⟨now, within, held⟩
    refine ⟨by omega, fun u low high => ?_⟩
    rcases Nat.lt_or_ge u t with before | after
    · exact held u (by omega) before
    · obtain rfl : u = t := by omega
      exact now

/-- A counter that counts the cycles in which a condition holds, starts again when it does not
and stops at `n` is a measure of the streak.  Only the cycles in which it is `live` count: a
counter may be anything while nobody looks at it. -/
theorem counter {q : ℕ → ℕ} {n : ℕ} [DecidablePred good] (init : live 0 → q 0 = 0)
    (watched : ∀ t, good t → live t)
    (step : ∀ t, live (t + 1) → (live t → q t ≤ n) →
      q (t + 1) = if good t then min (q t + 1) n else 0) (t : ℕ) (here : live t) :
    q t ≤ n ∧ ∀ k ≤ n, (k ≤ q t ↔ Streak good k t) := by
  induction t with
  | zero =>
      rw [init here]
      refine ⟨Nat.zero_le n, fun k _ => ?_⟩
      constructor
      · intro none
        obtain rfl : k = 0 := by omega
        exact zero good 0
      · exact fun streak => streak.1
  | succ t ih =>
      have counts := step t here fun there => (ih there).1
      by_cases now : good t
      · obtain ⟨bound, measures⟩ := ih (watched t now)
        rw [counts, if_pos now]
        refine ⟨Nat.min_le_right _ _, fun k small => ?_⟩
        cases k with
        | zero => simp [zero good]
        | succ k =>
            rw [succ_iff, ← measures k (by omega)]
            constructor
            · intro reached
              exact ⟨now, by omega⟩
            · rintro ⟨-, reached⟩
              omega
      · rw [counts, if_neg now]
        refine ⟨Nat.zero_le n, fun k _ => ?_⟩
        cases k with
        | zero => simp [zero good]
        | succ k => simp [succ_iff, now]

end Streak

/-- The number of cycles from `a` up to but not including `b` in which `f` holds. -/
def tally (f : ℕ → Bool) (a b : ℕ) : ℕ :=
  (List.range' a (b - a)).countP f

@[simp] theorem tally_self (f : ℕ → Bool) (a : ℕ) : tally f a a = 0 := by
  simp [tally]

theorem tally_succ (f : ℕ → Bool) {a b : ℕ} (ab : a ≤ b) :
    tally f a (b + 1) = tally f a b + (f b).toNat := by
  have last : a + (b - a) = b := by omega
  have one : b + 1 - a = b - a + 1 := by omega
  rw [tally, one, List.range'_1_concat, List.countP_append, last, tally]
  cases on : f b <;> simp [on]

end Clocked
