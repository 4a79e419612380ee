import Mathlib.Logic.Function.Iterate
import Mathlib.Tactic.SplitIfs

/-!
# Combinational loops

Wires that feed back into what drives them.  A loop that looks at its own value only
through `view`, and always shows the same there, has exactly one settled value.  Turning
it by hand reaches that value from anywhere in two turns, and notices in the third.
-/

namespace Clocked

variable {α β σ : Type*}

/-- `f` depends on what `view` shows and on nothing else, and cannot change it. -/
structure Feeds (f : α → α) (view : α → β) : Prop where
  congr : ∀ x y, view x = view y → f x = f y
  shows : ∀ x y, view (f x) = view (f y)

namespace Feeds

variable {f : α → α} {view : α → β}

theorem twice (feeds : Feeds f view) (x y : α) : f (f x) = f (f y) :=
  feeds.congr _ _ (feeds.shows x y)

theorem settled (feeds : Feeds f view) (x : α) : f (f x) = f (f (f x)) :=
  feeds.twice x (f x)

/-- Two turns lead to a settled value, wherever they begin. -/
theorem eq_of_settled (feeds : Feeds f view) {w : α} (still : w = f w) (x : α) : f (f x) = w := by
  rw [feeds.twice x w, ← still, ← still]

theorem existsUnique [Nonempty α] (feeds : Feeds f view) : ∃! w, w = f w := by
  obtain ⟨x⟩ := ‹Nonempty α›
  exact ⟨f (f x), feeds.settled x, fun w still => (feeds.eq_of_settled still x).symm⟩

end Feeds

/-! ## Turning the loop by hand -/

section Turning

variable [DecidableEq α]

/-- Turn the loop until a turn leaves the wires as they were, `bound` times at most. -/
def turnUntilSettled (turn : σ → σ) (wires : σ → α) : ℕ → σ → σ
  | 0, s => s
  | bound + 1, s =>
      if wires s = wires (turn s) then turn s else turnUntilSettled turn wires bound (turn s)

/-- How many turns that takes.  A number below the bound means that the wires came to rest. -/
def turns (turn : σ → σ) (wires : σ → α) : ℕ → σ → ℕ
  | 0, _ => 0
  | bound + 1, s => if wires s = wires (turn s) then 1 else turns turn wires bound (turn s) + 1

variable {turn : σ → σ} {wires : σ → α}

theorem turnUntilSettled_eq (bound : ℕ) (s : σ) :
    turnUntilSettled turn wires bound s = turn^[turns turn wires bound s] s := by
  induction bound generalizing s with
  | zero => rfl
  | succ bound ih =>
      rw [turnUntilSettled, turns]
      split_ifs
      · rfl
      · rw [Function.iterate_succ_apply]
        exact ih (turn s)

/-- The wires that the turns leave behind are those of the loop. -/
def Follows (turn : σ → σ) (wires : σ → α) (f : α → α) (s : σ) : Prop :=
  ∀ k, wires (turn^[k + 1] s) = f (wires (turn^[k] s))

namespace Feeds

variable {f : α → α} {view : α → β} {s : σ}

/-- The third turn changes nothing, if not an earlier one. -/
theorem turns_le (feeds : Feeds f view) (follows : Follows turn wires f s) (bound : ℕ) :
    turns turn wires bound s ≤ 3 := by
  have third : wires (turn (turn s)) = wires (turn (turn (turn s))) := by
    have first : wires (turn s) = f (wires s) := follows 0
    have second : wires (turn (turn s)) = f (wires (turn s)) := follows 1
    have last : wires (turn (turn (turn s))) = f (wires (turn (turn s))) := follows 2
    rw [last, second, first]
    exact feeds.settled (wires s)
  match bound with
  | 0 => exact Nat.zero_le 3
  | 1 =>
      simp only [turns]
      split_ifs <;> omega
  | 2 =>
      simp only [turns]
      split_ifs <;> omega
  | bound + 3 =>
      simp only [turns, third, if_true]
      split_ifs <;> omega

/-- With room for three turns, the last one is made on the settled wires. -/
theorem last_turn (feeds : Feeds f view) (follows : Follows turn wires f s) {w : α}
    (still : w = f w) (bound : ℕ) :
    ∃ k, turnUntilSettled turn wires (bound + 3) s = turn (turn^[k] s) ∧ wires (turn^[k] s) = w := by
  have first : wires (turn s) = f (wires s) := follows 0
  have second : wires (turn (turn s)) = w := by
    rw [show wires (turn (turn s)) = f (wires (turn s)) from follows 1, first]
    exact feeds.eq_of_settled still (wires s)
  have third : wires (turn (turn (turn s))) = w := by
    rw [show wires (turn (turn (turn s))) = f (wires (turn (turn s))) from follows 2, second]
    exact still.symm
  simp only [turnUntilSettled, second, third, if_true]
  split_ifs with atOnce later
  · refine ⟨0, rfl, ?_⟩
    have fixed : f (wires s) = wires s := first.symm.trans atOnce.symm
    show wires s = w
    rw [← feeds.eq_of_settled still (wires s), fixed, fixed]
  · exact ⟨1, rfl, later⟩
  · exact ⟨2, rfl, second⟩

end Feeds

end Turning

end Clocked
