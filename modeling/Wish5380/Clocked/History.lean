import Mathlib.Data.List.Basic
import Mathlib.Data.List.Induction
import Mathlib.Tactic.Common

/-!
# Histories

What a machine has shown so far is a list of events, the latest at the end.  A
history is justified when every event in it was due, given what came before it.
-/

namespace Clocked

variable {ε : Type*}

/-- Every event of the history was due after the events before it. -/
def Justified (due : List ε → ε → Prop) (history : List ε) : Prop :=
  ∀ before event after, history = before ++ event :: after → due before event

namespace Justified

variable {due : List ε → ε → Prop} {history more : List ε} {event : ε}

theorem nil : Justified due [] := by
  intro before event after split
  simp at split

theorem snoc_iff :
    Justified due (history ++ [event]) ↔ Justified due history ∧ due history event := by
  constructor
  · intro justified
    refine ⟨fun before earlier after split => ?_, justified history event [] rfl⟩
    exact justified before earlier (after ++ [event]) (by rw [split]; simp)
  · rintro ⟨justified, now⟩ before earlier after split
    rcases List.eq_nil_or_concat' after with rfl | ⟨rest, last, rfl⟩
    · obtain ⟨rfl, same⟩ := List.append_inj' split rfl
      obtain rfl : event = earlier := by simpa using same
      exact now
    · have parts : history ++ [event] = (before ++ earlier :: rest) ++ [last] := by
        rw [split]
        simp
      exact justified before earlier rest (List.append_inj' parts rfl).1

theorem snoc (justified : Justified due history) (now : due history event) :
    Justified due (history ++ [event]) :=
  snoc_iff.mpr ⟨justified, now⟩

/-- Only the events that are not due at any time need looking at. -/
theorem append (justified : Justified due history)
    (always : ∀ event ∈ more, ∀ before, due before event) : Justified due (history ++ more) := by
  induction more using List.reverseRecOn with
  | nil => simpa using justified
  | append_singleton more event ih =>
      rw [← List.append_assoc]
      refine (ih fun e member => always e (by simp [member])).snoc ?_
      exact always event (by simp) _

theorem of_append (justified : Justified due (history ++ more)) : Justified due history := by
  intro before event after split
  exact justified before event (after ++ more) (by rw [split]; simp)

end Justified

end Clocked
