import Mathlib.Tactic.Basic

/-!
# A component that calls back

What a component does when it is called, with the calls it makes to its owner on the way: before
each its state is where the owner can see it, and the owner may use the component again before it
returns, so that the component goes on from the state it then finds.
-/

namespace Wish5380.Callback

/-- A call of a component with states `σ`: it returns a value, or calls its owner through `pin`
first. -/
inductive Activity (σ π α : Type) where
  | ret (core : σ) (value : α)
  | calls (core : σ) (pin : π) (resume : σ → Activity σ π α)

namespace Activity

variable {σ π α τ γ : Type}

/-- The call in an owner with states `τ`, who keeps the component and answers its calls. -/
def run (get : τ → σ) (set : σ → τ → τ) (answer : π → τ → τ) : Activity σ π α → τ → α × τ
  | .ret core value, x => (value, set core x)
  | .calls core pin resume, x =>
      (resume (get (answer pin (set core x)))).run get set answer (answer pin (set core x))

/-- The component leaves the observable at `v`, and after a call of the owner at what it is then. -/
def Steady (observe : σ → γ) : γ → Activity σ π α → Prop
  | v, .ret core _ => observe core = v
  | v, .calls core _ resume => observe core = v ∧ ∀ s, Steady observe (observe s) (resume s)

variable {get : τ → σ} {set : σ → τ → τ} {answer : π → τ → τ} {observe : σ → γ} {I : τ → Prop}

/-- What holds of the owner wherever the component may put itself without moving the observable,
and after every answer, holds when the call is over. -/
theorem run_steady (act : Activity σ π α) {x : τ} (here : I x)
    (steady : act.Steady observe (observe (get x)))
    (stays : ∀ s y, I y → observe s = observe (get y) → I (set s y))
    (answers : ∀ pin y, I y → I (answer pin y)) : I (act.run get set answer x).2 := by
  induction act generalizing x with
  | ret core value => exact stays core x here steady
  | calls core pin resume ih =>
      have called := answers pin _ (stays core x here steady.1)
      exact ih _ called (steady.2 _)

/-- The same, when the call begins by moving the observable. -/
theorem run_moves (act : Activity σ π α) {x : τ} {v : γ} (steady : act.Steady observe v)
    (enters : ∀ s, observe s = v → I (set s x))
    (stays : ∀ s y, I y → observe s = observe (get y) → I (set s y))
    (answers : ∀ pin y, I y → I (answer pin y)) : I (act.run get set answer x).2 := by
  cases act with
  | ret core value => exact enters core steady
  | calls core pin resume =>
      have called := answers pin _ (enters core steady.1)
      exact run_steady (resume _) called (steady.2 _) stays answers

end Activity

end Wish5380.Callback
