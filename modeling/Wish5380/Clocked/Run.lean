import Mathlib.Data.Nat.Find
import Mathlib.Data.List.Basic
import Mathlib.Tactic.Common

/-!
# Runs of clocked machines

A clocked machine is a next-state function of its state and of the inputs it
samples at an edge.  A run feeds it one input a cycle.  Cycle `t` sees the
state after `t` edges together with input `t`.
-/

namespace Clocked

variable {σ ι ε : Type*}

/-- The state seen in cycle `t`, after `t` edges from `start`. -/
def run (next : σ → ι → σ) (start : σ) (input : ℕ → ι) : ℕ → σ
  | 0 => start
  | t + 1 => next (run next start input t) (input t)

@[simp] theorem run_zero (next : σ → ι → σ) (start : σ) (input : ℕ → ι) :
    run next start input 0 = start :=
  rfl

theorem run_succ (next : σ → ι → σ) (start : σ) (input : ℕ → ι) (t : ℕ) :
    run next start input (t + 1) = next (run next start input t) (input t) :=
  rfl

/-- A run is itself a run from any of its states, on the remaining inputs. -/
theorem run_add (next : σ → ι → σ) (start : σ) (input : ℕ → ι) (t u : ℕ) :
    run next start input (t + u) =
      run next (run next start input t) (fun n => input (t + n)) u := by
  induction u with
  | zero => rfl
  | succ u ih => rw [← Nat.add_assoc, run_succ, run_succ, ih]

/-- Two runs agree for as long as their inputs do. -/
theorem run_congr {next : σ → ι → σ} {start : σ} {input input' : ℕ → ι} {n : ℕ}
    (same : ∀ i < n, (∀ j ≤ i, run next start input j = run next start input' j) →
      input i = input' i) {i : ℕ} (inside : i ≤ n) :
    run next start input i = run next start input' i := by
  induction i using Nat.strong_induction_on with
  | _ i ih =>
      cases i with
      | zero => rfl
      | succ i =>
          have before (j : ℕ) (early : j ≤ i) : run next start input j = run next start input' j :=
            ih j (by omega) (by omega)
          rw [run_succ, run_succ, before i (Nat.le_refl i), same i (by omega) before]

/-- A machine that the input leaves where it is stays there while the input holds. -/
theorem run_fixed {next : σ → ι → σ} {start : σ} {input : ℕ → ι} {a : ℕ}
    (fixed : ∀ t, a ≤ t → next (run next start input a) (input t) = run next start input a)
    {t : ℕ} (later : a ≤ t) : run next start input t = run next start input a := by
  induction t, later using Nat.le_induction with
  | base => rfl
  | succ t later ih => rw [run_succ, ih, fixed t later]

/-- A projection that commutes with the step commutes with the whole run. -/
theorem run_map {τ : Type*} {next : σ → ι → σ} {next' : τ → ι → τ} {f : σ → τ}
    (commutes : ∀ s i, f (next s i) = next' (f s) i) (start : σ) (input : ℕ → ι) (t : ℕ) :
    f (run next start input t) = run next' (f start) input t := by
  induction t with
  | zero => rfl
  | succ t ih => rw [run_succ, run_succ, commutes, ih]

/-- A machine in a loop with an environment that answers each state in its own cycle. -/
def loop (next : σ → ι → σ) (env : σ → ι) (start : σ) : ℕ → σ
  | 0 => start
  | t + 1 => next (loop next env start t) (env (loop next env start t))

/-- The loop is one of the machine's runs. -/
theorem run_loop (next : σ → ι → σ) (env : σ → ι) (start : σ) :
    run next start (fun t => env (loop next env start t)) = loop next env start := by
  funext t
  induction t with
  | zero => rfl
  | succ t ih => rw [run_succ, ih, loop]

/-! ## What a run shows over a stretch of cycles -/

/-- The items shown in cycles `a`, `a + 1`, up to but not including `b`. -/
def trace (emit : ℕ → List ε) (a b : ℕ) : List ε :=
  (List.range' a (b - a)).flatMap emit

@[simp] theorem trace_self (emit : ℕ → List ε) (a : ℕ) : trace emit a a = [] := by
  simp [trace]

theorem trace_append (emit : ℕ → List ε) {a b c : ℕ} (ab : a ≤ b) (bc : b ≤ c) :
    trace emit a c = trace emit a b ++ trace emit b c := by
  have split : List.range' a (c - a) = List.range' a (b - a) ++ List.range' b (c - b) := by
    have pieces := List.range'_append_1 (s := a) (m := b - a) (n := c - b)
    rw [Nat.add_sub_cancel' ab] at pieces
    rw [pieces]
    congr 1
    omega
  simp only [trace, split, List.flatMap_append]

theorem trace_succ (emit : ℕ → List ε) {a b : ℕ} (ab : a ≤ b) :
    trace emit a (b + 1) = trace emit a b ++ emit b := by
  rw [trace_append emit ab (Nat.le_succ b)]
  simp [trace]

theorem trace_head (emit : ℕ → List ε) {a b : ℕ} (ab : a < b) :
    trace emit a b = emit a ++ trace emit (a + 1) b := by
  rw [trace_append emit (Nat.le_succ a) ab]
  simp [trace]

theorem trace_eq_nil {emit : ℕ → List ε} {a b : ℕ}
    (quiet : ∀ t, a ≤ t → t < b → emit t = []) : trace emit a b = [] := by
  simp only [trace, List.flatMap_eq_nil_iff, List.mem_range'_1]
  intro t inside
  exact quiet t inside.1 (by omega)

theorem mem_trace {emit : ℕ → List ε} {a b : ℕ} {e : ε} :
    e ∈ trace emit a b ↔ ∃ t, a ≤ t ∧ t < b ∧ e ∈ emit t := by
  simp only [trace, List.mem_flatMap, List.mem_range'_1]
  constructor
  · rintro ⟨t, ⟨low, high⟩, inside⟩
    exact ⟨t, low, by omega, inside⟩
  · rintro ⟨t, low, high, inside⟩
    exact ⟨t, ⟨low, by omega⟩, inside⟩

/-! ## Waiting -/

/-- Something that will happen happens a first time. -/
theorem exists_first {P : ℕ → Prop} {t : ℕ} (will : ∃ u, t ≤ u ∧ P u) :
    ∃ u, t ≤ u ∧ P u ∧ ∀ v, t ≤ v → v < u → ¬ P v := by
  classical
  refine ⟨Nat.find will, (Nat.find_spec will).1, (Nat.find_spec will).2, ?_⟩
  intro v low high now
  exact Nat.find_min will high ⟨low, now⟩

/-- Where one stretch of cycles follows another, every cycle is in one. -/
theorem exists_stretch {P : ℕ → Prop} {C : ℕ → ℕ → Prop} {r : ℕ} (begun : P r)
    (advance : ∀ t, P t → ∃ u, t < u ∧ P u ∧ C t u) {n : ℕ} (later : r ≤ n) :
    ∃ t u, t ≤ n ∧ n < u ∧ P t ∧ C t u := by
  suffices whole : ∃ t u, t ≤ n ∧ n < u ∧ P t ∧ P u ∧ C t u by
    obtain ⟨t, u, low, high, first, -, stretch⟩ := whole
    exact ⟨t, u, low, high, first, stretch⟩
  induction n, later using Nat.le_induction with
  | base =>
      obtain ⟨u, high, last, stretch⟩ := advance r begun
      exact ⟨r, u, Nat.le_refl r, high, begun, last, stretch⟩
  | succ n later ih =>
      obtain ⟨t, u, low, high, first, last, stretch⟩ := ih
      rcases Nat.lt_or_ge (n + 1) u with inside | beyond
      · exact ⟨t, u, by omega, inside, first, last, stretch⟩
      · obtain rfl : u = n + 1 := by omega
        obtain ⟨v, high', last', stretch'⟩ := advance (n + 1) last
        exact ⟨n + 1, v, Nat.le_refl _, high', last, last', stretch'⟩

/-- A state that only an awaited event can end is the state in every cycle of
the wait, the one of the event included. -/
theorem hold_until {x : ℕ → σ} {P : ℕ → Prop} {s : σ} {t : ℕ} (now : x t = s)
    (hold : ∀ u, t ≤ u → x u = s → ¬ P u → x (u + 1) = s) (will : ∃ u, t ≤ u ∧ P u) :
    ∃ u, t ≤ u ∧ P u ∧ (∀ v, t ≤ v → v < u → ¬ P v) ∧ ∀ v, t ≤ v → v ≤ u → x v = s := by
  obtain ⟨u, low, event, before⟩ := exists_first will
  refine ⟨u, low, event, before, ?_⟩
  intro v lower upper
  induction v, lower using Nat.le_induction with
  | base => exact now
  | succ v lower ih =>
      exact hold v lower (ih (by omega)) (before v lower (by omega))

/-- What lasts until an awaited event is still there with it. -/
theorem lasts_until {P Q : ℕ → Prop} {t : ℕ} (now : Q t)
    (hold : ∀ u, t ≤ u → Q u → ¬ P u → Q (u + 1)) (will : ∃ u, t ≤ u ∧ P u) :
    ∃ u, t ≤ u ∧ P u ∧ Q u := by
  obtain ⟨u, low, event, before⟩ := exists_first will
  have lasts : ∀ v, t ≤ v → v ≤ u → Q v := by
    intro v lower
    induction v, lower using Nat.le_induction with
    | base => exact fun _ => now
    | succ v lower ih => exact fun upper => hold v lower (ih (by omega)) (before v lower (by omega))
  exact ⟨u, low, event, lasts u low (Nat.le_refl u)⟩

/-! ## Latches -/

/-- A latch whose clear wins over its set holds what has happened since the last clear. -/
theorem latch_iff (q set clear : ℕ → Bool) (init : q 0 = false)
    (step : ∀ t, q (t + 1) = (!clear t && (q t || set t))) (t : ℕ) :
    q t = true ↔ ∃ s, s < t ∧ set s = true ∧ ∀ u, s ≤ u → u < t → clear u = false := by
  induction t with
  | zero => simp [init]
  | succ t ih =>
      rw [step, Bool.and_eq_true, Bool.or_eq_true, ih, Bool.not_eq_true']
      constructor
      · rintro ⟨kept, ⟨s, before, happens, since⟩ | now⟩
        · refine ⟨s, by omega, happens, fun u low high => ?_⟩
          rcases Nat.lt_succ_iff_lt_or_eq.mp high with earlier | rfl
          · exact since u low earlier
          · exact kept
        · refine ⟨t, Nat.lt_succ_self t, now, fun u low high => ?_⟩
          obtain rfl : u = t := by omega
          exact kept
      · rintro ⟨s, before, happens, since⟩
        refine ⟨since t (by omega) (Nat.lt_succ_self t), ?_⟩
        rcases Nat.lt_succ_iff_lt_or_eq.mp before with earlier | rfl
        · exact .inl ⟨s, earlier, happens, fun u low high => since u low (by omega)⟩
        · exact .inr happens

/-! ## Stretches of a run -/

theorem trace_eq_single {emit : ℕ → List ε} {a b c : ℕ} (low : a ≤ c) (high : c < b)
    (quiet : ∀ t, a ≤ t → t < b → t ≠ c → emit t = []) : trace emit a b = emit c := by
  rw [trace_append emit low (Nat.le_of_lt high), trace_head emit high,
    trace_eq_nil (fun t lower upper => quiet t lower (by omega) (by omega)),
    trace_eq_nil (fun t lower upper => quiet t (by omega) upper (by omega))]
  simp

/-- From cycle `a` up to cycle `b` the run shows `shown`, and every cycle on the
way is a `Q` cycle. -/
structure Stretch (emit : ℕ → List ε) (Q : ℕ → Prop) (a b : ℕ) (shown : List ε) : Prop where
  le : a ≤ b
  trace_eq : trace emit a b = shown
  within : ∀ t, a ≤ t → t < b → Q t

namespace Stretch

variable {emit : ℕ → List ε} {Q : ℕ → Prop} {a b c : ℕ} {shown shown' : List ε}

theorem refl (emit : ℕ → List ε) (Q : ℕ → Prop) (a : ℕ) : Stretch emit Q a a [] where
  le := Nat.le_refl a
  trace_eq := trace_self emit a
  within _ low high := absurd high (Nat.not_lt.mpr low)

theorem trans (first : Stretch emit Q a b shown) (second : Stretch emit Q b c shown') :
    Stretch emit Q a c (shown ++ shown') where
  le := Nat.le_trans first.le second.le
  trace_eq := by
    rw [trace_append emit first.le second.le, first.trace_eq, second.trace_eq]
  within t low high := by
    rcases Nat.lt_or_ge t b with early | late
    · exact first.within t low early
    · exact second.within t late high

/-- Work that is done in stages: when each stage leads to the next, the first
leads to the last. -/
theorem stages {At : ℕ → ℕ → Prop} {parts : ℕ → List ε} {n : ℕ}
    (advance : ∀ k < n, ∀ t, At k t → ∃ u, At (k + 1) u ∧ Stretch emit Q t u (parts k))
    {t : ℕ} (first : At 0 t) :
    ∃ u, At n u ∧ Stretch emit Q t u ((List.range n).flatMap parts) := by
  induction n with
  | zero => exact ⟨t, first, Stretch.refl emit Q t⟩
  | succ n ih =>
      obtain ⟨u, reached, before⟩ := ih (fun k below => advance k (by omega))
      obtain ⟨w, last, after⟩ := advance n (Nat.lt_succ_self n) u reached
      refine ⟨w, last, ?_⟩
      rw [List.range_succ, List.flatMap_append, List.flatMap_singleton]
      exact before.trans after

end Stretch

end Clocked
