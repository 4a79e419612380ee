import Wish5380.Clocked.Run

/-!
# What leads to what

A clocked machine whose inputs keep to a rule for as long as it takes is led from one
condition to another, and passes only through quiet states on its way.  The number of
edges may depend on everything; what the rule asks of the inputs ends with them.
-/

namespace Clocked

variable {σ ι : Type*} {next : σ → ι → σ} {rule : ι → Prop} {quiet : σ → Prop}
  {P Q R : σ → Prop}

/-- From every `P` state a `Q` state is reached, if the inputs keep to `rule` until then;
the states after each edge are `quiet`. -/
def Leads (next : σ → ι → σ) (rule : ι → Prop) (quiet : σ → Prop) (P Q : σ → Prop) : Prop :=
  ∀ s, P s → ∀ input : ℕ → ι, ∃ n, (∀ i < n, rule (input i)) →
    Q (run next s input n) ∧ ∀ i, 0 < i → i ≤ n → quiet (run next s input i)

namespace Leads

theorem of_imp (already : ∀ s, P s → Q s) : Leads next rule quiet P Q := by
  intro s here input
  refine ⟨0, fun _ => ⟨already s here, ?_⟩⟩
  intro i positive none
  omega

/-- One edge. -/
theorem edge (step : ∀ s i, P s → rule i → Q (next s i) ∧ quiet (next s i)) :
    Leads next rule quiet P Q := by
  intro s here input
  refine ⟨1, fun kept => ?_⟩
  have moved := step s (input 0) here (kept 0 Nat.zero_lt_one)
  refine ⟨moved.1, fun i positive one => ?_⟩
  obtain rfl : i = 1 := by omega
  exact moved.2

theorem trans (first : Leads next rule quiet P Q) (second : Leads next rule quiet Q R) :
    Leads next rule quiet P R := by
  intro s here input
  obtain ⟨n, reach⟩ := first s here input
  by_cases kept : ∀ i < n, rule (input i)
  · obtain ⟨there, passed⟩ := reach kept
    obtain ⟨m, further⟩ := second _ there fun i => input (n + i)
    refine ⟨n + m, fun all => ?_⟩
    obtain ⟨final, rest⟩ := further fun i below => all (n + i) (by omega)
    rw [← run_add] at final
    refine ⟨final, fun i positive below => ?_⟩
    rcases Nat.lt_or_ge n i with late | early
    · have later := rest (i - n) (by omega) (by omega)
      rwa [← run_add, Nat.add_sub_cancel' (Nat.le_of_lt late)] at later
    · exact passed i positive early
  · exact ⟨n, fun all => absurd all kept⟩

theorem mono (path : Leads next rule quiet P Q) (weaker : ∀ s, Q s → R s) :
    Leads next rule quiet P R :=
  path.trans (of_imp weaker)

theorem from_imp (stronger : ∀ s, P s → Q s) (path : Leads next rule quiet Q R) :
    Leads next rule quiet P R :=
  (of_imp stronger).trans path

/-- A loop: as long as `P k` leads on to `P (k + 1)`, the first leads to the last. -/
theorem stages {P : ℕ → σ → Prop} {n : ℕ}
    (advance : ∀ k < n, Leads next rule quiet (P k) (P (k + 1))) :
    Leads next rule quiet (P 0) (P n) := by
  induction n with
  | zero => exact of_imp fun _ here => here
  | succ n ih =>
      exact (ih fun k below => advance k (by omega)).trans (advance n (Nat.lt_succ_self n))

/-- Two ways to the same place. -/
theorem either (first : Leads next rule quiet P R) (second : Leads next rule quiet Q R) :
    Leads next rule quiet (fun s => P s ∨ Q s) R := by
  intro s here
  rcases here with left | right
  · exact first s left
  · exact second s right

/-- A loop that may be left. -/
theorem until_left {P : ℕ → σ → Prop} {n : ℕ}
    (advance : ∀ k < n, Leads next rule quiet (P k) fun s => P (k + 1) s ∨ Q s) :
    Leads next rule quiet (P 0) fun s => P n s ∨ Q s := by
  induction n with
  | zero => exact of_imp fun _ here => .inl here
  | succ n ih =>
      refine (ih fun k below => advance k (by omega)).trans ?_
      exact (advance n (Nat.lt_succ_self n)).either (of_imp fun _ here => .inr here)

/-- Where the rule is kept as long as the states are quiet, the condition is reached. -/
theorem reaches (path : Leads next rule quiet P Q) {s : σ} (here : P s) (input : ℕ → ι) (calm : ι)
    (allowed : rule calm)
    (kept : ∀ n, (∀ i, 0 < i → i ≤ n → quiet (run next s input i)) → rule (input n)) :
    ∃ n, Q (run next s input n) ∧ ∀ i, 0 < i → i ≤ n → quiet (run next s input i) := by
  classical
  -- the inputs that keep to the rule throughout, and agree with the given ones until then
  let tame (i : ℕ) : ι := if rule (input i) then input i else calm
  have ruled (i : ℕ) : rule (tame i) := by
    by_cases holds : rule (input i)
    · simp only [tame, if_pos holds, holds]
    · simp only [tame, if_neg holds, allowed]
  obtain ⟨n, reach⟩ := path s here tame
  obtain ⟨there, passed⟩ := reach fun i _ => ruled i
  have agree (i : ℕ) (inside : i ≤ n) : run next s input i = run next s tame i := by
    refine run_congr (n := n) (fun i inside before => (if_pos (kept i fun j positive early => ?_)).symm)
      inside
    rw [before j early]
    exact passed j positive (by omega)
  refine ⟨n, agree n (Nat.le_refl n) ▸ there, fun i positive inside => ?_⟩
  rw [agree i inside]
  exact passed i positive inside

end Leads

/-! ## In a fixed time -/

/-- From every `P` state the state `n` edges on is a `Q` state, if the inputs keep to `rule`
until then; the states after each edge are `quiet`. -/
def LeadsIn (next : σ → ι → σ) (rule : ι → Prop) (quiet : σ → Prop) (n : ℕ) (P Q : σ → Prop) :
    Prop :=
  ∀ s, P s → ∀ input : ℕ → ι, (∀ i < n, rule (input i)) →
    Q (run next s input n) ∧ ∀ i, 0 < i → i ≤ n → quiet (run next s input i)

namespace LeadsIn

variable {n m : ℕ}

theorem leads (path : LeadsIn next rule quiet n P Q) : Leads next rule quiet P Q :=
  fun s here input => ⟨n, path s here input⟩

/-- What comes first takes a fixed time, what follows need not. -/
theorem before (first : LeadsIn next rule quiet n P Q) (second : Leads next rule quiet Q R) :
    Leads next rule quiet P R :=
  first.leads.trans second

theorem lands (path : LeadsIn next rule quiet n P Q) (weaker : ∀ s, Q s → R s) :
    Leads next rule quiet P R :=
  path.leads.mono weaker

theorem of_imp (already : ∀ s, P s → Q s) : LeadsIn next rule quiet 0 P Q := by
  intro s here input _
  refine ⟨already s here, ?_⟩
  intro i positive none
  omega

/-- One edge. -/
theorem edge (step : ∀ s i, P s → rule i → Q (next s i) ∧ quiet (next s i)) :
    LeadsIn next rule quiet 1 P Q := by
  intro s here input kept
  have moved := step s (input 0) here (kept 0 Nat.zero_lt_one)
  refine ⟨moved.1, fun i positive one => ?_⟩
  obtain rfl : i = 1 := by omega
  exact moved.2

theorem trans (first : LeadsIn next rule quiet n P Q) (second : LeadsIn next rule quiet m Q R) :
    LeadsIn next rule quiet (n + m) P R := by
  intro s here input all
  obtain ⟨there, passed⟩ := first s here input fun i below => all i (by omega)
  obtain ⟨final, rest⟩ := second _ there (fun i => input (n + i)) fun i below =>
    all (n + i) (by omega)
  rw [← run_add] at final
  refine ⟨final, fun i positive below => ?_⟩
  rcases Nat.lt_or_ge n i with late | early
  · have later := rest (i - n) (by omega) (by omega)
    rwa [← run_add, Nat.add_sub_cancel' (Nat.le_of_lt late)] at later
  · exact passed i positive early

theorem mono (path : LeadsIn next rule quiet n P Q) (weaker : ∀ s, Q s → R s) :
    LeadsIn next rule quiet n P R :=
  path.trans (of_imp weaker)

theorem from_imp (stronger : ∀ s, P s → Q s) (path : LeadsIn next rule quiet n Q R) :
    LeadsIn next rule quiet n P R :=
  fun s here => path s (stronger s here)

theorem cast (path : LeadsIn next rule quiet n P Q) (same : n = m) :
    LeadsIn next rule quiet m P Q :=
  same ▸ path

/-- A loop whose rounds all take as long. -/
theorem stages {P : ℕ → σ → Prop}
    (advance : ∀ k < n, LeadsIn next rule quiet m (P k) (P (k + 1))) :
    LeadsIn next rule quiet (n * m) (P 0) (P n) := by
  induction n with
  | zero => exact (of_imp fun _ here => here).cast (Nat.zero_mul m).symm
  | succ n ih =>
      exact ((ih fun k below => advance k (by omega)).trans (advance n (Nat.lt_succ_self n))).cast
        (Nat.succ_mul n m).symm

end LeadsIn

end Clocked
