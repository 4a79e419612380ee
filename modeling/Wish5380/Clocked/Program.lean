import Mathlib.Logic.Relation
import Wish5380.Clocked.Run

/-!
# Programs that drive a clocked machine

A program is the tree of what a driver does next: an access of the machine, whose answer decides
how it goes on, or a number that only the world around it knows, such as how often a poll fits
into its timeout.  The machine is clocked all the while, and any number of cycles may pass before
the program moves again.  `wp` is what has to hold of the machine for a program to return, when it
returns, into its postcondition.
-/

namespace Clocked

variable {α β ρ ρ' σ ε τ : Type}

inductive Program (α β ρ : Type) : Type where
  | done (r : ρ)
  | access (a : α) (next : β → Program α β ρ)
  | choose (next : ℕ → Program α β ρ)

namespace Program

def bind : Program α β ρ → (ρ → Program α β ρ') → Program α β ρ'
  | .done r, f => f r
  | .access a k, f => .access a fun v => (k v).bind f
  | .choose k, f => .choose fun n => (k n).bind f

instance : Monad (Program α β) where
  pure := .done
  bind := bind

/-- One access, for its answer. -/
def perform (a : α) : Program α β β :=
  .access a .done

/-- A number that is not the program's to know. -/
def any : Program α β ℕ :=
  .choose .done

/-- Repeat an access until its answer will do, `n` times more at most. -/
def await (a : α) (ok : β → Bool) : ℕ → Program α β Bool
  | 0 => do
      let v ← perform a
      pure (ok v)
  | n + 1 => do
      let v ← perform a
      if ok v then pure true else await a ok n

/-- Every access the program may come to is one of `P`. -/
def Only (P : α → Prop) : Program α β ρ → Prop
  | .done _ => True
  | .access a k => P a ∧ ∀ v, (k v).Only P
  | .choose k => ∀ n, (k n).Only P

section Only

variable {P : α → Prop}

theorem Only.mono {P' : α → Prop} {p : Program α β ρ} (weaker : ∀ a, P a → P' a)
    (only : p.Only P) : p.Only P' := by
  induction p with
  | done r => trivial
  | access a k ih => exact ⟨weaker a only.1, fun v => ih v (only.2 v)⟩
  | choose k ih => exact fun n => ih n (only n)

theorem Only.bind {p : Program α β ρ} {f : ρ → Program α β ρ'} (first : p.Only P)
    (rest : ∀ r, (f r).Only P) : (p >>= f).Only P := by
  induction p with
  | done r => exact rest r
  | access a k ih => exact ⟨first.1, fun v => ih v (first.2 v)⟩
  | choose k ih => exact fun n => ih n (first n)

theorem Only.pure (r : ρ) : (Pure.pure r : Program α β ρ).Only P :=
  trivial

theorem Only.perform {a : α} (allowed : P a) : (Program.perform a : Program α β β).Only P :=
  ⟨allowed, fun _ => trivial⟩

theorem Only.any : (Program.any : Program α β ℕ).Only P :=
  fun _ => trivial

theorem Only.await {a : α} (allowed : P a) (ok : β → Bool) (n : ℕ) :
    (Program.await a ok n).Only P := by
  induction n with
  | zero => exact (Only.perform allowed).bind fun v => .pure _
  | succ n ih =>
      refine (Only.perform allowed).bind fun v => ?_
      split
      · exact .pure _
      · exact ih

end Only

theorem bind_assoc {ρ'' : Type} (p : Program α β ρ) (f : ρ → Program α β ρ')
    (g : ρ' → Program α β ρ'') : p >>= f >>= g = p >>= fun r => f r >>= g := by
  induction p with
  | done r => rfl
  | access a k ih => exact congrArg (Program.access a) (funext fun v => ih v)
  | choose k ih => exact congrArg Program.choose (funext fun n => ih n)

/-! ## Programs that ask often enough -/

/-- The program, with `least` added to every number it asks for. -/
def atLeast (least : ℕ) : Program α β ρ → Program α β ρ
  | .done r => .done r
  | .access a k => .access a fun v => (k v).atLeast least
  | .choose k => .choose fun n => (k (least + n)).atLeast least

section AtLeast

variable {least : ℕ}

@[simp] theorem atLeast_pure (r : ρ) :
    (pure r : Program α β ρ).atLeast least = pure r :=
  rfl

@[simp] theorem atLeast_perform (a : α) :
    (perform a : Program α β β).atLeast least = perform a :=
  rfl

theorem atLeast_bind (p : Program α β ρ) (f : ρ → Program α β ρ') :
    (p >>= f).atLeast least = p.atLeast least >>= fun r => (f r).atLeast least := by
  induction p with
  | done r => rfl
  | access a k ih => exact congrArg (Program.access a) (funext fun v => ih v)
  | choose k ih => exact congrArg Program.choose (funext fun n => ih (least + n))

@[simp] theorem atLeast_await (a : α) (ok : β → Bool) (n : ℕ) :
    (await a ok n).atLeast least = await a ok n := by
  induction n with
  | zero => rfl
  | succ n ih =>
      rw [await, atLeast_bind]
      refine congrArg (perform a >>= ·) (funext fun v => ?_)
      split
      · rfl
      · exact ih

end AtLeast

/-- What a program has returned. -/
def result? : Program α β ρ → Option ρ
  | .done r => some r
  | _ => none

theorem result?_eq_some {p : Program α β ρ} {r : ρ} : p.result? = some r ↔ p = .done r := by
  cases p <;> simp [result?]

end Program

/-- A machine with a port: in each cycle it sees the world, and an access or none. -/
structure Machine (σ ε α β : Type) where
  next : σ → ε → Option α → σ
  answer : σ → ε → α → β

/-- What one cycle brings beside the machine's own state: whether the program moves in it, the
number it gets should it ask for one, and the world. -/
structure Turn (ε : Type) where
  moves : Bool
  pick : ℕ := 0
  world : ε

namespace Machine

/-- One cycle of a program and its machine. -/
def turn (m : Machine σ ε α β) (c : Program α β ρ × σ) (i : Turn ε) : Program α β ρ × σ :=
  match c.1, i.moves with
  | .access a k, true => (k (m.answer c.2 i.world a), m.next c.2 i.world (some a))
  | .choose k, true => (k i.pick, m.next c.2 i.world none)
  | p, _ => (p, m.next c.2 i.world none)

/-- The program and the machine in each cycle. -/
def exec (m : Machine σ ε α β) (p : Program α β ρ) (s : σ) (turns : ℕ → Turn ε) :
    ℕ → Program α β ρ × σ :=
  run m.turn (p, s) turns

/-! ## What has to hold before -/

variable (m : Machine σ ε α β) (W : σ → ε → Prop)

/-- Any number of cycles without an access, in a world that keeps to `W`. -/
def Idles : σ → σ → Prop :=
  Relation.ReflTransGen fun s s' => ∃ e, W s e ∧ s' = m.next s e none

def wp : Program α β ρ → (ρ → σ → Prop) → σ → Prop
  | .done r, Q, s => Q r s
  | .access a k, Q, s => ∀ s', m.Idles W s s' → ∀ e, W s' e →
      wp (k (m.answer s' e a)) Q (m.next s' e (some a))
  | .choose k, Q, s => ∀ n s', m.Idles W s s' → wp (k n) Q s'

/-- A cycle without an access leaves `P` standing. -/
def Stable (P : σ → Prop) : Prop :=
  ∀ s e, W s e → P s → P (m.next s e none)

variable {m W} {P : σ → Prop} {s s' : σ} {p : Program α β ρ} {Q : ρ → σ → Prop}

theorem Stable.idles (stable : m.Stable W P) (idles : m.Idles W s s') (now : P s) : P s' := by
  induction idles with
  | refl => exact now
  | tail _ cycle ih =>
      obtain ⟨e, world, rfl⟩ := cycle
      exact stable _ e world ih

/-! ## The rules -/

theorem wp_pure {r : ρ} (now : Q r s) : m.wp W (pure r) Q s :=
  now

theorem wp_mono {Q' : ρ → σ → Prop} (weaker : ∀ r s, Q r s → Q' r s) (holds : m.wp W p Q s) :
    m.wp W p Q' s := by
  induction p generalizing s with
  | done r => exact weaker r s holds
  | access a k ih => exact fun s' idles e world => ih _ (holds s' idles e world)
  | choose k ih => exact fun n s' idles => ih n (holds n s' idles)

theorem wp_bind {f : ρ → Program α β ρ'} {R : ρ' → σ → Prop}
    (holds : m.wp W p (fun r => m.wp W (f r) R) s) : m.wp W (p >>= f) R s := by
  induction p generalizing s with
  | done r => exact holds
  | access a k ih => exact fun s' idles e world => ih _ (holds s' idles e world)
  | choose k ih => exact fun n s' idles => ih n (holds n s' idles)

theorem wp_perform {a : α} {Q : β → σ → Prop} (stable : m.Stable W P) (now : P s)
    (after : ∀ s e, W s e → P s → Q (m.answer s e a) (m.next s e (some a))) :
    m.wp W (.perform a) Q s :=
  fun s' idles e world => after s' e world (stable.idles idles now)

theorem wp_any {Q : ℕ → σ → Prop} (stable : m.Stable W P) (now : P s)
    (after : ∀ n s, P s → Q n s) : m.wp W .any Q s :=
  fun n s' idles => after n s' (stable.idles idles now)

/-- The rule of a polling loop: a poll that will not do takes `P` to `P'`, which is no less. -/
theorem wp_await {a : α} {ok : β → Bool} {P' : σ → Prop} {Q : Bool → σ → Prop}
    (stable : m.Stable W P) (now : P s)
    (poll : ∀ s e, W s e → P s →
      if ok (m.answer s e a) then Q true (m.next s e (some a)) else P' (m.next s e (some a)))
    (again : ∀ s, P' s → P s) (late : ∀ s, P' s → Q false s) (n : ℕ) :
    m.wp W (.await a ok n) Q s := by
  induction n generalizing s with
  | zero =>
      refine wp_bind (wp_perform stable now fun s e world here => wp_pure ?_)
      have polled := poll s e world here
      cases will : ok (m.answer s e a) with
      | true => simpa [will] using polled
      | false => exact late _ (by simpa [will] using polled)
  | succ n ih =>
      refine wp_bind (wp_perform stable now fun s e world here => ?_)
      have polled := poll s e world here
      cases will : ok (m.answer s e a) with
      | true => exact wp_pure (by simpa [will] using polled)
      | false => exact ih (again _ (by simpa [will] using polled))

/-- The rule of a polling loop that is long enough: within `k` polls from `P k` on one will do. -/
theorem wp_within {a : α} {ok : β → Bool} {P : ℕ → σ → Prop} {Q : Bool → σ → Prop} {k n : ℕ}
    (stable : ∀ k, m.Stable W (P k)) (now : P k s)
    (poll : ∀ k s e, W s e → P k s →
      if ok (m.answer s e a) then Q true (m.next s e (some a))
      else ∃ j < k, P j (m.next s e (some a)))
    (enough : k ≤ n) : m.wp W (.await a ok n) Q s := by
  induction n generalizing k s with
  | zero =>
      refine wp_bind (wp_perform (stable k) now fun s e world here => wp_pure ?_)
      have polled := poll k s e world here
      cases will : ok (m.answer s e a) with
      | true => simpa [will] using polled
      | false =>
          obtain ⟨j, fewer, -⟩ : ∃ j < k, P j (m.next s e (some a)) := by simpa [will] using polled
          omega
  | succ n ih =>
      refine wp_bind (wp_perform (stable k) now fun s e world here => ?_)
      have polled := poll k s e world here
      cases will : ok (m.answer s e a) with
      | true => exact wp_pure (by simpa [will] using polled)
      | false =>
          obtain ⟨j, fewer, there⟩ : ∃ j < k, P j (m.next s e (some a)) := by simpa [will] using polled
          exact ih there (by omega)

/-! ## What a program that was promised it does -/

/-- A program that has not moved may still move later. -/
theorem wp_idle (stable : ∀ r, m.Stable W (Q r)) {e : ε} (world : W s e) (holds : m.wp W p Q s) :
    m.wp W p Q (m.next s e none) := by
  have cycle : m.Idles W s (m.next s e none) := .single ⟨e, world, rfl⟩
  cases p with
  | done r => exact stable r s e world holds
  | access a k => exact fun s' idles => holds s' (cycle.trans idles)
  | choose k => exact fun n s' idles => holds n s' (cycle.trans idles)

section Exec

variable {turns : ℕ → Turn ε}

theorem exec_succ (t : ℕ) : m.exec p s turns (t + 1) = m.turn (m.exec p s turns t) (turns t) :=
  rfl

/-- Whatever the program does, the machine is clocked. -/
theorem exec_step (t : ℕ) : ∃ a, (m.exec p s turns (t + 1)).2 =
    m.next (m.exec p s turns t).2 (turns t).world a := by
  rw [exec_succ, turn]
  generalize m.exec p s turns t = c
  obtain ⟨p, s⟩ := c
  cases p with
  | done r => exact ⟨none, rfl⟩
  | access a k =>
      cases (turns t).moves with
      | true => exact ⟨some a, rfl⟩
      | false => exact ⟨none, rfl⟩
  | choose k => cases (turns t).moves <;> exact ⟨none, rfl⟩

/-- What has been returned stays. -/
theorem exec_stays {t u : ℕ} {r : ρ} (returned : (m.exec p s turns t).1.result? = some r)
    (late : t ≤ u) : (m.exec p s turns u).1.result? = some r := by
  induction u, late using Nat.le_induction with
  | base => exact returned
  | succ u late ih =>
      rw [Program.result?_eq_some] at ih ⊢
      rw [exec_succ, turn, ih]

/-- What happens up to a cycle is settled before it. -/
theorem exec_congr {turns' : ℕ → Turn ε} {t u : ℕ} (same : ∀ v < t, turns' v = turns v)
    (early : u ≤ t) : m.exec p s turns' u = m.exec p s turns u := by
  induction u with
  | zero => rfl
  | succ u ih => rw [exec_succ, exec_succ, ih (by omega), same u (by omega)]

/-- In every cycle the program at hand has its precondition. -/
theorem exec_wp (stable : ∀ r, m.Stable W (Q r)) (holds : m.wp W p Q s) {t : ℕ}
    (world : ∀ u < t, W (m.exec p s turns u).2 (turns u).world) :
    m.wp W (m.exec p s turns t).1 Q (m.exec p s turns t).2 := by
  induction t with
  | zero => exact holds
  | succ t ih =>
      have here := world t (Nat.lt_succ_self t)
      have ih := ih fun u before => world u (by omega)
      rw [exec_succ, turn]
      generalize m.exec p s turns t = c at ih here
      obtain ⟨p, s⟩ := c
      cases p with
      | done r => exact stable r s _ here ih
      | access a k =>
          cases (turns t).moves with
          | true => exact ih s .refl _ here
          | false => exact wp_idle stable here ih
      | choose k =>
          cases (turns t).moves with
          | true => exact ih _ _ (.single ⟨_, here, rfl⟩)
          | false => exact wp_idle stable here ih

/-- A program that has returned has returned into its postcondition. -/
theorem exec_done (stable : ∀ r, m.Stable W (Q r)) (holds : m.wp W p Q s) {t : ℕ} {r : ρ}
    (world : ∀ u < t, W (m.exec p s turns u).2 (turns u).world)
    (returned : (m.exec p s turns t).1.result? = some r) : Q r (m.exec p s turns t).2 := by
  have there := exec_wp stable holds world
  rw [Program.result?_eq_some.mp returned] at there
  exact there

/-- A program that moves again and again returns. -/
theorem exec_returns (moves : ∀ t, ∃ u, t ≤ u ∧ (turns u).moves = true) :
    ∃ t r, (m.exec p s turns t).1.result? = some r := by
  suffices later : ∀ q : Program α β ρ, ∀ t, (m.exec p s turns t).1 = q →
      ∃ u r, (m.exec p s turns u).1.result? = some r from later p 0 rfl
  intro q
  induction q with
  | done r => exact fun t now => ⟨t, r, Program.result?_eq_some.mpr now⟩
  | access a k ih =>
      intro t now
      obtain ⟨u, -, moved, still⟩ := lasts_until (Q := fun u => (m.exec p s turns u).1 = .access a k)
        now (fun u _ here idle => by
          rw [exec_succ, turn, here]
          simp only [Bool.not_eq_true] at idle
          rw [idle]) (moves t)
      refine ih (m.answer (m.exec p s turns u).2 (turns u).world a) (u + 1) ?_
      rw [exec_succ, turn, still, moved]
  | choose k ih =>
      intro t now
      obtain ⟨u, -, moved, still⟩ := lasts_until (Q := fun u => (m.exec p s turns u).1 = .choose k)
        now (fun u _ here idle => by
          rw [exec_succ, turn, here]
          simp only [Bool.not_eq_true] at idle
          rw [idle]) (moves t)
      refine ih (turns u).pick (u + 1) ?_
      rw [exec_succ, turn, still, moved]

/-- What every cycle keeps in which no access is made but an allowed one. -/
theorem exec_keeps {I : σ → Prop} {A : α → Prop} (only : p.Only A)
    (idle : ∀ s e, I s → I (m.next s e none))
    (moves : ∀ s e a, A a → I s → I (m.next s e (some a))) (start : I s) (t : ℕ) :
    (m.exec p s turns t).1.Only A ∧ I (m.exec p s turns t).2 := by
  induction t with
  | zero => exact ⟨only, start⟩
  | succ t ih =>
      rw [exec_succ, turn]
      generalize m.exec p s turns t = c at ih
      obtain ⟨p, s⟩ := c
      obtain ⟨only, here⟩ := ih
      cases p with
      | done r => exact ⟨trivial, idle _ _ here⟩
      | access a k =>
          cases (turns t).moves with
          | true => exact ⟨only.2 _, moves _ _ _ only.1 here⟩
          | false => exact ⟨only, idle _ _ here⟩
      | choose k =>
          cases (turns t).moves with
          | true => exact ⟨only _, idle _ _ here⟩
          | false => exact ⟨only, idle _ _ here⟩

/-! ## One program after another -/

variable {f : ρ → Program α β ρ'}

/-- Until the first has returned, and as long as nothing moves after that, the second waits. -/
theorem exec_bind_eq {t : ℕ}
    (held : ∀ u < t, (m.exec p s turns u).1.result? = none ∨ (turns u).moves = false) :
    m.exec (p >>= f) s turns t = ((m.exec p s turns t).1.bind f, (m.exec p s turns t).2) := by
  induction t with
  | zero => rfl
  | succ t ih =>
      have here := held t (Nat.lt_succ_self t)
      rw [exec_succ, ih fun u before => held u (by omega), exec_succ]
      generalize m.exec p s turns t = c at here ⊢
      obtain ⟨p, s⟩ := c
      cases p with
      | done r =>
          have still : (turns t).moves = false := by simpa [Program.result?] using here
          cases next : f r <;> simp [turn, still, Program.bind, next]
      | access a k => cases moved : (turns t).moves <;> simp [turn, moved, Program.bind]
      | choose k => cases moved : (turns t).moves <;> simp [turn, moved, Program.bind]

/-- From where the first has returned the second goes on by itself. -/
theorem exec_then {b : ℕ} {r : ρ} (returned : (m.exec p s turns b).1.result? = some r)
    (held : ∀ u < b, (m.exec p s turns u).1.result? = none ∨ (turns u).moves = false) (u : ℕ) :
    m.exec (p >>= f) s turns (b + u) =
      m.exec (f r) (m.exec p s turns b).2 (fun v => turns (b + v)) u := by
  have begun : m.exec (p >>= f) s turns b = (f r, (m.exec p s turns b).2) := by
    rw [exec_bind_eq held, Program.result?_eq_some.mp returned]
    rfl
  calc m.exec (p >>= f) s turns (b + u)
      = run m.turn (m.exec (p >>= f) s turns b) (fun v => turns (b + v)) u := run_add ..
    _ = m.exec (f r) (m.exec p s turns b).2 (fun v => turns (b + v)) u := by rw [begun]; rfl

/-- Once both have returned, there was a cycle in which the first had and the second began. -/
theorem exec_bind {t : ℕ} {r' : ρ'} (returned : (m.exec (p >>= f) s turns t).1.result? = some r') :
    ∃ b r, b ≤ t ∧ (m.exec p s turns b).1.result? = some r ∧
      (∀ u ≤ b, (m.exec (p >>= f) s turns u).2 = (m.exec p s turns u).2) ∧
      ∀ u, m.exec (p >>= f) s turns (b + u) =
        m.exec (f r) (m.exec p s turns b).2 (fun v => turns (b + v)) u := by
  classical
  have ends : ∃ b, b ≤ t ∧ (m.exec p s turns b).1.result? ≠ none := by
    by_contra never
    rw [not_exists] at never
    have running (u : ℕ) (before : u ≤ t) : (m.exec p s turns u).1.result? = none := by
      by_contra ended
      exact never u ⟨before, ended⟩
    have last := running t (Nat.le_refl t)
    rw [exec_bind_eq fun u before => .inl (running u (by omega))] at returned
    generalize (m.exec p s turns t).1 = q at last returned
    cases q with
    | done r => cases last
    | access a k => cases returned
    | choose k => cases returned
  obtain ⟨b, -, ⟨within, ended⟩, first⟩ := exists_first (t := 0)
    (ends.imp fun b here => ⟨Nat.zero_le b, here⟩)
  have running (u : ℕ) (before : u < b) : (m.exec p s turns u).1.result? = none := by
    by_contra early
    exact first u (Nat.zero_le u) before ⟨by omega, early⟩
  obtain ⟨r, returns⟩ := Option.ne_none_iff_exists'.mp ended
  refine ⟨b, r, within, returns, fun u before => ?_,
    exec_then returns fun u before => .inl (running u before)⟩
  rw [exec_bind_eq fun v early => .inl (running v (by omega))]

end Exec

/-- A program that is given large numbers is one that adds to small ones. -/
theorem exec_atLeast {least : ℕ} {turns turns' : ℕ → Turn ε} {t : ℕ}
    (more : ∀ u, turns u = { turns' u with pick := least + (turns' u).pick }) :
    m.exec (p.atLeast least) s turns' t =
      ((m.exec p s turns t).1.atLeast least, (m.exec p s turns t).2) := by
  induction t with
  | zero => rfl
  | succ t ih =>
      rw [exec_succ, ih, exec_succ, more t]
      generalize m.exec p s turns t = c
      obtain ⟨p, s⟩ := c
      cases p with
      | done r => rfl
      | access a k => cases moved : (turns' t).moves <;> simp [turn, moved, Program.atLeast]
      | choose k => cases moved : (turns' t).moves <;> simp [turn, moved, Program.atLeast]

/-- A program that moves again and again, and is given large numbers, returns into what it was
promised for them. -/
theorem exec_ends {least : ℕ} {turns : ℕ → Turn ε} (stable : ∀ r, m.Stable W (Q r))
    (holds : m.wp W (p.atLeast least) Q s) (large : ∀ t, least ≤ (turns t).pick)
    (moves : ∀ t, ∃ u, t ≤ u ∧ (turns u).moves = true)
    (world : ∀ t, W (m.exec p s turns t).2 (turns t).world) :
    ∃ t r, (m.exec p s turns t).1.result? = some r ∧ Q r (m.exec p s turns t).2 := by
  obtain ⟨t, r, returned⟩ := exec_returns (m := m) (p := p) (s := s) moves
  have same (u : ℕ) : m.exec (p.atLeast least) s
      (fun u => { turns u with pick := (turns u).pick - least }) u =
        ((m.exec p s turns u).1.atLeast least, (m.exec p s turns u).2) := by
    refine exec_atLeast fun v => ?_
    rw [Nat.add_sub_cancel' (large v)]
  have ends := exec_done stable holds (t := t) (r := r) (fun u _ => by rw [same u]; exact world u) (by
    rw [same t, Program.result?_eq_some.mp returned]
    rfl)
  rw [same t] at ends
  exact ⟨t, r, returned, ends⟩

/-! ## A world that is a machine of its own -/

section World

variable {δ : Type} (m : Machine σ ε α β) (tick : σ → δ → δ) (shows_ : δ → ε)

/-- The machine with a world that looks at it in every cycle, and then shows itself. -/
def withWorld : Machine (σ × δ) Unit α β where
  next c _ a := (m.next c.1 (shows_ (tick c.1 c.2)) a, tick c.1 c.2)
  answer c _ a := m.answer c.1 (shows_ (tick c.1 c.2)) a

/-- What such a world brings to each cycle. -/
def fed (p : Program α β ρ) (c : σ × δ) (pace : ℕ → Turn Unit) (t : ℕ) : Turn ε where
  moves := (pace t).moves
  pick := (pace t).pick
  world :=
    let now := ((m.withWorld tick shows_).exec p c pace t).2
    shows_ (tick now.1 now.2)

variable {m tick shows_}

theorem exec_withWorld {c : σ × δ} {pace : ℕ → Turn Unit} (t : ℕ) :
    m.exec p c.1 (m.fed tick shows_ p c pace) t =
      (((m.withWorld tick shows_).exec p c pace t).1, ((m.withWorld tick shows_).exec p c pace t).2.1) := by
  induction t with
  | zero => rfl
  | succ t ih =>
      rw [exec_succ, ih, exec_succ, fed]
      generalize (m.withWorld tick shows_).exec p c pace t = now
      obtain ⟨p, c⟩ := now
      cases p with
      | done r => rfl
      | access a k => cases moved : (pace t).moves <;> simp [turn, moved, withWorld]
      | choose k => cases moved : (pace t).moves <;> simp [turn, moved, withWorld]

end World

/-! ## A history of what the cycles show -/

/-- The machine with a record of what each cycle shows. -/
def logged (m : Machine σ ε α β) (shows_ : σ → ε → List τ) : Machine (List τ × σ) ε α β where
  next c e a := (c.1 ++ shows_ c.2 e, m.next c.2 e a)
  answer c e a := m.answer c.2 e a

theorem exec_logged (shows_ : σ → ε → List τ) (past : List τ) (turns : ℕ → Turn ε) (t : ℕ) :
    (m.logged shows_).exec p (past, s) turns t =
      ((m.exec p s turns t).1, past ++
        trace (fun u => shows_ (m.exec p s turns u).2 (turns u).world) 0 t,
        (m.exec p s turns t).2) := by
  induction t with
  | zero => simp [exec]
  | succ t ih =>
      rw [exec_succ, ih, exec_succ, trace_succ _ (Nat.zero_le t), turn, turn]
      generalize m.exec p s turns t = c
      obtain ⟨p, s⟩ := c
      cases p with
      | done r => simp [logged]
      | access a k => cases (turns t).moves <;> simp [logged]
      | choose k => cases (turns t).moves <;> simp [logged]

end Machine

end Clocked
