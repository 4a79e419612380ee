import Wish5380.Wb.Decode

/-!
# The bridge keeps its contract

A run of the bridge under a patient master, cycle after cycle: each begins with the
bridge idle, makes the accesses it has to and no others, and is answered once.
-/

namespace Wish5380.Wb

/-! ## Masters -/

/-- A Wishbone cycle begins: the request comes up. -/
def Begins (input : ℕ → Input) (a : ℕ) : Prop :=
  (input a).req.active = true ∧ (a = 0 ∨ (input (a - 1)).req.active = false)

/-- The bridge answers in clock `t`. -/
def Answers (x : ℕ → State) (t : ℕ) : Prop :=
  (x t).wbAck = true ∨ (x t).wbErr = true

/-- The master holds a request until it is answered, and then drops it sometime. -/
def Patient (x : ℕ → State) (input : ℕ → Input) : Prop :=
  ∀ a, Begins input a → ∀ t, a ≤ t → (∀ u, a < u → u ≤ t → ¬ Answers x u) →
    (input t).req = (input a).req

/-! ## What a clock shows -/

inductive Event where
  | strobe (a : Chip.Port)
  | ack
  | err
  deriving DecidableEq, Repr

/-- The events of clock `t`, with their clock. -/
def emit (p : Params) (x : ℕ → State) (input : ℕ → Input) (t : ℕ) : List (ℕ × Event) :=
  (if ((x t).port p (input t).req).stb then [(t, .strobe ((x t).port p (input t).req))] else []) ++
    (if (x t).wbAck then [(t, .ack)] else []) ++ (if (x t).wbErr then [(t, .err)] else [])

/-- The events of a whole cycle: its accesses, and one answer. -/
def Outcome.events (o : Outcome) : List (ℕ × Event) :=
  o.strobes.map (fun s => (s.1, .strobe s.2)) ++ [(o.time, if o.ok then .ack else .err)]

section Run

variable {p : Params} {input : ℕ → Input}

/-! ## Every clock -/

/-- An answer stands only at the end of a cycle. -/
theorem quiet_of_st (t : ℕ) (st : (run p input t).st ≠ .fin) :
    (run p input t).wbAck = false ∧ (run p input t).wbErr = false := by
  cases t with
  | zero => exact ⟨rfl, rfl⟩
  | succ t =>
      rw [run_succ] at st ⊢
      unfold State.next at st ⊢
      cases is : (run p input t).st with
      | idle =>
          simp only [State.stepIdle]
          split_ifs <;> exact ⟨rfl, rfl⟩
      | reg => exact ⟨rfl, rfl⟩
      | wait =>
          simp only [State.stepWait]
          split_ifs <;> exact ⟨rfl, rfl⟩
      | xfer =>
          simp only [State.stepXfer]
          split_ifs <;> exact ⟨rfl, rfl⟩
      | ack => simp [is] at st
      | err => simp [is] at st
      | fin =>
          dsimp only
          split_ifs <;> exact ⟨rfl, rfl⟩

theorem not_answers_of_st {t : ℕ} (st : (run p input t).st ≠ .fin) :
    ¬ Answers (run p input) t := by
  obtain ⟨ack, err⟩ := quiet_of_st t st
  simp [Answers, ack, err]

theorem emit_quiet {t : ℕ} (ack : (run p input t).wbAck = false)
    (err : (run p input t).wbErr = false) (reg : (run p input t).st ≠ .reg)
    (xfer : (run p input t).st ≠ .xfer) : emit p (run p input) input t = [] := by
  simp [emit, State.port, ack, err, reg, xfer]

/-! ## Cycle after cycle -/

/-- Where a run stands: idle since the request went down, or in a cycle whose request is
still up. -/
def Placed (p : Params) (input : ℕ → Input) (t : ℕ) : Prop :=
  ((run p input t).st = .idle ∧ (t = 0 ∨ (input (t - 1)).req.active = false)) ∨
    ((run p input t).st ≠ .idle ∧ 0 < t ∧ (input (t - 1)).req.active = true ∧
      ((run p input t).st = .fin ∨
        ∃ a, Begins input a ∧ a < t ∧ ∀ u, a < u → u ≤ t → ¬ Answers (run p input) u))

/-- An idle bridge stays idle or begins. -/
theorem next_idle {s : State} (i : Input) (is : s.st = .idle) :
    ((s.next p i).st = .idle ↔ i.req.active = false) ∧ (s.next p i).st ≠ .fin := by
  simp only [State.next, is, State.stepIdle]
  split_ifs with up <;> simp_all

/-- In the middle of a cycle it goes on. -/
theorem next_middle {s : State} (i : Input) (is : s.st = .reg ∨ s.st = .wait ∨ s.st = .xfer) :
    (s.next p i).st ≠ .idle ∧ (s.next p i).st ≠ .fin := by
  rcases is with is | is | is
  · simp [State.next, is]
  · simp only [State.next, is, State.stepWait]
    split_ifs <;> simp
  · simp only [State.next, is, State.stepXfer]
    split_ifs <;> simp

variable (patient : Patient (run p input) input)
include patient

theorem placed (t : ℕ) : Placed p input t := by
  induction t with
  | zero => exact .inl ⟨rfl, .inl rfl⟩
  | succ t ih =>
      rcases ih with ⟨idle, since⟩ | ⟨begun, positive, before, rest⟩
      · obtain ⟨stays, within⟩ := next_idle (p := p) (input t) idle
        cases up : (input t).req.active with
        | false => exact .inl ⟨stays.mpr up, .inr up⟩
        | true =>
            have leaves : (run p input (t + 1)).st ≠ .idle := fun is => by
              rw [stays.mp is] at up
              cases up
            refine .inr ⟨leaves, Nat.succ_pos t, up, .inr ⟨t, ⟨up, since⟩, Nat.lt_succ_self t, ?_⟩⟩
            intro u above below
            obtain rfl : u = t + 1 := by omega
            exact not_answers_of_st within
      · by_cases fin : (run p input t).st = .fin
        · have next : (run p input (t + 1)).st =
              if (input t).req.active then .fin else .idle := by
            rw [run_succ]
            cases up : (input t).req.active <;> simp [State.next, fin, up]
          cases up : (input t).req.active with
          | false =>
              rw [up] at next
              exact .inl ⟨next, .inr up⟩
          | true =>
              rw [up] at next
              exact .inr ⟨by simp [next], Nat.succ_pos t, up, .inl next⟩
        · obtain ⟨a, begins, earlier, silent⟩ := rest.resolve_left fin
          have held : (input t).req.active = true := by
            rw [patient a begins t (Nat.le_of_lt earlier) silent]
            exact begins.1
          cases is : (run p input t).st with
          | idle => exact absurd is begun
          | fin => exact absurd is fin
          | ack =>
              have next : (run p input (t + 1)).st = .fin := by simp [run_succ, State.next, is]
              exact .inr ⟨by simp [next], Nat.succ_pos t, held, .inl next⟩
          | err =>
              have next : (run p input (t + 1)).st = .fin := by simp [run_succ, State.next, is]
              exact .inr ⟨by simp [next], Nat.succ_pos t, held, .inl next⟩
          | _ =>
              have middle : (run p input t).st = .reg ∨ (run p input t).st = .wait ∨
                  (run p input t).st = .xfer := by simp [is]
              obtain ⟨here, within⟩ := next_middle (p := p) (input t) middle
              refine .inr ⟨here, Nat.succ_pos t, held, .inr ⟨a, begins, by omega, ?_⟩⟩
              intro u above below
              rcases Nat.lt_succ_iff_lt_or_eq.mp (Nat.lt_succ_of_le below) with old | rfl
              · exact silent u above (by omega)
              · exact not_answers_of_st within

/-- A cycle begins with the bridge idle. -/
theorem idle_of_begins {a : ℕ} (begins : Begins input a) : (run p input a).st = .idle := by
  rcases placed patient a with ⟨idle, _⟩ | ⟨_, positive, up, _⟩
  · exact idle
  · rcases begins.2 with rfl | down
    · omega
    · rw [down] at up
      cases up

end Run

/-! ## One cycle -/

/-- The lanes the bridge goes on to are the lanes in order. -/
theorem lanes_left : ∀ (sel : BitVec 4) (lane : BitVec 2),
    lanes (left sel lane) =
      if left sel lane = 0 then []
      else lowestLane (left sel lane) :: lanes (left sel (lowestLane (left sel lane))) := by
  decide

theorem lanes_first : ∀ sel : BitVec 4, sel ≠ 0 →
    lanes sel = lowestLane sel :: lanes (left sel (lowestLane sel)) := by
  decide

section Cycle

variable {p : Params} {input : ℕ → Input} {a : ℕ}

/-- No answer from clock `a` up to clock `t`. -/
def Pending (p : Params) (input : ℕ → Input) (a t : ℕ) : Prop :=
  ∀ u, a < u → u ≤ t → ¬ Answers (run p input) u

theorem Pending.succ {t : ℕ} (pending : Pending p input a t)
    (st : (run p input (t + 1)).st ≠ .fin) : Pending p input a (t + 1) := by
  intro u above below
  rcases Nat.lt_succ_iff_lt_or_eq.mp (Nat.lt_succ_of_le below) with old | rfl
  · exact pending u above (by omega)
  · exact not_answers_of_st st

/-- From clock `t` the cycle ends as `o` says. -/
structure Ends (p : Params) (input : ℕ → Input) (t : ℕ) (o : Outcome) : Prop where
  later : t < o.time
  st : (run p input o.time).st = .fin
  trace_eq : Clocked.trace (emit p (run p input) input) t (o.time + 1) = o.events

theorem ends_answer (ok : Bool) {t : ℕ} (st : (run p input t).st = if ok then .ack else .err) :
    Ends p input t ⟨[], t + 1, ok⟩ := by
  have next : run p input (t + 1) =
      { run p input t with wbAck := ok, wbErr := !ok, st := .fin } := by
    cases ok <;> simp [run_succ, State.next, st]
  have still : (run p input t).st ≠ .fin ∧ (run p input t).st ≠ .reg ∧
      (run p input t).st ≠ .xfer := by
    cases ok <;> simp [st]
  obtain ⟨ack, err⟩ := quiet_of_st t still.1
  constructor
  · exact Nat.lt_succ_self t
  · simp [next]
  · show Clocked.trace (emit p (run p input) input) t (t + 1 + 1) = _
    rw [Clocked.trace_head _ (by omega), emit_quiet ack err still.2.1 still.2.2,
      Clocked.trace_head _ (by omega), Clocked.trace_self]
    cases ok <;> simp [emit, State.port, next, Outcome.events]

/-- Clocks that show nothing may go before. -/
theorem Ends.after {t u : ℕ} {o : Outcome} (ends : Ends p input u o) (le : t ≤ u)
    (quiet : ∀ v, t ≤ v → v < u → emit p (run p input) input v = []) : Ends p input t o := by
  refine ⟨Nat.lt_of_le_of_lt le ends.later, ends.st, ?_⟩
  have later := ends.later
  rw [Clocked.trace_append _ le (by omega), Clocked.trace_eq_nil quiet, ends.trace_eq]
  rfl

/-- And so may an access. -/
theorem Ends.strobe {t : ℕ} {o : Outcome} {q : Chip.Port} (ends : Ends p input (t + 1) o)
    (shows : emit p (run p input) input t = [(t, .strobe q)]) :
    Ends p input t { o with strobes := (t, q) :: o.strobes } := by
  have later := ends.later
  refine ⟨by simp only; omega, ends.st, ?_⟩
  rw [Clocked.trace_head _ (by simp only; omega), shows, ends.trace_eq]
  simp [Outcome.events]

/-- A lane that waits keeps counting. -/
theorem wait_holds {t k : ℕ} (st : (run p input t).st = .wait) (hsk : (run p input t).hsk = true)
    (tcnt : (run p input t).tcnt = 0) (few : k ≤ p.tDrq)
    (down : ∀ j < k, (input (t + j)).drq = false) :
    run p input (t + k) = { run p input t with tcnt := k } := by
  have still : (run p input t).st ≠ .fin := by simp [st]
  obtain ⟨ack, err⟩ := quiet_of_st t still
  induction k with
  | zero =>
      rw [Nat.add_zero, ← tcnt]
  | succ k ih =>
      have bound : p.tDrq < 2 ^ p.tcntW := by
        have exact_ := mod_two_pow_clog2 p.tDrq
        rw [← exact_]
        exact Nat.mod_lt _ (Nat.two_pow_pos _)
      have last : p.nDrq = p.tDrq := mod_two_pow_clog2 p.tDrq
      have here := ih (by omega) (fun j below => down j (by omega))
      have more : k ≠ p.tDrq := by omega
      have room : (k + 1) % 2 ^ p.tcntW = k + 1 := Nat.mod_eq_of_lt (by omega)
      rw [← Nat.add_assoc, run_succ, here]
      simp [State.next, State.stepWait, st, hsk, down k (Nat.lt_succ_self k), last, more, room,
        ack, err]

/-- A wait of `k` clocks shows nothing and answers nothing. -/
theorem wait_quiet {t k : ℕ} (st : (run p input t).st = .wait)
    (holds : ∀ j ≤ k, run p input (t + j) = { run p input t with tcnt := j } ∨ j = 0) :
    (∀ v, t ≤ v → v < t + k + 1 → emit p (run p input) input v = []) ∧
      (Pending p input a t → Pending p input a (t + k)) := by
  have waits : ∀ j ≤ k, (run p input (t + j)).st = .wait := by
    intro j few
    rcases holds j few with is | rfl
    · rw [is]
      exact st
    · exact st
  constructor
  · intro v low high
    obtain ⟨j, rfl⟩ : ∃ j, v = t + j := ⟨v - t, by omega⟩
    have here := waits j (by omega)
    have still : (run p input (t + j)).st ≠ .fin := by simp [here]
    obtain ⟨ack, err⟩ := quiet_of_st (t + j) still
    exact emit_quiet ack err (by simp [here]) (by simp [here])
  · intro pending u above below
    rcases Nat.lt_or_ge t u with late | early
    · obtain ⟨j, rfl⟩ : ∃ j, u = t + j := ⟨u - t, by omega⟩
      exact not_answers_of_st (by simp [waits j (by omega)])
    · exact pending u above early

variable (patient : Patient (run p input) input) (begins : Begins input a)
include patient begins

/-- A lane that is served makes its access, and the next one follows. -/
theorem xfer_strobes {t : ℕ} (st : (run p input t).st = .xfer) (after : a ≤ t)
    (pending : Pending p input a t) :
    emit p (run p input) input t =
        [(t, .strobe (dackAccess (input a).req (run p input t).lane))] ∧
      run p input (t + 1) = (run p input t).stepXfer (input a).req (input t).dat := by
  have held := patient a begins t after pending
  have still : (run p input t).st ≠ .fin := by simp [st]
  obtain ⟨ack, err⟩ := quiet_of_st t still
  constructor
  · simp [emit, State.port, dackAccess, st, ack, err, held]
  · rw [run_succ, State.next, ← held]
    simp [st, State.stepXfer, ack, err]

/-- Where the lanes `ls` are still to serve. -/
def Serving (p : Params) (input : ℕ → Input) (a t : ℕ) (waits : Bool) :
    List (BitVec 2) → Prop
  | [] => (run p input t).st = .ack
  | lane :: rest => (run p input t).st = .wait ∧ (run p input t).lane = lane ∧
      (run p input t).hsk = waits ∧ (run p input t).tcnt = 0 ∧
      rest = lanes (left (input a).req.sel lane)

omit patient begins in
theorem drqAfter_some {drq : ℕ → Bool} {t n k : ℕ} (found : drqAfter drq t n = some k) :
    drq (t + k) = true ∧ k ≤ n ∧ ∀ j < k, drq (t + j) = false := by
  rw [drqAfter, List.find?_range_eq_some] at found
  obtain ⟨up, inside, down⟩ := found
  refine ⟨up, by simpa [Nat.lt_succ_iff] using inside, fun j below => ?_⟩
  simpa using down j below

omit patient begins in
theorem drqAfter_none {drq : ℕ → Bool} {t n : ℕ} (found : drqAfter drq t n = none) {j : ℕ}
    (below : j ≤ n) : drq (t + j) = false := by
  rw [drqAfter, List.find?_eq_none] at found
  simpa using found j (by simpa [Nat.lt_succ_iff] using below)

/-- One lane after a wait of `k` clocks, and then the rest. -/
theorem lane_ends {waits : Bool} {lane : BitVec 2} {rest : List (BitVec 2)} {t k : ℕ}
    (after : a ≤ t) (serving : Serving p input a t waits (lane :: rest))
    (pending : Pending p input a t)
    (holds : ∀ j ≤ k, run p input (t + j) = { run p input t with tcnt := j } ∨ j = 0)
    (granted : waits = false ∨ (input (t + k)).drq = true)
    (later : ∀ u, a ≤ u → Serving p input a u waits rest → Pending p input a u →
      Ends p input u (serve p (input a).req waits (fun t => (input t).drq) rest u)) :
    Ends p input t
      { serve p (input a).req waits (fun t => (input t).drq) rest (t + k + 2) with
        strobes := (t + k + 1, dackAccess (input a).req lane) ::
          (serve p (input a).req waits (fun t => (input t).drq) rest (t + k + 2)).strobes } := by
  obtain ⟨st, isLane, hsk, tcnt, order⟩ := serving
  obtain ⟨quiet, stillPending⟩ := wait_quiet (a := a) st holds
  have here : (run p input (t + k)).st = .wait ∧ (run p input (t + k)).lane = lane ∧
      (run p input (t + k)).hsk = waits := by
    rcases holds k (Nat.le_refl k) with is | rfl
    · rw [is]
      exact ⟨st, isLane, hsk⟩
    · exact ⟨st, isLane, hsk⟩
  have next : (run p input (t + k + 1)).st = .xfer ∧ (run p input (t + k + 1)).lane = lane ∧
      (run p input (t + k + 1)).hsk = waits := by
    have go : (!waits || (input (t + k)).drq) = true := by
      rcases granted with is | is <;> simp [is]
    rw [run_succ, State.next, here.1]
    simp [State.stepWait, here.2.2, go, here.2.1]
  have pendingNow : Pending p input a (t + k + 1) :=
    (stillPending pending).succ (by simp [next.1])
  obtain ⟨shows, moved⟩ := xfer_strobes patient begins next.1 (by omega) pendingNow
  rw [next.2.1] at shows
  have stage : Serving p input a (t + k + 2) waits rest := by
    have split := lanes_left (input a).req.sel lane
    rw [← order] at split
    rw [show t + k + 2 = t + k + 1 + 1 from rfl]
    by_cases none : left (input a).req.sel lane = 0
    · rw [if_pos none] at split
      subst split
      simp only [Serving, moved, State.stepXfer, next.2.1, none, ne_eq, not_true_eq_false, if_false]
    · rw [if_neg none] at split
      subst split
      simp only [Serving, moved, State.stepXfer, next.2.1, next.2.2, none, ne_eq,
        not_false_eq_true, if_true, and_self]
  have notFin : (run p input (t + k + 2)).st ≠ .fin := by
    cases rest with
    | nil => simp [show (run p input (t + k + 2)).st = .ack from stage]
    | cons _ _ => simp [stage.1]
  have ends := (later (t + k + 2) (by omega) stage (pendingNow.succ notFin)).strobe shows
  exact ends.after (by omega) quiet

/-- The lanes are served one after the other. -/
theorem serve_ends {waits : Bool} {ls : List (BitVec 2)} {t : ℕ} (after : a ≤ t)
    (serving : Serving p input a t waits ls) (pending : Pending p input a t) :
    Ends p input t (serve p (input a).req waits (fun t => (input t).drq) ls t) := by
  induction ls generalizing t with
  | nil => exact ends_answer true serving
  | cons lane rest ih =>
      obtain ⟨st, isLane, hsk, tcnt, order⟩ := serving
      cases waits with
      | false =>
          exact lane_ends patient begins (k := 0) after ⟨st, isLane, hsk, tcnt, order⟩ pending
            (fun j few => .inr (by omega)) (.inl rfl)
            (fun u low serving pending => ih low serving pending)
      | true =>
          cases found : drqAfter (fun t => (input t).drq) t p.tDrq with
          | some k =>
              obtain ⟨up, few, down⟩ := drqAfter_some found
              have holds : ∀ j ≤ k, run p input (t + j) = { run p input t with tcnt := j } ∨
                  j = 0 := fun j below => .inl
                (wait_holds st hsk tcnt (by omega) (fun i earlier => down i (by omega)))
              have ends := lane_ends patient begins after ⟨st, isLane, hsk, tcnt, order⟩ pending
                holds (.inr up) (fun u low serving pending => ih low serving pending)
              simpa [serve, found] using ends
          | none =>
              have down : ∀ j ≤ p.tDrq, (input (t + j)).drq = false := fun j below =>
                drqAfter_none found below
              have holds : ∀ j ≤ p.tDrq,
                  run p input (t + j) = { run p input t with tcnt := j } ∨ j = 0 :=
                fun j below => .inl
                  (wait_holds st hsk tcnt below (fun i earlier => down i (by omega)))
              have gives : (run p input (t + p.tDrq + 1)).st = .err := by
                have here := wait_holds st hsk tcnt (Nat.le_refl _)
                  (fun i earlier => down i (by omega))
                have last : p.nDrq = p.tDrq := mod_two_pow_clog2 p.tDrq
                rw [run_succ, here]
                simp [State.next, State.stepWait, st, hsk, down p.tDrq (Nat.le_refl _), last]
              have ends := (ends_answer false gives).after (t := t) (by omega)
                (wait_quiet (a := a) st holds).1
              simpa [serve, found] using ends

/-- The first clock shows nothing, and decides. -/
theorem first_clock : (∀ v, a ≤ v → v < a + 1 → emit p (run p input) input v = []) ∧
    run p input (a + 1) = (run p input a).stepIdle p (input a).req := by
  have idle := idle_of_begins patient begins
  have still : (run p input a).st ≠ .fin := by simp [idle]
  obtain ⟨ack, err⟩ := quiet_of_st a still
  constructor
  · intro v low high
    obtain rfl : v = a := by omega
    exact emit_quiet ack err (by simp [idle]) (by simp [idle])
  · rw [run_succ]
    generalize run p input a = s at idle ack err ⊢
    obtain ⟨st, lane, hsk, rdata, tcnt, wbAck, wbErr⟩ := s
    simp only at idle ack err
    subst idle ack err
    rfl

/-- A pseudo-DMA window serves the lanes. -/
theorem pdma_ends {waits : Bool} (some_ : (input a).req.sel ≠ 0)
    (notReg : (input a).req.inReg p = false) (is : (input a).req.inHsk p = waits)
    (window : ((input a).req.inHsk p || (input a).req.inDma p) = true) :
    Ends p input a (serve p (input a).req waits (fun t => (input t).drq)
      (lanes (input a).req.sel) (a + 1)) := by
  obtain ⟨quiet, first⟩ := first_clock patient begins
  have any : (input a).req.anyLane = true := by simpa [Req.anyLane] using some_
  have next : (run p input (a + 1)).st = .wait ∧
      (run p input (a + 1)).lane = (input a).req.firstLane ∧
      (run p input (a + 1)).hsk = waits ∧ (run p input (a + 1)).tcnt = 0 := by
    subst is
    rw [first, State.stepIdle, if_pos begins.1]
    simp only [any, notReg, window, Bool.not_true, Bool.false_eq_true, if_false, if_true, and_self]
  have stage : Serving p input a (a + 1) waits (lanes (input a).req.sel) := by
    rw [lanes_first _ some_]
    exact ⟨next.1, next.2.1, next.2.2.1, next.2.2.2, rfl⟩
  have pending : Pending p input a (a + 1) := by
    intro u above below
    obtain rfl : u = a + 1 := by omega
    exact not_answers_of_st (by simp [next.1])
  exact (serve_ends patient begins (by omega) stage pending).after (by omega) quiet

/-- The register that the bridge strobes is the one at the address. -/
theorem reg_ends (legal : Legal p) (some_ : (input a).req.sel ≠ 0)
    (inside : Inside p.regBase p.regSpan (address (input a).req 0)) :
    Ends p input a (regOutcome p (input a).req a) := by
  obtain ⟨quiet, first⟩ := first_clock patient begins
  have any : (input a).req.anyLane = true := by simpa [Req.anyLane] using some_
  have isReg : (input a).req.inReg p = true := by
    rw [inReg_eq legal, decide_eq_true inside]
  have next : (run p input (a + 1)).st = (if (input a).req.regOk p then .reg else .err) ∧
      (run p input (a + 1)).lane = (input a).req.firstLane := by
    rw [first, State.stepIdle, if_pos begins.1]
    simp [any, isReg]
  obtain ⟨found, index⟩ := regAligned_regIdx legal (input a).req inside
  have one := lanes_one (input a).req.sel
  rw [← Req.oneLane] at one
  cases single : (input a).req.oneLane with
  | false =>
      rw [single, if_neg Bool.false_ne_true] at one
      have refused : (run p input (a + 1)).st = .err := by
        rw [next.1, Req.regOk, single]
        rfl
      have ends := (ends_answer false refused).after (t := a) (by omega) quiet
      have outcome : regOutcome p (input a).req a = ⟨[], a + 2, false⟩ := by
        unfold regOutcome
        split
        · rename_i lane is
          simp [is] at one
        · rfl
      rw [outcome]
      exact ends
  | true =>
      rw [single, if_pos rfl] at one
      have lane : (input a).req.firstLane = lowestLane (input a).req.sel := rfl
      cases aligned : (input a).req.regAligned p with
      | false =>
          have refused : (run p input (a + 1)).st = .err := by
            rw [next.1, Req.regOk, single, aligned]
            rfl
          have ends := (ends_answer false refused).after (t := a) (by omega) quiet
          rw [aligned, if_neg Bool.false_ne_true] at found
          rw [regOutcome, one, ← lane]
          simp only [found]
          exact ends
      | true =>
          have taken : (run p input (a + 1)).st = .reg := by
            rw [next.1, Req.regOk, single, aligned]
            rfl
          have pending : Pending p input a (a + 1) := by
            intro u above below
            obtain rfl : u = a + 1 := by omega
            exact not_answers_of_st (by simp [taken])
          have held := patient a begins (a + 1) (by omega) pending
          have still' : (run p input (a + 1)).st ≠ .fin := by simp [taken]
          obtain ⟨ack', err'⟩ := quiet_of_st (a + 1) still'
          have shows : emit p (run p input) input (a + 1) = [(a + 1, .strobe (regAccess (input a).req
              (input a).req.firstLane (((input a).req.regOff p).toNat / p.regStride)))] := by
            simp [emit, State.port, regAccess, taken, ack', err', held, next.2, index]
          have answers : (run p input (a + 2)).st = .ack := by
            simp [run_succ p input (a + 1), State.next, taken]
          have ends := ((ends_answer true answers).strobe shows).after (t := a) (by omega) quiet
          rw [aligned, if_pos rfl] at found
          rw [regOutcome, one, ← lane]
          simp only [found]
          exact ends

/-- From its first clock a cycle goes as it has to. -/
theorem cycle_ends (legal : Legal p) :
    Ends p input a (expected p (input a).req (fun t => (input t).drq) a) := by
  obtain ⟨quiet, first⟩ := first_clock patient begins
  rw [State.stepIdle, if_pos begins.1] at first
  unfold expected
  split_ifs with none reg hsk dma
  · have any : (input a).req.anyLane = false := by simpa [Req.anyLane] using none
    have answers : (run p input (a + 1)).st = .ack := by
      rw [first]
      simp [any]
    exact (ends_answer true answers).after (by omega) quiet
  · exact reg_ends patient begins legal none reg
  · have notReg := (inReg_eq legal (input a).req).trans (decide_eq_false reg)
    have isHsk := (inHsk_eq legal (input a).req).trans (decide_eq_true hsk)
    exact pdma_ends patient begins none notReg isHsk (by rw [isHsk, Bool.true_or])
  · have notReg := (inReg_eq legal (input a).req).trans (decide_eq_false reg)
    have notHsk := (inHsk_eq legal (input a).req).trans (decide_eq_false hsk)
    have isDma := (inDma_eq legal (input a).req).trans (decide_eq_true dma)
    exact pdma_ends patient begins none notReg notHsk (by rw [isDma, Bool.or_true])
  · have any : (input a).req.anyLane = true := by simpa [Req.anyLane] using none
    have notReg := (inReg_eq legal (input a).req).trans (decide_eq_false reg)
    have notHsk := (inHsk_eq legal (input a).req).trans (decide_eq_false hsk)
    have notDma := (inDma_eq legal (input a).req).trans (decide_eq_false dma)
    have refused : (run p input (a + 1)).st = .err := by
      rw [first]
      simp [any, notReg, notHsk, notDma]
    exact (ends_answer false refused).after (by omega) quiet

omit begins in
/-- After the answer nothing happens until the next cycle begins. -/
theorem rest_quiet {r d : ℕ} (fin : (run p input r).st = .fin)
    (alone : ∀ u, r < u → u ≤ d → ¬ Begins input u) {v : ℕ} (above : r < v) (below : v ≤ d) :
    emit p (run p input) input v = [] := by
  have settles : ∀ u, r ≤ u → u ≤ d → (run p input u).st = .fin ∨ (run p input u).st = .idle := by
    intro u low high
    induction u, low using Nat.le_induction with
    | base => exact .inl fin
    | succ u low ih =>
        rcases ih (by omega) with still | idle
        · cases up : (input u).req.active <;> simp [run_succ, State.next, still, up]
        · have down : (input u).req.active = false := by
            by_contra up
            rcases Nat.lt_or_ge r u with late | early
            · refine alone u late (by omega) ⟨eq_true_of_ne_false up, ?_⟩
              rcases placed patient u with ⟨_, since⟩ | ⟨other, _⟩
              · exact since
              · exact absurd idle other
            · obtain rfl : u = r := by omega
              rw [fin] at idle
              cases idle
          exact .inr ((next_idle (p := p) (input u) idle).1.mpr down)
  obtain ⟨w, rfl⟩ : ∃ w, v = w + 1 := ⟨v - 1, by omega⟩
  have ends : (run p input (w + 1)).st ≠ .reg ∧ (run p input (w + 1)).st ≠ .xfer := by
    rcases settles (w + 1) (by omega) below with is | is <;> simp [is]
  have silent : (run p input (w + 1)).wbAck = false ∧ (run p input (w + 1)).wbErr = false := by
    rcases settles w (by omega) (by omega) with still | idle
    · cases up : (input w).req.active <;> simp [run_succ, State.next, still, up]
    · exact quiet_of_st (w + 1) (next_idle (p := p) (input w) idle).2
  exact emit_quiet silent.1 silent.2 ends.1 ends.2

end Cycle

/-- Every Wishbone cycle of a run, under any legal parameters, any patient master and any
DRQ: from its first clock up to the next cycle the bridge shows the accesses the cycle
has to make, in their clocks, and one answer. -/
theorem cycles_keep_contract (p : Params) (legal : Legal p) (input : ℕ → Input)
    (patient : Patient (run p input) input) (a : ℕ) (begins : Begins input a) :
    let o := expected p (input a).req (fun t => (input t).drq) a
    a < o.time ∧ ∀ d, o.time ≤ d → (∀ u, a < u → u ≤ d → ¬ Begins input u) →
      Clocked.trace (emit p (run p input) input) a (d + 1) = o.events := by
  intro o
  have ends : Ends p input a o := cycle_ends patient begins legal
  refine ⟨ends.later, fun d late alone => ?_⟩
  have later := ends.later
  have quiet : ∀ v, o.time + 1 ≤ v → v < d + 1 → emit p (run p input) input v = [] := by
    intro v low high
    exact rest_quiet patient ends.st (fun u above below => alone u (by omega) below)
      (by omega) (Nat.lt_succ_iff.mp high)
  rw [Clocked.trace_append _ (by omega) (show o.time + 1 ≤ d + 1 by omega), ends.trace_eq,
    Clocked.trace_eq_nil quiet, List.append_nil]

/-- A master that writes two bytes to the handshaking window and holds on for ever, with
DRQ always up. -/
def twoBytes (_ : ℕ) : Input where
  req := { cyc := true, stb := true, we := true, sel := 0b0110, adr := 0x40, dat := 0x00bbaa00 }
  drq := true

/-- Two accesses with DACK, low lane first, and ACK. -/
theorem two_bytes_strobed :
    Clocked.trace (emit {} (run {} twoBytes) twoBytes) 0 9 =
      [(2, .strobe { stb := true, we := true, dack := true, dat := 0xaa }),
        (4, .strobe { stb := true, we := true, dack := true, dat := 0xbb }), (6, .ack)] := by
  have legal : Legal {} := by
    constructor <;> first | exact ⟨4, rfl⟩ | exact ⟨8, by decide, rfl⟩ | decide
  have patient : Patient (run {} twoBytes) twoBytes := fun _ _ _ _ _ => rfl
  have begins : Begins twoBytes 0 := ⟨rfl, .inl rfl⟩
  have contract := (cycles_keep_contract {} legal twoBytes patient 0 begins).2
  have time : (expected {} (twoBytes 0).req (fun t => (twoBytes t).drq) 0).time = 6 := by
    decide +kernel
  have shown := contract 8 (by rw [time]; omega) (fun u above _ begins => by
    rcases begins.2 with rfl | down
    · omega
    · cases down)
  rw [shown]
  decide +kernel

end Wish5380.Wb
