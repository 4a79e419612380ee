import Wish5380.Targ.Medium

/-!
# Who owns the sector buffer

Between a request and its answer the buffer is the back end's, outside it the
SCSI side's.  No port or comparator enforces that: it rests on the sequencer
waiting in `S_RDWAIT` or `S_WRWAIT` for exactly as long as a request is
unanswered.  A bus reset takes it out of the wait without the answer, and the
rule then holds for as long as no new command is taken on before the answer
arrives.
-/

namespace Wish5380.Targ

/-- Requests raised before cycle `t` and not answered before it. -/
def outstanding (x : ℕ → State) (input : ℕ → Cycle) : ℕ → ℕ
  | 0 => 0
  | t + 1 => outstanding x input t + (blkReq (x t)).start.toNat - (input t).blk.done.toNat

/-- The requests the back end has in hand in cycle `t`, the one raised in it included. -/
def owed (x : ℕ → State) (input : ℕ → Cycle) (t : ℕ) : ℕ :=
  outstanding x input t + (blkReq (x t)).start.toNat

theorem outstanding_succ (x : ℕ → State) (input : ℕ → Cycle) (t : ℕ) :
    outstanding x input (t + 1) = owed x input t - (input t).blk.done.toNat :=
  rfl

/-- One cycle obeys the ownership rule. -/
structure Owned (x : ℕ → State) (input : ℕ → Cycle) (t : ℕ) : Prop where
  single : (blkReq (x t)).start = true → outstanding x input t = 0
  unwritten : 0 < owed x input t → (x t).seq.aWe (input t).bus = false
  unread : 0 < owed x input t →
    ¬ ((x t).seq.req = true ∧ (x t).seq.st = .datain ∧ (x t).seq.respKind = .media)

/-- The invariant behind it: a transfer waits while one request is unanswered and
moves bytes while none is. -/
structure Tracks (x : ℕ → State) (input : ℕ → Cycle) (t : ℕ) : Prop where
  waits : (x t).seq.InTransfer → (x t).seq.st = .rdwait ∨ (x t).seq.st = .wrwait →
    owed x input t = 1
  moves : (x t).seq.InTransfer → (x t).seq.st = .datain ∨ (x t).seq.st = .dataout →
    owed x input t = 0
  single : (blkReq (x t)).start = true → outstanding x input t = 0

theorem Tracks.owned {x : ℕ → State} {input : ℕ → Cycle} {t : ℕ} (tracks : Tracks x input t) :
    Owned x input t := by
  refine ⟨tracks.single, fun busy => ?_, fun busy => ?_⟩
  · cases writes : (x t).seq.aWe (input t).bus with
    | false => rfl
    | true =>
        simp only [Seq.aWe, Bool.and_eq_true, beq_iff_eq] at writes
        obtain ⟨⟨⟨st, _⟩, _⟩, media⟩ := writes
        have free := tracks.moves ⟨media, .inr (.inr (.inr st))⟩ (.inr st)
        omega
  · rintro ⟨_, st, media⟩
    have free := tracks.moves ⟨media, .inr (.inr (.inl st))⟩ (.inl st)
    omega

section Run

variable {p : Params} {s : State} {input : ℕ → Cycle}

/-- One clock keeps the invariant, provided a command is only taken on when every
request has been answered. -/
theorem tracks_succ {t : ℕ} (tracks : Tracks (run p s input) input t)
    (answered : (run p s input t).seq.st = .exec → (input t).bus.rst = false →
      (run p s input t).seq.accepts (input t).blk = true →
        outstanding (run p s input) input (t + 1) = 0) :
    Tracks (run p s input) input (t + 1) := by
  have later : owed (run p s input) input (t + 1) =
      outstanding (run p s input) input (t + 1) +
        (blkReq (run p s input (t + 1))).start.toNat := rfl
  have now := outstanding_succ (run p s input) input t
  have step : (run p s input (t + 1)).seq = (run p s input t).seq.clock p (input t) := rfl
  have request : (blkReq (run p s input (t + 1))).start =
      ((run p s input t).seq.clock p (input t)).blkStart := rfl
  rcases Seq.clock_onward p (run p s input t).seq (input t) with ⟨⟨edge, _⟩, _, rst⟩ | ⟨still, quiet⟩
  · cases edge with
    | read exec accepted st start =>
        have none := answered exec rst accepted
        refine ⟨fun _ _ => ?_, fun _ place => ?_, fun _ => none⟩
        · simp [later, none, request, start]
        · simp [step, st] at place
    | write exec accepted st quiet =>
        have none := answered exec rst accepted
        refine ⟨fun _ place => ?_, fun _ _ => ?_, fun _ => none⟩
        · simp [step, st] at place
        · simp [later, none, request, quiet]
    | wait before waits pending st quiet =>
        have one := tracks.waits before waits
        refine ⟨fun _ _ => ?_, fun _ place => ?_, fun pulse => ?_⟩
        · simp [later, now, one, pending, request, quiet]
        · rcases waits with at_ | at_ <;> simp [step, st, at_] at place
        · simp [request, quiet] at pulse
    | filled before waits done st quiet =>
        have one := tracks.waits before (.inl waits)
        refine ⟨fun _ place => ?_, fun _ _ => ?_, fun pulse => ?_⟩
        · simp [step, st] at place
        · simp [later, now, one, done, request, quiet]
        · simp [request, quiet] at pulse
    | drained before waits done _ st quiet =>
        have one := tracks.waits before (.inr waits)
        refine ⟨fun _ place => ?_, fun _ _ => ?_, fun pulse => ?_⟩
        · simp [step, st] at place
        · simp [later, now, one, done, request, quiet]
        · simp [request, quiet] at pulse
    | byte before moves st quiet =>
        have none := tracks.moves before moves
        refine ⟨fun _ place => ?_, fun _ _ => ?_, fun pulse => ?_⟩
        · rcases moves with at_ | at_ <;> simp [step, st, at_] at place
        · simp [later, now, none, request, quiet]
        · simp [request, quiet] at pulse
    | fetch before moves _ st start =>
        have none := tracks.moves before (.inl moves)
        refine ⟨fun _ _ => ?_, fun _ place => ?_, fun _ => by simp [now, none]⟩
        · simp [later, now, none, request, start]
        · simp [step, st] at place
    | store before moves st start =>
        have none := tracks.moves before (.inr moves)
        refine ⟨fun _ _ => ?_, fun _ place => ?_, fun _ => by simp [now, none]⟩
        · simp [later, now, none, request, start]
        · simp [step, st] at place
  · refine ⟨fun moving => absurd moving still, fun moving => absurd moving still, fun pulse => ?_⟩
    simp [request, quiet] at pulse

end Run

/-- A reset of either kind takes the target out of a wait without the answer. -/
structure CutShort (x : ℕ → State) (input : ℕ → Cycle) (t : ℕ) : Prop where
  reset : (input t).rst = true ∨ (input t).bus.rst = true
  waits : (x t).seq.st = .rdwait ∨ (x t).seq.st = .wrwait
  pending : (input t).blk.done = false

/-- `S_EXEC` takes on a READ or a WRITE in cycle `t`. -/
structure Takes (x : ℕ → State) (input : ℕ → Cycle) (t : ℕ) : Prop where
  exec : (x t).seq.st = .exec
  rst : (input t).bus.rst = false
  accepted : (x t).seq.accepts (input t).blk = true

/-- When a reset cuts a wait short, the back end answers before the next READ or
WRITE is taken on. -/
def AnswersCuts (x : ℕ → State) (input : ℕ → Cycle) : Prop :=
  ∀ t u, t < u → CutShort x input t → Takes x input u →
    ∃ v, t < v ∧ v ≤ u ∧ (input v).blk.done = true

/-- A request nobody waits for was abandoned by a reset and is not answered yet. -/
structure Accounted (x : ℕ → State) (input : ℕ → Cycle) (t : ℕ) : Prop where
  tracks : Tracks x input t
  atMostOne : owed x input t ≤ 1
  abandoned : 0 < owed x input t →
    ((x t).seq.InTransfer ∧ ((x t).seq.st = .rdwait ∨ (x t).seq.st = .wrwait)) ∨
      ∃ c, c < t ∧ CutShort x input c ∧ ∀ v, c < v → v < t → (input v).blk.done = false

/-- The clock that leaves a transfer, or stays outside one, keeps the account. -/
theorem accounted_succ_outside {p : Params} {s : State} {input : ℕ → Cycle} {t : ℕ}
    (account : Accounted (run p s input) input t)
    (after : Tracks (run p s input) input (t + 1))
    (outside : (run p s input (t + 1)).seq.Outside) :
    Accounted (run p s input) input (t + 1) := by
  have quiet : (blkReq (run p s input (t + 1))).start = false := outside.2
  have later : owed (run p s input) input (t + 1) =
      owed (run p s input) input t - (input t).blk.done.toNat := by
    change outstanding _ _ (t + 1) + _ = _
    simp [outstanding_succ, quiet]
  have few := account.atMostOne
  refine ⟨after, by omega, fun busy => .inr ?_⟩
  have pending : (input t).blk.done = false := by
    cases done : (input t).blk.done with
    | false => rfl
    | true =>
        rw [later, done, Bool.toNat_true] at busy
        omega
  rcases account.abandoned (by omega) with ⟨moving, waits⟩ | ⟨c, earlier, cut, silent⟩
  · refine ⟨t, Nat.lt_succ_self t, ⟨?_, waits, pending⟩, fun v low high => by omega⟩
    by_contra released
    have pin : (input t).rst = false := by
      simpa using fun raised => released (.inl raised)
    have rst : (input t).bus.rst = false := by
      simpa using fun raised => released (.inr raised)
    have stays : (run p s input (t + 1)).seq = (run p s input t).seq.endPulse :=
      Seq.clock_wait waits pin rst pending
    rw [stays] at outside
    exact outside.1 moving
  · refine ⟨c, by omega, cut, fun v low high => ?_⟩
    rcases Nat.lt_succ_iff_lt_or_eq.mp high with before | rfl
    · exact silent v low before
    · exact pending

theorem accounted_succ {p : Params} {s : State} {input : ℕ → Cycle} {t : ℕ}
    (answers : AnswersCuts (run p s input) input)
    (account : Accounted (run p s input) input t) :
    Accounted (run p s input) input (t + 1) := by
  have few := account.atMostOne
  have after : Tracks (run p s input) input (t + 1) := by
    refine tracks_succ account.tracks fun exec rst accepted => ?_
    rw [outstanding_succ]
    rcases Nat.eq_zero_or_pos (owed (run p s input) input t) with none | busy
    · rw [none, Nat.zero_sub]
    · rcases account.abandoned busy with ⟨_, waits⟩ | ⟨c, earlier, cut, silent⟩
      · simp [exec] at waits
      · obtain ⟨v, low, high, done⟩ := answers c t earlier cut ⟨exec, rst, accepted⟩
        rcases Nat.lt_or_eq_of_le high with before | rfl
        · simp [silent v low before] at done
        · rw [done, Bool.toNat_true]
          omega
  rcases Seq.clock_onward p (run p s input t).seq (input t) with ⟨goes, _⟩ | outside
  · have moving : (run p s input (t + 1)).seq.InTransfer := goes.inTransfer
    rcases moving.2 with at_ | at_ | at_ | at_
    · exact ⟨after, (after.waits moving (.inl at_)).le, fun _ => .inl ⟨moving, .inl at_⟩⟩
    · exact ⟨after, (after.waits moving (.inr at_)).le, fun _ => .inl ⟨moving, .inr at_⟩⟩
    · have none := after.moves moving (.inl at_)
      exact ⟨after, by omega, fun busy => by omega⟩
    · have none := after.moves moving (.inr at_)
      exact ⟨after, by omega, fun busy => by omega⟩
  · exact accounted_succ_outside account after outside

/-- In every run from reset in which the back end answers for a wait that a reset
cut short before the next READ or WRITE is taken on, every cycle obeys the rule. -/
theorem buffer_owned (p : Params) (b : Buf) (input : ℕ → Cycle)
    (answers : AnswersCuts (run p (start b) input) input) (t : ℕ) :
    Owned (run p (start b) input) input t := by
  have account : Accounted (run p (start b) input) input t := by
    induction t with
    | zero =>
        refine ⟨⟨fun moving => ?_, fun moving => ?_, fun _ => rfl⟩, ?_, fun busy => ?_⟩
        · simp [run, start, Seq.InTransfer, Seq.reset] at moving
        · simp [run, start, Seq.InTransfer, Seq.reset] at moving
        · exact Nat.zero_le 1
        · exact absurd busy (Nat.lt_irrefl 0)
    | succ t ih => exact accounted_succ answers ih
  exact account.tracks.owned

/-- A ready medium of 2048 blocks whose back end answers in the cycles listed. -/
def answeringDisk (answers : List ℕ) (t : ℕ) : BlkRsp :=
  { ready := true, count := 2048, done := answers.contains t }

/-- READ(10), a bus reset one clock after its request, and the same READ(10) again. -/
def resetBus : List Scsi :=
  command {} (read10 5 2) ++
    [{ bsy := true, io := true }, { rst := true, bsy := true, io := true }] ++
    command {} (read10 5 2)

def resetCycles (answers : List ℕ) : ℕ → Cycle :=
  present resetBus { bsy := true, io := true, req := true } (answeringDisk answers)

theorem resetCycles_late (answers : List ℕ) {t : ℕ} (late : 108 ≤ t) :
    resetCycles answers t =
      { bus := { bsy := true, io := true, req := true }, blk := answeringDisk answers t } := by
  have short : resetBus.length = 108 := by
    simp [resetBus, command, selection, commandByte, read10, tenBytes,
      show (Params.nSettle {}) = 20 from by decide]
  simp only [resetCycles, present]
  rw [List.getD_eq_getElem?_getD, List.getElem?_eq_none (by omega), Option.getD_none]

theorem resetCycles_reset {answers : List ℕ} {t : ℕ}
    (raised : (resetCycles answers t).rst = true ∨ (resetCycles answers t).bus.rst = true) :
    t = 54 := by
  rcases Nat.lt_or_ge t 108 with early | late
  · have only : ∀ t < 108, (resetBus.getD t { bsy := true, io := true, req := true }).rst = true →
        t = 54 := by
      decide +kernel
    simp only [resetCycles, present, Bool.false_eq_true, false_or] at raised
    exact only t early raised
  · rw [resetCycles_late answers late] at raised
    simp at raised

/-- The answer to the abandoned request comes while the bus is free again. -/
theorem reset_with_early_answer :
    CutShort (run {} (start .blank) (resetCycles [60, 120])) (resetCycles [60, 120]) 54 ∧
    ∀ t, Owned (run {} (start .blank) (resetCycles [60, 120])) (resetCycles [60, 120]) t := by
  have waits : (run {} (start .blank) (resetCycles [60, 120]) 54).seq.st = .rdwait := by
    rw [run_seq]
    decide +kernel
  refine ⟨⟨.inr rfl, .inl waits, rfl⟩, fun t => buffer_owned {} .blank _ ?_ t⟩
  intro c u later cut takes
  obtain rfl := resetCycles_reset cut.reset
  have idle : ∀ u < 60, 54 < u →
      (Clocked.run (Seq.clock {}) Seq.reset (resetCycles [60, 120]) u).st ≠ .exec := by
    decide +kernel
  refine ⟨60, by decide, ?_, rfl⟩
  by_contra early
  have exec := takes.exec
  rw [run_seq] at exec
  exact idle u (by omega) later exec

/-- The back end answers nothing but what it was asked, and sooner or later everything. -/
def AnswersEach (x : ℕ → State) (input : ℕ → Cycle) : Prop :=
  (∀ t, (input t).blk.done = true → 0 < owed x input t) ∧
    ∀ t, ∃ u, t ≤ u ∧ outstanding x input u = 0

/-- The answer to the abandoned request comes after the second READ has been
taken on: two requests are then outstanding at once. -/
theorem reset_with_late_answer :
    AnswersEach (run {} (start .blank) (resetCycles [110, 111])) (resetCycles [110, 111]) ∧
    ¬ ∀ t, Owned (run {} (start .blank) (resetCycles [110, 111])) (resetCycles [110, 111]) t := by
  refine ⟨⟨fun t done => ?_, fun t => ?_⟩, fun rule => ?_⟩
  · have when : t = 110 ∨ t = 111 := by simpa [resetCycles, present, answeringDisk] using done
    rcases when with rfl | rfl
    · decide +kernel
    · decide +kernel
  · have settled : ∀ u, 112 ≤ u → outstanding (run {} (start .blank) (resetCycles [110, 111]))
        (resetCycles [110, 111]) u = 0 := by
      intro u late
      induction u, late using Nat.le_induction with
      | base => decide +kernel
      | succ u late ih =>
          have stays : Clocked.run (Seq.clock {}) Seq.reset (resetCycles [110, 111]) u =
              Clocked.run (Seq.clock {}) Seq.reset (resetCycles [110, 111]) 112 := by
            refine Clocked.run_fixed ?_ late
            intro v later
            have silent : answeringDisk [110, 111] v = { ready := true, count := 2048 } := by
              simp [answeringDisk]
              omega
            rw [resetCycles_late _ (by omega), silent]
            decide +kernel
          have quiet : (blkReq (run {} (start .blank) (resetCycles [110, 111]) u)).start =
              false := by
            simp only [blkReq, run_seq, start, stays]
            decide +kernel
          simp [outstanding, ih, quiet]
    exact ⟨max t 112, le_max_left t 112, settled _ (le_max_right t 112)⟩
  · have asked : (blkReq (run {} (start .blank) (resetCycles [110, 111]) 108)).start = true := by
      decide +kernel
    have pending : outstanding (run {} (start .blank) (resetCycles [110, 111]))
        (resetCycles [110, 111]) 108 ≠ 0 := by
      decide +kernel
    exact pending ((rule 108).single asked)

end Wish5380.Targ
