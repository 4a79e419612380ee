import Wish5380.Sd.Places

/-!
# Requests made while the card is not ready

The sequencer looks at `start` in the ready state and in the dead one, and only while
the transceiver is idle.  A request made before the card is ready is answered exactly
when it meets the dead state at rest; any other is lost.
-/

namespace Wish5380.Sd

/-- Between requests: initialising, at rest, or dead. -/
def Blk.free (b : Blk) : Bool :=
  !b.place.up || decide (b.st = .ready)

theorem Blk.free_of_early {b : Blk} (placed : Placed b) (early : b.cardReady = false) :
    b.free = true := by
  rw [placed.ready] at early
  simp [free, early]

section Visit

variable {p : Params} {b : Blk} {req : BlkReq} {rx : Byte} {ms : ℕ}

/-- A visit that is asked nothing, or does not look, begins nothing and answers nothing. -/
theorem free_step (quiet : Quiet b) (placed : Placed b) (free : b.free = true)
    (ignored : req.start = false ∨ (b.st ≠ .ready ∧ b.st ≠ .dead)) :
    (b.step p req rx ms).free = true ∧ (b.step p req rx ms).done = false := by
  have unfinished : b.st ≠ .finish := by
    intro st
    simp [Blk.free, Blk.place, st, St.helper, St.up] at free
  by_cases ready : b.st = .ready
  · have none : req.start = false := by simpa [ready] using ignored
    simp [Blk.step, ready, Blk.stepReady, none, Blk.free, quiet.done]
  · have early : b.cardReady = false := by
      rw [placed.ready]
      simpa [Blk.free, ready] using free
    have done : (b.step p req rx ms).done = false := by
      by_cases dead : b.st = .dead
      · have none : req.start = false := by simpa [dead] using ignored
        simp [Blk.step, dead, Blk.stepDead, none, quiet.done]
      · rw [(leaves_step ..).done unfinished dead, quiet.done]
    refine ⟨?_, done⟩
    by_cases last : b.st = .csdCrc
    · simp only [Blk.step, last, Blk.stepCsdCrc]
      split
      · simp [Blk.free]
      · simp [Blk.free, Blk.send, Blk.count, Blk.place, last, St.helper, St.up]
    · exact Blk.free_of_early (placed_step placed) ((leaves_step ..).cardReady last early)

end Visit

namespace Dev

variable {p : Params} {input : ℕ → Input} {t : ℕ}

theorem free_next (free : (run p input t).blk.free = true)
    (ignored : (run p input t).idle = true → (input t).start = true →
      (run p input t).blk.st ≠ .ready ∧ (run p input t).blk.st ≠ .dead) :
    (run p input (t + 1)).blk.free = true ∧ (run p input (t + 1)).blk.done = false := by
  rw [run_succ]
  cases idle : (run p input t).idle with
  | false =>
      have waits : (run p input t).blk.spiIdle (run p input t).spi = false := idle
      simp only [next, Blk.next, waits]
      exact ⟨free, rfl⟩
  | true =>
      have visits : (run p input t).blk.spiIdle (run p input t).spi = true := idle
      simp only [next, Blk.next, visits, if_true]
      refine free_step ((run p input t).blk.quiet_tickMs p) (placed_run input t).tickMs free ?_
      cases start : (input t).start with
      | false => exact .inl start
      | true => exact .inr (ignored idle start)

/-- As long as nothing is asked, nothing is answered. -/
theorem free_until {v : ℕ} (later : t < v) (free : (run p input (t + 1)).blk.free = true)
    (none : ∀ w, t < w → w < v → (input w).start = false) :
    (run p input v).blk.free = true ∧ (t + 1 < v → (run p input v).blk.done = false) := by
  induction v, later using Nat.le_induction with
  | base => exact ⟨free, fun below => absurd below (Nat.lt_irrefl _)⟩
  | succ v later ih =>
      have before := (ih fun w low high => none w low (by omega)).1
      have after := free_next before (fun _ start => by simp [none v (by omega) (by omega)] at start)
      exact ⟨after.1, fun _ => after.2⟩

/-- The request made in cycle `t` has its one answer: `done` comes with `err`, and as long
as no other request is made it does not come at any other time. -/
def Answered (p : Params) (input : ℕ → Input) (t : ℕ) : Prop :=
  ∃ u, t < u ∧ (run p input u).blk.done = true ∧ (run p input u).blk.err = true ∧
    (∀ w, t < w → w < u → (input w).start = false) ∧
    ∀ v, t < v → (∀ w, t < w → w < v → (input w).start = false) →
      ((run p input v).blk.done = true ↔ v = u)

/-- Any other request is lost. -/
theorem not_answered (early : (run p input t).blk.cardReady = false)
    (missed : ¬ ((run p input t).blk.st = .dead ∧ (run p input t).idle = true)) :
    ¬ Answered p input t := by
  rintro ⟨u, later, done, -, none, -⟩
  have placed := placed_run (p := p) input t
  have unready : (run p input t).blk.st ≠ .ready := by
    intro st
    rw [placed.ready] at early
    simp [Blk.place, st, St.helper, St.up] at early
  have after := free_next (Blk.free_of_early placed early)
    (fun idle _ => ⟨unready, fun dead => missed ⟨dead, idle⟩⟩)
  rcases Nat.lt_or_ge (t + 1) u with beyond | here
  · simp [(free_until later after.1 none).2 beyond] at done
  · obtain rfl : u = t + 1 := by omega
    simp [after.2] at done

/-- A request made while the card is not ready is answered exactly when it meets the dead
state with the transceiver idle. -/
theorem answered_iff_dead (p : Params) (input : ℕ → Input) (t : ℕ)
    (early : (run p input t).blk.cardReady = false) (start : (input t).start = true) :
    Answered p input t ↔ (run p input t).blk.st = .dead ∧ (run p input t).idle = true := by
  constructor
  · intro answered
    by_contra missed
    exact not_answered early missed answered
  · rintro ⟨dead, idle⟩
    have visits : (run p input t).blk.spiIdle (run p input t).spi = true := idle
    have moved : (run p input (t + 1)).blk =
        { (run p input t).blk.tickMs p with cardReady := false, err := true, done := true } := by
      rw [run_succ]
      simp [next, Blk.next, visits, Blk.step, Blk.tickMs, dead, Blk.stepDead, req, start]
    have after : (run p input (t + 1)).blk.free = true := by
      simp [moved, Blk.free, Blk.place, Blk.tickMs, dead, St.helper, St.up]
    refine ⟨t + 1, Nat.lt_succ_self t, by simp [moved], by simp [moved], by omega, ?_⟩
    intro v later none
    constructor
    · intro done
      by_contra other
      simp [(free_until later after none).2 (by omega)] at done
    · rintro rfl
      simp [moved]

/-- A card that answers CMD0 and then holds the line low, and a request in cycle `s`. -/
def refused (s t : ℕ) : Input where
  miso := decide (t = 524)
  start := decide (t = s)

set_option maxRecDepth 10000 in
/-- It has been given up by cycle 760, and the request is answered. -/
theorem dead_card_answers : Answered .slow (refused 760) 760 := by
  have state : (run .slow (refused 760) 760).blk.cardReady = false ∧
      (run .slow (refused 760) 760).blk.st = .dead ∧ (run .slow (refused 760) 760).idle = true := by
    decide +kernel
  exact (answered_iff_dead .slow (refused 760) 760 state.1 (by decide)).mpr state.2

/-- A request made as the RESET pin is released is never answered. -/
theorem first_request_lost :
    (run {} (refused 0) 0).blk.cardReady = false ∧ (refused 0 0).start = true ∧
      ¬ Answered {} (refused 0) 0 := by
  refine ⟨rfl, by decide, not_answered rfl ?_⟩
  rintro ⟨dead, -⟩
  simp [run, reset, Blk.reset] at dead

end Dev

end Wish5380.Sd
