import Wish5380.Sd.Requests

/-!
# The timer, to the cycle

The prescaler is never cleared, so that it tells the time since the RESET pin.  While a card is
busy the timer counts every cycle: whether the timeout has run out at a poll is decided by the
cycle in which the wait began.
-/

namespace Wish5380.Sd

/-! ## The prescaler -/

namespace Dev

variable {p : Params}

/-- An edge counts, whatever else it does. -/
theorem tickCnt_next (d : Dev) (i : Input) :
    (d.next p i).blk.tickCnt = (d.blk.tickMs p).tickCnt := by
  cases idle : d.idle with
  | true => rw [(next_of_idle idle i).1, (leaves_step ..).tickCnt]
  | false => rw [next_of_busy idle i]

/-- The prescaler shows the cycle. -/
theorem tickCnt_run (input : ℕ → Input) (t : ℕ) : (run p input t).blk.tickCnt = t % p.ticks := by
  have narrow : p.lastTick < 2 ^ 32 := Nat.mod_lt _ (by decide)
  induction t with
  | zero => exact (Nat.zero_mod _).symm
  | succ t ih =>
      have below : t % p.ticks < p.ticks := Nat.mod_lt _ (Nat.succ_pos _)
      have ticked : (run p input (t + 1)).blk.tickCnt =
          if p.lastTick ≤ t % p.ticks then 0 else (t % p.ticks + 1) % 2 ^ 32 := by
        rw [run_succ, tickCnt_next, ← ih]
        simp only [Blk.tickMs]
      rw [ticked, ← Nat.mod_add_mod t p.ticks 1]
      unfold Params.ticks at below ⊢
      split_ifs with last
      · have full : t % (p.lastTick + 1) = p.lastTick := by omega
        rw [full, Nat.mod_self]
      · rw [Nat.mod_eq_of_lt (show t % (p.lastTick + 1) + 1 < 2 ^ 32 by omega),
          Nat.mod_eq_of_lt (show t % (p.lastTick + 1) + 1 < p.lastTick + 1 by omega)]

/-- A card that has been given up stays so. -/
theorem dead_run {input : ℕ → Input} {t u : ℕ} (later : t ≤ u)
    (dead : (run p input t).blk.st = .dead) : (run p input u).blk.st = .dead := by
  induction u, later using Nat.le_induction with
  | base => exact dead
  | succ u later ih =>
      rw [run_succ]
      cases idle : (run p input u).idle with
      | false =>
          rw [next_of_busy idle]
          exact ih
      | true =>
          have st : ((run p input u).blk.tickMs p).st = .dead := ih
          rw [(next_of_idle idle (input u)).1, Blk.step, st]
          simp only [Blk.stepDead]
          split_ifs
          · exact st
          · exact st

theorem unready_of_dead {input : ℕ → Input} {t : ℕ} (dead : (run p input t).blk.st = .dead) :
    (run p input t).blk.cardReady = false := by
  have placed := (placed_run (p := p) input t).ready
  rw [Blk.place, dead] at placed
  exact placed

/-! ## While the card is busy -/

/-- The sequencer has been told that the card is not busy, or has given up on it. -/
def Past (d : Dev) : Prop :=
  d.blk.st = .finish ∨ d.blk.st = .ready

/-- A visit in the wait leaves the timer alone, and asks again or is done with it. -/
theorem busy_next {d : Dev} (busy : d.blk.st = .wrBusy) (i : Input) :
    ((d.next p i).blk.st = .wrBusy ∨ Past (d.next p i)) ∧
      (d.next p i).blk.elapsed p = (d.blk.tickMs p).elapsed p := by
  cases idle : d.idle with
  | true =>
      have st : (d.blk.tickMs p).st = .wrBusy := busy
      have left := leaves_step p (d.blk.tickMs p) (d.req i) d.spi.shRx d.blk.ms
      have moved : (d.blk.tickMs p).step p (d.req i) d.spi.shRx d.blk.ms =
          (d.blk.tickMs p).stepWrBusy d.spi.shRx d.blk.ms := by
        simp only [Blk.step, st]
      have kept : ((d.blk.tickMs p).stepWrBusy d.spi.shRx d.blk.ms).ms = (d.blk.tickMs p).ms := by
        simp only [Blk.stepWrBusy]
        split_ifs <;> rfl
      rw [moved] at left
      rw [Past, (next_of_idle idle i).1, moved]
      refine ⟨?_, by rw [Blk.elapsed, Blk.elapsed, left.tickCnt, left.msPulse, kept]⟩
      simp only [Blk.stepWrBusy]
      split_ifs with answered late
      · exact .inr (.inl rfl)
      · exact .inr (.inl rfl)
      · exact .inl st
  | false =>
      rw [next_of_busy idle i]
      exact ⟨.inl busy, rfl⟩

/-- Nothing leads back into the wait but a request. -/
theorem Past.next {d : Dev} (past : Past d) {i : Input} (quiet : i.start = false) :
    Past (d.next p i) := by
  cases idle : d.idle with
  | true =>
      have none : (d.req i).start = false := quiet
      rw [Past, (next_of_idle idle i).1]
      rcases past with st | st
      · have st' : (d.blk.tickMs p).st = .finish := st
        rw [Blk.step, st']
        exact .inr rfl
      · have st' : (d.blk.tickMs p).st = .ready := st
        rw [Blk.step, st']
        simp only [Blk.stepReady, none, Bool.false_eq_true, if_false]
        exact .inr st'
  | false =>
      rw [Past, next_of_busy idle i]
      exact past

theorem past_run {input : ℕ → Input} {t u : ℕ} (later : t ≤ u) (past : Past (run p input t))
    (quiet : ∀ v, t ≤ v → v < u → (input v).start = false) : Past (run p input u) := by
  induction u, later using Nat.le_induction with
  | base => exact past
  | succ u later ih =>
      exact (ih fun v low high => quiet v low (by omega)).next (quiet u later (Nat.lt_succ_self u))

/-- Between two cycles of one wait the timer counts every cycle. -/
theorem elapsed_busy (period : 0 < p.clkPeriodPs) (high : p.clkPeriodPs ≤ 50000000)
    {input : ℕ → Input} {t u : ℕ} (later : t ≤ u) (busy : (run p input t).blk.st = .wrBusy)
    (still : (run p input u).blk.st = .wrBusy)
    (quiet : ∀ v, t ≤ v → v < u → (input v).start = false) :
    (run p input u).blk.elapsed p % (2 ^ 16 * p.ticks) =
      ((run p input t).blk.elapsed p + (u - t)) % (2 ^ 16 * p.ticks) := by
  have within (v : ℕ) (after : t ≤ v) (before : v ≤ u) : (run p input v).blk.st = .wrBusy := by
    have either : (run p input v).blk.st = .wrBusy ∨ Past (run p input v) := by
      induction v, after using Nat.le_induction with
      | base => exact .inl busy
      | succ v after ih =>
          rcases ih (by omega) with waits | past
          · exact (busy_next waits (input v)).1
          · exact .inr (past.next (quiet v after (by omega)))
    rcases either with waits | past
    · exact waits
    · rcases past_run before past fun w low high => quiet w (by omega) high with st | st
      · rw [still] at st
        cases st
      · rw [still] at st
        cases st
  induction u, later using Nat.le_induction with
  | base => rw [Nat.sub_self, Nat.add_zero]
  | succ u later ih =>
      have before := ih (within u later (Nat.le_succ u)) (fun v low high => quiet v low (by omega))
        fun v low high => within v low (by omega)
      have ranged := (paced_run period high input u).ranged
      rw [run_succ, (busy_next (within u later (Nat.le_succ u)) (input u)).2,
        ranged.elapsed_tickMs, ← Nat.mod_add_mod, before, Nat.mod_add_mod, Nat.add_assoc]
      congr 2
      omega

end Dev

theorem Ranged.elapsed_mod {p : Params} {b : Blk} (ranged : Ranged p b) :
    b.elapsed p % p.ticks = b.tickCnt := by
  have timed : b.tickCnt < p.ticks := Nat.lt_succ_of_le ranged.timed
  rw [Blk.elapsed]
  split_ifs
  · rw [← Nat.succ_mul, Nat.mul_add_mod_self_right, Nat.mod_eq_of_lt timed]
  · rw [Nat.add_zero, Nat.mul_add_mod_self_right, Nat.mod_eq_of_lt timed]

/-- The timer within a millisecond. -/
theorem Ranged.ms_of_running {p : Params} {b : Blk} (ranged : Ranged p b)
    (running : b.tickCnt ≠ 0) {n : ℕ} (far : n * p.ticks ≤ b.elapsed p) : n ≤ b.ms := by
  have timed : b.tickCnt ≤ p.lastTick := ranged.timed
  have off : b.msPulse = false := by
    by_contra on
    exact running (ranged.pulse (by simpa using on))
  rw [Blk.elapsed, off] at far
  by_contra short
  have less : (b.ms + 1) * p.ticks ≤ n * p.ticks := Nat.mul_le_mul_right _ (by omega)
  rw [Nat.succ_mul] at less
  simp only [Params.ticks] at far less
  simp only [Bool.false_eq_true, if_false] at far
  omega

section Wait

variable {p : Params} {h : Option Faults} {f : Faults} {v : View} {s : Stack} {i : Call}

/-- The age of a view may be what the timer shows. -/
theorem At.now (here : At p h v s) : At p h { v with age := s.dev.blk.elapsed p } s where
  blk := here.blk
  go := here.go
  bufWe := here.bufWe
  aged := ⟨here.aged.timed, Nat.le_refl _⟩
  rest := ⟨here.rest.run, here.rest.ended, here.rest.sclk, here.rest.rx, here.rest.slot,
    here.rest.mem⟩
  fresh := here.fresh

/-- A poll that finds the card busy once the timeout has run out: the request fails. -/
theorem At.times_out (here : At p (some f) v s) (st : v.blk.st = .wrBusy) (low : v.rx = 0x00)
    (late : 500 ≤ s.dev.blk.ms) (kept : i.fill = none ∧ i.faults = f) (j : Call) :
    (s.next p i).rsp.done = false ∧ ((s.next p i).next p j).rsp.done = true ∧
      ((s.next p i).next p j).rsp.err = true := by
  have fails : v.blk.calm.step p (s.dev.req (s.input i)) v.rx s.dev.blk.ms = v.blk.calm.fail := by
    have waits : v.blk.calm.st = .wrBusy := st
    simp [Blk.step, waits, Blk.stepWrBusy, low, late]
  have landed := here.visit i
  rw [fails] at landed
  have there := here.turn (by simpa using kept) landed rfl rfl
  have answers := there.visit j
  refine ⟨?_, ?_, ?_⟩
  · rw [Stack.rsp_done, landed]
    rfl
  · rw [Stack.rsp_done, answers]
    rfl
  · simp only [Stack.rsp, Blk.rsp, answers]
    rfl

end Wait

end Wish5380.Sd
