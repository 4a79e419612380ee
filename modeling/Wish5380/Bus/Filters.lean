import Wish5380.Chip.Interrupt
import Wish5380.Clocked.Streak
import Wish5380.Targ.Edges

/-!
# The 400 ns filters

The chip and the target each count clocks before they believe that the bus is free, that BSY
is lost or that they are selected.  What the two counters hold is a streak of the waveform,
for every period of the clock.
-/

namespace Wish5380

open Clocked

/-- 400 ns in clocks, rounded up. -/
def filterClocks (period : ℕ) : ℕ :=
  (400000 + period - 1) / period

theorem filterClocks_spec {period : ℕ} (positive : 0 < period) :
    400000 ≤ filterClocks period * period ∧ filterClocks period * period < 400000 + period := by
  have split := Nat.div_add_mod (400000 + period - 1) period
  have short := Nat.mod_lt (400000 + period - 1) positive
  rw [Nat.mul_comm] at split
  unfold filterClocks
  omega

/-! ## The chip -/

namespace Chip

variable {p : Params} {input : ℕ → Cycle} {t : ℕ}

theorem tBusFree_eq (p : Params) : p.tBusFree = filterClocks p.clkPeriodPs :=
  rfl

/-- The cycles the counter of a free bus counts. -/
def Released (input : ℕ → Cycle) (t : ℕ) : Prop :=
  (input t).rst = false ∧ (input t).bus.bsy = false

instance : DecidablePred (Released input) :=
  fun _ => inferInstanceAs (Decidable (_ ∧ _))

/-- BSY is false, and was in each of the `n` cycles before, all since the last RESET. -/
def Settled (n : ℕ) (input : ℕ → Cycle) (t : ℕ) : Prop :=
  (input t).bus.bsy = false ∧ Streak (Released input) n t

theorem freeCnt_mod (p : Params) {n : ℕ} (small : n ≤ filterClocks p.clkPeriodPs) :
    n % 2 ^ p.cntW = n := by
  apply Nat.mod_eq_of_lt
  have holds : p.nMax < 2 ^ p.cntW := Nat.mod_lt _ (Nat.two_pow_pos _)
  rw [p.nMax_eq, tBusFree_eq] at holds
  omega

/-- `free_cnt` measures how long BSY has been false, up to the filter's length. -/
theorem freeCnt_streak (p : Params) (input : ℕ → Cycle) (t : ℕ) :
    filterClocks p.clkPeriodPs ≤ (run p input t).eng.freeCnt ↔
      Streak (Released input) (filterClocks p.clkPeriodPs) t := by
  refine (@Streak.counter (Released input) (fun _ => True) (fun t => (run p input t).eng.freeCnt)
    _ _ (fun _ => rfl) (fun _ _ => trivial) ?_ t trivial).2 _ (Nat.le_refl _)
  intro t _ bounded
  have small := bounded trivial
  show (clock p (run p input t) (input t)).eng.freeCnt = _
  cases pin : (input t).rst with
  | true => simp [clock, pin, Released]
  | false =>
      cases bsy : (input t).bus.bsy with
      | true => simp [clock, pin, Released, State.next, State.nextEng, State.nextFreeCnt, bsy]
      | false =>
          simp only [clock, pin, Released, State.next, State.nextEng, State.nextFreeCnt, bsy,
            Params.nMax_eq, tBusFree_eq, Bool.false_eq_true, if_false, and_self, if_true]
          split_ifs with below
          · rw [freeCnt_mod p (by omega)]
            omega
          · omega

theorem busFree_iff :
    (run p input t).busFree p (input t).bus = true ↔
      Settled (filterClocks p.clkPeriodPs) input t := by
  simp [State.busFree, Settled, Params.nBusFree_eq, tBusFree_eq, freeCnt_streak, and_comm]

theorem bsySettledFalse_iff :
    (run p input t).bsySettledFalse p (input t).bus = true ↔
      Settled (filterClocks p.clkPeriodPs) input t := by
  simp [State.bsySettledFalse, Settled, Params.nBusSettle_eq, tBusFree_eq, freeCnt_streak, and_comm]

theorem arbitration_starts_iff (calm : (run p input t).sclr (input t).bus = false)
    (resting : (run p input t).eng.arbActive = false) :
    (run p input (t + 1)).eng.arbActive = true ↔
      (input t).rst = false ∧ (run p input t).regs.arbitrate = true ∧
        (input t).bus.sel = false ∧ Settled (filterClocks p.clkPeriodPs) input t := by
  rw [run_succ, ← busFree_iff]
  cases pin : (input t).rst with
  | true => simp [clock, pin]
  | false =>
      cases on : (run p input t).regs.arbitrate <;>
        simp [clock, pin, State.next, State.nextEng, State.nextArb, calm, resting, on, and_comm]

theorem selInt_iff :
    (run p input t).selInt p (input t).bus = true ↔
      (input t).bus.sel = true ∧ (input t).bus.data &&& (run p input t).regs.ser ≠ 0 ∧
        Settled (filterClocks p.clkPeriodPs) input t := by
  rw [State.selInt, Bool.and_eq_true, bsySettledFalse_iff, State.selMatch]
  cases bsy : (input t).bus.bsy <;> simp [Settled, bsy, and_assoc]

theorem busyLost_iff :
    (run p input t).busyLost p (input t).bus = true ↔
      (run p input t).regs.monitorBsy = true ∧ (run p input t).eng.busyErrQ = false ∧
        Settled (filterClocks p.clkPeriodPs) input t := by
  rw [State.busyLost, Bool.and_eq_true, Bool.and_eq_true, bsySettledFalse_iff]
  simp [and_assoc, and_left_comm, and_comm]

end Chip

/-! ## The target -/

namespace Targ

variable {p : Params} {b : Buf} {input : ℕ → Cycle} {t : ℕ}

theorem nSettle_eq (p : Params) : p.nSettle = filterClocks p.clkPeriodPs :=
  mod_two_pow_clog2 _

/-- The target waits, and is being selected. -/
def Watching (p : Params) (b : Buf) (input : ℕ → Cycle) (t : ℕ) : Prop :=
  (run p (start b) input t).seq.st = .idle ∧ selMatch p (input t).bus = true ∧
    (input t).bus.rst = false ∧ (input t).rst = false

instance : DecidablePred (Watching p b input) :=
  fun _ => inferInstanceAs (Decidable (_ ∧ _))

/-- What an edge that ends in `S_IDLE` does with `sel_cnt`. -/
theorem selCnt_edge {s s' : Seq} {c : Cycle} (edge : Seq.Edge p s c s') (idle : s'.st = .idle) :
    (s.st = .idle ∧ selMatch p c.bus = true ∧ c.bus.rst = false ∧ c.rst = false) ∧
        s.selCnt ≠ p.nSettle ∧ s'.selCnt = (s.selCnt + 1) % 2 ^ p.scntW ∨
      ¬ (s.st = .idle ∧ selMatch p c.bus = true ∧ c.bus.rst = false ∧ c.rst = false) ∧
        s'.selCnt = 0 := by
  cases edge with
  | pin rst => exact .inr ⟨by simp [rst], rfl⟩
  | busReset _ rst => exact .inr ⟨by simp [rst], rfl⟩
  | watch pin rst st named early => exact .inl ⟨⟨st, named, rst, pin⟩, early, rfl⟩
  | ignore _ _ _ other => exact .inr ⟨by simp [other], rfl⟩
  | free _ _ st => exact .inr ⟨by simp [st], rfl⟩
  | decide pin rst st decides => cases decides <;> simp at idle
  | _ => simp_all [Seq.Transfers]

theorem selCnt_mod (p : Params) {n : ℕ} (small : n ≤ filterClocks p.clkPeriodPs) :
    n % 2 ^ p.scntW = n := by
  apply Nat.mod_eq_of_lt
  have holds : p.nSettle < 2 ^ p.scntW := Nat.mod_lt _ (Nat.two_pow_pos _)
  rw [nSettle_eq] at holds
  omega

theorem selected_edge {s s' : Seq} {c : Cycle} (edge : Seq.Edge p s c s') (idle : s.st = .idle)
    (connected : s'.connected = true) :
    (s.st = .idle ∧ selMatch p c.bus = true ∧ c.bus.rst = false ∧ c.rst = false) ∧
      s.selCnt = p.nSettle := by
  cases edge with
  | selected pin rst st named settled => exact ⟨⟨st, named, rst, pin⟩, settled⟩
  | pin => simp [Seq.connected, Seq.reset] at connected
  | _ => simp_all [Seq.connected, Seq.Transfers]

theorem selected_connected {s : Seq} {c : Cycle}
    (watching : s.st = .idle ∧ selMatch p c.bus = true ∧ c.bus.rst = false ∧ c.rst = false)
    (settled : s.selCnt = p.nSettle) : (s.clock p c).connected = true := by
  obtain ⟨idle, named, rst, pin⟩ := watching
  have edge := Seq.clock_edge p s c
  generalize s.clock p c = s' at edge
  cases edge with
  | selected => rfl
  | _ => simp_all [Seq.Transfers]

/-- `sel_cnt` measures how long the target has been selected, as far as it counts. -/
theorem selCnt_streak (p : Params) (b : Buf) (input : ℕ → Cycle) (t : ℕ)
    (idle : (run p (start b) input t).seq.st = .idle) :
    (run p (start b) input t).seq.selCnt ≤ filterClocks p.clkPeriodPs ∧
      ∀ k ≤ filterClocks p.clkPeriodPs,
        (k ≤ (run p (start b) input t).seq.selCnt ↔ Streak (Watching p b input) k t) := by
  refine @Streak.counter (Watching p b input) (fun t => (run p (start b) input t).seq.st = .idle)
    (fun t => (run p (start b) input t).seq.selCnt) _ _ (fun _ => rfl)
    (fun _ watching => watching.1) ?_ t idle
  intro t next bounded
  have edge := Seq.clock_edge p (run p (start b) input t).seq (input t)
  rcases selCnt_edge edge next with ⟨watching, early, counts⟩ | ⟨other, cleared⟩
  · rw [if_pos (show Watching p b input t from watching)]
    have small := bounded watching.1
    rw [nSettle_eq] at early
    refine counts.trans ?_
    rw [selCnt_mod p (by omega)]
    omega
  · rw [if_neg (show ¬ Watching p b input t from other)]
    exact cleared

/-- The target answers a selection at the end of the first cycle in which it has lasted. -/
theorem selected_iff (p : Params) (b : Buf) (input : ℕ → Cycle) (t : ℕ) :
    (run p (start b) input t).seq.st = .idle ∧
        (run p (start b) input (t + 1)).seq.connected = true ↔
      Streak (Watching p b input) (filterClocks p.clkPeriodPs + 1) (t + 1) := by
  rw [Streak.succ_iff]
  have edge := Seq.clock_edge p (run p (start b) input t).seq (input t)
  constructor
  · rintro ⟨idle, connected⟩
    obtain ⟨bound, measures⟩ := selCnt_streak p b input t idle
    obtain ⟨watching, settled⟩ := selected_edge edge idle connected
    rw [nSettle_eq] at settled
    exact ⟨watching, (measures _ (Nat.le_refl _)).mp (Nat.le_of_eq settled.symm)⟩
  · rintro ⟨watching, streak⟩
    obtain ⟨bound, measures⟩ := selCnt_streak p b input t watching.1
    have settled := (measures _ (Nat.le_refl _)).mpr streak
    refine ⟨watching.1, ?_⟩
    rw [run_succ]
    exact selected_connected watching (by rw [nSettle_eq]; omega)

end Targ

/-- The filters of both devices are exact, for every period of the clock and every waveform. -/
theorem filters_exact (p : Targ.Params) (positive : 0 < p.clkPeriodPs) :
    (400000 ≤ filterClocks p.clkPeriodPs * p.clkPeriodPs ∧
      filterClocks p.clkPeriodPs * p.clkPeriodPs < 400000 + p.clkPeriodPs) ∧
    (∀ (input : ℕ → Chip.Cycle) (t : ℕ),
      ((Chip.run ⟨p.clkPeriodPs⟩ input t).sclr (input t).bus = false →
        (Chip.run ⟨p.clkPeriodPs⟩ input t).eng.arbActive = false →
        ((Chip.run ⟨p.clkPeriodPs⟩ input (t + 1)).eng.arbActive = true ↔
          (input t).rst = false ∧ (Chip.run ⟨p.clkPeriodPs⟩ input t).regs.arbitrate = true ∧
            (input t).bus.sel = false ∧
            Chip.Settled (filterClocks p.clkPeriodPs) input t)) ∧
      ((Chip.run ⟨p.clkPeriodPs⟩ input t).selInt ⟨p.clkPeriodPs⟩ (input t).bus = true ↔
        (input t).bus.sel = true ∧
          (input t).bus.data &&& (Chip.run ⟨p.clkPeriodPs⟩ input t).regs.ser ≠ 0 ∧
          Chip.Settled (filterClocks p.clkPeriodPs) input t) ∧
      ((Chip.run ⟨p.clkPeriodPs⟩ input t).busyLost ⟨p.clkPeriodPs⟩ (input t).bus = true ↔
        (Chip.run ⟨p.clkPeriodPs⟩ input t).regs.monitorBsy = true ∧
          (Chip.run ⟨p.clkPeriodPs⟩ input t).eng.busyErrQ = false ∧
          Chip.Settled (filterClocks p.clkPeriodPs) input t)) ∧
    ∀ (b : Targ.Buf) (input : ℕ → Targ.Cycle) (t : ℕ),
      (Targ.run p (Targ.start b) input t).seq.st = .idle ∧
          (Targ.run p (Targ.start b) input (t + 1)).seq.connected = true ↔
        Streak (Targ.Watching p b input) (filterClocks p.clkPeriodPs + 1) (t + 1) :=
  ⟨filterClocks_spec positive,
    fun _ _ => ⟨Chip.arbitration_starts_iff, Chip.selInt_iff, Chip.busyLost_iff⟩,
    Targ.selected_iff p⟩

/-- At 50 MHz the filters are twenty clocks long. -/
theorem filters_twenty :
    filterClocks 20000 = 20 ∧ ∀ (b : Targ.Buf) (input : ℕ → Targ.Cycle) (t : ℕ),
      (Targ.run {} (Targ.start b) input t).seq.st = .idle ∧
          (Targ.run {} (Targ.start b) input (t + 1)).seq.connected = true ↔
        Streak (Targ.Watching {} b input) 21 (t + 1) :=
  ⟨rfl, (filters_exact {} (by decide)).2.2⟩

end Wish5380
