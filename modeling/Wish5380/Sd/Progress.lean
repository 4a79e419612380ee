import Wish5380.Clocked.Watchdog
import Wish5380.Sd.NotReady
import Wish5380.Sd.Stack

/-!
# The sequencer never hangs

Initialisation and every request go through phases, in an order from which no card can turn
them back.  Within a phase each visit counts something down or finds a timeout that has not
run out, and nothing but the end of a phase clears the timer.  The timer wraps, but a lap of
any loop is far shorter than what is left of its range behind the longest timeout.
-/

namespace Wish5380.Sd

/-! ## Phases -/

/-- What is left to do.  A command and the state it comes back to are one phase, and so is a
loop of commands. -/
def St.phase : St → ℕ
  | .power => 12
  | .dummy => 11
  | .cmd0 | .cmd0R => 10
  | .cmd8 | .cmd8R => 9
  | .cmd55 | .cmd55R | .acmd41 | .acmd41R => 8
  | .cmd58 | .cmd58R => 7
  | .cmd16 | .cmd16R => 6
  | .cmd9 | .cmd9R => 5
  | .csdTok => 4
  | .csdDat => 3
  | .csdCrc => 2
  | .rdCmd | .rdCmdR => 5
  | .rdTok => 4
  | .rdDat => 3
  | .rdCrc => 2
  | .wrCmd | .wrCmdR => 8
  | .wrPre => 7
  | .wrTok => 6
  | .wrDat => 5
  | .wrCrc => 4
  | .wrResp => 3
  | .wrBusy => 2
  | .finish => 1
  | _ => 0

/-- More than the visits a state has before it in its phase, those it makes itself apart. -/
def St.ahead : St → ℕ
  | .cmd55 => 8001
  | .cmd55R => 4001
  | .cmd0 | .cmd8 | .acmd41 | .cmd58 | .cmd16 | .cmd9 | .rdCmd | .wrCmd => 4000
  | _ => 0

namespace Blk

def phase (b : Blk) : ℕ :=
  b.place.phase

/-- How far `bcnt` has to count to come to `n`. -/
def short (b : Blk) (n : ℕ) : ℕ :=
  (n + 2 ^ 10 - b.bcnt) % 2 ^ 10

/-- More than the visits the sequencer makes before it leaves its state. -/
def visits (b : Blk) : ℕ :=
  match b.st with
  | .dummy => b.short 10
  | .csdDat => b.short 15
  | .csdCrc => b.short 1
  | .rdDat => b.short 511
  | .rdCrc => b.short 1
  | .wrDat => b.short 510
  | .wrCrc => 1 - b.bcnt
  | .cSend => 2100 + b.short 6
  | .cR1 => 1050 + (64 - b.bcnt)
  | .cExtra => 1 + b.short 3
  | _ => 0

def left (b : Blk) : ℕ :=
  b.place.ahead + b.visits

theorem short_lt (b : Blk) (n : ℕ) : b.short n < 2 ^ 10 :=
  Nat.mod_lt _ (by decide)

theorem left_le (b : Blk) : b.left ≤ 12000 := by
  have first : b.place.ahead ≤ 8001 := by
    cases b.place <;> decide
  have second : b.visits ≤ 3200 := by
    have sending := b.short_lt 6
    have waiting := b.short_lt 3
    have bound : ∀ n, b.short n ≤ 3200 := fun n =>
      Nat.le_trans (Nat.le_of_lt (b.short_lt n)) (by decide)
    unfold visits
    split <;> first | exact bound _ | omega
  unfold left
  omega

end Blk

section Visit

variable {p : Params} {b : Blk} {req : BlkReq} {rx : Byte} {ms : ℕ}

/-- A visit ends its phase, or leaves the timer alone; and then something is counted down, or
a timeout has not run out. -/
def Advances (p : Params) (b : Blk) (req : BlkReq) (rx : Byte) (ms : ℕ) : Prop :=
  (b.step p req rx ms).phase < b.phase ∨
    (b.step p req rx ms).phase = b.phase ∧ (b.step p req rx ms).ms = b.ms ∧
      ((b.step p req rx ms).left < b.left ∨ ms < 1000)

theorem phase_of_job {s : St} {j : BitVec 6 × Bool} (job : s.job = some j) : s.phase ≠ 0 := by
  cases s <;> simp_all [St.job, St.phase]

theorem Blk.phase_eq_zero {b : Blk} (placed : Placed b) (rest : b.phase = 0) :
    b.st = .ready ∨ b.st = .dead := by
  cases inside : b.st.helper with
  | true =>
      rw [phase, place_of_helper inside] at rest
      exact absurd rest (phase_of_job (placed.job inside))
  | false =>
      rw [phase, place_of_state inside] at rest
      cases st : b.st <;> simp_all [St.phase, St.helper]

theorem visits_of_job {j : BitVec 6 × Bool} (job : b.st.job = some j) : b.visits = 0 := by
  unfold Blk.visits
  cases st : b.st <;> simp_all [St.job]

/-- The helper's last visit. -/
theorem advances_return (placed : Placed b) (inside : b.st.helper = true)
    (back : (b.step p req rx ms).st = b.ret) (kept : (b.step p req rx ms).ms = b.ms)
    (last : 0 < b.visits) : Advances p b req rx ms := by
  have job := placed.job inside
  have place := Blk.place_return inside back (helper_of_job job)
  have none : (b.step p req rx ms).visits = 0 := visits_of_job (back ▸ job)
  refine .inr ⟨?_, kept, .inl ?_⟩
  · rw [Blk.phase, Blk.phase, place]
  · rw [Blk.left, Blk.left, place, none]
    omega

section Cases

attribute [local simp] Blk.phase Blk.left Blk.visits Blk.place Blk.send Blk.count Blk.fail
  Blk.command St.helper St.phase St.ahead Blk.short

/-- The helper counts what it sends, how long it waits, and what it receives. -/
theorem advances_helper (placed : Placed b) (small : b.bcnt < 2 ^ 10)
    (inside : b.st.helper = true) : Advances p b req rx ms := by
  cases st : b.st <;> simp only [st, St.helper, Bool.false_eq_true] at inside
  case cSend =>
    refine .inr ?_
    simp only [Blk.step, st, Blk.stepCSend]
    split
    · refine ⟨by simp [st], rfl, .inl ?_⟩
      simp [st]
      omega
    · refine ⟨by simp [st], rfl, .inl ?_⟩
      simp [st]
      omega
  case cR1 =>
    by_cases back : (b.step p req rx ms).st = b.ret
    · refine advances_return placed (by simp [st]) back ?_ (by simp only [Blk.visits, st]; omega)
      simp only [Blk.step, st, Blk.stepCR1]
      split_ifs <;> rfl
    · refine .inr ?_
      simp only [Blk.step, st, Blk.stepCR1] at back ⊢
      split_ifs at back ⊢
      · refine ⟨by simp [st], rfl, .inl ?_⟩
        simp [st]
        omega
      · exact absurd rfl back
      · exact absurd rfl back
      · refine ⟨by simp [st], rfl, .inl ?_⟩
        simp [st]
        omega
  case cExtra =>
    by_cases last : b.bcnt = 3
    · exact advances_return placed (by simp [st]) (by simp [Blk.step, st, Blk.stepCExtra, last])
        (by simp [Blk.step, st, Blk.stepCExtra, last]) (by simp [st, last])
    · refine .inr ?_
      simp only [Blk.step, st, Blk.stepCExtra, if_neg last]
      refine ⟨by simp [st], rfl, .inl ?_⟩
      simp [st]
      omega

/-- Every visit outside it. -/
theorem advances_state (small : b.bcnt < 2 ^ 10) (out : b.st.helper = false)
    (busy : b.phase ≠ 0) : Advances p b req rx ms := by
  cases st : b.st
  case cSend | cR1 | cExtra => simp [st] at out
  case ready | dead => simp [st] at busy
  case cmd0 | cmd8 | cmd55 | acmd41 | cmd58 | cmd16 | cmd9 | rdCmd | wrCmd =>
    exact .inr (by simp [Blk.step, st])
  case cmd55R => exact .inr (by simp [Blk.step, st])
  case wrPre | wrTok | finish | cmd16R | cmd8R | cmd58R | cmd9R | rdCmdR | wrCmdR =>
    refine .inl ?_
    simp only [Blk.step, st, Blk.stepWrPre, Blk.stepWrTok, Blk.stepCmd8R, Blk.stepCmd58R,
      Blk.stepCmd9R, Blk.stepRdCmdR, Blk.stepWrCmdR]
    try split_ifs
    all_goals simp [st]
  case power | cmd0R | acmd41R | csdTok | rdTok | wrResp | wrBusy =>
    simp only [Advances, Blk.step, st, Blk.stepPower, Blk.stepCmd0R, Blk.stepAcmd41R,
      Blk.stepCsdTok, Blk.stepRdTok, Blk.stepWrResp, Blk.stepWrBusy]
    split_ifs
    all_goals simp [st]
    all_goals omega
  case dummy | csdDat | csdCrc | rdDat | rdCrc | wrDat | wrCrc =>
    simp only [Advances, Blk.step, st, Blk.stepDummy, Blk.stepCsdDat, Blk.stepCsdCrc,
      Blk.stepRdDat, Blk.stepRdCrc, Blk.stepWrDat, Blk.stepWrCrc]
    split_ifs
    all_goals simp [st]
    all_goals omega

theorem advances (placed : Placed b) (small : b.bcnt < 2 ^ 10) (busy : b.phase ≠ 0) :
    Advances p b req rx ms := by
  cases inside : b.st.helper with
  | true => exact advances_helper placed small inside
  | false => exact advances_state small inside busy

end Cases

end Visit

/-! ## Time

A byte takes less than a millisecond, whatever the clock. -/

namespace Params

/-- The clocks of a byte, the one that begins it and the two that end it. -/
def byteTime (div : ℕ) : ℕ :=
  16 * (div + 1) + 3

variable {p : Params}

theorem ticks_eq (period : 0 < p.clkPeriodPs) (high : p.clkPeriodPs ≤ 50000000) :
    p.ticks = 1000000000 / p.clkPeriodPs := by
  have most : 1000000000 / p.clkPeriodPs ≤ 1000000000 := Nat.div_le_self ..
  have least : 1000000000 / 50000000 ≤ 1000000000 / p.clkPeriodPs :=
    Nat.div_le_div_left high period
  unfold ticks lastTick
  omega

/-- Half a period of the card clock, in clocks, for a card clock of 400 kHz or faster. -/
theorem byteTime_le_ticks (period : 0 < p.clkPeriodPs) (high : p.clkPeriodPs ≤ 50000000) {half : ℕ}
    (some : 0 < half) (slow : half ≤ 1250000) :
    byteTime (((half + p.clkPeriodPs - 1) / p.clkPeriodPs - 1) % 2 ^ 16) ≤ p.ticks := by
  rw [ticks_eq period high, Nat.le_div_iff_mul_le (by omega)]
  have cut := Nat.mod_le ((half + p.clkPeriodPs - 1) / p.clkPeriodPs - 1) (2 ^ 16)
  have whole := Nat.div_mul_le_self (half + p.clkPeriodPs - 1) p.clkPeriodPs
  have one : 1 ≤ (half + p.clkPeriodPs - 1) / p.clkPeriodPs :=
    (Nat.one_le_div_iff (by omega)).mpr (by omega)
  have short : byteTime (((half + p.clkPeriodPs - 1) / p.clkPeriodPs - 1) % 2 ^ 16) ≤
      16 * ((half + p.clkPeriodPs - 1) / p.clkPeriodPs) + 3 := by
    unfold byteTime
    omega
  calc _ ≤ (16 * ((half + p.clkPeriodPs - 1) / p.clkPeriodPs) + 3) * p.clkPeriodPs :=
        Nat.mul_le_mul_right _ short
    _ = 16 * ((half + p.clkPeriodPs - 1) / p.clkPeriodPs * p.clkPeriodPs) +
        3 * p.clkPeriodPs := by
      rw [Nat.add_mul, Nat.mul_assoc]
    _ ≤ 1000000000 := by omega

end Params

theorem mod_mul_mod (m w z : ℕ) : m % w * z % (w * z) = m * z % (w * z) := by
  rw [Nat.mul_mod_mul_right, Nat.mul_mod_mul_right, Nat.mod_mod]

/-- The prescaler, the timer and the byte counter are within their ranges, and a byte within
a millisecond. -/
structure Ranged (p : Params) (b : Blk) : Prop where
  timed : b.Timed p
  pulse : b.msPulse = true → b.tickCnt = 0
  ms : b.ms < 2 ^ 16
  bcnt : b.bcnt < 2 ^ 10
  narrow : b.div < 2 ^ 16
  div : Params.byteTime b.div ≤ p.ticks

namespace Ranged

variable {p : Params} {b : Blk}

theorem tickMs (ranged : Ranged p b) : Ranged p (b.tickMs p) where
  timed := b.timed_tickMs p
  pulse on := by
    have late : p.lastTick ≤ b.tickCnt := by simpa [Blk.tickMs] using on
    simp [Blk.tickMs, late]
  ms := by
    have wrapped : (b.ms + 1) % 2 ^ 16 < 2 ^ 16 := Nat.mod_lt _ (by decide)
    simp only [Blk.tickMs]
    split
    · exact wrapped
    · exact ranged.ms
  bcnt := ranged.bcnt
  narrow := ranged.narrow
  div := ranged.div

theorem step (ranged : Ranged p b) (fast : Params.byteTime p.divFast ≤ p.ticks) (req : BlkReq)
    (rx : Byte) (ms : ℕ) : Ranged p (b.step p req rx ms) := by
  have left := leaves_step p b req rx ms
  refine ⟨?_, ?_, ?_, bcnt_step ranged.bcnt, ?_, ?_⟩
  · rw [Blk.Timed, left.tickCnt]
    exact ranged.timed
  · rw [left.tickCnt, left.msPulse]
    exact ranged.pulse
  · rcases left.ms with same | cleared
    · rw [same]
      exact ranged.ms
    · rw [cleared]
      exact Nat.two_pow_pos 16
  · rcases left.div with same | ⟨new, -⟩
    · rw [same]
      exact ranged.narrow
    · rw [new]
      exact Nat.mod_lt _ (by decide)
  · rcases left.div with same | ⟨new, -⟩
    · rw [same]
      exact ranged.div
    · rw [new]
      exact fast

/-- The timer counts every edge. -/
theorem elapsed_tickMs (ranged : Ranged p b) :
    (b.tickMs p).elapsed p % (2 ^ 16 * p.ticks) = (b.elapsed p + 1) % (2 ^ 16 * p.ticks) := by
  have timed : b.tickCnt ≤ p.lastTick := ranged.timed
  have narrow : p.lastTick < 2 ^ 32 := Nat.mod_lt _ (by decide)
  have prescaled : (if (b.tickMs p).msPulse then p.ticks else 0) + (b.tickMs p).tickCnt =
      b.tickCnt + 1 := by
    simp only [Blk.tickMs, Params.ticks, decide_eq_true_eq]
    split_ifs
    · omega
    · rw [Nat.mod_eq_of_lt (by omega)]
      omega
  have counted : (b.tickMs p).ms * p.ticks % (2 ^ 16 * p.ticks) =
      (b.ms * p.ticks + if b.msPulse then p.ticks else 0) % (2 ^ 16 * p.ticks) := by
    simp only [Blk.tickMs]
    split_ifs
    · rw [mod_mul_mod, Nat.succ_mul]
    · rw [Nat.add_zero]
  calc (b.tickMs p).elapsed p % (2 ^ 16 * p.ticks)
      = ((b.tickMs p).ms * p.ticks + (b.tickCnt + 1)) % (2 ^ 16 * p.ticks) := by
        rw [Blk.elapsed, Nat.add_assoc, prescaled]
    _ = ((b.ms * p.ticks + if b.msPulse then p.ticks else 0) + (b.tickCnt + 1)) %
          (2 ^ 16 * p.ticks) := by
        rw [Nat.add_mod, counted, ← Nat.add_mod]
    _ = (b.elapsed p + 1) % (2 ^ 16 * p.ticks) := by
        rw [Blk.elapsed, Nat.add_assoc _ b.tickCnt]

/-- What the timer shows is a millisecond short at most. -/
theorem elapsed_le (ranged : Ranged p b) : b.elapsed p ≤ (b.ms + 1) * p.ticks := by
  have timed : b.tickCnt ≤ p.lastTick := ranged.timed
  rw [Nat.succ_mul, Blk.elapsed, Nat.add_assoc]
  refine Nat.add_le_add_left ?_ _
  split
  · rename_i on
    rw [ranged.pulse on]
    exact Nat.le_refl _
  · unfold Params.ticks
    omega

theorem ms_of_elapsed (ranged : Ranged p b) {n : ℕ} (far : (n + 1) * p.ticks ≤ b.elapsed p) :
    n ≤ b.ms := by
  have within : (n + 1) * p.ticks ≤ (b.ms + 1) * p.ticks := Nat.le_trans far ranged.elapsed_le
  have := Nat.le_of_mul_le_mul_right within (Nat.succ_pos p.lastTick)
  omega

/-- Late in the timer's range the longest timeout has run out. -/
theorem late (ranged : Ranged p b) (far : 1001 * p.ticks ≤ b.elapsed p % (2 ^ 16 * p.ticks)) :
    1000 ≤ b.ms :=
  ranged.ms_of_elapsed (Nat.le_trans far (Nat.mod_le _ _))

end Ranged

/-! ## Waiting for a byte -/

namespace Spi

/-- The edges until a byte that is going out has been seen to be complete. -/
def wait (s : Spi) (div : ℕ) : ℕ :=
  (15 - (2 * s.bitCnt + s.sclk.toNat)) * (div + 1) + (div - s.cnt) + 2

/-- A byte that is going out is where its registers say. -/
structure Paced (s : Spi) (div : ℕ) : Prop where
  cnt : s.cnt ≤ div
  bit : s.bitCnt < 8

/-- Every edge brings it nearer to its end, or is its end. -/
theorem next_paced {s : Spi} {div : ℕ} (busy : s.run = true) (narrow : div < 2 ^ 16)
    (paced : s.Paced div) (go : Bool) (tx : Byte) (miso : Bool) :
    ((s.next div go tx miso).run = true ∧ (s.next div go tx miso).Paced div ∧
        (s.next div go tx miso).wait div < s.wait div) ∨
      ((s.next div go tx miso).run = false ∧ (s.next div go tx miso).done = true) := by
  obtain ⟨cnt, bit⟩ := paced
  simp only [next, busy, Bool.not_true, Bool.false_eq_true, if_false]
  split_ifs with early low last
  · have small : (s.cnt + 1) % 2 ^ 16 = s.cnt + 1 := Nat.mod_eq_of_lt (by omega)
    refine .inl ⟨rfl, ⟨by simp only [small]; omega, bit⟩, ?_⟩
    simp only [wait, small]
    omega
  · have full : s.cnt = div := by omega
    have off : s.sclk = false := by simpa using low
    have half : 15 - 2 * s.bitCnt = 15 - (2 * s.bitCnt + 1) + 1 := by omega
    refine .inl ⟨rfl, ⟨Nat.zero_le _, bit⟩, ?_⟩
    simp only [wait, full, off, Bool.toNat_false, Bool.toNat_true, Nat.add_zero]
    rw [half, Nat.succ_mul (15 - (2 * s.bitCnt + 1))]
    omega
  · exact .inr ⟨rfl, rfl⟩
  · have full : s.cnt = div := by omega
    have on : s.sclk = true := by simpa using low
    have small : (s.bitCnt + 1) % 2 ^ 3 = s.bitCnt + 1 := Nat.mod_eq_of_lt (by omega)
    have half : 15 - (2 * s.bitCnt + 1) = 15 - 2 * (s.bitCnt + 1) + 1 := by omega
    refine .inl ⟨rfl, ⟨Nat.zero_le _, by simp only [small]; omega⟩, ?_⟩
    simp only [wait, small, full, on, Bool.toNat_false, Bool.toNat_true, Nat.add_zero]
    rw [half, Nat.succ_mul (15 - 2 * (s.bitCnt + 1))]
    omega

end Spi

namespace Dev

/-- The edges until the sequencer's next visit. -/
def wait (d : Dev) : ℕ :=
  if d.blk.go then 16 * (d.blk.div + 1) + 2
  else if d.spi.run then d.spi.wait d.blk.div
  else if d.spi.done then 1
  else 0

/-- The transceiver is at rest when the sequencer hands it a byte, and has its place in one that
is going out. -/
structure Linked (d : Dev) : Prop where
  narrow : d.blk.div < 2 ^ 16
  go_rest : d.blk.go = true → d.spi.run = false ∧ d.spi.done = false
  run_paced : d.spi.run = true → d.spi.Paced d.blk.div

/-- The transceiver and the sequencer keep in step, and the one is at rest when the other is. -/
structure Paced (p : Params) (d : Dev) : Prop where
  ranged : Ranged p d.blk
  placed : Placed d.blk
  go_rest : d.blk.go = true → d.spi.run = false ∧ d.spi.done = false
  run_paced : d.spi.run = true → d.spi.Paced d.blk.div
  ready : d.blk.st = .ready → d.idle = true

variable {p : Params} {d : Dev}

theorem idle_iff : d.idle = true ↔ d.blk.go = false ∧ d.spi.run = false ∧ d.spi.done = false :=
  Blk.spiIdle_iff

/-- A visit has the transceiver to itself. -/
theorem next_of_idle (idle : d.idle = true) (i : Input) :
    (d.next p i).blk = (d.blk.tickMs p).step p (d.req i) d.spi.shRx d.blk.ms ∧
      (d.next p i).spi.run = false ∧ (d.next p i).spi.done = false := by
  have visits : d.blk.spiIdle d.spi = true := idle
  obtain ⟨go, run, -⟩ := idle_iff.mp idle
  obtain ⟨run', done', -⟩ := Spi.next_of_rest run d.blk.div d.blk.go d.blk.tx i.miso
  exact ⟨by simp [next, Blk.next, visits], run'.trans go, done'⟩

theorem next_of_busy (busy : d.idle = false) (i : Input) :
    (d.next p i).blk = d.blk.tickMs p := by
  have waits : d.blk.spiIdle d.spi = false := busy
  simp [next, Blk.next, waits]

/-- An edge that is no visit: the transceiver comes nearer to rest. -/
theorem Linked.busy_next (linked : Linked d) (busy : d.idle = false) (i : Input) :
    ((d.next p i).spi.run = true → (d.next p i).spi.Paced d.blk.div) ∧
      (d.next p i).wait < d.wait := by
  have same := next_of_busy (p := p) busy i
  have still : (d.next p i).blk.go = false := by rw [same]; rfl
  have div : (d.next p i).blk.div = d.blk.div := by rw [same]; rfl
  cases go : d.blk.go with
  | true =>
      have off := (linked.go_rest go).1
      have begun : (d.next p i).spi =
          { d.spi with sclk := false, cnt := 0, done := false, shTx := d.blk.tx, bitCnt := 0,
                       run := true } := by
        simp [next, Spi.next, off, go]
      refine ⟨fun _ => ⟨by simp [begun], by simp [begun]⟩, ?_⟩
      simp only [wait, still, go, div, begun, Spi.wait, Bool.false_eq_true, if_false, if_true,
        Bool.toNat_false]
      omega
  | false =>
      cases run : d.spi.run with
      | true =>
          have moved := Spi.next_paced run linked.narrow (linked.run_paced run) d.blk.go
            d.blk.tx i.miso
          have named : (d.next p i).spi = d.spi.next d.blk.div d.blk.go d.blk.tx i.miso := rfl
          rw [← named] at moved
          rcases moved with ⟨on, there, nearer⟩ | ⟨off, done⟩
          · refine ⟨fun _ => there, ?_⟩
            simpa [wait, still, div, go, run, on] using nearer
          · refine ⟨fun on => by simp [off] at on, ?_⟩
            simp [wait, still, go, run, off, done, Spi.wait]
      | false =>
          obtain ⟨run', done', -⟩ := Spi.next_of_rest run d.blk.div d.blk.go d.blk.tx i.miso
          have off : (d.next p i).spi.run = false := run'.trans go
          have ended : (d.next p i).spi.done = false := done'
          have done : d.spi.done = true := by
            simpa [idle, Blk.spiIdle, go, run] using busy
          refine ⟨fun on => by simp [off] at on, ?_⟩
          simp [wait, still, go, run, off, ended, done]

theorem Linked.next (linked : Linked d) (i : Input) : Linked (d.next p i) := by
  cases idle : d.idle with
  | true =>
      obtain ⟨moved, run, done⟩ := next_of_idle (p := p) idle i
      refine ⟨?_, fun _ => ⟨run, done⟩, fun on => by simp [run] at on⟩
      rw [moved]
      rcases (leaves_step p (d.blk.tickMs p) (d.req i) d.spi.shRx d.blk.ms).div with same | ⟨fast, -⟩
      · rw [same]
        exact linked.narrow
      · rw [fast]
        exact Nat.mod_lt _ (by decide)
  | false =>
      have same := next_of_busy (p := p) idle i
      refine ⟨?_, fun on => ?_, ?_⟩
      · rw [same]
        exact linked.narrow
      · rw [same] at on
        exact absurd on (by simp [Blk.tickMs])
      · rw [same]
        exact (linked.busy_next idle i).1

theorem linked_run (p : Params) (input : ℕ → Input) (t : ℕ) : Linked (run p input t) := by
  induction t with
  | zero =>
      refine ⟨Nat.mod_lt _ (by decide), ?_, ?_⟩ <;> simp [run, reset, Blk.reset]
  | succ t ih =>
      rw [run_succ]
      exact ih.next (input t)

theorem Linked.wait_lt (linked : Linked d) : d.wait < 2 ^ 21 := by
  have narrow := linked.narrow
  unfold wait
  split_ifs
  · omega
  · have less : (15 - (2 * d.spi.bitCnt + d.spi.sclk.toNat)) * (d.blk.div + 1) ≤
        15 * (d.blk.div + 1) := Nat.mul_le_mul_right _ (Nat.sub_le _ _)
    unfold Spi.wait
    omega
  · decide
  · decide

theorem Paced.linked (paced : Paced p d) : Linked d :=
  ⟨paced.ranged.narrow, paced.go_rest, paced.run_paced⟩

theorem Paced.next (paced : Paced p d) (fast : Params.byteTime p.divFast ≤ p.ticks) (i : Input) :
    Paced p (d.next p i) := by
  cases idle : d.idle with
  | true =>
      obtain ⟨moved, run, done⟩ := next_of_idle (p := p) idle i
      have placed := paced.placed.tickMs (p := p)
      refine ⟨?_, ?_, fun _ => ⟨run, done⟩, fun on => by simp [run] at on, fun rest => ?_⟩
      · rw [moved]
        exact paced.ranged.tickMs.step fast _ _ _
      · rw [moved]
        exact placed_step placed
      · rw [moved] at rest
        have still := (ready_entered (d.blk.quiet_tickMs p) placed rest).1
        rw [← moved] at still
        exact idle_iff.mpr ⟨still, run, done⟩
  | false =>
      have same := next_of_busy (p := p) idle i
      refine ⟨?_, ?_, fun on => ?_, ?_, fun rest => ?_⟩
      · rw [same]
        exact paced.ranged.tickMs
      · rw [same]
        exact paced.placed.tickMs
      · rw [same] at on
        exact absurd on (by simp [Blk.tickMs])
      · rw [same]
        exact (paced.linked.busy_next idle i).1
      · rw [same] at rest
        exact absurd (paced.ready rest) (by simp [idle])

theorem Paced.wait_lt (paced : Paced p d) : d.wait < p.ticks := by
  have byte := paced.ranged.div
  unfold Params.byteTime at byte
  have positive : 0 < p.ticks := Nat.succ_pos _
  unfold wait
  split_ifs
  · omega
  · have less : (15 - (2 * d.spi.bitCnt + d.spi.sclk.toNat)) * (d.blk.div + 1) ≤
        15 * (d.blk.div + 1) := Nat.mul_le_mul_right _ (Nat.sub_le _ _)
    unfold Spi.wait
    omega
  · omega
  · omega

/-! ## Runs -/

/-- What has to be counted down: visits first, and the edges until the next. -/
def rank (p : Params) (d : Dev) : ℕ :=
  d.blk.left * p.ticks + d.wait

theorem Paced.rank_lt (paced : Paced p d) : 1001 * p.ticks + d.rank p < 2 ^ 16 * p.ticks := by
  have visits : d.blk.left * p.ticks ≤ 12000 * p.ticks := Nat.mul_le_mul_right _ d.blk.left_le
  have waits := paced.wait_lt
  unfold rank
  omega

/-- One edge under the watch of the timer. -/
theorem Paced.advance (paced : Paced p d) {i : Input} (after : Paced p (d.next p i))
    (busy : d.blk.phase ≠ 0) :
    (d.next p i).blk.phase < d.blk.phase ∨
      (d.next p i).blk.phase = d.blk.phase ∧
        (d.next p i).blk.elapsed p % (2 ^ 16 * p.ticks) =
          (d.blk.elapsed p + 1) % (2 ^ 16 * p.ticks) ∧
        (1001 * p.ticks ≤ d.blk.elapsed p % (2 ^ 16 * p.ticks) →
          (d.next p i).rank p < d.rank p) := by
  have counted := paced.ranged.elapsed_tickMs
  cases idle : d.idle with
  | false =>
      have same := next_of_busy (p := p) idle i
      have nearer := (paced.linked.busy_next (p := p) idle i).2
      have left : (d.next p i).blk.left = d.blk.left := by rw [same]; rfl
      refine .inr ⟨by rw [same]; rfl, by rw [same]; exact counted, fun _ => ?_⟩
      rw [rank, rank, left]
      omega
  | true =>
      obtain ⟨moved, -⟩ := next_of_idle (p := p) idle i
      have kept := leaves_step p (d.blk.tickMs p) (d.req i) d.spi.shRx d.blk.ms
      have tickCnt := kept.tickCnt
      have msPulse := kept.msPulse
      have step : Advances p (d.blk.tickMs p) (d.req i) d.spi.shRx d.blk.ms :=
        advances paced.placed.tickMs paced.ranged.tickMs.bcnt busy
      rw [Advances] at step
      rw [← moved] at step tickCnt msPulse
      rcases step with ends | ⟨same, running, falls⟩
      · exact .inl ends
      · refine .inr ⟨same, ?_, fun far => ?_⟩
        · rw [← counted, Blk.elapsed, tickCnt, msPulse, running]
          rfl
        · have late := paced.ranged.late far
          have fewer : (d.next p i).blk.left + 1 ≤ d.blk.left := by
            rcases falls with lower | early
            · exact lower
            · omega
          have visits := Nat.mul_le_mul_right p.ticks fewer
          rw [Nat.succ_mul] at visits
          have waits := after.wait_lt
          unfold rank
          omega

section Run

variable {input : ℕ → Input}

theorem paced_run (period : 0 < p.clkPeriodPs) (high : p.clkPeriodPs ≤ 50000000) (input : ℕ → Input)
    (t : ℕ) : Paced p (run p input t) := by
  have slow : Params.byteTime p.divSlow ≤ p.ticks :=
    Params.byteTime_le_ticks period high (by decide) (Nat.le_refl _)
  have fast : Params.byteTime p.divFast ≤ p.ticks :=
    Params.byteTime_le_ticks period high (by decide) (by decide)
  induction t with
  | zero =>
      refine ⟨⟨Nat.zero_le _, ?_, ?_, ?_, Nat.mod_lt _ (by decide), slow⟩, placed_reset p, ?_, ?_,
        ?_⟩ <;> simp [run, reset, Blk.reset]
  | succ t ih =>
      rw [run_succ]
      exact ih.next fast (input t)

/-- From every cycle on, the sequencer comes to rest. -/
theorem comes_to_rest (paced : ∀ t, Paced p (run p input t)) (t : ℕ) :
    ∃ u, t ≤ u ∧ (run p input u).blk.phase = 0 :=
  Clocked.phases_end (fun u => (run p input u).blk.phase) (fun u => (run p input u).rank p)
    (fun u => (run p input u).blk.elapsed p)
    (fun u _ busy => (paced u).advance (paced (u + 1)) busy) (fun u => (paced u).rank_lt)

/-- The sequencer takes a request, at rest or dead. -/
def Taken (p : Params) (input : ℕ → Input) (t : ℕ) : Prop :=
  (input t).start = true ∧ (run p input t).idle = true ∧
    ((run p input t).blk.st = .ready ∨ (run p input t).blk.st = .dead)

variable {t : ℕ}

/-- Only the end of a request, and a request to a dead card, are answered. -/
theorem done_next (done : (run p input (t + 1)).blk.done = true) :
    (run p input t).idle = true ∧
      ((run p input t).blk.st = .finish ∨
        (run p input t).blk.st = .dead ∧ (input t).start = true) := by
  rw [run_succ] at done
  cases idle : (run p input t).idle with
  | false =>
      rw [next_of_busy idle] at done
      exact absurd done (by simp [Blk.tickMs])
  | true =>
      rw [(next_of_idle idle (input t)).1] at done
      refine ⟨rfl, ?_⟩
      by_cases finish : (run p input t).blk.st = .finish
      · exact .inl finish
      · by_cases dead : (run p input t).blk.st = .dead
        · refine .inr ⟨dead, ?_⟩
          by_contra none
          simp [Blk.step, Blk.tickMs, dead, Blk.stepDead, req, none] at done
        · have unfinished : ((run p input t).blk.tickMs p).st ≠ .finish := finish
          have alive : ((run p input t).blk.tickMs p).st ≠ .dead := dead
          rw [(leaves_step ..).done unfinished alive] at done
          exact absurd done (by simp [Blk.tickMs])

theorem finish_next (idle : (run p input t).idle = true)
    (finish : (run p input t).blk.st = .finish) :
    (run p input (t + 1)).blk.st = .ready ∧ (run p input (t + 1)).blk.done = true := by
  rw [run_succ, (next_of_idle idle (input t)).1]
  simp [Blk.step, Blk.tickMs, finish]

theorem dead_next (dead : (run p input t).blk.st = .dead) :
    (run p input (t + 1)).blk.st = .dead := by
  rw [run_succ]
  cases idle : (run p input t).idle with
  | false => rw [next_of_busy idle]; exact dead
  | true =>
      rw [(next_of_idle idle (input t)).1]
      simp only [Blk.step, Blk.tickMs, dead, Blk.stepDead]
      split <;> rfl

/-- A request is taken at once. -/
theorem ready_next (idle : (run p input t).idle = true) (rest : (run p input t).blk.st = .ready)
    (start : (input t).start = true) :
    (run p input (t + 1)).blk.st = if (input t).we then .wrCmd else .rdCmd := by
  rw [run_succ, (next_of_idle idle (input t)).1]
  simp [Blk.step, Blk.tickMs, rest, Blk.stepReady, req, start]

theorem free_of_dead {b : Blk} (dead : b.st = .dead) : b.free = true := by
  simp [Blk.free, Blk.place, dead, St.helper, St.up]

theorem free_of_ready {b : Blk} (rest : b.st = .ready) : b.free = true := by
  simp [Blk.free, rest]

/-- Work in progress has been asked for, and has not been answered yet. -/
theorem asked_of_busy (busy : (run p input t).blk.free = false) :
    ∃ s, s < t ∧ Taken p input s ∧ ∀ v, s < v → v ≤ t →
      (run p input v).blk.free = false ∧ (run p input v).blk.done = false := by
  induction t with
  | zero => simp [run, reset, Blk.reset, Blk.free, Blk.place, St.helper, St.up] at busy
  | succ t ih =>
      cases before : (run p input t).blk.free with
      | true =>
          have taken : Taken p input t := by
            by_contra none
            have still := free_next before fun idle start =>
              ⟨fun rest => none ⟨start, idle, .inl rest⟩, fun dead => none ⟨start, idle, .inr dead⟩⟩
            simp [still.1] at busy
          refine ⟨t, Nat.lt_succ_self t, taken, fun v later early => ?_⟩
          obtain rfl : v = t + 1 := by omega
          refine ⟨busy, ?_⟩
          by_contra answered
          rcases (done_next (by simpa using answered)).2 with finish | ⟨dead, -⟩
          · simp [Blk.free, Blk.place, finish, St.helper, St.up] at before
          · simp [free_of_dead (dead_next dead)] at busy
      | false =>
          obtain ⟨s, earlier, taken, since⟩ := ih before
          refine ⟨s, by omega, taken, fun v later early => ?_⟩
          rcases Nat.lt_or_ge t v with last | inside
          · obtain rfl : v = t + 1 := by omega
            refine ⟨busy, ?_⟩
            by_contra answered
            obtain ⟨idle, finish | ⟨dead, -⟩⟩ := done_next (by simpa using answered)
            · simp [free_of_ready (finish_next idle finish).1] at busy
            · simp [free_of_dead dead] at before
          · exact since v later inside

/-- Every answer has its own request. -/
theorem asked_of_done (done : (run p input t).blk.done = true) :
    ∃ s, s < t ∧ Taken p input s ∧ ∀ v, s < v → v < t →
      ¬ Taken p input v ∧ (run p input v).blk.done = false := by
  cases t with
  | zero => exact absurd done (by simp [run, reset, Blk.reset])
  | succ t =>
      obtain ⟨idle, finish | ⟨dead, start⟩⟩ := done_next done
      · have busy : (run p input t).blk.free = false := by
          simp [Blk.free, Blk.place, finish, St.helper, St.up]
        obtain ⟨s, earlier, taken, since⟩ := asked_of_busy busy
        refine ⟨s, by omega, taken, fun v later early => ?_⟩
        obtain ⟨working, silent⟩ := since v later (by omega)
        refine ⟨?_, silent⟩
        rintro ⟨-, -, rest | dead⟩
        · simp [free_of_ready rest] at working
        · simp [free_of_dead dead] at working
      · refine ⟨t, Nat.lt_succ_self t, ⟨start, idle, .inr dead⟩, fun v later early => ?_⟩
        omega

/-- The card stays ready. -/
theorem cardReady_mono {u : ℕ} (later : t ≤ u) (ready : (run p input t).blk.cardReady = true) :
    (run p input u).blk.cardReady = true := by
  induction u, later using Nat.le_induction with
  | base => exact ready
  | succ u later ih =>
      rw [run_succ]
      cases idle : (run p input u).idle with
      | false => rw [next_of_busy idle]; exact ih
      | true =>
          rw [(next_of_idle idle (input u)).1]
          by_contra lost
          have before := ready_step (placed_run input u).tickMs (by simpa using lost)
          have kept : ((run p input u).blk.tickMs p).cardReady = true := ih
          simp [kept] at before

/-- A request that the ready card was asked has one answer, and with it the card is ready
again. -/
theorem answer_follows (paced : ∀ t, Paced p (run p input t))
    (rest : (run p input t).blk.st = .ready) (start : (input t).start = true) :
    ∃ u, t + 1 < u ∧ (run p input u).blk.st = .ready ∧ (run p input u).blk.done = true ∧
      ∀ v, t < v → v < u → (run p input v).blk.st ≠ .ready ∧ (run p input v).blk.done = false := by
  have begun := ready_next ((paced t).ready rest) rest start
  have working : (run p input (t + 1)).blk.phase ≠ 0 := by
    rw [Blk.phase, Blk.place, begun]
    split <;> simp [St.helper, St.phase]
  obtain ⟨u, later, ended, before⟩ := Clocked.exists_first (comes_to_rest paced (t + 1))
  have busy : ∀ v, t < v → v < u →
      (run p input v).blk.st ≠ .ready ∧ (run p input v).blk.st ≠ .dead := by
    intro v low high
    have phase := before v low high
    constructor <;> (intro st; simp [Blk.phase, Blk.place, st, St.helper, St.phase] at phase)
  have up : ∀ v, t ≤ v → (run p input v).blk.place.up = true := by
    intro v low
    rw [← (paced v).placed.ready]
    refine cardReady_mono low ?_
    rw [(paced t).placed.ready, Blk.place_of_state (by rw [rest]; rfl), rest]
    rfl
  have back : (run p input u).blk.st = .ready := by
    refine (Blk.phase_eq_zero (paced u).placed ended).resolve_right fun dead => ?_
    have alive := up u (by omega)
    simp [Blk.place, dead, St.helper, St.up] at alive
  have beyond : t + 1 < u := by
    refine Nat.lt_of_le_of_ne later fun same => working ?_
    rw [same]
    exact ended
  obtain ⟨w, rfl⟩ : ∃ w, u = w + 1 := ⟨u - 1, by omega⟩
  refine ⟨w + 1, beyond, back, ?_, fun v low high => ⟨(busy v low high).1, ?_⟩⟩
  · have unready := (busy w (by omega) (Nat.lt_succ_self w)).1
    cases idle : (run p input w).idle with
    | false =>
        rw [run_succ, next_of_busy idle] at back
        exact absurd back unready
    | true =>
        have entered := back
        rw [run_succ, (next_of_idle idle (input w)).1] at entered
        have source := (ready_entered ((run p input w).blk.quiet_tickMs p)
          (paced w).placed.tickMs entered).2
        have finish : (run p input w).blk.st = .finish := by
          rcases source with early | finish | same
          · have alive := up w (by omega)
            rw [Blk.place, show (run p input w).blk.st = .csdCrc from early] at alive
            simp [St.helper, St.up] at alive
          · exact finish
          · exact absurd same unready
        exact (finish_next idle finish).2
  · by_contra answered
    obtain ⟨x, rfl⟩ : ∃ x, v = x + 1 := ⟨v - 1, by omega⟩
    obtain ⟨idle, finish | ⟨dead, -⟩⟩ := done_next (by simpa using answered)
    · exact (busy (x + 1) low high).1 (finish_next idle finish).1
    · rcases Nat.lt_or_ge t x with inside | first
      · exact (busy x inside (by omega)).2 dead
      · obtain rfl : x = t := by omega
        simp [rest] at dead

end Run

/-- The sequencer makes progress, whatever the card does. -/
structure Progress (p : Params) (input : ℕ → Input) : Prop where
  /-- Initialisation ends. -/
  settles : ∃ t, (run p input t).blk.st = .ready ∨ (run p input t).blk.st = .dead
  /-- At rest the transceiver is idle. -/
  rests : ∀ t, (run p input t).blk.st = .ready → (run p input t).idle = true
  /-- At rest a request is taken. -/
  takes : ∀ t, (run p input t).blk.st = .ready → (input t).start = true →
    (run p input (t + 1)).blk.st = if (input t).we then .wrCmd else .rdCmd
  /-- It is answered once, as the sequencer comes back to rest. -/
  answers : ∀ t, (run p input t).blk.st = .ready → (input t).start = true →
    ∃ u, t + 1 < u ∧ (run p input u).blk.st = .ready ∧ (run p input u).blk.done = true ∧
      ∀ v, t < v → v < u → (run p input v).blk.st ≠ .ready ∧ (run p input v).blk.done = false
  /-- Nothing else is answered: between an answer and the request it goes back to no other
  request is taken and no other answer given. -/
  asked : ∀ t, (run p input t).blk.done = true → ∃ s, s < t ∧ Taken p input s ∧
    ∀ v, s < v → v < t → ¬ Taken p input v ∧ (run p input v).blk.done = false

/-- For every clock from 20 ps to 1 us and every waveform on MISO. -/
theorem sequencer_progresses (p : Params) (low : 20 ≤ p.clkPeriodPs)
    (high : p.clkPeriodPs ≤ 1000000) (input : ℕ → Input) : Progress p input := by
  have paced := paced_run (p := p) (by omega) (by omega) input
  constructor
  · obtain ⟨t, -, ended⟩ := comes_to_rest paced 0
    exact ⟨t, Blk.phase_eq_zero (paced t).placed ended⟩
  · exact fun t rest => (paced t).ready rest
  · exact fun t rest start => ready_next ((paced t).ready rest) rest start
  · exact fun t rest start => answer_follows paced rest start
  · exact fun t done => asked_of_done done

/-- An empty slot, MISO pulled up, at 50 MHz. -/
theorem empty_slot_progresses : Progress {} fun _ => {} :=
  sequencer_progresses {} (by decide) (by decide) _

end Dev

end Wish5380.Sd
