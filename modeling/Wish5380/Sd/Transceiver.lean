import Wish5380.Clocked.Run
import Wish5380.Sd.Exchange
import Mathlib.Algebra.Group.Nat.Even

/-!
# The transceiver by itself

`sd_spi` under arbitrary inputs.  A byte takes sixteen half periods of the card clock, low
and high in turn, each one clock more than the divider says: the byte on MOSI moves with the
falling edges, and MISO is sampled with the rising ones.
-/

namespace Wish5380.Sd

namespace Spi

/-- What `sd_spi` samples at an edge, beside the chip select it passes on. -/
structure Pins where
  rst : Bool := false
  div : BitVec 16 := 0
  go : Bool := false
  tx : Byte := 0
  miso : Bool := true

/-- One edge, the RESET pin included. -/
def clock (s : Spi) (i : Pins) : Spi :=
  if i.rst then {} else s.next i.div.toNat i.go i.tx i.miso

/-- A history of the transceiver. -/
def Clocks (x : ℕ → Spi) (pins : ℕ → Pins) : Prop :=
  ∀ t, x (t + 1) = (x t).clock (pins t)

/-- The one that begins with its reset. -/
def after (pins : ℕ → Pins) : ℕ → Spi :=
  Clocked.run clock {} pins

theorem clocks_after (pins : ℕ → Pins) : Clocks (after pins) pins :=
  fun _ => rfl

/-! ## At rest -/

/-- An edge that leaves no byte under way leaves the card clock low. -/
theorem sclk_next {s : Spi} {div : ℕ} {go miso : Bool} {tx : Byte}
    (rest : (s.next div go tx miso).run = false) : (s.next div go tx miso).sclk = false := by
  cases run : s.run with
  | false => cases go <;> simp [next, run]
  | true =>
      revert rest
      simp only [next, run, Bool.not_true, Bool.false_eq_true, if_false]
      split_ifs <;> simp

theorem sclk_clock {s : Spi} {i : Pins} (rest : (s.clock i).run = false) :
    (s.clock i).sclk = false := by
  cases rst : i.rst with
  | true => simp [clock, rst]
  | false =>
      simp only [clock, rst, Bool.false_eq_true, if_false] at rest ⊢
      exact sclk_next rest

theorem sclk_after (pins : ℕ → Pins) (t : ℕ) (rest : (after pins t).run = false) :
    (after pins t).sclk = false := by
  cases t with
  | zero => rfl
  | succ t => exact sclk_clock rest

/-! ## A byte under way -/

/-- The samples of MISO that a byte begun in cycle `t` takes. -/
def taken (pins : ℕ → Pins) (t d i : ℕ) : Bool :=
  (pins (t + (2 * i + 1) * (d + 1))).miso

/-- Clock `c` of half period `half`. -/
structure Halfway (pins : ℕ → Pins) (t d : ℕ) (half c : ℕ) (s : Spi) : Prop where
  run : s.run = true
  cnt : s.cnt = c
  bitCnt : s.bitCnt = half / 2
  shTx : s.shTx = window (pins t).tx 0xff (half / 2)
  sclk : s.sclk = decide (half % 2 = 1)
  done : s.done = false
  shRx : ∀ i < (half + 1) / 2, s.shRx.getLsbD ((half + 1) / 2 - 1 - i) = taken pins t d i

section Exchange

variable {pins : ℕ → Pins} {t d half c : ℕ} {s : Spi} {i : Pins}

theorem Halfway.mosi (halfway : Halfway pins t d half c s) (below : half < 16) :
    s.mosi = (pins t).tx.getLsbD (7 - half / 2) := by
  rw [Spi.mosi, halfway.run, if_pos rfl, halfway.shTx, window_top _ _ (by omega)]

theorem halfway_zero (rest : s.run = false) (rst : (pins t).rst = false)
    (go : (pins t).go = true) : Halfway pins t d 0 0 (s.clock (pins t)) := by
  constructor <;> simp [clock, next, rst, go, rest]

/-- Between two edges of the card clock only the counter moves. -/
theorem Halfway.wait (halfway : Halfway pins t d half c s) (below : c < d) (small : d < 2 ^ 16)
    (rst : i.rst = false) (div : i.div.toNat = d) : Halfway pins t d half (c + 1) (s.clock i) := by
  have still : s.clock i = { s with cnt := c + 1, done := false } := by
    simp [clock, rst, next, halfway.run, halfway.cnt, div, below]
    omega
  rw [still]
  exact { halfway with cnt := rfl, done := rfl }

/-- A rising edge takes a bit in. -/
theorem Halfway.rise (halfway : Halfway pins t d (2 * half) d s) (rst : i.rst = false)
    (div : i.div.toNat = d) (below : half < 8) (miso : i.miso = taken pins t d half) :
    Halfway pins t d (2 * half + 1) 0 (s.clock i) := by
  have low : s.sclk = false := by simp [halfway.sclk]
  have up : s.clock i =
      { s with cnt := 0, sclk := true, shRx := shift s.shRx i.miso, done := false } := by
    simp [clock, rst, next, halfway.run, halfway.cnt, div, low]
  have same : (2 * half + 1) / 2 = 2 * half / 2 := by omega
  rw [up]
  refine ⟨halfway.run, rfl, ?_, ?_, ?_, rfl, ?_⟩
  · rw [same]
    exact halfway.bitCnt
  · rw [same]
    exact halfway.shTx
  · simp
  · intro k inside
    have before := halfway.shRx k
    rw [getLsbD_shift _ _ _ (by omega)]
    split_ifs with last
    · obtain rfl : k = half := by omega
      exact miso
    · rw [← before (by omega)]
      congr 1
      omega

/-- A falling edge moves the next bit out. -/
theorem Halfway.fall (halfway : Halfway pins t d (2 * half + 1) d s) (rst : i.rst = false)
    (div : i.div.toNat = d) (below : half < 7) : Halfway pins t d (2 * half + 2) 0 (s.clock i) := by
  have high : s.sclk = true := by simp [halfway.sclk]
  have bit : s.bitCnt = half := by
    rw [halfway.bitCnt]
    omega
  have down : s.clock i =
      { s with cnt := 0, sclk := false, shTx := shift s.shTx true, bitCnt := half + 1,
               done := false } := by
    simp [clock, rst, next, halfway.run, halfway.cnt, div, high, bit, show half ≠ 7 by omega]
    omega
  have here : (2 * half + 1) / 2 = half := by omega
  have there : (2 * half + 2) / 2 = half + 1 := by omega
  rw [down]
  refine ⟨halfway.run, rfl, there.symm, ?_, ?_, rfl, ?_⟩
  · show shift s.shTx true = _
    rw [halfway.shTx, here, there, shift_ones _ (by omega)]
  · simp
  · intro k inside
    have kept := halfway.shRx k (by omega)
    rw [← kept]
    congr 1
    omega

/-- The last falling edge ends the byte. -/
theorem Halfway.last (halfway : Halfway pins t d 15 d s) (rst : i.rst = false)
    (div : i.div.toNat = d) : (s.clock i).run = false ∧ (s.clock i).sclk = false ∧
      (s.clock i).done = true ∧ (s.clock i).shRx = s.shRx := by
  have high : s.sclk = true := by simp [halfway.sclk]
  have bit : s.bitCnt = 7 := halfway.bitCnt
  simp [clock, rst, next, halfway.run, halfway.cnt, div, high, bit]

/-- What holds the lines of a byte begun in cycle `t`: no RESET, and a divider that stays. -/
structure Held (pins : ℕ → Pins) (t d : ℕ) : Prop where
  rst : ∀ k ≤ 16 * (d + 1), (pins (t + k)).rst = false
  div : ∀ k, 0 < k → k ≤ 16 * (d + 1) → (pins (t + k)).div.toNat = d

section Held

variable {x : ℕ → Spi} (held : Held pins t d)
include held

/-- The lines in clock `c` of half period `half`. -/
theorem Held.lines (below : half < 16) (short : c ≤ d) :
    (pins (t + (1 + half * (d + 1) + c))).rst = false ∧
      (pins (t + (1 + half * (d + 1) + c))).div.toNat = d := by
  have whole : (half + 1) * (d + 1) ≤ 16 * (d + 1) := Nat.mul_le_mul_right _ (by omega)
  rw [Nat.succ_mul] at whole
  exact ⟨held.rst _ (by omega), held.div _ (by omega) (by omega)⟩

theorem Held.small : d < 2 ^ 16 := by
  rw [← held.div 1 (by omega) (by omega)]
  exact BitVec.isLt _

variable (clocks : Clocks x pins)
include clocks

/-- One half period. -/
theorem Held.through (below : half < 16) (short : c ≤ d)
    (begins : Halfway pins t d half 0 (x (t + (1 + half * (d + 1))))) :
    Halfway pins t d half c (x (t + (1 + half * (d + 1) + c))) := by
  induction c with
  | zero => exact begins
  | succ c ih =>
      obtain ⟨rst, div⟩ := held.lines below (show c ≤ d by omega)
      rw [← Nat.add_assoc (1 + half * (d + 1)), ← Nat.add_assoc t, clocks]
      exact (ih (by omega)).wait (by omega) held.small rst div

/-- From one half period to the next. -/
theorem Held.advance (below : half < 15)
    (ends : Halfway pins t d half d (x (t + (1 + half * (d + 1) + d)))) :
    Halfway pins t d (half + 1) 0 (x (t + (1 + (half + 1) * (d + 1)))) := by
  obtain ⟨rst, div⟩ := held.lines (show half < 16 by omega) (Nat.le_refl d)
  have next : t + (1 + (half + 1) * (d + 1)) = t + (1 + half * (d + 1) + d) + 1 := by
    rw [Nat.succ_mul]
    omega
  rw [next, clocks]
  obtain ⟨k, rfl | rfl⟩ := Nat.even_or_odd' half
  · refine ends.rise rst div (by omega) ?_
    rw [taken, Nat.succ_mul (2 * k)]
    congr 3
    omega
  · exact ends.fall rst div (by omega)

theorem Held.halfway (rest : (x t).run = false) (go : (pins t).go = true)
    (below : half < 16) (short : c ≤ d) :
    Halfway pins t d half c (x (t + (1 + half * (d + 1) + c))) := by
  refine held.through clocks below short ?_
  clear short
  induction half with
  | zero =>
      rw [Nat.zero_mul, Nat.add_zero, clocks]
      exact halfway_zero rest (held.rst 0 (by omega)) go
  | succ half ih =>
      exact held.advance clocks (by omega) (held.through clocks (by omega) (Nat.le_refl d) (ih (by omega)))

end Held

end Exchange

/-! ## A byte -/

/-- The byte begun in cycle `t` with the divider at `d`, as the card and the sequencer see it. -/
structure Exact (x : ℕ → Spi) (pins : ℕ → Pins) (t d : ℕ) : Prop where
  /-- It takes sixteen half periods of `d + 1` clocks. -/
  busy : ∀ k < 16 * (d + 1), (x (t + 1 + k)).run = true ∧
    (x (t + 1 + k)).done = false
  /-- Eight pulses: each is low for a half period first, -/
  low : ∀ i < 8, ∀ c ≤ d, (x (t + 1 + 2 * i * (d + 1) + c)).sclk = false
  /-- and high for the other. -/
  high : ∀ i < 8, ∀ c ≤ d, (x (t + 1 + (2 * i + 1) * (d + 1) + c)).sclk = true
  /-- Each bit is on MOSI for both, the most significant first. -/
  mosi : ∀ i < 8, ∀ c < 2 * (d + 1),
    (x (t + 1 + 2 * i * (d + 1) + c)).mosi = (pins t).tx.getLsbD (7 - i)
  /-- After them the clock is low, and `done` is up with the transceiver at rest. -/
  ends : (x (t + 1 + 16 * (d + 1))).run = false ∧
    (x (t + 1 + 16 * (d + 1))).sclk = false ∧
    (x (t + 1 + 16 * (d + 1))).done = true
  /-- The byte received is what MISO was at the edges that raised the clock. -/
  received : ∀ i < 8, (x (t + 1 + 16 * (d + 1))).shRx.getLsbD (7 - i) =
    (pins (t + (2 * i + 1) * (d + 1))).miso
  /-- `done` stands for a single cycle. -/
  once : (x (t + 1 + 16 * (d + 1) + 1)).done = false

theorem clock_done {s : Spi} (rest : s.run = false) (i : Pins) : (s.clock i).done = false := by
  cases rst : i.rst with
  | true => simp [clock, rst]
  | false => cases go : i.go <;> simp [clock, next, rst, rest, go]

section Byte

variable {x : ℕ → Spi} {pins : ℕ → Pins} {t d : ℕ}

/-- Clock `k` of a byte belongs to one of its half periods. -/
theorem Held.halfway_div (held : Held pins t d) (clocks : Clocks x pins)
    (rest : (x t).run = false)
    (go : (pins t).go = true) {k : ℕ} (below : k < 16 * (d + 1)) :
    Halfway pins t d (k / (d + 1)) (k % (d + 1)) (x (t + 1 + k)) := by
  have early : k / (d + 1) < 16 := Nat.div_lt_of_lt_mul (by rwa [Nat.mul_comm] at below)
  have short : k % (d + 1) ≤ d := Nat.le_of_lt_succ (Nat.mod_lt k (Nat.succ_pos d))
  have halfway := held.halfway clocks rest go early short
  have split := Nat.div_add_mod' k (d + 1)
  rwa [show t + (1 + k / (d + 1) * (d + 1) + k % (d + 1)) = t + 1 + k by omega] at halfway

theorem Held.exact (held : Held pins t d) (clocks : Clocks x pins) (rest : (x t).run = false)
    (go : (pins t).go = true) : Exact x pins t d := by
  have clockOf {half c : ℕ} (below : half < 16) (short : c ≤ d) :
      Halfway pins t d half c (x (t + 1 + half * (d + 1) + c)) := by
    have halfway := held.halfway clocks rest go below short
    rwa [show t + (1 + half * (d + 1) + c) = t + 1 + half * (d + 1) + c by omega] at halfway
  have final : t + 1 + 16 * (d + 1) = t + (1 + 15 * (d + 1) + d) + 1 := by omega
  have whole := held.halfway clocks rest go (show 15 < 16 by omega) (Nat.le_refl d)
  obtain ⟨rst, div⟩ := held.lines (show 15 < 16 by omega) (Nat.le_refl d)
  obtain ⟨stops, low, done, shRx⟩ := whole.last rst div
  rw [← clocks, ← final] at stops low done shRx
  constructor
  case busy =>
    intro k below
    have halfway := held.halfway_div clocks rest go below
    exact ⟨halfway.run, halfway.done⟩
  case low =>
    intro i below c short
    rw [(clockOf (show 2 * i < 16 by omega) short).sclk]
    simp
  case high =>
    intro i below c short
    rw [(clockOf (show 2 * i + 1 < 16 by omega) short).sclk]
    simp
  case mosi =>
    intro i below c short
    rcases Nat.lt_or_ge c (d + 1) with first | second
    · rw [(clockOf (show 2 * i < 16 by omega) (Nat.le_of_lt_succ first)).mosi (by omega)]
      congr 2
      omega
    · have later : t + 1 + 2 * i * (d + 1) + c =
          t + 1 + (2 * i + 1) * (d + 1) + (c - (d + 1)) := by
        rw [Nat.succ_mul (2 * i)]
        omega
      rw [later, (clockOf (show 2 * i + 1 < 16 by omega) (by omega)).mosi (by omega)]
      congr 2
      omega
  case ends => exact ⟨stops, low, done⟩
  case received =>
    intro i below
    rw [shRx]
    exact whole.shRx i below
  case once =>
    rw [clocks]
    exact clock_done stops _

/-- Whatever happens on its pins, the transceiver at rest holds MOSI high and the card clock
low; and a byte begun at rest, with the divider held and RESET left alone until it is over, is
exact. -/
theorem exchanges_exactly (pins : ℕ → Pins) :
    (∀ t, (after pins t).run = false → (after pins t).mosi = true ∧ (after pins t).sclk = false) ∧
      ∀ t d, (after pins t).run = false → (pins t).go = true → Held pins t d →
        Exact (after pins) pins t d := by
  refine ⟨fun t rest => ⟨?_, sclk_after pins t rest⟩, fun t d rest go held => ?_⟩
  · rw [mosi, rest]
    rfl
  · exact held.exact (clocks_after pins) rest go

/-- The byte `0xa5` while `0x00` comes in, at half the speed of the clock. -/
theorem exchanged_exactly :
    let pins : ℕ → Pins := fun u => { div := 0, go := u == 0, tx := 0xa5, miso := false }
    Exact (after pins) pins 0 0 :=
  (exchanges_exactly _).2 0 0 rfl rfl ⟨fun _ _ => rfl, fun _ _ _ => rfl⟩

end Byte

end Spi

end Wish5380.Sd
