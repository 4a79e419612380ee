import Mathlib.Data.BitVec
import Mathlib.Algebra.Polynomial.Div
import Mathlib.Algebra.CharP.Two
import Mathlib.Algebra.Field.ZMod

/-!
# Check registers

A check register of `w` bits is shifted once for each bit of a message, the most
significant first, and has the generator `g` taken off when a one falls out.  What it
holds in the end is the remainder of the message, moved up by `w` places, on division by
the generator polynomial `X ^ w + g`.
-/

namespace Crc

variable {w : ℕ}

/-- One bit of the message. -/
def bit (g r : BitVec w) (d : Bool) : BitVec w :=
  if r.msb ^^ d then (r <<< 1) ^^^ g else r <<< 1

/-- A whole message. -/
def feed (g r : BitVec w) (message : List Bool) : BitVec w :=
  message.foldl (bit g) r

/-- The bits of a word, the most significant first. -/
def bits (r : BitVec w) : List Bool :=
  (List.range w).map fun i => r.getMsbD i

@[simp] theorem feed_nil (g r : BitVec w) : feed g r [] = r :=
  rfl

@[simp] theorem feed_cons (g r : BitVec w) (d : Bool) (message : List Bool) :
    feed g r (d :: message) = feed g (bit g r d) message :=
  rfl

theorem feed_append (g r : BitVec w) (message more : List Bool) :
    feed g r (message ++ more) = feed g (feed g r message) more :=
  List.foldl_append

/-- Fed word by word, or all the words as one message. -/
theorem foldl_feed {α : Type*} (g : BitVec w) (word : α → List Bool) (r : BitVec w)
    (data : List α) :
    data.foldl (fun r d => feed g r (word d)) r = feed g r (data.flatMap word) := by
  induction data generalizing r with
  | nil => rfl
  | cons d data ih => rw [List.foldl_cons, ih, List.flatMap_cons, feed_append]

@[simp] theorem length_bits (r : BitVec w) : (bits r).length = w := by
  simp [bits]

theorem bits_append {v : ℕ} (a : BitVec v) (b : BitVec w) : bits (a ++ b) = bits a ++ bits b := by
  apply List.ext_getElem
  · simp
  · intro i _ inside
    rw [List.getElem_append]
    rcases Nat.lt_or_ge i v with high | low
    · simp [bits, high, BitVec.getMsbD_append]
    · simp [bits, BitVec.getMsbD_append, Nat.not_lt.mpr low]

/-! ## The register checks itself -/

/-- A generator with a constant term loses nothing. -/
theorem bit_injective {g : BitVec w} (odd : g.getLsbD 0 = true) (d : Bool) :
    Function.Injective fun r => bit g r d := by
  intro r s same
  replace same : bit g r d = bit g s d := same
  have width : 0 < w := by
    by_contra none
    obtain rfl : w = 0 := by omega
    simp [BitVec.of_length_zero] at odd
  have low (q : BitVec w) : (bit g q d).getLsbD 0 = (q.msb ^^ d) := by
    unfold bit
    split <;> simp_all
  have top : r.msb = s.msb := by
    have lows : (r.msb ^^ d) = (s.msb ^^ d) := by rw [← low r, ← low s, same]
    simpa using lows
  have rest : r <<< 1 = s <<< 1 := by
    simp only [bit, top] at same
    split at same
    · simpa using same
    · exact same
  apply BitVec.eq_of_getLsbD_eq
  intro i inside
  rcases Nat.lt_or_ge (i + 1) w with below | last
  · have moved := congrArg (fun q => BitVec.getLsbD q (i + 1)) rest
    simpa [below, BitVec.getLsbD_eq_getElem inside] using moved
  · obtain rfl : i = w - 1 := by omega
    simpa [BitVec.msb_eq_getLsbD_last] using top

theorem feed_injective {g : BitVec w} (odd : g.getLsbD 0 = true) (message : List Bool) :
    Function.Injective fun r => feed g r message := by
  induction message with
  | nil => exact fun _ _ same => same
  | cons d message ih => exact fun _ _ same => bit_injective odd d (ih same)

/-- The register's own bits only shift it out. -/
theorem feed_take_bits (g r : BitVec w) (k : ℕ) : feed g r ((bits r).take k) = r <<< k := by
  induction k with
  | zero => simp
  | succ k ih =>
      rcases Nat.lt_or_ge k w with inside | outside
      · have top : (r <<< k).msb = r.getMsbD k := by simp [BitVec.msb_eq_getMsbD_zero]
        rw [List.take_add_one, feed_append, ih]
        simp [bits, inside, bit, top, BitVec.shiftLeft_add]
      · rw [List.take_of_length_le (by simp; omega), BitVec.shiftLeft_eq_zero (by omega)]
        rw [List.take_of_length_le (by simpa using outside), BitVec.shiftLeft_eq_zero outside] at ih
        exact ih

/-- After the register's own bits it is empty, and after no others. -/
theorem feed_eq_zero_iff {g : BitVec w} (odd : g.getLsbD 0 = true) (r check : BitVec w) :
    feed g r (bits check) = 0 ↔ check = r := by
  have own (s : BitVec w) : feed g s (bits s) = 0 := by
    have whole := feed_take_bits g s w
    rw [List.take_of_length_le (by simp)] at whole
    rw [whole]
    simp
  constructor
  · intro empty
    exact (feed_injective odd (bits check) (empty.trans (own check).symm)).symm
  · rintro rfl
    exact own check

/-! ## The register holds a remainder -/

open Polynomial

/-- A word as a polynomial. -/
noncomputable def toPoly (r : BitVec w) : (ZMod 2)[X] :=
  ∑ i ∈ Finset.range w, if r.getLsbD i then X ^ i else 0

/-- A message as a polynomial: its last bit is the constant term. -/
noncomputable def ofBits (message : List Bool) : (ZMod 2)[X] :=
  message.foldl (fun q d => X * q + if d then 1 else 0) 0

/-- The polynomial a register divides by. -/
noncomputable def generator (g : BitVec w) : (ZMod 2)[X] :=
  X ^ w + toPoly g

theorem toPoly_zero : toPoly (0 : BitVec w) = 0 := by
  simp [toPoly]

theorem toPoly_xor (a b : BitVec w) : toPoly (a ^^^ b) = toPoly a + toPoly b := by
  unfold toPoly
  rw [← Finset.sum_add_distrib]
  apply Finset.sum_congr rfl
  intro i _
  cases high : a.getLsbD i <;> cases low : b.getLsbD i <;>
    simp [high, low, CharTwo.add_self_eq_zero]

/-- A shift multiplies, but for the bit that falls out. -/
theorem toPoly_shiftLeft_one (r : BitVec w) :
    X * toPoly r = toPoly (r <<< 1) + if r.msb then X ^ w else 0 := by
  cases w with
  | zero => simp [toPoly, BitVec.of_length_zero]
  | succ n =>
      have kept : toPoly (r <<< 1) =
          ∑ i ∈ Finset.range n, if r.getLsbD i then X ^ (i + 1) else 0 := by
        rw [toPoly, Finset.sum_range_succ']
        simp only [BitVec.getLsbD_shiftLeft, Nat.zero_lt_one, decide_true,
          Bool.not_true, Bool.and_false, Bool.false_and, Bool.false_eq_true, if_false, add_zero]
        apply Finset.sum_congr rfl
        intro i inside
        simp [Finset.mem_range.mp inside]
      rw [kept, toPoly, Finset.sum_range_succ, mul_add, Finset.mul_sum, BitVec.msb_eq_getLsbD_last]
      congr 1
      · apply Finset.sum_congr rfl
        intro i _
        split <;> simp [pow_succ']
      · simp [pow_succ']

theorem toPoly_bit (g r : BitVec w) (d : Bool) :
    X * toPoly r + (if d then X ^ w else 0) =
      toPoly (bit g r d) + generator g * if r.msb ^^ d then 1 else 0 := by
  have double (q : (ZMod 2)[X]) : q + q = 0 := CharTwo.add_self_eq_zero q
  rw [toPoly_shiftLeft_one]
  cases top : r.msb <;> cases d <;> simp [bit, top, toPoly_xor, generator, add_assoc]
  · rw [add_left_comm (toPoly g), double, add_zero]
  · rw [add_left_comm (toPoly g), double, add_zero]
  · rw [double]

theorem degree_toPoly_lt (r : BitVec w) : (toPoly r).degree < w := by
  refine (degree_sum_le _ _).trans_lt ?_
  refine (Finset.sup_lt_iff (WithBot.bot_lt_coe w)).mpr ?_
  intro i inside
  split
  · rw [degree_X_pow]
    exact WithBot.coe_lt_coe.mpr (Finset.mem_range.mp inside)
  · rw [degree_zero]
    exact WithBot.bot_lt_coe w

theorem monic_generator (g : BitVec w) : (generator g).Monic :=
  monic_X_pow_add (degree_toPoly_lt g)

theorem degree_generator (g : BitVec w) : (generator g).degree = w := by
  rw [generator, degree_add_eq_left_of_degree_lt]
  · exact degree_X_pow w
  · rw [degree_X_pow]
    exact degree_toPoly_lt g

/-- What is left in an empty register after a message is the message's remainder. -/
theorem toPoly_feed (g : BitVec w) (message : List Bool) :
    toPoly (feed g 0 message) = (ofBits message * X ^ w) %ₘ generator g := by
  have quotient : ∃ q, toPoly (feed g 0 message) + generator g * q = ofBits message * X ^ w := by
    induction message using List.reverseRecOn with
    | nil => exact ⟨0, by rw [feed_nil, toPoly_zero]; simp [ofBits]⟩
    | append_singleton message d ih =>
        obtain ⟨q, ih⟩ := ih
        refine ⟨X * q + (if (feed g 0 message).msb ^^ d then 1 else 0), ?_⟩
        have last := toPoly_bit g (feed g 0 message) d
        calc toPoly (feed g 0 (message ++ [d])) +
              generator g * (X * q + if (feed g 0 message).msb ^^ d then 1 else 0)
            = (toPoly (bit g (feed g 0 message) d) +
                generator g * if (feed g 0 message).msb ^^ d then 1 else 0) +
                X * (generator g * q) := by
              rw [feed_append, feed_cons, feed_nil]
              ring
          _ = X * (toPoly (feed g 0 message) + generator g * q) + if d then X ^ w else 0 := by
              rw [← last]
              ring
          _ = ofBits (message ++ [d]) * X ^ w := by
              rw [ih, ofBits, ofBits, List.foldl_append]
              cases d <;> simp <;> ring
  obtain ⟨q, whole⟩ := quotient
  refine (div_modByMonic_unique q _ (monic_generator g) ⟨whole, ?_⟩).2.symm
  rw [degree_generator]
  exact degree_toPoly_lt _

end Crc
