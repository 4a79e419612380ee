import Mathlib.Algebra.Polynomial.Eval.Algebra
import Wish5380.Crc.Register

/-!
# What a check register catches

A message with errors in it is the message with an error pattern taken exclusive or, and the
register is linear: errors go unnoticed exactly when their pattern alone leaves the register
empty.  Patterns of odd weight do not if the generator has the root one, patterns no longer
than the register do not, and two errors do not unless they are as far apart as the generator's
order.
-/

namespace Crc

variable {w : ℕ} {g : BitVec w}

/-! ## Errors are a pattern of their own -/

theorem bit_xor (g r s : BitVec w) (d e : Bool) :
    bit g (r ^^^ s) (d ^^ e) = bit g r d ^^^ bit g s e := by
  have twice (a b : BitVec w) : a ^^^ b = a ^^^ g ^^^ (b ^^^ g) := by
    rw [BitVec.xor_assoc, BitVec.xor_comm g, BitVec.xor_assoc, BitVec.xor_self, BitVec.xor_zero]
  simp only [bit, BitVec.msb_xor, BitVec.shiftLeft_xor_distrib]
  cases r.msb <;> cases s.msb <;> cases d <;> cases e <;>
    simp [← twice, BitVec.xor_assoc, BitVec.xor_comm g]

theorem feed_xor (g r s : BitVec w) {a b : List Bool} (same : a.length = b.length) :
    feed g (r ^^^ s) (List.zipWith xor a b) = feed g r a ^^^ feed g s b := by
  induction a generalizing r s b with
  | nil =>
      obtain rfl : b = [] := List.length_eq_zero_iff.mp same.symm
      rfl
  | cons d a ih =>
      cases b with
      | nil => simp at same
      | cons e b =>
          rw [List.zipWith_cons_cons, feed_cons, bit_xor]
          exact ih _ _ (by simpa using same)

/-! ## Odd weight -/

section Parity

open Polynomial

theorem eval_ofBits (message : List Bool) :
    (ofBits message).eval 1 = ((message.count true : ℕ) : ZMod 2) := by
  induction message using List.reverseRecOn with
  | nil => simp [ofBits]
  | append_singleton message d ih =>
      have last : ofBits (message ++ [d]) = X * ofBits message + if d then 1 else 0 := by
        simp [ofBits]
      rw [last, eval_add, eval_mul, eval_X, ih, List.count_append]
      cases d <;> simp

/-- If one is a root of the generator, only an even number of errors leaves the register empty. -/
theorem even_of_feed_eq_zero (root : (generator g).eval 1 = 0) {message : List Bool}
    (empty : feed g 0 message = 0) : Even (message.count true) := by
  have none : (ofBits message * X ^ w) %ₘ generator g = 0 := by
    rw [← toPoly_feed, empty, toPoly_zero]
  obtain ⟨q, product⟩ := (modByMonic_eq_zero_iff_dvd (monic_generator g)).mp none
  have value := congrArg (eval 1) product
  rw [eval_mul, eval_mul, eval_pow, eval_X, one_pow, mul_one, root, zero_mul, eval_ofBits] at value
  exact ZMod.natCast_eq_zero_iff_even.mp value

end Parity

/-! ## Bursts -/

theorem feed_zeros (g : BitVec w) (n : ℕ) : feed g 0 (List.replicate n false) = 0 := by
  induction n with
  | zero => rfl
  | succ n ih =>
      have still : bit g 0 false = 0 := by simp [bit]
      rw [List.replicate_succ, feed_cons, still, ih]

/-- What zeros before and after an error do not hide. -/
theorem feed_padded (odd : g.getLsbD 0 = true) {n k : ℕ} {message : List Bool}
    (empty : feed g 0 (List.replicate n false ++ message ++ List.replicate k false) = 0) :
    feed g 0 message = 0 := by
  rw [feed_append, feed_append, feed_zeros] at empty
  exact feed_injective odd (List.replicate k false) (empty.trans (feed_zeros g k).symm)

theorem exists_bits {l : List Bool} (full : l.length = w) : ∃ x : BitVec w, bits x = l := by
  subst full
  refine ⟨BitVec.ofBoolListBE l, ?_⟩
  apply List.ext_getElem
  · simp
  · intro i _ inside
    simp [bits, inside]

theorem eq_replicate_of_not_mem {l : List Bool} (none : true ∉ l) :
    l = List.replicate l.length false := by
  refine List.eq_replicate_of_mem fun d member => ?_
  cases d with
  | false => rfl
  | true => exact absurd member none

/-- Errors within the length of the register are caught. -/
theorem burst_caught (odd : g.getLsbD 0 = true) {message : List Bool} (long : w ≤ message.length)
    {i : ℕ} (within : ∀ j, message[j]? = some true → i ≤ j ∧ j < i + w) (some : true ∈ message) :
    feed g 0 message ≠ 0 := by
  intro empty
  obtain ⟨n, low, high, room⟩ : ∃ n, n ≤ i ∧ (n = i ∨ n + w = message.length) ∧
      n + w ≤ message.length := by
    rcases Nat.le_total (i + w) message.length with fits | late
    · exact ⟨i, Nat.le_refl i, .inl rfl, fits⟩
    · exact ⟨message.length - w, by omega, .inr (by omega), by omega⟩
  have parts : message = message.take n ++ (message.drop n).take w ++ message.drop (n + w) := by
    rw [← List.drop_drop, List.append_assoc, List.take_append_drop, List.take_append_drop]
  have before : true ∉ message.take n := by
    intro member
    obtain ⟨j, inside, here⟩ := List.getElem_of_mem member
    rw [List.getElem_take] at here
    have place := within j (by rw [← here]; exact List.getElem?_eq_getElem _)
    simp only [List.length_take] at inside
    omega
  have after : true ∉ message.drop (n + w) := by
    intro member
    obtain ⟨j, inside, here⟩ := List.getElem_of_mem member
    rw [List.getElem_drop] at here
    have place := within (n + w + j) (by rw [← here]; exact List.getElem?_eq_getElem _)
    simp only [List.length_drop] at inside
    omega
  have width : ((message.drop n).take w).length = w := by
    simp only [List.length_take, List.length_drop]
    omega
  obtain ⟨x, window⟩ := exists_bits width
  rw [parts, eq_replicate_of_not_mem before, eq_replicate_of_not_mem after, ← window] at empty
  have clear : x = 0 := (feed_eq_zero_iff odd 0 x).mp (feed_padded odd empty)
  rw [parts, eq_replicate_of_not_mem before, eq_replicate_of_not_mem after, ← window, clear] at some
  simp [bits] at some

/-! ## Two errors -/

theorem exists_first_error {message : List Bool} (some : 0 < message.count true) :
    ∃ n rest, message = List.replicate n false ++ true :: rest ∧
      rest.count true + 1 = message.count true := by
  induction message with
  | nil => simp at some
  | cons d message ih =>
      cases d with
      | true => exact ⟨0, message, rfl, by simp⟩
      | false =>
          obtain ⟨n, rest, split, fewer⟩ := ih (by simpa using some)
          refine ⟨n + 1, rest, ?_, by simpa using fewer⟩
          rw [split, List.replicate_succ, List.cons_append]

/-- Zeros turn the register round; it stays clear of `target` for `n` of them. -/
def clearOf (g target : BitVec w) : BitVec w → ℕ → Bool
  | _, 0 => true
  | r, n + 1 => decide (r ≠ target) && clearOf g target (bit g r false) n

theorem clearOf_spec {target r : BitVec w} {n k : ℕ} (clear : clearOf g target r n = true)
    (below : k < n) : feed g r (List.replicate k false) ≠ target := by
  induction n generalizing r k with
  | zero => omega
  | succ n ih =>
      simp only [clearOf, Bool.and_eq_true, decide_eq_true_eq] at clear
      cases k with
      | zero => exact clear.1
      | succ k =>
          rw [List.replicate_succ, feed_cons]
          exact ih clear.2 (by omega)

/-- Two errors are caught unless the first has turned into the `target` that the second takes
off the register. -/
theorem pair_caught (odd : g.getLsbD 0 = true) {target : BitVec w} (last : bit g target true = 0)
    {n : ℕ} (clear : clearOf g target (bit g 0 true) n = true) {message : List Bool}
    (short : message.length ≤ n + 1) (two : message.count true = 2) : feed g 0 message ≠ 0 := by
  intro empty
  have first : 0 < message.count true := by omega
  obtain ⟨i, rest, rfl, one⟩ := exists_first_error first
  have second : 0 < rest.count true := by omega
  obtain ⟨k, after, rfl, none⟩ := exists_first_error second
  have trailing : after = List.replicate after.length false :=
    eq_replicate_of_not_mem (List.count_eq_zero.mp (by omega))
  have pair : feed g 0 (true :: (List.replicate k false ++ [true])) = 0 := by
    refine feed_padded odd (n := i) (k := after.length) ?_
    rw [← trailing]
    simpa using empty
  rw [feed_cons, feed_append, feed_cons, feed_nil] at pair
  have turned := bit_injective odd true (pair.trans last.symm)
  refine clearOf_spec clear (k := k) ?_ turned
  simp only [List.length_append, List.length_cons, List.length_replicate] at short
  omega

end Crc
