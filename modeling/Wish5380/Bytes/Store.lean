import Mathlib.Data.BitVec
import Mathlib.Logic.Function.Basic

/-!
# Bytes in memory

A memory is a function of an address.  A list stored at an address goes to that address and the
ones after it, and the addresses wrap around.
-/

namespace Wish5380.Bytes

variable {w : ℕ} {β : Type*}

/-- The list in consecutive places. -/
def store (m : BitVec w → β) (a : BitVec w) : List β → BitVec w → β
  | [] => m
  | b :: bs => store (Function.update m a b) (a + 1) bs

@[simp] theorem store_nil (m : BitVec w → β) (a : BitVec w) : store m a [] = m := rfl

theorem add_succ_ofNat (a : BitVec w) (k : ℕ) :
    a + BitVec.ofNat w (k + 1) = a + 1 + BitVec.ofNat w k := by
  rw [Nat.add_comm k 1, BitVec.ofNat_add, ← BitVec.add_assoc]
  rfl

theorem store_append (m : BitVec w → β) (a : BitVec w) (bs cs : List β) :
    store m a (bs ++ cs) = store (store m a bs) (a + BitVec.ofNat w bs.length) cs := by
  induction bs generalizing m a with
  | nil => simp
  | cons b bs ih => rw [List.cons_append, store, ih, store, List.length_cons, add_succ_ofNat]

theorem store_other (m : BitVec w → β) (a x : BitVec w) (bs : List β)
    (away : ∀ k < bs.length, x ≠ a + BitVec.ofNat w k) : store m a bs x = m x := by
  induction bs generalizing m a with
  | nil => rfl
  | cons b bs ih =>
      have first : x ≠ a := by simpa using away 0 (Nat.succ_pos _)
      have later (k : ℕ) (low : k < bs.length) : x ≠ a + 1 + BitVec.ofNat w k := by
        rw [← add_succ_ofNat]
        exact away (k + 1) (Nat.succ_lt_succ low)
      rw [store, ih _ _ later, Function.update_of_ne first]

/-- Two places of a list that fits are two addresses. -/
theorem ofNat_ne {i j : ℕ} (low : i < 2 ^ w) (low' : j < 2 ^ w) (other : i ≠ j) (a : BitVec w) :
    a + BitVec.ofNat w i ≠ a + BitVec.ofNat w j := by
  intro same
  have equal := congrArg BitVec.toNat ((BitVec.add_right_inj a).mp same)
  rw [BitVec.toNat_ofNat, BitVec.toNat_ofNat, Nat.mod_eq_of_lt low, Nat.mod_eq_of_lt low'] at equal
  exact other equal

theorem store_get (m : BitVec w → β) (a : BitVec w) (bs : List β) (fits : bs.length ≤ 2 ^ w)
    (k : ℕ) (low : k < bs.length) : store m a bs (a + BitVec.ofNat w k) = bs[k] := by
  induction bs generalizing m a k with
  | nil => simp at low
  | cons b bs ih =>
      rw [List.length_cons] at fits low
      cases k with
      | zero =>
          have away (k : ℕ) (low : k < bs.length) : a ≠ a + 1 + BitVec.ofNat w k := by
            rw [← add_succ_ofNat]
            nth_rewrite 1 [← BitVec.add_zero a]
            exact ofNat_ne (by omega) (by omega) (by omega) a
          have start : a + BitVec.ofNat w 0 = a := BitVec.add_zero a
          rw [store, start, store_other _ _ _ _ away, Function.update_self]
          rfl
      | succ k =>
          rw [store, add_succ_ofNat, ih _ _ (by omega) k (by omega)]
          rfl

end Wish5380.Bytes
