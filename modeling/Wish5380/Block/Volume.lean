import Mathlib.Logic.Function.Basic
import Wish5380.Bus.Wires

/-!
# A volume of blocks

What READ and WRITE are for, on a medium some of whose blocks are bad: the blocks are taken one
after another, and the first bad one ends the command.
-/

namespace Wish5380.Block

/-- The blocks of a medium by their numbers. -/
abbrev Blocks :=
  BitVec 32 → BitVec 9 → Byte

/-- The bytes of a block in order. -/
def sector (m : BitVec 9 → Byte) : List Byte :=
  (List.range 512).map fun k => m (BitVec.ofNat 9 k)

/-- A block of the first 512 bytes of a list. -/
def ofBytes (bytes : List Byte) (a : BitVec 9) : Byte :=
  bytes.getD a.toNat 0

/-- The bad block that ends a command for `n` blocks. -/
def stop (bad : BitVec 32 → Bool) (lba : BitVec 32) : ℕ → Option (BitVec 32)
  | 0 => none
  | n + 1 => if bad lba then some lba else stop bad (lba + 1) n

/-- How many blocks it asks for. -/
def asked (bad : BitVec 32 → Bool) (lba : BitVec 32) : ℕ → ℕ
  | 0 => 0
  | n + 1 => if bad lba then 1 else asked bad (lba + 1) n + 1

/-- What a READ delivers. -/
def readOut (bad : BitVec 32 → Bool) (d : Blocks) (lba : BitVec 32) : ℕ → List Byte
  | 0 => []
  | n + 1 => if bad lba then [] else sector (d lba) ++ readOut bad d (lba + 1) n

/-- What a WRITE of `bytes` makes of the medium. -/
def writeIn (bad : BitVec 32 → Bool) (bytes : List Byte) (d : Blocks) (lba : BitVec 32) :
    ℕ → Blocks
  | 0 => d
  | n + 1 =>
    if bad lba then d
    else writeIn bad (bytes.drop 512) (Function.update d lba (ofBytes bytes)) (lba + 1) n

section

variable {bad : BitVec 32 → Bool} {bytes : List Byte} {d : Blocks} {lba : BitVec 32} {n : ℕ}

@[simp] theorem sector_length (m : BitVec 9 → Byte) : (sector m).length = 512 := by
  simp [sector]

/-- The bytes of a block made of bytes. -/
theorem sector_ofBytes (enough : 512 ≤ bytes.length) : sector (ofBytes bytes) = bytes.take 512 := by
  refine List.ext_getElem (by simp [enough]) fun k inside _ => ?_
  have small : k < 512 := by simpa using inside
  have bound : k < bytes.length := by omega
  simp [sector, ofBytes, Nat.mod_eq_of_lt small, bound]

theorem ofBytes_sector (m : BitVec 9 → Byte) : ofBytes (sector m) = m := by
  funext a
  have small : a.toNat < 512 := a.isLt
  simp [ofBytes, sector, small]

theorem ofBytes_take : ofBytes (bytes.take 512) = ofBytes bytes := by
  funext a
  have small : a.toNat < 512 := a.isLt
  simp [ofBytes, small]

/-- The next block is as far from its end as the number says. -/
theorem toNat_succ (inside : lba.toNat + (n + 1) ≤ 2 ^ 32) (more : n ≠ 0) :
    (lba + 1).toNat = lba.toNat + 1 := by
  rw [BitVec.toNat_add]
  exact Nat.mod_eq_of_lt (by simp; omega)

/-- Blocks outside the range of a WRITE stay as they are. -/
theorem writeIn_apart {b : BitVec 32} (inside : lba.toNat + n ≤ 2 ^ 32)
    (apart : b.toNat < lba.toNat ∨ lba.toNat + n ≤ b.toNat) : writeIn bad bytes d lba n b = d b := by
  induction n generalizing bytes d lba with
  | zero => rfl
  | succ n ih =>
      have other : b ≠ lba := by
        rintro rfl
        omega
      rw [writeIn]
      split_ifs with broken
      · rfl
      · rcases Nat.eq_zero_or_pos n with rfl | more
        · exact Function.update_of_ne other _ _
        · have next := toNat_succ inside (by omega)
          rw [ih (by omega) (by omega)]
          exact Function.update_of_ne other _ _

/-- A READ of what a WRITE has stored delivers the bytes of the WRITE. -/
theorem readOut_writeIn {bad' : BitVec 32 → Bool} (inside : lba.toNat + n ≤ 2 ^ 32)
    (length : bytes.length = 512 * n) (sound : stop bad lba n = none)
    (sound' : stop bad' lba n = none) : readOut bad' (writeIn bad bytes d lba n) lba n = bytes := by
  induction n generalizing bytes d lba with
  | zero => exact (List.eq_nil_of_length_eq_zero length).symm
  | succ n ih =>
      rw [stop] at sound sound'
      split_ifs at sound sound' with broken broken'
      have first : writeIn bad bytes d lba (n + 1) lba = ofBytes bytes := by
        rw [writeIn, if_neg broken]
        rcases Nat.eq_zero_or_pos n with rfl | more
        · exact Function.update_self _ _ _
        · have next := toNat_succ inside (by omega)
          rw [writeIn_apart (by omega) (by omega)]
          exact Function.update_self _ _ _
      rw [readOut, if_neg broken', first, sector_ofBytes (by omega)]
      rcases Nat.eq_zero_or_pos n with rfl | more
      · rw [readOut, List.append_nil, List.take_of_length_le (by omega)]
      · have next := toNat_succ inside (by omega)
        rw [writeIn, if_neg broken, ih (by omega) (by simp [length]; omega) sound sound',
          List.take_append_drop]

/-- With no bad block in the way all of them are asked for. -/
theorem asked_of_stop (sound : stop bad lba n = none) : asked bad lba n = n := by
  induction n generalizing lba with
  | zero => rfl
  | succ n ih =>
      rw [stop] at sound
      split_ifs at sound with broken
      rw [asked, if_neg broken, ih sound]

end

end Wish5380.Block
