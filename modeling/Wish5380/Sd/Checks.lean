import Wish5380.Crc.Register
import Wish5380.Sd.Card

/-!
# The checks of commands and blocks

The sequencer and the card each compute two checks, CRC7 over a command and CRC16 over a
block, with loops of their own.  They agree, both are remainders of division by their
generator, and a block followed by its own check leaves nothing.
-/

namespace Wish5380.Sd

open Polynomial

/-! ## Blocks -/

/-- The CRC16 of a block. -/
def crc16 (data : List Byte) : BitVec 16 :=
  data.foldl crc16Byte 0

theorem crc16Byte_eq_feed (c : BitVec 16) (d : Byte) :
    crc16Byte c d = Crc.feed 0x1021 c (Crc.bits d) := by
  rw [Crc.feed, Crc.bits, List.foldl_map]
  rfl

theorem foldl_crc16Byte (c : BitVec 16) (data : List Byte) :
    data.foldl crc16Byte c = Crc.feed 0x1021 c (data.flatMap Crc.bits) := by
  have byByte : crc16Byte = fun c d => Crc.feed 0x1021 c (Crc.bits d) := by
    funext c d
    exact crc16Byte_eq_feed c d
  rw [byByte, Crc.foldl_feed]

/-- The block and its two check bytes come out zero, and with no other two bytes. -/
theorem crc16_check_iff (data : List Byte) (hi lo : Byte) :
    crc16 (data ++ [hi, lo]) = 0 ↔ hi ++ lo = crc16 data := by
  have both : crc16 (data ++ [hi, lo]) = Crc.feed 0x1021 (crc16 data) (Crc.bits (hi ++ lo)) := by
    rw [crc16, List.foldl_append, foldl_crc16Byte _ [hi, lo], Crc.bits_append]
    rfl
  rw [both]
  exact Crc.feed_eq_zero_iff rfl _ _

theorem check_split (x : BitVec 16) : x.extractLsb' 8 8 ++ x.extractLsb' 0 8 = x := by
  refine BitVec.eq_of_getLsbD_eq fun i inside => ?_
  rw [BitVec.getLsbD_append]
  split_ifs with low
  · simp [low]
  · rw [BitVec.getLsbD_extractLsb', decide_eq_true (by omega), Bool.true_and]
    congr 1
    omega

/-- In bytes: the two are the high and the low one of the check. -/
theorem crc16_residue_iff (data : List Byte) (hi lo : Byte) :
    crc16 (data ++ [hi, lo]) = 0 ↔
      hi = (crc16 data).extractLsb' 8 8 ∧ lo = (crc16 data).extractLsb' 0 8 := by
  rw [crc16_check_iff]
  constructor
  · intro whole
    rw [← whole]
    exact ⟨BitVec.extractLsb'_append_eq_left.symm, BitVec.extractLsb'_append_eq_right.symm⟩
  · rintro ⟨rfl, rfl⟩
    exact check_split _

/-- The generator of CRC16-CCITT. -/
theorem generator_crc16 :
    Crc.generator (0x1021 : BitVec 16) = X ^ 16 + X ^ 12 + X ^ 5 + 1 := by
  have terms : Crc.toPoly (0x1021 : BitVec 16) = X ^ 12 + X ^ 5 + 1 := by
    simp [Crc.toPoly, Finset.sum_range_succ]
    ring
  rw [Crc.generator, terms]
  ring

/-- The check is the remainder by the generator. -/
theorem toPoly_crc16 (data : List Byte) :
    Crc.toPoly (crc16 data) =
      (Crc.ofBits (data.flatMap Crc.bits) * X ^ 16) %ₘ (X ^ 16 + X ^ 12 + X ^ 5 + 1) := by
  rw [crc16, foldl_crc16Byte, ← generator_crc16]
  exact Crc.toPoly_feed _ _

theorem crc16_snoc (data : List Byte) (v : Byte) :
    crc16 (data ++ [v]) = crc16Byte (crc16 data) v := by
  simp [crc16]

/-- The first `n` bytes of the buffer. -/
def sentTo (m : BitVec 9 → Byte) (n : ℕ) : List Byte :=
  (List.range n).map fun i => m (BitVec.ofNat 9 i)

theorem crc16_sentTo (m : BitVec 9 → Byte) (n : ℕ) :
    crc16 (sentTo m (n + 1)) = crc16Byte (crc16 (sentTo m n)) (m (BitVec.ofNat 9 n)) := by
  rw [sentTo, List.range_succ, List.map_append, List.map_singleton, crc16_snoc]
  rfl

theorem sdCrc16Bit_eq (crc : BitVec 16) (d : Bool) : sdCrc16Bit crc d = crc16Bit crc d := by
  rw [sdCrc16Bit, crc16Bit, Bool.xor_comm]

theorem sdCrc16_eq (data : List Byte) : sdCrc16 data = crc16 data := by
  simp only [sdCrc16, crc16, sdCrc16Bit_eq]
  rfl

/-! ## Commands -/

theorem sdCrc7Bit_setWidth :
    ∀ (r : BitVec 7) (d : Bool), sdCrc7Bit (r.setWidth 8) d = (crc7Bit r d).setWidth 8 := by
  decide +kernel

theorem foldl_sdCrc7Bit (r : BitVec 7) (d : Byte) :
    (List.range 8).foldl (fun r i => sdCrc7Bit r (d.getLsbD (7 - i))) (r.setWidth 8) =
      (crc7Byte r d).setWidth 8 := by
  simp only [crc7Byte]
  generalize List.range 8 = order
  induction order generalizing r with
  | nil => rfl
  | cons i order ih =>
      simp only [List.foldl_cons]
      rw [sdCrc7Bit_setWidth]
      exact ih _

theorem sdCrc7_eq (data : List Byte) : sdCrc7 data = (data.foldl crc7Byte 0).setWidth 8 := by
  have general (r : BitVec 7) : data.foldl (fun crc d => (List.range 8).foldl
      (fun r i => sdCrc7Bit r (d.getLsbD (7 - i))) crc) (r.setWidth 8) =
        (data.foldl crc7Byte r).setWidth 8 := by
    induction data generalizing r with
    | nil => rfl
    | cons d data ih =>
        simp only [List.foldl_cons]
        rw [foldl_sdCrc7Bit]
        exact ih _
  exact general 0

theorem foldl_crc7Byte (c : BitVec 7) (data : List Byte) :
    data.foldl crc7Byte c = Crc.feed 0x09 c (data.flatMap Crc.bits) := by
  have byByte : crc7Byte = fun c d => Crc.feed 0x09 c (Crc.bits d) := by
    funext c d
    rw [Crc.feed, Crc.bits, List.foldl_map]
    rfl
  rw [byByte, Crc.foldl_feed]

/-- The check of a command is the remainder by the generator of CRC7. -/
theorem toPoly_crc7 (data : List Byte) :
    Crc.toPoly (data.foldl crc7Byte 0) =
      (Crc.ofBits (data.flatMap Crc.bits) * X ^ 7) %ₘ (X ^ 7 + X ^ 3 + 1) := by
  have terms : Crc.toPoly (0x09 : BitVec 7) = X ^ 3 + 1 := by
    simp [Crc.toPoly, Finset.sum_range_succ]
    ring
  have divisor : Crc.generator (0x09 : BitVec 7) = X ^ 7 + X ^ 3 + 1 := by
    rw [Crc.generator, terms]
    ring
  rw [foldl_crc7Byte, ← divisor]
  exact Crc.toPoly_feed _ _

theorem append_one : ∀ r : BitVec 7, (r ++ 1#1 : Byte) = (r.setWidth 8 <<< 1) ||| 1 := by
  decide +kernel

/-! ## Together -/

/-- The sequencer's loops and the card's compute the same remainders, and the sequencer may
look at what a block leaves with its check instead of comparing. -/
theorem checks_are_remainders (data : List Byte) :
    (data.foldl crc16Byte 0 = sdCrc16 data ∧
      Crc.toPoly (data.foldl crc16Byte 0) =
        (Crc.ofBits (data.flatMap Crc.bits) * X ^ 16) %ₘ (X ^ 16 + X ^ 12 + X ^ 5 + 1)) ∧
    ((data.foldl crc7Byte 0).setWidth 8 = sdCrc7 data ∧
      Crc.toPoly (data.foldl crc7Byte 0) =
        (Crc.ofBits (data.flatMap Crc.bits) * X ^ 7) %ₘ (X ^ 7 + X ^ 3 + 1)) ∧
    ∀ hi lo : Byte, (data ++ [hi, lo]).foldl crc16Byte 0 = 0 ↔
      hi = (data.foldl crc16Byte 0).extractLsb' 8 8 ∧ lo = (data.foldl crc16Byte 0).extractLsb' 0 8 :=
  ⟨⟨(sdCrc16_eq data).symm, toPoly_crc16 data⟩, ⟨(sdCrc7_eq data).symm, toPoly_crc7 data⟩,
    crc16_residue_iff data⟩

end Wish5380.Sd
