import Wish5380.Sd.Card

/-!
# The capacity of a card

The sequencer shifts sixteen bytes into a register and reads the number of blocks out of
it, by one of two layouts.  What it reads is the number the layout means, and for a register
the card has made up it is the card's own.
-/

namespace Wish5380.Sd

/-! ## Bytes shifted in -/

/-- `n` bytes shifted into the register, as they come. -/
def collected (x : BitVec 128) (byte : ℕ → Byte) (n : ℕ) : BitVec 128 :=
  (List.range n).foldl (fun x k => x.extractLsb' 0 120 ++ byte k) x

theorem collected_succ (x : BitVec 128) (byte : ℕ → Byte) (n : ℕ) :
    collected x byte (n + 1) = (collected x byte n).extractLsb' 0 120 ++ byte n := by
  rw [collected, List.range_succ, List.foldl_append]
  rfl

/-- The byte shifted in `j` bytes before the last is `j` bytes up. -/
theorem getLsbD_collected (x : BitVec 128) (byte : ℕ → Byte) {n j i : ℕ} (inside : i < 8)
    (recent : j < n) (fits : j < 16) :
    (collected x byte n).getLsbD (8 * j + i) = (byte (n - 1 - j)).getLsbD i := by
  induction n generalizing j with
  | zero => omega
  | succ n ih =>
      rw [collected_succ, BitVec.getLsbD_append]
      cases j with
      | zero => rw [if_pos (by omega)]; simp
      | succ j =>
          rw [if_neg (by omega), BitVec.getLsbD_extractLsb', decide_eq_true (by omega), Bool.true_and,
            show 0 + (8 * (j + 1) + i - 8) = 8 * j + i by omega, ih (by omega) (by omega)]
          congr 2
          omega

/-! ## The register the card makes up -/

section Count

variable {c : Card} {b : Blk}

/-- A field of the register, bit by bit. -/
theorem getLsbD_register (x : BitVec 128) {data : List Byte} {n : ℕ} (inside : n < 128) :
    (collected x (fun k => data.getD k 0xff) 16).getLsbD n =
      (data.getD (15 - n / 8) 0xff).getLsbD (n % 8) := by
  have split : n = 8 * (n / 8) + n % 8 := (Nat.div_add_mod n 8).symm
  conv_lhs => rw [split]
  exact getLsbD_collected x _ (Nat.mod_lt _ (by decide)) (by omega) (by omega)

/-- A field of the register. -/
theorem field_eq (x : BitVec 128) {data : List Byte} {first width : ℕ} {y : BitVec width}
    (fits : first + width ≤ 128)
    (bits : ∀ i < width, (data.getD (15 - (first + i) / 8) 0xff).getLsbD ((first + i) % 8) =
      y.getLsbD i) :
    (collected x (fun k => data.getD k 0xff) 16).extractLsb' first width = y := by
  refine BitVec.eq_of_getLsbD_eq fun i inside => ?_
  rw [BitVec.getLsbD_extractLsb', decide_eq_true inside, Bool.true_and,
    getLsbD_register x (by omega), bits i inside]

theorem version_hc (hc : c.hc = true) (x : BitVec 128) :
    (collected x (fun k => c.csd.getD k 0xff) 16).extractLsb' 126 2 = 0b01#2 := by
  refine field_eq x (by decide) fun i inside => ?_
  obtain rfl | rfl : i = 0 ∨ i = 1 := by omega
  all_goals simp [Card.csd, Card.csdFields, hc]

theorem mask_six {i : ℕ} (inside : i < 6) : (0x3f#8).getLsbD i = true := by
  obtain rfl | rfl | rfl | rfl | rfl | rfl :
    i = 0 ∨ i = 1 ∨ i = 2 ∨ i = 3 ∨ i = 4 ∨ i = 5 := by omega
  all_goals rfl

theorem size_hc (hc : c.hc = true) (x : BitVec 128) :
    (collected x (fun k => c.csd.getD k 0xff) 16).extractLsb' 48 22 =
      (c.blocks / 1024 - 1).setWidth 22 := by
  refine field_eq x (by decide) fun i inside => ?_
  rw [BitVec.getLsbD_setWidth, decide_eq_true inside, Bool.true_and]
  rcases (by omega : i < 8 ∨ (8 ≤ i ∧ i < 16) ∨ (16 ≤ i ∧ i < 22)) with
    low | ⟨low, high⟩ | ⟨low, high⟩
  · have byte : 15 - (48 + i) / 8 = 9 := by omega
    have bit : (48 + i) % 8 = i := by omega
    simp [Card.csd, Card.csdFields, hc, byte, bit, low]
  · have byte : 15 - (48 + i) / 8 = 8 := by omega
    have bit : (48 + i) % 8 = i - 8 := by omega
    have narrow : i - 8 < 8 := by omega
    have back : 8 + (i - 8) = i := by omega
    simp [Card.csd, Card.csdFields, hc, byte, bit, narrow, back]
  · have byte : 15 - (48 + i) / 8 = 7 := by omega
    have bit : (48 + i) % 8 = i - 16 := by omega
    have narrow : i - 16 < 8 := by omega
    have back : 16 + (i - 16) = i := by omega
    have mask := mask_six (show i - 16 < 6 by omega)
    simp [Card.csd, Card.csdFields, hc, byte, bit, narrow, back]
    intro _
    rwa [BitVec.getLsbD_eq_getElem narrow] at mask

theorem version_v1 (hc : c.hc = false) (x : BitVec 128) :
    (collected x (fun k => c.csd.getD k 0xff) 16).extractLsb' 126 2 = 0b00#2 := by
  refine field_eq x (by decide) fun i inside => ?_
  obtain rfl | rfl : i = 0 ∨ i = 1 := by omega
  all_goals simp [Card.csd, Card.csdFields, hc]

theorem mult_v1 (hc : c.hc = false) (x : BitVec 128) :
    (collected x (fun k => c.csd.getD k 0xff) 16).extractLsb' 47 3 = 7#3 := by
  refine field_eq x (by decide) fun i inside => ?_
  obtain rfl | rfl | rfl : i = 0 ∨ i = 1 ∨ i = 2 := by omega
  all_goals simp [Card.csd, Card.csdFields, hc]

theorem length_v1 (hc : c.hc = false) (x : BitVec 128) :
    (collected x (fun k => c.csd.getD k 0xff) 16).extractLsb' 80 4 = 9#4 := by
  refine field_eq x (by decide) fun i inside => ?_
  obtain rfl | rfl | rfl | rfl : i = 0 ∨ i = 1 ∨ i = 2 ∨ i = 3 := by omega
  all_goals simp [Card.csd, Card.csdFields, hc]

theorem size_v1 (hc : c.hc = false) (x : BitVec 128) :
    (collected x (fun k => c.csd.getD k 0xff) 16).extractLsb' 62 12 =
      (c.blocks / 512 - 1).setWidth 12 := by
  refine field_eq x (by decide) fun i inside => ?_
  rw [BitVec.getLsbD_setWidth, decide_eq_true inside, Bool.true_and]
  rcases (by omega : i = 0 ∨ i = 1 ∨ (2 ≤ i ∧ i < 10) ∨ i = 10 ∨ i = 11) with
    rfl | rfl | ⟨low, high⟩ | rfl | rfl
  · simp [Card.csd, Card.csdFields, hc]
  · simp [Card.csd, Card.csdFields, hc]
  · have byte : 15 - (62 + i) / 8 = 7 := by omega
    have bit : (62 + i) % 8 = i - 2 := by omega
    have narrow : i - 2 < 8 := by omega
    have back : 2 + (i - 2) = i := by omega
    simp [Card.csd, Card.csdFields, hc, byte, bit, narrow, back]
  · simp [Card.csd, Card.csdFields, hc]
  · simp [Card.csd, Card.csdFields, hc]

/-- The sizes a register can say. -/
def Card.Sized (c : Card) : Prop :=
  0 < c.blocks.toNat ∧
    if c.hc then 1024 ∣ c.blocks.toNat else 512 ∣ c.blocks.toNat ∧ c.blocks.toNat ≤ 2 ^ 21

/-- The count is the card's own. -/
theorem blocks_of_csd (sized : c.Sized) (x : BitVec 128)
    (csd : b.csd = collected x (fun k => c.csd.getD k 0xff) 16) : b.blocks = c.blocks := by
  obtain ⟨positive, size⟩ := sized
  have bound := c.blocks.isLt
  rw [Blk.blocks, csd]
  cases hc : c.hc with
  | true =>
      simp only [hc, if_true] at size
      obtain ⟨q, whole⟩ := size
      rw [version_hc hc, size_hc hc, if_pos (by decide)]
      refine BitVec.eq_of_toNat_eq ?_
      have quotient : c.blocks.toNat / 1024 = q := by omega
      have less : (c.blocks / 1024 - 1).toNat = q - 1 := by
        rw [BitVec.toNat_sub, BitVec.toNat_udiv]
        simp [quotient]
        omega
      simp only [BitVec.toNat_shiftLeft, BitVec.toNat_add, BitVec.toNat_setWidth, less]
      simp [Nat.shiftLeft_eq]
      omega
  | false =>
      simp only [hc, Bool.false_eq_true, if_false] at size
      obtain ⟨⟨q, whole⟩, most⟩ := size
      rw [version_v1 hc, size_v1 hc, mult_v1 hc, length_v1 hc, if_neg (by decide)]
      refine BitVec.eq_of_toNat_eq ?_
      have quotient : c.blocks.toNat / 512 = q := by omega
      simp [Nat.shiftLeft_eq, quotient]
      omega

end Count

/-! ## Any register -/

section Layouts

variable {b : Blk}

/-- The places a version 1 size is moved up by. -/
theorem shift_v1 (m : BitVec 3) (len : BitVec 4) (low : 9 ≤ len.toNat) :
    (m.setWidth 32 + 2 + len.setWidth 32 - 9 : BitVec 32).toNat = m.toNat + len.toNat - 7 := by
  have mult := m.isLt
  have length := len.isLt
  simp only [BitVec.toNat_sub, BitVec.toNat_add, BitVec.toNat_setWidth, BitVec.ofNat_eq_ofNat,
    BitVec.toNat_ofNat]
  omega

/-- A size of version 1, in blocks of 512 bytes. -/
theorem size_in_blocks (size mult len : ℕ) (low : 9 ≤ len) :
    (size + 1) * 2 ^ (mult + 2) * 2 ^ len / 512 = (size + 1) * 2 ^ (mult + len - 7) := by
  have powers : 2 ^ (mult + 2) * 2 ^ len = 2 ^ (mult + len - 7) * 512 := by
    rw [← Nat.pow_add, show 512 = 2 ^ 9 by rfl, ← Nat.pow_add]
    congr 1
    omega
  rw [Nat.mul_assoc, powers, ← Nat.mul_assoc, Nat.mul_div_cancel _ (by decide)]

/-- Two to the twenty-three blocks are the most there can be. -/
theorem size_le (size : BitVec 12) (mult : BitVec 3) {len : ℕ} (high : len ≤ 11) :
    (size.toNat + 1) * 2 ^ (mult.toNat + len - 7) ≤ 2 ^ 23 := by
  have narrow := mult.isLt
  calc (size.toNat + 1) * 2 ^ (mult.toNat + len - 7)
      ≤ 2 ^ 12 * 2 ^ 11 := Nat.mul_le_mul size.isLt (Nat.pow_le_pow_right (by decide) (by omega))
    _ = 2 ^ 23 := by rw [← Nat.pow_add]

/-- What a register of version 1 means. -/
theorem toNat_blocks_v1 (version : b.csd.extractLsb' 126 2 = 0b00)
    (low : 9 ≤ (b.csd.extractLsb' 80 4).toNat) (high : (b.csd.extractLsb' 80 4).toNat ≤ 11) :
    b.blocks.toNat = ((b.csd.extractLsb' 62 12).toNat + 1) * 2 ^ ((b.csd.extractLsb' 47 3).toNat + 2) *
      2 ^ (b.csd.extractLsb' 80 4).toNat / 512 := by
  have size := (b.csd.extractLsb' 62 12).isLt
  have whole : ((b.csd.extractLsb' 62 12).setWidth 32 + 1 : BitVec 32).toNat =
      (b.csd.extractLsb' 62 12).toNat + 1 := by
    simp only [BitVec.toNat_add, BitVec.toNat_setWidth, BitVec.ofNat_eq_ofNat, BitVec.toNat_ofNat]
    omega
  have fits := size_le (b.csd.extractLsb' 62 12) (b.csd.extractLsb' 47 3) high
  rw [Blk.blocks, if_neg (by rw [version]; decide), size_in_blocks _ _ _ low,
    BitVec.shiftLeft_eq', BitVec.toNat_shiftLeft, shift_v1 _ _ low, whole, Nat.shiftLeft_eq,
    Nat.mod_eq_of_lt (fits.trans_lt (by decide))]

theorem blocks_v1_le (version : b.csd.extractLsb' 126 2 = 0b00)
    (low : 9 ≤ (b.csd.extractLsb' 80 4).toNat) (high : (b.csd.extractLsb' 80 4).toNat ≤ 11) :
    b.blocks.toNat ≤ 2 ^ 23 := by
  rw [toNat_blocks_v1 version low high, size_in_blocks _ _ _ low]
  exact size_le _ _ high

/-- What a register of version 2 means. -/
theorem toNat_blocks_v2 (version : b.csd.extractLsb' 126 2 = 0b01)
    (small : (b.csd.extractLsb' 48 22).toNat < 2 ^ 22 - 1) :
    b.blocks.toNat = ((b.csd.extractLsb' 48 22).toNat + 1) * 1024 := by
  rw [Blk.blocks, if_pos version]
  simp only [BitVec.toNat_shiftLeft, BitVec.toNat_add, BitVec.toNat_setWidth, BitVec.ofNat_eq_ofNat,
    BitVec.toNat_ofNat, Nat.shiftLeft_eq]
  omega

/-- Bytes taken by the sequencer are shifted into the register. -/
theorem foldl_stepCsdDat (b : Blk) (data : List Byte) :
    (data.foldl Blk.stepCsdDat b).csd = data.foldl (fun x v => x.extractLsb' 0 120 ++ v) b.csd := by
  induction data generalizing b with
  | nil => rfl
  | cons v data ih =>
      have first : (b.stepCsdDat v).csd = b.csd.extractLsb' 0 120 ++ v := by
        unfold Blk.stepCsdDat
        split <;> rfl
      rw [List.foldl_cons, ih, first, List.foldl_cons]

theorem collected_eq_foldl (x : BitVec 128) (data : List Byte) :
    collected x (fun k => data.getD k 0xff) data.length =
      data.foldl (fun x v => x.extractLsb' 0 120 ++ v) x := by
  induction data using List.reverseRecOn with
  | nil => rfl
  | append_singleton data v ih =>
      have early : collected x (fun k => (data ++ [v]).getD k 0xff) data.length =
          collected x (fun k => data.getD k 0xff) data.length := by
        refine List.foldl_ext _ _ _ fun y k inside => ?_
        have below : k < data.length := List.mem_range.mp inside
        simp only [List.getD_eq_getElem?_getD, List.getElem?_append_left below]
      rw [List.length_append, List.length_singleton, collected_succ, early, ih, List.foldl_append]
      simp

theorem Card.length_csd (c : Card) : c.csd.length = 16 := by
  cases hc : c.hc <;> simp [Card.csd, Card.csdFields, hc]

/-- The sixteen bytes the card makes up give its size back. -/
theorem blocks_foldl_csd {c : Card} (sized : c.Sized) (b : Blk) :
    (c.csd.foldl Blk.stepCsdDat b).blocks = c.blocks := by
  refine blocks_of_csd sized b.csd ?_
  rw [foldl_stepCsdDat, ← collected_eq_foldl, c.length_csd]

end Layouts

/-- The capacity is decoded exactly, it inverts the card's own encoding, and the byte address
of a block of a version 1 card does not wrap. -/
theorem capacity_exact (b : Blk) :
    (b.csd.extractLsb' 126 2 = 0b00 → 9 ≤ (b.csd.extractLsb' 80 4).toNat →
      (b.csd.extractLsb' 80 4).toNat ≤ 11 →
      b.blocks.toNat = ((b.csd.extractLsb' 62 12).toNat + 1) *
          2 ^ ((b.csd.extractLsb' 47 3).toNat + 2) * 2 ^ (b.csd.extractLsb' 80 4).toNat / 512 ∧
        ∀ req : BlkReq, req.lba < b.blocks → (req.lba <<< 9).toNat = 512 * req.lba.toNat ∧
          (req.start = true → b.ccs = false → (b.stepReady req).cmdArg.toNat = 512 * req.lba.toNat)) ∧
    (b.csd.extractLsb' 126 2 = 0b01 → (b.csd.extractLsb' 48 22).toNat < 2 ^ 22 - 1 →
      b.blocks.toNat = ((b.csd.extractLsb' 48 22).toNat + 1) * 1024) ∧
    ∀ c : Card, c.Sized → (c.csd.foldl Blk.stepCsdDat b).blocks = c.blocks := by
  refine ⟨fun version low high => ⟨toNat_blocks_v1 version low high, fun req inside => ?_⟩,
    toNat_blocks_v2, fun c sized => blocks_foldl_csd sized b⟩
  have most := blocks_v1_le version low high
  have below : req.lba.toNat < b.blocks.toNat := inside
  have address : (req.lba <<< 9).toNat = 512 * req.lba.toNat := by
    rw [BitVec.toNat_shiftLeft, Nat.shiftLeft_eq, Nat.mod_eq_of_lt (by omega), Nat.mul_comm]
  refine ⟨address, fun start bytes => ?_⟩
  simp [Blk.stepReady, start, bytes, address]

/-- The largest card of version 1: four gigabytes. -/
theorem largest_v1_exact :
    Blk.blocks { div := 0, csd := (11 <<< 80) ||| (0xfff <<< 62) ||| (7 <<< 47) } = 0x800000 ∧
      (0x7fffff <<< 9 : BitVec 32).toNat = 512 * 0x7fffff := by
  have exact := (capacity_exact
    { div := 0, csd := (11 <<< 80) ||| (0xfff <<< 62) ||| (7 <<< 47) }).1 (by decide) (by decide)
      (by decide)
  have size : Blk.blocks { div := 0, csd := (11 <<< 80) ||| (0xfff <<< 62) ||| (7 <<< 47) } =
      0x800000 := BitVec.eq_of_toNat_eq (exact.1.trans (by decide))
  refine ⟨size, (exact.2 { start := true, lba := 0x7fffff, bufRdata := 0 } ?_).1⟩
  rw [size]
  decide

end Wish5380.Sd
