import Wish5380.Sd.Stack

/-!
# A byte each way

Two shift registers face to face: while the sequencer's byte goes out bit by bit, the card's
comes in.  One exchange takes sixteen half periods of the card clock; at its end the
sequencer has the byte the card had ready, and the card has acted on the one it was sent.
-/

namespace Wish5380.Sd

/-! ## Eight shifts -/

/-- `a` after `k` bits of `b` have been shifted into it. -/
def window (a b : Byte) (k : ℕ) : Byte :=
  (a ++ b).extractLsb' (8 - k) 8

theorem getLsbD_window (a b : Byte) (k i : ℕ) (inside : i < 8) :
    (window a b k).getLsbD i = (a ++ b).getLsbD (8 - k + i) := by
  simp [window, inside]

theorem getLsbD_shift (a : Byte) (d : Bool) (i : ℕ) (inside : i < 8) :
    (Spi.shift a d).getLsbD i = if i = 0 then d else a.getLsbD (i - 1) := by
  cases i with
  | zero => simp [Spi.shift]
  | succ i =>
      have shifted : (Spi.shift a d).getLsbD (i + 1) = a.getLsbD i := by
        have small : i < 8 := by omega
        cases d <;> simp [Spi.shift, inside, ← BitVec.getLsbD_eq_getElem small]
      simpa using shifted

@[simp] theorem window_zero (a b : Byte) : window a b 0 = a := by
  refine BitVec.eq_of_getLsbD_eq fun i inside => ?_
  rw [getLsbD_window a b 0 i inside, BitVec.getLsbD_append, if_neg (by omega)]
  congr 1
  omega

@[simp] theorem window_eight (a b : Byte) : window a b 8 = b := by
  refine BitVec.eq_of_getLsbD_eq fun i inside => ?_
  rw [getLsbD_window a b 8 i inside, BitVec.getLsbD_append, if_pos (by omega)]
  congr 1
  omega

theorem shift_window (a b : Byte) {k : ℕ} (below : k < 8) :
    Spi.shift (window a b k) (b.getLsbD (7 - k)) = window a b (k + 1) := by
  refine BitVec.eq_of_getLsbD_eq fun i inside => ?_
  rw [getLsbD_shift _ _ i inside, getLsbD_window a b (k + 1) i inside]
  cases i with
  | zero =>
      rw [if_pos rfl, BitVec.getLsbD_append, if_pos (by omega)]
      congr 1
      omega
  | succ i =>
      rw [if_neg (Nat.succ_ne_zero i), Nat.add_sub_cancel, getLsbD_window a b k i (by omega)]
      congr 1
      omega

theorem window_top (a b : Byte) {k : ℕ} (below : k < 8) :
    (window a b k).getLsbD 7 = a.getLsbD (7 - k) := by
  rw [getLsbD_window a b k 7 (by omega), BitVec.getLsbD_append, if_neg (by omega)]
  congr 1
  omega

theorem shift_ones (a : Byte) {k : ℕ} (below : k < 8) :
    Spi.shift (window a 0xff k) true = window a 0xff (k + 1) := by
  rw [← shift_window a 0xff below]
  congr 1
  have : k = 0 ∨ k = 1 ∨ k = 2 ∨ k = 3 ∨ k = 4 ∨ k = 5 ∨ k = 6 ∨ k = 7 := by omega
  rcases this with rfl | rfl | rfl | rfl | rfl | rfl | rfl | rfl <;> rfl

theorem shl_window (a : Byte) {k : ℕ} (below : k < 8) :
    window a 0#8 k <<< 1 = window a 0#8 (k + 1) := by
  rw [← shift_window a 0#8 below]
  simp [Spi.shift]

/-! ## The card during an exchange -/

namespace SdCard

/-- The card after its first look at half period `half` of an exchange. -/
def seen (slot : SdCard) (cs : Bool) (tx : Byte) (half : ℕ) : SdCard :=
  if cs then
    { slot with
      prevClk := decide (half % 2 = 1)
      bit := (half + 1) / 2
      shRx := window slot.shRx tx ((half + 1) / 2)
      curTx := window slot.curTx 0 (half / 2) }
  else { slot with prevClk := decide (half % 2 = 1), bit := 0 }

/-- The byte that comes in. -/
def offers (slot : SdCard) (cs : Bool) : Byte :=
  if cs then slot.curTx else 0xff

variable {slot : SdCard} (f : Faults) {cs : Bool} {tx : Byte} {half : ℕ}

theorem seen_zero (low : slot.prevClk = false) (bit : slot.bit = 0) : slot.seen cs tx 0 = slot := by
  cases slot
  cases cs <;> simp_all [seen]

theorem ones_getLsbD {k : ℕ} (below : k < 8) : (0xff#8).getLsbD k = true := by
  have : k = 0 ∨ k = 1 ∨ k = 2 ∨ k = 3 ∨ k = 4 ∨ k = 5 ∨ k = 6 ∨ k = 7 := by omega
  rcases this with rfl | rfl | rfl | rfl | rfl | rfl | rfl | rfl <;> rfl

/-- Nothing moves between two edges of the card clock. -/
theorem tick_seen (present : slot.present = true) (below : half < 16) (mosi : Bool) :
    (slot.seen cs tx half).tick f (decide (half % 2 = 1)) (!cs) mosi =
      (slot.seen cs tx half, (slot.offers cs).getLsbD (7 - half / 2)) := by
  have inside : half / 2 < 8 := by omega
  cases cs with
  | false => simp [seen, tick, present, offers, ones_getLsbD (show 7 - half / 2 < 8 by omega)]
  | true =>
      rw [offers, if_pos rfl, ← window_top slot.curTx 0 inside]
      rcases Nat.mod_two_eq_zero_or_one half with even | odd <;>
        simp [seen, tick, *]

/-- An edge of the card clock: up, the card takes a bit; down, it shifts its own. -/
theorem tick_seen_succ (present : slot.present = true) (below : half + 1 < 16) :
    (slot.seen cs tx half).tick f (decide ((half + 1) % 2 = 1)) (!cs)
        (tx.getLsbD (7 - (half + 1) / 2)) =
      (slot.seen cs tx (half + 1), (slot.offers cs).getLsbD (7 - (half + 1) / 2)) := by
  have inside : (half + 1) / 2 < 8 := by omega
  cases cs with
  | false =>
      simp [seen, tick, present, offers, ones_getLsbD (show 7 - (half + 1) / 2 < 8 by omega)]
  | true =>
      rw [offers, if_pos rfl, ← window_top slot.curTx 0 inside]
      rcases Nat.mod_two_eq_zero_or_one half with even | odd
      · have up : (half + 1) % 2 = 1 := by omega
        have same : (half + 1) / 2 = half / 2 := by omega
        have more : (half + 1 + 1) / 2 = half / 2 + 1 := by omega
        simp [seen, tick, present, even, up, same, more, shift_window _ _ (show half / 2 < 8 by omega)]
      · have down : (half + 1) % 2 = 0 := by omega
        have same : (half + 1 + 1) / 2 = (half + 1) / 2 := by omega
        have more : (half + 1) / 2 = half / 2 + 1 := by omega
        have early : ¬ 8 ≤ half / 2 + 1 := by omega
        have moved := shl_window slot.curTx (show half / 2 < 8 by omega)
        simp [seen, tick, present, odd, down, same, more, early, ← moved]

/-- The last edge of a byte: the card acts on it and gets its next one out. -/
theorem tick_seen_last (present : slot.present = true) (mosi : Bool) :
    ((slot.seen cs tx 15).tick f false (!cs) mosi).1 =
      if cs then
        { slot with
          prevClk := false
          bit := 0
          shRx := tx
          curTx := (slot.card.onByte f tx).tx.headD 0xff
          card := { slot.card.onByte f tx with tx := (slot.card.onByte f tx).tx.tail } }
      else { slot with prevClk := false, bit := 0 } := by
  cases cs <;> simp [seen, tick, present]

end SdCard

end Wish5380.Sd
