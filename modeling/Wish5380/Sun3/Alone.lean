import Wish5380.Soft.Model
import Wish5380.Sun3.Model

/-!
# The board with nothing on its bus

`ncr5380.c` behind the board, with no device attached, and the pins through which it calls back.
-/

namespace Wish5380.Soft.State

variable (c : State)

/-! ## EOP is an input -/

theorem combine_eop (n : ℕ) : (combine n c).eop = c.eop := by
  induction n generalizing c with
  | zero => rfl
  | succ n ih =>
      rw [combine]
      split_ifs
      · rfl
      · exact ih _

theorem tickArb_eop : c.tickArb.eop = c.eop := by
  unfold tickArb
  dsimp only
  split_ifs <;> rfl

theorem tickDma_eop : c.tickDma.eop = c.eop := by
  unfold tickDma
  dsimp only
  split_ifs <;> rfl

theorem tickLatches_eop (parityBad latch selInt busyLost : Bool) :
    (c.tickLatches parityBad latch selInt busyLost).eop = c.eop := by
  unfold tickLatches
  dsimp only
  split_ifs <;> rfl

theorem tickIrq_eop (raised : Bool) : (c.tickIrq raised).eop = c.eop := by
  unfold tickIrq
  split_ifs <;> rfl

theorem tick_eop : c.tick.eop = c.eop := by
  unfold tick
  dsimp only
  split_ifs
  · rfl
  · show (tickIrq _ _).eop = c.eop
    rw [tickIrq_eop, tickLatches_eop, tickDma_eop, tickArb_eop]

theorem pass_eop : c.pass.eop = c.eop := by
  show (combine settleMax { c with dirty := false }).tick.eop = c.eop
  rw [tick_eop, combine_eop]

theorem rounds_eop (n : ℕ) : (rounds n c).eop = c.eop := by
  induction n generalizing c with
  | zero => rfl
  | succ n ih =>
      rw [rounds]
      split_ifs
      · rw [ih, pass_eop]
      · exact pass_eop c

theorem settle_eop : c.settle.eop = c.eop :=
  rounds_eop c settleMax

theorem readStrobe_eop (reg : BitVec 3) : (c.readStrobe reg).eop = c.eop := by
  unfold readStrobe
  split <;> rfl

theorem written_eop (reg : BitVec 3) (val : Byte) : (c.written reg val).eop = c.eop := by
  unfold written
  split <;> rfl

end Wish5380.Soft.State

namespace Wish5380.Sun3

open Callback (Activity)

/-! ## The pins -/

/-- The chip and what it last put on its pins. -/
structure Pinned where
  chip : Soft.State
  irqLevel : Bool := false
  drqLevel : Bool := false

variable {α : Type}

/-- The second half of `ncr5380_update_pins`, with DRQ as it was before the first. -/
def updateDrq (drq : Bool) (s : Pinned) (value : α) : Activity Pinned Pin α :=
  if drq != s.drqLevel then
    .calls { s with drqLevel := drq } (.drq drq) fun s => .ret s value
  else .ret s value

/-- `ncr5380_update_pins` -/
def updatePins (s : Pinned) (value : α) : Activity Pinned Pin α :=
  let drq := s.chip.drq
  if s.chip.irqLatch != s.irqLevel then
    .calls { s with irqLevel := s.chip.irqLatch } .irq fun s => updateDrq drq s value
  else updateDrq drq s value

theorem updateDrq_eop (drq : Bool) (s : Pinned) (value : α) :
    (updateDrq drq s value).Steady (fun s => s.chip.eop) s.chip.eop := by
  unfold updateDrq
  split_ifs
  · exact ⟨rfl, fun s => rfl⟩
  · exact rfl

theorem updatePins_eop {s : Pinned} {v : Bool} (value : α) (same : s.chip.eop = v) :
    (updatePins s value).Steady (fun s => s.chip.eop) v := by
  subst same
  unfold updatePins
  split_ifs
  · exact ⟨rfl, fun s => updateDrq_eop _ s value⟩
  · exact updateDrq_eop _ s value

/-- The software chip with no device on its bus; nothing makes it do anything by itself. -/
def alone : Chip Pinned Empty where
  drq s := s.chip.drq
  irq s := s.chip.irqLatch
  eop s := s.chip.eop
  regRead s reg := updatePins { s with chip := s.chip.regRead reg } (s.chip.readValue reg)
  regWrite s reg val := updatePins { s with chip := s.chip.regWrite reg val } ()
  dackRead s := updatePins { s with chip := s.chip.dackRead } s.chip.idr
  dackWrite s val := updatePins { s with chip := s.chip.dackWrite val } ()
  setEop s asserted := updatePins { s with chip := s.chip.setEop asserted } ()
  hardReset s := updatePins { s with chip := s.chip.hardReset } ()
  async i := i.elim
  regRead_eop s reg := updatePins_eop _ ((Soft.State.settle_eop _).trans (s.chip.readStrobe_eop reg))
  regWrite_eop s reg val :=
    updatePins_eop _ ((Soft.State.settle_eop _).trans (s.chip.written_eop reg val))
  dackRead_eop _ := updatePins_eop _ (Soft.State.settle_eop _)
  dackWrite_eop _ _ := updatePins_eop _ (Soft.State.settle_eop _)
  setEop_eop _ _ := updatePins_eop _ (Soft.State.settle_eop _)
  hardReset_eop _ := updatePins_eop _ (Soft.State.settle_eop _)
  async_eop i := i.elim

/-! ## A machine -/

/-- A chain at 0x100 that sets the address to 0x2000, in memory that ends at `top`. -/
def chainMemory (top : BitVec 32) : Memory where
  byte a := if a = 0x100 then 0x02 else if a = 0x104 then 0x20 else 0
  readOk a := decide (a < top)
  writeOk a := decide (a < top)

/-- A Sun-3 after a reset. -/
def powered (top : BitVec 32) : Traced Pinned where
  board := { core := { chip := Soft.State.hardReset {} }, mem := chainMemory top }

end Wish5380.Sun3
