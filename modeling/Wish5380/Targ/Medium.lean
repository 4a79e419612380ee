import Wish5380.Targ.Initiator
import Wish5380.Targ.Steps

/-!
# The target stays inside the medium

The range check is made once, when a command is taken on, in the 32 bits of the
block address.  While the sum it computes is exact and there is a block to move,
the counters that run afterwards never leave the medium.
-/

namespace Wish5380.Targ

namespace Seq

/-- The command's last block is computed without wrapping, and there is one. -/
def Exact (s : Seq) : Prop :=
  s.cmdBlocks ≠ 0 ∧ s.cmdLba.toNat + s.cmdBlocks.toNat < 2 ^ 32

instance (s : Seq) : Decidable s.Exact :=
  inferInstanceAs (Decidable (_ ∧ _))

/-- The blocks still to move are blocks of the medium, and there are some. -/
structure InMedium (size : BitVec 32) (s : Seq) : Prop where
  pending : 0 < s.blkLeft.toNat
  fits : s.lba.toNat + s.blkLeft.toNat ≤ size.toNat

/-- The invariant: a transfer has its whole remainder inside the medium, and a
request names a block of it. -/
structure Bounded (size : BitVec 32) (s : Seq) : Prop where
  transfer : s.InTransfer → InMedium size s
  request : s.blkStart = true → s.blkLba < size

theorem InMedium.lba_lt {size : BitVec 32} {s : Seq} (inside : InMedium size s) :
    s.lba < size := by
  have pending := inside.pending
  have fits := inside.fits
  rw [BitVec.lt_def]
  omega

theorem InMedium.congr {size : BitVec 32} {s t : Seq} (inside : InMedium size s)
    (lba : t.lba = s.lba) (left : t.blkLeft = s.blkLeft) : InMedium size t :=
  ⟨left ▸ inside.pending, lba ▸ left ▸ inside.fits⟩

/-- Moving on to the next block, when the count had not reached one. -/
theorem InMedium.next_block {size : BitVec 32} {s t : Seq} (inside : InMedium size s)
    (more : s.blkLeft ≠ 1) (lba : t.lba = s.lba + 1) (left : t.blkLeft = s.blkLeft - 1) :
    InMedium size t := by
  obtain ⟨pending, fits⟩ := inside
  have small := size.isLt
  have two : s.blkLeft.toNat ≠ 1 := fun one => more (BitVec.eq_of_toNat_eq one)
  have leftNat : t.blkLeft.toNat = s.blkLeft.toNat - 1 := by
    rw [left]
    bv_omega
  have lbaNat : t.lba.toNat = s.lba.toNat + 1 := by
    rw [lba]
    bv_omega
  exact ⟨by omega, by omega⟩

/-- The check of `S_EXEC` bounds an exact transfer by the size it compared with. -/
theorem accepts_inMedium {s t : Seq} {blk : BlkRsp} (accepted : s.accepts blk = true)
    (exact' : s.Exact) (lba : t.lba = s.cmdLba) (left : t.blkLeft = s.cmdBlocks) :
    InMedium blk.count t := by
  simp only [accepts, outOfRange, Bool.and_eq_true, Bool.not_eq_true', decide_eq_false_iff_not,
    BitVec.not_lt, BitVec.le_def, BitVec.toNat_add, BitVec.toNat_setWidth] at accepted
  obtain ⟨_, check⟩ := accepted
  obtain ⟨some_, fits⟩ := exact'
  have positive : s.cmdBlocks.toNat ≠ 0 := fun zero => some_ (BitVec.eq_of_toNat_eq zero)
  rw [← lba, ← left] at *
  exact ⟨by omega, by omega⟩

theorem accepts_ready {s : Seq} {blk : BlkRsp} (accepted : s.accepts blk = true) :
    blk.ready = true := by
  simp only [accepts, Bool.and_eq_true] at accepted
  exact accepted.1.2

theorem reset_bounded (size : BitVec 32) : Bounded size Seq.reset :=
  ⟨fun moving => by simp [InTransfer, Seq.reset] at moving, fun pulse => by cases pulse⟩

/-- A transfer that goes on stays in the medium, provided what `S_EXEC` takes on is exact. -/
theorem Onward.inMedium {size : BitVec 32} {s t : Seq} {blk : BlkRsp} (edge : Onward s blk t)
    (before : s.InTransfer → InMedium size s) (sized : blk.ready = true → blk.count = size)
    (exactly : s.st = .exec → s.accepts blk = true → s.Exact) : InMedium size t := by
  cases edge with
  | read exec accepted _ _ _ _ lba left =>
      rw [← sized (accepts_ready accepted)]
      exact accepts_inMedium accepted (exactly exec accepted) lba left
  | write exec accepted _ _ lba left =>
      rw [← sized (accepts_ready accepted)]
      exact accepts_inMedium accepted (exactly exec accepted) lba left
  | wait moving _ _ _ _ lba left => exact (before moving).congr lba left
  | filled moving _ _ _ _ lba left => exact (before moving).congr lba left
  | drained moving _ _ more _ _ lba left => exact (before moving).next_block more lba left
  | byte moving _ _ _ lba left => exact (before moving).congr lba left
  | fetch moving _ more _ _ _ _ lba left => exact (before moving).next_block more lba left
  | store moving _ _ _ _ _ lba left => exact (before moving).congr lba left

/-- One clock keeps the invariant. -/
theorem clock_bounded {p : Params} {size : BitVec 32} {s : Seq} {c : Cycle}
    (bounded : Bounded size s) (sized : c.blk.ready = true → c.blk.count = size)
    (exactly : s.st = .exec → c.bus.rst = false → s.accepts c.blk = true → s.Exact) :
    Bounded size (s.clock p c) := by
  rcases clock_onward p s c with ⟨⟨edge, _⟩, _, rst⟩ | ⟨still, quiet⟩
  · have inside : InMedium size (s.clock p c) :=
      edge.inMedium bounded.transfer sized fun exec accepted => exactly exec rst accepted
    refine ⟨fun _ => inside, fun pulse => ?_⟩
    rw [edge.asked pulse]
    exact inside.lba_lt
  · refine ⟨fun moving => absurd moving still, fun pulse => ?_⟩
    rw [quiet] at pulse
    cases pulse

end Seq

/-- In every run from reset whose executed READs and WRITEs are exact, every
request names a block of the medium. -/
theorem start_inside_medium (p : Params) (b : Buf) (input : ℕ → Cycle) (size : BitVec 32)
    (sized : ∀ t, (input t).blk.ready = true → (input t).blk.count = size)
    (exactly : ∀ t, (run p (start b) input t).seq.st = .exec → (input t).bus.rst = false →
      (run p (start b) input t).seq.accepts (input t).blk = true →
        (run p (start b) input t).seq.Exact)
    (t : ℕ) (pulse : (blkReq (run p (start b) input t)).start = true) :
    (blkReq (run p (start b) input t)).lba < size := by
  have bounded : ∀ n, Seq.Bounded size (run p (start b) input n).seq := by
    intro n
    induction n with
    | zero => exact Seq.reset_bounded size
    | succ n ih => exact Seq.clock_bounded ih (sized n) (exactly n)
  exact (bounded t).request pulse

/-! ## READ(10) in concrete cycles -/

/-- The buffer of a device that has just been configured. -/
def Buf.blank : Buf :=
  ⟨fun _ => 0, 0, 0⟩

/-- A ready medium of 2048 blocks whose back end never answers. -/
def silentDisk (_ : ℕ) : BlkRsp :=
  { ready := true, count := 2048 }

/-- A ten-byte descriptor block for unit 0. -/
def tenBytes (op : Byte) (lba : BitVec 32) (blocks : BitVec 16) : List Byte :=
  [op, 0, lba.extractLsb' 24 8, lba.extractLsb' 16 8, lba.extractLsb' 8 8,
    lba.extractLsb' 0 8, 0, blocks.extractLsb' 8 8, blocks.extractLsb' 0 8, 0]

def read10 (lba : BitVec 32) (blocks : BitVec 16) : List Byte :=
  tenBytes cRead10 lba blocks

/-- READ(10) of `blocks` at `lba`, with the bus then held in DATA IN. -/
def readCycles (lba : BitVec 32) (blocks : BitVec 16) : ℕ → Cycle :=
  present (command {} (read10 lba blocks)) { bsy := true, io := true } silentDisk

theorem readCycles_late (lba : BitVec 32) (blocks : BitVec 16) {t : ℕ} (late : 53 ≤ t) :
    readCycles lba blocks t =
      { bus := { bsy := true, io := true }, blk := { ready := true, count := 2048 } } := by
  have short : (command {} (read10 lba blocks)).length = 53 := by
    simp [command, selection, commandByte, read10, tenBytes, show (Params.nSettle {}) = 20 from by decide]
  simp only [readCycles, present, silentDisk]
  rw [List.getD_eq_getElem?_getD, List.getElem?_eq_none (by omega), Option.getD_none]

/-- An exact command: two blocks at address 5. -/
theorem read10_inside_medium :
    (blkReq (run {} (start .blank) (readCycles 5 2) 53)).start = true ∧
    (blkReq (run {} (start .blank) (readCycles 5 2) 53)).lba < 2048 := by
  have asked : (blkReq (run {} (start .blank) (readCycles 5 2) 53)).start = true := by
    simp only [blkReq, run_seq]
    decide +kernel
  refine ⟨asked, start_inside_medium {} .blank (readCycles 5 2) 2048 (fun _ _ => rfl) ?_ 53 asked⟩
  intro t
  rw [run_seq]
  rcases Nat.lt_or_ge t 54 with early | late
  · revert t
    decide +kernel
  · have stays : Clocked.run (Seq.clock {}) Seq.reset (readCycles 5 2) t =
        Clocked.run (Seq.clock {}) Seq.reset (readCycles 5 2) 54 := by
      refine Clocked.run_fixed ?_ late
      intro u later
      rw [readCycles_late 5 2 (by omega)]
      decide +kernel
    simp only [start, stays]
    intro exec
    exact absurd exec (by decide +kernel)

/-- Two blocks at the last 32-bit address pass the check, and the first of them
is asked for. -/
theorem wrapped_read_leaves_medium :
    (∀ t, (readCycles 0xffffffff 2 t).blk.ready = true →
      (readCycles 0xffffffff 2 t).blk.count = 2048) ∧
    ¬ ∀ t, (blkReq (run {} (start .blank) (readCycles 0xffffffff 2) t)).start = true →
      (blkReq (run {} (start .blank) (readCycles 0xffffffff 2) t)).lba < 2048 := by
  refine ⟨fun _ _ => rfl, fun all => ?_⟩
  have asked : (blkReq (run {} (start .blank) (readCycles 0xffffffff 2) 53)).start = true := by
    simp only [blkReq, run_seq]
    decide +kernel
  have outside : ¬ (blkReq (run {} (start .blank) (readCycles 0xffffffff 2) 53)).lba < 2048 := by
    simp only [blkReq, run_seq]
    decide +kernel
  exact outside (all 53 asked)

end Wish5380.Targ
