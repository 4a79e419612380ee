import Wish5380.Block.Disk
import Wish5380.Driver.Session

/-!
# The driver and the disk in software

`execute` on the chip and the target, with the `Disk` of `disk.cpp` behind them, which looks at the
target in every cycle.  The driver never raises RST, so no request is left without its answer, and
the one command it gets carried out is the one it was given: the disk serves the block interface
here without being asked to.
-/

namespace Wish5380.Driver

open Clocked

/-- The disk after the negative edge of a cycle. -/
def ticked (y : Dma.System) (d : Block.Disk) : Block.Disk :=
  d.tick (Targ.blkReq y.targ)

/-- The chip and the target, with the disk behind them. -/
def onDisk (pc : Chip.Params) (pt : Targ.Params) :
    Machine (Dma.System × Block.Disk) Unit Access Reply :=
  (machine pc pt).withWorld ticked Block.Disk.pins

section OnDisk

variable {ρ : Type} (pc : Chip.Params) (pt : Targ.Params) (p : Code ρ) (y : Dma.System)
  (disk : Block.Disk) (pace : ℕ → Turn Unit)

/-- The cycles of the run, as the program and its machine see them. -/
def diskTurns : ℕ → Turn BlkRsp :=
  (machine pc pt).fed ticked Block.Disk.pins p (y, disk) pace

/-- And what the target and the disk see of them. -/
def diskStim (t : ℕ) : Block.Stim where
  bus := (seen pc pt p y (diskTurns pc pt p y disk pace) t).bus

/-- The target and the disk on the driver's run. -/
abbrev diskTargets : ℕ → Targ.State :=
  targets pc pt p y (diskTurns pc pt p y disk pace)

abbrev diskSeen : ℕ → Targ.Cycle :=
  seen pc pt p y (diskTurns pc pt p y disk pace)

end OnDisk

section Run

variable {ρ : Type} {pc : Chip.Params} {pt : Targ.Params} {p : Code ρ} {y : Dma.System}
  {disk : Block.Disk} {pace : ℕ → Turn Unit} {b : Targ.Buf}

theorem exec_onDisk (t : ℕ) : (machine pc pt).exec p y (diskTurns pc pt p y disk pace) t =
    (((onDisk pc pt).exec p (y, disk) pace t).1, ((onDisk pc pt).exec p (y, disk) pace t).2.1) :=
  Machine.exec_withWorld (c := (y, disk)) t

theorem diskTargets_eq (t : ℕ) : diskTargets pc pt p y disk pace t =
    ((onDisk pc pt).exec p (y, disk) pace t).2.1.targ := by
  rw [diskTargets, targets, exec_onDisk]

/-- The target and the disk are a run of their own. -/
theorem rig_run (start : y.targ = Targ.start b) (t : ℕ) :
    Block.Rig.run pt b disk (diskStim pc pt p y disk pace) t =
      ⟨diskTargets pc pt p y disk pace t, ((onDisk pc pt).exec p (y, disk) pace t).2.2⟩ := by
  induction t with
  | zero => exact congrArg (Block.Rig.mk · disk) start.symm
  | succ t ih =>
      have step : Block.Rig.run pt b disk (diskStim pc pt p y disk pace) (t + 1) =
          (Block.Rig.run pt b disk (diskStim pc pt p y disk pace) t).next pt
            (diskStim pc pt p y disk pace t) := rfl
      have targ : diskTargets pc pt p y disk pace (t + 1) =
          Targ.clock pt (diskTargets pc pt p y disk pace t) (diskSeen pc pt p y disk pace t) := by
        rw [diskTargets, targets_run]
        rfl
      have ticks : ((onDisk pc pt).exec p (y, disk) pace (t + 1)).2.2 =
          ((onDisk pc pt).exec p (y, disk) pace t).2.2.tick
            (Targ.blkReq (diskTargets pc pt p y disk pace t)) := by
        obtain ⟨a, next⟩ : ∃ a, ((onDisk pc pt).exec p (y, disk) pace (t + 1)).2 =
            (onDisk pc pt).next ((onDisk pc pt).exec p (y, disk) pace t).2 () a :=
          Machine.exec_step t
        rw [next, diskTargets_eq]
        rfl
      rw [step, ih, targ, ticks, diskTargets_eq]
      rfl

theorem rig_target (start : y.targ = Targ.start b) :
    Block.Rig.target pt b disk (diskStim pc pt p y disk pace) = diskTargets pc pt p y disk pace := by
  funext t
  rw [← Block.Rig.run_targ, rig_run start]

theorem rig_seen (start : y.targ = Targ.start b) :
    Block.Rig.seen pt b disk (diskStim pc pt p y disk pace) = diskSeen pc pt p y disk pace := by
  funext t
  rw [Block.Rig.seen, rig_run start, diskTargets_eq]
  rfl

/-- The disk keeps what it is set up with. -/
theorem disk_same (start : y.targ = Targ.start b) (t : ℕ) :
    Block.Disk.Same disk ((onDisk pc pt).exec p (y, disk) pace t).2.2 := by
  have same : Block.Disk.Same disk
      (Block.Rig.run pt b disk (diskStim pc pt p y disk pace) t).disk := Block.Rig.same t
  rwa [rig_run start] at same

/-! ## The disk serves the interface -/

/-- Nothing cuts a wait short. -/
theorem answersCuts (only : p.Only Lawful) (poised : Poised y) :
    Targ.AnswersCuts (diskTargets pc pt p y disk pace) (diskSeen pc pt p y disk pace) := by
  intro t u _ cut
  have calm : (diskSeen pc pt p y disk pace t).bus.rst = false := seen_calm only poised t
  rcases cut.reset with pin | bus
  · cases pin
  · exact absurd (calm.symm.trans bus) (by decide)

/-- The disk keeps its size, and is as ready as it was. -/
theorem world_eq (start : y.targ = Targ.start b) (t : ℕ) :
    (diskTurns pc pt p y disk pace t).world.count = disk.blocks ∧
      (diskTurns pc pt p y disk pace t).world.ready = disk.ready := by
  have pins : (diskTurns pc pt p y disk pace t).world =
      (Block.Rig.seen pt b disk (diskStim pc pt p y disk pace) t).blk := by
    rw [rig_seen start]
    rfl
  rw [pins, Block.Rig.seen_blk, Block.Disk.tick_count, Block.Disk.tick_ready]
  exact ⟨(Block.Rig.same t).blocks, (Block.Rig.same t).ready⟩

theorem disk_behaves (start : y.targ = Targ.start b) (idle : disk.st = .idle)
    (only : p.Only Lawful) (poised : Poised y) :
    BehavesOver pc pt disk.blocks p y (diskTurns pc pt p y disk pace) := by
  refine behaves_of_inside only poised (fun v writes => ?_) fun t => (world_eq start t).1
  have inside := @Block.Rig.inside pt b disk (diskStim pc pt p y disk pace) v idle
    (by rw [rig_seen start]; exact writes)
  rwa [rig_seen start, rig_target start] at inside

end Run

section Execute

variable {pc : Chip.Params} {pt : Targ.Params} {host : ℕ} {c : Command} {y : Dma.System}
  {disk : Block.Disk} {pace : ℕ → Turn Unit} {b : Targ.Buf}

/-- A command for blocks of the disk is exact where it is taken on. -/
theorem onDisk_proper (start : y.targ = Targ.start b) (idle : disk.st = .idle)
    (plain : c.usePdma = false) (poised : Poised y) (low : y.chip.regs.icrAck = false)
    (whole : c.cdb.length = Targ.commandLength c.cdb) (some_ : c.asks.cmdBlocks ≠ 0)
    (inside : c.asks.cmdLba.toNat + c.asks.cmdBlocks.toNat ≤ disk.blocks.toNat) :
    Block.Rig.Proper pt b disk (diskStim pc pt (execute host c) y disk pace) := by
  have only : (execute host c).Only Lawful := execute_only host plain
  have unspoken : y.targ.seq.Unspoken := by
    rw [start]
    exact .inl rfl
  refine ⟨idle, ?_, fun t takes => ?_⟩
  · rw [rig_target start, rig_seen start]
    exact answersCuts only poised
  · rw [rig_target start] at takes ⊢
    have bears := bears_of_exec plain poised low unspoken whole
      (disk_behaves start idle only poised) takes.exec
    obtain ⟨-, lba, blocks⟩ := bears_decode bears whole
    rw [Targ.Seq.Exact, lba, blocks]
    have few := disk.blocks.isLt
    exact ⟨some_, by omega⟩

/-- Behind the driver the disk serves the block interface. -/
theorem onDisk_device (start : y.targ = Targ.start b) (idle : disk.st = .idle)
    (plain : c.usePdma = false) (poised : Poised y) (low : y.chip.regs.icrAck = false)
    (whole : c.cdb.length = Targ.commandLength c.cdb) (some_ : c.asks.cmdBlocks ≠ 0)
    (inside : c.asks.cmdLba.toNat + c.asks.cmdBlocks.toNat ≤ disk.blocks.toNat) :
    ∃ blocks, Block.Device (fun _ => disk.fails) blocks
        (diskTargets pc pt (execute host c) y disk pace)
        (diskSeen pc pt (execute host c) y disk pace) ∧
      ∀ t, ((onDisk pc pt).exec (execute host c) (y, disk) pace t).2.2.st = .idle →
        ((onDisk pc pt).exec (execute host c) (y, disk) pace t).2.2.block = blocks t := by
  have proper : Block.Rig.Proper pt b disk (diskStim pc pt (execute host c) y disk pace) :=
    onDisk_proper start idle plain poised low whole some_ inside
  have device := proper.device
  rw [rig_target start, rig_seen start] at device
  refine ⟨_, device, fun t rests => ?_⟩
  have same : (Block.Rig.run pt b disk (diskStim pc pt (execute host c) y disk pace) t).disk =
      ((onDisk pc pt).exec (execute host c) (y, disk) pace t).2.2 :=
    congrArg Block.Rig.disk (rig_run start t)
  rw [← same] at rests ⊢
  exact (Block.Rig.holds_of_idle rests).symm

end Execute

end Wish5380.Driver
