import Wish5380.Block.Device
import Wish5380.Targ.Edges

/-!
# The disk in software

`Disk` of `disk.cpp`, which stands behind the block interface where no card does.  It looks at the
target's outputs at the negative edge, so that what it drives is there at the next positive one,
and moves one byte a clock through the sector buffer.
-/

namespace Wish5380.Block

open Targ

/-- `Disk::St`. -/
inductive DiskSt where
  | idle | wait | move | done
  deriving DecidableEq, Repr

/-- `Disk`, and the pins it drives.  `media` is by byte. -/
structure Disk where
  pins : BlkRsp := {}
  media : ℕ → Byte := fun _ => 0
  blocks : BitVec 32
  st : DiskSt := .idle
  latency : ℤ := 4
  wait : ℤ := 0
  addr : ℕ := 0
  lba : BitVec 32 := 0
  we : Bool := false
  ready : Bool := true
  failLba : ℤ := -1
  reads : ℕ := 0
  writes : ℕ := 0
  lastLba : BitVec 32 := 0

namespace Disk

/-- `read_block`, with zeros where there is no block. -/
def block (d : Disk) : Blocks := fun lba a =>
  if d.blocks ≤ lba then 0 else d.media (lba.toNat * 512 + a.toNat)

/-- The block that is to fail. -/
def fails (d : Disk) (lba : BitVec 32) : Bool :=
  decide (0 ≤ d.failLba) && BitVec.ofInt 32 d.failLba == lba

/-- What `tick` does first. -/
def settle (d : Disk) : Disk :=
  { d with pins := { d.pins with
      ready := d.ready, count := d.blocks, done := false, err := false, bufWe := false } }

def stepIdle (d : Disk) (req : BlkReq) : Disk :=
  if req.start then
    { d with we := req.we, lba := req.lba, lastLba := req.lba, addr := 0, wait := d.latency, st := .wait }
  else d

def stepWait (d : Disk) : Disk :=
  { d with wait := d.wait - 1, st := if d.wait ≤ 0 then .move else .wait }

/-- Media to buffer: a byte a clock. -/
def stepRead (d : Disk) : Disk :=
  { d with
    pins := { d.pins with
      bufWe := true
      bufAddr := BitVec.ofNat 9 d.addr
      bufWdata := if d.blocks ≤ d.lba then 0 else d.media (d.lba.toNat * 512 + d.addr) }
    addr := d.addr + 1
    st := if d.addr + 1 = 512 then .done else .move }

/-- Buffer to media: the byte that arrives is the one addressed a clock ago. -/
def stepWrite (d : Disk) (rdata : Byte) : Disk :=
  { d with
    media :=
      if 0 < d.addr ∧ ¬ d.blocks ≤ d.lba then
        Function.update d.media (d.lba.toNat * 512 + d.addr - 1) rdata
      else d.media
    pins := if d.addr < 512 then { d.pins with bufAddr := BitVec.ofNat 9 d.addr } else d.pins
    addr := d.addr + 1
    st := if 512 < d.addr + 1 then .done else .move }

def stepDone (d : Disk) : Disk :=
  { d with
    pins := { d.pins with done := true, err := d.fails d.lba }
    reads := if !d.fails d.lba && !d.we then d.reads + 1 else d.reads
    writes := if !d.fails d.lba && d.we then d.writes + 1 else d.writes
    st := .idle }

/-- `tick`. -/
def tick (d : Disk) (req : BlkReq) : Disk :=
  match d.st with
  | .idle => d.settle.stepIdle req
  | .wait => d.settle.stepWait
  | .move => if d.we then d.settle.stepWrite req.bufRdata else d.settle.stepRead
  | .done => d.settle.stepDone

/-! ### The medium while a block is written -/

/-- The medium with the first `k` bytes of `m` in a block, if there is such a block. -/
def filled (d : Disk) (lba : BitVec 32) (m : BitVec 9 → Byte) (k n : ℕ) : Byte :=
  if ¬ d.blocks ≤ lba ∧ lba.toNat * 512 ≤ n ∧ n < lba.toNat * 512 + k then
    m (BitVec.ofNat 9 (n - lba.toNat * 512))
  else d.media n

theorem filled_zero (d : Disk) (lba : BitVec 32) (m : BitVec 9 → Byte) :
    d.filled lba m 0 = d.media := by
  funext n
  exact if_neg (by omega)

theorem filled_succ (d : Disk) (lba : BitVec 32) (m : BitVec 9 → Byte) (k : ℕ) :
    d.filled lba m (k + 1) =
      if ¬ d.blocks ≤ lba then
        Function.update (d.filled lba m k) (lba.toNat * 512 + k) (m (BitVec.ofNat 9 k))
      else d.filled lba m k := by
  funext n
  by_cases there : d.blocks ≤ lba
  · simp [filled, there]
  · rw [if_pos there, Function.update_apply]
    simp only [filled, there, not_false_iff, true_and]
    by_cases last : n = lba.toNat * 512 + k
    · rw [if_pos (by omega), if_pos last, last, Nat.add_sub_cancel_left]
    · rw [if_neg last]
      exact if_congr (by omega) rfl rfl

/-- In the end the block is what was written. -/
theorem block_filled {d e : Disk} {lba : BitVec 32} {m : BitVec 9 → Byte} (blocks : e.blocks = d.blocks)
    (there : lba < d.blocks) (media : e.media = d.filled lba m 512) :
    e.block = Function.update d.block lba m := by
  funext other a
  have small : a.toNat < 512 := a.isLt
  have inside : ¬ d.blocks ≤ lba := BitVec.not_le.mpr there
  rw [Function.update_apply, block, blocks, media, filled]
  by_cases same : other = lba
  · subst same
    rw [if_neg inside, if_pos rfl, if_pos ⟨inside, by omega, by omega⟩, Nat.add_sub_cancel_left]
    simp
  · have apart : other.toNat ≠ lba.toNat := fun equal => same (BitVec.eq_of_toNat_eq equal)
    have outside : ¬ (¬ d.blocks ≤ lba ∧ lba.toNat * 512 ≤ other.toNat * 512 + a.toNat ∧
        other.toNat * 512 + a.toNat < lba.toNat * 512 + 512) := by omega
    rw [if_neg same, if_neg outside, block]

/-! ### What a tick does -/

section Tick

variable {d : Disk} {req : BlkReq}

/-- What the disk is set up with stays. -/
structure Same (d e : Disk) : Prop where
  blocks : e.blocks = d.blocks
  failLba : e.failLba = d.failLba
  ready : e.ready = d.ready
  latency : e.latency = d.latency

theorem Same.trans {d e f : Disk} (first : Same d e) (second : Same e f) : Same d f where
  blocks := second.blocks.trans first.blocks
  failLba := second.failLba.trans first.failLba
  ready := second.ready.trans first.ready
  latency := second.latency.trans first.latency

theorem Same.fails {d e : Disk} (same : Same d e) (lba : BitVec 32) : e.fails lba = d.fails lba := by
  rw [Disk.fails, Disk.fails, same.failLba]

theorem tick_same (d : Disk) (req : BlkReq) : Same d (d.tick req) := by
  unfold tick
  cases d.st with
  | idle =>
      simp only [stepIdle]
      split_ifs <;> exact ⟨rfl, rfl, rfl, rfl⟩
  | wait => exact ⟨rfl, rfl, rfl, rfl⟩
  | move =>
      dsimp only
      split_ifs <;> exact ⟨rfl, rfl, rfl, rfl⟩
  | done => exact ⟨rfl, rfl, rfl, rfl⟩

theorem tick_done (d : Disk) (req : BlkReq) : (d.tick req).pins.done = decide (d.st = .done) := by
  unfold tick
  cases d.st with
  | idle =>
      simp only [stepIdle]
      split_ifs <;> rfl
  | wait => rfl
  | move =>
      simp only [stepWrite, stepRead]
      split_ifs <;> rfl
  | done => rfl

theorem tick_bufWe (d : Disk) (req : BlkReq) :
    (d.tick req).pins.bufWe = (decide (d.st = .move) && !d.we) := by
  unfold tick
  cases d.st with
  | idle =>
      simp only [stepIdle]
      split_ifs <;> rfl
  | wait => rfl
  | move =>
      cases we : d.we with
      | false => rfl
      | true =>
          simp only [stepWrite, if_true]
          split_ifs <;> rfl
  | done => rfl

/-- At work it goes on with its request. -/
theorem tick_moves (req : BlkReq) (moves : d.st = .wait ∨ d.st = .move) :
    (d.tick req).st ≠ .idle ∧ (d.tick req).we = d.we ∧ (d.tick req).lba = d.lba := by
  unfold tick
  rcases moves with st | st
  · rw [st]
    simp only [stepWait]
    refine ⟨?_, rfl, rfl⟩
    split_ifs <;> simp
  · rw [st]
    cases we : d.we with
    | true =>
        simp only [stepWrite, if_true]
        refine ⟨?_, we, rfl⟩
        split_ifs <;> simp
    | false =>
        simp only [stepRead, Bool.false_eq_true, if_false]
        refine ⟨?_, we, rfl⟩
        split_ifs <;> simp

theorem tick_count (d : Disk) (req : BlkReq) : (d.tick req).pins.count = d.blocks := by
  unfold tick
  cases d.st with
  | idle =>
      simp only [stepIdle]
      split_ifs <;> rfl
  | wait => rfl
  | move =>
      simp only [stepWrite, stepRead]
      split_ifs <;> rfl
  | done => rfl

theorem tick_ready (d : Disk) (req : BlkReq) : (d.tick req).pins.ready = d.ready := by
  unfold tick
  cases d.st with
  | idle =>
      simp only [stepIdle]
      split_ifs <;> rfl
  | wait => rfl
  | move =>
      simp only [stepWrite, stepRead]
      split_ifs <;> rfl
  | done => rfl

/-! ### How long it takes -/

/-- The clocks a block is on its way. -/
def time (d : Disk) : ℕ :=
  if d.we then 513 else 512

/-- `k` clocks from its answer to a request for `lba`. -/
inductive Busy (lba : BitVec 32) : ℕ → Disk → Prop where
  | wait {d : Disk} {k : ℕ} (st : d.st = .wait) (first : d.addr = 0) (named : d.lba = lba)
      (left : k = d.wait.toNat + 1 + d.time) : Busy lba k d
  | move {d : Disk} {k : ℕ} (st : d.st = .move) (named : d.lba = lba)
      (left : d.addr + (k + 1) = d.time) : Busy lba (k + 1) d
  | done {d : Disk} (st : d.st = .done) (named : d.lba = lba) : Busy lba 0 d

theorem Busy.answers {lba : BitVec 32} (busy : Busy lba 0 d) : d.st = .done ∧ d.lba = lba := by
  cases busy with
  | wait st first named left => omega
  | done st named => exact ⟨st, named⟩

theorem Busy.works {lba : BitVec 32} {k : ℕ} (busy : Busy lba (k + 1) d) : d.st ≠ .done := by
  cases busy with
  | wait st => simp [st]
  | move st => simp [st]

/-- A clock brings the answer one nearer. -/
theorem Busy.tick {lba : BitVec 32} {k : ℕ} (busy : Busy lba (k + 1) d) (req : BlkReq) :
    Busy lba k (d.tick req) := by
  cases busy with
  | wait st first named left =>
      have next : d.tick req = d.settle.stepWait := by rw [Disk.tick, st]
      have waited : d.settle.wait = d.wait := rfl
      rw [next]
      by_cases last : d.wait ≤ 0
      · obtain ⟨j, all⟩ : ∃ j, d.time = j + 1 := by
          rw [time]
          split_ifs <;> exact ⟨_, rfl⟩
        obtain rfl : k = j + 1 := by omega
        refine .move ?_ named ?_
        · rw [stepWait, waited, if_pos last]
        · change d.addr + (j + 1) = d.time
          omega
      · refine .wait ?_ first named ?_
        · rw [stepWait, waited, if_neg last]
        · change k = (d.wait - 1).toNat + 1 + d.time
          omega
  | move st named left =>
      rw [time] at left
      cases we : d.we with
      | true =>
          have next : d.tick req = d.settle.stepWrite req.bufRdata := by simp [Disk.tick, st, we]
          have moves : (d.tick req).st = if 512 < d.addr + 1 then .done else .move := by
            rw [next]
            rfl
          rw [we, if_pos rfl] at left
          cases k with
          | zero => exact .done (moves.trans (if_pos (by omega))) (by rw [next]; exact named)
          | succ k =>
              refine .move (moves.trans (if_neg (by omega))) (by rw [next]; exact named) ?_
              rw [next]
              change d.addr + 1 + (k + 1) = if d.we then 513 else 512
              rw [we, if_pos rfl]
              omega
      | false =>
          have next : d.tick req = d.settle.stepRead := by simp [Disk.tick, st, we]
          have moves : (d.tick req).st = if d.addr + 1 = 512 then .done else .move := by
            rw [next]
            rfl
          rw [we, if_neg Bool.false_ne_true] at left
          cases k with
          | zero => exact .done (moves.trans (if_pos (by omega))) (by rw [next]; exact named)
          | succ k =>
              refine .move (moves.trans (if_neg (by omega))) (by rw [next]; exact named) ?_
              rw [next]
              change d.addr + 1 + (k + 1) = if d.we then 513 else 512
              rw [we, if_neg Bool.false_ne_true]
              omega

/-- A request puts the disk at rest to work. -/
theorem Busy.begins (idle : d.st = .idle) (start : req.start = true) :
    ∃ k ≤ d.latency.toNat + 514, Busy req.lba k (d.tick req) := by
  have next : d.tick req = d.settle.stepIdle req := by rw [Disk.tick, idle]
  rw [stepIdle, if_pos start] at next
  rw [next]
  refine ⟨_, ?_, .wait rfl rfl rfl rfl⟩
  change d.latency.toNat + 1 + (if req.we then 513 else 512) ≤ _
  split_ifs <;> omega

end Tick

end Disk

/-! ## The target with the disk behind it -/

/-- What comes from outside in a cycle. -/
structure Stim where
  rst : Bool := false
  bus : Scsi := {}

structure Rig where
  targ : State
  disk : Disk

namespace Rig

/-- The disk after the negative edge of the cycle. -/
def ticked (r : Rig) : Disk :=
  r.disk.tick (blkReq r.targ)

/-- What the target sees in the cycle. -/
def cycle (r : Rig) (i : Stim) : Cycle where
  rst := i.rst
  bus := i.bus
  blk := r.ticked.pins

def next (p : Params) (r : Rig) (i : Stim) : Rig where
  targ := clock p r.targ (r.cycle i)
  disk := r.ticked

/-- The run from reset, the disk as it is then. -/
def run (p : Params) (b : Buf) (disk : Disk) (stim : ℕ → Stim) : ℕ → Rig :=
  Clocked.run (next p) ⟨Targ.start b, disk⟩ stim

/-- What the target sees in it. -/
def seen (p : Params) (b : Buf) (disk : Disk) (stim : ℕ → Stim) (t : ℕ) : Cycle :=
  (run p b disk stim t).cycle (stim t)

/-- The target in it, which is a run of its own. -/
def target (p : Params) (b : Buf) (disk : Disk) (stim : ℕ → Stim) : ℕ → State :=
  Targ.run p (Targ.start b) (seen p b disk stim)

theorem run_targ (p : Params) (b : Buf) (disk : Disk) (stim : ℕ → Stim) (t : ℕ) :
    (run p b disk stim t).targ = target p b disk stim t := by
  induction t with
  | zero => rfl
  | succ t ih =>
      rw [target, Targ.run_succ, ← target, ← ih]
      rfl

/-- The blocks as the disk last had them at rest. -/
def holds (x : ℕ → Rig) : ℕ → Blocks
  | 0 => (x 0).disk.block
  | t + 1 => if (x (t + 1)).disk.st = .idle then (x (t + 1)).disk.block else holds x t

end Rig

/-! ## One request -/

section Serve

variable {p : Params} {b : Buf} {disk : Disk} {stim : ℕ → Stim} {v w : ℕ}

theorem Rig.disk_succ (t : ℕ) :
    (Rig.run p b disk stim (t + 1)).disk =
      (Rig.run p b disk stim t).disk.tick (blkReq (Rig.target p b disk stim t)) := by
  rw [← Rig.run_targ]
  rfl

theorem Rig.seen_done (t : ℕ) :
    (Rig.seen p b disk stim t).blk.done = decide ((Rig.run p b disk stim t).disk.st = .done) :=
  Disk.tick_done _ _

theorem Rig.same (t : ℕ) : Disk.Same disk (Rig.run p b disk stim t).disk := by
  induction t with
  | zero => exact ⟨rfl, rfl, rfl, rfl⟩
  | succ t ih =>
      rw [Rig.disk_succ]
      exact ih.trans (Disk.tick_same _ _)

theorem Rig.blocks_eq (t u : ℕ) :
    (Rig.run p b disk stim t).disk.blocks = (Rig.run p b disk stim u).disk.blocks :=
  (Rig.same t).blocks.trans (Rig.same u).blocks.symm

/-- The disk is at work on the request of cycle `w`. -/
structure Works (p : Params) (b : Buf) (disk : Disk) (stim : ℕ → Stim) (w v : ℕ) : Prop where
  later : w < v
  start : (blkReq (Rig.target p b disk stim w)).start = true
  idle : (Rig.run p b disk stim w).disk.st = .idle
  busy : ∀ u, w < u → u ≤ v → (Rig.run p b disk stim u).disk.st ≠ .idle
  silent : ∀ u, w < u → u < v → (Rig.run p b disk stim u).disk.st ≠ .done
  we : (Rig.run p b disk stim v).disk.we = (blkReq (Rig.target p b disk stim w)).we
  lba : (Rig.run p b disk stim v).disk.lba = (blkReq (Rig.target p b disk stim w)).lba

theorem Works.pending (works : Works p b disk stim w v) {u : ℕ} (low : w ≤ u) (high : u < v) :
    (Rig.seen p b disk stim u).blk.done = false := by
  rw [Rig.seen_done, decide_eq_false_iff_not]
  rcases Nat.lt_or_eq_of_le low with after | rfl
  · exact works.silent u after high
  · simp [works.idle]

/-- Meanwhile the target asks for nothing and leaves the buffer alone. -/
theorem Works.quiet (answers : AnswersCuts (Rig.target p b disk stim) (Rig.seen p b disk stim))
    (works : Works p b disk stim w v) :
    (blkReq (Rig.target p b disk stim v)).start = false ∧
      (Rig.target p b disk stim v).seq.aWe (Rig.seen p b disk stim v).bus = false := by
  have later := works.later
  have owned : Owned (Rig.target p b disk stim) (Rig.seen p b disk stim) v :=
    (accounted_run p b _ answers v).tracks.owned
  have busy (u : ℕ) (low : w ≤ u) (high : u ≤ v) :
      0 < owed (Rig.target p b disk stim) (Rig.seen p b disk stim) u :=
    owed_of_pending low works.start fun u above below => works.pending above (by omega)
  refine ⟨?_, owned.unwritten (busy v (by omega) (Nat.le_refl v))⟩
  by_contra start
  have none := owned.single (by simpa using start)
  obtain ⟨u, rfl⟩ : ∃ u, v = u + 1 := ⟨v - 1, by omega⟩
  have before := busy u (by omega) (by omega)
  rw [outstanding_succ, works.pending (by omega) (Nat.lt_succ_self u)] at none
  simp only [Bool.toNat_false] at none
  omega

/-- The disk takes the request on. -/
theorem Works.begin (idle : (Rig.run p b disk stim w).disk.st = .idle)
    (start : (blkReq (Rig.target p b disk stim w)).start = true) :
    Works p b disk stim w (w + 1) ∧ (Rig.run p b disk stim (w + 1)).disk.st = .wait ∧
      (Rig.run p b disk stim (w + 1)).disk.addr = 0 ∧
      (Rig.run p b disk stim (w + 1)).disk.media = (Rig.run p b disk stim w).disk.media := by
  have taken : (Rig.run p b disk stim (w + 1)).disk =
      (Rig.run p b disk stim w).disk.settle.stepIdle (blkReq (Rig.target p b disk stim w)) := by
    rw [Rig.disk_succ, Disk.tick, idle]
  rw [Disk.stepIdle, if_pos start] at taken
  refine ⟨⟨Nat.lt_succ_self w, start, idle, fun u low high => ?_, fun u low high => by omega, ?_, ?_⟩,
    ?_, ?_, ?_⟩
  · obtain rfl : u = w + 1 := by omega
    simp [taken]
  all_goals rw [taken]
  rfl

/-- And goes on with it. -/
theorem Works.succ (works : Works p b disk stim w v)
    (moves : (Rig.run p b disk stim v).disk.st = .wait ∨ (Rig.run p b disk stim v).disk.st = .move) :
    Works p b disk stim w (v + 1) := by
  have step : (Rig.run p b disk stim (v + 1)).disk = _ := Rig.disk_succ v
  have kept := Disk.tick_moves (blkReq (Rig.target p b disk stim v)) moves
  rw [← step] at kept
  have later := works.later
  refine ⟨by omega, works.start, works.idle, fun u low high => ?_, fun u low high => ?_,
    kept.2.1.trans works.we, kept.2.2.trans works.lba⟩
  · rcases Nat.lt_or_eq_of_le high with before | rfl
    · exact works.busy u low (by omega)
    · exact kept.1
  · rcases Nat.lt_succ_iff_lt_or_eq.mp high with before | rfl
    · exact works.silent u low before
    · rcases moves with st | st <;> simp [st]

/-! ### The buffer meanwhile -/

theorem Rig.seen_blk (t : ℕ) :
    (Rig.seen p b disk stim t).blk =
      ((Rig.run p b disk stim t).disk.tick (blkReq (Rig.target p b disk stim t))).pins := by
  rw [← Rig.run_targ]
  rfl

section Buffer

variable (answers : AnswersCuts (Rig.target p b disk stim) (Rig.seen p b disk stim))
include answers

theorem Works.mem_still (works : Works p b disk stim w v)
    (other : (Rig.run p b disk stim v).disk.st ≠ .move ∨ (Rig.run p b disk stim v).disk.we = true) :
    (Rig.target p b disk stim (v + 1)).buf.mem = (Rig.target p b disk stim v).buf.mem := by
  have closed : (Rig.seen p b disk stim v).blk.bufWe = false := by
    rw [Rig.seen_blk, Disk.tick_bufWe]
    rcases other with st | we
    · simp [st]
    · simp [we]
  have frame := run_mem_succ (p := p) (s := Targ.start b) (works.quiet answers).2
  rw [closed] at frame
  exact frame

theorem Works.mem_taken (works : Works p b disk stim w v)
    (st : (Rig.run p b disk stim v).disk.st = .move)
    (read : (Rig.run p b disk stim v).disk.we = false) :
    (Rig.target p b disk stim (v + 1)).buf.mem =
      Function.update (Rig.target p b disk stim v).buf.mem
        (BitVec.ofNat 9 (Rig.run p b disk stim v).disk.addr)
        ((Rig.run p b disk stim v).disk.stepRead.pins.bufWdata) := by
  have moved : (Rig.seen p b disk stim v).blk =
      (Rig.run p b disk stim v).disk.settle.stepRead.pins := by
    rw [Rig.seen_blk, Disk.tick, st, read]
    rfl
  have frame := run_mem_succ (p := p) (s := Targ.start b) (works.quiet answers).2
  rw [moved] at frame
  exact frame

/-- The latency passes. -/
theorem Works.waits (n : ℕ) (works : Works p b disk stim w v)
    (st : (Rig.run p b disk stim v).disk.st = .wait)
    (left : (Rig.run p b disk stim v).disk.wait.toNat = n) :
    ∃ m, Works p b disk stim w m ∧ (Rig.run p b disk stim m).disk.st = .move ∧
      (Rig.run p b disk stim m).disk.addr = (Rig.run p b disk stim v).disk.addr ∧
      (Rig.run p b disk stim m).disk.media = (Rig.run p b disk stim v).disk.media ∧
      (Rig.target p b disk stim m).buf.mem = (Rig.target p b disk stim v).buf.mem := by
  have mem := works.mem_still answers (.inl (by simp [st]))
  have next : (Rig.run p b disk stim (v + 1)).disk =
      (Rig.run p b disk stim v).disk.settle.stepWait := by
    rw [Rig.disk_succ, Disk.tick, st]
  have waited : (Rig.run p b disk stim v).disk.settle.wait =
      (Rig.run p b disk stim v).disk.wait := rfl
  have after := works.succ (.inl st)
  induction n generalizing v with
  | zero =>
      refine ⟨v + 1, after, ?_, ?_, ?_, mem⟩
      · rw [next, Disk.stepWait, waited, if_pos (by omega)]
      all_goals
        rw [next]
        rfl
  | succ n ih =>
      have on : (Rig.run p b disk stim (v + 1)).disk.st = .wait := by
        rw [next, Disk.stepWait, waited, if_neg (by omega)]
      have one : (Rig.run p b disk stim (v + 1)).disk.wait =
          (Rig.run p b disk stim v).disk.wait - 1 := by
        rw [next]
        rfl
      obtain ⟨m, works', moves, addr, media, same⟩ := ih after on (by omega)
        (after.mem_still answers (.inl (by simp [on]))) (by rw [Rig.disk_succ, Disk.tick, on]) rfl
        (after.succ (.inl on))
      refine ⟨m, works', moves, addr.trans ?_, media.trans ?_, same.trans mem⟩
      all_goals
        rw [next]
        rfl

/-- Media to buffer: after `k` clocks the first `k` bytes are there. -/
theorem Works.reads (works : Works p b disk stim w v)
    (st : (Rig.run p b disk stim v).disk.st = .move)
    (first : (Rig.run p b disk stim v).disk.addr = 0)
    (read : (blkReq (Rig.target p b disk stim w)).we = false) {k : ℕ} (inside : k ≤ 512) :
    Works p b disk stim w (v + k) ∧
      (Rig.run p b disk stim (v + k)).disk.st = (if k = 512 then .done else .move) ∧
      (Rig.run p b disk stim (v + k)).disk.addr = k ∧
      (Rig.run p b disk stim (v + k)).disk.media = (Rig.run p b disk stim v).disk.media ∧
      ∀ a : BitVec 9, a.toNat < k → (Rig.target p b disk stim (v + k)).buf.mem a =
        (Rig.run p b disk stim v).disk.block (blkReq (Rig.target p b disk stim w)).lba a := by
  induction k with
  | zero => exact ⟨works, by simp [st], first, rfl, fun a below => absurd below (Nat.not_lt_zero _)⟩
  | succ k ih =>
      obtain ⟨here, moves, addr, media, held⟩ := ih (by omega)
      rw [if_neg (by omega)] at moves
      have we := here.we.trans read
      have next : (Rig.run p b disk stim (v + k + 1)).disk =
          (Rig.run p b disk stim (v + k)).disk.settle.stepRead := by
        rw [Rig.disk_succ, Disk.tick, moves]
        simp [we]
      have counted : (Rig.run p b disk stim (v + k)).disk.settle.addr = k := addr
      have mem := here.mem_taken answers moves we
      refine ⟨here.succ (.inr moves), ?_, ?_, ?_, fun a below => ?_⟩
      · rw [← Nat.add_assoc, next, Disk.stepRead, counted]
      · rw [← Nat.add_assoc, next, Disk.stepRead, counted]
      · rw [← Nat.add_assoc, next, ← media]
        rfl
      · rw [← Nat.add_assoc, mem, addr]
        rcases Nat.lt_or_eq_of_le (Nat.lt_succ_iff.mp below) with earlier | rfl
        · have other : a ≠ BitVec.ofNat 9 k := by
            rintro rfl
            rw [BitVec.toNat_ofNat, Nat.mod_eq_of_lt (by omega)] at earlier
            omega
          rw [Function.update_of_ne other, held a earlier]
        · have same : a = BitVec.ofNat 9 a.toNat := by simp
          have blocks : (Rig.run p b disk stim (v + a.toNat)).disk.blocks =
              (Rig.run p b disk stim v).disk.blocks := Rig.blocks_eq _ _
          rw [← same, Function.update_self, Disk.stepRead, Disk.block, addr, here.lba, media, blocks]

/-- Buffer to media: the byte addressed in one clock is there in the next. -/
theorem Works.writes (works : Works p b disk stim w v)
    (st : (Rig.run p b disk stim v).disk.st = .move)
    (first : (Rig.run p b disk stim v).disk.addr = 0)
    (write : (blkReq (Rig.target p b disk stim w)).we = true) {k : ℕ} (inside : k ≤ 513) :
    Works p b disk stim w (v + k) ∧
      (Rig.run p b disk stim (v + k)).disk.st = (if k = 513 then .done else .move) ∧
      (Rig.run p b disk stim (v + k)).disk.addr = k ∧
      (Rig.target p b disk stim (v + k)).buf.mem = (Rig.target p b disk stim v).buf.mem ∧
      (0 < k → k ≤ 512 → (Rig.target p b disk stim (v + k)).buf.sbufRdata =
        (Rig.target p b disk stim v).buf.mem (BitVec.ofNat 9 (k - 1))) ∧
      (Rig.run p b disk stim (v + k)).disk.media =
        (Rig.run p b disk stim v).disk.filled (blkReq (Rig.target p b disk stim w)).lba
          (Rig.target p b disk stim v).buf.mem (k - 1) := by
  induction k with
  | zero =>
      exact ⟨works, by simp [st], first, rfl, fun positive => absurd positive (Nat.lt_irrefl 0),
        (Disk.filled_zero _ _ _).symm⟩
  | succ k ih =>
      obtain ⟨here, moves, addr, mem, fetched, media⟩ := ih (by omega)
      rw [if_neg (by omega)] at moves
      have we := here.we.trans write
      have next : (Rig.run p b disk stim (v + k + 1)).disk =
          (Rig.run p b disk stim (v + k)).disk.settle.stepWrite
            (Rig.target p b disk stim (v + k)).buf.sbufRdata := by
        rw [Rig.disk_succ, Disk.tick, moves]
        simp [we, blkReq]
      have counted : (Rig.run p b disk stim (v + k)).disk.settle.addr = k := addr
      have still := here.mem_still answers (.inr we)
      refine ⟨here.succ (.inr moves), ?_, ?_, still.trans mem, fun _ small => ?_, ?_⟩
      · rw [← Nat.add_assoc, next, Disk.stepWrite, counted]
        exact if_congr (by omega) rfl rfl
      · rw [← Nat.add_assoc, next, Disk.stepWrite, counted]
      · have read : (Rig.target p b disk stim (v + k + 1)).buf.sbufRdata =
            (Rig.target p b disk stim (v + k)).buf.mem (Rig.seen p b disk stim (v + k)).blk.bufAddr :=
          rfl
        have addressed : (Rig.seen p b disk stim (v + k)).blk.bufAddr = BitVec.ofNat 9 k := by
          rw [Rig.seen_blk, ← Rig.disk_succ, next, Disk.stepWrite, counted, if_pos (by omega)]
        rw [← Nat.add_assoc, read, addressed, mem, Nat.add_sub_cancel]
      · have same : (Rig.run p b disk stim (v + k)).disk.settle.blocks =
            (Rig.run p b disk stim v).disk.blocks := Rig.blocks_eq _ _
        have named : (Rig.run p b disk stim (v + k)).disk.settle.lba =
            (blkReq (Rig.target p b disk stim w)).lba := here.lba
        have kept : (Rig.run p b disk stim (v + k)).disk.settle.media =
            (Rig.run p b disk stim (v + k)).disk.media := rfl
        rw [← Nat.add_assoc, next, Disk.stepWrite, counted, same, named, kept, media,
          Nat.add_sub_cancel]
        rcases Nat.eq_zero_or_pos k with rfl | positive
        · rfl
        · obtain ⟨j, rfl⟩ : ∃ j, k = j + 1 := ⟨k - 1, by omega⟩
          rw [fetched positive (by omega), Nat.add_sub_cancel, Disk.filled_succ]
          exact if_congr (by simp) (by rw [← Nat.add_assoc, Nat.add_sub_cancel]) rfl

/-- A request of the disk at rest, until its answer. -/
theorem Rig.serves (idle : (Rig.run p b disk stim w).disk.st = .idle)
    (start : (blkReq (Rig.target p b disk stim w)).start = true) :
    ∃ d, Works p b disk stim w d ∧ (Rig.run p b disk stim d).disk.st = .done ∧
      ((blkReq (Rig.target p b disk stim w)).we = false →
        (Rig.target p b disk stim d).buf.mem =
          (Rig.run p b disk stim w).disk.block (blkReq (Rig.target p b disk stim w)).lba ∧
        (Rig.run p b disk stim d).disk.media = (Rig.run p b disk stim w).disk.media) ∧
      ((blkReq (Rig.target p b disk stim w)).we = true →
        (Rig.run p b disk stim d).disk.media =
          (Rig.run p b disk stim w).disk.filled (blkReq (Rig.target p b disk stim w)).lba
            (Rig.target p b disk stim w).buf.mem 512) := by
  obtain ⟨works, waiting, addr, media⟩ := Works.begin idle start
  obtain ⟨m, works, moves, addr', media', mem'⟩ := works.waits answers _ waiting rfl
  have same : (Rig.run p b disk stim m).disk.blocks = (Rig.run p b disk stim w).disk.blocks :=
    Rig.blocks_eq m w
  have settled := media'.trans media
  have mem : (Rig.target p b disk stim (w + 1)).buf.mem = (Rig.target p b disk stim w).buf.mem := by
    have owned : Owned (Rig.target p b disk stim) (Rig.seen p b disk stim) w :=
      (accounted_run p b _ answers w).tracks.owned
    have silent := owned.unwritten (by simp [owed, start])
    have closed : (Rig.seen p b disk stim w).blk.bufWe = false := by
      rw [Rig.seen_blk, Disk.tick_bufWe]
      simp [idle]
    have frame := run_mem_succ (p := p) (s := Targ.start b) silent
    rw [closed] at frame
    exact frame
  cases we : (blkReq (Rig.target p b disk stim w)).we with
  | false =>
      obtain ⟨there, done, -, media, held⟩ :=
        works.reads answers moves (addr'.trans addr) we (Nat.le_refl 512)
      refine ⟨m + 512, there, done, fun _ => ⟨?_, media.trans settled⟩, by simp⟩
      funext a
      rw [held a a.isLt, Disk.block, Disk.block, settled, same]
  | true =>
      obtain ⟨there, done, -, -, -, media⟩ :=
        works.writes answers moves (addr'.trans addr) we (Nat.le_refl 513)
      refine ⟨m + 513, there, done, by simp, fun _ => ?_⟩
      rw [media, mem', mem]
      funext n
      simp only [Disk.filled, settled, same]

end Buffer

/-! ## Every request -/

/-- A disk that is at work works on some request. -/
theorem Rig.works_of_busy (idle : disk.st = .idle) {t : ℕ}
    (busy : (Rig.run p b disk stim t).disk.st ≠ .idle) : ∃ w, Works p b disk stim w t := by
  induction t with
  | zero => exact absurd idle busy
  | succ t ih =>
      have next : (Rig.run p b disk stim (t + 1)).disk = _ := Rig.disk_succ t
      cases st : (Rig.run p b disk stim t).disk.st with
      | idle =>
          cases start : (blkReq (Rig.target p b disk stim t)).start with
          | true => exact ⟨t, (Works.begin st start).1⟩
          | false =>
              rw [Disk.tick, st, Disk.stepIdle, start] at next
              exact absurd (next ▸ st) busy
      | wait =>
          obtain ⟨w, works⟩ := ih (by simp [st])
          exact ⟨w, works.succ (.inl st)⟩
      | move =>
          obtain ⟨w, works⟩ := ih (by simp [st])
          exact ⟨w, works.succ (.inr st)⟩
      | done =>
          rw [Disk.tick, st] at next
          exact absurd (next ▸ rfl) busy

/-- It writes the buffer for a READ alone, before it has answered it. -/
theorem Rig.inside (idle : disk.st = .idle) (writes : (Rig.seen p b disk stim v).blk.bufWe = true) :
    ∃ w, w ≤ v ∧ (blkReq (Rig.target p b disk stim w)).start = true ∧
      (blkReq (Rig.target p b disk stim w)).we = false ∧
      ∀ u, w ≤ u → u < v → (Rig.seen p b disk stim u).blk.done = false := by
  rw [Rig.seen_blk, Disk.tick_bufWe, Bool.and_eq_true, decide_eq_true_eq] at writes
  obtain ⟨st, we⟩ := writes
  obtain ⟨w, works⟩ := Rig.works_of_busy idle (show (Rig.run p b disk stim v).disk.st ≠ .idle
    by simp [st])
  refine ⟨w, Nat.le_of_lt works.later, works.start, ?_, fun u low high => works.pending low high⟩
  rw [← works.we]
  simpa using we

/-- At rest the disk holds what it holds. -/
theorem Rig.holds_of_idle {x : ℕ → Rig} {t : ℕ} (idle : (x t).disk.st = .idle) :
    holds x t = (x t).disk.block := by
  cases t with
  | zero => rfl
  | succ t => exact if_pos idle

/-- At work it holds what it held. -/
theorem Works.holds (works : Works p b disk stim w v) :
    Rig.holds (Rig.run p b disk stim) v = (Rig.run p b disk stim w).disk.block := by
  rw [← Rig.holds_of_idle works.idle]
  have held (u : ℕ) (low : w ≤ u) (high : u ≤ v) :
      Rig.holds (Rig.run p b disk stim) u = Rig.holds (Rig.run p b disk stim) w := by
    induction u, low using Nat.le_induction with
    | base => rfl
    | succ u low ih =>
        rw [← ih (by omega)]
        exact if_neg (works.busy (u + 1) (by omega) high)
  exact held v (Nat.le_of_lt works.later) (Nat.le_refl v)

end Serve

/-- A run of the target with the disk behind it: a wait that a reset cuts short is answered before
the next READ or WRITE is taken on, and these are exact. -/
structure Rig.Proper (p : Params) (b : Buf) (disk : Disk) (stim : ℕ → Stim) : Prop where
  idle : disk.st = .idle
  answers : AnswersCuts (Rig.target p b disk stim) (Rig.seen p b disk stim)
  exactly : ∀ t, Takes (Rig.target p b disk stim) (Rig.seen p b disk stim) t →
    (Rig.target p b disk stim t).seq.Exact

section Proper

variable {p : Params} {b : Buf} {disk : Disk} {stim : ℕ → Stim} {v w d : ℕ}

/-- A request finds the disk at rest. -/
theorem Rig.Proper.idle_of_start (proper : Rig.Proper p b disk stim)
    (start : (blkReq (Rig.target p b disk stim w)).start = true) :
    (Rig.run p b disk stim w).disk.st = .idle := by
  by_contra busy
  obtain ⟨u, works⟩ := Rig.works_of_busy proper.idle busy
  rw [(works.quiet proper.answers).1] at start
  exact Bool.false_ne_true start

theorem Works.answered (works : Works p b disk stim w d) (proper : Rig.Proper p b disk stim)
    (done : (Rig.run p b disk stim d).disk.st = .done) :
    Answered (Rig.target p b disk stim) (Rig.seen p b disk stim) w d := by
  refine ⟨Nat.le_of_lt works.later, works.start, fun v low high => ?_,
    fun v low high => works.pending low high, ?_⟩
  · obtain ⟨u, other⟩ := Rig.works_of_busy proper.idle (works.busy v low high)
    exact (other.quiet proper.answers).1
  · rw [Rig.seen_done, done]
    rfl

/-- An answer is the end of the work on its request. -/
theorem Rig.Proper.works (proper : Rig.Proper p b disk stim)
    (answered : Answered (Rig.target p b disk stim) (Rig.seen p b disk stim) w d) :
    Works p b disk stim w d ∧ (Rig.run p b disk stim d).disk.st = .done := by
  have done : (Rig.run p b disk stim d).disk.st = .done := by
    have shown := answered.done
    rw [Rig.seen_done] at shown
    simpa using shown
  obtain ⟨u, works⟩ := Rig.works_of_busy proper.idle (show (Rig.run p b disk stim d).disk.st ≠ .idle
    by simp [done])
  obtain rfl := answered.unique (works.answered proper done)
  exact ⟨works, done⟩

/-- What the disk has done by then. -/
theorem Rig.Proper.effect (proper : Rig.Proper p b disk stim)
    (answered : Answered (Rig.target p b disk stim) (Rig.seen p b disk stim) w d) :
    ((blkReq (Rig.target p b disk stim w)).we = false →
      (Rig.target p b disk stim d).buf.mem =
        (Rig.run p b disk stim w).disk.block (blkReq (Rig.target p b disk stim w)).lba ∧
      (Rig.run p b disk stim (d + 1)).disk.block = (Rig.run p b disk stim w).disk.block) ∧
    ((blkReq (Rig.target p b disk stim w)).we = true →
      (Rig.run p b disk stim (d + 1)).disk.block =
        Function.update (Rig.run p b disk stim w).disk.block
          (blkReq (Rig.target p b disk stim w)).lba (Rig.target p b disk stim w).buf.mem) := by
  obtain ⟨works, done⟩ := proper.works answered
  obtain ⟨e, works', done', read, write⟩ := Rig.serves proper.answers works.idle works.start
  obtain rfl : e = d := by
    have later := works.later
    have later' := works'.later
    rcases Nat.lt_trichotomy e d with before | same | after
    · exact absurd done' (works.silent e later' before)
    · exact same
    · exact absurd done (works'.silent d later after)
  have rests : (Rig.run p b disk stim (e + 1)).disk.media = (Rig.run p b disk stim e).disk.media := by
    rw [Rig.disk_succ, Disk.tick, done]
    rfl
  have same : (Rig.run p b disk stim (e + 1)).disk.blocks = (Rig.run p b disk stim w).disk.blocks :=
    Rig.blocks_eq _ w
  refine ⟨fun we => ?_, fun we => ?_⟩
  · obtain ⟨mem, media⟩ := read we
    refine ⟨mem, ?_⟩
    funext lba a
    rw [Disk.block, Disk.block, same, rests, media]
  · have sized (t : ℕ) (_ : (Rig.seen p b disk stim t).blk.ready = true) :
        (Rig.seen p b disk stim t).blk.count = disk.blocks := by
      rw [Rig.seen_blk, Disk.tick_count, (Rig.same t).blocks]
    have inside := inside_of_start p b _ disk.blocks (fun t _ => sized t) proper.exactly works.start
    rw [← (Rig.same w : Disk.Same disk (Rig.run p b disk stim w).disk).blocks] at inside
    exact Disk.block_filled same inside (rests.trans (write we))

/-- The disk keeps the contract of the block interface. -/
theorem Rig.Proper.device (proper : Rig.Proper p b disk stim) :
    Device (fun _ => disk.fails) (Rig.holds (Rig.run p b disk stim)) (Rig.target p b disk stim)
      (Rig.seen p b disk stim) := by
  have idle_after {w d : ℕ}
      (answered : Answered (Rig.target p b disk stim) (Rig.seen p b disk stim) w d) :
      (Rig.run p b disk stim (d + 1)).disk.st = .idle := by
    rw [Rig.disk_succ, Disk.tick, (proper.works answered).2]
    rfl
  constructor
  · intro w start
    obtain ⟨d, works, done, -⟩ := Rig.serves proper.answers (proper.idle_of_start start) start
    exact ⟨d, works.answered proper done⟩
  · intro w d answered
    obtain ⟨works, done⟩ := proper.works answered
    have failLba := (Rig.same d : Disk.Same disk (Rig.run p b disk stim d).disk).failLba
    rw [Rig.seen_blk, Disk.tick, done]
    simp only [Disk.stepDone, Disk.fails, ← works.lba, ← failLba]
    rfl
  · intro w d answered we _
    obtain ⟨works, done⟩ := proper.works answered
    obtain ⟨mem, -⟩ := (proper.effect answered).1 we
    rw [works.mem_still proper.answers (.inl (by simp [done])), mem, works.holds]
  · intro w d answered we _
    obtain ⟨works, done⟩ := proper.works answered
    rw [Rig.holds_of_idle (idle_after answered), (proper.effect answered).2 we, works.holds]
  · intro w d answered we other apart
    obtain ⟨works, done⟩ := proper.works answered
    rw [Rig.holds_of_idle (idle_after answered), (proper.effect answered).2 we, works.holds,
      Function.update_of_ne apart]
  · intro d reads
    by_cases idle : (Rig.run p b disk stim (d + 1)).disk.st = .idle
    · have next : (Rig.run p b disk stim (d + 1)).disk = _ := Rig.disk_succ d
      by_cases before : (Rig.run p b disk stim d).disk.st = .idle
      · rw [Rig.holds_of_idle idle, Rig.holds_of_idle before, next, Disk.tick, before,
          Disk.stepIdle]
        split_ifs <;> rfl
      · obtain ⟨w, works⟩ := Rig.works_of_busy proper.idle before
        have done : (Rig.run p b disk stim d).disk.st = .done := by
          by_contra other
          have moves : (Rig.run p b disk stim d).disk.st = .wait ∨
              (Rig.run p b disk stim d).disk.st = .move := by
            cases st : (Rig.run p b disk stim d).disk.st <;> simp_all
          exact (works.succ moves).busy (d + 1) (by have := works.later; omega) (Nat.le_refl _) idle
        have answered := works.answered proper done
        rw [Rig.holds_of_idle idle, works.holds]
        exact ((proper.effect answered).1 (reads w answered)).2
    · exact if_neg idle
  · exact fun v writes => Rig.inside proper.idle writes

end Proper

/-- In every proper run the disk in software serves the block interface, and holds at rest what the
contract says. -/
theorem disk_serves (p : Params) (b : Buf) (disk : Disk) (stim : ℕ → Stim)
    (proper : Rig.Proper p b disk stim) :
    ∃ blocks, Device (fun _ => disk.fails) blocks (Rig.target p b disk stim)
        (Rig.seen p b disk stim) ∧
      ∀ t, (Rig.run p b disk stim t).disk.st = .idle →
        (Rig.run p b disk stim t).disk.block = blocks t :=
  ⟨_, proper.device, fun _ idle => (Rig.holds_of_idle idle).symm⟩

/-! ## A command for the disk -/

/-- No command is on its way in. -/
structure Away (s : Seq) : Prop where
  selwait : s.st ≠ .selwait
  msgout : s.st ≠ .msgout
  cmd : s.st ≠ .cmd
  exec : s.st ≠ .exec

/-- None comes in while the target is not selected. -/
theorem Away.clock {p : Params} {s : Seq} {c : Cycle} (away : Away s)
    (unnamed : selMatch p c.bus = false) : Away (s.clock p c) := by
  obtain ⟨selwait, msgout, cmd, exec⟩ := away
  have edge := Seq.clock_edge p s c
  generalize s.clock p c = t at edge
  cases edge with
  | selected _ _ _ named => simp [unnamed] at named
  | held _ _ st => exact absurd st selwait
  | attends _ _ st => exact absurd st selwait
  | begins _ _ st => exact absurd st selwait
  | command _ _ st => exact absurd st msgout
  | execute _ _ st => exact absurd st cmd
  | decide _ _ st => exact absurd st exec
  | _ => constructor <;> simp_all [Seq.reset]

/-- An initiator that sends a ten-byte command for block five, and then answers every REQ at once
with the number of the byte. -/
def Rig.answer (op : Byte) (n : BitVec 16) (t : ℕ) (r : Rig) : Stim where
  bus :=
    if t < 53 then (command {} (tenBytes op 5 n)).getD t {}
    else {
      bsy := r.targ.seq.connected
      req := r.targ.seq.req
      ack := r.targ.seq.req
      data := r.targ.seq.idx.setWidth 8 }

/-- A disk on which every byte tells where it is, and block six is bad. -/
def benchDisk : Disk where
  media := fun n => BitVec.ofNat 8 n
  blocks := 2048
  failLba := 6

/-- The target and the bench disk, with the bus as `answer` has it. -/
def Rig.closed (answer : ℕ → Rig → Stim) : ℕ → Rig
  | 0 => ⟨Targ.start .blank, benchDisk⟩
  | t + 1 => (closed answer t).next {} (answer t (closed answer t))

def Rig.closedStim (answer : ℕ → Rig → Stim) (t : ℕ) : Stim :=
  answer t (closed answer t)

section Closed

variable {answer : ℕ → Rig → Stim}

theorem Rig.run_closed : Rig.run {} .blank benchDisk (closedStim answer) = closed answer := by
  funext t
  induction t with
  | zero => rfl
  | succ t ih => exact congrArg (fun r => Rig.next {} r (closedStim answer t)) ih

theorem Rig.target_closed (t : ℕ) :
    target {} .blank benchDisk (closedStim answer) t = (closed answer t).targ := by
  rw [← run_targ, run_closed]

theorem Rig.seen_closed (t : ℕ) : seen {} .blank benchDisk (closedStim answer) t =
    (closed answer t).cycle (closedStim answer t) := by
  rw [seen, run_closed]

/-- No command comes in while nothing selects the target. -/
theorem Rig.closed_away {s t : ℕ} (first : Away (closed answer s).targ.seq)
    (unnamed : ∀ u, s ≤ u → u < t → selMatch {} (closedStim answer u).bus = false) (late : s ≤ t) :
    Away (closed answer t).targ.seq := by
  induction t, late using Nat.le_induction with
  | base => exact first
  | succ t late ih =>
      exact (ih fun u low high => unnamed u low (by omega)).clock
        (c := (closed answer t).cycle (closedStim answer t)) (unnamed t late (Nat.lt_succ_self t))

end Closed

def Rig.bench (op : Byte) (n : BitVec 16) : ℕ → Rig :=
  closed (answer op n)

def Rig.benchStim (op : Byte) (n : BitVec 16) : ℕ → Stim :=
  closedStim (answer op n)

section Bench

variable {op : Byte} {n : BitVec 16}

theorem Rig.target_bench (t : ℕ) :
    target {} .blank benchDisk (benchStim op n) t = (bench op n t).targ :=
  target_closed t

theorem Rig.seen_bench (t : ℕ) :
    seen {} .blank benchDisk (benchStim op n) t = (bench op n t).cycle (benchStim op n t) :=
  seen_closed t

theorem Rig.benchStim_late {t : ℕ} (late : 53 ≤ t) :
    (benchStim op n t).bus = {
      bsy := (bench op n t).targ.seq.connected
      req := (bench op n t).targ.seq.req
      ack := (bench op n t).targ.seq.req
      data := (bench op n t).targ.seq.idx.setWidth 8 } :=
  if_neg (by omega)

theorem Rig.bench_away (first : Away (bench op n 53).targ.seq) {t : ℕ} (late : 53 ≤ t) :
    Away (bench op n t).targ.seq := by
  refine closed_away first (fun u later _ => ?_) late
  rw [← benchStim, benchStim_late later]
  rfl

/-- What the bench comes to: an exact command for blocks of the disk, taken on in cycle 52. -/
structure Rig.Taken (op : Byte) (n : BitVec 16) : Prop where
  calm : ∀ t < 53, ((command {} (tenBytes op 5 n)).getD t {}).rst = false
  free : ((command {} (tenBytes op 5 n)).getD 52 {}).ack = false
  before : ∀ t < 52, (bench op n t).targ.seq.st ∉ [.exec, .rdwait, .wrwait] ∧
    (blkReq (bench op n t).targ).start = false
  exec : (bench op n 52).targ.seq.st = .exec ∧ (bench op n 52).targ.seq.req = false
  lun : (bench op n 52).targ.seq.lun = 0
  op_eq : (bench op n 52).targ.seq.op = op
  lba : (bench op n 52).targ.seq.cmdLba = 5
  count : (bench op n 52).targ.seq.cmdBlocks = n.setWidth 24
  pins : ((bench op n 52).cycle (benchStim op n 52)).blk = { ready := true, count := 2048 }
  after : (bench op n 53).targ.seq.st = .rdwait ∨ (bench op n 53).targ.seq.st = .dataout
  silent : (blkReq (bench op n 52).targ).start = false
  asks : (blkReq (bench op n 53).targ).start = decide (op = cRead10)

namespace Rig.Taken

theorem only (taken : Taken op n) (t : ℕ) (early : t < 52) : (bench op n t).targ.seq.st ≠ .exec :=
  fun exec => (taken.before t early).1 (by simp [exec])

theorem away (taken : Taken op n) {t : ℕ} (late : 53 ≤ t) : Away (bench op n t).targ.seq := by
  refine bench_away ?_ late
  constructor <;> rcases taken.after with st | st <;> simp [st]

theorem rst (taken : Taken op n) (t : ℕ) : (benchStim op n t).bus.rst = false := by
  rcases Nat.lt_or_ge t 53 with early | late
  · simp only [benchStim, closedStim, answer, if_pos early]
    exact taken.calm t early
  · rw [benchStim_late late]

theorem proper (taken : Taken op n) (few : n ≠ 0) :
    Rig.Proper {} .blank benchDisk (benchStim op n) := by
  refine ⟨rfl, fun t u _ cut => ?_, fun t takes => ?_⟩
  · have reset : (benchStim op n t).rst = true ∨ (benchStim op n t).bus.rst = true := cut.reset
    rcases reset with pin | rst
    · cases pin
    · rw [taken.rst] at rst
      cases rst
  · have exec := takes.exec
    rw [target_bench] at exec ⊢
    rcases Nat.lt_trichotomy t 52 with early | rfl | late
    · exact absurd exec (taken.only t early)
    · have small := n.isLt
      refine ⟨?_, ?_⟩
      · rw [taken.count]
        intro none
        refine few (BitVec.eq_of_toNat_eq ?_)
        have zero := congrArg BitVec.toNat none
        rw [BitVec.toNat_setWidth, Nat.mod_eq_of_lt (by omega)] at zero
        exact zero
      · rw [taken.count, taken.lba, BitVec.toNat_setWidth, Nat.mod_eq_of_lt (by omega)]
        simp
        omega
    · exact absurd exec (taken.away late).exec

/-- Its initiator completes every handshake. -/
theorem patient (taken : Taken op n) :
    Patient (target {} .blank benchDisk (benchStim op n)) (seen {} .blank benchDisk (benchStim op n))
      52 := by
  have ack {t : ℕ} (later : 52 ≤ t) :
      (benchStim op n t).bus.ack = (bench op n t).targ.seq.req := by
    rcases Nat.eq_or_lt_of_le later with rfl | late
    · rw [taken.exec.2, benchStim, closedStim, answer]
      exact taken.free
    · rw [benchStim_late late]
  refine ⟨fun _ _ => rfl, fun t _ => taken.rst t, fun t later asks => ?_, fun t later rests => ?_⟩
  all_goals
    refine ⟨t, Nat.le_refl t, (ack later).trans ?_⟩
    rwa [target_bench] at *

theorem addressed (taken : Taken op n) (media : op = cRead10 ∨ op = cWrite10) (few : n.toNat < 2000) :
    (target {} .blank benchDisk (benchStim op n) 52).seq.Addressed
      (seen {} .blank benchDisk (benchStim op n) 52).blk := by
  rw [target_bench, seen_bench]
  refine ⟨taken.lun, ?_, ?_, ?_⟩
  · simp only [Seq.cdbIsRead, Seq.cdbIsWrite, taken.op_eq]
    rcases media with rfl | rfl <;> rfl
  · rw [taken.pins]
  · rw [taken.pins, taken.lba, taken.count, BitVec.toNat_setWidth, Nat.mod_eq_of_lt (by omega)]
    simp
    omega

/-- Nothing is asked of the disk as a WRITE is taken on. -/
theorem unasked (taken : Taken op n) (other : op ≠ cRead10) {t : ℕ} (early : t ≤ 53) :
    (blkReq (bench op n t).targ).start = false := by
  rcases Nat.lt_or_eq_of_le early with before | rfl
  · rcases Nat.lt_or_eq_of_le (Nat.le_of_lt_succ before) with early | rfl
    · exact (taken.before t early).2
    · exact taken.silent
  · rw [taken.asks, decide_eq_false_iff_not]
    exact other

theorem rests (taken : Taken op n) (other : op ≠ cRead10) :
    Rests (target {} .blank benchDisk (benchStim op n)) (seen {} .blank benchDisk (benchStim op n))
      53 := by
  intro t early start
  rw [target_bench, taken.unasked other early] at start
  cases start

end Rig.Taken

end Bench

/-- Two blocks are read, two are written, and one is. -/
theorem benches :
    Rig.Taken cRead10 2 ∧ Rig.Taken cWrite10 2 ∧ Rig.Taken cWrite10 1 := by
  refine ⟨?_, ?_, ?_⟩ <;> constructor <;> decide +kernel

theorem disk_serves_a_read :
    (blkReq (Rig.target {} .blank benchDisk (Rig.benchStim cRead10 2) 53)).start = true ∧
    ∃ blocks, Device (fun _ => benchDisk.fails) blocks
        (Rig.target {} .blank benchDisk (Rig.benchStim cRead10 2))
        (Rig.seen {} .blank benchDisk (Rig.benchStim cRead10 2)) ∧
      ∀ t, (Rig.run {} .blank benchDisk (Rig.benchStim cRead10 2) t).disk.st = .idle →
        (Rig.run {} .blank benchDisk (Rig.benchStim cRead10 2) t).disk.block = blocks t := by
  refine ⟨?_, disk_serves _ _ _ _ (benches.1.proper (by decide))⟩
  rw [Rig.target_bench, benches.1.asks]
  rfl

end Wish5380.Block
