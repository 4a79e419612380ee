import Wish5380.Block.Disk

/-!
# READ from a device

Whatever serves the block interface, and however long it takes: a READ delivers the blocks up to
the first bad one, in order and byte by byte, leaves all of them as they are, and says in its
status and its sense where it stopped.
-/

namespace Wish5380.Block

open Targ

/-- A command under way that has nothing to report yet. -/
structure Plain (s : Seq) : Prop where
  op : s.op ≠ cRequestSense
  sense : s.sense = noSense

namespace Plain

variable {s : Seq} {blk : BlkRsp}

theorem released (plain : Plain s) (data : s.st = .datain ∨ s.st = .dataout) :
    Plain (Seq.released { s with hs := .rel }) := by
  rcases data with st | st
  · simp only [Seq.released, st, Seq.datainReleased]
    split_ifs <;> exact ⟨plain.op, plain.sense⟩
  · simp only [Seq.released, st, Seq.dataoutReleased]
    split_ifs <;> exact ⟨plain.op, plain.sense⟩

theorem endPulse (plain : Plain s) : Plain s.endPulse :=
  ⟨plain.op, plain.sense⟩

theorem stepRdwait (plain : Plain s) (done : blk.done = true) (clean : blk.err = false) :
    Plain (s.stepRdwait blk) := by
  simp only [Seq.stepRdwait, mediaFault, done, clean]
  exact ⟨plain.op, plain.sense⟩

theorem stepWrwait (plain : Plain s) (done : blk.done = true) (clean : blk.err = false) :
    Plain (s.stepWrwait blk) := by
  rw [Seq.stepWrwait_done done clean]
  split_ifs <;> exact ⟨plain.op, plain.sense⟩

/-- A command that has just been taken on. -/
theorem taken (op : s.op ≠ cRequestSense) : Plain s.taken := by
  have defaults : s.execDefaults.sense = noSense := by
    unfold Seq.execDefaults
    rw [if_neg op]
    rfl
  exact ⟨by simpa [Seq.taken, Seq.op] using op, defaults⟩

/-- A bad block ends the command. -/
theorem mediumError {lba : BitVec 32} (plain : Plain s) (lba_eq : s.lba = lba) (hs : s.hs = .setup)
    (quiet : s.blkStart = false) : Verdict s.mediumError (some lba) := by
  refine ⟨rfl, hs, quiet, plain.op, rfl, ?_⟩
  simp [Seq.mediumError, Seq.checkCondition, Seq.sense, verdict, lba_eq]

end Plain

/-- READ and WRITE are not REQUEST SENSE. -/
theorem op_of_media {s : Seq} (media : (s.cdbIsRead || s.cdbIsWrite) = true) :
    s.op ≠ cRequestSense := by
  intro is
  simp [Seq.cdbIsRead, Seq.cdbIsWrite, is] at media

/-- About to set up byte `k` of a block that the buffer holds. -/
structure Holding (x : ℕ → State) (input : ℕ → Cycle) (m : BitVec 9 → Byte) (lba : BitVec 32)
    (left k v : ℕ) : Prop where
  moving : (x v).seq.Moving .datain lba left k
  rests : Rests x input v
  mem : (x v).buf.mem = m
  plain : Plain (x v).seq

section Run

variable {bad : Bool → BitVec 32 → Bool} {blocks : ℕ → Blocks} {p : Params} {s : State}
  {input : ℕ → Cycle} {since v w : ℕ} {lba : BitVec 32} {left k : ℕ} {m : BitVec 9 → Byte}

/-- Over a byte of DATA IN nobody writes the buffer. -/
theorem Device.mem_over_byte (device : Device bad blocks (run p s input) input) {a r : ℕ}
    (moved : ByteMoved (run p s input) input (run p s input v).seq v a r)
    (st : (run p s input v).seq.st = .datain) (quiet : (run p s input v).seq.blkStart = false)
    (rests : Rests (run p s input) input v) {u : ℕ} (low : v ≤ u) (high : u ≤ r + 1) :
    (run p s input u).buf.mem = (run p s input v).buf.mem := by
  induction u, low using Nat.le_induction with
  | base => rfl
  | succ u low ih =>
      have place : (run p s input u).seq.st = .datain := (moved.st_eq low (by omega)).trans st
      have closed := device.untouched (rests_over_byte moved quiet rests low (by omega))
      rw [run_mem_succ (aWe_of_st _ (by simp [place])), closed, ← ih (by omega)]
      rfl

/-- One byte of DATA IN. -/
theorem Holding.byte (device : Device bad blocks (run p s input) input)
    (patient : Patient (run p s input) input since) (later : since ≤ v) (positive : 0 < v)
    (holding : Holding (run p s input) input m lba left k v) :
    ∃ a r, ByteMoved (run p s input) input (run p s input v).seq v a r ∧
      Plain (run p s input (r + 1)).seq ∧ (run p s input (r + 1)).buf.mem = m ∧
      blocks (r + 1) = blocks v ∧
      Clocked.Stretch (dataInBytes p (run p s input) input) (ShowsDataIn p (run p s input) input)
        v (r + 1) [m (BitVec.ofNat 9 k)] := by
  obtain ⟨moving, rests, mem, plain⟩ := holding
  obtain ⟨a, r, moved⟩ := byteMoved patient later (moving.movesByte (.inl rfl)) moving.quiet
    moving.hs_eq
  have asked := moved.asked
  have freed := moved.freed
  have loaded : Loaded (fun _ => m) (run p s input) input (v - 1) lba left k v := by
    refine ⟨by omega, moving, mem, ?_⟩
    rintro ⟨w, low, high, start, -⟩
    obtain rfl : w = v := by omega
    simp [blkReq, moving.quiet] at start
  refine ⟨a, r, moved, ?_, ?_, ?_, byte_shown loaded moved⟩
  · rw [moved.after]
    exact plain.released (.inl moving.st_eq)
  · rw [device.mem_over_byte moved moving.st_eq moving.quiet rests (by omega) (Nat.le_refl _), mem]
  · exact device.kept_over_byte moved moving.quiet rests

/-- The bytes of a block, up to the release of the last. -/
theorem Holding.block (device : Device bad blocks (run p s input) input)
    (patient : Patient (run p s input) input since) (later : since ≤ v) (positive : 0 < v)
    (holding : Holding (run p s input) input m lba left 0 v) :
    ∃ u, ∃ b : Seq, v < u ∧ b.Moving .datain lba left 511 ∧
      (run p s input u).seq = Seq.released { b with hs := .rel } ∧
      Plain (run p s input u).seq ∧ Rests (run p s input) input (u - 1) ∧ blocks u = blocks v ∧
      Clocked.Stretch (dataInBytes p (run p s input) input) (ShowsDataIn p (run p s input) input)
        v u (sector m) := by
  have advance : ∀ i < 511, ∀ u, (v ≤ u ∧ Holding (run p s input) input m lba left i u ∧
      blocks u = blocks v) →
      ∃ w, (v ≤ w ∧ Holding (run p s input) input m lba left (i + 1) w ∧ blocks w = blocks v) ∧
        Clocked.Stretch (dataInBytes p (run p s input) input)
          (ShowsDataIn p (run p s input) input) u w [m (BitVec.ofNat 9 i)] := by
    rintro i below u ⟨reached, here, same⟩
    obtain ⟨a, r, moved, plain, mem, kept, shown⟩ :=
      here.byte device patient (by omega) (by omega)
    have asked := moved.asked
    have freed := moved.freed
    have moving : (run p s input (r + 1)).seq.Moving .datain lba left (i + 1) := by
      rw [moved.after]
      exact here.moving.byte below (.inl rfl)
    have rests := rests_over_byte moved here.moving.quiet here.rests (u := r) (by omega)
      (Nat.le_refl r)
    exact ⟨r + 1, ⟨by omega, ⟨moving, rests.succ moving.quiet, mem, plain⟩, kept.trans same⟩, shown⟩
  obtain ⟨u, ⟨reached, last, same⟩, bytes⟩ := Clocked.Stretch.stages advance
    ⟨Nat.le_refl v, holding, rfl⟩
  obtain ⟨a, r, moved, plain, mem, kept, shown⟩ := last.byte device patient (by omega) (by omega)
  have asked := moved.asked
  have freed := moved.freed
  have rests := rests_over_byte moved last.moving.quiet last.rests (u := r) (by omega) (Nat.le_refl r)
  refine ⟨r + 1, _, by omega, last.moving, moved.after, plain, rests, kept.trans same, ?_⟩
  have whole := bytes.trans shown
  rw [← List.flatMap_singleton (fun k => [m (BitVec.ofNat 9 k)]) 511, ← List.flatMap_append,
    ← List.range_succ, ← List.map_eq_flatMap] at whole
  exact whole

/-- The wait for a block of a READ: a bad one ends the command, a good one comes into the buffer. -/
theorem Device.arrives (device : Device bad blocks (run p s input) input)
    (patient : Patient (run p s input) input since) (later : since ≤ w)
    (asking : (run p s input w).seq.Asking .rdwait false lba left)
    (plain : Plain (run p s input w).seq) :
    ∃ d, w ≤ d ∧ blocks (d + 1) = blocks w ∧
      Clocked.Stretch (dataInBytes p (run p s input) input) (ShowsDataIn p (run p s input) input)
        w (d + 1) [] ∧
      Rests (run p s input) input (d + 1) ∧
      (bad false lba = true → Verdict (run p s input (d + 1)).seq (some lba)) ∧
      (bad false lba = false →
        Holding (run p s input) input (blocks w lba) lba left 0 (d + 1)) := by
  have start : (blkReq (run p s input w)).start = true := asking.start
  have read : (blkReq (run p s input w)).we = false := asking.we_eq
  have named : (blkReq (run p s input w)).lba = lba := asking.asked
  obtain ⟨d, answered⟩ := device.answers w start
  have le := answered.le
  have err := device.err w d answered
  have edge := answered.edge patient later (.inl asking.st_eq)
  have fetched := device.fetched w d answered read
  rw [read, named] at err
  rw [named] at fetched
  have place : ∀ v, w ≤ v → v < d + 1 →
      (run p s input v).seq.st = .rdwait ∧ (run p s input v).seq.hs = .setup := by
    intro v low high
    rcases Nat.lt_or_eq_of_le low with after | rfl
    · rw [answered.waits patient later (.inl asking.st_eq) after (by omega)]
      exact ⟨asking.st_eq, asking.hs_eq⟩
    · exact ⟨asking.st_eq, asking.hs_eq⟩
  have stepped : (run p s input (d + 1)).seq =
      (run p s input w).seq.endPulse.stepRdwait (input d).blk := by
    rw [edge]
    simp [Seq.step, Seq.endPulse, asking.st_eq]
  have quiet : (blkReq (run p s input (d + 1))).start = false := by
    simp only [blkReq, stepped, Seq.stepRdwait]
    split_ifs <;> rfl
  refine ⟨d, le, device.read_keeps answered read, ⟨by omega, ?_, ?_⟩, answered.rests quiet,
    fun broken => ?_, fun sound => ?_⟩
  · refine Clocked.trace_eq_nil fun v low high => dataInBytes_of_steady ?_
    exact reqRises_of_hs (by simp [(place v low high).2])
  · exact fun v low high => showsDataIn_of_st (.inl (place v low high).1)
  · rw [stepped, Seq.stepRdwait, mediaFault, answered.done, err, broken]
    exact plain.endPulse.mediumError asking.lba_eq asking.hs_eq rfl
  · rw [sound] at err
    refine ⟨?_, answered.rests quiet, ?_, ?_⟩
    · rw [stepped]
      exact asking.filled answered.done err
    · rw [fetched sound, device.pending answered le (Nat.le_refl d)]
    · rw [stepped]
      exact plain.endPulse.stepRdwait answered.done err

/-- From one request to the end of the data. -/
theorem Device.reads (device : Device bad blocks (run p s input) input)
    (patient : Patient (run p s input) input since) (n : ℕ) (fits : n + 1 < 2 ^ 24)
    (later : since ≤ w) (asking : (run p s input w).seq.Asking .rdwait false lba (n + 1))
    (plain : Plain (run p s input w).seq) :
    ∃ u, Verdict (run p s input u).seq (stop (bad false) lba (n + 1)) ∧ blocks u = blocks w ∧
      Rests (run p s input) input u ∧
      Clocked.Stretch (dataInBytes p (run p s input) input) (ShowsDataIn p (run p s input) input)
        w u (readOut (bad false) (blocks w) lba (n + 1)) := by
  induction n generalizing lba w with
  | zero =>
      obtain ⟨d, le, kept, waited, rests, refused, arrived⟩ :=
        device.arrives patient later asking plain
      rw [stop, readOut]
      cases broken : bad false lba with
      | true => exact ⟨d + 1, refused broken, kept, rests, waited⟩
      | false =>
          obtain ⟨u, b, after, last, is, plain, rests, same, shown⟩ :=
            (arrived broken).block device patient (by omega) (by omega)
          have ends : (run p s input u).seq.Ending := is ▸ last.readEnds
          have next := rests.succ (show (blkReq (run p s input (u - 1 + 1))).start = false by
            rw [Nat.sub_add_cancel (by omega)]
            exact ends.quiet)
          rw [Nat.sub_add_cancel (by omega)] at next
          refine ⟨u, ⟨ends.st_eq, ends.hs_eq, ends.quiet, plain.op, ends.good, plain.sense⟩,
            same.trans kept, next, ?_⟩
          simpa [readOut] using waited.trans shown
  | succ n ih =>
      obtain ⟨d, le, kept, waited, rests, refused, arrived⟩ :=
        device.arrives patient later asking plain
      rw [stop, readOut]
      cases broken : bad false lba with
      | true => exact ⟨d + 1, refused broken, kept, rests, waited⟩
      | false =>
          obtain ⟨u, b, after, last, is, plain, -, same, shown⟩ :=
            (arrived broken).block device patient (by omega) (by omega)
          have asks : (run p s input u).seq.Asking .rdwait false (lba + 1) (n + 1) :=
            is ▸ last.fetch (by omega) (Nat.succ_ne_zero n)
          obtain ⟨e, ends, held, rests, rest⟩ := ih (by omega) (by omega) asks plain
          refine ⟨e, by simpa using ends, held.trans (same.trans kept), rests, ?_⟩
          rw [same, kept] at rest
          simpa using (waited.trans shown).trans rest

/-- A READ of at least one existing block that is taken on in cycle `t`, up to its verdict. -/
theorem Device.read_ends (device : Device bad blocks (run p s input) input) {t : ℕ}
    (patient : Patient (run p s input) input t) (exec : (run p s input t).seq.st = .exec)
    (addressed : (run p s input t).seq.Addressed (input t).blk)
    (read : (run p s input t).seq.cdbIsRead = true)
    (some_ : (run p s input t).seq.cmdBlocks ≠ 0) {n : ℕ}
    (lba_eq : (run p s input t).seq.cmdLba = lba)
    (count : (run p s input t).seq.cmdBlocks.toNat = n) :
    ∃ u, Verdict (run p s input u).seq (stop (bad false) lba n) ∧ blocks u = blocks (t + 1) ∧
      Rests (run p s input) input u ∧
      Clocked.Stretch (dataInBytes p (run p s input) input)
        (ShowsDataIn p (run p s input) input) (t + 1) u
        (readOut (bad false) (blocks (t + 1)) lba n) := by
  have positive : n ≠ 0 := fun zero => some_ (BitVec.eq_of_toNat_eq (count.trans zero))
  obtain ⟨left, rfl⟩ : ∃ left, n = left + 1 := ⟨n - 1, by omega⟩
  have fits : left + 1 < 2 ^ 24 := count ▸ (run p s input t).seq.cmdBlocks.isLt
  have accepted : (run p s input t).seq.endPulse.accepts (input t).blk = true := addressed.accepts
  have taken := Seq.taken_read accepted read
  have asking : (run p s input (t + 1)).seq.Asking .rdwait false lba (left + 1) := by
    rw [run_seq_exec patient exec, ← count, ← lba_eq]
    exact taken
  have plain : Plain (run p s input (t + 1)).seq := by
    rw [run_seq_exec patient exec, Seq.stepExec_read accepted read]
    have media : Plain (run p s input t).seq.endPulse.taken :=
      Plain.taken (op_of_media addressed.media)
    exact ⟨media.op, media.sense⟩
  exact device.reads patient left fits (Nat.le_succ t) asking plain

/-- The whole of it. -/
theorem Device.read_command (device : Device bad blocks (run p s input) input) {t : ℕ}
    (patient : Patient (run p s input) input t) (exec : (run p s input t).seq.st = .exec)
    (addressed : (run p s input t).seq.Addressed (input t).blk)
    (read : (run p s input t).seq.cdbIsRead = true)
    (some_ : (run p s input t).seq.cmdBlocks ≠ 0) {n : ℕ}
    (lba_eq : (run p s input t).seq.cmdLba = lba)
    (count : (run p s input t).seq.cmdBlocks.toNat = n) :
    ∃ u w, Clocked.Stretch (dataInBytes p (run p s input) input)
        (ShowsDataIn p (run p s input) input) (t + 1) u
        (readOut (bad false) (blocks (t + 1)) lba n) ∧
      Clocked.Stretch (shows p (run p s input) input)
        (fun v => (run p s input v).seq.connected = true) u w
        [.status (verdict (stop (bad false) lba n)).1, .message mCommandComplete] ∧
      (run p s input w).seq.st = .free ∧
      (run p s input w).seq.sense = (verdict (stop (bad false) lba n)).2 ∧
      blocks w = blocks (t + 1) := by
  obtain ⟨u, ends, kept, rests, shown⟩ :=
    device.read_ends patient exec addressed read some_ lba_eq count
  have le := shown.le
  obtain ⟨w, free, sense, quiet, told⟩ := ends.ends patient (by omega)
  refine ⟨u, w, shown, told, free, sense, ?_⟩
  rw [device.kept_until rests told.le fun v above below => quiet v above (by omega), kept]

end Run

/-- In every run of the target against whatever serves the block interface, a READ of existing
blocks delivers them up to the first bad one, says so, and changes nothing. -/
theorem read_from_device (p : Params) (s : State) (input : ℕ → Cycle) (t : ℕ)
    (bad : Bool → BitVec 32 → Bool) (blocks : ℕ → Blocks)
    (device : Device bad blocks (run p s input) input)
    (patient : Patient (run p s input) input t) (exec : (run p s input t).seq.st = .exec)
    (addressed : (run p s input t).seq.Addressed (input t).blk)
    (read : (run p s input t).seq.cdbIsRead = true)
    (some_ : (run p s input t).seq.cmdBlocks ≠ 0) :
    let lba := (run p s input t).seq.cmdLba
    let n := (run p s input t).seq.cmdBlocks.toNat
    let stopped := verdict (stop (bad false) lba n)
    ∃ u w, Clocked.Stretch (dataInBytes p (run p s input) input)
        (ShowsDataIn p (run p s input) input) (t + 1) u
        (readOut (bad false) (blocks (t + 1)) lba n) ∧
      Clocked.Stretch (shows p (run p s input) input)
        (fun v => (run p s input v).seq.connected = true) u w
        [.status stopped.1, .message mCommandComplete] ∧
      (run p s input w).seq.st = .free ∧ (run p s input w).seq.sense = stopped.2 ∧
      blocks w = blocks (t + 1) :=
  device.read_command patient exec addressed read some_ rfl rfl

/-- Two blocks, of which the second is bad. -/
theorem half_a_read :
    ∃ (blocks : ℕ → Blocks) (u w : ℕ), Clocked.Stretch
        (dataInBytes {} (Rig.target {} .blank benchDisk (Rig.benchStim cRead10 2))
          (Rig.seen {} .blank benchDisk (Rig.benchStim cRead10 2)))
        (ShowsDataIn {} (Rig.target {} .blank benchDisk (Rig.benchStim cRead10 2))
          (Rig.seen {} .blank benchDisk (Rig.benchStim cRead10 2))) 53 u (sector (blocks 53 5)) ∧
      (Rig.target {} .blank benchDisk (Rig.benchStim cRead10 2) w).seq.sense =
        ⟨skMediumError, ascUnrecoveredRead, 0, 6⟩ := by
  have exec : (Rig.target {} .blank benchDisk (Rig.benchStim cRead10 2) 52).seq.st = .exec := by
    rw [Rig.target_bench]
    exact benches.1.exec.1
  have lba : (Rig.target {} .blank benchDisk (Rig.benchStim cRead10 2) 52).seq.cmdLba = 5 := by
    rw [Rig.target_bench]
    exact benches.1.lba
  have count : (Rig.target {} .blank benchDisk (Rig.benchStim cRead10 2) 52).seq.cmdBlocks = 2 := by
    rw [Rig.target_bench]
    exact benches.1.count
  have read : (Rig.target {} .blank benchDisk (Rig.benchStim cRead10 2) 52).seq.cdbIsRead = true := by
    rw [Rig.target_bench, Seq.cdbIsRead, benches.1.op_eq]
    rfl
  rw [Rig.target] at lba count
  obtain ⟨u, w, shown, -, -, sense, -⟩ := read_from_device {} (start .blank) _ 52 _ _
    (benches.1.proper (by decide)).device benches.1.patient exec
    (benches.1.addressed (.inl rfl) (by decide)) read (by rw [count]; decide)
  have good : benchDisk.fails 5 = false := by decide
  have broken : benchDisk.fails (5 + 1) = true := by decide
  have two : (2 : BitVec 24).toNat = 2 := rfl
  rw [lba, count, two, readOut, good, readOut, broken] at shown
  rw [lba, count, two, stop, good, stop, broken] at sense
  rw [if_neg Bool.false_ne_true, if_pos rfl, List.append_nil] at shown
  exact ⟨_, u, w, shown, sense⟩

end Wish5380.Block
