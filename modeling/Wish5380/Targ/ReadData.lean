import Wish5380.Targ.Bench

/-!
# The bytes of a READ

The byte on the bus comes out of a registered read of the sector buffer, one
clock behind the index.  The set-up clock before each REQ is what hides that:
when REQ rises the register holds the byte the index names.  Between a request
and its answer the back end fills the buffer in any order it likes.
-/

namespace Wish5380.Targ

/-! ## The sector buffer, clock by clock -/

section Memory

variable {p : Params} {s : State} {input : ℕ → Cycle} {t : ℕ}

theorem run_mem_succ (quiet : (run p s input t).seq.aWe (input t).bus = false) :
    (run p s input (t + 1)).buf.mem =
      if (input t).blk.bufWe then
        Function.update (run p s input t).buf.mem (input t).blk.bufAddr (input t).blk.bufWdata
      else (run p s input t).buf.mem := by
  simp [run_succ, clock, Buf.next, quiet]

/-- The buffer is addressed by the low bits of the byte index. -/
theorem low_idx (k : ℕ) : (BitVec.ofNat 10 k).extractLsb' 0 9 = BitVec.ofNat 9 k := by
  apply BitVec.eq_of_toNat_eq
  simp only [BitVec.extractLsb'_toNat, BitVec.toNat_ofNat, Nat.shiftRight_zero]
  omega

theorem aWe_of_st {s : Seq} (bus : Scsi) (other : s.st ≠ .dataout) : s.aWe bus = false := by
  simp [Seq.aWe, other]

/-- A byte nobody writes any more stays. -/
theorem run_mem_keeps {a : BitVec 9} {u v : ℕ} (le : u ≤ v)
    (quiet : ∀ w, u ≤ w → w < v → (run p s input w).seq.aWe (input w).bus = false)
    (elsewhere : ∀ w, u ≤ w → w < v → (input w).blk.bufWe = true → (input w).blk.bufAddr ≠ a) :
    (run p s input v).buf.mem a = (run p s input u).buf.mem a := by
  induction v, le using Nat.le_induction with
  | base => rfl
  | succ v le ih =>
      rw [run_mem_succ (quiet v le (Nat.lt_succ_self v))]
      rw [← ih (fun w low high => quiet w low (by omega))
        (fun w low high => elsewhere w low (by omega))]
      split_ifs with writes
      · exact Function.update_of_ne (elsewhere v le (Nat.lt_succ_self v) writes).symm _ _
      · rfl

end Memory

/-! ## The back end's window -/

/-- A request raised after cycle `since` is unanswered in cycle `v`. -/
def InWindow (x : ℕ → State) (input : ℕ → Cycle) (since v : ℕ) : Prop :=
  ∃ w, since < w ∧ w ≤ v ∧ (blkReq (x w)).start = true ∧
    ∀ u, w ≤ u → u < v → (input u).blk.done = false

theorem InWindow.succ {x : ℕ → State} {input : ℕ → Cycle} {since v : ℕ}
    (window : InWindow x input since (v + 1)) :
    (blkReq (x (v + 1))).start = true ∨
      (InWindow x input since v ∧ (input v).blk.done = false) := by
  obtain ⟨w, after, low, start, pending⟩ := window
  rcases Nat.lt_or_eq_of_le low with before | rfl
  · refine .inr ⟨⟨w, after, by omega, start, fun u above below => ?_⟩, ?_⟩
    · exact pending u above (by omega)
    · exact pending v (by omega) (Nat.lt_succ_self v)
  · exact .inl start

/-- The back end fills the buffer with the block it was asked for before it answers,
in any order, and writes it at no other time. -/
structure Fills (disk : ℕ → BitVec 9 → Byte) (x : ℕ → State) (input : ℕ → Cycle)
    (since : ℕ) : Prop where
  fills : ∀ w d, since < w → w ≤ d → (blkReq (x w)).start = true → (blkReq (x w)).we = false →
    (∀ v, w ≤ v → v < d → (input v).blk.done = false) → (input d).blk.done = true →
    ∀ a, ∃ v, w ≤ v ∧ v ≤ d ∧ (input v).blk.bufWe = true ∧ (input v).blk.bufAddr = a ∧
      (input v).blk.bufWdata = disk (blkReq (x w)).lba.toNat a ∧
      ∀ u, v < u → u ≤ d → (input u).blk.bufWe = true → (input u).blk.bufAddr ≠ a
  inside : ∀ v, since < v → (input v).blk.bufWe = true → InWindow x input since v

/-! ## What the data lines show -/

/-- REQ goes true in cycle `t`. -/
def reqRises (x : ℕ → State) (t : ℕ) : Bool :=
  (x t).seq.req && !(x (t - 1)).seq.req

/-- The byte on the data lines when REQ goes true in DATA IN. -/
def dataInBytes (p : Params) (x : ℕ → State) (input : ℕ → Cycle) (t : ℕ) : List Byte :=
  let out := drive p (x t) (input t).blk.count
  if reqRises x t && out.phase == phDataIn then [out.data] else []

/-- The target holds the bus in DATA IN and drives odd parity. -/
structure ShowsDataIn (p : Params) (x : ℕ → State) (input : ℕ → Cycle) (t : ℕ) : Prop where
  bsy : (drive p (x t) (input t).blk.count).bsy = true
  phase : (drive p (x t) (input t).blk.count).phase = phDataIn
  parity : OddParity (drive p (x t) (input t).blk.count).data
    (drive p (x t) (input t).blk.count).dbp

/-- The bytes of one block. -/
def blockBytes (disk : ℕ → BitVec 9 → Byte) (b : ℕ) : List Byte :=
  (List.range 512).map fun k => disk b (BitVec.ofNat 9 k)

theorem showsDataIn_of_st {p : Params} {x : ℕ → State} {input : ℕ → Cycle} {t : ℕ}
    (data : (x t).seq.st = .rdwait ∨ (x t).seq.st = .datain) : ShowsDataIn p x input t := by
  have up : (x t).seq.connected = true := by
    rcases data with is | is <;> simp [Seq.connected, is]
  have phase : (x t).seq.phase = phDataIn := by
    rcases data with is | is <;> simp [Seq.phase, is]
  refine ⟨up, (drive_phase _ up).trans phase, ?_⟩
  simpa [drive, Seq.driveBus, up, phase] using oddParity_dbpOf _

theorem dataInBytes_of_steady {p : Params} {x : ℕ → State} {input : ℕ → Cycle} {t : ℕ}
    (steady : reqRises x t = false) : dataInBytes p x input t = [] := by
  simp [dataInBytes, steady]

theorem reqRises_of_hs {x : ℕ → State} {t : ℕ} (rests : (x t).seq.hs ≠ .req) :
    reqRises x t = false := by
  simp [reqRises, Seq.req, rests]

/-- REQ goes true once in a byte handshake, in its second cycle. -/
theorem ByteMoved.reqRises_eq {x : ℕ → State} {input : ℕ → Cycle} {s : Seq} {t a r v : ℕ}
    (moved : ByteMoved x input s t a r) (moves : s.MovesByte) (low : t ≤ v) (high : v ≤ r) :
    reqRises x v = decide (v = t + 1) := by
  have asked := moved.asked
  have up : s.connected = true := Seq.connected_of_movesByte moves
  have requests : ({ s with hs := .req } : Seq).req = true := by
    simpa [Seq.req, Seq.connected] using up
  rcases Nat.lt_or_eq_of_le low with after | rfl
  · rcases Nat.lt_or_ge a v with late | early
    · rw [reqRises_of_hs (by rw [moved.holds v late high]; simp)]
      simp
      omega
    · rcases Nat.lt_or_eq_of_le (Nat.succ_le_of_lt after) with further | rfl
      · have before := moved.asks (v - 1) (by omega) (by omega)
        rw [reqRises, before, moved.asks v after early]
        simp
        omega
      · rw [reqRises, moved.asks _ after early, Nat.succ_sub_one, moved.setup, requests]
        simp [Seq.req]
  · rw [reqRises_of_hs (by rw [moved.setup]; simp)]
    simp

section Read

variable {p : Params} {s : State} {input : ℕ → Cycle} {since t : ℕ} {lba : BitVec 32} {left : ℕ}
  {disk : ℕ → BitVec 9 → Byte}

/-- After the answer the buffer holds the block. -/
theorem filled_mem (fills : Fills disk (run p s input) input since) {d : ℕ} (later : since < t)
    (asking : (run p s input t).seq.Asking .rdwait false lba left)
    (moved : BlockMoved (run p s input) input (run p s input t).seq t d) :
    (run p s input (d + 1)).buf.mem = disk lba.toNat := by
  have quiet : ∀ w, t ≤ w → w < d + 1 → (run p s input w).seq.aWe (input w).bus = false := by
    intro w low high
    refine aWe_of_st _ ?_
    rcases Nat.lt_or_eq_of_le low with after | rfl
    · rw [moved.waits w after (by omega)]
      simp [Seq.endPulse, asking.st_eq]
    · simp [asking.st_eq]
  funext a
  obtain ⟨v, low, high, writes, addr, data, last⟩ := fills.fills t d later moved.le asking.start
    asking.we_eq moved.pending moved.done a
  have written : (run p s input (v + 1)).buf.mem a = disk lba.toNat a := by
    rw [run_mem_succ (quiet v low (by omega)), if_pos writes, addr, Function.update_self, data]
    simp only [blkReq, asking.asked]
  rw [← written]
  refine run_mem_keeps (by omega) (fun w above below => quiet w (by omega) below) ?_
  intro w above below
  exact last w (by omega) (by omega)

/-- Byte `k` of a block is about to be set up, and the buffer holds the block. -/
structure Loaded (disk : ℕ → BitVec 9 → Byte) (x : ℕ → State) (input : ℕ → Cycle) (since : ℕ)
    (lba : BitVec 32) (left k t : ℕ) : Prop where
  later : since < t
  moving : (x t).seq.Moving .datain lba left k
  mem : (x t).buf.mem = disk lba.toNat
  closed : ¬ InWindow x input since t

/-- Outside the window nobody but the initiator's bytes can change the buffer. -/
theorem mem_outside (fills : Fills disk (run p s input) input since) (later : since < t)
    (other : (run p s input t).seq.st ≠ .dataout)
    (quiet : (run p s input (t + 1)).seq.blkStart = false)
    (closed : ¬ InWindow (run p s input) input since t) :
    (run p s input (t + 1)).buf.mem = (run p s input t).buf.mem ∧
      ¬ InWindow (run p s input) input since (t + 1) := by
  have unwritten : (input t).blk.bufWe = false := by
    cases writes : (input t).blk.bufWe with
    | false => rfl
    | true => exact absurd (fills.inside t later writes) closed
  constructor
  · rw [run_mem_succ (aWe_of_st _ other), unwritten]
    rfl
  · intro window
    rcases window.succ with start | ⟨still, _⟩
    · simp [blkReq, quiet] at start
    · exact closed still

/-- Nobody writes the buffer while a byte moves. -/
theorem mem_over_byte (fills : Fills disk (run p s input) input since) {k a r : ℕ}
    (loaded : Loaded disk (run p s input) input since lba left k t)
    (moved : ByteMoved (run p s input) input (run p s input t).seq t a r) {v : ℕ} (low : t ≤ v)
    (high : v ≤ r) :
    (run p s input v).buf.mem = disk lba.toNat ∧ ¬ InWindow (run p s input) input since v := by
  induction v, low using Nat.le_induction with
  | base => exact ⟨loaded.mem, loaded.closed⟩
  | succ v low ih =>
      obtain ⟨mem, closed⟩ := ih (by omega)
      have later := loaded.later
      have place := (moved.st_eq low (by omega)).trans loaded.moving.st_eq
      have quiet := (moved.blkStart_eq (v := v + 1) (by omega) high).trans loaded.moving.quiet
      obtain ⟨same, shut⟩ := mem_outside fills (by omega) (by simp [place]) quiet closed
      exact ⟨same.trans mem, shut⟩

/-- One byte of DATA IN: REQ goes true once, with the byte the index names. -/
theorem byte_shown {k a r : ℕ}
    (loaded : Loaded disk (run p s input) input since lba left k t)
    (moved : ByteMoved (run p s input) input (run p s input t).seq t a r) :
    Clocked.Stretch (dataInBytes p (run p s input) input)
      (ShowsDataIn p (run p s input) input) t (r + 1) [disk lba.toNat (BitVec.ofNat 9 k)] := by
  have asked := moved.asked
  have freed := moved.freed
  have st := loaded.moving.st_eq
  have moves := loaded.moving.movesByte (.inl rfl)
  have first : (run p s input (t + 1)).seq = { (run p s input t).seq with hs := .req } :=
    moved.asks (t + 1) (Nat.lt_succ_self t) asked
  have up : (run p s input (t + 1)).seq.connected = true := by
    rw [first]
    simp [Seq.connected, st]
  refine ⟨by omega, ?_, ?_⟩
  · rw [Clocked.trace_eq_single (c := t + 1) (by omega) (by omega)]
    · have rises : reqRises (run p s input) (t + 1) = true := by
        rw [moved.reqRises_eq moves (by omega) (by omega)]
        simp
      have phase : (run p s input (t + 1)).seq.phase = phDataIn := by
        rw [first]
        simp [Seq.phase, st]
      have data : dataOut p (run p s input (t + 1)) (input (t + 1)).blk.count =
          (run p s input t).buf.mem (run p s input t).seq.aAddr := by
        have media : (run p s input (t + 1)).seq.respKind = .media := by
          rw [first]
          exact loaded.moving.media
        have is : (run p s input (t + 1)).seq.st = .datain := by
          rw [first]
          exact st
        simp only [dataOut, is, media]
        rfl
      have addr : (run p s input t).seq.aAddr = BitVec.ofNat 9 k := by
        rw [Seq.aAddr, loaded.moving.idx_eq, low_idx]
      have shown : (drive p (run p s input (t + 1)) (input (t + 1)).blk.count).data =
          disk lba.toNat (BitVec.ofNat 9 k) := by
        simp [drive, Seq.driveBus, up, phase, data, addr, loaded.mem]
      simp [dataInBytes, rises, drive_phase _ up, phase, shown]
    · intro v low high other
      refine dataInBytes_of_steady ?_
      rw [moved.reqRises_eq moves low (by omega)]
      simpa using other
  · intro v low high
    exact showsDataIn_of_st (.inr ((moved.st_eq low (by omega)).trans st))

/-- The buffer still holds the block when the next byte is set up. -/
theorem loaded_next (fills : Fills disk (run p s input) input since) {k a r : ℕ} (below : k < 511)
    (loaded : Loaded disk (run p s input) input since lba left k t)
    (moved : ByteMoved (run p s input) input (run p s input t).seq t a r) :
    Loaded disk (run p s input) input since lba left (k + 1) (r + 1) := by
  have asked := moved.asked
  have freed := moved.freed
  have later := loaded.later
  have next : (run p s input (r + 1)).seq.Moving .datain lba left (k + 1) := by
    rw [moved.after]
    exact loaded.moving.byte below (.inl rfl)
  obtain ⟨mem, closed⟩ := mem_over_byte fills loaded moved (v := r) (by omega) (Nat.le_refl r)
  have place := (moved.st_eq (v := r) (by omega) (Nat.le_refl r)).trans loaded.moving.st_eq
  obtain ⟨same, shut⟩ := mem_outside fills (by omega) (by simp [place]) next.quiet closed
  exact ⟨by omega, next, same.trans mem, shut⟩

/-- One block: its bytes, in order, one REQ each, with the phase held throughout. -/
theorem block_shown (fair : Fair (run p s input) input since)
    (fills : Fills disk (run p s input) input since) (fits : left + 1 < 2 ^ 24)
    (stage : ReadStage (run p s input) (since + 1) lba (left + 1) t) :
    ∃ u, ReadStage (run p s input) (since + 1) (lba + 1) left u ∧
      Clocked.Stretch (dataInBytes p (run p s input) input)
        (ShowsDataIn p (run p s input) input) t u (blockBytes disk lba.toNat) := by
  obtain ⟨later, asking⟩ := stage
  rw [if_neg (Nat.succ_ne_zero left)] at asking
  obtain ⟨d, moved, arrived⟩ := read_arrives fair (by omega) asking
  have le := moved.le
  have closed : ¬ InWindow (run p s input) input since (d + 1) := by
    intro window
    rcases window.succ with start | ⟨_, pending⟩
    · simp [blkReq, arrived.quiet] at start
    · simp [moved.done] at pending
  have waited : Clocked.Stretch (dataInBytes p (run p s input) input)
      (ShowsDataIn p (run p s input) input) t (d + 1) [] := by
    have place : ∀ v, t ≤ v → v < d + 1 →
        (run p s input v).seq.st = .rdwait ∧ (run p s input v).seq.hs = .setup := by
      intro v low high
      rcases Nat.lt_or_eq_of_le low with after | rfl
      · rw [moved.waits v after (by omega)]
        exact ⟨asking.st_eq, asking.hs_eq⟩
      · exact ⟨asking.st_eq, asking.hs_eq⟩
    refine ⟨by omega, Clocked.trace_eq_nil fun v low high => ?_, fun v low high => ?_⟩
    · exact dataInBytes_of_steady (reqRises_of_hs (by simp [(place v low high).2]))
    · exact showsDataIn_of_st (.inl (place v low high).1)
  have advance : ∀ k < 511, ∀ v, Loaded disk (run p s input) input since lba (left + 1) k v →
      ∃ u, Loaded disk (run p s input) input since lba (left + 1) (k + 1) u ∧
        Clocked.Stretch (dataInBytes p (run p s input) input)
          (ShowsDataIn p (run p s input) input) v u [disk lba.toNat (BitVec.ofNat 9 k)] := by
    intro k below v loaded
    have after := loaded.later
    obtain ⟨a, r, byte⟩ := byteMoved fair.patient (by omega) (loaded.moving.movesByte (.inl rfl))
      loaded.moving.quiet loaded.moving.hs_eq
    exact ⟨r + 1, loaded_next fills below loaded byte, byte_shown loaded byte⟩
  have first : Loaded disk (run p s input) input since lba (left + 1) 0 (d + 1) :=
    ⟨by omega, arrived, filled_mem fills (by omega) asking moved, closed⟩
  obtain ⟨u, last, bytes⟩ := Clocked.Stretch.stages advance first
  have after := last.later
  obtain ⟨a, r, byte⟩ := byteMoved fair.patient (by omega) (last.moving.movesByte (.inl rfl))
    last.moving.quiet last.moving.hs_eq
  have final := byte_shown last byte
  have rest := final.le
  refine ⟨r + 1, ⟨by omega, ?_⟩, ?_⟩
  · rw [byte.after]
    exact last.moving.readOn fits
  · have whole := (waited.trans bytes).trans final
    rw [List.nil_append, ← List.flatMap_singleton (fun k => [disk lba.toNat (BitVec.ofNat 9 k)]) 511,
      ← List.flatMap_append, ← List.range_succ, ← List.map_eq_flatMap] at whole
    exact whole

end Read

/-- In every READ of at least one existing block, with a fair initiator and a back
end that fills the buffer as it should, the bytes at the successive assertions of
REQ in DATA IN are the blocks of the command, and the phase and the parity hold in
every cycle from the first request to the release of the last byte. -/
theorem read_data (p : Params) (s : State) (input : ℕ → Cycle) (t : ℕ)
    (disk : ℕ → BitVec 9 → Byte) (fair : Fair (run p s input) input t)
    (fills : Fills disk (run p s input) input t) (exec : (run p s input t).seq.st = .exec)
    (addressed : (run p s input t).seq.Addressed (input t).blk)
    (read : (run p s input t).seq.cdbIsRead = true)
    (some_ : (run p s input t).seq.cmdBlocks ≠ 0) :
    ∃ u w, (run p s input u).seq.st = .status ∧ (run p s input w).seq.st = .free ∧
      Clocked.Stretch (dataInBytes p (run p s input) input) (ShowsDataIn p (run p s input) input)
        (t + 1) u
        ((List.range (run p s input t).seq.cmdBlocks.toNat).flatMap fun i =>
          blockBytes disk ((run p s input t).seq.cmdLba.toNat + i)) ∧
      Clocked.Stretch (dataInBytes p (run p s input) input)
        (fun v => (run p s input v).seq.connected = true) u w [] := by
  have positive : (run p s input t).seq.cmdBlocks.toNat ≠ 0 := fun zero =>
    some_ (BitVec.eq_of_toNat_eq zero)
  have fits := (run p s input t).seq.cmdBlocks.isLt
  have inside := addressed.inside
  have small := (input t).blk.count.isLt
  have stage : ReadStage (run p s input) (t + 1) (run p s input t).seq.cmdLba
      (run p s input t).seq.cmdBlocks.toNat (t + 1) := by
    refine ⟨Nat.le_refl _, ?_⟩
    rw [if_neg positive]
    exact read_taken fair exec addressed read
  obtain ⟨u, ⟨reached, ending⟩, shown⟩ := blocks_moved (ReadStage (run p s input) (t + 1))
    (blockBytes disk) (fun _ _ _ bound there => block_shown fair fills bound there) fits
    (by omega) stage
  rw [if_pos rfl] at ending
  obtain ⟨w, free, places, finish⟩ := command_ends fair.patient (by omega) ending
  refine ⟨u, w, ending.st_eq, free, shown, finish.le, ?_, finish.within⟩
  refine Clocked.trace_eq_nil fun v low high => ?_
  have up := finish.within v low high
  rcases (places v low high).1 with is | is
  · simp [dataInBytes, drive_phase _ up, Seq.phase, is]
  · simp [dataInBytes, drive_phase _ up, Seq.phase, is]

/-! ## A back end that fills the buffer -/

theorem bench_bufWe (disk : ℕ → BitVec 9 → Byte) (d : Byte) (s : State) (t : ℕ) :
    (Bench.input disk d s t).blk.bufWe =
      ((Bench.fillerAt disk d s t).busy && !(Bench.fillerAt disk d s t).we) :=
  rfl

/-- A back end at work has a request in hand. -/
theorem bench_inWindow {disk : ℕ → BitVec 9 → Byte} {d : Byte} {s : State}
    (quiet : s.seq.blkStart = false) (t : ℕ) (busy : (Bench.fillerAt disk d s t).busy = true) :
    InWindow (run {} s (Bench.input disk d s)) (Bench.input disk d s) 0 t := by
  induction t with
  | zero => exact absurd busy Bool.false_ne_true
  | succ t ih =>
      rw [bench_filler_succ] at busy
      cases now : (Bench.fillerAt disk d s t).busy with
      | true =>
          obtain ⟨w, after, low, start, pending⟩ := ih now
          refine ⟨w, after, by omega, start, fun u above below => ?_⟩
          rcases Nat.lt_or_eq_of_le (Nat.lt_succ_iff.mp below) with early | rfl
          · exact pending u above early
          · rw [bench_done, now]
            by_contra last
            have end_ : (Bench.fillerAt disk d s u).k = 511 := by simpa using last
            simp [Filler.next, now, end_] at busy
      | false =>
          have start : (blkReq (run {} s (Bench.input disk d s) t)).start = true := by
            by_contra silent
            simp [Filler.next, now, silent] at busy
          have positive : 0 < t := by
            rcases Nat.eq_zero_or_pos t with rfl | pos
            · exact absurd (start.symm.trans quiet) (by decide)
            · exact pos
          refine ⟨t, positive, Nat.le_succ t, start, fun u above below => ?_⟩
          obtain rfl : u = t := by omega
          rw [bench_done, now]
          rfl

theorem bench_fills {disk : ℕ → BitVec 9 → Byte} {d : Byte} {s : State}
    (quiet : s.seq.blkStart = false) :
    Fills disk (run {} s (Bench.input disk d s)) (Bench.input disk d s) 0 := by
  constructor
  · intro w e after le start read pending done a
    have serves : ∀ k < 512, Bench.fillerAt disk d s (w + 1 + k) = _ :=
      fun k below => filler_serves quiet start below
    have last : e = w + 512 := by
      have busy : ∀ k < 511, (Bench.input disk d s (w + 1 + k)).blk.done = false := by
        intro k below
        rw [bench_done, serves k (by omega)]
        simp
        omega
      have final : (Bench.input disk d s (w + 512)).blk.done = true := by
        rw [bench_done, show w + 512 = w + 1 + 511 from rfl, serves 511 (by decide)]
        rfl
      have idle : (Bench.input disk d s w).blk.done = false := by
        rw [bench_done, ((bench_inStep quiet w).asks start).1]
        rfl
      rcases Nat.lt_trichotomy e (w + 512) with early | same | late
      · rcases Nat.lt_or_eq_of_le le with inside | rfl
        · have busyNow := busy (e - (w + 1)) (by omega)
          rw [show w + 1 + (e - (w + 1)) = e by omega, done] at busyNow
          cases busyNow
        · rw [idle] at done
          cases done
      · exact same
      · rw [pending (w + 512) (by omega) late] at final
        cases final
    subst last
    have small := a.isLt
    refine ⟨w + 1 + a.toNat, by omega, by omega, ?_, ?_, ?_, fun u above below _ => ?_⟩
    · rw [bench_bufWe, serves a.toNat small, read]
      rfl
    · change BitVec.ofNat 9 (Bench.fillerAt disk d s (w + 1 + a.toNat)).k = a
      rw [serves a.toNat small]
      simp
    · change disk (Bench.fillerAt disk d s (w + 1 + a.toNat)).lba
        (BitVec.ofNat 9 (Bench.fillerAt disk d s (w + 1 + a.toNat)).k) = _
      rw [serves a.toNat small]
      simp
    · change BitVec.ofNat 9 (Bench.fillerAt disk d s u).k ≠ a
      obtain ⟨k, rfl⟩ : ∃ k, u = w + 1 + k := ⟨u - (w + 1), by omega⟩
      rw [serves k (by omega)]
      intro same
      have number : k % 2 ^ 9 = a.toNat := congrArg BitVec.toNat same
      omega
  · intro v _ writes
    rw [bench_bufWe, Bool.and_eq_true] at writes
    exact bench_inWindow quiet v writes.1

/-- A medium on which every byte tells where it is. -/
def countingDisk (b : ℕ) (a : BitVec 9) : Byte :=
  BitVec.ofNat 8 (b + a.toNat)

/-- Two blocks at address 5, read from reset on. -/
theorem two_blocks_read :
    ∃ u w, (run {} (atExec cRead10 2) (Bench.input countingDisk 0 (atExec cRead10 2)) u).seq.st = .status ∧
      (run {} (atExec cRead10 2) (Bench.input countingDisk 0 (atExec cRead10 2)) w).seq.st = .free ∧
      Clocked.Stretch
        (dataInBytes {} (run {} (atExec cRead10 2) (Bench.input countingDisk 0 (atExec cRead10 2)))
          (Bench.input countingDisk 0 (atExec cRead10 2)))
        (ShowsDataIn {} (run {} (atExec cRead10 2) (Bench.input countingDisk 0 (atExec cRead10 2)))
          (Bench.input countingDisk 0 (atExec cRead10 2))) 1 u
        (blockBytes countingDisk 5 ++ blockBytes countingDisk 6) := by
  have facts := atExec_exec (.inl (rfl : cRead10 = _)) (.inr (rfl : (2 : BitVec 16) = _))
  obtain ⟨exec, _, is, lba, count, quiet⟩ := facts
  have read : (atExec cRead10 2).seq.cdbIsRead = true := by
    rw [Seq.cdbIsRead, is]
    rfl
  have addressed : (atExec cRead10 2).seq.Addressed (Bench.input countingDisk 0 (atExec cRead10 2) 0).blk :=
    atExec_addressed (.inl rfl) (.inr rfl) rfl rfl
  obtain ⟨u, w, status, free, shown, _⟩ := read_data {} (atExec cRead10 2)
    (Bench.input countingDisk 0 (atExec cRead10 2)) 0 countingDisk (bench_fair quiet) (bench_fills quiet)
    exec addressed read
    (fun none => absurd (count.symm.trans none) (by decide))
  have blocks : (run {} (atExec cRead10 2) (Bench.input countingDisk 0 (atExec cRead10 2)) 0).seq.cmdBlocks.toNat =
      2 := congrArg BitVec.toNat count
  have address : (run {} (atExec cRead10 2) (Bench.input countingDisk 0 (atExec cRead10 2)) 0).seq.cmdLba.toNat =
      5 := congrArg BitVec.toNat lba
  have both : (List.range 2).flatMap (fun i => blockBytes countingDisk (5 + i)) =
      blockBytes countingDisk 5 ++ blockBytes countingDisk 6 := by
    simp [List.range_succ]
  rw [blocks, address, both] at shown
  exact ⟨u, w, status, free, shown⟩

end Wish5380.Targ
