import Wish5380.Block.Read
import Wish5380.Targ.WriteData

/-!
# WRITE to a device

The bytes the initiator hands over in DATA OUT, however slowly, go into the blocks of the command
up to the first bad one, which may be left with anything, and no other block changes.
-/

namespace Wish5380.Block

open Targ

/-- The byte that is handed over in a cycle: REQ is answered by ACK in DATA OUT. -/
def handed (p : Params) (x : ℕ → State) (input : ℕ → Cycle) (t : ℕ) : List Byte :=
  let out := drive p (x t) (input t).blk.count
  if out.req && (input t).bus.ack && out.phase == phDataOut then [(input t).bus.data] else []

theorem handed_of_silent {p : Params} {x : ℕ → State} {input : ℕ → Cycle} {t : ℕ}
    (silent : (x t).seq.req = false ∨ (input t).bus.ack = false) : handed p x input t = [] := by
  rcases silent with off | off <;> simp [handed, drive, off]

theorem handed_of_req {p : Params} {x : ℕ → State} {input : ℕ → Cycle} {t : ℕ}
    (st : (x t).seq.st = .dataout) (hs : (x t).seq.hs = .req) (acked : (input t).bus.ack = true) :
    handed p x input t = [(input t).bus.data] := by
  have up : (x t).seq.connected = true := by simp [Seq.connected, st]
  have req : (drive p (x t) (input t).blk.count).req = true := by simp [drive, Seq.req, up, hs]
  have phase : (x t).seq.phase = phDataOut := by simp [Seq.phase, st]
  simp [handed, drive_phase _ up, phase, req, acked]

section Run

variable {bad : Bool → BitVec 32 → Bool} {blocks : ℕ → Blocks} {p : Params} {s : State}
  {input : ℕ → Cycle} {since v w : ℕ} {lba : BitVec 32} {left k : ℕ}

/-- A byte of DATA OUT is handed over once. -/
theorem handed_over_byte {a r : ℕ} {b : Seq} (moved : ByteMoved (run p s input) input b v a r)
    (st : b.st = .dataout) :
    Clocked.Stretch (handed p (run p s input) input)
      (fun v => (run p s input v).seq.connected = true) v (r + 1) [(input a).bus.data] := by
  have asked := moved.asked
  have freed := moved.freed
  have asking := moved.asks a asked (Nat.le_refl a)
  refine ⟨by omega, ?_, fun u low high => ?_⟩
  · rw [Clocked.trace_eq_single (c := a) (by omega) (by omega)]
    · exact handed_of_req (by rw [asking]; exact st) (by rw [asking]) moved.acked
    · intro u low high other
      obtain ⟨h, is, silent⟩ := moved.seq_eq low (by omega)
      refine handed_of_silent ?_
      cases h with
      | req => exact .inr (silent other rfl)
      | setup => exact .inl (by rw [is]; simp [Seq.req])
      | rel => exact .inl (by rw [is]; simp [Seq.req])
      | h3 => exact .inl (by rw [is]; simp [Seq.req])
  · have place := moved.st_eq low (by omega : u ≤ r)
    simp [Seq.connected, place, st]

/-- Over a byte of DATA OUT the buffer takes it in, where it belongs. -/
theorem Device.captured (device : Device bad blocks (run p s input) input) {a r : ℕ}
    (moved : ByteMoved (run p s input) input (run p s input v).seq v a r)
    (moving : (run p s input v).seq.Moving .dataout lba left k)
    (rests : Rests (run p s input) input v) :
    (run p s input (r + 1)).buf.mem =
      Function.update (run p s input v).buf.mem (BitVec.ofNat 9 k) (input a).bus.data := by
  have asked := moved.asked
  have freed := moved.freed
  have asking := moved.asks a asked (Nat.le_refl a)
  have closed (u : ℕ) (low : v ≤ u) (high : u ≤ r) : (input u).blk.bufWe = false :=
    device.untouched (rests_over_byte moved moving.quiet rests low high)
  have same (u : ℕ) (low : v ≤ u) (high : u ≤ r) (other : u ≠ a) :
      (run p s input (u + 1)).buf.mem = (run p s input u).buf.mem := by
    have silent : (run p s input u).seq.aWe (input u).bus = false := by
      obtain ⟨h, is, silent⟩ := moved.seq_eq low high
      rw [is]
      cases h with
      | req => simp [Seq.aWe, silent other rfl]
      | setup => simp [Seq.aWe]
      | rel => simp [Seq.aWe]
      | h3 => simp [Seq.aWe]
    rw [run_mem_succ silent, closed u low high]
    rfl
  have before (u : ℕ) (low : v ≤ u) (high : u ≤ a) :
      (run p s input u).buf.mem = (run p s input v).buf.mem := by
    induction u, low using Nat.le_induction with
    | base => rfl
    | succ u low ih => rw [same u low (by omega) (by omega), ih (by omega)]
  have capture : (run p s input (a + 1)).buf.mem =
      Function.update (run p s input v).buf.mem (BitVec.ofNat 9 k) (input a).bus.data := by
    have writes : (run p s input a).seq.aWe (input a).bus = true := by
      rw [asking]
      simp [Seq.aWe, moved.acked, moving.st_eq, moving.media]
    have addr : (run p s input a).seq.aAddr = BitVec.ofNat 9 k := by
      rw [asking, Seq.aAddr, moving.idx_eq, low_idx]
    rw [← before a (by omega) (Nat.le_refl a), run_succ]
    simp [clock, Buf.next, writes, addr, closed a (by omega) (by omega)]
  have after (u : ℕ) (low : a + 1 ≤ u) (high : u ≤ r + 1) :
      (run p s input u).buf.mem = (run p s input (a + 1)).buf.mem := by
    induction u, low using Nat.le_induction with
    | base => rfl
    | succ u low ih => rw [same u (by omega) (by omega) (by omega), ih (by omega)]
  rw [after (r + 1) (by omega) (Nat.le_refl _), capture]

/-- About to set up byte `k` of a block since cycle `v`, the ones before it in the buffer. -/
structure Filling (p : Params) (x : ℕ → State) (input : ℕ → Cycle) (blocks : ℕ → Blocks)
    (lba : BitVec 32) (left v k u : ℕ) (bytes : List Byte) : Prop where
  moving : (x u).seq.Moving .dataout lba left k
  rests : Rests x input u
  plain : Plain (x u).seq
  length : bytes.length = k
  held : ∀ a : BitVec 9, a.toNat < k → (x u).buf.mem a = ofBytes bytes a
  kept : blocks u = blocks v
  shown : Clocked.Stretch (handed p x input) (fun v => (x v).seq.connected = true) v u bytes

/-- One byte more, the next one being set up or the block complete. -/
theorem Filling.byte {u : ℕ} {bytes : List Byte}
    (device : Device bad blocks (run p s input) input)
    (patient : Patient (run p s input) input since) (later : since ≤ u) (below : k < 512)
    (filling : Filling p (run p s input) input blocks lba left v k u bytes) :
    ∃ a r, ByteMoved (run p s input) input (run p s input u).seq u a r ∧
      Plain (run p s input (r + 1)).seq ∧ Rests (run p s input) input r ∧
      blocks (r + 1) = blocks v ∧
      (∀ b : BitVec 9, b.toNat < k + 1 →
        (run p s input (r + 1)).buf.mem b = ofBytes (bytes ++ [(input a).bus.data]) b) ∧
      Clocked.Stretch (handed p (run p s input) input)
        (fun v => (run p s input v).seq.connected = true) v (r + 1)
        (bytes ++ [(input a).bus.data]) := by
  obtain ⟨moving, rests, plain, length, held, kept, shown⟩ := filling
  obtain ⟨a, r, moved⟩ := byteMoved patient later (moving.movesByte (.inr rfl)) moving.quiet
    moving.hs_eq
  have asked := moved.asked
  have freed := moved.freed
  refine ⟨a, r, moved, ?_, rests_over_byte moved moving.quiet rests (by omega) (Nat.le_refl r), ?_,
    fun b lower => ?_, shown.trans (handed_over_byte moved moving.st_eq)⟩
  · rw [moved.after]
    exact plain.released (.inr moving.st_eq)
  · rw [device.kept_over_byte moved moving.quiet rests, kept]
  · rw [device.captured moved moving rests]
    rcases Nat.lt_or_eq_of_le (Nat.lt_succ_iff.mp lower) with earlier | here
    · have other : b ≠ BitVec.ofNat 9 k := by
        rintro rfl
        rw [BitVec.toNat_ofNat, Nat.mod_eq_of_lt (by omega)] at earlier
        omega
      have inside : b.toNat < bytes.length := by omega
      rw [Function.update_of_ne other, held b earlier]
      simp [ofBytes, List.getElem?_append_left inside]
    · have same : b = BitVec.ofNat 9 k := by
        rw [← here]
        simp
      rw [same, Function.update_self, ofBytes, ← same, here, ← length]
      simp

/-- The bytes before the last of a block. -/
theorem Device.filling (device : Device bad blocks (run p s input) input)
    (patient : Patient (run p s input) input since) (later : since ≤ v)
    (moving : (run p s input v).seq.Moving .dataout lba left 0)
    (rests : Rests (run p s input) input v) (plain : Plain (run p s input v).seq) (inside : k ≤ 511) :
    ∃ u bytes, Filling p (run p s input) input blocks lba left v k u bytes := by
  induction k with
  | zero =>
      exact ⟨v, [], moving, rests, plain, rfl, fun a below => absurd below (Nat.not_lt_zero _), rfl,
        Clocked.Stretch.refl _ _ _⟩
  | succ k ih =>
      obtain ⟨u, bytes, filling⟩ := ih (by omega)
      have le := filling.shown.le
      obtain ⟨a, r, moved, plain, rests, kept, held, shown⟩ :=
        filling.byte device patient (by omega) (by omega)
      have next : (run p s input (r + 1)).seq.Moving .dataout lba left (k + 1) := by
        rw [moved.after]
        exact filling.moving.byte (by omega) (.inr rfl)
      exact ⟨r + 1, _, next, rests.succ next.quiet, plain, by simp [filling.length], held, kept, shown⟩

/-- The bytes of a block lead to its request, with the block in the buffer. -/
theorem Device.filled (device : Device bad blocks (run p s input) input)
    (patient : Patient (run p s input) input since) (later : since ≤ v)
    (moving : (run p s input v).seq.Moving .dataout lba left 0)
    (rests : Rests (run p s input) input v) (plain : Plain (run p s input v).seq) :
    ∃ u bytes, (run p s input u).seq.Asking .wrwait true lba left ∧
      Plain (run p s input u).seq ∧ (run p s input u).buf.mem = ofBytes bytes ∧
      bytes.length = 512 ∧ blocks u = blocks v ∧
      Clocked.Stretch (handed p (run p s input) input)
        (fun v => (run p s input v).seq.connected = true) v u bytes := by
  obtain ⟨u, bytes, filling⟩ := device.filling patient later moving rests plain (Nat.le_refl 511)
  have le := filling.shown.le
  obtain ⟨a, r, moved, plain, -, kept, held, shown⟩ :=
    filling.byte device patient (by omega) (by omega)
  refine ⟨r + 1, _, ?_, plain, funext fun b => held b b.isLt, by simp [filling.length], kept, shown⟩
  rw [moved.after]
  exact filling.moving.store

/-- The wait for a block of a WRITE: a bad one ends the command and changes no other, a good one
takes the buffer. -/
theorem Device.drains (device : Device bad blocks (run p s input) input)
    (patient : Patient (run p s input) input since) (later : since ≤ w)
    (asking : (run p s input w).seq.Asking .wrwait true lba left)
    (plain : Plain (run p s input w).seq) :
    ∃ d, w ≤ d ∧ Rests (run p s input) input (d + 1) ∧
      Clocked.Stretch (handed p (run p s input) input)
        (fun v => (run p s input v).seq.connected = true) w (d + 1) [] ∧
      (bad true lba = true →
        Verdict (run p s input (d + 1)).seq (some lba) ∧
          ∀ b ≠ lba, blocks (d + 1) b = blocks w b) ∧
      (bad true lba = false →
        (run p s input (d + 1)).seq = (run p s input w).seq.endPulse.stepWrwait (input d).blk ∧
        (input d).blk.done = true ∧ (input d).blk.err = false ∧
        Plain (run p s input (d + 1)).seq ∧
        blocks (d + 1) = Function.update (blocks w) lba (run p s input w).buf.mem) := by
  have start : (blkReq (run p s input w)).start = true := asking.start
  have write : (blkReq (run p s input w)).we = true := asking.we_eq
  have named : (blkReq (run p s input w)).lba = lba := asking.asked
  obtain ⟨d, answered⟩ := device.answers w start
  have le := answered.le
  have err := device.err w d answered
  have stored := device.stored w d answered write
  have spares := device.spares w d answered write
  have edge := answered.edge patient later (.inr asking.st_eq)
  rw [write, named] at err
  rw [named, device.pending answered le (Nat.le_refl d)] at stored spares
  have place : ∀ v, w ≤ v → v < d + 1 →
      (run p s input v).seq.st = .wrwait ∧ (run p s input v).seq.hs = .setup := by
    intro v low high
    rcases Nat.lt_or_eq_of_le low with after | rfl
    · rw [answered.waits patient later (.inr asking.st_eq) after (by omega)]
      exact ⟨asking.st_eq, asking.hs_eq⟩
    · exact ⟨asking.st_eq, asking.hs_eq⟩
  have stepped : (run p s input (d + 1)).seq =
      (run p s input w).seq.endPulse.stepWrwait (input d).blk := by
    rw [edge]
    simp [Seq.step, Seq.endPulse, asking.st_eq]
  have quiet : (blkReq (run p s input (d + 1))).start = false := by
    simp only [blkReq, stepped, Seq.stepWrwait]
    split_ifs <;> rfl
  refine ⟨d, le, answered.rests quiet, ⟨by omega, ?_, ?_⟩, fun broken => ⟨?_, spares⟩, fun sound => ?_⟩
  · refine Clocked.trace_eq_nil fun v low high => handed_of_silent (.inl ?_)
    simp [Seq.req, (place v low high).2]
  · intro v low high
    simp [Seq.connected, (place v low high).1]
  · rw [stepped, Seq.stepWrwait, mediaFault, answered.done, err, broken]
    exact plain.endPulse.mediumError asking.lba_eq asking.hs_eq rfl
  · rw [sound] at err
    refine ⟨stepped, answered.done, err, ?_, stored sound⟩
    rw [stepped]
    exact plain.endPulse.stepWrwait answered.done err

/-- From the first byte to the end of the data. -/
theorem Device.writes (device : Device bad blocks (run p s input) input)
    (patient : Patient (run p s input) input since) (n : ℕ) (fits : n + 1 < 2 ^ 24)
    (later : since ≤ v) (moving : (run p s input v).seq.Moving .dataout lba (n + 1) 0)
    (rests : Rests (run p s input) input v) (plain : Plain (run p s input v).seq) :
    ∃ u bytes, Verdict (run p s input u).seq (stop (bad true) lba (n + 1)) ∧
      bytes.length = 512 * asked (bad true) lba (n + 1) ∧
      (∀ b, stop (bad true) lba (n + 1) ≠ some b →
        blocks u b = writeIn (bad true) bytes (blocks v) lba (n + 1) b) ∧
      Rests (run p s input) input u ∧
      Clocked.Stretch (handed p (run p s input) input)
        (fun v => (run p s input v).seq.connected = true) v u bytes := by
  induction n generalizing lba v with
  | zero =>
      obtain ⟨w, bytes, asking, plain, mem, length, same, shown⟩ :=
        device.filled patient later moving rests plain
      have le := shown.le
      obtain ⟨d, after, rests, waited, refused, drained⟩ :=
        device.drains patient (by omega) asking plain
      have whole := shown.trans waited
      rw [List.append_nil] at whole
      rw [stop, asked]
      cases broken : bad true lba with
      | true =>
          obtain ⟨ends, kept⟩ := refused broken
          refine ⟨d + 1, bytes, ends, by simp [length], fun b other => ?_, rests, whole⟩
          have apart : b ≠ lba := fun is => other (by simp [is])
          rw [kept b apart, same]
          simp [writeIn, broken]
      | false =>
          obtain ⟨is, done, clean, plain, stored⟩ := drained broken
          have ends : (run p s input (d + 1)).seq.Ending := by
            rw [is]
            exact asking.writeEnds done clean
          refine ⟨d + 1, bytes, ⟨ends.st_eq, ends.hs_eq, ends.quiet, plain.op, ends.good,
            plain.sense⟩, by simp [length, asked], fun b _ => ?_, rests, whole⟩
          simp [stored, same, mem, writeIn, broken]
  | succ n ih =>
      obtain ⟨w, bytes, asking, plain, mem, length, same, shown⟩ :=
        device.filled patient later moving rests plain
      have le := shown.le
      obtain ⟨d, after, rests, waited, refused, drained⟩ :=
        device.drains patient (by omega) asking plain
      have whole := shown.trans waited
      rw [List.append_nil] at whole
      rw [stop, asked]
      cases broken : bad true lba with
      | true =>
          obtain ⟨ends, kept⟩ := refused broken
          refine ⟨d + 1, bytes, ends, by simp [length], fun b other => ?_, rests, whole⟩
          have apart : b ≠ lba := fun is => other (by simp [is])
          rw [kept b apart, same]
          simp [writeIn, broken]
      | false =>
          obtain ⟨is, done, clean, plain, stored⟩ := drained broken
          have next : (run p s input (d + 1)).seq.Moving .dataout (lba + 1) (n + 1) 0 := by
            rw [is]
            exact asking.drained (by omega) (Nat.succ_ne_zero n) done clean
          obtain ⟨u, rest, ends, count, held, rests, tail⟩ :=
            ih (by omega) (by omega) next rests plain
          refine ⟨u, bytes ++ rest, by simpa using ends, ?_, fun b other => ?_, rests,
            whole.trans tail⟩
          · simp only [List.length_append, length, count]
            simp
            omega
          · have first : ofBytes (bytes ++ rest) = ofBytes bytes := by
              rw [← ofBytes_take, ← length, List.take_left]
            have later : (bytes ++ rest).drop 512 = rest := by
              rw [← length, List.drop_left]
            rw [held b (by simpa using other), stored, same, mem]
            conv_rhs => rw [writeIn, broken, first, later]
            rfl

/-- A WRITE of at least one existing block that is taken on in cycle `t` when nothing is owed, up
to its verdict. -/
theorem Device.write_ends (device : Device bad blocks (run p s input) input) {t : ℕ}
    (patient : Patient (run p s input) input t) (exec : (run p s input t).seq.st = .exec)
    (rests : Rests (run p s input) input (t + 1))
    (addressed : (run p s input t).seq.Addressed (input t).blk)
    (write : (run p s input t).seq.cdbIsWrite = true)
    (some_ : (run p s input t).seq.cmdBlocks ≠ 0) {n : ℕ}
    (lba_eq : (run p s input t).seq.cmdLba = lba)
    (count : (run p s input t).seq.cmdBlocks.toNat = n) :
    ∃ u bytes, Verdict (run p s input u).seq (stop (bad true) lba n) ∧
      bytes.length = 512 * asked (bad true) lba n ∧
      (∀ b, stop (bad true) lba n ≠ some b →
        blocks u b = writeIn (bad true) bytes (blocks (t + 1)) lba n b) ∧
      Rests (run p s input) input u ∧
      Clocked.Stretch (handed p (run p s input) input)
        (fun v => (run p s input v).seq.connected = true) (t + 1) u bytes := by
  have positive : n ≠ 0 := fun zero => some_ (BitVec.eq_of_toNat_eq (count.trans zero))
  obtain ⟨left, rfl⟩ : ∃ left, n = left + 1 := ⟨n - 1, by omega⟩
  have fits : left + 1 < 2 ^ 24 := count ▸ (run p s input t).seq.cmdBlocks.isLt
  have accepted : (run p s input t).seq.endPulse.accepts (input t).blk = true := addressed.accepts
  have notRead : (run p s input t).seq.endPulse.cdbIsRead = false := by
    cases read : (run p s input t).seq.cdbIsRead with
    | false => exact read
    | true =>
        rw [Seq.cdbIsWrite_of_read read] at write
        cases write
  have taken := Seq.taken_write accepted notRead rfl
  have moving : (run p s input (t + 1)).seq.Moving .dataout lba (left + 1) 0 := by
    rw [run_seq_exec patient exec, ← count, ← lba_eq]
    exact taken
  have plain : Plain (run p s input (t + 1)).seq := by
    rw [run_seq_exec patient exec, Seq.stepExec_write accepted notRead]
    have media : Plain (run p s input t).seq.endPulse.taken :=
      Plain.taken (op_of_media addressed.media)
    exact ⟨media.op, media.sense⟩
  exact device.writes patient left fits (Nat.le_succ t) moving rests plain

/-- The whole of it. -/
theorem Device.write_command (device : Device bad blocks (run p s input) input) {t : ℕ}
    (patient : Patient (run p s input) input t) (exec : (run p s input t).seq.st = .exec)
    (rests : Rests (run p s input) input (t + 1))
    (addressed : (run p s input t).seq.Addressed (input t).blk)
    (write : (run p s input t).seq.cdbIsWrite = true)
    (some_ : (run p s input t).seq.cmdBlocks ≠ 0) {n : ℕ}
    (lba_eq : (run p s input t).seq.cmdLba = lba)
    (count : (run p s input t).seq.cmdBlocks.toNat = n) :
    ∃ u w bytes, Clocked.Stretch (handed p (run p s input) input)
        (fun v => (run p s input v).seq.connected = true) (t + 1) u bytes ∧
      bytes.length = 512 * asked (bad true) lba n ∧
      Clocked.Stretch (shows p (run p s input) input)
        (fun v => (run p s input v).seq.connected = true) u w
        [.status (verdict (stop (bad true) lba n)).1, .message mCommandComplete] ∧
      (run p s input w).seq.st = .free ∧
      (run p s input w).seq.sense = (verdict (stop (bad true) lba n)).2 ∧
      Rests (run p s input) input w ∧
      ∀ b, stop (bad true) lba n ≠ some b →
        blocks w b = writeIn (bad true) bytes (blocks (t + 1)) lba n b := by
  obtain ⟨u, bytes, ends, length, held, after, shown⟩ :=
    device.write_ends patient exec rests addressed write some_ lba_eq count
  have le := shown.le
  obtain ⟨w, free, sense, quiet, told⟩ := ends.ends patient (by omega)
  refine ⟨u, w, bytes, shown, length, told, free, sense, after.until told.le quiet,
    fun b other => ?_⟩
  rw [device.kept_until after told.le fun v above below => quiet v above (by omega), held b other]

/-- Nothing is asked as a WRITE is taken on. -/
theorem quiet_of_write {t : ℕ} (patient : Patient (run p s input) input t)
    (takes : Takes (run p s input) input t) (write : (run p s input t).seq.cdbIsWrite = true) :
    (blkReq (run p s input (t + 1))).start = false := by
  have notRead : (run p s input t).seq.endPulse.cdbIsRead = false := by
    cases read : (run p s input t).seq.cdbIsRead with
    | false => exact read
    | true =>
        rw [Seq.cdbIsWrite_of_read read] at write
        cases write
  have accepted : (run p s input t).seq.endPulse.accepts (input t).blk = true := takes.accepted
  rw [blkReq, run_seq_exec patient takes.exec]
  exact (Seq.taken_write accepted notRead rfl).quiet

end Run

/-- In every run of the target against whatever serves the block interface, a WRITE of existing
blocks stores the bytes that are handed over, up to the first bad block, says so, and changes no
other block. -/
theorem write_to_device (p : Params) (s : State) (input : ℕ → Cycle) (t : ℕ)
    (bad : Bool → BitVec 32 → Bool) (blocks : ℕ → Blocks)
    (device : Device bad blocks (run p s input) input)
    (patient : Patient (run p s input) input t) (exec : (run p s input t).seq.st = .exec)
    (rests : Rests (run p s input) input (t + 1))
    (addressed : (run p s input t).seq.Addressed (input t).blk)
    (write : (run p s input t).seq.cdbIsWrite = true)
    (some_ : (run p s input t).seq.cmdBlocks ≠ 0) :
    let lba := (run p s input t).seq.cmdLba
    let n := (run p s input t).seq.cmdBlocks.toNat
    let stopped := verdict (stop (bad true) lba n)
    ∃ u w bytes, Clocked.Stretch (handed p (run p s input) input)
        (fun v => (run p s input v).seq.connected = true) (t + 1) u bytes ∧
      bytes.length = 512 * asked (bad true) lba n ∧
      Clocked.Stretch (shows p (run p s input) input)
        (fun v => (run p s input v).seq.connected = true) u w
        [.status stopped.1, .message mCommandComplete] ∧
      (run p s input w).seq.st = .free ∧ (run p s input w).seq.sense = stopped.2 ∧
      ∀ b, stop (bad true) lba n ≠ some b →
        blocks w b = writeIn (bad true) bytes (blocks (t + 1)) lba n b := by
  intro lba n stopped
  obtain ⟨u, w, bytes, shown, length, told, free, sense, -, held⟩ :=
    device.write_command patient exec rests addressed write some_ rfl rfl
  exact ⟨u, w, bytes, shown, length, told, free, sense, held⟩

/-- Two blocks, of which the second is bad. -/
theorem half_a_write :
    ∃ (blocks : ℕ → Blocks) (u w : ℕ) (bytes : List Byte), Clocked.Stretch
        (handed {} (Rig.target {} .blank benchDisk (Rig.benchStim cWrite10 2))
          (Rig.seen {} .blank benchDisk (Rig.benchStim cWrite10 2)))
        (fun v => (Rig.target {} .blank benchDisk (Rig.benchStim cWrite10 2) v).seq.connected = true)
        53 u bytes ∧
      bytes.length = 1024 ∧ blocks w 5 = ofBytes bytes ∧ blocks w 7 = blocks 53 7 ∧
      (Rig.target {} .blank benchDisk (Rig.benchStim cWrite10 2) w).seq.sense =
        ⟨skMediumError, ascUnrecoveredRead, 0, 6⟩ := by
  have exec : (Rig.target {} .blank benchDisk (Rig.benchStim cWrite10 2) 52).seq.st = .exec := by
    rw [Rig.target_bench]
    exact benches.2.1.exec.1
  have lba : (Rig.target {} .blank benchDisk (Rig.benchStim cWrite10 2) 52).seq.cmdLba = 5 := by
    rw [Rig.target_bench]
    exact benches.2.1.lba
  have count : (Rig.target {} .blank benchDisk (Rig.benchStim cWrite10 2) 52).seq.cmdBlocks = 2 := by
    rw [Rig.target_bench]
    exact benches.2.1.count
  have write :
      (Rig.target {} .blank benchDisk (Rig.benchStim cWrite10 2) 52).seq.cdbIsWrite = true := by
    rw [Rig.target_bench, Seq.cdbIsWrite, benches.2.1.op_eq]
    rfl
  rw [Rig.target] at lba count
  obtain ⟨u, w, bytes, shown, length, -, -, sense, held⟩ := write_to_device {} (start .blank) _ 52 _ _
    (benches.2.1.proper (by decide)).device benches.2.1.patient exec
    (benches.2.1.rests (by decide)) (benches.2.1.addressed (.inr rfl) (by decide)) write
    (by rw [count]; decide)
  have good : benchDisk.fails 5 = false := by decide
  have broken : benchDisk.fails (5 + 1) = true := by decide
  have two : (2 : BitVec 24).toNat = 2 := rfl
  have six : stop benchDisk.fails 5 2 = some (5 + 1) := by
    rw [stop, good, stop, broken]
    rfl
  rw [lba, count, two, asked, good, asked, broken] at length
  rw [lba, count, two, six] at sense held
  have five := held 5 (by decide)
  have seven := held 7 (by decide)
  rw [writeIn, good, writeIn, broken] at five seven
  exact ⟨_, u, w, bytes, shown, length, five, seven, sense⟩

end Wish5380.Block
