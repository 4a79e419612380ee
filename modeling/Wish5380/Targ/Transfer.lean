import Wish5380.Targ.Handshake
import Wish5380.Targ.Medium

/-!
# A whole READ or WRITE

From `S_EXEC` to bus free: the requests to the back end, the status byte and
the message byte, in the order they happen.  The block counter is compared with
one at the end of each block and never with zero, so a ten-byte command of no
blocks does not end where it should.
-/

namespace Wish5380.Targ

namespace Seq

/-! ## Where a transfer stands -/

/-- The registers a block transfer lives on, with `left` blocks still to move. -/
structure Media (s : Seq) (lba : BitVec 32) (left : ℕ) : Prop where
  media : s.respKind = .media
  len : s.xferLen = 512
  lba_eq : s.lba = lba
  left_eq : s.blkLeft = BitVec.ofNat 24 left
  good : s.status = stGood

/-- About to set up byte `k` of a block. -/
structure Moving (s : Seq) (st : St) (lba : BitVec 32) (left k : ℕ) : Prop
    extends Media s lba left where
  st_eq : s.st = st
  hs_eq : s.hs = .setup
  idx_eq : s.idx = BitVec.ofNat 10 k
  quiet : s.blkStart = false

/-- Raising a request for the block it stands at. -/
structure Asking (s : Seq) (st : St) (we : Bool) (lba : BitVec 32) (left : ℕ) : Prop
    extends Media s lba left where
  st_eq : s.st = st
  hs_eq : s.hs = .setup
  start : s.blkStart = true
  we_eq : s.blkWe = we
  asked : s.blkLba = lba

/-- About to set up a GOOD status byte. -/
structure Ending (s : Seq) : Prop where
  st_eq : s.st = .status
  hs_eq : s.hs = .setup
  quiet : s.blkStart = false
  good : s.status = stGood

/-- About to set up the COMMAND COMPLETE message. -/
structure Closing (s : Seq) : Prop where
  st_eq : s.st = .msgin
  hs_eq : s.hs = .setup
  quiet : s.blkStart = false
  complete : s.msgIn = mCommandComplete

/-! ## From one place to the next -/

theorem ofNat_left_eq_one {left : ℕ} (fits : left + 1 < 2 ^ 24) :
    BitVec.ofNat 24 (left + 1) = 1 ↔ left = 0 := by
  rw [← BitVec.toNat_inj, BitVec.toNat_ofNat, Nat.mod_eq_of_lt fits]
  simp

theorem ofNat_left_sub_one (left : ℕ) : BitVec.ofNat 24 (left + 1) - 1 = BitVec.ofNat 24 left := by
  rw [BitVec.ofNat_add]
  simp

theorem ofNat_idx_succ_eq_len {k : ℕ} (below : k < 512) :
    BitVec.ofNat 10 k + 1 = 512 ↔ k = 511 := by
  rw [show BitVec.ofNat 10 k + 1 = BitVec.ofNat 10 (k + 1) from (BitVec.ofNat_add k 1).symm,
    ← BitVec.toNat_inj, BitVec.toNat_ofNat, Nat.mod_eq_of_lt (by omega)]
  simp

section

variable {s : Seq} {lba : BitVec 32} {left k : ℕ}

theorem Moving.movesByte {st : St} (moving : s.Moving st lba left k)
    (data : st = .datain ∨ st = .dataout) : s.MovesByte := by
  rcases data with rfl | rfl
  · exact .inl moving.st_eq
  · exact .inr (.inl moving.st_eq)

/-- Inside a block either direction goes on to the next byte. -/
theorem Moving.byte {st : St} (moving : s.Moving st lba left k) (below : k < 511)
    (data : st = .datain ∨ st = .dataout) :
    (released { s with hs := .rel }).Moving st lba left (k + 1) := by
  obtain ⟨⟨media, len, lba_eq, left_eq, good⟩, st_eq, _, idx_eq, quiet⟩ := moving
  have inside : ¬ s.idx + 1 = s.xferLen := by
    rw [idx_eq, len, ofNat_idx_succ_eq_len (by omega)]
    omega
  have succ : s.idx + 1 = BitVec.ofNat 10 (k + 1) := by
    rw [idx_eq, BitVec.ofNat_add]
    rfl
  rcases data with rfl | rfl
  · simp only [released, st_eq, datainReleased, if_neg inside]
    exact ⟨⟨media, len, lba_eq, left_eq, good⟩, rfl, rfl, succ, quiet⟩
  · simp only [released, st_eq, dataoutReleased, if_neg inside]
    exact ⟨⟨media, len, lba_eq, left_eq, good⟩, rfl, rfl, succ, quiet⟩

/-- The last byte of a block that has another behind it. -/
theorem Moving.fetch (moving : s.Moving .datain lba (left + 1) 511) (fits : left + 1 < 2 ^ 24)
    (more : left ≠ 0) :
    (released { s with hs := .rel }).Asking .rdwait false (lba + 1) left := by
  obtain ⟨⟨media, len, lba_eq, left_eq, good⟩, st_eq, _, idx_eq, _⟩ := moving
  have last : s.idx + 1 = s.xferLen := by
    rw [idx_eq, len, ofNat_idx_succ_eq_len (by omega)]
  have another : s.blkLeft ≠ 1 := by
    rw [left_eq, Ne, ofNat_left_eq_one fits]
    exact more
  simp only [released, st_eq, datainReleased, if_pos last, if_pos (And.intro media another)]
  refine ⟨⟨media, len, ?_, ?_, good⟩, rfl, rfl, rfl, rfl, ?_⟩
  · rw [lba_eq]
  · rw [left_eq, ofNat_left_sub_one]
  · rw [lba_eq]

/-- The last byte of the last block. -/
theorem Moving.readEnds (moving : s.Moving .datain lba 1 511) :
    (released { s with hs := .rel }).Ending := by
  obtain ⟨⟨media, len, lba_eq, left_eq, good⟩, st_eq, _, idx_eq, quiet⟩ := moving
  have last : s.idx + 1 = s.xferLen := by
    rw [idx_eq, len, ofNat_idx_succ_eq_len (by omega)]
  simp only [released, st_eq, datainReleased, if_pos last]
  rw [if_neg (by simp [left_eq])]
  exact ⟨rfl, rfl, quiet, good⟩

theorem Moving.readOn (moving : s.Moving .datain lba (left + 1) 511) (fits : left + 1 < 2 ^ 24) :
    if left = 0 then (released { s with hs := .rel }).Ending
    else (released { s with hs := .rel }).Asking .rdwait false (lba + 1) left := by
  split_ifs with none
  · subst none
    exact moving.readEnds
  · exact moving.fetch fits none

/-- The last byte of a block the initiator sends. -/
theorem Moving.store (moving : s.Moving .dataout lba left 511) :
    (released { s with hs := .rel }).Asking .wrwait true lba left := by
  obtain ⟨⟨media, len, lba_eq, left_eq, good⟩, st_eq, _, idx_eq, quiet⟩ := moving
  have last : s.idx + 1 = s.xferLen := by
    rw [idx_eq, len, ofNat_idx_succ_eq_len (by omega)]
  simp only [released, st_eq, dataoutReleased, if_pos last, if_pos media]
  exact ⟨⟨media, len, lba_eq, left_eq, good⟩, rfl, rfl, rfl, rfl, lba_eq⟩

theorem Asking.filled {blk : BlkRsp} (asking : s.Asking .rdwait false lba left)
    (done : blk.done = true) (clean : blk.err = false) :
    (s.endPulse.stepRdwait blk).Moving .datain lba left 0 := by
  obtain ⟨⟨media, len, lba_eq, left_eq, good⟩, _⟩ := asking
  simp only [stepRdwait, mediaFault, done, clean]
  exact ⟨⟨media, len, lba_eq, left_eq, good⟩, rfl, rfl, rfl, rfl⟩

theorem stepWrwait_done {blk : BlkRsp} (done : blk.done = true) (clean : blk.err = false) :
    s.stepWrwait blk =
      if s.blkLeft = 1 then { s with st := .status }
      else { s with blkLeft := s.blkLeft - 1, lba := s.lba + 1, idx := 0, hs := .setup,
                    st := .dataout } := by
  simp [stepWrwait, mediaFault, done, clean]

theorem Asking.drained {blk : BlkRsp} (asking : s.Asking .wrwait true lba (left + 1))
    (fits : left + 1 < 2 ^ 24) (more : left ≠ 0) (done : blk.done = true)
    (clean : blk.err = false) :
    (s.endPulse.stepWrwait blk).Moving .dataout (lba + 1) left 0 := by
  obtain ⟨⟨media, len, lba_eq, left_eq, good⟩, _⟩ := asking
  have another : ¬ s.endPulse.blkLeft = 1 := by
    rw [show s.endPulse.blkLeft = s.blkLeft from rfl, left_eq, ofNat_left_eq_one fits]
    exact more
  rw [stepWrwait_done done clean, if_neg another]
  refine ⟨⟨media, len, ?_, ?_, good⟩, rfl, rfl, rfl, rfl⟩
  · exact congrArg (· + 1) lba_eq
  · exact (congrArg (· - 1) left_eq).trans (ofNat_left_sub_one left)

theorem Asking.writeEnds {blk : BlkRsp} (asking : s.Asking .wrwait true lba 1)
    (done : blk.done = true) (clean : blk.err = false) :
    (s.endPulse.stepWrwait blk).Ending := by
  obtain ⟨⟨media, len, lba_eq, left_eq, good⟩, _, hs_eq, _⟩ := asking
  have last : s.endPulse.blkLeft = 1 := left_eq
  rw [stepWrwait_done done clean, if_pos last]
  exact ⟨rfl, hs_eq, rfl, good⟩

theorem Ending.closes (ending : s.Ending) : (released { s with hs := .rel }).Closing := by
  simp only [released, ending.st_eq, statusReleased]
  exact ⟨rfl, rfl, ending.quiet, rfl⟩

theorem Closing.frees (closing : s.Closing) : (released { s with hs := .rel }).st = .free := by
  simp only [released, closing.st_eq, msginReleased]
  split_ifs <;> rfl

theorem taken_read {blk : BlkRsp} (accepted : s.accepts blk = true) (read : s.cdbIsRead = true) :
    (s.stepExec blk).Asking .rdwait false s.cmdLba s.cmdBlocks.toNat := by
  rw [stepExec_read accepted read]
  refine ⟨⟨rfl, rfl, rfl, ?_, ?_⟩, rfl, ?_, rfl, rfl, rfl⟩
  · simp [taken]
  · simp [taken]
  · simp [taken]

theorem taken_write {blk : BlkRsp} (accepted : s.accepts blk = true) (write : s.cdbIsRead = false)
    (quiet : s.blkStart = false) :
    (s.stepExec blk).Moving .dataout s.cmdLba s.cmdBlocks.toNat 0 := by
  rw [stepExec_write accepted write]
  refine ⟨⟨rfl, rfl, rfl, ?_, ?_⟩, rfl, ?_, ?_, ?_⟩
  · simp [taken]
  · simp [taken]
  · simp [taken]
  · simp [taken]
  · simpa [taken] using quiet

end

end Seq

/-! ## What a command shows -/

/-- The control side of a command. -/
inductive Event where
  | start (we : Bool) (lba : ℕ)
  | status (d : Byte)
  | message (d : Byte)
  deriving DecidableEq, Repr

/-- A request to the back end, with its address as a number. -/
def requests (x : ℕ → State) (t : ℕ) : List Event :=
  if (blkReq (x t)).start then [.start (blkReq (x t)).we (blkReq (x t)).lba.toNat] else []

/-- A status or message byte, in the cycle the initiator acknowledges it. -/
def deliveries (p : Params) (x : ℕ → State) (input : ℕ → Cycle) (t : ℕ) : List Event :=
  let out := drive p (x t) (input t).blk.count
  if out.req && (input t).bus.ack then
    if out.phase = phStatus then [.status out.data]
    else if out.phase = phMsgIn then [.message out.data]
    else []
  else []

def shows (p : Params) (x : ℕ → State) (input : ℕ → Cycle) (t : ℕ) : List Event :=
  requests x t ++ deliveries p x input t

theorem drive_phase {p : Params} {t : State} (count : BitVec 32) (up : t.seq.connected = true) :
    (drive p t count).phase = t.seq.phase := by
  cases st : t.seq.st <;> simp [drive, Scsi.phase, Seq.phase, up, st]

theorem requests_of_quiet {x : ℕ → State} {t : ℕ} (quiet : (x t).seq.blkStart = false) :
    requests x t = [] := by
  simp [requests, blkReq, quiet]

theorem deliveries_of_silent {p : Params} {x : ℕ → State} {input : ℕ → Cycle} {t : ℕ}
    (silent : (x t).seq.req = false ∨ (input t).bus.ack = false) :
    deliveries p x input t = [] := by
  rcases silent with off | off <;> simp [deliveries, drive, off]

theorem deliveries_of_data {p : Params} {x : ℕ → State} {input : ℕ → Cycle} {t : ℕ}
    (data : (x t).seq.phase = phDataIn ∨ (x t).seq.phase = phDataOut)
    (up : (x t).seq.connected = true) : deliveries p x input t = [] := by
  simp only [deliveries, drive_phase _ up]
  rcases data with is | is <;> simp [is]

theorem deliveries_status {p : Params} {x : ℕ → State} {input : ℕ → Cycle} {t : ℕ}
    (is : (x t).seq.st = .status) (hs : (x t).seq.hs = .req) (acked : (input t).bus.ack = true) :
    deliveries p x input t = [.status (x t).seq.status] := by
  have up : (x t).seq.connected = true := by simp [Seq.connected, is]
  have phase : (x t).seq.phase = phStatus := by simp [Seq.phase, is]
  have req : (drive p (x t) (input t).blk.count).req = true := by simp [drive, Seq.req, up, hs]
  have data : (drive p (x t) (input t).blk.count).data = (x t).seq.status := by
    simp [drive, Seq.driveBus, up, phase, dataOut, is]
  simp [deliveries, drive_phase _ up, phase, req, data, acked]

theorem deliveries_message {p : Params} {x : ℕ → State} {input : ℕ → Cycle} {t : ℕ}
    (is : (x t).seq.st = .msgin) (hs : (x t).seq.hs = .req) (acked : (input t).bus.ack = true) :
    deliveries p x input t = [.message (x t).seq.msgIn] := by
  have up : (x t).seq.connected = true := by simp [Seq.connected, is]
  have phase : (x t).seq.phase = phMsgIn := by simp [Seq.phase, is]
  have req : (drive p (x t) (input t).blk.count).req = true := by simp [drive, Seq.req, up, hs]
  have data : (drive p (x t) (input t).blk.count).data = (x t).seq.msgIn := by
    simp [drive, Seq.driveBus, up, phase, dataOut, is]
  simp [deliveries, drive_phase _ up, phase, req, data, acked]

/-- A byte handshake shows nothing but the byte, in the cycle it is acknowledged. -/
theorem ByteMoved.stretch {p : Params} {x : ℕ → State} {input : ℕ → Cycle} {s : Seq} {t a r : ℕ}
    (moved : ByteMoved x input s t a r) (quiet : s.blkStart = false) (moves : s.MovesByte) :
    Clocked.Stretch (shows p x input) (fun v => (x v).seq.connected = true) t (r + 1)
      (deliveries p x input a) := by
  have up : ∀ h, ({ s with hs := h } : Seq).connected = true := by
    intro h
    simpa [Seq.connected] using Seq.connected_of_movesByte moves
  have place := fun v low high => moved.seq_eq (v := v) low (Nat.lt_succ_iff.mp high)
  have asked := moved.asked
  have freed := moved.freed
  refine ⟨by omega, ?_, ?_⟩
  · rw [Clocked.trace_eq_single (c := a) (by omega) (by omega)]
    · obtain ⟨h, is, _⟩ := place a (by omega) (by omega)
      rw [shows, requests_of_quiet (by rw [is]; exact quiet), List.nil_append]
    · intro v low high other
      obtain ⟨h, is, silent⟩ := place v low high
      rw [shows, requests_of_quiet (by rw [is]; exact quiet), List.nil_append]
      refine deliveries_of_silent ?_
      cases h with
      | req => exact .inr (silent other rfl)
      | setup => exact .inl (by rw [is]; simp [Seq.req])
      | rel => exact .inl (by rw [is]; simp [Seq.req])
      | h3 => exact .inl (by rw [is]; simp [Seq.req])
  · intro v low high
    obtain ⟨h, is, _⟩ := place v low high
    rw [is]
    exact up h

/-- A wait shows its request and nothing else. -/
theorem BlockMoved.stretch {p : Params} {x : ℕ → State} {input : ℕ → Cycle} {s : Seq} {w d : ℕ}
    {st : St} {we : Bool} {lba : BitVec 32} {left : ℕ} (moved : BlockMoved x input s w d)
    (asking : s.Asking st we lba left) (waits : st = .rdwait ∨ st = .wrwait) :
    Clocked.Stretch (shows p x input) (fun v => (x v).seq.connected = true) w (d + 1)
      [.start we lba.toNat] := by
  have place : ∀ v, w ≤ v → v < d + 1 → (x v).seq = s ∨ (v ≠ w ∧ (x v).seq = s.endPulse) := by
    intro v low high
    rcases Nat.lt_or_ge w v with after | before
    · exact .inr ⟨by omega, moved.waits v after (by omega)⟩
    · obtain rfl : v = w := by omega
      exact .inl moved.start
  have le := moved.le
  have up : s.connected = true := by
    rcases waits with rfl | rfl <;> simp [Seq.connected, asking.st_eq]
  have silent : s.req = false := by simp [Seq.req, asking.hs_eq]
  refine ⟨by omega, ?_, ?_⟩
  · rw [Clocked.trace_eq_single (c := w) (Nat.le_refl w) (by omega)]
    · rw [shows, deliveries_of_silent (.inl (by rw [moved.start]; exact silent))]
      simp [requests, blkReq, moved.start, asking.start, asking.we_eq, asking.asked]
    · intro v low high other
      rcases place v low high with is | ⟨_, is⟩
      · rw [shows, deliveries_of_silent (.inl (by rw [is]; exact silent)), requests_of_quiet]
        · rfl
        · rw [moved.waits v (by omega) (by omega)]
          rfl
      · rw [shows, deliveries_of_silent (.inl (by rw [is]; exact silent)), requests_of_quiet]
        · rfl
        · rw [is]
          rfl
  · intro v low high
    rcases place v low high with is | ⟨_, is⟩
    · rw [is]
      exact up
    · rw [is]
      exact up

section Command

variable {p : Params} {s : State} {input : ℕ → Cycle} {since t : ℕ} {lba : BitVec 32} {left : ℕ}

/-- A byte of a data phase, whatever its position, moves in silence. -/
theorem data_byte {st : St} {k : ℕ} (fair : Fair (run p s input) input since) (later : since ≤ t)
    (data : st = .datain ∨ st = .dataout) (moving : (run p s input t).seq.Moving st lba left k) :
    ∃ a r, ByteMoved (run p s input) input (run p s input t).seq t a r ∧
      Clocked.Stretch (shows p (run p s input) input)
        (fun v => (run p s input v).seq.connected = true) t (r + 1) [] := by
  have moves := moving.movesByte data
  obtain ⟨a, r, moved⟩ := byteMoved fair.patient later moves moving.quiet moving.hs_eq
  have quietly := moved.stretch (p := p) moving.quiet moves
  have asking := moved.asks a moved.asked (Nat.le_refl a)
  rw [deliveries_of_data] at quietly
  · exact ⟨a, r, moved, quietly⟩
  · rw [asking]
    rcases data with rfl | rfl <;> simp [Seq.phase, moving.st_eq]
  · rw [asking]
    simpa [Seq.connected] using Seq.connected_of_movesByte moves

/-- Up to the last byte of a block. -/
theorem data_bytes {st : St} (fair : Fair (run p s input) input since) (later : since ≤ t)
    (data : st = .datain ∨ st = .dataout) (moving : (run p s input t).seq.Moving st lba left 0) :
    ∃ u, since ≤ u ∧ (run p s input u).seq.Moving st lba left 511 ∧
      Clocked.Stretch (shows p (run p s input) input)
        (fun v => (run p s input v).seq.connected = true) t u [] := by
  have advance : ∀ k < 511, ∀ v, since ≤ v ∧ (run p s input v).seq.Moving st lba left k →
      ∃ u, (since ≤ u ∧ (run p s input u).seq.Moving st lba left (k + 1)) ∧
        Clocked.Stretch (shows p (run p s input) input)
          (fun v => (run p s input v).seq.connected = true) v u [] := by
    rintro k below v ⟨reached, there⟩
    obtain ⟨a, r, moved, shown⟩ := data_byte fair reached data there
    have le := shown.le
    refine ⟨r + 1, ⟨by omega, ?_⟩, shown⟩
    rw [moved.after]
    exact there.byte below data
  obtain ⟨u, ⟨reached, last⟩, shown⟩ := Clocked.Stretch.stages advance ⟨later, moving⟩
  rw [List.flatMap_eq_nil_iff.mpr fun _ _ => rfl] at shown
  exact ⟨u, reached, last, shown⟩

/-- Where a READ stands between two blocks. -/
def ReadStage (x : ℕ → State) (since : ℕ) (lba : BitVec 32) (left t : ℕ) : Prop :=
  since ≤ t ∧ if left = 0 then (x t).seq.Ending else (x t).seq.Asking .rdwait false lba left

/-- Where a WRITE stands between two blocks. -/
def WriteStage (x : ℕ → State) (since : ℕ) (lba : BitVec 32) (left t : ℕ) : Prop :=
  since ≤ t ∧ if left = 0 then (x t).seq.Ending else (x t).seq.Moving .dataout lba left 0

/-- The wait for a block of a READ ends with the block. -/
theorem read_arrives (fair : Fair (run p s input) input since) (later : since ≤ t)
    (asking : (run p s input t).seq.Asking .rdwait false lba left) :
    ∃ d, BlockMoved (run p s input) input (run p s input t).seq t d ∧
      (run p s input (d + 1)).seq.Moving .datain lba left 0 := by
  obtain ⟨d, moved⟩ := blockMoved fair later (.inl asking.st_eq) asking.start
  have le := moved.le
  refine ⟨d, moved, ?_⟩
  rw [run_seq_succ fair.patient (by omega), moved.last]
  simpa [Seq.step, Seq.endPulse, asking.st_eq] using asking.filled moved.done moved.clean

/-- One block of a READ: request, answer, 512 bytes. -/
theorem read_block (fair : Fair (run p s input) input since) (fits : left + 1 < 2 ^ 24)
    (stage : ReadStage (run p s input) since lba (left + 1) t) :
    ∃ u, ReadStage (run p s input) since (lba + 1) left u ∧
      Clocked.Stretch (shows p (run p s input) input)
        (fun v => (run p s input v).seq.connected = true) t u [.start false lba.toNat] := by
  obtain ⟨later, asking⟩ := stage
  rw [if_neg (Nat.succ_ne_zero left)] at asking
  obtain ⟨d, moved, arrived⟩ := read_arrives fair later asking
  have waited := moved.stretch (p := p) asking (.inl rfl)
  have le := moved.le
  obtain ⟨u, reached, last, bytes⟩ := data_bytes fair (by omega) (.inl rfl) arrived
  obtain ⟨a, r, byte, final⟩ := data_byte fair reached (.inl rfl) last
  have rest := final.le
  refine ⟨r + 1, ⟨by omega, ?_⟩, by simpa using (waited.trans bytes).trans final⟩
  rw [byte.after]
  exact last.readOn fits

/-- The 512 bytes of a block of a WRITE lead to its request. -/
theorem write_bytes (fair : Fair (run p s input) input since) (later : since ≤ t)
    (moving : (run p s input t).seq.Moving .dataout lba left 0) :
    ∃ u, since ≤ u ∧ (run p s input u).seq.Asking .wrwait true lba left ∧
      Clocked.Stretch (shows p (run p s input) input)
        (fun v => (run p s input v).seq.connected = true) t u [] := by
  obtain ⟨u, reached, last, bytes⟩ := data_bytes fair later (.inr rfl) moving
  obtain ⟨a, r, byte, final⟩ := data_byte fair reached (.inr rfl) last
  have rest := final.le
  refine ⟨r + 1, by omega, ?_, by simpa using bytes.trans final⟩
  rw [byte.after]
  exact last.store

/-- The wait for a block of a WRITE leads to the next block, or to the end. -/
theorem write_drains (fair : Fair (run p s input) input since) (later : since ≤ t)
    (fits : left + 1 < 2 ^ 24)
    (asking : (run p s input t).seq.Asking .wrwait true lba (left + 1)) :
    ∃ d, BlockMoved (run p s input) input (run p s input t).seq t d ∧
      WriteStage (run p s input) since (lba + 1) left (d + 1) := by
  obtain ⟨d, moved⟩ := blockMoved fair later (.inr asking.st_eq) asking.start
  have le := moved.le
  have edge : (run p s input (d + 1)).seq =
      (run p s input t).seq.endPulse.stepWrwait (input d).blk := by
    rw [run_seq_succ fair.patient (by omega), moved.last]
    simp [Seq.step, Seq.endPulse, asking.st_eq]
  refine ⟨d, moved, by omega, ?_⟩
  rw [edge]
  split_ifs with none
  · subst none
    exact asking.writeEnds moved.done moved.clean
  · exact asking.drained fits none moved.done moved.clean

/-- One block of a WRITE: 512 bytes, request, answer. -/
theorem write_block (fair : Fair (run p s input) input since) (fits : left + 1 < 2 ^ 24)
    (stage : WriteStage (run p s input) since lba (left + 1) t) :
    ∃ u, WriteStage (run p s input) since (lba + 1) left u ∧
      Clocked.Stretch (shows p (run p s input) input)
        (fun v => (run p s input v).seq.connected = true) t u [.start true lba.toNat] := by
  obtain ⟨later, moving⟩ := stage
  rw [if_neg (Nat.succ_ne_zero left)] at moving
  obtain ⟨u, reached, asking, bytes⟩ := write_bytes fair later moving
  obtain ⟨d, moved, stage⟩ := write_drains fair reached fits asking
  exact ⟨d + 1, stage, by simpa using bytes.trans (moved.stretch (p := p) asking (.inr rfl))⟩

/-- All the blocks of a command, given how one of them goes. -/
theorem blocks_moved {ε : Type} {emit : ℕ → List ε} {Q : ℕ → Prop}
    (Stage : BitVec 32 → ℕ → ℕ → Prop) (part : ℕ → List ε)
    (block : ∀ lba left t, left + 1 < 2 ^ 24 → Stage lba (left + 1) t →
      ∃ u, Stage (lba + 1) left u ∧ Clocked.Stretch emit Q t u (part lba.toNat))
    {n : ℕ} (fits : n < 2 ^ 24) (inside : lba.toNat + n < 2 ^ 32) (stage : Stage lba n t) :
    ∃ u, Stage (lba + BitVec.ofNat 32 n) 0 u ∧
      Clocked.Stretch emit Q t u ((List.range n).flatMap fun i => part (lba.toNat + i)) := by
  have advance : ∀ k < n, ∀ v, Stage (lba + BitVec.ofNat 32 k) (n - k) v →
      ∃ u, Stage (lba + BitVec.ofNat 32 (k + 1)) (n - (k + 1)) u ∧
        Clocked.Stretch emit Q v u (part (lba.toNat + k)) := by
    intro k below v there
    have exactly : (lba + BitVec.ofNat 32 k).toNat = lba.toNat + k := by
      rw [BitVec.toNat_add, BitVec.toNat_ofNat]
      omega
    have count : n - k = n - (k + 1) + 1 := by omega
    rw [count] at there
    obtain ⟨u, reached, shown⟩ := block _ _ v (by omega) there
    refine ⟨u, ?_, exactly ▸ shown⟩
    rw [BitVec.ofNat_add, ← BitVec.add_assoc]
    exact reached
  have first : Stage (lba + BitVec.ofNat 32 0) (n - 0) t := by simpa using stage
  obtain ⟨u, last, shown⟩ := Clocked.Stretch.stages advance first
  exact ⟨u, by simpa using last, shown⟩

theorem read_blocks (fair : Fair (run p s input) input since) {n : ℕ} (fits : n < 2 ^ 24)
    (inside : lba.toNat + n < 2 ^ 32) (stage : ReadStage (run p s input) since lba n t) :
    ∃ u, ReadStage (run p s input) since (lba + BitVec.ofNat 32 n) 0 u ∧
      Clocked.Stretch (shows p (run p s input) input)
        (fun v => (run p s input v).seq.connected = true) t u
        ((List.range n).flatMap fun i => [.start false (lba.toNat + i)]) :=
  blocks_moved (ReadStage (run p s input) since) (fun b => [Event.start false b])
    (fun _ _ _ bound there => read_block fair bound there) fits inside stage

theorem write_blocks (fair : Fair (run p s input) input since) {n : ℕ} (fits : n < 2 ^ 24)
    (inside : lba.toNat + n < 2 ^ 32) (stage : WriteStage (run p s input) since lba n t) :
    ∃ u, WriteStage (run p s input) since (lba + BitVec.ofNat 32 n) 0 u ∧
      Clocked.Stretch (shows p (run p s input) input)
        (fun v => (run p s input v).seq.connected = true) t u
        ((List.range n).flatMap fun i => [.start true (lba.toNat + i)]) :=
  blocks_moved (WriteStage (run p s input) since) (fun b => [Event.start true b])
    (fun _ _ _ bound there => write_block fair bound there) fits inside stage

/-- The status byte, the message byte, and the bus is free. -/
theorem command_ends (patient : Patient (run p s input) input since) (later : since ≤ t)
    (ending : (run p s input t).seq.Ending) :
    ∃ u, (run p s input u).seq.st = .free ∧
      (∀ v, t ≤ v → v < u → ((run p s input v).seq.st = .status ∨
        (run p s input v).seq.st = .msgin) ∧ (run p s input v).seq.blkStart = false) ∧
      Clocked.Stretch (shows p (run p s input) input)
        (fun v => (run p s input v).seq.connected = true) t u
        [.status stGood, .message mCommandComplete] := by
  have statusMoves : (run p s input t).seq.MovesByte := .inr (.inr (.inl ending.st_eq))
  obtain ⟨a, r, status⟩ := byteMoved patient later statusMoves ending.quiet ending.hs_eq
  have first := status.stretch (p := p) ending.quiet statusMoves
  have closing : (run p s input (r + 1)).seq.Closing := by
    rw [status.after]
    exact ending.closes
  have messageMoves : (run p s input (r + 1)).seq.MovesByte := .inr (.inr (.inr closing.st_eq))
  have le := first.le
  obtain ⟨b, q, message⟩ := byteMoved patient (by omega) messageMoves closing.quiet closing.hs_eq
  have second := message.stretch (p := p) closing.quiet messageMoves
  refine ⟨q + 1, ?_, ?_, ?_⟩
  · rw [message.after]
    exact closing.frees
  · intro v low high
    rcases Nat.lt_or_ge v (r + 1) with early | late
    · exact ⟨.inl ((status.st_eq low (by omega)).trans ending.st_eq),
        (status.blkStart_eq low (by omega)).trans ending.quiet⟩
    · exact ⟨.inr ((message.st_eq late (by omega)).trans closing.st_eq),
        (message.blkStart_eq late (by omega)).trans closing.quiet⟩
  · have statusByte : deliveries p (run p s input) input a = [.status stGood] := by
      have asking := status.asks a status.asked (Nat.le_refl a)
      rw [deliveries_status _ _ status.acked, asking, ending.good]
      · rw [asking]
        exact ending.st_eq
      · rw [asking]
    have messageByte : deliveries p (run p s input) input b = [.message mCommandComplete] := by
      have asking := message.asks b message.asked (Nat.le_refl b)
      rw [deliveries_message _ _ message.acked, asking, closing.complete]
      · rw [asking]
        exact closing.st_eq
      · rw [asking]
    rw [statusByte] at first
    rw [messageByte] at second
    exact first.trans second

end Command

/-! ## The whole command -/

/-- A READ or WRITE for unit 0 of a ready medium whose blocks all exist. -/
structure Seq.Addressed (s : Seq) (blk : BlkRsp) : Prop where
  lun : s.lun = 0
  media : (s.cdbIsRead || s.cdbIsWrite) = true
  ready : blk.ready = true
  inside : s.cmdLba.toNat + s.cmdBlocks.toNat ≤ blk.count.toNat

theorem Seq.Addressed.accepts {s : Seq} {blk : BlkRsp} (addressed : s.Addressed blk) :
    s.accepts blk = true := by
  obtain ⟨lun, media, ready, inside⟩ := addressed
  have small := blk.count.isLt
  have inRange : s.outOfRange blk.count = false := by
    simp only [Seq.outOfRange, decide_eq_false_iff_not, BitVec.not_lt, BitVec.le_def,
      BitVec.toNat_add, BitVec.toNat_setWidth]
    omega
  simp [Seq.accepts, lun, media, ready, inRange]

theorem Seq.cdbIsWrite_of_read {s : Seq} (read : s.cdbIsRead = true) : s.cdbIsWrite = false := by
  simp only [Seq.cdbIsRead, Bool.or_eq_true, beq_iff_eq] at read
  rcases read with is | is <;> simp [Seq.cdbIsWrite, is]

/-- Between the clock after `S_EXEC` and bus free the target asks for each block of
the command once and in order, and then ends it with GOOD and COMMAND COMPLETE. -/
def Completes (p : Params) (x : ℕ → State) (input : ℕ → Cycle) (t : ℕ) : Prop :=
  ∃ u, (x u).seq.st = .free ∧
    Clocked.Stretch (shows p x input) (fun v => (x v).seq.connected = true) (t + 1) u
      (((List.range (x t).seq.cmdBlocks.toNat).flatMap fun i =>
          [.start (x t).seq.cdbIsWrite ((x t).seq.cmdLba.toNat + i)]) ++
        [.status stGood, .message mCommandComplete])

section Whole

variable {p : Params} {s : State} {input : ℕ → Cycle} {t : ℕ}

theorem run_seq_exec (patient : Patient (run p s input) input t)
    (exec : (run p s input t).seq.st = .exec) :
    (run p s input (t + 1)).seq = (run p s input t).seq.endPulse.stepExec (input t).blk := by
  rw [run_seq_succ patient (Nat.le_refl t)]
  simp [Seq.step, Seq.endPulse, exec]

theorem read_taken (fair : Fair (run p s input) input t)
    (exec : (run p s input t).seq.st = .exec)
    (addressed : (run p s input t).seq.Addressed (input t).blk)
    (read : (run p s input t).seq.cdbIsRead = true) :
    (run p s input (t + 1)).seq.Asking .rdwait false (run p s input t).seq.cmdLba
      (run p s input t).seq.cmdBlocks.toNat := by
  have accepted : (run p s input t).seq.endPulse.accepts (input t).blk = true :=
    addressed.accepts
  rw [run_seq_exec fair.patient exec]
  exact Seq.taken_read accepted read

theorem write_taken (fair : Fair (run p s input) input t)
    (exec : (run p s input t).seq.st = .exec)
    (addressed : (run p s input t).seq.Addressed (input t).blk)
    (write : (run p s input t).seq.cdbIsRead = false) :
    (run p s input (t + 1)).seq.Moving .dataout (run p s input t).seq.cmdLba
      (run p s input t).seq.cmdBlocks.toNat 0 := by
  have accepted : (run p s input t).seq.endPulse.accepts (input t).blk = true :=
    addressed.accepts
  rw [run_seq_exec fair.patient exec]
  exact Seq.taken_write accepted write rfl

theorem Fair.later (fair : Fair (run p s input) input t) {u : ℕ} (after : t ≤ u) :
    Fair (run p s input) input u where
  pin v low := fair.pin v (by omega)
  rst v low := fair.rst v (by omega)
  acks v low := fair.acks v (by omega)
  frees v low := fair.frees v (by omega)
  answers v low := fair.answers v (by omega)
  clean v low := fair.clean v (by omega)

/-- A command of at least one block does all of it. -/
theorem completes_of_blocks (fair : Fair (run p s input) input t)
    (exec : (run p s input t).seq.st = .exec)
    (addressed : (run p s input t).seq.Addressed (input t).blk)
    (some_ : (run p s input t).seq.cmdBlocks ≠ 0) : Completes p (run p s input) input t := by
  have positive : (run p s input t).seq.cmdBlocks.toNat ≠ 0 := fun zero =>
    some_ (BitVec.eq_of_toNat_eq zero)
  have fits := (run p s input t).seq.cmdBlocks.isLt
  have inside := addressed.inside
  have small := (input t).blk.count.isLt
  have after := fair.later (Nat.le_succ t)
  cases read : (run p s input t).seq.cdbIsRead with
  | true =>
      have stage : ReadStage (run p s input) (t + 1) (run p s input t).seq.cmdLba
          (run p s input t).seq.cmdBlocks.toNat (t + 1) := by
        refine ⟨Nat.le_refl _, ?_⟩
        rw [if_neg positive]
        exact read_taken fair exec addressed read
      obtain ⟨u, ⟨reached, ending⟩, blocks⟩ := read_blocks after fits (by omega) stage
      rw [if_pos rfl] at ending
      obtain ⟨w, free, _, finish⟩ := command_ends after.patient reached ending
      refine ⟨w, free, ?_⟩
      rw [Seq.cdbIsWrite_of_read read]
      exact blocks.trans finish
  | false =>
      have write : (run p s input t).seq.cdbIsWrite = true := by
        simpa [read] using addressed.media
      have stage : WriteStage (run p s input) (t + 1) (run p s input t).seq.cmdLba
          (run p s input t).seq.cmdBlocks.toNat (t + 1) := by
        refine ⟨Nat.le_refl _, ?_⟩
        rw [if_neg positive]
        exact write_taken fair exec addressed read
      obtain ⟨u, ⟨reached, ending⟩, blocks⟩ := write_blocks after fits (by omega) stage
      rw [if_pos rfl] at ending
      obtain ⟨w, free, _, finish⟩ := command_ends after.patient reached ending
      refine ⟨w, free, ?_⟩
      rw [write]
      exact blocks.trans finish

/-- A command of no blocks raises a request all the same. -/
theorem asks_for_no_blocks (fair : Fair (run p s input) input t)
    (exec : (run p s input t).seq.st = .exec)
    (addressed : (run p s input t).seq.Addressed (input t).blk)
    (none : (run p s input t).seq.cmdBlocks = 0) :
    ∃ u st we, (st = .rdwait ∨ st = .wrwait) ∧
      (run p s input u).seq.Asking st we (run p s input t).seq.cmdLba 0 ∧
      Clocked.Stretch (shows p (run p s input) input)
        (fun v => (run p s input v).seq.connected = true) (t + 1) u [] := by
  have zero : (run p s input t).seq.cmdBlocks.toNat = 0 := by rw [none]; rfl
  cases read : (run p s input t).seq.cdbIsRead with
  | true =>
      have asking := read_taken fair exec addressed read
      rw [zero] at asking
      exact ⟨t + 1, .rdwait, false, .inl rfl, asking, Clocked.Stretch.refl _ _ _⟩
  | false =>
      have moving := write_taken fair exec addressed read
      rw [zero] at moving
      obtain ⟨u, _, asking, shown⟩ := write_bytes (fair.later (Nat.le_succ t)) (Nat.le_refl _) moving
      exact ⟨u, .wrwait, true, .inr rfl, asking, shown⟩

theorem not_completes_of_no_blocks (fair : Fair (run p s input) input t)
    (exec : (run p s input t).seq.st = .exec)
    (addressed : (run p s input t).seq.Addressed (input t).blk)
    (none : (run p s input t).seq.cmdBlocks = 0) : ¬ Completes p (run p s input) input t := by
  rintro ⟨w, free, whole⟩
  obtain ⟨u, st, we, waits, asking, before⟩ := asks_for_no_blocks fair exec addressed none
  have ahead : u < w := by
    by_contra behind
    rcases Nat.lt_or_eq_of_le (Nat.not_lt.mp behind) with early | rfl
    · have up := before.within w whole.le early
      simp [Seq.connected, free] at up
    · rw [asking.st_eq] at free
      rcases waits with rfl | rfl <;> cases free
  have shown := whole.trace_eq
  rw [Clocked.trace_append _ before.le ahead.le, before.trace_eq, Clocked.trace_head _ ahead,
    none] at shown
  simp [shows, requests, blkReq, asking.start] at shown

end Whole

/-- With a fair initiator and back end, a command whose blocks all exist is carried
out as it should be exactly when it names at least one block. -/
theorem completes_iff (p : Params) (s : State) (input : ℕ → Cycle) (t : ℕ)
    (fair : Fair (run p s input) input t) (exec : (run p s input t).seq.st = .exec)
    (addressed : (run p s input t).seq.Addressed (input t).blk) :
    Completes p (run p s input) input t ↔ (run p s input t).seq.cmdBlocks ≠ 0 := by
  constructor
  · intro completes none
    exact not_completes_of_no_blocks fair exec addressed none completes
  · exact completes_of_blocks fair exec addressed

/-! ## Closing the loop -/

/-- An initiator that puts `d` on the bus and a back end with a ready medium of
2048 blocks, both answering at once. -/
def promptly (d : Byte) (x : State) : Cycle where
  bus := { bsy := x.seq.connected, req := x.seq.req, ack := x.seq.req, data := d }
  blk := { ready := true, count := 2048, done := x.seq.blkStart }

def promptInput (d : Byte) (s : State) (t : ℕ) : Cycle :=
  promptly d (Clocked.loop (clock {}) (promptly d) s t)

theorem run_promptInput (d : Byte) (s : State) :
    run {} s (promptInput d s) = Clocked.loop (clock {}) (promptly d) s :=
  Clocked.run_loop (clock {}) (promptly d) s

theorem promptInput_fair (d : Byte) (s : State) :
    Fair (run {} s (promptInput d s)) (promptInput d s) 0 := by
  rw [run_promptInput]
  refine ⟨fun _ _ => rfl, fun _ _ => rfl, ?_, ?_, ?_, fun _ _ _ => rfl⟩
  · intro t _ asks
    exact ⟨t, Nat.le_refl t, asks⟩
  · intro t _ rests
    exact ⟨t, Nat.le_refl t, rests⟩
  · intro t _ start
    exact ⟨t, Nat.le_refl t, start⟩

/-- A ten-byte command at address 5 taken up to `S_EXEC` from reset. -/
@[irreducible] def atExec (op : Byte) (blocks : BitVec 16) : State :=
  run {} (start .blank) (present (command {} (tenBytes op 5 blocks)) { bsy := true } silentDisk) 52

theorem atExec_exec {op : Byte} {blocks : BitVec 16} (media : op = cRead10 ∨ op = cWrite10)
    (few : blocks = 0 ∨ blocks = 2) :
    (atExec op blocks).seq.st = .exec ∧ (atExec op blocks).seq.lun = 0 ∧
      (atExec op blocks).seq.op = op ∧ (atExec op blocks).seq.cmdLba = 5 ∧
      (atExec op blocks).seq.cmdBlocks = blocks.setWidth 24 ∧
      (atExec op blocks).seq.blkStart = false := by
  unfold atExec
  simp only [run_seq]
  rcases media with rfl | rfl <;> rcases few with rfl | rfl
  · decide +kernel
  · decide +kernel
  · decide +kernel
  · decide +kernel

theorem atExec_addressed {op : Byte} {blocks : BitVec 16} (media : op = cRead10 ∨ op = cWrite10)
    (few : blocks = 0 ∨ blocks = 2) {blk : BlkRsp} (ready : blk.ready = true)
    (size : blk.count = 2048) : (atExec op blocks).seq.Addressed blk := by
  obtain ⟨_, lun, is, lba, count, _⟩ := atExec_exec media few
  refine ⟨lun, ?_, ready, ?_⟩
  · simp only [Seq.cdbIsRead, Seq.cdbIsWrite, is]
    rcases media with rfl | rfl <;> rfl
  · rw [lba, count, size]
    rcases few with rfl | rfl <;> decide

theorem two_blocks_complete :
    Completes {} (run {} (atExec cRead10 2) (promptInput 0 (atExec cRead10 2)))
      (promptInput 0 (atExec cRead10 2)) 0 := by
  have facts := atExec_exec (.inl (rfl : cRead10 = _)) (.inr (rfl : (2 : BitVec 16) = _))
  obtain ⟨exec, _, _, _, count, _⟩ := facts
  refine (completes_iff {} (atExec cRead10 2) (promptInput 0 (atExec cRead10 2)) 0
    (promptInput_fair 0 _) exec (atExec_addressed (.inl rfl) (.inr rfl) rfl rfl)).mpr ?_
  exact fun none => absurd (count.symm.trans none) (by decide)

/-- READ(10) of no blocks at address 5 of a medium of 2048. -/
theorem no_blocks_do_not_complete :
    Fair (run {} (atExec cRead10 0) (promptInput 0 (atExec cRead10 0)))
      (promptInput 0 (atExec cRead10 0)) 0 ∧
    (atExec cRead10 0).seq.st = .exec ∧
    (atExec cRead10 0).seq.Addressed (promptInput 0 (atExec cRead10 0) 0).blk ∧
    ¬ Completes {} (run {} (atExec cRead10 0) (promptInput 0 (atExec cRead10 0)))
      (promptInput 0 (atExec cRead10 0)) 0 := by
  have facts := atExec_exec (.inl (rfl : cRead10 = _)) (.inl (rfl : (0 : BitVec 16) = _))
  obtain ⟨exec, _, _, _, count, _⟩ := facts
  have fair := promptInput_fair 0 (atExec cRead10 0)
  have addressed : (atExec cRead10 0).seq.Addressed (promptInput 0 (atExec cRead10 0) 0).blk :=
    atExec_addressed (.inl rfl) (.inl rfl) rfl rfl
  exact ⟨fair, exec, addressed, not_completes_of_no_blocks fair exec addressed count⟩

end Wish5380.Targ
