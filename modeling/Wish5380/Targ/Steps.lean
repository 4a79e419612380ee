import Wish5380.Targ.Model

/-!
# What one edge of the target can do

`S_EXEC` is the only place a command is taken on, and a block request is only
ever raised on the way into one of the two waits.  The invariants of a run rest
on these statements and never unfold the sequencer again.
-/

namespace Wish5380.Targ

namespace Seq

/-- `S_EXEC` takes on a READ or a WRITE. -/
def accepts (s : Seq) (blk : BlkRsp) : Bool :=
  s.lun == 0 && (s.cdbIsRead || s.cdbIsWrite) && blk.ready && !s.outOfRange blk.count

/-- A READ or WRITE is moving blocks: the four states a block transfer is made of. -/
def InTransfer (s : Seq) : Prop :=
  s.respKind = .media ∧ (s.st = .rdwait ∨ s.st = .wrwait ∨ s.st = .datain ∨ s.st = .dataout)

/-! ## `S_EXEC` -/

@[simp] theorem execDefaults_cdb (s : Seq) : s.execDefaults.cdb = s.cdb := by
  unfold execDefaults
  split <;> rfl

@[simp] theorem execDefaults_blkStart (s : Seq) : s.execDefaults.blkStart = s.blkStart := by
  unfold execDefaults
  split <;> rfl

@[simp] theorem execDefaults_hs (s : Seq) : s.execDefaults.hs = .setup := by
  unfold execDefaults
  split <;> rfl

@[simp] theorem execDefaults_idx (s : Seq) : s.execDefaults.idx = 0 := by
  unfold execDefaults
  split <;> rfl

@[simp] theorem execDefaults_status (s : Seq) : s.execDefaults.status = stGood := by
  unfold execDefaults
  split <;> rfl

@[simp] theorem execDefaults_respKind (s : Seq) : s.execDefaults.respKind = .none := by
  unfold execDefaults
  split <;> rfl

/-- The decode reads the descriptor block and nothing else. -/
theorem decode_congr {s t : Seq} (same : s.cdb = t.cdb) :
    s.op = t.op ∧ s.cdbIsRead = t.cdbIsRead ∧ s.cdbIsWrite = t.cdbIsWrite ∧
      s.cmdLba = t.cmdLba ∧ s.cmdBlocks = t.cmdBlocks ∧
      ∀ count, s.outOfRange count = t.outOfRange count := by
  cases s
  cases t
  cases same
  exact ⟨rfl, rfl, rfl, rfl, rfl, fun _ => rfl⟩

/-- READ and WRITE are the four opcodes of the case's last arm. -/
theorem execOp_media {s : Seq} (blk : BlkRsp) (media : (s.cdbIsRead || s.cdbIsWrite) = true) :
    s.execOp blk = s.execMedia blk := by
  simp only [cdbIsRead, cdbIsWrite, Bool.or_eq_true, beq_iff_eq] at media
  unfold execOp
  rcases media with (is | is) | (is | is) <;> rw [is] <;> rfl

/-- The registers `S_EXEC` leaves when it takes on a command. -/
def taken (s : Seq) : Seq :=
  { s.execDefaults with
    lba := s.cmdLba, blkLeft := s.cmdBlocks, respKind := .media, xferLen := 512 }

theorem stepExec_read {s : Seq} {blk : BlkRsp} (accepted : s.accepts blk = true)
    (read : s.cdbIsRead = true) :
    s.stepExec blk =
      { s.taken with blkLba := s.cmdLba, blkWe := false, blkStart := true, st := .rdwait } := by
  obtain ⟨_, sameRead, sameWrite, sameLba, sameBlocks, sameRange⟩ :=
    decode_congr (execDefaults_cdb s)
  simp only [accepts, Bool.and_eq_true, beq_iff_eq, Bool.not_eq_true'] at accepted
  obtain ⟨⟨⟨lun, media⟩, ready⟩, inRange⟩ := accepted
  have media' : (s.execDefaults.cdbIsRead || s.execDefaults.cdbIsWrite) = true := by
    rw [sameRead, sameWrite]
    exact media
  unfold stepExec
  rw [if_neg (by simp [lun]), execOp_media blk media']
  simp [execMedia, sameRead, sameRange, sameLba, sameBlocks, read, ready, inRange, taken]

theorem stepExec_write {s : Seq} {blk : BlkRsp} (accepted : s.accepts blk = true)
    (write : s.cdbIsRead = false) : s.stepExec blk = { s.taken with st := .dataout } := by
  obtain ⟨_, sameRead, sameWrite, sameLba, sameBlocks, sameRange⟩ :=
    decode_congr (execDefaults_cdb s)
  simp only [accepts, Bool.and_eq_true, beq_iff_eq, Bool.not_eq_true'] at accepted
  obtain ⟨⟨⟨lun, media⟩, ready⟩, inRange⟩ := accepted
  have media' : (s.execDefaults.cdbIsRead || s.execDefaults.cdbIsWrite) = true := by
    rw [sameRead, sameWrite]
    exact media
  have isWrite : s.cdbIsWrite = true := by simpa [write] using media
  unfold stepExec
  rw [if_neg (by simp [lun]), execOp_media blk media']
  simp [execMedia, sameRead, sameWrite, sameRange, sameLba, sameBlocks, write, isWrite, ready,
    inRange, taken]

/-- Elsewhere the data come from the sequencer itself, and the back end is asked for nothing. -/
def Apart (s t : Seq) : Prop :=
  t.respKind ≠ .media ∧ t.blkStart = s.blkStart

theorem Apart.ite {s : Seq} {q : Prop} [Decidable q] {x y : Seq} (yes : Apart s x)
    (no : ¬ q → Apart s y) : Apart s (if q then x else y) := by
  split
  · exact yes
  · exact no ‹_›

theorem apart_check (s : Seq) (key : BitVec 4) (asc : Byte) :
    Apart s (s.execDefaults.checkCondition key asc) := by
  simp [Apart, checkCondition]

theorem apart_respond (s : Seq) {kind : RespKind} (len : BitVec 10) (other : kind ≠ .media) :
    Apart s (s.execDefaults.respond kind len) := by
  simp [Apart, respond, other]

/-- The last arm, when it takes nothing on. -/
theorem apart_media {s : Seq} {blk : BlkRsp} (lun : s.lun = 0) (refused : s.accepts blk = false) :
    Apart s (s.execDefaults.execMedia blk) := by
  obtain ⟨_, sameRead, sameWrite, _, _, sameRange⟩ := decode_congr (execDefaults_cdb s)
  unfold execMedia
  simp only [sameRead, sameWrite, sameRange]
  refine .ite (apart_check s _ _) fun known => .ite (apart_check s _ _) fun ready => ?_
  refine .ite ⟨by simp [checkCondition], by simp [checkCondition]⟩ fun inside => ?_
  simp_all [accepts]

/-- Every other command sources its data elsewhere and asks the back end for nothing. -/
theorem stepExec_other {s : Seq} {blk : BlkRsp} (refused : s.accepts blk = false) :
    (s.stepExec blk).respKind ≠ .media ∧ (s.stepExec blk).blkStart = s.blkStart := by
  have status : Apart s { s.execDefaults with st := .status } := by simp [Apart]
  have check := apart_check s
  unfold stepExec
  refine Apart.ite (check _ _) fun absent => ?_
  unfold execOp
  simp only [(decode_congr (execDefaults_cdb s)).1]
  refine .ite (apart_respond s _ nofun) fun inquiry => .ite (apart_respond s _ nofun) fun sense => ?_
  refine .ite (.ite (check _ _) fun _ => by simp [Apart]) fun _ => ?_
  refine .ite (apart_respond s _ nofun) fun _ => .ite (.ite (check _ _) fun _ => status) fun _ => ?_
  refine .ite status fun _ => .ite (.ite status fun _ => by simp [Apart]) fun _ => ?_
  refine apart_media ?_ refused
  by_contra other
  exact absent ⟨other, inquiry, sense⟩

/-! ## The other arms -/

theorem handshake_cases (s released : Seq) (bus : Scsi) :
    (s.handshake released bus = { s with hs := .req } ∧ s.hs = .setup) ∨
    (s.handshake released bus = { s with hs := .rel } ∧ s.hs = .req ∧ bus.ack = true) ∨
    s.handshake released bus = s ∨
    (s.handshake released bus = released ∧ bus.ack = false) := by
  cases ack : bus.ack <;> cases hs : s.hs <;> simp [handshake, hs, ack]

theorem stepIdle_st (p : Params) (s : Seq) (bus : Scsi) :
    (s.stepIdle p bus).st = s.st ∨ (s.stepIdle p bus).st = .selwait := by
  unfold stepIdle
  split_ifs <;> simp

theorem stepSelwait_st (s : Seq) (bus : Scsi) :
    (s.stepSelwait bus).st = s.st ∨ (s.stepSelwait bus).st = .msgout ∨
      (s.stepSelwait bus).st = .cmd := by
  unfold stepSelwait
  split_ifs <;> simp

theorem stepMsgout_st (s : Seq) (bus : Scsi) :
    (s.stepMsgout bus).st = s.st ∨ (s.stepMsgout bus).st = .free ∨
      (s.stepMsgout bus).st = .cmd := by
  unfold stepMsgout
  cases s.hs <;> split_ifs <;> simp

theorem stepCmd_st (s : Seq) (bus : Scsi) :
    (s.stepCmd bus).st = s.st ∨ (s.stepCmd bus).st = .exec := by
  unfold stepCmd
  cases s.hs <;> split_ifs <;> simp

theorem stepStatus_st (s : Seq) (bus : Scsi) :
    (s.stepStatus bus).st = s.st ∨ (s.stepStatus bus).st = .msgin := by
  unfold stepStatus
  rcases handshake_cases s s.statusReleased bus with ⟨eq, _⟩ | ⟨eq, _⟩ | eq | ⟨eq, _⟩ <;>
    rw [eq] <;> simp [statusReleased]

theorem stepMsgin_st (s : Seq) (bus : Scsi) :
    (s.stepMsgin bus).st = s.st ∨ (s.stepMsgin bus).st = .free := by
  unfold stepMsgin
  rcases handshake_cases s s.msginReleased bus with ⟨eq, _⟩ | ⟨eq, _⟩ | eq | ⟨eq, _⟩ <;>
    rw [eq] <;> simp [msginReleased, clearSense]
  split_ifs <;> simp

/-! ## Block transfers, edge by edge -/

/-- Every edge `s ⟶ t` that leaves a block transfer under way. -/
inductive Onward (s : Seq) (blk : BlkRsp) (t : Seq) : Prop where
  | read (exec : s.st = .exec) (accepted : s.accepts blk = true) (st : t.st = .rdwait)
      (start : t.blkStart = true) (we : t.blkWe = false) (asked : t.blkLba = t.lba)
      (lba : t.lba = s.cmdLba) (left : t.blkLeft = s.cmdBlocks)
  | write (exec : s.st = .exec) (accepted : s.accepts blk = true) (st : t.st = .dataout)
      (quiet : t.blkStart = false) (lba : t.lba = s.cmdLba) (left : t.blkLeft = s.cmdBlocks)
  | wait (before : s.InTransfer) (waits : s.st = .rdwait ∨ s.st = .wrwait)
      (pending : blk.done = false) (st : t.st = s.st) (quiet : t.blkStart = false)
      (lba : t.lba = s.lba) (left : t.blkLeft = s.blkLeft)
  | filled (before : s.InTransfer) (waits : s.st = .rdwait) (done : blk.done = true)
      (st : t.st = .datain) (quiet : t.blkStart = false)
      (lba : t.lba = s.lba) (left : t.blkLeft = s.blkLeft)
  | drained (before : s.InTransfer) (waits : s.st = .wrwait) (done : blk.done = true)
      (more : s.blkLeft ≠ 1) (st : t.st = .dataout) (quiet : t.blkStart = false)
      (lba : t.lba = s.lba + 1) (left : t.blkLeft = s.blkLeft - 1)
  | byte (before : s.InTransfer) (moves : s.st = .datain ∨ s.st = .dataout)
      (st : t.st = s.st) (quiet : t.blkStart = false)
      (lba : t.lba = s.lba) (left : t.blkLeft = s.blkLeft)
  | fetch (before : s.InTransfer) (moves : s.st = .datain) (more : s.blkLeft ≠ 1)
      (st : t.st = .rdwait) (start : t.blkStart = true) (we : t.blkWe = false)
      (asked : t.blkLba = t.lba) (lba : t.lba = s.lba + 1) (left : t.blkLeft = s.blkLeft - 1)
  | store (before : s.InTransfer) (moves : s.st = .dataout)
      (st : t.st = .wrwait) (start : t.blkStart = true) (we : t.blkWe = true)
      (asked : t.blkLba = t.lba) (lba : t.lba = s.lba) (left : t.blkLeft = s.blkLeft)

/-- A request is always for the block the transfer stands at. -/
theorem Onward.asked {s t : Seq} {blk : BlkRsp} (edge : Onward s blk t)
    (pulse : t.blkStart = true) : t.blkLba = t.lba := by
  cases edge with
  | read _ _ _ _ _ asked => exact asked
  | fetch _ _ _ _ _ _ asked => exact asked
  | store _ _ _ _ _ asked => exact asked
  | write _ _ _ quiet => simp [quiet] at pulse
  | wait _ _ _ _ quiet => simp [quiet] at pulse
  | filled _ _ _ _ quiet => simp [quiet] at pulse
  | drained _ _ _ _ _ quiet => simp [quiet] at pulse
  | byte _ _ _ quiet => simp [quiet] at pulse

/-- A block transfer goes on by one of these edges. -/
def Goes (s : Seq) (blk : BlkRsp) (t : Seq) : Prop :=
  Onward s blk t ∧ t.respKind = .media

theorem Goes.inTransfer {s t : Seq} {blk : BlkRsp} (goes : Goes s blk t) : t.InTransfer := by
  obtain ⟨edge, media⟩ := goes
  refine ⟨media, ?_⟩
  cases edge with
  | read _ _ st => exact .inl st
  | write _ _ st => exact .inr (.inr (.inr st))
  | wait before _ _ st => exact st ▸ before.2
  | filled _ _ _ st => exact .inr (.inr (.inl st))
  | drained _ _ _ _ st => exact .inr (.inr (.inr st))
  | byte before _ st => exact st ▸ before.2
  | fetch _ _ _ st => exact .inl st
  | store _ _ st => exact .inr (.inl st)

/-- No block transfer is under way, and nothing is asked of the back end. -/
def Outside (t : Seq) : Prop :=
  ¬ t.InTransfer ∧ t.blkStart = false

theorem outside_of_st {t : Seq} (quiet : t.blkStart = false)
    (st : t.st ≠ .rdwait ∧ t.st ≠ .wrwait ∧ t.st ≠ .datain ∧ t.st ≠ .dataout) : t.Outside := by
  refine ⟨?_, quiet⟩
  rintro ⟨_, place⟩
  rcases place with at_ | at_ | at_ | at_
  · exact st.1 at_
  · exact st.2.1 at_
  · exact st.2.2.1 at_
  · exact st.2.2.2 at_

theorem outside_of_respKind {t : Seq} (quiet : t.blkStart = false)
    (other : t.respKind ≠ .media) : t.Outside :=
  ⟨fun moving => other moving.1, quiet⟩

theorem stepExec_onward {s : Seq} (blk : BlkRsp) (exec : s.st = .exec)
    (quiet : s.blkStart = false) :
    Goes s blk (s.stepExec blk) ∨ (s.stepExec blk).Outside := by
  cases accepted : s.accepts blk with
  | false =>
      obtain ⟨other, same⟩ := stepExec_other accepted
      exact .inr (outside_of_respKind (same.trans quiet) other)
  | true =>
      cases read : s.cdbIsRead with
      | true =>
          rw [stepExec_read accepted read]
          exact .inl ⟨.read exec accepted rfl rfl rfl rfl rfl rfl, rfl⟩
      | false =>
          rw [stepExec_write accepted read]
          exact .inl ⟨.write exec accepted rfl (by simpa [taken] using quiet) rfl rfl, rfl⟩

theorem stepRdwait_onward {s : Seq} (blk : BlkRsp) (waits : s.st = .rdwait)
    (quiet : s.blkStart = false) :
    Goes s blk (s.stepRdwait blk) ∨ (s.stepRdwait blk).Outside := by
  by_cases media : s.respKind = .media
  · have before : s.InTransfer := ⟨media, .inl waits⟩
    unfold stepRdwait
    split_ifs with fault done
    · exact .inr (outside_of_st quiet (by simp [mediumError, checkCondition]))
    · exact .inl ⟨.filled before waits done rfl quiet rfl rfl, media⟩
    · exact .inl ⟨.wait before (.inl waits) (by simpa using done) rfl quiet rfl rfl, media⟩
  · refine .inr (outside_of_respKind ?_ ?_) <;> unfold stepRdwait <;> split_ifs <;>
      simpa [mediumError, checkCondition]

theorem stepWrwait_onward {s : Seq} (blk : BlkRsp) (waits : s.st = .wrwait)
    (quiet : s.blkStart = false) :
    Goes s blk (s.stepWrwait blk) ∨ (s.stepWrwait blk).Outside := by
  by_cases media : s.respKind = .media
  · have before : s.InTransfer := ⟨media, .inr (.inl waits)⟩
    unfold stepWrwait
    split_ifs with fault done last
    · exact .inr (outside_of_st quiet (by simp [mediumError, checkCondition]))
    · exact .inr (outside_of_st quiet (by simp))
    · exact .inl ⟨.drained before waits done last rfl quiet rfl rfl, media⟩
    · exact .inl ⟨.wait before (.inr waits) (by simpa using done) rfl quiet rfl rfl, media⟩
  · refine .inr (outside_of_respKind ?_ ?_) <;> unfold stepWrwait <;> split_ifs <;>
      simpa [mediumError, checkCondition]

theorem datainReleased_onward {s : Seq} (blk : BlkRsp) (moves : s.st = .datain)
    (quiet : s.blkStart = false) :
    Goes s blk s.datainReleased ∨ s.datainReleased.Outside := by
  by_cases media : s.respKind = .media
  · have before : s.InTransfer := ⟨media, .inr (.inr (.inl moves))⟩
    unfold datainReleased
    split_ifs with last more
    · exact .inl ⟨.fetch before moves more.2 rfl rfl rfl rfl rfl rfl, media⟩
    · exact .inr (outside_of_st quiet (by simp))
    · exact .inl ⟨.byte before (.inl moves) rfl quiet rfl rfl, media⟩
  · refine .inr (outside_of_respKind ?_ ?_) <;> unfold datainReleased <;> split_ifs <;> simp_all

theorem dataoutReleased_onward {s : Seq} (blk : BlkRsp) (moves : s.st = .dataout)
    (quiet : s.blkStart = false) :
    Goes s blk s.dataoutReleased ∨ s.dataoutReleased.Outside := by
  by_cases media : s.respKind = .media
  · have before : s.InTransfer := ⟨media, .inr (.inr (.inr moves))⟩
    unfold dataoutReleased
    split_ifs with last
    · exact .inl ⟨.store before moves rfl rfl rfl rfl rfl rfl, media⟩
    · exact .inl ⟨.byte before (.inr moves) rfl quiet rfl rfl, media⟩
  · refine .inr (outside_of_respKind ?_ ?_) <;> unfold dataoutReleased <;> split_ifs <;> simp_all

/-- A byte handshake changes nothing a transfer depends on until the byte is released. -/
theorem handshake_onward {s released : Seq} {bus : Scsi} {blk : BlkRsp}
    (moves : s.st = .datain ∨ s.st = .dataout) (quiet : s.blkStart = false)
    (after : Goes s blk released ∨ released.Outside) :
    Goes s blk (s.handshake released bus) ∨ (s.handshake released bus).Outside := by
  have place : s.st = .rdwait ∨ s.st = .wrwait ∨ s.st = .datain ∨ s.st = .dataout :=
    .inr (.inr moves)
  rcases handshake_cases s released bus with ⟨eq, _⟩ | ⟨eq, _⟩ | eq | ⟨eq, _⟩ <;> rw [eq]
  · by_cases media : s.respKind = .media
    · exact .inl ⟨.byte ⟨media, place⟩ moves rfl quiet rfl rfl, media⟩
    · exact .inr (outside_of_respKind quiet media)
  · by_cases media : s.respKind = .media
    · exact .inl ⟨.byte ⟨media, place⟩ moves rfl quiet rfl rfl, media⟩
    · exact .inr (outside_of_respKind quiet media)
  · by_cases media : s.respKind = .media
    · exact .inl ⟨.byte ⟨media, place⟩ moves rfl quiet rfl rfl, media⟩
    · exact .inr (outside_of_respKind quiet media)
  · exact after

/-! ## The request line outside a transfer -/

theorem stepIdle_blkStart (p : Params) (s : Seq) (bus : Scsi) :
    (s.stepIdle p bus).blkStart = s.blkStart := by
  unfold stepIdle
  split_ifs <;> rfl

theorem stepSelwait_blkStart (s : Seq) (bus : Scsi) :
    (s.stepSelwait bus).blkStart = s.blkStart := by
  unfold stepSelwait
  split_ifs <;> rfl

theorem stepMsgout_blkStart (s : Seq) (bus : Scsi) :
    (s.stepMsgout bus).blkStart = s.blkStart := by
  unfold stepMsgout
  cases s.hs <;> split_ifs <;> rfl

theorem stepCmd_blkStart (s : Seq) (bus : Scsi) : (s.stepCmd bus).blkStart = s.blkStart := by
  unfold stepCmd
  cases s.hs <;> split_ifs <;> rfl

theorem stepStatus_blkStart (s : Seq) (bus : Scsi) :
    (s.stepStatus bus).blkStart = s.blkStart := by
  unfold stepStatus
  rcases handshake_cases s s.statusReleased bus with ⟨eq, _⟩ | ⟨eq, _⟩ | eq | ⟨eq, _⟩ <;>
    rw [eq]
  rfl

theorem stepMsgin_blkStart (s : Seq) (bus : Scsi) :
    (s.stepMsgin bus).blkStart = s.blkStart := by
  unfold stepMsgin
  rcases handshake_cases s s.msginReleased bus with ⟨eq, _⟩ | ⟨eq, _⟩ | eq | ⟨eq, _⟩ <;> rw [eq]
  unfold msginReleased
  split_ifs <;> rfl

/-- The case statement, as far as block transfers go. -/
theorem step_onward (p : Params) {s : Seq} (bus : Scsi) (blk : BlkRsp)
    (quiet : s.blkStart = false) :
    Goes s blk (s.step p bus blk) ∨ (s.step p bus blk).Outside := by
  cases st : s.st with
  | idle =>
      simp only [step, st]
      refine .inr (outside_of_st ((stepIdle_blkStart p s bus).trans quiet) ?_)
      rcases stepIdle_st p s bus with dest | dest <;> simp [dest, st]
  | selwait =>
      simp only [step, st]
      refine .inr (outside_of_st ((stepSelwait_blkStart s bus).trans quiet) ?_)
      rcases stepSelwait_st s bus with dest | dest | dest <;> simp [dest, st]
  | msgout =>
      simp only [step, st]
      refine .inr (outside_of_st ((stepMsgout_blkStart s bus).trans quiet) ?_)
      rcases stepMsgout_st s bus with dest | dest | dest <;> simp [dest, st]
  | cmd =>
      simp only [step, st]
      refine .inr (outside_of_st ((stepCmd_blkStart s bus).trans quiet) ?_)
      rcases stepCmd_st s bus with dest | dest <;> simp [dest, st]
  | exec =>
      simp only [step, st]
      exact stepExec_onward blk st quiet
  | rdwait =>
      simp only [step, st]
      exact stepRdwait_onward blk st quiet
  | wrwait =>
      simp only [step, st]
      exact stepWrwait_onward blk st quiet
  | datain =>
      simp only [step, st]
      exact handshake_onward (.inl st) quiet (datainReleased_onward blk st quiet)
  | dataout =>
      simp only [step, st]
      exact handshake_onward (.inr st) quiet (dataoutReleased_onward blk st quiet)
  | status =>
      simp only [step, st]
      refine .inr (outside_of_st ((stepStatus_blkStart s bus).trans quiet) ?_)
      rcases stepStatus_st s bus with dest | dest <;> simp [dest, st]
  | msgin =>
      simp only [step, st]
      refine .inr (outside_of_st ((stepMsgin_blkStart s bus).trans quiet) ?_)
      rcases stepMsgin_st s bus with dest | dest <;> simp [dest, st]
  | free =>
      simp only [step, st]
      exact .inr (outside_of_st quiet (by simp [stepFree]))

theorem Onward.of_endPulse {s t : Seq} {blk : BlkRsp} (edge : Onward s.endPulse blk t) :
    Onward s blk t := by
  cases edge with
  | read exec accepted st start we asked lba left =>
      exact .read exec accepted st start we asked lba left
  | write exec accepted st quiet lba left => exact .write exec accepted st quiet lba left
  | wait before waits pending st quiet lba left =>
      exact .wait before waits pending st quiet lba left
  | filled before waits done st quiet lba left =>
      exact .filled before waits done st quiet lba left
  | drained before waits done more st quiet lba left =>
      exact .drained before waits done more st quiet lba left
  | byte before moves st quiet lba left => exact .byte before moves st quiet lba left
  | fetch before moves more st start we asked lba left =>
      exact .fetch before moves more st start we asked lba left
  | store before moves st start we asked lba left =>
      exact .store before moves st start we asked lba left

/-- One clock of the module: either a block transfer goes on by one of the edges
above, with no reset of any kind, or no transfer is under way after it. -/
theorem clock_onward (p : Params) (s : Seq) (c : Cycle) :
    (Goes s c.blk (s.clock p c) ∧ c.rst = false ∧ c.bus.rst = false) ∨
      (s.clock p c).Outside := by
  unfold clock next
  by_cases pin : c.rst = true
  · rw [if_pos pin]
    exact .inr (outside_of_st rfl (by simp [Seq.reset]))
  · rw [if_neg pin]
    by_cases rst : c.bus.rst = true
    · rw [if_pos rst]
      exact .inr (outside_of_st rfl (by simp [busReset]))
    · rw [if_neg rst]
      rcases step_onward p c.bus c.blk (s := s.endPulse) rfl with goes | outside
      · exact .inl ⟨⟨goes.1.of_endPulse, goes.2⟩, by simpa using pin, by simpa using rst⟩
      · exact .inr outside

/-- A wait that is neither answered nor reset goes on. -/
theorem clock_wait {p : Params} {s : Seq} {c : Cycle} (waits : s.st = .rdwait ∨ s.st = .wrwait)
    (pin : c.rst = false) (rst : c.bus.rst = false) (pending : c.blk.done = false) :
    s.clock p c = s.endPulse := by
  rcases waits with st | st <;>
    simp [clock, next, step, endPulse, stepRdwait, stepWrwait, mediaFault, pin, rst, pending, st]

end Seq

end Wish5380.Targ
