import Wish5380.Targ.Steps

/-!
# Every edge of the target

The transitions of the sequencer as a relation, with what it sees and what it leaves.  An
invariant of a run is a case analysis on it, and never unfolds the sequencer again.
-/

namespace Wish5380.Targ

namespace Seq

/-- The six states in which a byte is handed over. -/
def Transfers (s : Seq) : Prop :=
  s.st = .msgout ∨ s.st = .cmd ∨ s.st = .datain ∨ s.st = .dataout ∨ s.st = .status ∨ s.st = .msgin

/-- The handshake is past its request: `H_REL`, or the encoding nobody uses. -/
def Lets (s : Seq) : Prop :=
  s.hs ≠ .setup ∧ s.hs ≠ .req

/-- The commands whose answer is generated and cut to the allocation length. -/
inductive Generates (s : Seq) : RespKind → BitVec 10 → Prop where
  | inquiry (op : s.op = cInquiry) : Generates s .inquiry 36
  | sense (op : s.op = cRequestSense) : Generates s .sense 18
  | mode (op : s.op = cModeSense6) (lun : s.lun = 0) : Generates s .mode 12

/-- What `S_EXEC` can make of a command, from the registers it has cleared. -/
inductive Decides (s : Seq) (blk : BlkRsp) : Seq → Prop where
  | refuse (key : BitVec 4) (asc : Byte) (lba : BitVec 32) (known : key ≠ skNoSense)
      (other : s.op ≠ cRequestSense) :
      Decides s blk { s.execDefaults with
        senseKey := key, senseAsc := asc, senseAscq := 0, senseLba := lba, status := stCheck,
        st := .status }
  | respond {kind : RespKind} {len : BitVec 10} (which : Generates s kind len)
      (some : s.allocLen ≠ 0) :
      Decides s blk { s.execDefaults with
        respKind := kind, xferLen := if s.allocLen < len then s.allocLen else len, st := .datain }
  | nothing {kind : RespKind} {len : BitVec 10} (which : Generates s kind len)
      (none : s.allocLen = 0) :
      Decides s blk { s.execDefaults with
        respKind := kind, xferLen := if s.allocLen < len then s.allocLen else len, st := .status }
  | capacity (op : s.op = cReadCapacity) (lun : s.lun = 0) (ready : blk.ready = true) :
      Decides s blk { s.execDefaults with respKind := .capacity, xferLen := 8, st := .datain }
  | succeed (other : s.op ≠ cRequestSense) : Decides s blk { s.execDefaults with st := .status }
  | select (op : s.op = cModeSelect6) (some : s.allocLen ≠ 0) :
      Decides s blk { s.execDefaults with xferLen := s.allocLen, st := .dataout }
  | read (accepted : s.accepts blk = true) (op : s.cdbIsRead = true) :
      Decides s blk { s.taken with
        blkLba := s.cmdLba, blkWe := false, blkStart := true, st := .rdwait }
  | write (accepted : s.accepts blk = true) (op : s.cdbIsRead = false) :
      Decides s blk { s.taken with st := .dataout }

@[simp] theorem execDefaults_op (s : Seq) : s.execDefaults.op = s.op := by
  simp [op]

@[simp] theorem execDefaults_lun (s : Seq) : s.execDefaults.lun = s.lun := by
  unfold execDefaults
  split <;> rfl

@[simp] theorem execDefaults_allocLen (s : Seq) : s.execDefaults.allocLen = s.allocLen := by
  simp [allocLen]

theorem execDefaults_senseLba {s : Seq} (other : s.op ≠ cRequestSense) :
    s.execDefaults.senseLba = 0 := by
  unfold execDefaults
  rw [if_neg other]
  rfl

theorem decides_check {s : Seq} {blk : BlkRsp} {key : BitVec 4} {asc : Byte}
    (known : key ≠ skNoSense) (other : s.op ≠ cRequestSense) :
    Decides s blk (s.execDefaults.checkCondition key asc) := by
  have refused : Decides s blk _ := .refuse key asc 0 known other
  rwa [← execDefaults_senseLba other] at refused

theorem decides_respond {s : Seq} {blk : BlkRsp} {kind : RespKind} {len : BitVec 10}
    (which : Generates s kind len) : Decides s blk (s.execDefaults.respond kind len) := by
  unfold Seq.respond
  simp only [execDefaults_allocLen]
  by_cases none : s.allocLen = 0
  · rw [if_pos none]
    exact .nothing which none
  · rw [if_neg none]
    exact .respond which none

/-- The last arm: READ and WRITE, accepted or not, and the unknown. -/
theorem decides_media {s : Seq} {blk : BlkRsp} (lun : s.lun = 0) (other : s.op ≠ cRequestSense) :
    Decides s blk (s.execDefaults.execMedia blk) := by
  obtain ⟨_, sameRead, sameWrite, sameLba, sameBlocks, sameRange⟩ :=
    decode_congr (execDefaults_cdb s)
  unfold execMedia
  simp only [sameRead, sameWrite, sameRange, sameLba, sameBlocks]
  split_ifs with unknown unready outside isRead
  · exact decides_check (by decide) other
  · exact decides_check (by decide) other
  · exact .refuse skIllegalRequest ascLbaOutOfRange s.cmdLba (by decide) other
  · have accepted : s.accepts blk = true := by
      simp_all [accepts]
    exact .read accepted isRead
  · have accepted : s.accepts blk = true := by
      simp_all [accepts]
    exact .write accepted (by simpa using isRead)

theorem Decides.ite {s : Seq} {blk : BlkRsp} {q : Prop} [Decidable q] {x y : Seq}
    (yes : q → Decides s blk x) (no : ¬ q → Decides s blk y) : Decides s blk (if q then x else y) := by
  split
  · exact yes ‹_›
  · exact no ‹_›

theorem execOp_decides {s : Seq} {blk : BlkRsp}
    (present : s.op ≠ cInquiry → s.op ≠ cRequestSense → s.lun = 0) :
    Decides s blk (s.execDefaults.execOp blk) := by
  unfold execOp
  simp only [execDefaults_op, execDefaults_allocLen]
  refine .ite (fun inquiry => decides_respond (.inquiry inquiry)) fun inquiry => ?_
  refine .ite (fun sense => decides_respond (.sense sense)) fun sense => ?_
  refine .ite (fun capacity => ?capacity) fun _ => ?_
  case capacity =>
    refine .ite (fun _ => decides_check (by decide) sense) fun unready => ?_
    exact .capacity capacity (present inquiry sense) (by simpa using unready)
  refine .ite (fun mode => decides_respond (.mode mode (present inquiry sense))) fun _ => ?_
  refine .ite (fun _ => ?unit) fun _ => ?_
  case unit => exact .ite (fun _ => decides_check (by decide) sense) fun _ => .succeed sense
  refine .ite (fun _ => .succeed sense) fun _ => .ite (fun select => ?select) fun _ => ?_
  case select => exact .ite (fun _ => .succeed sense) fun none => .select select none
  exact decides_media (present inquiry sense) sense

theorem stepExec_decides (s : Seq) (blk : BlkRsp) : Decides s blk (s.stepExec blk) := by
  unfold stepExec
  refine .ite (fun absent => decides_check (by decide) absent.2.2) fun absent => ?_
  refine execOp_decides fun notInquiry notSense => ?_
  by_contra other
  exact absent ⟨other, notInquiry, notSense⟩

/-- Every edge, pulses ended: what the cycle shows, and the registers after it. -/
inductive Edge (p : Params) (s : Seq) (c : Cycle) : Seq → Prop where
  | pin (rst : c.rst = true) : Edge p s c Seq.reset
  | busReset (pin : c.rst = false) (rst : c.bus.rst = true) :
      Edge p s c { s with blkStart := false, st := .idle, hs := .setup, selCnt := 0 }
  | watch (pin : c.rst = false) (rst : c.bus.rst = false) (st : s.st = .idle)
      (named : selMatch p c.bus = true) (early : s.selCnt ≠ p.nSettle) :
      Edge p s c { s with blkStart := false, selCnt := (s.selCnt + 1) % 2 ^ p.scntW }
  | ignore (pin : c.rst = false) (rst : c.bus.rst = false) (st : s.st = .idle)
      (other : selMatch p c.bus = false) : Edge p s c { s with blkStart := false, selCnt := 0 }
  | selected (pin : c.rst = false) (rst : c.bus.rst = false) (st : s.st = .idle)
      (named : selMatch p c.bus = true) (settled : s.selCnt = p.nSettle) :
      Edge p s c { s with
        blkStart := false, st := .selwait, atnSeen := c.bus.atn, lun := 0, status := stGood,
        msgIn := mCommandComplete, idx := 0 }
  | held (pin : c.rst = false) (rst : c.bus.rst = false) (st : s.st = .selwait)
      (sel : c.bus.sel = true) :
      Edge p s c { s with blkStart := false, atnSeen := c.bus.atn || s.atnSeen }
  | attends (pin : c.rst = false) (rst : c.bus.rst = false) (st : s.st = .selwait)
      (sel : c.bus.sel = false) (atn : (c.bus.atn || s.atnSeen) = true) :
      Edge p s c { s with
        blkStart := false, atnSeen := c.bus.atn || s.atnSeen, hs := .setup, idx := 0,
        st := .msgout }
  | begins (pin : c.rst = false) (rst : c.bus.rst = false) (st : s.st = .selwait)
      (sel : c.bus.sel = false) (plain : s.atnSeen = false) :
      Edge p s c { s with blkStart := false, hs := .setup, idx := 0, st := .cmd }
  | raise (pin : c.rst = false) (rst : c.bus.rst = false) (moves : s.Transfers)
      (hs : s.hs = .setup) : Edge p s c { s with blkStart := false, hs := .req }
  | keep (pin : c.rst = false) (rst : c.bus.rst = false) (moves : s.Transfers)
      (waits : s.hs = .req ∧ c.bus.ack = false ∨ s.Lets ∧ c.bus.ack = true) :
      Edge p s c { s with blkStart := false }
  | hear (pin : c.rst = false) (rst : c.bus.rst = false) (st : s.st = .msgout)
      (hs : s.hs = .req) (ack : c.bus.ack = true) :
      Edge p s c { s with
        blkStart := false, hs := .rel, msgRx := c.bus.data,
        lun := if c.bus.data.getLsbD 7 then c.bus.data.extractLsb' 0 3 else s.lun }
  | take (pin : c.rst = false) (rst : c.bus.rst = false) (st : s.st = .cmd)
      (hs : s.hs = .req) (ack : c.bus.ack = true) :
      Edge p s c { s with
        blkStart := false, hs := .rel, cdb := setCdbByte s.cdb (s.idx.extractLsb' 0 4).toNat c.bus.data,
        cdbLen := if s.idx = 0 then lenOfOp c.bus.data else s.cdbLen,
        lun := if s.idx = 1 ∧ s.atnSeen = false then c.bus.data.extractLsb' 5 3 else s.lun }
  | hand (pin : c.rst = false) (rst : c.bus.rst = false)
      (moves : s.st = .datain ∨ s.st = .dataout ∨ s.st = .status ∨ s.st = .msgin)
      (hs : s.hs = .req) (ack : c.bus.ack = true) : Edge p s c { s with blkStart := false, hs := .rel }
  | abort (pin : c.rst = false) (rst : c.bus.rst = false) (st : s.st = .msgout) (lets : s.Lets)
      (ack : c.bus.ack = false) : Edge p s c { s with blkStart := false, hs := .setup, st := .free }
  | hearMore (pin : c.rst = false) (rst : c.bus.rst = false) (st : s.st = .msgout) (lets : s.Lets)
      (ack : c.bus.ack = false) : Edge p s c { s with blkStart := false, hs := .setup }
  | command (pin : c.rst = false) (rst : c.bus.rst = false) (st : s.st = .msgout) (lets : s.Lets)
      (ack : c.bus.ack = false) :
      Edge p s c { s with blkStart := false, hs := .setup, idx := 0, st := .cmd }
  | more (pin : c.rst = false) (rst : c.bus.rst = false)
      (moves : s.st = .cmd ∨ s.st = .datain ∨ s.st = .dataout) (lets : s.Lets)
      (ack : c.bus.ack = false)
      (inside : s.idx + 1 ≠ if s.st = .cmd then s.cdbLen.setWidth 10 else s.xferLen) :
      Edge p s c { s with blkStart := false, hs := .setup, idx := s.idx + 1 }
  | execute (pin : c.rst = false) (rst : c.bus.rst = false) (st : s.st = .cmd) (lets : s.Lets)
      (ack : c.bus.ack = false) (last : s.idx + 1 = s.cdbLen.setWidth 10) :
      Edge p s c { s with blkStart := false, hs := .setup, st := .exec, idx := 0 }
  | decide {t : Seq} (pin : c.rst = false) (rst : c.bus.rst = false) (st : s.st = .exec)
      (decides : Decides { s with blkStart := false } c.blk t) : Edge p s c t
  | pend (pin : c.rst = false) (rst : c.bus.rst = false) (st : s.st = .rdwait ∨ s.st = .wrwait)
      (pending : c.blk.done = false) : Edge p s c { s with blkStart := false }
  | fault (pin : c.rst = false) (rst : c.bus.rst = false) (st : s.st = .rdwait ∨ s.st = .wrwait)
      (failed : mediaFault c.blk = true) :
      Edge p s c { s with
        blkStart := false, senseKey := skMediumError, senseAsc := ascUnrecoveredRead, senseAscq := 0,
        senseLba := s.lba, status := stCheck, st := .status }
  | filled (pin : c.rst = false) (rst : c.bus.rst = false) (st : s.st = .rdwait)
      (done : c.blk.done = true) (clean : c.blk.err = false) :
      Edge p s c { s with blkStart := false, idx := 0, hs := .setup, st := .datain }
  | drained (pin : c.rst = false) (rst : c.bus.rst = false) (st : s.st = .wrwait)
      (done : c.blk.done = true) (clean : c.blk.err = false) (more : s.blkLeft ≠ 1) :
      Edge p s c { s with
        blkStart := false, blkLeft := s.blkLeft - 1, lba := s.lba + 1, idx := 0, hs := .setup,
        st := .dataout }
  | written (pin : c.rst = false) (rst : c.bus.rst = false) (st : s.st = .wrwait)
      (done : c.blk.done = true) (clean : c.blk.err = false) (last : s.blkLeft = 1) :
      Edge p s c { s with blkStart := false, st := .status }
  | fetch (pin : c.rst = false) (rst : c.bus.rst = false) (st : s.st = .datain) (lets : s.Lets)
      (ack : c.bus.ack = false) (last : s.idx + 1 = s.xferLen) (media : s.respKind = .media)
      (more : s.blkLeft ≠ 1) :
      Edge p s c { s with
        hs := .setup, idx := 0, blkLeft := s.blkLeft - 1, lba := s.lba + 1, blkLba := s.lba + 1,
        blkWe := false, blkStart := true, st := .rdwait }
  | store (pin : c.rst = false) (rst : c.bus.rst = false) (st : s.st = .dataout) (lets : s.Lets)
      (ack : c.bus.ack = false) (last : s.idx + 1 = s.xferLen) (media : s.respKind = .media) :
      Edge p s c { s with
        hs := .setup, idx := 0, blkLba := s.lba, blkWe := true, blkStart := true, st := .wrwait }
  | moved (pin : c.rst = false) (rst : c.bus.rst = false) (st : s.st = .datain ∨ s.st = .dataout)
      (lets : s.Lets) (ack : c.bus.ack = false) (last : s.idx + 1 = s.xferLen)
      (ended : s.respKind ≠ .media ∨ s.st = .datain ∧ s.blkLeft = 1) :
      Edge p s c { s with blkStart := false, hs := .setup, idx := 0, st := .status }
  | status (pin : c.rst = false) (rst : c.bus.rst = false) (st : s.st = .status) (lets : s.Lets)
      (ack : c.bus.ack = false) :
      Edge p s c { s with
        blkStart := false, hs := .setup, msgIn := mCommandComplete, st := .msgin }
  | message (pin : c.rst = false) (rst : c.bus.rst = false) (st : s.st = .msgin) (lets : s.Lets)
      (ack : c.bus.ack = false) (other : s.op ≠ cRequestSense) :
      Edge p s c { s with blkStart := false, hs := .setup, st := .free }
  | consume (pin : c.rst = false) (rst : c.bus.rst = false) (st : s.st = .msgin) (lets : s.Lets)
      (ack : c.bus.ack = false) (op : s.op = cRequestSense) :
      Edge p s c { s with
        blkStart := false, hs := .setup, st := .free, senseKey := skNoSense, senseAsc := 0,
        senseAscq := 0, senseLba := 0 }
  | free (pin : c.rst = false) (rst : c.bus.rst = false) (st : s.st = .free) :

      Edge p s c { s with blkStart := false, hs := .setup, selCnt := 0, msgRx := 0, st := .idle }

section Clock

variable {p : Params} {s : Seq} {c : Cycle}

/-- The edges of the plain handshake. -/
theorem handshake_edge {released : Seq} (pin : c.rst = false) (rst : c.bus.rst = false)
    (moves : s.st = .datain ∨ s.st = .dataout ∨ s.st = .status ∨ s.st = .msgin)
    (lets : s.Lets → c.bus.ack = false → Edge p s c released) :
    Edge p s c (s.endPulse.handshake released c.bus) := by
  have transfers : s.Transfers := .inr (.inr moves)
  have same : s.endPulse.hs = s.hs := rfl
  cases ack : c.bus.ack with
  | false =>
      cases hs : s.hs <;> simp only [handshake, same, hs, ack, Bool.false_eq_true, if_false]
      · exact .raise pin rst transfers hs
      · exact .keep pin rst transfers (.inl ⟨hs, ack⟩)
      · exact lets (by simp [Lets, hs]) ack
      · exact lets (by simp [Lets, hs]) ack
  | true =>
      cases hs : s.hs <;> simp only [handshake, same, hs, ack, if_true]
      · exact .raise pin rst transfers hs
      · exact .hand pin rst moves hs ack
      · exact .keep pin rst transfers (.inr ⟨by simp [Lets, hs], ack⟩)
      · exact .keep pin rst transfers (.inr ⟨by simp [Lets, hs], ack⟩)

theorem stepIdle_edge (pin : c.rst = false) (rst : c.bus.rst = false) (st : s.st = .idle) :
    Edge p s c (s.endPulse.stepIdle p c.bus) := by
  unfold stepIdle
  split_ifs with named settled
  · exact .selected pin rst st named settled
  · exact .watch pin rst st named settled
  · exact .ignore pin rst st (by simpa using named)

theorem stepSelwait_edge (pin : c.rst = false) (rst : c.bus.rst = false) (st : s.st = .selwait) :
    Edge p s c (s.endPulse.stepSelwait c.bus) := by
  have held := Edge.held (p := p) pin rst st
  have attends := Edge.attends (p := p) pin rst st
  have begins := Edge.begins (p := p) pin rst st
  have same : s.endPulse.atnSeen = s.atnSeen := rfl
  unfold stepSelwait
  cases atn : c.bus.atn <;> cases sel : c.bus.sel <;> rw [atn] at held attends
  · cases seen : s.atnSeen with
    | false =>
        simp only [same, seen]
        exact begins sel seen
    | true =>
        have attended := attends sel (by simp [seen])
        simp only [same, seen, Bool.or_true, if_true]
        exact attended
  · exact held sel
  · exact attends sel rfl
  · exact held sel

theorem stepMsgout_edge (pin : c.rst = false) (rst : c.bus.rst = false) (st : s.st = .msgout) :
    Edge p s c (s.endPulse.stepMsgout c.bus) := by
  have transfers : s.Transfers := .inl st
  have same : s.endPulse.hs = s.hs := rfl
  have ends (lets : s.Lets) (ack : c.bus.ack = false) : Edge p s c
      (if s.endPulse.msgRx = mAbort ∨ s.endPulse.msgRx = mBusDeviceReset then
        { s.endPulse with hs := .setup, st := .free }
      else if c.bus.atn then { s.endPulse with hs := .setup }
      else { s.endPulse with hs := .setup, idx := 0, st := .cmd }) := by
    split_ifs
    · exact .abort pin rst st lets ack
    · exact .hearMore pin rst st lets ack
    · exact .command pin rst st lets ack
  cases ack : c.bus.ack with
  | false =>
      cases hs : s.hs <;> simp only [stepMsgout, same, hs, ack, Bool.false_eq_true, if_false]
      · exact .raise pin rst transfers hs
      · exact .keep pin rst transfers (.inl ⟨hs, ack⟩)
      · exact ends (by simp [Lets, hs]) ack
      · exact ends (by simp [Lets, hs]) ack
  | true =>
      cases hs : s.hs <;> simp only [stepMsgout, same, hs, ack, if_true]
      · exact .raise pin rst transfers hs
      · exact .hear pin rst st hs ack
      · exact .keep pin rst transfers (.inr ⟨by simp [Lets, hs], ack⟩)
      · exact .keep pin rst transfers (.inr ⟨by simp [Lets, hs], ack⟩)

theorem stepCmd_edge (pin : c.rst = false) (rst : c.bus.rst = false) (st : s.st = .cmd) :
    Edge p s c (s.endPulse.stepCmd c.bus) := by
  have transfers : s.Transfers := .inr (.inl st)
  have same : s.endPulse.hs = s.hs := rfl
  have ends (lets : s.Lets) (ack : c.bus.ack = false) : Edge p s c
      (if s.endPulse.idx + 1 = s.endPulse.cdbLen.setWidth 10 then
        { s.endPulse with hs := .setup, st := .exec, idx := 0 }
      else { s.endPulse with hs := .setup, idx := s.endPulse.idx + 1 }) := by
    split_ifs with last
    · exact .execute pin rst st lets ack last
    · exact .more pin rst (.inl st) lets ack (by rw [if_pos st]; exact last)
  cases ack : c.bus.ack with
  | false =>
      cases hs : s.hs <;> simp only [stepCmd, same, hs, ack, Bool.false_eq_true, if_false]
      · exact .raise pin rst transfers hs
      · exact .keep pin rst transfers (.inl ⟨hs, ack⟩)
      · exact ends (by simp [Lets, hs]) ack
      · exact ends (by simp [Lets, hs]) ack
  | true =>
      cases hs : s.hs <;> simp only [stepCmd, same, hs, ack, if_true]
      · exact .raise pin rst transfers hs
      · exact .take pin rst st hs ack
      · exact .keep pin rst transfers (.inr ⟨by simp [Lets, hs], ack⟩)
      · exact .keep pin rst transfers (.inr ⟨by simp [Lets, hs], ack⟩)

theorem stepRdwait_edge (pin : c.rst = false) (rst : c.bus.rst = false) (st : s.st = .rdwait) :
    Edge p s c (s.endPulse.stepRdwait c.blk) := by
  unfold stepRdwait
  split_ifs with failed done
  · exact .fault pin rst (.inl st) failed
  · exact .filled pin rst st done (by simpa [mediaFault, done] using failed)
  · exact .pend pin rst (.inl st) (by simpa using done)

theorem stepWrwait_edge (pin : c.rst = false) (rst : c.bus.rst = false) (st : s.st = .wrwait) :
    Edge p s c (s.endPulse.stepWrwait c.blk) := by
  unfold stepWrwait
  split_ifs with failed done last
  · exact .fault pin rst (.inr st) failed
  · exact .written pin rst st done (by simpa [mediaFault, done] using failed) last
  · exact .drained pin rst st done (by simpa [mediaFault, done] using failed) last
  · exact .pend pin rst (.inr st) (by simpa using done)

theorem datainReleased_edge (pin : c.rst = false) (rst : c.bus.rst = false) (st : s.st = .datain)
    (lets : s.Lets) (ack : c.bus.ack = false) : Edge p s c s.endPulse.datainReleased := by
  unfold datainReleased
  split_ifs with last again
  · exact .fetch pin rst st lets ack last again.1 again.2
  · refine .moved pin rst (.inl st) lets ack last ?_
    by_cases media : s.respKind = .media
    · exact .inr ⟨st, by_contra fun more => again ⟨media, more⟩⟩
    · exact .inl media
  · exact .more pin rst (.inr (.inl st)) lets ack (by rw [if_neg (by simp [st])]; exact last)

theorem dataoutReleased_edge (pin : c.rst = false) (rst : c.bus.rst = false)
    (st : s.st = .dataout) (lets : s.Lets) (ack : c.bus.ack = false) :
    Edge p s c s.endPulse.dataoutReleased := by
  unfold dataoutReleased
  split_ifs with last media
  · exact .store pin rst st lets ack last media
  · exact .moved pin rst (.inr st) lets ack last (.inl media)
  · exact .more pin rst (.inr (.inr st)) lets ack (by rw [if_neg (by simp [st])]; exact last)

theorem msginReleased_edge (pin : c.rst = false) (rst : c.bus.rst = false) (st : s.st = .msgin)
    (lets : s.Lets) (ack : c.bus.ack = false) : Edge p s c s.endPulse.msginReleased := by
  unfold msginReleased
  split_ifs with op
  · exact .consume pin rst st lets ack op
  · exact .message pin rst st lets ack op

/-- What the sequencer does in a cycle is one of the edges. -/
theorem clock_edge (p : Params) (s : Seq) (c : Cycle) : Edge p s c (s.clock p c) := by
  unfold clock
  split_ifs with pin
  · exact .pin pin
  · have pin : c.rst = false := by simpa using pin
    unfold next
    split_ifs with rst
    · exact .busReset pin rst
    · have rst : c.bus.rst = false := by simpa using rst
      have same : s.endPulse.st = s.st := rfl
      cases st : s.st <;> simp only [step, same, st]
      case idle => exact stepIdle_edge pin rst st
      case selwait => exact stepSelwait_edge pin rst st
      case msgout => exact stepMsgout_edge pin rst st
      case cmd => exact stepCmd_edge pin rst st
      case exec => exact .decide pin rst st (stepExec_decides _ _)
      case rdwait => exact stepRdwait_edge pin rst st
      case wrwait => exact stepWrwait_edge pin rst st
      case datain =>
        exact handshake_edge pin rst (.inl st) fun lets ack => datainReleased_edge pin rst st lets ack
      case dataout =>
        exact handshake_edge pin rst (.inr (.inl st))
          fun lets ack => dataoutReleased_edge pin rst st lets ack
      case status =>
        exact handshake_edge pin rst (.inr (.inr (.inl st)))
          fun lets ack => .status pin rst st lets ack
      case msgin =>
        exact handshake_edge pin rst (.inr (.inr (.inr st)))
          fun lets ack => msginReleased_edge pin rst st lets ack
      case free => exact .free pin rst st

end Clock

end Seq

end Wish5380.Targ
