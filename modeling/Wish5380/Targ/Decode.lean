import Wish5380.Targ.Protocol
import Wish5380.Targ.Responses

/-!
# A command is its own bytes

The descriptor register is never cleared.  What a COMMAND phase collects is told here by a
machine that has no registers left over from anything: two targets that differ in all they
remember of earlier commands both follow it, and so decide alike.
-/

namespace Wish5380.Targ

/-! ## The descriptor register, byte by byte -/

theorem getLsbD_ff (n : ℕ) : (0xff#96).getLsbD n = decide (n < 8) := by
  rcases Nat.lt_or_ge n 96 with below | above
  · revert n
    decide +kernel
  · simp [BitVec.getLsbD_of_ge _ _ above]
    omega

theorem cdbByte_setCdbByte (cdb : BitVec 96) {i k : ℕ} (d : Byte) (hi : i < 12) (hk : k < 12) :
    cdbByte (setCdbByte cdb i d) k = if k = i then d else cdbByte cdb k := by
  apply BitVec.eq_of_getLsbD_eq
  intro j inside
  have place : 8 * k + j < 96 := by omega
  simp only [cdbByte, setCdbByte, BitVec.getLsbD_extractLsb', BitVec.getLsbD_or,
    BitVec.getLsbD_and, BitVec.getLsbD_not, BitVec.getLsbD_shiftLeft, BitVec.getLsbD_setWidth,
    getLsbD_ff, inside, place, decide_true, Bool.true_and]
  by_cases same : k = i
  · subst same
    have above : ¬ 8 * k + j < 8 * k := by omega
    have offset : 8 * k + j - 8 * k = j := by omega
    have low : j < 96 := by omega
    simp [above, offset, inside, low]
  · rw [if_neg same, BitVec.getLsbD_extractLsb']
    rcases Nat.lt_or_gt_of_ne same with below | above
    · have under : 8 * k + j < 8 * i := by omega
      simp [under, inside]
    · have over_ : ¬ 8 * k + j < 8 * i := by omega
      have far : ¬ 8 * k + j - 8 * i < 8 := by omega
      have past : 8 ≤ 8 * k + j - 8 * i := by omega
      simp [over_, far, inside, BitVec.getLsbD_of_ge _ _ past]

/-! ## What a COMMAND phase collects -/

/-- The length of a descriptor block, by the group code of its first byte. -/
def groupLength (op : Byte) : ℕ :=
  if op.toNat / 32 = 1 ∨ op.toNat / 32 = 2 then 10 else if op.toNat / 32 = 5 then 12 else 6

theorem lenOfOp_toNat (op : Byte) : (lenOfOp op).toNat = groupLength op := by
  revert op
  decide +kernel

theorem groupLength_bounds (op : Byte) : 6 ≤ groupLength op ∧ groupLength op ≤ 12 := by
  unfold groupLength
  split_ifs <;> omega

/-- The bytes a command takes, as far as its first one tells. -/
def commandLength : List Byte → ℕ
  | [] => 6
  | op :: _ => groupLength op

theorem commandLength_append {got : List Byte} (some : got ≠ []) (d : Byte) :
    commandLength (got ++ [d]) = commandLength got := by
  cases got with
  | nil => exact absurd rfl some
  | cons op rest => rfl

/-- A COMMAND phase and the bytes it has. -/
inductive Gather where
  | ready (got : List Byte)
  | asking (got : List Byte)
  | taken (got : List Byte)
  | complete (got : List Byte)

namespace Gather

def next (bus : Scsi) : Gather → Gather
  | .ready got => .asking got
  | .asking got => if bus.ack then .taken (got ++ [bus.data]) else .asking got
  | .taken got =>
      if bus.ack then .taken got
      else if got.length = commandLength got then .complete got
      else .ready got
  | .complete got => .complete got

def run (bus : ℕ → Scsi) : ℕ → Gather
  | 0 => .ready []
  | t + 1 => (run bus t).next (bus t)

end Gather

/-- The logical unit of a command: the one in hand if ATN was seen, else the one in byte 1. -/
def unitOf (first : Seq) (got : List Byte) : BitVec 3 :=
  if first.atnSeen = false ∧ 2 ≤ got.length then (got.getD 1 0).extractLsb' 5 3 else first.lun

namespace Seq

/-- The registers hold the bytes collected since `first`. -/
structure Collected (first : Seq) (got : List Byte) (s : Seq) : Prop where
  bytes : ∀ k < got.length, cdbByte s.cdb k = got.getD k 0
  length : got ≠ [] → s.cdbLen = lenOfOp (got.getD 0 0)
  unit : s.lun = unitOf first got
  atn : s.atnSeen = first.atnSeen
  sense : s.sense = first.sense

/-- The sequencer stands where the collected bytes say. -/
def Follows (first : Seq) (s : Seq) : Gather → Prop
  | .ready got => s.st = .cmd ∧ s.hs = .setup ∧ s.idx = BitVec.ofNat 10 got.length ∧
      got.length < commandLength got ∧ Collected first got s
  | .asking got => s.st = .cmd ∧ s.hs = .req ∧ s.idx = BitVec.ofNat 10 got.length ∧
      got.length < commandLength got ∧ Collected first got s
  | .taken got => s.st = .cmd ∧ s.hs = .rel ∧ s.idx + 1 = BitVec.ofNat 10 got.length ∧
      0 < got.length ∧ got.length ≤ commandLength got ∧ Collected first got s
  | .complete got => s.st = .exec ∧ 0 < got.length ∧ got.length = commandLength got ∧
      Collected first got s

variable {p : Params} {first s : Seq} {c : Cycle} {got : List Byte}

theorem clock_cmd (pin : c.rst = false) (rst : c.bus.rst = false) (st : s.st = .cmd) :
    s.clock p c = s.endPulse.stepCmd c.bus := by
  rw [clock_calm p s pin rst]
  simp [step, endPulse, st]

theorem commandLength_le (got : List Byte) : commandLength got ≤ 12 := by
  cases got with
  | nil => decide
  | cons op rest => exact (groupLength_bounds op).2

/-- The registers after a byte has been taken. -/
theorem Collected.take (collected : Collected first got s)
    (idx : s.idx = BitVec.ofNat 10 got.length) (room : got.length < 12) (d : Byte) :
    Collected first (got ++ [d]) { s.endPulse with
      hs := .rel, cdb := setCdbByte s.cdb (s.idx.extractLsb' 0 4).toNat d,
      cdbLen := if s.idx = 0 then lenOfOp d else s.cdbLen,
      lun := if s.idx = 1 ∧ s.atnSeen = false then d.extractLsb' 5 3 else s.lun } := by
  have number : s.idx.toNat = got.length := by
    rw [idx, BitVec.toNat_ofNat]
    omega
  have low : (s.idx.extractLsb' 0 4).toNat = got.length := by
    rw [BitVec.extractLsb'_toNat, number, Nat.shiftRight_zero]
    omega
  have zero : s.idx = 0 ↔ got = [] := by
    rw [← BitVec.toNat_inj, number]
    simp
  have one : s.idx = 1 ↔ got.length = 1 := by
    rw [← BitVec.toNat_inj, number]
    simp
  constructor
  case bytes =>
    intro k below
    rw [List.length_append, List.length_singleton] at below
    show cdbByte (setCdbByte s.cdb (s.idx.extractLsb' 0 4).toNat d) k = _
    rw [low, cdbByte_setCdbByte _ _ room (by omega)]
    split_ifs with last
    · subst last
      simp
    · have inside : k < got.length := by omega
      rw [collected.bytes k inside]
      simp [List.getD_eq_getElem?_getD, List.getElem?_append_left inside]
  case length =>
    intro _
    show (if s.idx = 0 then lenOfOp d else s.cdbLen) = _
    by_cases empty : got = []
    · rw [if_pos (zero.mpr empty), empty]
      rfl
    · rw [if_neg fun is => empty (zero.mp is), collected.length empty]
      cases got with
      | nil => exact absurd rfl empty
      | cons op rest => rfl
  case unit =>
    show (if s.idx = 1 ∧ s.atnSeen = false then d.extractLsb' 5 3 else s.lun) = _
    simp only [one, collected.atn, collected.unit]
    cases got with
    | nil => simp [unitOf]
    | cons op rest =>
        cases rest with
        | nil => simp [unitOf]
        | cons unit rest => simp [unitOf]
  case atn => exact collected.atn
  case sense => exact collected.sense

theorem Collected.congr {t : Seq} (collected : Collected first got s) (cdb : t.cdb = s.cdb)
    (len : t.cdbLen = s.cdbLen) (lun : t.lun = s.lun) (atn : t.atnSeen = s.atnSeen)
    (sense : t.sense = s.sense) : Collected first got t where
  bytes k below := by rw [cdb, collected.bytes k below]
  length some := len.trans (collected.length some)
  unit := lun.trans collected.unit
  atn := atn.trans collected.atn
  sense := sense.trans collected.sense

/-- The length register says when the last byte has been taken. -/
theorem Collected.last_iff (collected : Collected first got s) (some : 0 < got.length)
    (few : got.length ≤ commandLength got) :
    BitVec.ofNat 10 got.length = s.cdbLen.setWidth 10 ↔ got.length = commandLength got := by
  have bound := commandLength_le got
  have len : s.cdbLen.toNat = commandLength got := by
    rw [collected.length (List.ne_nil_of_length_pos some), lenOfOp_toNat]
    cases got with
    | nil => cases some
    | cons op rest => rfl
  rw [← BitVec.toNat_inj, BitVec.toNat_ofNat, BitVec.toNat_setWidth, len]
  omega

theorem take_room (few : got.length < commandLength got) (d : Byte) :
    (got ++ [d]).length ≤ commandLength (got ++ [d]) := by
  cases got with
  | nil =>
      have low := (groupLength_bounds d).1
      simp [commandLength]
      omega
  | cons op rest =>
      rw [commandLength_append (List.cons_ne_nil op rest), List.length_append,
        List.length_singleton]
      omega

/-- The sequencer follows the bytes, whatever its registers held before. -/
theorem Follows.clock {g : Gather} (follows : Follows first s g) (pin : c.rst = false)
    (rst : c.bus.rst = false) (going : ∀ got, g ≠ .complete got) :
    Follows first (s.clock p c) (g.next c.bus) := by
  cases g with
  | ready got =>
      obtain ⟨st, hs, idx, few, collected⟩ := follows
      have here : s.endPulse.hs = .setup := hs
      rw [clock_cmd pin rst st]
      simp only [stepCmd, here, Gather.next]
      exact ⟨st, rfl, idx, few, collected.congr rfl rfl rfl rfl rfl⟩
  | asking got =>
      obtain ⟨st, hs, idx, few, collected⟩ := follows
      have here : s.endPulse.hs = .req := hs
      have bound := commandLength_le got
      rw [clock_cmd pin rst st]
      cases ack : c.bus.ack with
      | false =>
          simp only [stepCmd, here, Gather.next, ack, Bool.false_eq_true, if_false]
          exact ⟨st, hs, idx, few, collected.congr rfl rfl rfl rfl rfl⟩
      | true =>
          simp only [stepCmd, here, Gather.next, ack, if_true]
          refine ⟨st, rfl, ?_, by simp, take_room few _, collected.take idx (by omega) _⟩
          show s.idx + 1 = _
          rw [idx, List.length_append, List.length_singleton, BitVec.ofNat_add]
          rfl
  | taken got =>
      obtain ⟨st, hs, idx, some, few, collected⟩ := follows
      have here : s.endPulse.hs = .rel := hs
      rw [clock_cmd pin rst st]
      cases ack : c.bus.ack with
      | true =>
          simp only [stepCmd, here, Gather.next, ack, if_true]
          exact ⟨st, hs, idx, some, few, collected.congr rfl rfl rfl rfl rfl⟩
      | false =>
          have last := collected.last_iff some few
          rw [← idx] at last
          simp only [stepCmd, here, Gather.next, ack, Bool.false_eq_true, if_false]
          by_cases whole : got.length = commandLength got
          · rw [if_pos whole, if_pos (show s.endPulse.idx + 1 = s.endPulse.cdbLen.setWidth 10 from
              last.mpr whole)]
            exact ⟨rfl, some, whole, collected.congr rfl rfl rfl rfl rfl⟩
          · rw [if_neg whole, if_neg (show ¬ s.endPulse.idx + 1 = s.endPulse.cdbLen.setWidth 10
              from fun is => whole (last.mp is))]
            exact ⟨st, rfl, idx, by omega, collected.congr rfl rfl rfl rfl rfl⟩
  | complete got => exact absurd rfl (going got)

/-- The two hold the same command for the same unit, and the same sense. -/
structure SameCommand (s s' : Seq) : Prop where
  lun : s.lun = s'.lun
  sense : s.sense = s'.sense
  bytes : ∀ k < groupLength s.op, cdbByte s.cdb k = cdbByte s'.cdb k

/-- What follows a command is the same in both: the phase, the status, the sense and the kind
of response; and of a data phase or a request for a block its length, address, count and
direction. -/
structure SameDecision (t t' : Seq) : Prop where
  st : t.st = t'.st
  phase : t.phase = t'.phase
  status : t.status = t'.status
  sense : t.sense = t'.sense
  kind : t.respKind = t'.respKind
  start : t.blkStart = t'.blkStart
  len : t.st = .datain ∨ t.st = .dataout ∨ t.st = .rdwait → t.xferLen = t'.xferLen
  blocks : t.respKind = .media → t.lba = t'.lba ∧ t.blkLeft = t'.blkLeft
  request : t.blkStart = true → t.blkLba = t'.blkLba ∧ t.blkWe = t'.blkWe

variable {s' : Seq} {blk : BlkRsp}

theorem SameCommand.op (same : SameCommand s s') : s.op = s'.op :=
  same.bytes 0 (Nat.lt_of_lt_of_le (by decide) (groupLength_bounds _).1)

theorem SameCommand.allocLen (same : SameCommand s s') : s.allocLen = s'.allocLen := by
  have byte := same.bytes 4 (Nat.lt_of_lt_of_le (by decide) (groupLength_bounds _).1)
  rw [Seq.allocLen, Seq.allocLen, byte]

theorem low_bits (cdb : BitVec 96) : cdb.extractLsb' 8 5 = (cdbByte cdb 1).extractLsb' 0 5 := by
  apply BitVec.eq_of_getLsbD_eq
  intro j inside
  have within : j < 8 := by omega
  simp [cdbByte, inside, within]

/-- The address and the length come out of the bytes the command has. -/
theorem SameCommand.media (same : SameCommand s s') :
    s.cmdLba = s'.cmdLba ∧ s.cmdBlocks = s'.cmdBlocks := by
  have op := same.op
  have ten : s.cdbIsTen = s'.cdbIsTen := by rw [cdbIsTen, cdbIsTen, op]
  have six := (groupLength_bounds s.op).1
  cases is : s.cdbIsTen with
  | true =>
      have long : groupLength s.op = 10 := by
        simp only [cdbIsTen, Bool.or_eq_true, beq_iff_eq] at is
        rcases is with is | is <;> rw [is] <;> rfl
      have bytes := same.bytes
      rw [long] at bytes
      rw [cmdLba, cmdLba, cmdBlocks, cmdBlocks, ← ten, is]
      simp only [if_true, cdbLba10, cdbLen10]
      rw [bytes 2 (by decide), bytes 3 (by decide), bytes 4 (by decide), bytes 5 (by decide),
        bytes 7 (by decide), bytes 8 (by decide)]
      exact ⟨rfl, rfl⟩
  | false =>
      have bytes := fun k (below : k < 6) => same.bytes k (by omega)
      rw [cmdLba, cmdLba, cmdBlocks, cmdBlocks, ← ten, is]
      simp only [Bool.false_eq_true, if_false, cdbLba6, cdbLen6, low_bits]
      rw [bytes 1 (by decide), bytes 2 (by decide), bytes 3 (by decide), bytes 4 (by decide)]
      exact ⟨rfl, rfl⟩

theorem SameCommand.defaults (same : SameCommand s s') :
    s.execDefaults.sense = s'.execDefaults.sense := by
  have op := same.op
  unfold execDefaults
  by_cases is : s'.op = cRequestSense
  · rw [if_pos is, if_pos (op.trans is)]
    exact same.sense
  · rw [if_neg is, if_neg fun other => is (op.symm.trans other)]
    rfl

section Decisions

variable (same : SameCommand s s') (quiet : s.blkStart = false) (quiet' : s'.blkStart = false)

include same quiet quiet'

theorem same_check (key : BitVec 4) (asc : Byte) :
    SameDecision (s.execDefaults.checkCondition key asc)
      (s'.execDefaults.checkCondition key asc) := by
  have lba : s.execDefaults.senseLba = s'.execDefaults.senseLba :=
    congrArg Sense.info same.defaults
  constructor <;> simp [checkCondition, phase, sense, lba, quiet, quiet']

theorem same_status :
    SameDecision { s.execDefaults with st := .status } { s'.execDefaults with st := .status } := by
  have sense := same.defaults
  constructor <;> simp [phase, quiet, quiet']
  exact sense

theorem same_respond (kind : RespKind) (len : BitVec 10) (other : kind ≠ .media) :
    SameDecision (s.execDefaults.respond kind len) (s'.execDefaults.respond kind len) := by
  have sense := same.defaults
  have alloc := same.allocLen
  constructor <;> simp [respond, phase, quiet, quiet', alloc, other]
  exact sense

theorem same_capacity :
    SameDecision { s.execDefaults with respKind := .capacity, xferLen := 8, st := .datain }
      { s'.execDefaults with respKind := .capacity, xferLen := 8, st := .datain } := by
  have sense := same.defaults
  constructor <;> simp [phase, quiet, quiet']
  exact sense

theorem same_select (n : BitVec 10) :
    SameDecision { s.execDefaults with xferLen := n, st := .dataout }
      { s'.execDefaults with xferLen := n, st := .dataout } := by
  have sense := same.defaults
  constructor <;> simp [phase, quiet, quiet']
  exact sense

theorem same_media :
    SameDecision (s.execDefaults.execMedia blk) (s'.execDefaults.execMedia blk) := by
  have op := same.op
  obtain ⟨lba, blocks⟩ := same.media
  obtain ⟨_, isRead, isWrite, isLba, isBlocks, isRange⟩ := decode_congr (execDefaults_cdb s)
  obtain ⟨_, isRead', isWrite', isLba', isBlocks', isRange'⟩ := decode_congr (execDefaults_cdb s')
  have read : s.cdbIsRead = s'.cdbIsRead := by rw [cdbIsRead, cdbIsRead, op]
  have write : s.cdbIsWrite = s'.cdbIsWrite := by rw [cdbIsWrite, cdbIsWrite, op]
  have range : s.outOfRange blk.count = s'.outOfRange blk.count := by
    rw [outOfRange, outOfRange, lba, blocks]
  have sense := same.defaults
  unfold execMedia
  simp only [isRead, isWrite, isLba, isBlocks, isRange, isRead', isWrite', isLba', isBlocks',
    isRange', read, write, range, lba, blocks]
  split_ifs
  · exact same_check same quiet quiet' _ _
  · exact same_check same quiet quiet' _ _
  · constructor <;> simp [checkCondition, phase, Seq.sense, quiet, quiet']
  · constructor <;> simp [phase]
    exact sense
  · constructor <;> simp [phase, quiet, quiet']
    exact sense

end Decisions

/-- Two commands that decide a question alike. -/
theorem SameDecision.ite {q : Prop} [Decidable q] {x x' y y' : Seq} (yes : SameDecision x x')
    (no : SameDecision y y') : SameDecision (if q then x else y) (if q then x' else y') := by
  split
  · exact yes
  · exact no

theorem SameCommand.decides (same : SameCommand s s') (quiet : s.blkStart = false)
    (quiet' : s'.blkStart = false) : SameDecision (s.stepExec blk) (s'.stepExec blk) := by
  have op := same.op
  have alloc := same.allocLen
  have check := same_check same quiet quiet'
  have respond := same_respond same quiet quiet'
  have status := same_status same quiet quiet'
  have operation : SameDecision (s.execDefaults.execOp blk) (s'.execDefaults.execOp blk) := by
    unfold execOp
    simp only [execDefaults_op, execDefaults_allocLen, op, alloc]
    refine .ite (respond _ _ nofun) (.ite (respond _ _ nofun) (.ite ?capacity ?_))
    case capacity => exact .ite (check _ _) (same_capacity same quiet quiet')
    refine .ite (respond _ _ nofun) (.ite (.ite (check _ _) status) (.ite status (.ite ?select ?_)))
    case select => exact .ite status (same_select same quiet quiet' _)
    exact same_media same quiet quiet'
  unfold stepExec
  simp only [same.lun, op]
  exact .ite (check _ _) operation

end Seq

/-! ## Runs -/

namespace Gather

/-- The bytes collected so far. -/
def got : Gather → List Byte
  | .ready got => got
  | .asking got => got
  | .taken got => got
  | .complete got => got

end Gather

/-- The command byte the target takes in cycle `t`. -/
def takes (p : Params) (x : ℕ → State) (input : ℕ → Cycle) (t : ℕ) : List Byte :=
  if (out p x input t).req && (input t).bus.ack && (out p x input t).phase == phCommand then
    [(input t).bus.data]
  else []

/-- COMMAND has just been entered. -/
structure Seq.Enters (s : Seq) : Prop where
  st : s.st = .cmd
  hs : s.hs = .setup
  idx : s.idx = 0

theorem Seq.Enters.follows {s : Seq} (enters : s.Enters) : s.Follows s (.ready []) :=
  ⟨enters.st, enters.hs, enters.idx, by decide, nofun, fun some => absurd rfl some,
    by simp [unitOf], rfl, rfl⟩

section Run

variable {p : Params} {s : State} {input : ℕ → Cycle} {first : Seq}

theorem takes_eq {x : ℕ → State} {t : ℕ} {g : Gather} (follows : first.Follows (x t).seq g)
    (going : ∀ got, g ≠ .complete got) :
    g.got ++ takes p x input t = (g.next (input t).bus).got := by
  have shows_ : ∀ {hs : Hs}, (x t).seq.st = .cmd → (x t).seq.hs = hs →
      takes p x input t = if hs = .req ∧ (input t).bus.ack = true then [(input t).bus.data]
        else [] := by
    intro hs st is
    have up : (x t).seq.connected = true := by simp [Seq.connected, st]
    have phase : (out p x input t).phase = phCommand :=
      (drive_phase _ up).trans (by simp [Seq.phase, st])
    have asks : (out p x input t).req = (hs == .req) := by simp [out, drive, Seq.req, up, is]
    simp [takes, phase, asks]
  cases g with
  | ready got =>
      rw [shows_ follows.1 follows.2.1]
      simp [Gather.got, Gather.next]
  | asking got =>
      rw [shows_ follows.1 follows.2.1]
      cases ack : (input t).bus.ack <;> simp [Gather.got, Gather.next, ack]
  | taken got =>
      rw [shows_ follows.1 follows.2.1]
      cases ack : (input t).bus.ack
      · by_cases whole : got.length = commandLength got <;>
          simp [Gather.got, Gather.next, ack, whole]
      · simp [Gather.got, Gather.next, ack]
  | complete got => exact absurd rfl (going got)

/-- As long as the command is not complete the run follows the bytes, and has taken them. -/
theorem run_follows (enters : s.seq.Enters) {t : ℕ}
    (calm : ∀ v < t, (input v).rst = false ∧ (input v).bus.rst = false)
    (going : ∀ v < t, ∀ got, Gather.run (fun v => (input v).bus) v ≠ .complete got) :
    s.seq.Follows (run p s input t).seq (Gather.run (fun v => (input v).bus) t) ∧
      Clocked.trace (takes p (run p s input) input) 0 t =
        (Gather.run (fun v => (input v).bus) t).got := by
  induction t with
  | zero => exact ⟨enters.follows, by simp [Gather.run, Gather.got]⟩
  | succ t ih =>
      obtain ⟨follows, bytes⟩ := ih (fun v below => calm v (by omega))
        (fun v below => going v (by omega))
      obtain ⟨pin, rst⟩ := calm t (Nat.lt_succ_self t)
      have on := going t (Nat.lt_succ_self t)
      refine ⟨follows.clock pin rst on, ?_⟩
      rw [Clocked.trace_succ _ (Nat.zero_le t), bytes]
      exact takes_eq follows on

/-- While the target is in COMMAND the command is not complete. -/
theorem going_of_cmd (enters : s.seq.Enters) {e : ℕ}
    (calm : ∀ v < e, (input v).rst = false ∧ (input v).bus.rst = false)
    (cmd : ∀ v < e, (run p s input v).seq.st = .cmd) :
    ∀ v < e, ∀ got, Gather.run (fun v => (input v).bus) v ≠ .complete got := by
  intro v
  induction v using Nat.strong_induction_on with
  | _ v ih =>
      intro below got is
      have follows := (run_follows (p := p) (t := v) enters (fun u low => calm u (by omega))
        (fun u low => ih u low (by omega))).1
      rw [is] at follows
      have st := cmd v below
      rw [follows.1] at st
      cases st

/-- In COMMAND before the command is complete, in `S_EXEC` as soon as it is. -/
theorem run_places (enters : s.seq.Enters) {e : ℕ} {got : List Byte}
    (calm : ∀ v < e, (input v).rst = false ∧ (input v).bus.rst = false)
    (going : ∀ v < e, ∀ got, Gather.run (fun v => (input v).bus) v ≠ .complete got)
    (complete : Gather.run (fun v => (input v).bus) e = .complete got) :
    (∀ v < e, (run p s input v).seq.st = .cmd) ∧ (run p s input e).seq.st = .exec := by
  constructor
  · intro v below
    have follows := (run_follows (p := p) (t := v) enters (fun u low => calm u (by omega))
      (fun u low => going u (by omega))).1
    have on := going v below
    generalize Gather.run (fun v => (input v).bus) v = g at follows on
    cases g with
    | ready => exact follows.1
    | asking => exact follows.1
    | taken => exact follows.1
    | complete got => exact absurd rfl (on got)
  · have follows := (run_follows (p := p) enters calm going).1
    rw [complete] at follows
    exact follows.1

theorem complete_of_exec (enters : s.seq.Enters) {e : ℕ}
    (calm : ∀ v < e, (input v).rst = false ∧ (input v).bus.rst = false)
    (going : ∀ v < e, ∀ got, Gather.run (fun v => (input v).bus) v ≠ .complete got)
    (exec : (run p s input e).seq.st = .exec) :
    ∃ got, Gather.run (fun v => (input v).bus) e = .complete got := by
  have follows := (run_follows (p := p) enters calm going).1
  generalize Gather.run (fun v => (input v).bus) e = g at follows
  cases g with
  | complete got => exact ⟨got, rfl⟩
  | _ => simp [follows.1] at exec

/-- What the initiator owes the target: ACK to a request, and its end after that. -/
theorem gather_moves (enters : s.seq.Enters) (patient : Patient (run p s input) input 0) {t : ℕ}
    {got : List Byte}
    (going : ∀ v < t, ∀ got, Gather.run (fun v => (input v).bus) v ≠ .complete got)
    (ready : Gather.run (fun v => (input v).bus) t = .ready got) :
    ∃ e d, (∀ v < e, ∀ got, Gather.run (fun v => (input v).bus) v ≠ .complete got) ∧
      Gather.run (fun v => (input v).bus) e =
        if (got ++ [d]).length = commandLength (got ++ [d]) then .complete (got ++ [d])
        else .ready (got ++ [d]) := by
  have calm : ∀ v, (input v).rst = false ∧ (input v).bus.rst = false :=
    fun v => ⟨patient.pin v (Nat.zero_le v), patient.rst v (Nat.zero_le v)⟩
  have asking : Gather.run (fun v => (input v).bus) (t + 1) = .asking got := by
    rw [Gather.run, ready]
    rfl
  have asks : (run p s input (t + 1)).seq.req = true := by
    have follows := (run_follows (p := p) (t := t + 1) enters (fun v _ => calm v) (by
      intro v below
      rcases Nat.lt_succ_iff_lt_or_eq.mp below with early | rfl
      · exact going v early
      · rw [ready]
        simp)).1
    rw [asking] at follows
    simp [Seq.req, Seq.connected, follows.1, follows.2.1]
  obtain ⟨a, low, acked, _, waits⟩ := Clocked.hold_until
    (P := fun u => (input u).bus.ack = true) asking
    (fun u _ is silent => by
      rw [Gather.run, is]
      simp only [Bool.not_eq_true] at silent
      simp [Gather.next, silent])
    (patient.acks (t + 1) (Nat.zero_le _) asks)
  have taken : Gather.run (fun v => (input v).bus) (a + 1) = .taken (got ++ [(input a).bus.data]) := by
    rw [Gather.run, waits a low (Nat.le_refl a)]
    simp [Gather.next, acked]
  have before : ∀ v < a + 1, ∀ got, Gather.run (fun v => (input v).bus) v ≠ .complete got := by
    intro v below
    rcases Nat.lt_or_ge v t with early | late
    · exact going v early
    · rcases Nat.lt_or_eq_of_le late with after | rfl
      · rw [waits v after (by omega)]
        simp
      · rw [ready]
        simp
  have rests : (run p s input (a + 1)).seq.req = false := by
    have follows := (run_follows (p := p) enters (fun v _ => calm v) before).1
    rw [taken] at follows
    simp [Seq.req, follows.2.1]
  obtain ⟨r, above, freed, _, holds⟩ := Clocked.hold_until
    (P := fun u => (input u).bus.ack = false) taken
    (fun u _ is held => by
      rw [Gather.run, is]
      simp only [Bool.not_eq_false] at held
      simp [Gather.next, held])
    (patient.frees (a + 1) (Nat.zero_le _) rests)
  refine ⟨r + 1, (input a).bus.data, fun v below => ?_, ?_⟩
  · rcases Nat.lt_or_ge v (a + 1) with early | late
    · exact before v early
    · rw [holds v late (by omega)]
      simp
  · rw [Gather.run, holds r above (Nat.le_refl r)]
    simp [Gather.next, freed]

/-- An initiator that completes every handshake brings the command to its end. -/
theorem command_completes (enters : s.seq.Enters) (patient : Patient (run p s input) input 0)
    (n t : ℕ) (got : List Byte)
    (going : ∀ v < t, ∀ got, Gather.run (fun v => (input v).bus) v ≠ .complete got)
    (ready : Gather.run (fun v => (input v).bus) t = .ready got) (left : 12 - got.length = n) :
    ∃ e got, Gather.run (fun v => (input v).bus) e = .complete got ∧
      ∀ v < e, ∀ got, Gather.run (fun v => (input v).bus) v ≠ .complete got := by
  have calm : ∀ v < t, (input v).rst = false ∧ (input v).bus.rst = false :=
    fun v _ => ⟨patient.pin v (Nat.zero_le v), patient.rst v (Nat.zero_le v)⟩
  induction n generalizing t got with
  | zero =>
      have follows := (run_follows (p := p) enters calm going).1
      rw [ready] at follows
      have few := follows.2.2.2.1
      have bound := Seq.commandLength_le got
      omega
  | succ n ih =>
      obtain ⟨e, d, before, next⟩ := gather_moves enters patient going ready
      split_ifs at next with whole
      · exact ⟨e, got ++ [d], next, before⟩
      · refine ih e (got ++ [d]) before next ?_ ?_
        · rw [List.length_append, List.length_singleton]
          omega
        · exact fun v _ => ⟨patient.pin v (Nat.zero_le v), patient.rst v (Nat.zero_le v)⟩

end Run

/-- Two COMMAND phases that end in cycle `e`, with the same bytes of the length the first one
asks for, for the same unit, and with the same decision. -/
structure SameOutcome (p : Params) (first : Seq) (x y : ℕ → State) (input : ℕ → Cycle) (e : ℕ) :
    Prop where
  cmd : ∀ v < e, (x v).seq.st = .cmd ∧ (y v).seq.st = .cmd
  exec : (x e).seq.st = .exec ∧ (y e).seq.st = .exec
  bytes : Clocked.trace (takes p x input) 0 e = Clocked.trace (takes p y input) 0 e
  length : (Clocked.trace (takes p x input) 0 e).length =
    groupLength ((Clocked.trace (takes p x input) 0 e).getD 0 0)
  unit : (x e).seq.lun = (y e).seq.lun ∧
    (x e).seq.lun = if first.atnSeen then first.lun
      else ((Clocked.trace (takes p x input) 0 e).getD 1 0).extractLsb' 5 3
  decision : Seq.SameDecision (x (e + 1)).seq (y (e + 1)).seq

section Both

variable {p : Params} {s s' : State} {input : ℕ → Cycle}

theorem sameOutcome (enters : s.seq.Enters) (enters' : s'.seq.Enters)
    (lun : s.seq.lun = s'.seq.lun) (atn : s.seq.atnSeen = s'.seq.atnSeen)
    (sense : s.seq.sense = s'.seq.sense) {e : ℕ} {got : List Byte}
    (calm : ∀ v ≤ e, (input v).rst = false ∧ (input v).bus.rst = false)
    (going : ∀ v < e, ∀ got, Gather.run (fun v => (input v).bus) v ≠ .complete got)
    (complete : Gather.run (fun v => (input v).bus) e = .complete got) :
    SameOutcome p s.seq (run p s input) (run p s' input) input e := by
  have earlier := fun v (below : v < e) => calm v (Nat.le_of_lt below)
  obtain ⟨follows, bytes⟩ := run_follows (p := p) enters earlier going
  obtain ⟨follows', bytes'⟩ := run_follows (p := p) enters' earlier going
  have places := run_places (p := p) enters earlier going complete
  have places' := run_places (p := p) enters' earlier going complete
  rw [complete] at follows follows' bytes bytes'
  obtain ⟨exec, some, whole, collected⟩ := follows
  obtain ⟨exec', _, _, collected'⟩ := follows'
  have length : got.length = groupLength (got.getD 0 0) := by
    cases got with
    | nil => cases some
    | cons op rest => exact whole
  have units : unitOf s.seq got = unitOf s'.seq got := by
    rw [unitOf, unitOf, lun, atn]
  have same : Seq.SameCommand (run p s input e).seq.endPulse (run p s' input e).seq.endPulse := by
    refine ⟨?_, ?_, fun k below => ?_⟩
    · exact collected.unit.trans (units.trans collected'.unit.symm)
    · exact collected.sense.trans (sense.trans collected'.sense.symm)
    · have op : (run p s input e).seq.endPulse.op = got.getD 0 0 := collected.bytes 0 some
      rw [op, ← length] at below
      exact (collected.bytes k below).trans (collected'.bytes k below).symm
  obtain ⟨pin, rst⟩ := calm e (Nat.le_refl e)
  have next : ∀ {x : Seq}, x.st = .exec → x.clock p (input e) = x.endPulse.stepExec (input e).blk := by
    intro x st
    rw [Seq.clock_calm p x pin rst]
    simp [Seq.step, Seq.endPulse, st]
  refine ⟨fun v below => ⟨places.1 v below, places'.1 v below⟩, ⟨exec, exec'⟩,
    bytes.trans bytes'.symm, ?_, ?_, ?_⟩
  · rw [bytes]
    exact length
  · rw [bytes]
    refine ⟨same.lun, collected.unit.trans ?_⟩
    have two : 2 ≤ got.length := by
      have low := (groupLength_bounds (got.getD 0 0)).1
      omega
    cases seen : s.seq.atnSeen <;> simp [unitOf, seen, two, Gather.got]
  · show Seq.SameDecision ((run p s input e).seq.clock p (input e))
      ((run p s' input e).seq.clock p (input e))
    rw [next exec, next exec']
    exact same.decides rfl rfl

end Both

/-- Two targets that enter COMMAND with the same unit, ATN and sense, whatever else they
remember, take the same bytes as the first byte's group asks for and decide alike; and if the
initiator completes every handshake they come to that. -/
theorem command_is_its_bytes (p : Params) (s s' : State) (input : ℕ → Cycle)
    (enters : s.seq.Enters) (enters' : s'.seq.Enters) (lun : s.seq.lun = s'.seq.lun)
    (atn : s.seq.atnSeen = s'.seq.atnSeen) (sense : s.seq.sense = s'.seq.sense) :
    (∀ e, (∀ v ≤ e, (input v).rst = false ∧ (input v).bus.rst = false) →
      (∀ v < e, (run p s input v).seq.st = .cmd) → (run p s input e).seq.st = .exec →
      SameOutcome p s.seq (run p s input) (run p s' input) input e) ∧
    (Patient (run p s input) input 0 →
      ∃ e, SameOutcome p s.seq (run p s input) (run p s' input) input e) := by
  constructor
  · intro e calm cmd exec
    have earlier := fun v (below : v < e) => calm v (Nat.le_of_lt below)
    have going := going_of_cmd enters earlier cmd
    obtain ⟨got, complete⟩ := complete_of_exec enters earlier going exec
    exact sameOutcome enters enters' lun atn sense calm going complete
  · intro patient
    obtain ⟨e, got, complete, going⟩ := command_completes enters patient 12 0 []
      (fun v below => absurd below (Nat.not_lt_zero v)) rfl rfl
    refine ⟨e, sameOutcome enters enters' lun atn sense (fun v _ => ?_) going complete⟩
    exact ⟨patient.pin v (Nat.zero_le v), patient.rst v (Nat.zero_le v)⟩

/-- COMMAND entered with nothing in the registers. -/
def freshCommand : State :=
  ⟨{ st := .cmd }, .blank⟩

/-- COMMAND entered after a long WRITE whose descriptor block is still there. -/
def staleCommand : State :=
  ⟨{ st := .cmd, cdb := BitVec.allOnes 96, cdbLen := 12, xferLen := 512, lba := 77, blkLeft := 3,
     respKind := .media, blkWe := true, blkLba := 78 }, ⟨fun _ => 0xff, 0xff, 0xff⟩⟩

/-- A prompt initiator that sends zeroes gets the same from both. -/
theorem stale_command_decides_alike :
    ∃ e, SameOutcome {} freshCommand.seq (run {} freshCommand (promptInput 0 freshCommand))
      (run {} staleCommand (promptInput 0 freshCommand)) (promptInput 0 freshCommand) e :=
  (command_is_its_bytes {} freshCommand staleCommand (promptInput 0 freshCommand) ⟨rfl, rfl, rfl⟩
    ⟨rfl, rfl, rfl⟩ rfl rfl rfl).2 (promptInput_fair 0 freshCommand).patient

end Wish5380.Targ
