import Wish5380.Targ.Protocol
import Wish5380.Targ.Transfer

/-!
# The generated responses

INQUIRY, REQUEST SENSE, MODE SENSE and READ CAPACITY answer with bytes that are stored
nowhere: each is a function of the running index.  Here are the responses as lists, as a
driver's manual would print them, and what the index makes of them over a DATA IN phase.
-/

namespace Wish5380.Targ

/-! ## The responses -/

/-- The `n` bytes of a vector, most significant first. -/
def msbBytes {w : ℕ} (v : BitVec w) (n : ℕ) : List Byte :=
  (List.range n).map (msbByte v n)

/-- What a target keeps for REQUEST SENSE. -/
structure Sense where
  key : BitVec 4
  asc : Byte
  ascq : Byte
  info : BitVec 32
  deriving DecidableEq, Repr

def noSense : Sense :=
  ⟨skNoSense, 0, 0, 0⟩

def Seq.sense (s : Seq) : Sense :=
  ⟨s.senseKey, s.senseAsc, s.senseAscq, s.senseLba⟩

/-- Thirty-six bytes of INQUIRY data. -/
def inquiryData (p : Params) (lun : BitVec 3) : List Byte :=
  [if lun = 0 then 0x00 else 0x7f, 0, 2, 2, 31, 0, 0, 0] ++
    msbBytes p.vendor 8 ++ msbBytes p.product 16 ++ msbBytes p.revision 4

/-- Eighteen bytes of extended sense. -/
def senseData (sense : Sense) : List Byte :=
  [0x70, 0, sense.key.setWidth 8] ++ msbBytes sense.info 4 ++
    [10, 0, 0, 0, 0, sense.asc, sense.ascq, 0, 0, 0, 0]

/-- A four-byte header and one block descriptor. -/
def modeData (count : BitVec 32) : List Byte :=
  [11, 0, 0, 8, 0] ++ msbBytes (count.setWidth 24) 3 ++ [0, 0, 2, 0]

/-- The last block, and the length of one. -/
def capacityData (count : BitVec 32) : List Byte :=
  msbBytes (lastLba count) 4 ++ [0, 0, 2, 0]

/-- The full response of each kind, from the unit, the sense and the size of the medium. -/
def response (p : Params) (kind : RespKind) (lun : BitVec 3) (sense : Sense)
    (count : BitVec 32) : List Byte :=
  match kind with
  | .inquiry => inquiryData p lun
  | .sense => senseData sense
  | .mode => modeData count
  | .capacity => capacityData count
  | _ => []

/-- The byte `resp` makes of index `k`. -/
def byteAt (p : Params) (s : Seq) (count : BitVec 32) (k : ℕ) : Byte :=
  resp p { s with idx := BitVec.ofNat 10 k } count

/-- Only READ CAPACITY and MODE SENSE read the size of the medium. -/
theorem byteAt_count {p : Params} {s : Seq} (other : ¬ (s.respKind = .capacity ∨ s.respKind = .mode))
    (count count' : BitVec 32) : byteAt p s count = byteAt p s count' := by
  funext k
  rw [not_or] at other
  cases kind : s.respKind <;> simp_all [byteAt, resp]

theorem byteAt_inquiry (p : Params) {s : Seq} (kind : s.respKind = .inquiry) (count : BitVec 32) :
    (List.range 36).map (byteAt p s count) = inquiryData p s.lun := by
  have is : ∀ k, byteAt p s count k = respInquiry p s.lun (BitVec.ofNat 10 k) := by
    intro k
    simp [byteAt, resp, kind]
  rw [List.map_congr_left fun k _ => is k]
  rfl

theorem byteAt_sense (p : Params) {s : Seq} (kind : s.respKind = .sense) (count : BitVec 32) :
    (List.range 18).map (byteAt p s count) = senseData s.sense := by
  have is : ∀ k, byteAt p s count k = respSense { s with idx := BitVec.ofNat 10 k } := by
    intro k
    simp [byteAt, resp, kind]
  rw [List.map_congr_left fun k _ => is k]
  rfl

theorem byteAt_capacity (p : Params) {s : Seq} (kind : s.respKind = .capacity)
    (count : BitVec 32) : (List.range 8).map (byteAt p s count) = capacityData count := by
  have is : ∀ k, byteAt p s count k = respCapacity (BitVec.ofNat 10 k) count := by
    intro k
    simp [byteAt, resp, kind]
  rw [List.map_congr_left fun k _ => is k]
  rfl

/-- The three low bytes of a word are its bytes 1 to 3. -/
theorem msbBytes_low (count : BitVec 32) :
    msbBytes (count.setWidth 24) 3 = [msbByte count 4 1, msbByte count 4 2, msbByte count 4 3] := by
  have byte : ∀ i < 3, msbByte (count.setWidth 24) 3 i = msbByte count 4 (i + 1) := by
    intro i below
    apply BitVec.eq_of_getLsbD_eq
    intro j inside
    have within : 8 * (3 - 1 - i) + j < 24 := by omega
    have same : 4 - 1 - (i + 1) = 3 - 1 - i := by omega
    simp [msbByte, inside, within, same]
  have first := byte 0 (by decide)
  have second := byte 1 (by decide)
  have third := byte 2 (by decide)
  simp [msbBytes, List.range_succ, first, second, third]

theorem byteAt_mode (p : Params) {s : Seq} (kind : s.respKind = .mode) (count : BitVec 32) :
    (List.range 12).map (byteAt p s count) = modeData count := by
  have is : ∀ k, byteAt p s count k = respMode (BitVec.ofNat 10 k) count := by
    intro k
    simp [byteAt, resp, kind]
  rw [List.map_congr_left fun k _ => is k, modeData, msbBytes_low]
  rfl

/-! ## One DATA IN phase -/

/-- The byte of DATA IN the initiator takes in cycle `t`. -/
def received (p : Params) (x : ℕ → State) (input : ℕ → Cycle) (t : ℕ) : List Byte :=
  if (out p x input t).req && (input t).bus.ack && (out p x input t).phase == phDataIn then
    [(out p x input t).data]
  else []

namespace Seq

/-- How many bytes have been handed over, as the index and the handshake tell it. -/
def handed (s : Seq) : ℕ :=
  s.idx.toNat + if s.hs = .setup ∨ s.hs = .req then 0 else 1

/-- A generated response is under way that began in `first`. -/
structure Answering (first s : Seq) : Prop where
  st : s.st = .datain
  same : s = { first with hs := s.hs, idx := s.idx }
  inside : s.idx < first.xferLen

/-- A generated response that began in `first` is over. -/
def AnswerOver (first s : Seq) : Prop :=
  s = { first with st := .status, hs := .setup, idx := 0 }

variable {p : Params} {first s t : Seq} {c : Cycle}

theorem idx_succ {i n : BitVec 10} (inside : i < n) : (i + 1).toNat = i.toNat + 1 := by
  have low : i.toNat < n.toNat := inside
  have bound := n.isLt
  rw [BitVec.toNat_add]
  exact Nat.mod_eq_of_lt (by simp; omega)

theorem datainReleased_on (on : s.datainReleased.st = .datain) :
    s.datainReleased.hs = .setup ∧ s.datainReleased.idx = s.idx + 1 := by
  unfold datainReleased at on ⊢
  split_ifs at on ⊢
  exact ⟨rfl, rfl⟩

theorem Answering.edge (answering : Answering first s) (edge : Edge p s c t)
    (pin : c.rst = false) (rst : c.bus.rst = false) (quiet : first.blkStart = false)
    (kind : first.respKind ≠ .media) :
    (Answering first t ∧ t.handed = s.handed +
        if s.hs = .req ∧ c.bus.ack = true then 1 else 0) ∨
      (AnswerOver first t ∧ s.handed = first.xferLen.toNat ∧ s.hs ≠ .req) := by
  obtain ⟨st, same, inside⟩ := answering
  have still : s.blkStart = false := by
    rw [same]
    exact quiet
  have other : s.respKind ≠ .media := by
    rw [same]
    exact kind
  have length : s.xferLen = first.xferLen := by rw [same]
  have keeps : ∀ h i, ({ s with blkStart := false, hs := h, idx := i } : Seq) =
      { first with hs := h, idx := i } := by
    intro h i
    rw [same]
    simp [quiet]
  cases edge with
  | raise _ _ _ hs => exact .inl ⟨⟨st, keeps _ _, inside⟩, by simp [handed, hs]⟩
  | keep _ _ _ waits =>
      refine .inl ⟨⟨st, keeps _ _, inside⟩, ?_⟩
      rcases waits with ⟨hs, ack⟩ | ⟨lets, ack⟩
      · simp [handed, hs, ack]
      · simp [handed, lets.2]
  | hand _ _ _ hs ack => exact .inl ⟨⟨st, keeps _ _, inside⟩, by simp [handed, hs, ack]⟩
  | more _ _ _ lets ack within =>
      rw [if_neg (by simp [st]), length] at within
      have step := idx_succ inside
      refine .inl ⟨⟨st, keeps _ _, ?_⟩, ?_⟩
      · have apart : (s.idx + 1).toNat ≠ first.xferLen.toNat := fun eq =>
          within (BitVec.eq_of_toNat_eq eq)
        have low : s.idx.toNat < first.xferLen.toNat := inside
        show (s.idx + 1).toNat < first.xferLen.toNat
        omega
      · rw [handed, handed, if_pos (.inl rfl), if_neg (by simp [lets.1, lets.2]), step,
          if_neg (by simp [lets.2])]
  | moved _ _ _ lets ack last =>
      rw [length] at last
      have step := idx_succ inside
      rw [last] at step
      refine .inr ⟨?_, by simp [handed, step, lets.1, lets.2], lets.2⟩
      exact congrArg (fun t : Seq => { t with st := .status }) (keeps .setup 0)
  | fetch _ _ _ _ _ _ media => exact absurd media other
  | pend _ _ waits => rcases waits with at_ | at_ <;> simp [at_] at st
  | fault _ _ waits => rcases waits with at_ | at_ <;> simp [at_] at st
  | _ =>
      clear same keeps
      simp_all

end Seq

section Run

variable {p : Params} {x : ℕ → State} {input : ℕ → Cycle} {first : Seq} {count : BitVec 32}
  {s : State} {t u : ℕ}

/-- What the initiator takes in a cycle of a generated response. -/
theorem received_answering (answering : Seq.Answering first (x u).seq)
    (kind : first.respKind ≠ .media)
    (reads : byteAt p first (input u).blk.count = byteAt p first count) :
    received p x input u = if (x u).seq.hs = .req ∧ (input u).bus.ack = true then
      [byteAt p first count (x u).seq.idx.toNat] else [] := by
  obtain ⟨st, same, _⟩ := answering
  have up : (x u).seq.connected = true := by simp [Seq.connected, st]
  have phase : (x u).seq.phase = phDataIn := by simp [Seq.phase, st]
  have other : (x u).seq.respKind ≠ .media := by
    rw [same]
    exact kind
  have data : (out p x input u).data = byteAt p first count (x u).seq.idx.toNat := by
    have resp_eq : resp p (x u).seq (input u).blk.count =
        byteAt p first count (x u).seq.idx.toNat := by
      rw [← reads, byteAt, BitVec.ofNat_toNat, BitVec.setWidth_eq, same]
      rfl
    simp [out, drive, Seq.driveBus, up, phase, dataOut, st, other, resp_eq]
  have seen : (out p x input u).phase = phDataIn := (drive_phase _ up).trans phase
  have asks : (out p x input u).req = ((x u).seq.hs == .req) := by
    simp [out, drive, Seq.req, up]
  simp [received, asks, seen, data]

/-- A response under way has handed over as many bytes as the index says. -/
structure Underway (p : Params) (x : ℕ → State) (input : ℕ → Cycle) (first : Seq)
    (count : BitVec 32) (t u : ℕ) : Prop where
  later : t ≤ u
  answering : Seq.Answering first (x u).seq
  within : ∀ v, t ≤ v → v ≤ u → (x v).seq.st = .datain
  bytes : Clocked.trace (received p x input) t u =
    (List.range (x u).seq.handed).map (byteAt p first count)

/-- A response that has been handed over. -/
structure HandedOver (p : Params) (x : ℕ → State) (input : ℕ → Cycle) (first : Seq)
    (count : BitVec 32) (t u : ℕ) : Prop where
  later : t ≤ u
  after : Seq.AnswerOver first (x u).seq
  within : ∀ v, t ≤ v → v < u → (x v).seq.st = .datain
  bytes : Clocked.trace (received p x input) t u =
    (List.range first.xferLen.toNat).map (byteAt p first count)

theorem Underway.succ (underway : Underway p (run p s input) input first count t u)
    (pin : (input u).rst = false) (rst : (input u).bus.rst = false)
    (reads : byteAt p first (input u).blk.count = byteAt p first count)
    (quiet : first.blkStart = false) (kind : first.respKind ≠ .media) :
    Underway p (run p s input) input first count t (u + 1) ∨
      HandedOver p (run p s input) input first count t (u + 1) := by
  obtain ⟨later, answering, within, bytes⟩ := underway
  have edge := Seq.clock_edge p (run p s input u).seq (input u)
  have shown := Clocked.trace_succ (received p (run p s input) input) later
  rw [received_answering answering kind reads, bytes] at shown
  rcases answering.edge edge pin rst quiet kind with ⟨next, handed⟩ | ⟨done, handed, low⟩
  · refine .inl ⟨Nat.le_succ_of_le later, next, fun v low high => ?_, ?_⟩
    · rcases Nat.lt_or_eq_of_le high with before | rfl
      · exact within v low (Nat.lt_succ_iff.mp before)
      · exact next.st
    · rw [shown]
      have grows : (run p s input (u + 1)).seq.handed = _ := handed
      rw [grows]
      split_ifs with taken
      · have here : (run p s input u).seq.handed = (run p s input u).seq.idx.toNat := by
          simp [Seq.handed, taken.1]
        rw [here, List.range_succ, List.map_append]
        rfl
      · simp
  · refine .inr ⟨Nat.le_succ_of_le later, done, fun v low high => ?_, ?_⟩
    · exact within v low (Nat.lt_succ_iff.mp high)
    · rw [shown, if_neg (by simp [low]), List.append_nil, handed]

/-- Some cycles on, the response is still under way or has been handed over. -/
theorem Underway.forward (underway : Underway p (run p s input) input first count t u)
    (quiet : first.blkStart = false) (kind : first.respKind ≠ .media) (d : ℕ)
    (calm : ∀ v, u ≤ v → v < u + d → (input v).rst = false ∧ (input v).bus.rst = false ∧
      byteAt p first (input v).blk.count = byteAt p first count) :
    Underway p (run p s input) input first count t (u + d) ∨
      ∃ w, u < w ∧ w ≤ u + d ∧ HandedOver p (run p s input) input first count t w := by
  induction d with
  | zero => exact .inl underway
  | succ d ih =>
      rcases ih fun v low high => calm v low (by omega) with on | ⟨w, low, high, done⟩
      · obtain ⟨pin, rst, reads⟩ := calm (u + d) (by omega) (by omega)
        rcases on.succ pin rst reads quiet kind with next | done
        · exact .inl next
        · exact .inr ⟨u + d + 1, by omega, by omega, done⟩
      · exact .inr ⟨w, low, by omega, done⟩

/-- An initiator that completes every handshake gets the whole response. -/
theorem Underway.finishes {since : ℕ} (patient : Patient (run p s input) input since)
    (reads : ∀ v, since ≤ v → byteAt p first (input v).blk.count = byteAt p first count)
    (quiet : first.blkStart = false) (kind : first.respKind ≠ .media) (n : ℕ)
    (underway : Underway p (run p s input) input first count t u) (later : since ≤ u)
    (setup : (run p s input u).seq.hs = .setup)
    (left : first.xferLen.toNat - (run p s input u).seq.idx.toNat = n) :
    ∃ w, HandedOver p (run p s input) input first count t w := by
  induction n generalizing u with
  | zero =>
      have inside : (run p s input u).seq.idx.toNat < first.xferLen.toNat :=
        underway.answering.inside
      omega
  | succ n ih =>
      obtain ⟨st, same, inside⟩ := underway.answering
      have still : (run p s input u).seq.blkStart = false := by
        rw [same]
        exact quiet
      obtain ⟨a, r, moved⟩ := byteMoved patient later (.inl st) still setup
      have asked := moved.asked
      have freed := moved.freed
      have calm : ∀ v, u ≤ v → v < u + (r + 1 - u) → (input v).rst = false ∧
          (input v).bus.rst = false ∧ byteAt p first (input v).blk.count = byteAt p first count := by
        intro v low _
        exact ⟨patient.pin v (by omega), patient.rst v (by omega), reads v (by omega)⟩
      rcases underway.forward quiet kind (r + 1 - u) calm with on | ⟨w, _, _, done⟩
      · rw [show u + (r + 1 - u) = r + 1 by omega] at on
        have next : (run p s input (r + 1)).seq =
            Seq.datainReleased { (run p s input u).seq with hs := .rel } := by
          rw [moved.after]
          simp [Seq.released, st]
        obtain ⟨fresh, up⟩ := Seq.datainReleased_on (next ▸ on.answering.st)
        have step := Seq.idx_succ inside
        refine ih on (by omega) (by rw [next]; exact fresh) ?_
        rw [next, up, step]
        omega
      · exact ⟨w, done⟩

end Run

/-! ## The commands -/

namespace Seq

variable {s : Seq} {kind : RespKind} {len : BitVec 10}

theorem stepExec_generates (which : Generates s kind len) (blk : BlkRsp) :
    s.stepExec blk = s.execDefaults.respond kind len := by
  cases which with
  | inquiry op => simp [stepExec, execOp, op]
  | sense op => simp [stepExec, execOp, op]
  | mode op lun => simp [stepExec, execOp, op, lun]

theorem stepExec_capacity {blk : BlkRsp} (op : s.op = cReadCapacity) (lun : s.lun = 0)
    (ready : blk.ready = true) :
    s.stepExec blk = { s.execDefaults with respKind := .capacity, xferLen := 8, st := .datain } := by
  simp [stepExec, execOp, op, lun, ready]

theorem Generates.len_toNat (which : Generates s kind len) (p : Params) (count : BitVec 32) :
    len.toNat = (response p kind s.lun s.sense count).length := by
  cases which <;> rfl

/-- A command has just been turned into a response of `xferLen` bytes. -/
structure Responds (s first : Seq) : Prop where
  hs : first.hs = .setup
  idx : first.idx = 0
  quiet : first.blkStart = false
  good : first.status = stGood
  kind : first.respKind ≠ .media
  place : first.st = .datain ∧ 0 < first.xferLen ∨ first.st = .status ∧ first.xferLen = 0
  lun : first.lun = s.lun
  sense : first.respKind = .sense → first.sense = s.sense

theorem execDefaults_sense (op : s.op = cRequestSense) : s.execDefaults.sense = s.sense := by
  unfold execDefaults
  rw [if_pos op]
  rfl

theorem Generates.responds (which : Generates s kind len) (quiet : s.blkStart = false) :
    Responds s (s.execDefaults.respond kind len) where
  hs := execDefaults_hs s
  idx := execDefaults_idx s
  quiet := (execDefaults_blkStart s).trans quiet
  good := execDefaults_status s
  kind := by cases which <;> simp [respond]
  place := by
    by_cases none : s.allocLen = 0
    · right
      cases which <;> simp [respond, none]
    · left
      have some : 0 < s.allocLen := by
        rw [BitVec.lt_def]
        exact Nat.pos_of_ne_zero fun zero => none (BitVec.eq_of_toNat_eq zero)
      have positive : (0 : BitVec 10) < len := by cases which <;> decide
      simp only [respond, execDefaults_allocLen, none, if_false, true_and]
      split_ifs
      · exact some
      · exact positive
  lun := execDefaults_lun s
  sense := by
    intro sense
    cases which with
    | inquiry => cases sense
    | sense op => exact execDefaults_sense op
    | mode => cases sense

theorem respond_xferLen (kind : RespKind) (len : BitVec 10) :
    (s.execDefaults.respond kind len).xferLen.toNat = min s.allocLen.toNat len.toNat := by
  simp only [respond, execDefaults_allocLen]
  split_ifs with short
  · have low : s.allocLen.toNat < len.toNat := short
    omega
  · have high : ¬ s.allocLen.toNat < len.toNat := short
    omega

/-- The bytes a response is made of, cut at any length. -/
theorem byteAt_take (p : Params) (count : BitVec 32) {full : List Byte} {n : ℕ}
    (whole : (List.range full.length).map (byteAt p s count) = full) (short : n ≤ full.length) :
    (List.range n).map (byteAt p s count) = full.take n := by
  rw [← whole, ← List.map_take, List.take_range]
  simp [short]

end Seq

/-- From `S_EXEC` in cycle `t` to bus free: the bytes of DATA IN, GOOD status and COMMAND
COMPLETE, and no DATA IN at all when there are no bytes. -/
def Delivers (p : Params) (x : ℕ → State) (input : ℕ → Cycle) (t : ℕ) (bytes : List Byte) : Prop :=
  ∃ u, t < u ∧ (bytes = [] → u = t + 1) ∧
    (∀ v, t < v → v < u → (x v).seq.st = .datain) ∧ (x u).seq.st = .status ∧
    Clocked.trace (received p x input) (t + 1) u = bytes ∧
    ∃ w, (x w).seq.st = .free ∧
      Clocked.Stretch (shows p x input) (fun v => (x v).seq.connected = true) u w
        [.status stGood, .message mCommandComplete]

section Command

variable {p : Params} {s : State} {input : ℕ → Cycle} {t : ℕ} {count : BitVec 32}

theorem Seq.Responds.underway (responds : Seq.Responds (run p s input t).seq
      (run p s input (t + 1)).seq) (st : (run p s input (t + 1)).seq.st = .datain)
    (some : 0 < (run p s input (t + 1)).seq.xferLen) :
    Underway p (run p s input) input (run p s input (t + 1)).seq count (t + 1) (t + 1) := by
  have handed : (run p s input (t + 1)).seq.handed = 0 := by
    simp [Seq.handed, responds.hs, responds.idx]
  refine ⟨Nat.le_refl _, ⟨st, rfl, ?_⟩, fun v low high => ?_, ?_⟩
  · rw [responds.idx]
    exact some
  · obtain rfl : v = t + 1 := by omega
    exact st
  · simp [handed]

theorem delivers_of_responds (patient : Patient (run p s input) input t)
    (reads : ∀ v, t ≤ v → byteAt p (run p s input (t + 1)).seq (input v).blk.count =
      byteAt p (run p s input (t + 1)).seq count)
    (responds : Seq.Responds (run p s input t).seq (run p s input (t + 1)).seq) :
    Delivers p (run p s input) input t ((List.range (run p s input (t + 1)).seq.xferLen.toNat).map
      (byteAt p (run p s input (t + 1)).seq count)) := by
  have after := patient.later (Nat.le_succ t)
  rcases responds.place with ⟨st, some⟩ | ⟨st, none⟩
  · have underway : Underway p (run p s input) input (run p s input (t + 1)).seq count
        (t + 1) (t + 1) := responds.underway st some
    obtain ⟨u, later, over_, within, bytes⟩ := underway.finishes after
      (fun v low => reads v (by omega)) responds.quiet responds.kind _ (Nat.le_refl _)
      responds.hs rfl
    have is : (run p s input u).seq = _ := over_
    have ending : (run p s input u).seq.Ending := by
      rw [is]
      exact ⟨rfl, rfl, responds.quiet, responds.good⟩
    obtain ⟨w, free, _, shown⟩ := command_ends after later ending
    refine ⟨u, by omega, fun empty => ?_, fun v low high => within v low high, ending.st_eq, bytes,
      w, free, shown⟩
    have positive : 0 < (run p s input (t + 1)).seq.xferLen.toNat := some
    have none := congrArg List.length empty
    simp at none
    omega
  · have ending : (run p s input (t + 1)).seq.Ending :=
      ⟨st, responds.hs, responds.quiet, responds.good⟩
    obtain ⟨w, free, _, shown⟩ := command_ends after (Nat.le_refl _) ending
    refine ⟨t + 1, Nat.lt_succ_self t, fun _ => rfl, fun v low high => ?_, st, ?_, w, free, shown⟩
    · omega
    · simp [none]

/-- INQUIRY, REQUEST SENSE and MODE SENSE. -/
theorem delivers_generated {kind : RespKind} {len : BitVec 10}
    (patient : Patient (run p s input) input t)
    (steady : kind = .mode → ∀ v, t ≤ v → (input v).blk.count = count)
    (exec : (run p s input t).seq.st = .exec)
    (which : Seq.Generates (run p s input t).seq kind len) :
    Delivers p (run p s input) input t
      ((response p kind (run p s input t).seq.lun (run p s input t).seq.sense count).take
        (min (cdbByte (run p s input t).seq.cdb 4).toNat len.toNat)) := by
  have which' : Seq.Generates (run p s input t).seq.endPulse kind len := by
    cases which with
    | inquiry op => exact .inquiry op
    | sense op => exact .sense op
    | mode op lun => exact .mode op lun
  have next : (run p s input (t + 1)).seq =
      (run p s input t).seq.endPulse.execDefaults.respond kind len := by
    rw [run_seq_exec patient exec, Seq.stepExec_generates which']
  have responds : Seq.Responds (run p s input t).seq (run p s input (t + 1)).seq := by
    rw [next]
    have after := which'.responds rfl
    exact ⟨after.hs, after.idx, after.quiet, after.good, after.kind, after.place, after.lun,
      after.sense⟩
  have length := which.len_toNat p count
  have alloc : (run p s input t).seq.allocLen.toNat =
      (cdbByte (run p s input t).seq.cdb 4).toNat := by
    have byte := (cdbByte (run p s input t).seq.cdb 4).isLt
    simp only [Seq.allocLen, BitVec.toNat_setWidth]
    omega
  have cut : (run p s input (t + 1)).seq.xferLen.toNat =
      min (cdbByte (run p s input t).seq.cdb 4).toNat len.toNat := by
    rw [next, Seq.respond_xferLen, ← alloc]
    rfl
  have is : (run p s input (t + 1)).seq.respKind = kind := by
    rw [next]
    rfl
  have whole : (List.range (response p kind (run p s input t).seq.lun (run p s input t).seq.sense
      count).length).map (byteAt p (run p s input (t + 1)).seq count) =
        response p kind (run p s input t).seq.lun (run p s input t).seq.sense count := by
    rw [← responds.lun]
    cases which with
    | inquiry => exact byteAt_inquiry p is count
    | sense =>
        rw [← responds.sense is]
        exact byteAt_sense p is count
    | mode => exact byteAt_mode p is count
  have reads : ∀ v, t ≤ v → byteAt p (run p s input (t + 1)).seq (input v).blk.count =
      byteAt p (run p s input (t + 1)).seq count := by
    intro v low
    cases which with
    | inquiry => exact byteAt_count (fun off => by simp [is] at off) _ _
    | sense => exact byteAt_count (fun off => by simp [is] at off) _ _
    | mode => rw [steady rfl v low]
  have delivers := delivers_of_responds patient reads responds
  rwa [Seq.byteAt_take p count whole (by omega), cut] at delivers

/-- READ CAPACITY. -/
theorem delivers_capacity (patient : Patient (run p s input) input t)
    (counts : ∀ v, t ≤ v → (input v).blk.count = count)
    (exec : (run p s input t).seq.st = .exec) (op : (run p s input t).seq.op = cReadCapacity)
    (lun : (run p s input t).seq.lun = 0) (ready : (input t).blk.ready = true) :
    Delivers p (run p s input) input t (capacityData count) := by
  have next : (run p s input (t + 1)).seq = { (run p s input t).seq.endPulse.execDefaults with
      respKind := .capacity, xferLen := 8, st := .datain } := by
    rw [run_seq_exec patient exec]
    exact Seq.stepExec_capacity op lun ready
  have responds : Seq.Responds (run p s input t).seq (run p s input (t + 1)).seq := by
    rw [next]
    exact ⟨Seq.execDefaults_hs _, Seq.execDefaults_idx _, Seq.execDefaults_blkStart _,
      Seq.execDefaults_status _, nofun, .inl ⟨rfl, show (0 : BitVec 10) < 8 by decide⟩,
      Seq.execDefaults_lun _, nofun⟩
  have kind : (run p s input (t + 1)).seq.respKind = .capacity := by rw [next]
  have delivers := delivers_of_responds patient (fun v low => by rw [counts v low]) responds
  have length : (run p s input (t + 1)).seq.xferLen.toNat = 8 := by
    rw [next]
    rfl
  rwa [length, byteAt_capacity p kind count] at delivers

end Command

/-- What the responses look like. -/
structure Formats (p : Params) : Prop where
  inquiry : ∀ lun, (inquiryData p lun).length = 36 ∧
    ((inquiryData p lun).drop 8).take 8 = msbBytes p.vendor 8 ∧
    ((inquiryData p lun).drop 16).take 16 = msbBytes p.product 16 ∧
    (inquiryData p lun).drop 32 = msbBytes p.revision 4 ∧
    (inquiryData p lun)[4]? = some (BitVec.ofNat 8 (36 - 5))
  sense : ∀ sense, (senseData sense).length = 18 ∧
    (senseData sense)[2]? = some (sense.key.setWidth 8) ∧
    ((senseData sense).drop 3).take 4 = msbBytes sense.info 4 ∧
    ((senseData sense).drop 12).take 2 = [sense.asc, sense.ascq] ∧
    (senseData sense)[7]? = some (BitVec.ofNat 8 (18 - 8))
  mode : ∀ count, (modeData count).length = 12 ∧
    ((modeData count).drop 5).take 3 = msbBytes (count.setWidth 24) 3 ∧
    (modeData count)[0]? = some (BitVec.ofNat 8 (12 - 1))
  capacity : ∀ count, (capacityData count).length = 8 ∧
    (capacityData count).take 4 = msbBytes (lastLba count) 4

/-- The generated responses are delivered as the lists say, cut at the allocation length. -/
theorem responses_exact (p : Params) (s : State) (input : ℕ → Cycle) (t : ℕ) (count : BitVec 32)
    (patient : Patient (run p s input) input t)
    (counts : ∀ v, t ≤ v → (input v).blk.count = count)
    (exec : (run p s input t).seq.st = .exec) :
    Formats p ∧
    (∀ kind len, Seq.Generates (run p s input t).seq kind len →
      len.toNat = (response p kind (run p s input t).seq.lun (run p s input t).seq.sense
        count).length ∧
      Delivers p (run p s input) input t
        ((response p kind (run p s input t).seq.lun (run p s input t).seq.sense count).take
          (min (cdbByte (run p s input t).seq.cdb 4).toNat len.toNat))) ∧
    ((run p s input t).seq.op = cReadCapacity → (run p s input t).seq.lun = 0 →
      (input t).blk.ready = true → Delivers p (run p s input) input t (capacityData count)) := by
  refine ⟨?_, ?_, ?_⟩
  · exact ⟨fun _ => ⟨rfl, rfl, rfl, rfl, rfl⟩, fun _ => ⟨rfl, rfl, rfl, rfl, rfl⟩,
      fun _ => ⟨rfl, rfl, rfl⟩, fun _ => ⟨rfl, rfl⟩⟩
  · intro kind len which
    exact ⟨which.len_toNat p count, delivers_generated patient (fun _ => counts) exec which⟩
  · exact delivers_capacity patient counts exec

/-- A target that is about to carry out an INQUIRY for five bytes. -/
def atInquiry : State :=
  ⟨{ st := .exec, cdb := 0x0500000012 }, .blank⟩

/-- A prompt initiator gets the first five bytes of the INQUIRY data. -/
theorem five_bytes_of_inquiry :
    Delivers {} (run {} atInquiry (promptInput 0 atInquiry)) (promptInput 0 atInquiry) 0
      [0x00, 0x00, 0x02, 0x02, 31] := by
  have whole := responses_exact {} atInquiry (promptInput 0 atInquiry) 0 2048
    (promptInput_fair 0 atInquiry).patient (fun _ _ => rfl) rfl
  exact (whole.2.1 .inquiry 36 (.inquiry (by decide))).2

end Wish5380.Targ
