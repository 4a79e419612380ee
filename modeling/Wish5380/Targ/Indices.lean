import Wish5380.Clocked.Streak
import Wish5380.Targ.Protocol

/-!
# The byte counter

Every phase ends when a ten-bit counter is equal to a length.  The counter is below the
length in every phase that has one, so the test is met; it never leaves the descriptor
block, nor the sector buffer.
-/

namespace Wish5380.Targ

namespace Seq

variable {p : Params} {s t : Seq} {c : Cycle}

/-! ## What the counter is held to -/

/-- The counter in a data phase: a sector, or a shorter response or parameter list. -/
structure Spans (idx len : BitVec 10) (kind : RespKind) : Prop where
  some : 0 < len.toNat
  most : len.toNat ≤ 512
  below : idx.toNat < len.toNat
  media : kind = .media → len = 512

theorem Spans.of_zero {idx : BitVec 10} (len : BitVec 10) {kind : RespKind} (zero : idx = 0)
    (some : 0 < len.toNat) (most : len.toNat ≤ 512) (media : kind = .media → len = 512) :
    Spans idx len kind := by
  subst zero
  exact ⟨some, most, some, media⟩

/-- The counter in the wait for a block. -/
structure Pends (idx len : BitVec 10) (kind : RespKind) : Prop where
  idx : idx = 0
  len : len = 512
  media : kind = .media

theorem Pends.spans {idx len : BitVec 10} {kind : RespKind} (pends : Pends idx len kind) :
    Spans 0 len kind := by
  obtain ⟨-, rfl, -⟩ := pends
  exact .of_zero 512 rfl (by decide) (by decide) fun _ => rfl

/-- The counter, by the phase. -/
def Counts (s : Seq) : Prop :=
  match s.st with
  | .cmd => s.idx.toNat < s.cdbLen.toNat
  | .datain => Spans s.idx s.xferLen s.respKind
  | .dataout => Spans s.idx s.xferLen s.respKind
  | .rdwait => Pends s.idx s.xferLen s.respKind
  | .wrwait => Pends s.idx s.xferLen s.respKind
  | _ => True

theorem Counts.command (counts : s.Counts) (st : s.st = .cmd) : s.idx.toNat < s.cdbLen.toNat := by
  rwa [Counts, st] at counts

theorem Counts.spans (counts : s.Counts) (st : s.st = .datain ∨ s.st = .dataout) :
    Spans s.idx s.xferLen s.respKind := by
  rcases st with st | st <;> rwa [Counts, st] at counts

theorem Counts.pends (counts : s.Counts) (st : s.st = .rdwait ∨ s.st = .wrwait) :
    Pends s.idx s.xferLen s.respKind := by
  rcases st with st | st <;> rwa [Counts, st] at counts

theorem Counts.of_command (st : s.st = .cmd) (below : s.idx.toNat < s.cdbLen.toNat) :
    s.Counts := by
  rwa [Counts, st]

theorem Counts.of_spans (st : s.st = .datain ∨ s.st = .dataout)
    (spans : Spans s.idx s.xferLen s.respKind) : s.Counts := by
  rcases st with st | st <;> rwa [Counts, st]

/-- The length of a descriptor block is one of three. -/
def KnownLength (len : BitVec 4) : Prop :=
  len = 6 ∨ len = 10 ∨ len = 12

structure Indexed (s : Seq) : Prop where
  length : KnownLength s.cdbLen
  small : s.idx.toNat < 512
  counts : s.Counts
  named : s.hs ≠ .h3

theorem KnownLength.bounds {len : BitVec 4} (known : KnownLength len) :
    6 ≤ len.toNat ∧ len.toNat ≤ 12 := by
  rcases known with is | is | is <;> rw [is] <;> decide

theorem lenOfOp_known (op : Byte) : KnownLength (lenOfOp op) := by
  unfold lenOfOp KnownLength
  split <;> decide

/-! ## `S_EXEC` -/

theorem allocLen_toNat (s : Seq) : s.allocLen.toNat < 256 := by
  have byte := (cdbByte s.cdb 4).isLt
  simp only [allocLen, BitVec.toNat_setWidth]
  omega

theorem allocLen_pos (some : s.allocLen ≠ 0) : 0 < s.allocLen.toNat := by
  rw [Nat.pos_iff_ne_zero]
  intro zero
  exact some (BitVec.eq_of_toNat_eq zero)

theorem execDefaults_cdbLen (s : Seq) : s.execDefaults.cdbLen = s.cdbLen := by
  unfold execDefaults
  split <;> rfl

/-- A response has a byte and no more than a sector. -/
theorem Generates.spans {kind : RespKind} {len : BitVec 10} (which : Generates s kind len)
    (some : s.allocLen ≠ 0) :
    let cut := if s.allocLen < len then s.allocLen else len
    0 < cut.toNat ∧ cut.toNat ≤ 512 ∧ kind ≠ .media := by
  have positive := allocLen_pos some
  have short := allocLen_toNat s
  cases which <;> dsimp only <;> split_ifs <;> simp <;> omega

/-- What `S_EXEC` leaves of the counter. -/
structure Decided (s t : Seq) : Prop where
  length : t.cdbLen = s.cdbLen
  idx : t.idx = 0
  hs : t.hs = .setup
  counts : t.Counts

theorem Decides.decided {blk : BlkRsp} (decides : Decides s blk t) : Decided s t := by
  have length := execDefaults_cdbLen s
  have idx := execDefaults_idx s
  have hs := execDefaults_hs s
  cases decides with
  | refuse => exact ⟨length, idx, hs, trivial⟩
  | respond which some =>
      obtain ⟨positive, short, other⟩ := which.spans some
      exact ⟨length, idx, hs, .of_zero _ idx positive short fun media => absurd media other⟩
  | nothing => exact ⟨length, idx, hs, trivial⟩
  | capacity => exact ⟨length, idx, hs, .of_zero 8 idx (by decide) (by decide) nofun⟩
  | succeed => exact ⟨length, idx, hs, trivial⟩
  | select op some =>
      have short := allocLen_toNat s
      have none : s.execDefaults.respKind = .none := execDefaults_respKind s
      refine ⟨length, idx, hs, .of_zero _ idx (allocLen_pos some) ?_ fun media => ?_⟩
      · exact Nat.le_of_lt (Nat.lt_trans short (by decide))
      · exact absurd (none.symm.trans media) nofun
  | read => exact ⟨length, idx, hs, ⟨idx, rfl, rfl⟩⟩
  | write => exact ⟨length, idx, hs, .of_zero 512 idx (by decide) (by decide) fun _ => rfl⟩

/-! ## Every edge -/

theorem reset_indexed : Seq.reset.Indexed :=
  ⟨.inl rfl, by decide, trivial, by decide⟩

theorem Edge.length (edge : Edge p s c t) (known : KnownLength s.cdbLen) :
    KnownLength t.cdbLen := by
  cases edge with
  | pin => exact .inl rfl
  | take =>
      dsimp only
      split_ifs
      · exact lenOfOp_known c.bus.data
      · exact known
  | decide pin rst st decides =>
      rw [decides.decided.length]
      exact known
  | _ => exact known

theorem Edge.named (edge : Edge p s c t) (named : s.hs ≠ .h3) : t.hs ≠ .h3 := by
  cases edge with
  | decide pin rst st decides =>
      rw [decides.decided.hs]
      simp
  | watch | ignore | selected | held | keep | pend | fault | written => exact named
  | _ => simp [reset]

/-- The length the counter is compared with. -/
def len (s : Seq) : BitVec 10 :=
  if s.st = .cmd then s.cdbLen.setWidth 10 else s.xferLen

/-- The three phases that count. -/
def Counting (s : Seq) : Prop :=
  s.st = .cmd ∨ s.st = .datain ∨ s.st = .dataout

theorem len_of_cmd (st : s.st = .cmd) : s.len.toNat = s.cdbLen.toNat := by
  have narrow := s.cdbLen.isLt
  rw [len, if_pos st, BitVec.toNat_setWidth]
  exact Nat.mod_eq_of_lt (by omega)

theorem len_of_data (st : s.st = .datain ∨ s.st = .dataout) : s.len = s.xferLen := by
  rcases st with st | st <;> rw [len, if_neg (by simp [st])]

theorem Indexed.below (indexed : s.Indexed) (counting : s.Counting) :
    s.idx.toNat < s.len.toNat ∧ s.len.toNat ≤ 512 := by
  have bounds := indexed.length.bounds
  rcases counting with st | st
  · rw [len_of_cmd st]
    exact ⟨indexed.counts.command st, by omega⟩
  · have spans := indexed.counts.spans st
    rw [len_of_data st]
    exact ⟨spans.below, spans.most⟩

/-- The counter does not wrap, so the test compares the numbers. -/
theorem Indexed.last_iff (indexed : s.Indexed) :
    (s.idx + 1).toNat = s.idx.toNat + 1 ∧ (s.idx + 1 = s.len ↔ s.idx.toNat + 1 = s.len.toNat) := by
  have small := indexed.small
  have counted : (s.idx + 1).toNat = s.idx.toNat + 1 := by
    rw [BitVec.toNat_add]
    exact Nat.mod_eq_of_lt (show s.idx.toNat + 1 < 1024 by omega)
  refine ⟨counted, ?_⟩
  rw [← counted]
  exact BitVec.toNat_inj.symm

theorem Edge.indexed (edge : Edge p s c t) (indexed : s.Indexed) : t.Indexed := by
  have bounds := indexed.length.bounds
  have first : 0 < s.cdbLen.toNat := by omega
  have zero : (0 : BitVec 10).toNat < 512 := by decide
  have further (counting : s.Counting) (inside : s.idx + 1 ≠ s.len) :
      (s.idx + 1).toNat < s.len.toNat ∧ s.len.toNat ≤ 512 := by
    obtain ⟨counted, last⟩ := indexed.last_iff
    obtain ⟨below, most⟩ := indexed.below counting
    rw [Ne, last] at inside
    omega
  refine ⟨edge.length indexed.length, ?_, ?_, edge.named indexed.named⟩
  case refine_1 =>
    cases edge with
    | pin | selected | attends | begins | command | execute | filled | drained | fetch | store
      | moved => exact zero
    | decide pin rst st decides =>
        rw [decides.decided.idx]
        exact zero
    | more pin rst counting lets ack inside =>
        obtain ⟨below, most⟩ := further counting inside
        exact Nat.lt_of_lt_of_le below most
    | _ => exact indexed.small
  case refine_2 =>
    have counts := indexed.counts
    cases edge with
    | pin | busReset | selected | attends | abort | execute | fault | written | moved | status
      | message | consume | free => trivial
    | begins => exact .of_command rfl first
    | command => exact .of_command rfl first
    | take pin rst st =>
        refine .of_command st ?_
        dsimp only
        split_ifs with opcode
        · rw [opcode]
          have known := (lenOfOp_known c.bus.data).bounds
          exact Nat.lt_of_lt_of_le (by decide) known.1
        · exact counts.command st
    | decide pin rst st decides => exact decides.decided.counts
    | more pin rst counting lets ack inside =>
        obtain ⟨below, -⟩ := further counting inside
        rcases counting with st | st
        · rw [len_of_cmd st] at below
          exact .of_command st below
        · have spans := counts.spans st
          rw [len_of_data st] at below
          exact .of_spans st { spans with below := below }
    | filled pin rst st => exact (counts.pends (.inl st)).spans
    | drained pin rst st => exact (counts.pends (.inr st)).spans
    | fetch pin rst st lets ack last media => exact ⟨rfl, (counts.spans (.inl st)).media media, media⟩
    | store pin rst st lets ack last media => exact ⟨rfl, (counts.spans (.inr st)).media media, media⟩
    | _ => exact counts

/-- A change of phase begins a handshake. -/
theorem Edge.enters (edge : Edge p s c t) (orderly : s.Orderly) (changes : t.st ≠ s.st) :
    t.hs = .setup := by
  have rests (other : ¬ s.Transfers) : s.hs = .setup := by
    by_contra begun
    exact other (orderly.rests begun)
  cases edge with
  | decide pin rst st decides => exact decides.decided.hs
  | selected pin rst st => exact rests (by simp [Transfers, st])
  | fault pin rst st => exact rests (not_transfers_of_waits st)
  | written pin rst st => exact rests (by simp [Transfers, st])
  | watch | ignore | held | raise | keep | hear | take | hand | pend => exact absurd rfl changes
  | _ => rfl

/-- The initiator lets go of a byte. -/
def releases (s : Seq) (c : Cycle) : Bool :=
  s.hs == .rel && !c.bus.ack

theorem Lets.releases (lets : s.Lets) (named : s.hs ≠ .h3) (ack : c.bus.ack = false) :
    s.releases c = true := by
  cases hs : s.hs <;> simp_all [Seq.releases, Lets]

/-- Within a phase the counter counts the bytes. -/
theorem Edge.counted (edge : Edge p s c t) (indexed : s.Indexed) (counting : s.Counting)
    (stays : t.st = s.st) : t.idx.toNat = s.idx.toNat + (s.releases c).toNat := by
  have still (same : t.idx = s.idx) (none : s.releases c = false) :
      t.idx.toNat = s.idx.toNat + (s.releases c).toNat := by
    rw [same, none]
    rfl
  have there : t.Counting := by rwa [Counting, stays]
  cases edge with
  | raise pin rst moves hs => exact still rfl (by simp [releases, hs])
  | take pin rst st hs => exact still rfl (by simp [releases, hs])
  | hand pin rst moves hs => exact still rfl (by simp [releases, hs])
  | keep pin rst moves waits =>
      refine still rfl ?_
      rcases waits with ⟨hs, -⟩ | ⟨-, ack⟩ <;> simp [releases, *]
  | more pin rst moves lets ack =>
      rw [lets.releases indexed.named ack]
      exact indexed.last_iff.1
  | watch pin rst st | ignore pin rst st | held pin rst st | begins pin rst st | hear pin rst st
    | hearMore pin rst st | command pin rst st | decide pin rst st | filled pin rst st
    | drained pin rst st => exact absurd counting (by simp [Counting, st])
  | pend pin rst st => rcases st with st | st <;> exact absurd counting (by simp [Counting, st])
  | pin => exact absurd there (by simp [Counting, Seq.reset])
  | _ => exact absurd there (by simp [Counting])

/-- It begins at zero. -/
theorem Edge.begins_zero (edge : Edge p s c t) (counting : t.Counting) (changes : t.st ≠ s.st) :
    t.idx = 0 := by
  cases edge with
  | pin | begins | command | filled | drained => rfl
  | decide pin rst st decides => exact decides.decided.idx
  | watch | ignore | held | raise | keep | hear | take | hand | hearMore | more | pend =>
      exact absurd rfl changes
  | _ => exact absurd counting (by simp [Counting])

/-- Without a reset a phase ends with the byte for which the test is met, and with no other. -/
theorem Edge.ends_iff (edge : Edge p s c t) (indexed : s.Indexed) (counting : s.Counting)
    (pin : c.rst = false) (rst : c.bus.rst = false) :
    t.st ≠ s.st ↔ s.releases c = true ∧ s.idx.toNat + 1 = s.len.toNat := by
  rw [← indexed.last_iff.2]
  have stays (none : s.releases c = false) (same : t.st = s.st) :
      t.st ≠ s.st ↔ s.releases c = true ∧ s.idx + 1 = s.len := by
    simp [none, same]
  have leaves (lets : s.Lets) (ack : c.bus.ack = false) (last : s.idx + 1 = s.len)
      (left : t.st ≠ s.st) : t.st ≠ s.st ↔ s.releases c = true ∧ s.idx + 1 = s.len := by
    exact iff_of_true left ⟨lets.releases indexed.named ack, last⟩
  cases edge with
  | pin on => exact absurd (on.symm.trans pin) nofun
  | busReset _ on => exact absurd (on.symm.trans rst) nofun
  | raise _ _ moves hs => exact stays (by simp [releases, hs]) rfl
  | take _ _ st hs => exact stays (by simp [releases, hs]) rfl
  | hand _ _ moves hs => exact stays (by simp [releases, hs]) rfl
  | keep _ _ moves waits =>
      refine stays ?_ rfl
      rcases waits with ⟨hs, -⟩ | ⟨-, ack⟩ <;> simp [releases, *]
  | more _ _ moves lets ack inside =>
      exact iff_of_false (fun left => left rfl) fun ends => inside ends.2
  | execute _ _ st lets ack last =>
      refine leaves lets ack ?_ (by simp [st])
      rw [len, if_pos st]
      exact last
  | fetch _ _ st lets ack last =>
      exact leaves lets ack (by rw [len_of_data (.inl st)]; exact last) (by simp [st])
  | store _ _ st lets ack last =>
      exact leaves lets ack (by rw [len_of_data (.inr st)]; exact last) (by simp [st])
  | moved _ _ st lets ack last =>
      refine leaves lets ack (by rw [len_of_data st]; exact last) ?_
      rcases st with st | st <;> simp [st]
  | pend _ _ st => rcases st with st | st <;> exact absurd counting (by simp [Counting, st])
  | fault _ _ st => rcases st with st | st <;> exact absurd counting (by simp [Counting, st])
  | watch _ _ st | ignore _ _ st | selected _ _ st | held _ _ st | attends _ _ st | begins _ _ st
    | hear _ _ st | abort _ _ st | hearMore _ _ st | command _ _ st | decide _ _ st
    | filled _ _ st | drained _ _ st | written _ _ st | status _ _ st | message _ _ st
    | consume _ _ st | free _ _ st => exact absurd counting (by simp [Counting, st])

/-! ## The bounds of the counters and of the handshake -/

/-- The registers that count, and the handshake, as every reachable state has them. -/
structure InRange (s : Seq) : Prop where
  /-- Every length of a descriptor block is one of three, and the counter is inside the block. -/
  command : KnownLength s.cdbLen ∧
    (s.st = .cmd → s.idx.toNat < 12 ∧ s.idx.toNat < s.cdbLen.toNat)
  data : s.st = .datain ∨ s.st = .dataout →
    1 ≤ s.xferLen.toNat ∧ s.xferLen.toNat ≤ 512 ∧ s.idx.toNat < s.xferLen.toNat
  waits : s.st = .rdwait ∨ s.st = .wrwait → s.idx = 0 ∧ s.xferLen = 512 ∧ s.respKind = .media
  rests : s.st = .idle ∨ s.st = .selwait ∨ s.st = .exec ∨ s.st = .rdwait ∨ s.st = .wrwait ∨
    s.st = .free → s.hs = .setup
  named : s.hs ≠ .h3
  /-- The four bits that address the descriptor block, and the nine that address the sector
  buffer, are all of the counter. -/
  addresses : (s.st = .cmd → (s.idx.extractLsb' 0 4).toNat = s.idx.toNat) ∧
    s.aAddr.toNat = s.idx.toNat

theorem Indexed.inRange (indexed : s.Indexed) (orderly : s.Orderly) : s.InRange where
  command := by
    have bounds := indexed.length.bounds
    refine ⟨indexed.length, fun st => ?_⟩
    have below := indexed.counts.command st
    exact ⟨by omega, below⟩
  data st := by
    have spans := indexed.counts.spans st
    exact ⟨spans.some, spans.most, spans.below⟩
  waits st := by
    have pends := indexed.counts.pends st
    exact ⟨pends.idx, pends.len, pends.media⟩
  rests st := by
    by_contra begun
    have moves := orderly.rests begun
    rcases st with st | st | st | st | st | st <;> simp [Transfers, st] at moves
  named := indexed.named
  addresses := by
    have small := indexed.small
    constructor
    · intro st
      have bounds := indexed.length.bounds
      have below := indexed.counts.command st
      rw [BitVec.extractLsb'_toNat, Nat.shiftRight_zero]
      exact Nat.mod_eq_of_lt (by omega)
    · rw [aAddr, BitVec.extractLsb'_toNat, Nat.shiftRight_zero]
      exact Nat.mod_eq_of_lt small

end Seq

/-! ## Runs -/

section Run

variable (p : Params) (b : Buf) (input : ℕ → Cycle)

theorem run_indexed (t : ℕ) : (run p (start b) input t).seq.Indexed := by
  induction t with
  | zero => exact Seq.reset_indexed
  | succ t ih => exact (Seq.clock_edge p _ (input t)).indexed ih

/-- A phase that counts has been entered with the edge after cycle `a`, and goes on in cycle
`t`. -/
structure Within (x : ℕ → State) (a t : ℕ) : Prop where
  order : a < t
  enters : (x (a + 1)).seq.st ≠ (x a).seq.st
  counting : (x (a + 1)).seq.Counting
  stays : ∀ u, a < u → u ≤ t → (x u).seq.st = (x (a + 1)).seq.st

/-- The counter is the number of bytes the initiator has let go of in this phase. -/
theorem idx_eq_tally {a t : ℕ} (within : Within (run p (start b) input) a t) :
    (run p (start b) input t).seq.idx.toNat =
      Clocked.tally (fun u => (run p (start b) input u).seq.releases (input u)) (a + 1) t := by
  obtain ⟨order, enters, counting, stays⟩ := within
  obtain ⟨n, rfl⟩ := Nat.exists_eq_add_of_le (Nat.succ_le_of_lt order)
  clear order
  induction n with
  | zero =>
      have zero : (run p (start b) input (a + 1)).seq.idx = 0 :=
        (Seq.clock_edge p _ (input a)).begins_zero counting enters
      rw [Nat.add_zero, Clocked.tally_self, zero]
      rfl
  | succ n ih =>
      have before := ih fun u low high => stays u low (by omega)
      have here := stays (a + 1 + n) (by omega) (by omega)
      have there := stays (a + 1 + n + 1) (by omega) (by omega)
      have counted := (Seq.clock_edge p (run p (start b) input (a + 1 + n)).seq
        (input (a + 1 + n))).counted (run_indexed p b input _) (by rwa [Seq.Counting, here])
        (there.trans here.symm)
      rw [← Nat.add_assoc, Clocked.tally_succ _ (by omega), ← before]
      exact counted

/-- In every state reachable from reset, whatever the bus, the back end and the RESET pin do, the
counter and the handshake are in range.  A phase is entered with the handshake at its beginning.  In
a phase that counts, the counter is the number of bytes let go of since it was entered, it is
below the length, and without a reset the phase ends with the last byte and with no other. -/
theorem counts_in_range (t : ℕ) :
    (run p (start b) input t).seq.InRange ∧
    ((run p (start b) input (t + 1)).seq.st ≠ (run p (start b) input t).seq.st →
      (run p (start b) input (t + 1)).seq.hs = .setup) ∧
    ∀ a, Within (run p (start b) input) a t →
      (run p (start b) input t).seq.idx.toNat = Clocked.tally
        (fun u => (run p (start b) input u).seq.releases (input u)) (a + 1) t ∧
      (run p (start b) input t).seq.idx.toNat < (run p (start b) input t).seq.len.toNat ∧
      ((input t).rst = false → (input t).bus.rst = false →
        ((run p (start b) input (t + 1)).seq.st ≠ (run p (start b) input t).seq.st ↔
          (run p (start b) input t).seq.releases (input t) = true ∧
          (run p (start b) input t).seq.idx.toNat + 1 =
            (run p (start b) input t).seq.len.toNat)) := by
  have edge := Seq.clock_edge p (run p (start b) input t).seq (input t)
  have indexed := run_indexed p b input t
  have orderly := run_orderly p b input t
  refine ⟨indexed.inRange orderly, edge.enters orderly, fun a within => ?_⟩
  have counting : (run p (start b) input t).seq.Counting := by
    rw [Seq.Counting, within.stays t within.order (Nat.le_refl t)]
    exact within.counting
  exact ⟨idx_eq_tally p b input within, (indexed.below counting).1,
    fun pin rst => edge.ends_iff indexed counting pin rst⟩

end Run

/-- The target is selected, asks for a command at once, and is given the first byte. -/
def firstByte (t : ℕ) : Cycle where
  bus := { sel := decide (t < 2), data := 1, ack := decide (t = 4) }

theorem first_byte_counted :
    let x := run { clkPeriodPs := 400000 } (start ⟨fun _ => 0, 0, 0⟩) firstByte
    Within x 2 6 ∧ (x 6).seq.idx.toNat = 1 ∧ (x 6).seq.idx.toNat < (x 6).seq.len.toNat := by
  intro x
  have entered : (x 2).seq.st = .selwait ∧ (x 3).seq.st = .cmd ∧ (x 4).seq.st = .cmd ∧
      (x 5).seq.st = .cmd ∧ (x 6).seq.st = .cmd := by
    decide +kernel
  obtain ⟨before, first, second, third, last⟩ := entered
  have within : Within x 2 6 := by
    refine ⟨by decide, by simp [before, first], .inl first, fun u low high => ?_⟩
    obtain rfl | rfl | rfl | rfl : u = 3 ∨ u = 4 ∨ u = 5 ∨ u = 6 := by omega
    all_goals simp [first, second, third, last]
  obtain ⟨-, -, counted⟩ := counts_in_range { clkPeriodPs := 400000 } ⟨fun _ => 0, 0, 0⟩ firstByte 6
  obtain ⟨tally, below, -⟩ := counted 2 within
  have one : Clocked.tally (fun u => (x u).seq.releases (firstByte u)) 3 6 = 1 := by
    decide +kernel
  exact ⟨within, tally.trans one, below⟩

end Wish5380.Targ
