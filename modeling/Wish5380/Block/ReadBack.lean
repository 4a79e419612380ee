import Mathlib.Tactic.MkIffOfInductiveProp
import Wish5380.Block.Write
import Wish5380.Targ.Selection

/-!
# What was written is read back

Between a WRITE and a later READ of the same blocks nothing has to be known of the back end but that
it serves the block interface and is only read from meanwhile.
-/

namespace Wish5380.Block

open Targ

/-- While only READs ask for anything the blocks stay as they are. -/
theorem Device.kept_by_reads {p : Params} {s : State} {input : ℕ → Cycle} {v w : ℕ}
    {bad : Bool → BitVec 32 → Bool} {blocks : ℕ → Blocks}
    (device : Device bad blocks (run p s input) input)
    (rests : Rests (run p s input) input v) (low : v ≤ w)
    (reads : ∀ u, v < u → u < w → (blkReq (run p s input u)).start = true →
      (blkReq (run p s input u)).we = false) : blocks w = blocks v := by
  induction w, low using Nat.le_induction with
  | base => rfl
  | succ w low ih =>
      rw [← ih fun u above below => reads u above (by omega)]
      refine device.still w fun u answered => ?_
      rcases Nat.lt_or_ge v u with after | before
      · exact reads u after (by have := answered.le; omega) answered.start
      · obtain ⟨d, above, below, done⟩ := rests u before answered.start
        simp [answered.pending d above (by omega)] at done

/-! ## A bench of two commands -/

/-- A WRITE of block five, and from cycle 2120 on a READ of it. -/
def Rig.answerTwice (t : ℕ) (r : Rig) : Stim :=
  if t < 2120 then answer cWrite10 1 t r else answer cRead10 1 (t - 2120) r

/-- Where the two commands stand in cycle `t`: the WRITE lets go of the bus in cycle 2115, and the
READ is taken on in cycle 2172. -/
@[mk_iff]
structure Rig.Midway (t : ℕ) (r : Rig) : Prop where
  on : t = 2114 → r.targ.seq.connected = true
  off : t = 2115 → r.targ.seq.connected = false
  quiet : 2115 ≤ t → t ≤ 2172 → r.targ.seq.blkStart = false
  only : 2120 ≤ t → t < 2172 → r.targ.seq.st ≠ .exec
  low : 2171 ≤ t → t ≤ 2172 → r.targ.seq.req = false
  exec : t = 2172 → r.targ.seq.st = .exec ∧ r.targ.seq.lun = 0 ∧ r.targ.seq.op = cRead10 ∧
    r.targ.seq.cmdLba = 5 ∧ r.targ.seq.cmdBlocks = 1
  disk : t = 2172 → r.ticked.pins.ready = true ∧ r.ticked.pins.count = 2048
  after : t = 2173 → r.targ.seq.st = .rdwait

instance (t : ℕ) (r : Rig) : Decidable (Rig.Midway t r) :=
  decidable_of_iff _ (Rig.midway_iff t r).symm

/-- A hundred cycles at a time up to the end of the WRITE, and from there cycle by cycle. -/
theorem Rig.midway :
    (∀ i < 21, (closed answerTwice (100 * (i + 1))).targ.seq.connected = true) ∧
      ∀ i < 60, Midway (2114 + i) (closed answerTwice (2114 + i)) := by
  decide +kernel

namespace Rig

variable {t : ℕ}

theorem midway_at (low : 2114 ≤ t) (high : t < 2174) : Midway t (closed answerTwice t) := by
  obtain ⟨i, rfl⟩ := Nat.exists_eq_add_of_le low
  exact midway.2 i (by omega)

/-- Up to the READ it is the bench of one WRITE. -/
theorem twice_first (early : t ≤ 2120) : closed answerTwice t = bench cWrite10 1 t := by
  induction t with
  | zero => rfl
  | succ t ih =>
      rw [closed, bench, closed, ← bench, ← ih (by omega), answerTwice, if_pos (by omega)]

/-- Where no bytes of a command are due, the bus follows the target. -/
theorem twice_follows (later : 53 ≤ t) (apart : t < 2120 ∨ 2173 ≤ t) :
    (closedStim answerTwice t).bus = {
      bsy := (closed answerTwice t).targ.seq.connected
      req := (closed answerTwice t).targ.seq.req
      ack := (closed answerTwice t).targ.seq.req
      data := (closed answerTwice t).targ.seq.idx.setWidth 8 } := by
  rw [closedStim, answerTwice]
  split_ifs with early
  · rw [answer, if_neg (by omega)]
  · rw [answer, if_neg (by omega)]

/-- And otherwise it carries them. -/
theorem twice_sends (late : 2120 ≤ t) (early : t < 2173) :
    (closedStim answerTwice t).bus = (command {} (tenBytes cRead10 5 1)).getD (t - 2120) {} := by
  rw [closedStim, answerTwice, if_neg (by omega), answer, if_pos (by omega)]

/-- The command that is sent raises no RST, and its last byte is acknowledged. -/
theorem command_lines : (∀ i < 53, ((command {} (tenBytes cRead10 5 1)).getD i {}).rst = false) ∧
    ((command {} (tenBytes cRead10 5 1)).getD 50 {}).ack = true ∧
    ((command {} (tenBytes cRead10 5 1)).getD 52 {}).ack = false := by
  decide +kernel

theorem twice_rst (t : ℕ) : (closedStim answerTwice t).bus.rst = false := by
  rcases Nat.lt_or_ge t 2120 with early | late
  · have same : closedStim answerTwice t = benchStim cWrite10 1 t := by
      rw [closedStim, answerTwice, if_pos early, twice_first (by omega)]
      rfl
    rw [same]
    exact benches.2.2.rst t
  · rcases Nat.lt_or_ge t 2173 with sends | follows
    · rw [twice_sends late sends]
      exact command_lines.1 _ (by omega)
    · rw [twice_follows (by omega) (.inr follows)]

theorem twice_pin (t : ℕ) : (closedStim answerTwice t).rst = false := by
  rw [closedStim, answerTwice]
  split_ifs <;> rfl

/-- From the READ on no other command comes in. -/
theorem twice_away (late : 2173 ≤ t) : Away (closed answerTwice t).targ.seq := by
  have st := (midway_at (by decide) (by decide) : Midway 2173 _).after rfl
  refine closed_away ⟨?_, ?_, ?_, ?_⟩ (fun u later _ => ?_) late
  · simp [st]
  · simp [st]
  · simp [st]
  · simp [st]
  · rw [twice_follows (by omega) (.inr later)]
    rfl

/-- The two commands are all there is. -/
theorem twice_only (exec : (closed answerTwice t).targ.seq.st = .exec) : t = 52 ∨ t = 2172 := by
  rcases Nat.lt_or_ge t 2120 with early | late
  · rw [twice_first (by omega)] at exec
    rcases Nat.lt_trichotomy t 52 with before | rfl | after
    · exact absurd exec (benches.2.2.only t before)
    · exact .inl rfl
    · exact absurd exec (benches.2.2.away after).exec
  · rcases Nat.lt_or_ge t 2173 with sends | follows
    · by_contra other
      rw [not_or] at other
      exact (midway_at (by omega) (by omega)).only late (by omega) exec
    · exact absurd exec (twice_away follows).exec

theorem twice_read : (closed answerTwice 2172).targ.seq.lun = 0 ∧
    (closed answerTwice 2172).targ.seq.op = cRead10 ∧
    (closed answerTwice 2172).targ.seq.cmdLba = 5 ∧
    (closed answerTwice 2172).targ.seq.cmdBlocks = 1 :=
  ((midway_at (by decide) (by decide) : Midway 2172 _).exec rfl).2

/-- The target in the bench, and what it sees. -/
abbrev twice : ℕ → State :=
  target {} .blank benchDisk (closedStim answerTwice)

abbrev twiceSeen : ℕ → Cycle :=
  seen {} .blank benchDisk (closedStim answerTwice)

theorem twice_eq (t : ℕ) : twice t = (closed answerTwice t).targ :=
  target_closed t

theorem twiceSeen_blk (t : ℕ) : (twiceSeen t).blk = (closed answerTwice t).ticked.pins := by
  rw [twiceSeen, seen_closed]
  rfl

theorem twice_proper : Rig.Proper {} .blank benchDisk (closedStim answerTwice) := by
  refine ⟨rfl, fun t u _ cut => ?_, fun t takes => ?_⟩
  · have reset : (closedStim answerTwice t).rst = true ∨
        (closedStim answerTwice t).bus.rst = true := cut.reset
    rw [twice_pin, twice_rst] at reset
    rcases reset with pin | rst
    · cases pin
    · cases rst
  · have exec := takes.exec
    rw [target_closed] at exec ⊢
    rcases twice_only exec with rfl | rfl
    · rw [twice_first (by decide), Seq.Exact, benches.2.2.lba, benches.2.2.count]
      decide
    · rw [Seq.Exact, twice_read.2.2.1, twice_read.2.2.2]
      decide

/-- Its initiator completes every handshake. -/
theorem twice_patient : Patient twice twiceSeen 52 := by
  have last : (closedStim answerTwice 2170).bus.ack = true := by
    rw [twice_sends (by decide) (by decide)]
    exact command_lines.2.1
  have free : (closedStim answerTwice 2172).bus.ack = false := by
    rw [twice_sends (by decide) (by decide)]
    exact command_lines.2.2
  refine ⟨fun t _ => twice_pin t, fun t _ => twice_rst t, fun t later asks => ?_, fun t later rests => ?_⟩
  · rw [twice_eq] at asks
    rcases Nat.lt_or_ge t 2171 with early | late
    · exact ⟨2170, by omega, last⟩
    · rcases Nat.lt_or_ge t 2173 with sends | follows
      · have low := (midway_at (by omega) (by omega)).low late (by omega)
        exact absurd (low.symm.trans asks) (by decide)
      · refine ⟨t, Nat.le_refl t, ?_⟩
        change (closedStim answerTwice t).bus.ack = true
        rw [twice_follows (by omega) (.inr follows)]
        exact asks
  · rw [twice_eq] at rests
    rcases Nat.lt_or_ge t 2173 with sends | follows
    · exact ⟨2172, by omega, free⟩
    · refine ⟨t, Nat.le_refl t, ?_⟩
      change (closedStim answerTwice t).bus.ack = false
      rw [twice_follows (by omega) (.inr follows)]
      exact rests

/-- The WRITE is over in cycle 2115. -/
theorem twice_over {w : ℕ} (late : 53 ≤ w)
    (on : ∀ v, 53 ≤ v → v < w → (closed answerTwice v).targ.seq.connected = true)
    (free : (closed answerTwice w).targ.seq.st = .free) : w = 2115 := by
  have off : (closed answerTwice w).targ.seq.connected = false := by simp [Seq.connected, free]
  rcases Nat.lt_trichotomy w 2115 with before | ends | after
  · have stays (v : ℕ) (low : w ≤ v) (high : v ≤ 2114) :
        (closed answerTwice v).targ.seq.connected = false := by
      induction v, low using Nat.le_induction with
      | base => exact off
      | succ v low ih =>
          by_contra up
          rcases Seq.connected_clock (c := (closed answerTwice v).cycle (closedStim answerTwice v))
            (eq_true_of_ne_false up) with here | named
          · exact absurd (here.symm.trans (ih (by omega))) (by decide)
          · change selMatch {} (closedStim answerTwice v).bus = true at named
            rw [twice_follows (by omega) (.inl (by omega))] at named
            cases named
    have still := (midway_at (by decide) (by decide) : Midway 2114 _).on rfl
    exact absurd (still.symm.trans (stays 2114 (by omega) (Nat.le_refl _))) (by decide)
  · exact ends
  · have gone := (midway_at (by decide) (by decide) : Midway 2115 _).off rfl
    exact absurd ((on 2115 (by decide) after).symm.trans gone) (by decide)

end Rig

/-- The blocks of a WRITE, none of them bad, come back in every later READ of them that no other
write precedes. -/
theorem written_is_read_back (p : Params) (s : State) (input : ℕ → Cycle) (t : ℕ)
    (bad : Bool → BitVec 32 → Bool) (blocks : ℕ → Blocks)
    (device : Device bad blocks (run p s input) input)
    (patient : Patient (run p s input) input t) (exec : (run p s input t).seq.st = .exec)
    (rests : Rests (run p s input) input (t + 1))
    (addressed : (run p s input t).seq.Addressed (input t).blk)
    (write : (run p s input t).seq.cdbIsWrite = true)
    (some_ : (run p s input t).seq.cmdBlocks ≠ 0)
    (sound : ∀ we, stop (bad we) (run p s input t).seq.cmdLba
      (run p s input t).seq.cmdBlocks.toNat = none) :
    ∃ u w bytes, Clocked.Stretch (handed p (run p s input) input)
        (fun v => (run p s input v).seq.connected = true) (t + 1) u bytes ∧
      bytes.length = 512 * (run p s input t).seq.cmdBlocks.toNat ∧
      Clocked.Stretch (shows p (run p s input) input)
        (fun v => (run p s input v).seq.connected = true) u w
        [.status stGood, .message mCommandComplete] ∧
      (run p s input w).seq.st = .free ∧
      ∀ t', w ≤ t' →
        (∀ v, w < v → v ≤ t' → (blkReq (run p s input v)).start = true →
          (blkReq (run p s input v)).we = false) →
        (run p s input t').seq.st = .exec → (run p s input t').seq.Addressed (input t').blk →
        (run p s input t').seq.cdbIsRead = true →
        (run p s input t').seq.cmdLba = (run p s input t).seq.cmdLba →
        (run p s input t').seq.cmdBlocks = (run p s input t).seq.cmdBlocks →
        ∃ u' w', Clocked.Stretch (dataInBytes p (run p s input) input)
            (ShowsDataIn p (run p s input) input) (t' + 1) u' bytes ∧
          Clocked.Stretch (shows p (run p s input) input)
            (fun v => (run p s input v).seq.connected = true) u' w'
            [.status stGood, .message mCommandComplete] := by
  have inside := addressed.inside
  have small := (input t).blk.count.isLt
  obtain ⟨u, w, bytes, shown, length, ended, free, -, after, held⟩ :=
    device.write_command patient exec rests addressed write some_ rfl rfl
  rw [asked_of_stop (sound true)] at length
  rw [sound true] at held ended
  refine ⟨u, w, bytes, shown, length, ended, free,
    fun t' later reads exec' addressed' read lba count => ?_⟩
  have le := shown.le
  have le' := ended.le
  obtain ⟨u', w', delivered, told, -⟩ := device.read_command (patient.later (by omega)) exec'
    addressed' read (by rw [count]; exact some_) lba (congrArg BitVec.toNat count)
  refine ⟨u', w', ?_, ?_⟩
  · have same : blocks (t' + 1) =
        writeIn (bad true) bytes (blocks (t + 1)) (run p s input t).seq.cmdLba
          (run p s input t).seq.cmdBlocks.toNat := by
      rw [device.kept_by_reads after (by omega : w ≤ t' + 1)
        fun v above below => reads v above (by omega)]
      exact funext fun b => held b (by simp)
    rw [same, readOut_writeIn (by omega) length (sound true) (sound false)] at delivered
    exact delivered
  · rw [sound false] at told
    exact told

theorem a_block_comes_back :
    ∃ bytes : List Byte, bytes.length = 512 ∧
      (∃ u, Clocked.Stretch (handed {} Rig.twice Rig.twiceSeen)
        (fun v => (Rig.twice v).seq.connected = true) 53 u bytes) ∧
      ∃ u w, Clocked.Stretch (dataInBytes {} Rig.twice Rig.twiceSeen)
          (ShowsDataIn {} Rig.twice Rig.twiceSeen) 2173 u bytes ∧
        Clocked.Stretch (shows {} Rig.twice Rig.twiceSeen)
          (fun v => (Rig.twice v).seq.connected = true) u w
          [.status stGood, .message mCommandComplete] := by
  have state (t : ℕ) : Targ.run {} (start .blank) Rig.twiceSeen t =
      (Rig.closed Rig.answerTwice t).targ := Rig.target_closed t
  have begun : (Targ.run {} (start .blank) Rig.twiceSeen 52) = (Rig.bench cWrite10 1 52).targ := by
    rw [state, Rig.twice_first (by decide)]
  have op : (Targ.run {} (start .blank) Rig.twiceSeen 52).seq.op = cWrite10 := by
    rw [begun]
    exact benches.2.2.op_eq
  have lba : (Targ.run {} (start .blank) Rig.twiceSeen 52).seq.cmdLba = 5 := by
    rw [begun]
    exact benches.2.2.lba
  have count : (Targ.run {} (start .blank) Rig.twiceSeen 52).seq.cmdBlocks = 1 := by
    rw [begun]
    exact benches.2.2.count
  have first : (Rig.twiceSeen 52).blk = { ready := true, count := 2048 } := by
    rw [Rig.twiceSeen_blk, Rig.twice_first (by decide)]
    exact benches.2.2.pins
  have second : (Rig.twiceSeen 2172).blk.ready = true ∧ (Rig.twiceSeen 2172).blk.count = 2048 := by
    rw [Rig.twiceSeen_blk]
    exact (Rig.midway_at (by decide) (by decide) : Rig.Midway 2172 _).disk rfl
  have write : (Targ.run {} (start .blank) Rig.twiceSeen 52).seq.cdbIsWrite = true := by
    rw [Seq.cdbIsWrite, op]
    rfl
  have read : (Targ.run {} (start .blank) Rig.twiceSeen 2172).seq.cdbIsRead = true := by
    rw [state, Seq.cdbIsRead, Rig.twice_read.2.1]
    rfl
  have addressed : (Targ.run {} (start .blank) Rig.twiceSeen 52).seq.Addressed
      (Rig.twiceSeen 52).blk := by
    rw [first]
    refine ⟨?_, by rw [write, Bool.or_true], rfl, ?_⟩
    · rw [begun]
      exact benches.2.2.lun
    · rw [lba, count]
      decide
  have addressed' : (Targ.run {} (start .blank) Rig.twiceSeen 2172).seq.Addressed
      (Rig.twiceSeen 2172).blk := by
    refine ⟨?_, by rw [read, Bool.true_or], second.1, ?_⟩
    · rw [state]
      exact Rig.twice_read.1
    · rw [state, Rig.twice_read.2.2.1, Rig.twice_read.2.2.2, second.2]
      decide
  have rests : Rests (Targ.run {} (start .blank) Rig.twiceSeen) Rig.twiceSeen 53 := by
    intro w early start
    rw [state, Rig.twice_first (by omega), benches.2.2.unasked (by decide) early] at start
    cases start
  obtain ⟨u, w, bytes, shown, length, ended, free, later⟩ := written_is_read_back {} (start .blank)
    Rig.twiceSeen 52 _ _ Rig.twice_proper.device Rig.twice_patient (by rw [begun]; exact benches.2.2.exec.1)
    rests addressed write (by rw [count]; decide) (fun _ => by rw [lba, count]; decide)
  rw [count] at length
  obtain rfl : w = 2115 := by
    have le := shown.le
    have le' := ended.le
    refine Rig.twice_over (by omega) (fun v low high => ?_) (state w ▸ free)
    rw [← state]
    rcases Nat.lt_or_ge v u with before | after
    · exact shown.within v low before
    · exact ended.within v after high
  refine ⟨bytes, length, ⟨u, shown⟩, later 2172 (by decide) (fun v above below start => ?_) ?_ addressed'
    read ?_ ?_⟩
  · rw [state] at start
    have quiet := (Rig.midway_at (by omega) (by omega)).quiet (by omega) below
    exact absurd (quiet.symm.trans start) (by decide)
  · rw [state]
    exact ((Rig.midway_at (by decide) (by decide) : Rig.Midway 2172 _).exec rfl).1
  · rw [lba, state]
    exact Rig.twice_read.2.2.1
  · rw [count, state]
    exact Rig.twice_read.2.2.2

end Wish5380.Block
