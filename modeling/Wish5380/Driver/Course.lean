import Wish5380.Block.Disk
import Wish5380.Targ.Decode

/-!
# The course of a command

Where a target stands is told by the bytes that have changed hands since it was selected with ATN:
the messages, then the descriptor block, and from the last byte of that on neither of the two.
-/

namespace Wish5380.Targ

namespace Seq

/-- The byte that changes hands in a cycle, and the phase it does so in: the target asks for
it, and sees ACK. -/
def gives (s : Seq) (bus : Scsi) : List (BitVec 3 × Byte) :=
  if s.req && bus.ack then [(s.phase, bus.data)] else []

section Gives

variable {s : Seq} {bus : Scsi}

theorem gives_of_silent (silent : s.hs ≠ .req ∨ bus.ack = false) : s.gives bus = [] := by
  rcases silent with hs | ack
  · simp [gives, req, hs]
  · simp [gives, ack]

theorem gives_of_req (moves : s.Transfers) (hs : s.hs = .req) (ack : bus.ack = true) :
    s.gives bus = [(s.phase, bus.data)] := by
  simp [gives, req, moves.connected, hs, ack]

end Gives

/-- Nothing has been said to it: off the bus, or still without the first byte. -/
def Unspoken (s : Seq) : Prop :=
  s.st = .idle ∨ s.st = .free ∨ s.st = .selwait ∨ (s.st = .msgout ∨ s.st = .cmd) ∧ ¬ s.Lets

variable {p : Params} {s t : Seq} {c : Cycle}

theorem Unspoken.not_exec (unspoken : Unspoken s) : s.st ≠ .exec := by
  rcases unspoken with st | st | st | ⟨st | st, -⟩ <;> simp [st]

/-- Nor does it ask the back end for anything. -/
theorem Unspoken.quiet (unspoken : Unspoken s) (orderly : s.Orderly) : s.blkStart = false := by
  by_contra asked
  rcases orderly.asks (by simpa using asked) with waits | waits <;>
    rcases unspoken with st | st | st | ⟨st | st, -⟩ <;> simp [st] at waits

theorem Edge.unspoken (edge : Edge p s c t) (unspoken : Unspoken s)
    (nothing : s.gives c.bus = []) : Unspoken t := by
  have unheard : s.Transfers → s.hs = .req → c.bus.ack = false := by
    intro moves hs
    cases ack : c.bus.ack with
    | false => rfl
    | true => simp [gives_of_req moves hs ack] at nothing
  cases edge with
  | pin => exact .inl rfl
  | busReset => exact .inl rfl
  | selected => exact .inr (.inr (.inl rfl))
  | attends => exact .inr (.inr (.inr ⟨.inl rfl, fun lets => lets.1 rfl⟩))
  | begins => exact .inr (.inr (.inr ⟨.inr rfl, fun lets => lets.1 rfl⟩))
  | raise _ _ moves =>
      rcases unspoken with st | st | st | ⟨place, -⟩
      · simp [Transfers, st] at moves
      · simp [Transfers, st] at moves
      · simp [Transfers, st] at moves
      · exact .inr (.inr (.inr ⟨place, fun lets => lets.2 rfl⟩))
  | hear _ _ st hs ack => simp [unheard (.inl st) hs] at ack
  | take _ _ st hs ack => simp [unheard (.inr (.inl st)) hs] at ack
  | hand _ _ moves hs ack => simp [unheard (.inr (.inr moves)) hs] at ack
  | free => exact .inl rfl
  | keep => exact unspoken
  | more _ _ moves lets =>
      rcases unspoken with st | st | st | ⟨-, begun⟩
      · simp [st] at moves
      · simp [st] at moves
      · simp [st] at moves
      · exact absurd lets begun
  | pend => exact unspoken
  | fault _ _ waits => rcases waits with st | st <;> simp [Unspoken, st] at unspoken
  | moved _ _ moves => rcases moves with st | st <;> simp [Unspoken, st] at unspoken
  | _ => simp_all [Unspoken]

end Seq

/-! ## From the selection to the last byte of the command -/

/-- The bytes `h` have changed hands since a selection with ATN, and what messages there were
among them were `id`. -/
inductive Course (id : Byte) : List (BitVec 3 × Byte) → Seq → Prop where
  | selected {s : Seq} (st : s.st = .selwait) (atn : s.atnSeen = true) : Course id [] s
  | message {h : List (BitVec 3 × Byte)} {s : Seq} (st : s.st = .msgout) (atn : s.atnSeen = true)
      (said : ∀ b ∈ h, b = (phMsgOut, id))
      (heard : s.Lets → s.msgRx = id ∧ s.lun = id.extractLsb' 0 3) : Course id h s
  | command {h : List (BitVec 3 × Byte)} {s first : Seq} {g : Gather}
      (atn : first.atnSeen = true) (unit : first.lun = id.extractLsb' 0 3)
      (said : ∀ b ∈ h, b = (phMsgOut, id)) (follows : first.Follows s g) :
      Course id (h ++ g.got.map (phCommand, ·)) s

section Step

variable {p : Params} {s first : Seq} {c : Cycle} {g : Gather} {id : Byte}
  {h : List (BitVec 3 × Byte)}

/-- The messages are over. -/
theorem Course.enters (enters : s.Enters) (atn : s.atnSeen = true)
    (unit : s.lun = id.extractLsb' 0 3) (said : ∀ b ∈ h, b = (phMsgOut, id)) : Course id h s := by
  have begun := Course.command atn unit said enters.follows
  rwa [show (Gather.ready []).got.map (phCommand, ·) = [] from rfl, List.append_nil] at begun

theorem clock_msgout (pin : c.rst = false) (rst : c.bus.rst = false) (st : s.st = .msgout) :
    s.clock p c = s.endPulse.stepMsgout c.bus := by
  rw [Seq.clock_calm p s pin rst]
  simp [Seq.step, Seq.endPulse, st]

theorem gives_follows (follows : first.Follows s g) (going : s.st ≠ .exec) :
    g.got.map (phCommand, ·) ++ s.gives c.bus = (g.next c.bus).got.map (phCommand, ·) := by
  cases g with
  | ready got =>
      rw [Seq.gives_of_silent (.inl (by simp [follows.2.1])), List.append_nil]
      rfl
  | asking got =>
      obtain ⟨st, hs, -⟩ := follows
      cases ack : c.bus.ack with
      | false => simp [Seq.gives_of_silent (.inr ack), Gather.got, Gather.next, ack]
      | true =>
          rw [Seq.gives_of_req (.inr (.inl st)) hs ack]
          simp [Gather.got, Gather.next, ack, Seq.phase, st]
  | taken got =>
      rw [Seq.gives_of_silent (.inl (by simp [follows.2.1])), List.append_nil]
      simp only [Gather.next]
      split_ifs <;> rfl
  | complete got => exact absurd follows.1 going

/-- One cycle before the command is complete. -/
theorem Course.clock (course : Course id h s) (orderly : s.Orderly) (going : s.st ≠ .exec)
    (pin : c.rst = false) (rst : c.bus.rst = false) (sel : c.bus.sel = false)
    (identify : id.getLsbD 7 = true)
    (messages : ∀ b ∈ s.gives c.bus, b.1 = phMsgOut → b.2 = id) :
    Course id (h ++ s.gives c.bus) (s.clock p c) := by
  cases course with
  | selected st atn =>
      have resting : s.hs = .setup := by
        by_contra begun
        have moves := orderly.rests begun
        simp [Seq.Transfers, st] at moves
      have after : s.clock p c = s.endPulse.stepSelwait c.bus := by
        rw [Seq.clock_calm p s pin rst]
        simp [Seq.step, Seq.endPulse, st]
      rw [Seq.gives_of_silent (.inl (by simp [resting])), after]
      refine .message ?_ ?_ (by simp) fun lets => absurd ?_ lets.1
      · simp [Seq.stepSelwait, Seq.endPulse, sel, atn]
      · simp only [Seq.stepSelwait, sel]
        cases c.bus.atn <;> simp [Seq.endPulse, atn]
      · simp [Seq.stepSelwait, sel]
  | message st atn said heard =>
      have here : s.endPulse.hs = s.hs := rfl
      rw [clock_msgout pin rst st, Seq.stepMsgout, here]
      cases hs : s.hs with
      | setup =>
          rw [Seq.gives_of_silent (.inl (by simp [hs])), List.append_nil]
          exact .message st atn said fun lets => absurd rfl lets.2
      | req =>
          cases ack : c.bus.ack with
          | false =>
              rw [Seq.gives_of_silent (.inr ack), List.append_nil]
              exact .message st atn said fun lets => absurd hs lets.2
          | true =>
              have given := Seq.gives_of_req (.inl st) hs ack
              have phase : s.phase = phMsgOut := by simp [Seq.phase, st]
              have same : c.bus.data = id := messages _ (given ▸ List.mem_singleton_self _) phase
              rw [given, phase, same]
              refine .message st atn (fun b mem => ?_) fun _ => ⟨rfl, if_pos identify⟩
              rcases List.mem_append.mp mem with before | now
              · exact said b before
              · exact List.mem_singleton.mp now
      | _ =>
          have lets : s.Lets := by simp [Seq.Lets, hs]
          obtain ⟨rx, unit⟩ := heard lets
          rw [Seq.gives_of_silent (.inl (by simp [hs])), List.append_nil]
          dsimp only
          have known : s.endPulse.msgRx = id := rx
          have goes : ¬ (id = mAbort ∨ id = mBusDeviceReset) := by
            rintro (rfl | rfl) <;> exact absurd identify (by decide)
          rw [known, if_neg goes]
          split_ifs with ack more
          · exact .message st atn said fun _ => ⟨rx, unit⟩
          · exact .message st atn said fun lets => absurd rfl lets.1
          · exact .enters ⟨rfl, rfl, rfl⟩ atn unit said
  | @command h _ first g atn unit said follows =>
      have unfinished : ∀ got, g ≠ .complete got := by
        rintro got rfl
        exact going follows.1
      rw [List.append_assoc, gives_follows follows going]
      exact .command atn unit said (follows.clock pin rst unfinished)

/-- The descriptor register holds the bytes of a command, and the command is for `lun`. -/
structure Bears (cdb : List Byte) (lun : BitVec 3) (s : Seq) : Prop where
  bytes : ∀ k < cdb.length, cdbByte s.cdb k = cdb.getD k 0
  lun : s.lun = lun

/-- The command is complete. -/
theorem Course.bears (course : Course id h s) (st : s.st = .exec) :
    ∃ said got, h = said ++ got.map (phCommand, ·) ∧ (∀ b ∈ said, b = (phMsgOut, id)) ∧
      got ≠ [] ∧ got.length = commandLength got ∧ Bears got (id.extractLsb' 0 3) s := by
  cases course with
  | selected place => simp [st] at place
  | message place => simp [st] at place
  | @command said _ first g atn unit saidId follows =>
      cases g with
      | ready got => exact absurd (follows.1.symm.trans st) (by decide)
      | asking got => exact absurd (follows.1.symm.trans st) (by decide)
      | taken got => exact absurd (follows.1.symm.trans st) (by decide)
      | complete got =>
          obtain ⟨-, some, whole, collected⟩ := follows
          refine ⟨said, got, rfl, saidId, List.ne_nil_of_length_pos some, whole, collected.bytes, ?_⟩
          rw [collected.unit, unitOf, if_neg (by simp [atn]), unit]

theorem Course.connected (course : Course id h s) : s.connected = true := by
  cases course with
  | selected st => simp [Seq.connected, st]
  | message st => simp [Seq.connected, st]
  | @command _ _ _ g _ _ _ follows => cases g <;> simp [Seq.connected, follows.1]

theorem Course.quiet (course : Course id h s) (orderly : s.Orderly) : s.blkStart = false := by
  by_contra asked
  rcases orderly.asks (by simpa using asked) with waits | waits <;> cases course with
  | selected st => simp [st] at waits
  | message st => simp [st] at waits
  | @command _ _ _ g _ _ _ follows => cases g <;> simp [follows.1] at waits

/-- What has changed hands is messages and the command. -/
theorem Course.phases (course : Course id h s) : ∀ b ∈ h, b.1 = phMsgOut ∨ b.1 = phCommand := by
  intro b mem
  cases course with
  | selected => cases mem
  | message _ _ said => exact .inl (congrArg Prod.fst (said b mem))
  | command _ _ said =>
      rcases List.mem_append.mp mem with before | after
      · exact .inl (congrArg Prod.fst (said b before))
      · obtain ⟨v, -, rfl⟩ := List.mem_map.mp after
        exact .inr rfl

/-! ## From there on -/

theorem away_of_exec (st : s.st = .exec) (pin : c.rst = false) (rst : c.bus.rst = false) :
    Block.Away (s.clock p c) := by
  have edge := Seq.clock_edge p s c
  generalize s.clock p c = t at edge ⊢
  cases edge with
  | decide _ _ _ decides => cases decides <;> constructor <;> simp
  | pin reset => simp [pin] at reset
  | busReset _ reset => simp [rst] at reset
  | _ => simp_all [Seq.Transfers]

end Step

/-! ## Runs -/

/-- From cycle `since` on there is no reset and no selection. -/
structure LeftAlone (input : ℕ → Cycle) (since : ℕ) : Prop where
  pin : ∀ t, since ≤ t → (input t).rst = false
  rst : ∀ t, since ≤ t → (input t).bus.rst = false
  sel : ∀ t, since ≤ t → (input t).bus.sel = false

theorem LeftAlone.later {input : ℕ → Cycle} {a b : ℕ} (alone : LeftAlone input a) (after : a ≤ b) :
    LeftAlone input b where
  pin t low := alone.pin t (by omega)
  rst t low := alone.rst t (by omega)
  sel t low := alone.sel t (by omega)

/-- What changes hands from cycle `a` on, up to cycle `t`. -/
def spoken (x : ℕ → State) (input : ℕ → Cycle) : ℕ → ℕ → List (BitVec 3 × Byte) :=
  Clocked.trace fun u => (x u).seq.gives (input u).bus

section Run

variable {p : Params} {s : State} {input : ℕ → Cycle} {id : Byte} {a b t : ℕ}

theorem orderly_run (orderly : s.seq.Orderly) (t : ℕ) : (run p s input t).seq.Orderly := by
  induction t with
  | zero => exact orderly
  | succ t ih => exact (Seq.clock_edge p _ (input t)).orderly ih

theorem away_run (alone : LeftAlone input a) (away : Block.Away (run p s input a).seq) (late : a ≤ t) :
    Block.Away (run p s input t).seq := by
  induction t, late using Nat.le_induction with
  | base => exact away
  | succ t late ih => exact ih.clock (c := input t) (by simp [selMatch, alone.sel t late])

/-- After a command there is no other. -/
theorem away_after (alone : LeftAlone input a) (st : (run p s input a).seq.st = .exec) (late : a < t) :
    Block.Away (run p s input t).seq := by
  refine away_run (alone.later (Nat.le_succ a)) ?_ late
  exact away_of_exec st (alone.pin a (Nat.le_refl a)) (alone.rst a (Nat.le_refl a))

/-- While nothing is said to it a target comes to nothing. -/
theorem unspoken_run (unspoken : s.seq.Unspoken)
    (nothing : ∀ u < t, (run p s input u).seq.gives (input u).bus = []) :
    (run p s input t).seq.Unspoken := by
  induction t with
  | zero => exact unspoken
  | succ t ih =>
      have here := ih fun u before => nothing u (by omega)
      exact (Seq.clock_edge p _ (input t)).unspoken here (nothing t (Nat.lt_succ_self t))

/-- A target that was selected with ATN is on its way to a command, or has had one. -/
theorem course_run (orderly : s.seq.Orderly) (alone : LeftAlone input a)
    (identify : id.getLsbD 7 = true) (selected : Course id [] (run p s input a).seq)
    (messages : ∀ u, a ≤ u → u < b → ∀ m ∈ (run p s input u).seq.gives (input u).bus,
      m.1 = phMsgOut → m.2 = id) (low : a ≤ t) (high : t ≤ b) :
    Course id (spoken (run p s input) input a t) (run p s input t).seq ∨
      ∃ e, a ≤ e ∧ e < t ∧ (run p s input e).seq.st = .exec ∧
        Course id (spoken (run p s input) input a e) (run p s input e).seq := by
  induction t, low using Nat.le_induction with
  | base => exact .inl (by rw [spoken, Clocked.trace_self]; exact selected)
  | succ t low ih =>
      rcases ih (by omega) with course | ⟨e, after, before, st, course⟩
      · by_cases st : (run p s input t).seq.st = .exec
        · exact .inr ⟨t, low, Nat.lt_succ_self t, st, course⟩
        · refine .inl ?_
          rw [spoken, Clocked.trace_succ _ low]
          exact course.clock (orderly_run orderly t) st (alone.pin t low) (alone.rst t low)
            (alone.sel t low) identify (messages t low (by omega))
      · exact .inr ⟨e, after, by omega, st, course⟩

end Run

end Wish5380.Targ
