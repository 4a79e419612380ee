import Wish5380.Targ.Decode

/-!
# Messages to the target

In MESSAGE OUT the target looks at one byte at a time and does not know where a message begins.
An IDENTIFY and any list of extended messages after it are taken as they should be exactly when
no byte of the latter looks like a message of its own: like ABORT or BUS DEVICE RESET, or like an
IDENTIFY for another unit.
-/

namespace Wish5380.Targ

/-! ## Messages -/

/-- The argument bytes of an extended message, 1 to 256 of them. -/
structure Extended where
  args : List Byte
  some : args ≠ []
  short : args.length ≤ 256

/-- Its code, its length, with 0 for 256, and its arguments. -/
def Extended.bytes (m : Extended) : List Byte :=
  0x01 :: BitVec.ofNat 8 m.args.length :: m.args

/-- IDENTIFY, and extended messages. -/
def identified (lun : BitVec 3) (messages : List Extended) : List Byte :=
  (0x80 ||| lun.setWidth 8) :: messages.flatMap Extended.bytes

/-- `msg_rx == M_ABORT || msg_rx == M_BUS_DEVICE_RESET`. -/
def hangsUp (b : Byte) : Prop :=
  b = mAbort ∨ b = mBusDeviceReset

instance (b : Byte) : Decidable (hangsUp b) :=
  inferInstanceAs (Decidable (_ ∨ _))

/-- No byte of the extended messages is ABORT or BUS DEVICE RESET, and the last of them that has
its top bit set, if any, ends in the unit. -/
def Harmless (lun : BitVec 3) (messages : List Extended) : Prop :=
  (∀ b ∈ messages.flatMap Extended.bytes, ¬ hangsUp b) ∧
    ∀ b, ((messages.flatMap Extended.bytes).filter fun b => b.getLsbD 7).getLast? = some b →
      b.extractLsb' 0 3 = lun

instance (lun : BitVec 3) (messages : List Extended) : Decidable (Harmless lun messages) :=
  inferInstanceAs (Decidable ((∀ b ∈ messages.flatMap Extended.bytes, ¬ hangsUp b) ∧
    ∀ b ∈ ((messages.flatMap Extended.bytes).filter fun b => b.getLsbD 7).getLast?,
      b.extractLsb' 0 3 = lun))

/-- The unit after some bytes. -/
def unitAfter (lun : BitVec 3) (bytes : List Byte) : BitVec 3 :=
  bytes.foldl (fun u b => if b.getLsbD 7 then b.extractLsb' 0 3 else u) lun

theorem unitAfter_snoc (lun : BitVec 3) (bytes : List Byte) (b : Byte) :
    unitAfter lun (bytes ++ [b]) = if b.getLsbD 7 then b.extractLsb' 0 3 else unitAfter lun bytes := by
  simp [unitAfter]

theorem unitAfter_eq_iff (lun : BitVec 3) (bytes : List Byte) :
    unitAfter lun bytes = lun ↔
      ∀ b, (bytes.filter fun b => b.getLsbD 7).getLast? = some b → b.extractLsb' 0 3 = lun := by
  induction bytes using List.reverseRecOn with
  | nil => simp [unitAfter]
  | append_singleton bytes b ih =>
      rw [unitAfter_snoc, List.filter_append]
      cases top : b.getLsbD 7 with
      | true =>
          have last : [b].filter (fun b => b.getLsbD 7) = [b] := by
            rw [List.filter_singleton, top]
            rfl
          rw [last, List.getLast?_concat, if_pos rfl]
          exact ⟨fun same c found => Option.some.inj found ▸ same, fun all => all b rfl⟩
      | false =>
          have none : [b].filter (fun b => b.getLsbD 7) = [] := by
            rw [List.filter_singleton, top]
            rfl
          rw [none, List.append_nil, if_neg Bool.false_ne_true]
          exact ih

theorem unitAfter_identified (u lun : BitVec 3) (messages : List Extended) :
    unitAfter u (identified lun messages) = unitAfter lun (messages.flatMap Extended.bytes) := by
  have first : (0x80 ||| lun.setWidth 8 : Byte).getLsbD 7 = true ∧
      (0x80 ||| lun.setWidth 8 : Byte).extractLsb' 0 3 = lun := by
    revert lun
    decide
  rw [unitAfter, identified, List.foldl_cons, if_pos first.1, first.2]
  rfl

theorem identify_plain (lun : BitVec 3) : ¬ hangsUp (0x80 ||| lun.setWidth 8) := by
  revert lun
  decide

theorem harmless_iff (u lun : BitVec 3) (messages : List Extended) :
    Harmless lun messages ↔ (∀ b ∈ identified lun messages, ¬ hangsUp b) ∧
      unitAfter u (identified lun messages) = lun := by
  rw [unitAfter_identified, unitAfter_eq_iff, Harmless, identified, List.forall_mem_cons]
  simp only [identify_plain lun, not_false_eq_true, true_and]

/-! ## An initiator that sends them -/

/-- The message byte the target takes in cycle `t`. -/
def hears (p : Params) (x : ℕ → State) (input : ℕ → Cycle) (t : ℕ) : List Byte :=
  if (out p x input t).req && (input t).bus.ack && (out p x input t).phase == phMsgOut then
    [(input t).bus.data]
  else []

/-- The bytes it has taken before. -/
def heard (p : Params) (x : ℕ → State) (input : ℕ → Cycle) (t : ℕ) : List Byte :=
  Clocked.trace (hears p x input) 0 t

/-- Selected, or in MESSAGE OUT. -/
def Seq.Attends (s : Seq) : Prop :=
  s.st = .selwait ∨ s.st = .msgout

/-- A selected target and an initiator that has `message` for it: ATN is seen before SEL is let go,
every request is answered with the next byte, and ATN stays up until that is the last one. -/
structure Tells (p : Params) (x : ℕ → State) (input : ℕ → Cycle) (message : List Byte) : Prop where
  selected : (x 0).seq.st = .selwait
  pin : ∀ t, (x t).seq.Attends → (input t).rst = false
  rst : ∀ t, (x t).seq.Attends → (input t).bus.rst = false
  releases : ∃ t, (input t).bus.sel = false
  attention : (x 0).seq.atnSeen = true ∨
    ∃ u, (∀ v < u, (input v).bus.sel = true) ∧ (input u).bus.atn = true
  acks : ∀ t, (x t).seq.st = .msgout → (x t).seq.hs = .req → ∃ u, t ≤ u ∧ (input u).bus.ack = true
  frees : ∀ t, (x t).seq.st = .msgout → (x t).seq.hs = .rel → ∃ u, t ≤ u ∧ (input u).bus.ack = false
  byte : ∀ t, (x t).seq.st = .msgout → (x t).seq.hs = .req → (input t).bus.ack = true →
    (input t).bus.data = message.getD (heard p x input t).length 0
  atn : ∀ t, (x t).seq.st = .msgout → (x t).seq.hs = .rel → (input t).bus.ack = false →
    (input t).bus.atn = decide ((heard p x input t).length < message.length)

/-- In cycle `e` the target goes on to COMMAND for `lun`, with the message behind it. -/
structure Understood (p : Params) (x : ℕ → State) (input : ℕ → Cycle) (message : List Byte)
    (lun : BitVec 3) (e : ℕ) : Prop where
  before : ∀ v < e, (x v).seq.Attends
  command : (x e).seq.Enters
  bytes : heard p x input e = message
  unit : (x e).seq.lun = lun

/-! ## Byte by byte -/

section Run

variable {p : Params} {s : State} {input : ℕ → Cycle} {message : List Byte} {t : ℕ} {u : BitVec 3}
  {m : Byte}

theorem hears_eq {x : ℕ → State} (st : (x t).seq.st = .msgout) :
    hears p x input t =
      if (x t).seq.hs = .req ∧ (input t).bus.ack = true then [(input t).bus.data] else [] := by
  have up : (x t).seq.connected = true := by simp [Seq.connected, st]
  have phase : (out p x input t).phase = phMsgOut :=
    (drive_phase _ up).trans (by simp [Seq.phase, st])
  have asks : (out p x input t).req = ((x t).seq.hs == .req) := by simp [out, drive, Seq.req, up]
  simp [hears, phase, asks]

theorem hears_selwait {x : ℕ → State} (st : (x t).seq.st = .selwait) : hears p x input t = [] := by
  have up : (x t).seq.connected = true := by simp [Seq.connected, st]
  have phase : (out p x input t).phase = phDataOut :=
    (drive_phase _ up).trans (by simp [Seq.phase, st])
  simp [hears, phase]

theorem heard_succ {x : ℕ → State} : heard p x input (t + 1) = heard p x input t ++ hears p x input t :=
  Clocked.trace_succ _ (Nat.zero_le t)

theorem run_selwait (tells : Tells p (run p s input) input message)
    (st : (run p s input t).seq.st = .selwait) :
    (run p s input (t + 1)).seq = (run p s input t).seq.endPulse.stepSelwait (input t).bus := by
  rw [run_succ]
  refine (Seq.clock_calm p _ (tells.pin t (.inl st)) (tells.rst t (.inl st))).trans ?_
  simp [Seq.step, Seq.endPulse, st]

theorem run_msgout (tells : Tells p (run p s input) input message)
    (st : (run p s input t).seq.st = .msgout) :
    (run p s input (t + 1)).seq = (run p s input t).seq.endPulse.stepMsgout (input t).bus := by
  rw [run_succ]
  refine (Seq.clock_calm p _ (tells.pin t (.inr st)) (tells.rst t (.inr st))).trans ?_
  simp [Seq.step, Seq.endPulse, st]

/-- In MESSAGE OUT with the first `k` bytes taken. -/
structure Listens (p : Params) (s : State) (input : ℕ → Cycle) (message : List Byte) (h : Hs)
    (k t : ℕ) : Prop where
  attends : ∀ v ≤ t, (run p s input v).seq.Attends
  st : (run p s input t).seq.st = .msgout
  hs : (run p s input t).seq.hs = h
  lun : (run p s input t).seq.lun = unitAfter s.seq.lun (message.take k)
  bytes : heard p (run p s input) input t = message.take k

theorem attends_succ (attends : ∀ v ≤ t, (run p s input v).seq.Attends)
    (next : (run p s input (t + 1)).seq.Attends) : ∀ v ≤ t + 1, (run p s input v).seq.Attends := by
  intro v low
  rcases Nat.lt_or_eq_of_le low with early | rfl
  · exact attends v (by omega)
  · exact next

/-- Still selected, with ATN seen or still to be seen. -/
structure Selected (p : Params) (s : State) (input : ℕ → Cycle) (t : ℕ) : Prop where
  attends : ∀ v ≤ t, (run p s input v).seq.Attends
  st : (run p s input t).seq.st = .selwait
  lun : (run p s input t).seq.lun = s.seq.lun
  bytes : heard p (run p s input) input t = []
  seen : (run p s input t).seq.atnSeen = true ∨
    ∃ w, t ≤ w ∧ (∀ v < w, (input v).bus.sel = true) ∧ (input w).bus.atn = true

theorem Tells.begins (tells : Tells p (run p s input) input message) : Selected p s input 0 := by
  refine ⟨fun v low => ?_, tells.selected, rfl, rfl, ?_⟩
  · obtain rfl : v = 0 := by omega
    exact .inl tells.selected
  · rcases tells.attention with seen | ⟨w, held, up⟩
    · exact .inl seen
    · exact .inr ⟨w, Nat.zero_le w, held, up⟩

theorem Selected.next (here : Selected p s input t) (tells : Tells p (run p s input) input message)
    (held : (input t).bus.sel = true) : Selected p s input (t + 1) := by
  have moved := run_selwait tells here.st
  have next : (run p s input (t + 1)).seq.st = .selwait ∧
      (run p s input (t + 1)).seq.lun = s.seq.lun ∧
      (run p s input (t + 1)).seq.atnSeen = ((input t).bus.atn || (run p s input t).seq.atnSeen) := by
    rw [moved]
    cases now : (input t).bus.atn <;>
      simp [Seq.stepSelwait, Seq.endPulse, held, now, here.lun, here.st]
  obtain ⟨st, lun, atnSeen⟩ := next
  refine ⟨attends_succ here.attends (.inl st), st, lun, ?_, ?_⟩
  · rw [heard_succ, here.bytes, hears_selwait here.st]
    rfl
  · rcases here.seen with before | ⟨w, low, ahead, up⟩
    · exact .inl (by simp [atnSeen, before])
    · rcases Nat.lt_or_eq_of_le low with later | rfl
      · exact .inr ⟨w, later, ahead, up⟩
      · exact .inl (by simp [atnSeen, up])

/-- SEL is let go, and ATN has been seen. -/
theorem begins_listening (tells : Tells p (run p s input) input message) :
    ∃ t, Listens p s input message .setup 0 t := by
  obtain ⟨free, released⟩ := tells.releases
  have waits (u : ℕ) (_ : 0 ≤ u) (here : Selected p s input u) (held : ¬ (input u).bus.sel = false) :
      Selected p s input (u + 1) :=
    here.next tells (by simpa using held)
  obtain ⟨r, -, gone, here⟩ := Clocked.lasts_until tells.begins waits ⟨free, Nat.zero_le _, released⟩
  have atn : (input r).bus.atn = true ∨ (run p s input r).seq.atnSeen = true := by
    rcases here.seen with before | ⟨w, low, held, up⟩
    · exact .inr before
    · rcases Nat.lt_or_eq_of_le low with later | rfl
      · exact absurd gone (by simp [held r later])
      · exact .inl up
  have moved := run_selwait tells here.st
  have next : (run p s input (r + 1)).seq.st = .msgout ∧ (run p s input (r + 1)).seq.hs = .setup ∧
      (run p s input (r + 1)).seq.lun = s.seq.lun := by
    rw [moved]
    rcases atn with now | before
    · simp [Seq.stepSelwait, Seq.endPulse, gone, now, here.lun]
    · cases now : (input r).bus.atn <;>
        simp [Seq.stepSelwait, Seq.endPulse, gone, now, before, here.lun]
  refine ⟨r + 1, attends_succ here.attends (.inr next.1), next.1, next.2.1, next.2.2, ?_⟩
  rw [heard_succ, here.bytes, hears_selwait here.st]
  rfl

/-- The target asks. -/
theorem Listens.asks {k : ℕ} (here : Listens p s input message .setup k t)
    (tells : Tells p (run p s input) input message) :
    Listens p s input message .req k (t + 1) := by
  have moved := run_msgout tells here.st
  have hs : (run p s input t).seq.endPulse.hs = .setup := here.hs
  simp only [Seq.stepMsgout, hs] at moved
  have st : (run p s input (t + 1)).seq.st = .msgout := by
    rw [moved]
    exact here.st
  refine ⟨attends_succ here.attends (.inr st), st, by rw [moved], ?_, ?_⟩
  · rw [moved]
    exact here.lun
  · rw [heard_succ, here.bytes, hears_eq here.st]
    simp [here.hs]

/-- The next byte is taken, in its own time. -/
theorem Listens.takes {k : ℕ} (here : Listens p s input message .req k t)
    (tells : Tells p (run p s input) input message) (more : k < message.length) :
    ∃ u, Listens p s input message .rel (k + 1) u ∧
      (run p s input u).seq.msgRx = message.getD k 0 := by
  have waits (u : ℕ) (_ : t ≤ u) (here : Listens p s input message .req k u)
      (silent : ¬ (input u).bus.ack = true) : Listens p s input message .req k (u + 1) := by
    have silent : (input u).bus.ack = false := by simpa using silent
    have moved := run_msgout tells here.st
    have hs : (run p s input u).seq.endPulse.hs = .req := here.hs
    simp only [Seq.stepMsgout, hs, silent, Bool.false_eq_true, if_false] at moved
    have st : (run p s input (u + 1)).seq.st = .msgout := by
      rw [moved]
      exact here.st
    refine ⟨attends_succ here.attends (.inr st), st, by rw [moved]; exact hs, ?_, ?_⟩
    · rw [moved]
      exact here.lun
    · rw [heard_succ, here.bytes, hears_eq here.st]
      simp [silent]
  obtain ⟨a, -, acked, here⟩ := Clocked.lasts_until here waits (tells.acks t here.st here.hs)
  have count : (heard p (run p s input) input a).length = k := by
    rw [here.bytes, List.length_take, Nat.min_eq_left (Nat.le_of_lt more)]
  have data : (input a).bus.data = message.getD k 0 := by
    rw [tells.byte a here.st here.hs acked, count]
  have longer : message.take (k + 1) = message.take k ++ [message.getD k 0] := by
    rw [List.take_add_one, List.getD_eq_getElem?_getD, List.getElem?_eq_getElem more]
    rfl
  have moved := run_msgout tells here.st
  have hs : (run p s input a).seq.endPulse.hs = .req := here.hs
  simp only [Seq.stepMsgout, hs, acked, if_true, data] at moved
  have st : (run p s input (a + 1)).seq.st = .msgout := by
    rw [moved]
    exact here.st
  refine ⟨a + 1, ⟨attends_succ here.attends (.inr st), st, by rw [moved], ?_, ?_⟩, by rw [moved]⟩
  · have lun : (run p s input a).seq.endPulse.lun = unitAfter s.seq.lun (message.take k) := here.lun
    rw [moved, longer, unitAfter_snoc, lun]
  · rw [heard_succ, here.bytes, hears_eq here.st, longer]
    simp [here.hs, acked, data]

/-- Where MESSAGE OUT goes once byte `k` has been let go. -/
def After (p : Params) (s : State) (input : ℕ → Cycle) (message : List Byte) (k e : ℕ) : Prop :=
  if hangsUp (message.getD k 0) then (run p s input e).seq.st = .free
  else if k + 1 < message.length then Listens p s input message .setup (k + 1) e
  else (run p s input e).seq.Enters ∧
    (run p s input e).seq.lun = unitAfter s.seq.lun (message.take (k + 1))

theorem Listens.lets {k : ℕ} (here : Listens p s input message .rel (k + 1) t)
    (rx : (run p s input t).seq.msgRx = message.getD k 0) (more : k < message.length)
    (tells : Tells p (run p s input) input message) :
    ∃ e, (∀ v < e, (run p s input v).seq.Attends) ∧
      heard p (run p s input) input e = message.take (k + 1) ∧ After p s input message k e := by
  have waits (u : ℕ) (_ : t ≤ u)
      (here : Listens p s input message .rel (k + 1) u ∧
        (run p s input u).seq.msgRx = message.getD k 0)
      (held : ¬ (input u).bus.ack = false) :
      Listens p s input message .rel (k + 1) (u + 1) ∧
        (run p s input (u + 1)).seq.msgRx = message.getD k 0 := by
    obtain ⟨here, rx⟩ := here
    have held : (input u).bus.ack = true := by simpa using held
    have moved := run_msgout tells here.st
    have hs : (run p s input u).seq.endPulse.hs = .rel := here.hs
    simp only [Seq.stepMsgout, hs, held, if_true] at moved
    have st : (run p s input (u + 1)).seq.st = .msgout := by
      rw [moved]
      exact here.st
    refine ⟨⟨attends_succ here.attends (.inr st), st, by rw [moved]; exact hs, ?_, ?_⟩, ?_⟩
    · rw [moved]
      exact here.lun
    · rw [heard_succ, here.bytes, hears_eq here.st]
      simp [here.hs]
    · rw [moved]
      exact rx
  obtain ⟨r, -, freed, here, rx⟩ :=
    Clocked.lasts_until ⟨here, rx⟩ waits (tells.frees t here.st here.hs)
  have count : (heard p (run p s input) input r).length = k + 1 := by
    rw [here.bytes, List.length_take, Nat.min_eq_left more]
  have bytes : heard p (run p s input) input (r + 1) = message.take (k + 1) := by
    rw [heard_succ, here.bytes, hears_eq here.st]
    simp [here.hs]
  have atn := tells.atn r here.st here.hs freed
  rw [count] at atn
  have moved := run_msgout tells here.st
  have hs : (run p s input r).seq.endPulse.hs = .rel := here.hs
  have last : (run p s input r).seq.endPulse.msgRx = message.getD k 0 := rx
  have lun : (run p s input r).seq.endPulse.lun = unitAfter s.seq.lun (message.take (k + 1)) := here.lun
  have out : (run p s input r).seq.endPulse.st = .msgout := here.st
  simp only [Seq.stepMsgout, hs, last, freed, atn, Bool.false_eq_true, if_false, decide_eq_true_eq]
    at moved
  refine ⟨r + 1, fun v low => here.attends v (by omega), bytes, ?_⟩
  unfold After
  split_ifs with hung again
  · have hung : _ ∨ _ := hung
    rw [if_pos hung] at moved
    rw [moved]
  · have quiet : ¬ (_ ∨ _) := hung
    rw [if_neg quiet, if_pos again] at moved
    have st : (run p s input (r + 1)).seq.st = .msgout := by
      rw [moved]
      exact out
    refine ⟨attends_succ here.attends (.inr st), st, by rw [moved], ?_, bytes⟩
    rw [moved]
    exact lun
  · have quiet : ¬ (_ ∨ _) := hung
    rw [if_neg quiet, if_neg again] at moved
    rw [moved]
    exact ⟨⟨rfl, rfl, rfl⟩, lun⟩

/-- How MESSAGE OUT ends: with the whole message taken, or at a byte that hangs up. -/
def Ends (p : Params) (s : State) (input : ℕ → Cycle) (message : List Byte) (e : ℕ) : Prop :=
  (∀ v < e, (run p s input v).seq.Attends) ∧
    ((run p s input e).seq.Enters ∧ heard p (run p s input) input e = message ∧
        (run p s input e).seq.lun = unitAfter s.seq.lun message ∧ (∀ b ∈ message, ¬ hangsUp b) ∨
      (run p s input e).seq.st = .free ∧ ∃ b ∈ message, hangsUp b)

theorem Listens.ends {k : ℕ} (here : Listens p s input message .setup k t) (more : k < message.length)
    (tells : Tells p (run p s input) input message) (clean : ∀ b ∈ message.take k, ¬ hangsUp b) :
    ∃ e, Ends p s input message e := by
  induction left : message.length - k generalizing k t with
  | zero => omega
  | succ n ih =>
      obtain ⟨u, rel, rx⟩ := (here.asks tells).takes tells more
      obtain ⟨e, before, bytes, after⟩ := rel.lets rx more tells
      have found : message.getD k 0 ∈ message := by
        rw [List.getD_eq_getElem?_getD, List.getElem?_eq_getElem more]
        exact List.getElem_mem more
      have longer : message.take (k + 1) = message.take k ++ [message.getD k 0] := by
        rw [List.take_add_one, List.getD_eq_getElem?_getD, List.getElem?_eq_getElem more]
        rfl
      unfold After at after
      split_ifs at after with hung again
      · exact ⟨e, before, .inr ⟨after, _, found, hung⟩⟩
      all_goals
        have still : ∀ b ∈ message.take (k + 1), ¬ hangsUp b := by
          intro b member
          rw [longer] at member
          rcases List.mem_append.mp member with early | now
          · exact clean b early
          · rw [List.mem_singleton.mp now]
            exact hung
      · exact ih after again still (by omega)
      · have whole : message.take (k + 1) = message := List.take_of_length_le (by omega)
        rw [whole] at bytes still after
        exact ⟨e, before, .inl ⟨after.1, bytes, after.2, still⟩⟩

/-- A message that is not empty comes to its end. -/
theorem Tells.ends (tells : Tells p (run p s input) input message) (some : 0 < message.length) :
    ∃ e, Ends p s input message e := by
  obtain ⟨t, here⟩ := begins_listening tells
  exact here.ends some tells (by simp)

/-- The end decides what became of the message. -/
theorem Ends.taken_iff {e : ℕ} {lun : BitVec 3} (ends : Ends p s input message e) :
    (∃ u, Understood p (run p s input) input message lun u) ↔
      (∀ b ∈ message, ¬ hangsUp b) ∧ unitAfter s.seq.lun message = lun := by
  obtain ⟨before, outcome⟩ := ends
  constructor
  · rintro ⟨u, understood⟩
    have cmd := understood.command.st
    have same : e = u := by
      rcases Nat.lt_trichotomy e u with early | same | late
      · have attends := understood.before e early
        rcases outcome with ⟨enters, -⟩ | ⟨free, -⟩
        · simp [Seq.Attends, enters.st] at attends
        · simp [Seq.Attends, free] at attends
      · exact same
      · have attends := before u late
        simp [Seq.Attends, cmd] at attends
    subst same
    rcases outcome with ⟨-, -, unit, clean⟩ | ⟨free, -⟩
    · exact ⟨clean, unit.symm.trans understood.unit⟩
    · simp [free] at cmd
  · rintro ⟨clean, unit⟩
    rcases outcome with ⟨enters, bytes, after, -⟩ | ⟨-, b, member, hung⟩
    · exact ⟨e, before, enters, bytes, after.trans unit⟩
    · exact absurd hung (clean b member)

end Run

/-! ## The whole message -/

/-- The target that is selected with ATN and sent IDENTIFY and extended messages takes exactly
those bytes and goes on to COMMAND for that unit, whatever the timing, if and only if the
extended messages are harmless. -/
theorem understood_iff (p : Params) (s : State) (input : ℕ → Cycle) (lun : BitVec 3)
    (messages : List Extended)
    (tells : Tells p (run p s input) input (identified lun messages)) :
    (∃ e, Understood p (run p s input) input (identified lun messages) lun e) ↔
      Harmless lun messages := by
  obtain ⟨e, ends⟩ := tells.ends (Nat.succ_pos _)
  rw [harmless_iff s.seq.lun]
  exact ends.taken_iff

/-! ## An initiator at work -/

/-- Without SEL nothing leads back to a selection. -/
theorem Seq.Edge.attends_back {p : Params} {s t : Seq} {c : Cycle} (edge : Seq.Edge p s c t)
    (sel : c.bus.sel = false) (attends : t.Attends) : s.Attends := by
  cases edge with
  | decide pin rst st decides => cases decides <;> simp_all [Seq.Attends]
  | _ => simp_all [Seq.Attends, selMatch, Seq.reset]

/-- A selected target and an initiator that has given `told` bytes. -/
structure Teller where
  targ : State
  told : ℕ := 0

namespace Teller

/-- SEL is gone; requests are acknowledged at once, and ATN goes down before the last byte. -/
def cycle (message : List Byte) (b : Teller) : Cycle where
  bus := {
    bsy := b.targ.seq.connected
    req := b.targ.seq.req
    ack := b.targ.seq.req
    atn := if b.targ.seq.hs = .rel then decide (b.told < message.length)
      else decide (b.told + 1 < message.length)
    data := message.getD b.told 0 }

def next (b : Teller) (c : Cycle) : Teller where
  targ := clock {} b.targ c
  told := if b.targ.seq.st = .msgout ∧ b.targ.seq.hs = .req then b.told + 1 else b.told

/-- Selected with ATN. -/
def selected : State :=
  ⟨{ st := .selwait, atnSeen := true }, .blank⟩

def loop (message : List Byte) : ℕ → Teller :=
  Clocked.loop next (cycle message) ⟨selected, 0⟩

def input (message : List Byte) (t : ℕ) : Cycle :=
  cycle message (loop message t)

variable {message : List Byte} {t : ℕ}

theorem loop_targ : (loop message t).targ = Targ.run {} selected (input message) t := by
  show (Clocked.loop next (cycle message) ⟨selected, 0⟩ t).targ = _
  rw [← Clocked.run_loop]
  exact Clocked.run_map (fun _ _ => rfl) _ _ t

theorem input_ack :
    (input message t).bus.ack = (Targ.run {} selected (input message) t).seq.req := by
  rw [← loop_targ]
  rfl

/-- Before it leaves MESSAGE OUT the target has heard as many bytes as were told. -/
theorem told_eq (attends : ∀ v < t, (Targ.run {} selected (input message) v).seq.Attends) :
    (heard {} (Targ.run {} selected (input message)) (input message) t).length =
      (loop message t).told := by
  induction t with
  | zero => rfl
  | succ t ih =>
      have earlier := ih fun v low => attends v (by omega)
      have told : (loop message (t + 1)).told =
          if (Targ.run {} selected (input message) t).seq.st = .msgout ∧
            (Targ.run {} selected (input message) t).seq.hs = .req then (loop message t).told + 1
          else (loop message t).told := by
        rw [← loop_targ]
        rfl
      rw [heard_succ, List.length_append, earlier, told]
      rcases attends t (Nat.lt_succ_self t) with wait | out
      · simp [hears_selwait wait, wait]
      · rw [hears_eq out, input_ack]
        by_cases asks : (Targ.run {} selected (input message) t).seq.hs = .req
        · simp [asks, out, Seq.req, Seq.connected]
        · simp [asks]

theorem attended (t : ℕ) (out : (Targ.run {} selected (input message) t).seq.Attends) :
    ∀ v < t, (Targ.run {} selected (input message) v).seq.Attends := by
  induction t with
  | zero => simp
  | succ t ih =>
      rw [run_succ] at out
      have now := (Seq.clock_edge {} _ (input message t)).attends_back rfl out
      intro v low
      rcases Nat.lt_succ_iff_lt_or_eq.mp low with early | rfl
      · exact ih now v early
      · exact now

/-- The target and this initiator are as they should be, whatever the message. -/
theorem tells (message : List Byte) :
    Tells {} (Targ.run {} selected (input message)) (input message) message where
  selected := rfl
  pin _ _ := rfl
  rst _ _ := rfl
  releases := ⟨0, rfl⟩
  attention := .inl rfl
  acks t st hs := by
    refine ⟨t, le_rfl, ?_⟩
    rw [input_ack]
    simp [Seq.req, Seq.connected, st, hs]
  frees t st hs := by
    refine ⟨t, le_rfl, ?_⟩
    rw [input_ack]
    simp [Seq.req, hs]
  byte t st _ _ := by
    rw [told_eq (attended t (.inr st))]
    rfl
  atn t st hs _ := by
    rw [told_eq (attended t (.inr st))]
    exact if_pos ((congrArg (fun x => x.seq.hs) loop_targ).trans hs)

end Teller

/-- A synchronous data transfer request: a period and an offset. -/
def syncRequest (period offset : Byte) : Extended where
  args := [0x01, period, offset]
  some := by simp
  short := by simp

/-- An offset of 15 does no harm. -/
theorem request_understood :
    ∃ e, Understood {} (run {} Teller.selected (Teller.input (identified 2 [syncRequest 25 15])))
      (Teller.input (identified 2 [syncRequest 25 15])) (identified 2 [syncRequest 25 15]) 2 e :=
  (understood_iff {} Teller.selected _ 2 [syncRequest 25 15] (Teller.tells _)).mpr (by decide)

/-- An offset of 6 is an ABORT: the initiator does everything right, and never sees COMMAND. -/
theorem request_aborts :
    Tells {} (run {} Teller.selected (Teller.input (identified 2 [syncRequest 25 6])))
        (Teller.input (identified 2 [syncRequest 25 6])) (identified 2 [syncRequest 25 6]) ∧
      ¬ ∃ e, Understood {} (run {} Teller.selected (Teller.input (identified 2 [syncRequest 25 6])))
        (Teller.input (identified 2 [syncRequest 25 6])) (identified 2 [syncRequest 25 6]) 2 e := by
  have tells := Teller.tells (identified 2 [syncRequest 25 6])
  refine ⟨tells, ?_⟩
  obtain ⟨e, ends⟩ := tells.ends (Nat.succ_pos _)
  rw [ends.taken_iff]
  decide

end Wish5380.Targ
