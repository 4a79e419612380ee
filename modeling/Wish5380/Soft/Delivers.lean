import Wish5380.Soft.Receive

/-!
# Bytes on their way in

A receive as an initiator from a target in DATA IN.  Between two passes each byte is in one place:
in front of the target, in the Input Data Register, or with the host; and what the host has taken,
with what is still to come, is what QEMU's SCSI layer handed over.
-/

namespace Wish5380.Soft

/-- The bytes the layer hands over. -/
def bytesOf : List Callback → List Byte
  | [] => []
  | .transferData buf :: callbacks => buf ++ bytesOf callbacks
  | .complete _ :: callbacks => bytesOf callbacks

theorem bytesOf_append (before more : List Callback) :
    bytesOf (before ++ more) = bytesOf before ++ bytesOf more := by
  induction before with
  | nil => rfl
  | cons callback before ih =>
      cases callback with
      | transferData buf => simp [bytesOf, ih]
      | complete status => exact ih

/-- Where the byte in front is.  `sent` went to the host and `all` is what goes there in the end;
`left` is the buffer from the byte in front, `held` the host's own ACK, and `dack` a DACK read that
the handshake has not seen. -/
inductive Carried (held enabled : Bool) (st : Chip.DmaSt) (dack : Bool) (idr : Byte) (hs : Hs)
    (left sent all : List Byte) : Prop where
  | ready (waits : st = .idle ∨ st = .rWant) (before : hs ≠ .rel) (rest : sent ++ left = all)
  | stuck (waits : st = .idle ∨ st = .rWant) (after : hs = .rel) (down : held = true)
      (part : sent <+: all)
  | passed (waits : st = .idle ∨ st = .rWant) (after : hs = .rel) (up : held = false)
      (rest : sent ++ left.tail = all)
  | latched (full : st = .rHave) (untaken : dack = false) (place : hs = .req ∨ hs = .rel ∧ held = true)
      (first : left.head? = some idr) (rest : sent ++ left = all)
  | taken (full : st = .rHave) (read : dack = true) (place : hs = .req ∨ hs = .rel ∧ held = true)
      (rest : sent ++ left.tail = all)
  | acking (acks : st = .rHs) (place : hs = .req ∨ hs = .rel ∧ enabled = true)
      (rest : sent ++ left.tail = all)

theorem Carried.part {held enabled : Bool} {st : Chip.DmaSt} {dack : Bool} {idr : Byte} {hs : Hs}
    {left all : List Byte} (carried : Carried held enabled st dack idr hs left sent all) :
    sent <+: all := by
  cases carried with
  | ready waits before rest => exact ⟨left, rest⟩
  | stuck waits after down part => exact part
  | passed waits after up rest => exact ⟨left.tail, rest⟩
  | latched full untaken place first rest => exact ⟨left, rest⟩
  | taken full read place rest => exact ⟨left.tail, rest⟩
  | acking acks place rest => exact ⟨left.tail, rest⟩

namespace Attached

variable {ρ : Type} {layer : Layer ρ} {a b : Attached ρ} {past : ℕ} {front sent : List Byte}

/-- The callbacks since the first `past` of them. -/
def since (past : ℕ) (a : Attached ρ) : List Callback :=
  a.handed.drop past

/-- `front` was there before, and the rest was handed over. -/
def promised (past : ℕ) (front : List Byte) (a : Attached ρ) : List Byte :=
  front ++ bytesOf (a.since past)

/-- The data phase goes on. -/
structure Underway (past : ℕ) (front sent : List Byte) (a : Attached ρ) : Prop where
  phase : a.targ.phase = .dataIn
  carried : Carried a.chip.held (!has a.chip.icr icrTest) a.chip.dmaSt a.chip.stDackRd a.chip.idr
    a.targ.hs a.targ.left sent (a.promised past front)
  going : ∀ status, Callback.complete status ∉ a.since past

/-- The request is complete, and its status is on the way. -/
structure Over (past : ℕ) (front sent : List Byte) (a : Attached ρ) : Prop where
  phase : a.targ.phase = .status
  all : sent = a.promised past front
  waits : a.chip.dmaSt = .idle ∨ a.chip.dmaSt = .rWant
  last : ∀ status, Callback.complete status ∈ a.since past → status = a.targ.status
  done : a.asked = false
  quiet : a.targ.hs = .setup → a.chip.peer.req = false
  offered : a.targ.hs ≠ .setup → a.chip.peer.data = a.targ.status ∧ a.chip.peer.msg = false ∧
    a.chip.peer.cd = true ∧ a.chip.peer.io = true
  up : a.targ.hs = .req → a.chip.peer.req = true
  down : a.targ.hs = .rel → a.chip.held = true

def Stage (past : ℕ) (front sent : List Byte) (a : Attached ρ) : Prop :=
  Underway past front sent a ∨ Over past front sent a

/-- A receive between two passes. -/
structure Flow (past : ℕ) (front sent : List Byte) (a : Attached ρ) : Prop extends Sound a where
  receives : a.chip.Receives
  since : past ≤ a.handed.length
  stage : Stage past front sent a

theorem Stage.giving (stage : Stage past front sent a) : Giving a.targ :=
  stage.imp Underway.phase Over.phase

/-! ## A callback -/

theorem since_back (long : past ≤ a.handed.length) (callback : Callback) :
    List.drop past (a.handed ++ [callback]) = a.since past ++ [callback] :=
  List.drop_append_of_le_length long

/-- A target that has asked for more gets it, or the end. -/
theorem Stage.back {req : ℕ} (current : a.targ.sreq = some req) (long : past ≤ a.handed.length)
    (setup : a.targ.hs = .setup) (released : a.chip.peer.req = false)
    (waits : a.chip.dmaSt = .idle ∨ a.chip.dmaSt = .rWant) (all : sent = a.promised past front)
    (dataIn : a.targ.phase = .dataIn) (going : ∀ status, Callback.complete status ∉ a.since past)
    (callback : Callback) : Stage past front sent (a.back req callback) := by
  have other : (a.targ.sreq != some req) = false := by simp [current]
  unfold Attached.back
  rw [other, if_neg (by simp)]
  cases callback with
  | transferData buf =>
      refine Or.inl ⟨dataIn, .ready waits (by simp [setup]) ?_, fun status => ?_⟩
      · show sent ++ buf = front ++ bytesOf (List.drop past (a.handed ++ [.transferData buf]))
        rw [since_back long, bytesOf_append, all, promised]
        simp [bytesOf]
      · show Callback.complete status ∉ List.drop past (a.handed ++ [.transferData buf])
        rw [since_back long]
        simpa using going status
  | complete status =>
      refine Or.inr ⟨rfl, ?_, waits, fun other => ?_, rfl, fun _ => released,
        fun moved => absurd rfl moved, fun req => by simp at req, fun rel => by simp at rel⟩
      · show sent = front ++ bytesOf (List.drop past (a.handed ++ [.complete status]))
        rw [since_back long, bytesOf_append, all, promised]
        simp [bytesOf]
      · show Callback.complete other ∈ List.drop past (a.handed ++ [.complete status]) → other = status
        rw [since_back long]
        intro found
        rcases List.mem_append.mp found with before | now
        · exact absurd before (going other)
        · simpa using now

/-- The byte in front has been acknowledged and the target goes on to the next. -/
theorem Stage.nextByte (long : past ≤ a.handed.length) (setup : a.targ.hs = .setup)
    (released : a.chip.peer.req = false) (waits : a.chip.dmaSt = .idle ∨ a.chip.dmaSt = .rWant)
    (rest : sent ++ a.targ.left.tail = a.promised past front) (dataIn : a.targ.phase = .dataIn)
    (going : ∀ status, Callback.complete status ∉ a.since past) :
    Stage past front sent (a.nextByte layer) := by
  have tail : a.targ.left.tail = (a.targ.asyncBuf.getD []).drop (a.targ.asyncOff + 1) := by
    unfold Target.left
    rw [List.tail_drop]
  have before : a.targ.hs ≠ .rel := by simp [setup]
  unfold Attached.nextByte
  dsimp only
  split_ifs with more
  · refine Or.inl ⟨dataIn, .ready waits before ?_, going⟩
    show sent ++ (a.targ.asyncBuf.getD []).drop (a.targ.asyncOff + 1) = a.promised past front
    rw [← tail, rest]
  · have all : sent = a.promised past front := by
      rw [← rest, tail, List.drop_eq_nil_of_le (Nat.le_of_not_lt more), List.append_nil]
    let emptied : Attached ρ := { a with targ := { a.targ with asyncBuf := none, asyncOff := 0 } }
    have empty : sent ++ [] = emptied.promised past front := by
      rw [List.append_nil]
      exact all
    show Stage past front sent (emptied.reqContinue layer (a.targ.asyncBuf.getD []))
    unfold reqContinue
    cases current : emptied.targ.sreq with
    | none => exact Or.inl ⟨dataIn, .ready waits before empty, going⟩
    | some req =>
        dsimp only
        let asked : Attached ρ :=
          { emptied with
            scsi := (layer.reqContinue emptied.scsi req (a.targ.asyncBuf.getD [])).2, asked := true }
        show Stage past front sent
          (asked.backs req (layer.reqContinue emptied.scsi req (a.targ.asyncBuf.getD [])).1)
        cases (layer.reqContinue emptied.scsi req (a.targ.asyncBuf.getD [])).1 with
        | none => exact Or.inl ⟨dataIn, .ready waits before empty, going⟩
        | some callback =>
            exact Stage.back (a := asked) current long setup released waits all dataIn going callback

theorem Stage.phaseLines (stage : Stage past front sent a) :
    Stage past front sent a.targetPhaseLines := by
  rw [phaseLines_eq stage.giving.connected]
  rcases stage with underway | ended
  · exact Or.inl ⟨underway.phase, underway.carried, underway.going⟩
  · refine Or.inr ⟨ended.phase, ended.all, ended.waits, ended.last, ended.done, ended.quiet,
      fun moved => ⟨(ended.offered moved).1, ?_⟩, ended.up, ended.down⟩
    rw [ended.phase]
    exact ⟨rfl, rfl, rfl⟩

/-! ## The target answers the edge -/

/-- The state between the edge of the chip and the target. -/
def edged (a : Attached ρ) (next : State) : Attached ρ :=
  { a with chip := next }

variable {next : State}

theorem held_ticked (ticked : State.Ticked a.chip next) : next.held = a.chip.held := by
  rw [State.held, State.held, ticked.icr]

theorem ack_waiting (ticked : State.Ticked a.chip next) (other : a.chip.dmaSt ≠ .rHs) :
    (a.edged next).chip.wires.ack = a.chip.held := by
  rw [← State.acks_waiting other]
  exact ticked.ack

theorem st_ticked (ticked : State.Ticked a.chip next) : next.dmaSt = a.chip.moved.dmaSt :=
  congrArg Handshake.dmaSt ticked.handshake

theorem idr_ticked (ticked : State.Ticked a.chip next) : next.idr = a.chip.moved.idr :=
  congrArg Handshake.idr ticked.handshake

theorem Flow.busy_ticked (flow : Flow past front sent a) (connected : a.targ.phase ≠ .free)
    (ticked : State.Ticked a.chip next) : (a.edged next).chip.peer.bsy = true := by
  show next.peer.bsy = true
  rw [ticked.peer]
  exact (flow.busy connected).1

section Underway

variable (flow : Flow past front sent a) (underway : Underway past front sent a)
  (ticked : State.Ticked a.chip next)

include flow underway ticked

/-- A target that asks, or has lowered REQ and sees ACK, does no more than lower REQ. -/
theorem Underway.answered (place : a.targ.hs = .req ∨ a.targ.hs = .rel ∧ next.wires.ack = true)
    (carried : ∀ hs, hs = a.targ.hs ∨ hs = .rel → hs = .req ∨ hs = .rel ∧ next.wires.ack = true →
      Carried next.held (!has next.icr icrTest) next.dmaSt next.stDackRd next.idr hs a.targ.left
        sent (a.promised past front)) :
    Stage past front sent ((a.edged next).targetSettled layer) := by
  have giving : Giving (a.edged next).targ := Or.inl underway.phase
  have bsy := flow.busy_ticked (by simp [underway.phase]) ticked
  have here := carried a.targ.hs (Or.inl rfl) place
  rcases place with req | ⟨rel, ack⟩
  · cases ack : next.wires.ack with
    | true =>
        rw [settled_acked giving bsy req ack]
        exact Or.inl ⟨underway.phase, carried .rel (Or.inr rfl) (Or.inr ⟨rfl, ack⟩), underway.going⟩
    | false =>
        rw [settled_stays giving bsy (Or.inl ⟨req, ack⟩)]
        exact Or.inl ⟨underway.phase, here, underway.going⟩
  · rw [settled_stays giving bsy (Or.inr ⟨rel, ack⟩)]
    exact Or.inl ⟨underway.phase, here, underway.going⟩

/-- The target still has the byte in front. -/
theorem Underway.settled_ready (waits : a.chip.dmaSt = .idle ∨ a.chip.dmaSt = .rWant)
    (before : a.targ.hs ≠ .rel) (rest : sent ++ a.targ.left = a.promised past front) :
    Stage past front sent ((a.edged next).targetSettled layer) := by
  have giving : Giving (a.edged next).targ := Or.inl underway.phase
  have bsy := flow.busy_ticked (by simp [underway.phase]) ticked
  have reading := flow.reading underway.phase
  have ack : next.wires.ack = next.held :=
    (ack_waiting ticked (by rcases waits with st | st <;> simp [st])).trans (held_ticked ticked).symm
  cases hs : a.targ.hs with
  | rel => exact absurd hs before
  | setup =>
      have still := State.moved_waits waits (reading.quiet hs)
      rw [← st_ticked ticked] at still
      cases full : (a.edged next).targ.haveByte with
      | true =>
          rw [settled_offers giving bsy hs full]
          exact Or.inl ⟨underway.phase, .ready still (by simp) rest, underway.going⟩
      | false =>
          rw [settled_waits giving bsy hs full]
          exact Or.inl ⟨underway.phase, .ready still before rest, underway.going⟩
  | req =>
      have shown : State.showsDataIn a.chip.peer = true := by
        obtain ⟨msg, cd, io⟩ := flow.lines underway.phase
        simp [State.showsDataIn, msg, cd, io]
      obtain ⟨up, data⟩ := reading.offered hs
      refine underway.answered flow ticked (Or.inl hs) fun other _ place => ?_
      rw [ack] at place
      rcases waits with idle | want
      · have still := State.moved_begins idle
        rw [← st_ticked ticked] at still
        rcases place with req | ⟨rel, down⟩
        · exact .ready still (by simp [req]) rest
        · exact .stuck still rel down ⟨a.targ.left, rest⟩
      · have latches := State.moved_latches want up shown
        have full : next.dmaSt = .rHave := by rw [st_ticked ticked, latches]
        have first : a.targ.left.head? = some next.idr := by
          rw [idr_ticked ticked, latches, data,
            Target.left_of_full underway.phase (reading.full (by simp [hs]))]
          rfl
        exact .latched full ticked.quiet.dackRd place first rest

/-- The host has taken the byte that was acknowledged, and ACK is gone. -/
theorem Underway.settled_passed (waits : a.chip.dmaSt = .idle ∨ a.chip.dmaSt = .rWant)
    (after : a.targ.hs = .rel) (up : a.chip.held = false)
    (rest : sent ++ a.targ.left.tail = a.promised past front) :
    Stage past front sent ((a.edged next).targetSettled layer) := by
  have bsy := flow.busy_ticked (by simp [underway.phase]) ticked
  have ack : next.wires.ack = _ := ack_waiting ticked (by rcases waits with st | st <;> simp [st])
  have still := State.moved_waits waits (flow.dropped after)
  rw [← st_ticked ticked] at still
  rw [up] at ack
  rw [settled_released (b := a.edged next) (Or.inl underway.phase) bsy after ack]
  let opened : Attached ρ :=
    { a with chip := { next with dirty := true }, targ := { a.targ with hs := .setup } }
  have released : next.peer.req = false := by
    rw [ticked.peer]
    exact flow.dropped after
  have advanced : Stage past front sent (opened.nextByte layer) :=
    Stage.nextByte flow.since rfl released still rest underway.phase underway.going
  have same : opened.targetAdvance layer a.targ.hsByte a.targ.atnAtSelect =
      opened.nextByte layer := by
    unfold targetAdvance
    rw [show opened.targ.phase = .dataIn from underway.phase]
  exact (same ▸ advanced).phaseLines

theorem Underway.settled :
    Stage past front sent ((a.edged next).targetSettled layer) := by
  have st := st_ticked ticked
  cases underway.carried with
  | ready waits before rest => exact underway.settled_ready flow ticked waits before rest
  | passed waits after up rest => exact underway.settled_passed flow ticked waits after up rest
  | stuck waits after down part =>
      have ack : next.wires.ack = _ := ack_waiting ticked (by rcases waits with st | st <;> simp [st])
      have still := State.moved_waits waits (flow.dropped after)
      rw [← st] at still
      refine underway.answered flow ticked (Or.inr ⟨after, ack.trans down⟩) fun hs same _ => ?_
      have rel : hs = .rel := same.elim (·.trans after) id
      exact .stuck still rel ((held_ticked ticked).trans down) part
  | latched full fresh place first rest =>
      have ack : next.wires.ack = _ := ack_waiting ticked (by simp [full])
      have keeps := State.moved_keeps full fresh
      have still : next.dmaSt = .rHave := by rw [st, keeps, full]
      have kept : a.targ.left.head? = some next.idr := by
        rw [idr_ticked ticked, keeps]
        exact first
      refine underway.answered flow ticked (by rwa [← ack] at place) fun hs _ place => ?_
      rw [ack.trans (held_ticked ticked).symm] at place
      exact .latched still ticked.quiet.dackRd place kept rest
  | taken full read place rest =>
      have ack : next.wires.ack = _ := ack_waiting ticked (by simp [full])
      have acks : next.dmaSt = .rHs := st.trans (State.moved_taken full read)
      refine underway.answered flow ticked (by rwa [← ack] at place) fun hs _ place => ?_
      rw [ack.trans (held_ticked ticked).symm] at place
      exact .acking acks (place.imp_right fun ⟨rel, down⟩ => ⟨rel, State.held_enabled down⟩) rest
  | acking acks place rest =>
      have ack : next.wires.ack = !has next.icr icrTest := by
        rw [ticked.icr]
        exact ticked.ack.trans (State.acks_acking acks)
      have moves := st.trans (State.moved_acking acks)
      rw [← ticked.icr, ← ack] at place
      refine underway.answered flow ticked place fun hs same after => ?_
      rcases place with req | ⟨here, _⟩
      · rw [(flow.reading underway.phase |>.offered req).1, if_pos rfl] at moves
        rw [ack] at after
        exact .acking moves after rest
      · have rel : hs = .rel := same.elim (·.trans here) id
        rw [flow.dropped here, if_neg (by simp)] at moves
        cases down : next.held with
        | true => exact .stuck (Or.inr moves) rel rfl ⟨a.targ.left.tail, rest⟩
        | false => exact .passed (Or.inr moves) rel rfl rest

end Underway

theorem Over.settled (flow : Flow past front sent a) (ended : Over past front sent a)
    (ticked : State.Ticked a.chip next) :
    Over past front sent ((a.edged next).targetSettled layer) := by
  have status : (a.edged next).targ.phase = .status := ended.phase
  have giving : Giving (a.edged next).targ := Or.inr status
  have bsy := flow.busy_ticked (by simp [ended.phase]) ticked
  have st : (a.edged next).chip.dmaSt = a.chip.moved.dmaSt := st_ticked ticked
  have ack : next.wires.ack = _ := ack_waiting ticked (by rcases ended.waits with st | st <;> simp [st])
  have lines : Target.phaseLines (a.edged next).targ.phase = (false, true, true) := by
    rw [status]
    rfl
  have data : (a.edged next).targ.outByte = a.targ.status := by
    unfold Target.outByte
    rw [status]
    rfl
  cases hs : a.targ.hs with
  | setup =>
      have still := State.moved_waits ended.waits (ended.quiet hs)
      rw [← st] at still
      have full : (a.edged next).targ.haveByte = true := by
        unfold Target.haveByte
        rw [status]
      rw [settled_offers giving bsy hs full]
      refine ⟨status, ended.all, still, ended.last, ended.done, fun setup => by simp at setup,
        fun _ => ⟨data, ?_⟩, fun _ => rfl, fun rel => by simp at rel⟩
      simp [Target.onLines, lines]
  | req =>
      obtain ⟨byte, msg, cd, io⟩ := ended.offered (by simp [hs])
      have still := State.moved_ignores ended.waits (by simp [State.showsDataIn, cd])
      rw [← st] at still
      cases down : a.chip.held with
      | true =>
          rw [settled_acked giving bsy hs (ack.trans down)]
          refine ⟨status, ended.all, still, ended.last, ended.done, fun setup => by simp at setup,
            fun _ => ⟨?_, ?_⟩, fun req => by simp at req, fun _ => (held_ticked ticked).trans down⟩
          · show next.peer.data = a.targ.status
            rw [ticked.peer, byte]
          · simp [Target.onLines, lines]
      | false =>
          rw [settled_stays giving bsy (Or.inl ⟨hs, ack.trans down⟩)]
          refine ⟨status, ended.all, still, ended.last, ended.done, fun setup => ?_,
            fun _ => ⟨?_, ?_⟩, fun _ => ?_, fun rel => ?_⟩
          · simp [edged, hs] at setup
          · show next.peer.data = a.targ.status
            rw [ticked.peer, byte]
          · simp [Target.onLines, lines]
          · show next.peer.req = true
            rw [ticked.peer]
            exact ended.up hs
          · simp [edged, hs] at rel
  | rel =>
      obtain ⟨byte, msg, cd, io⟩ := ended.offered (by simp [hs])
      have still := State.moved_waits ended.waits (flow.dropped hs)
      rw [← st] at still
      rw [settled_stays giving bsy (Or.inr ⟨hs, ack.trans (ended.down hs)⟩)]
      refine ⟨status, ended.all, still, ended.last, ended.done, fun setup => ?_,
        fun _ => ⟨?_, ?_⟩, fun req => ?_, fun _ => (held_ticked ticked).trans (ended.down hs)⟩
      · simp [edged, hs] at setup
      · show next.peer.data = a.targ.status
        rw [ticked.peer, byte]
      · simp [Target.onLines, lines]
      · simp [edged, hs] at req

/-! ## A pass -/

/-- The mark of news is not part of what a pass is about. -/
def soiled (a : Attached ρ) (dirty : Bool) : Attached ρ :=
  { a with chip := { a.chip with dirty := dirty } }

theorem Flow.pass_eq (flow : Flow past front sent a) : ∃ next, State.Ticked a.chip next ∧
    a.pass layer = ((a.edged next).targetSettled layer).soiled (a.pass layer).chip.dirty ∧
      (((a.edged next).targetSettled layer).chip.dirty = true →
        (a.pass layer).chip.dirty = true) := by
  obtain ⟨drv, combined, drives⟩ := State.combine_drives { a.chip with dirty := false }
  have connected : a.targ.phase ≠ .free := by
    rcases flow.stage with underway | ended
    · simp [underway.phase]
    · simp [ended.phase]
  obtain ⟨bsy, free⟩ := flow.busy connected
  have as_is : State.Drives a.chip drv :=
    ⟨drives.rst, drives.bsy, drives.sel, drives.ack, drives.asks, drives.data⟩
  have wired : a.combined = a.edged (a.chip.wiredTo drv) := by
    unfold Attached.combined
    rw [combined]
    rfl
  have edge : a.combined.tick layer = a.edged (a.chip.wiredTo drv).tick := by
    have calm : ((a.edged (a.chip.wiredTo drv)).chip.wires.rst &&
      !(a.edged (a.chip.wiredTo drv)).chip.prevRst) = false := (flow.receives.calm flow.mute as_is).2
    rw [wired, Attached.tick, calm]
    rfl
  refine ⟨(a.chip.wiredTo drv).tick, flow.receives.ticked flow.mute bsy free as_is, ?_, ?_⟩ <;>
    unfold Attached.pass <;> rw [edge]
  · rfl
  · intro dirty
    dsimp only
    rw [dirty]
    rfl

theorem Stage.soiled (stage : Stage past front sent a) (dirty : Bool) :
    Stage past front sent (a.soiled dirty) := by
  rcases stage with underway | ended
  · exact Or.inl ⟨underway.phase, underway.carried, underway.going⟩
  · exact Or.inr ⟨ended.phase, ended.all, ended.waits, ended.last, ended.done, ended.quiet, ended.offered,
      ended.up, ended.down⟩

/-- The registers of a receive are none of the target's business. -/
theorem Kept.receives (kept : Kept a b) (receives : a.chip.Receives) : b.chip.Receives := by
  rw [kept.chip]
  exact ⟨receives.dma, receives.initiator, receives.phase, receives.place, receives.sds,
    receives.sdtr, receives.rst⟩

theorem Flow.pass (flow : Flow past front sent a) : Flow past front sent (a.pass layer) := by
  obtain ⟨next, ticked, form, -⟩ := flow.pass_eq
  have kept : Kept (a.edged next) ((a.edged next).targetSettled layer) := targetSettled_kept
  have stage : Stage past front sent ((a.edged next).targetSettled layer) := by
    rcases flow.stage with underway | ended
    · exact underway.settled flow ticked
    · exact Or.inr (ended.settled flow ticked)
  refine ⟨flow.toSound.pass, ?_, ?_, ?_⟩ <;> rw [form]
  · have receives := kept.receives ticked.receives
    exact ⟨receives.dma, receives.initiator, receives.phase, receives.place, receives.sds,
      receives.sdtr, receives.rst⟩
  · exact flow.since.trans kept.handed.length_le
  · exact stage.soiled _

end Attached

end Wish5380.Soft
