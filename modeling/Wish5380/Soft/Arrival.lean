import Wish5380.Soft.Delivers

/-!
# Bytes that arrive

The settle loop of a receive goes on until neither end of the handshake can, in a handful of
passes.  So a host that reads when DRQ is up gets the bytes of the layer once each and in order,
and a request that is complete shows its status.
-/

namespace Wish5380.Soft

namespace Attached

variable {ρ : Type} {layer : Layer ρ} {a b : Attached ρ} {past : ℕ} {front sent : List Byte}
  {next : State}

/-! ## What a pass moves -/

/-- The target's handshake after a pass. -/
def nextHs (a : Attached ρ) : Hs :=
  match a.targ.hs with
  | .setup => if a.targ.haveByte then .req else .setup
  | .req => if a.chip.acks then .rel else .req
  | .rel => if a.chip.acks then .rel else .setup

theorem nextByte_marks (setup : a.targ.hs = .setup) (dirty : a.chip.dirty = true) :
    (a.nextByte layer).targ.hs = .setup ∧ (a.nextByte layer).chip.dirty = true := by
  unfold nextByte
  dsimp only
  split_ifs
  · exact ⟨setup, dirty⟩
  · unfold reqContinue
    dsimp only
    split
    · unfold backs back
      split
      · split_ifs
        · exact ⟨setup, dirty⟩
        · split
          · exact ⟨setup, rfl⟩
          · exact ⟨rfl, rfl⟩
      · exact ⟨setup, dirty⟩
    · exact ⟨setup, dirty⟩

theorem phaseLines_marks : a.targetPhaseLines.targ = a.targ ∧
    a.targetPhaseLines.chip.dirty = a.chip.dirty := by
  unfold targetPhaseLines
  split_ifs <;> exact ⟨rfl, rfl⟩

theorem settled_hs (giving : Giving a.targ) (bsy : a.chip.peer.bsy = true)
    (ticked : State.Ticked a.chip next) :
    ((a.edged next).targetSettled layer).targ.hs = a.nextHs ∧
      (a.nextHs ≠ a.targ.hs ∨ next.dirty = true →
        ((a.edged next).targetSettled layer).chip.dirty = true) := by
  have same : Giving (a.edged next).targ := giving
  have busy : (a.edged next).chip.peer.bsy = true := by
    show next.peer.bsy = true
    rw [ticked.peer, bsy]
  have ack : (a.edged next).chip.wires.ack = a.chip.acks := ticked.ack
  unfold nextHs
  cases hs : a.targ.hs with
  | setup =>
      dsimp only
      cases full : a.targ.haveByte with
      | true =>
          rw [settled_offers same busy hs full]
          exact ⟨rfl, fun _ => rfl⟩
      | false =>
          rw [settled_waits same busy hs full]
          exact ⟨hs, fun news => news.resolve_left fun moves => moves rfl⟩
  | req =>
      dsimp only
      cases acks : a.chip.acks with
      | true =>
          rw [settled_acked same busy hs (ack.trans acks)]
          exact ⟨rfl, fun _ => rfl⟩
      | false =>
          rw [settled_stays same busy (Or.inl ⟨hs, ack.trans acks⟩)]
          exact ⟨hs, fun news => news.resolve_left fun moves => moves rfl⟩
  | rel =>
      dsimp only
      cases acks : a.chip.acks with
      | true =>
          rw [settled_stays same busy (Or.inr ⟨hs, ack.trans acks⟩)]
          exact ⟨hs, fun news => news.resolve_left fun moves => moves rfl⟩
      | false =>
          rw [settled_released same busy hs (ack.trans acks), phaseLines_marks.1, phaseLines_marks.2]
          let opened : Attached ρ :=
            { a with chip := { next with dirty := true }, targ := { a.targ with hs := .setup } }
          have marks : (opened.targetAdvance layer a.targ.hsByte a.targ.atnAtSelect).targ.hs = .setup ∧
              (opened.targetAdvance layer a.targ.hsByte a.targ.atnAtSelect).chip.dirty = true := by
            unfold targetAdvance
            rcases giving with phase | phase
            · rw [show opened.targ.phase = .dataIn from phase]
              exact nextByte_marks rfl rfl
            · rw [show opened.targ.phase = .status from phase]
              exact ⟨rfl, rfl⟩
          exact ⟨marks.1, fun _ => marks.2⟩

/-- Neither end can go on. -/
structure Still (a : Attached ρ) : Prop where
  chip : a.chip.moved.dmaSt = a.chip.dmaSt
  target : a.nextHs = a.targ.hs

theorem Flow.bsy (flow : Flow past front sent a) : a.chip.peer.bsy = true :=
  (flow.busy flow.stage.giving.connected).1

/-- A pass moves each end as far as it can, and reports it. -/
theorem Flow.pass_moves (flow : Flow past front sent a) :
    (a.pass layer).chip.icr = a.chip.icr ∧ (a.pass layer).chip.dmaSt = a.chip.moved.dmaSt ∧
      (a.pass layer).targ.hs = a.nextHs ∧ (¬Still a → (a.pass layer).chip.dirty = true) := by
  obtain ⟨next, ticked, form, reports⟩ := flow.pass_eq
  obtain ⟨hs, marks⟩ := settled_hs flow.stage.giving flow.bsy ticked
  have kept : Kept (a.edged next) ((a.edged next).targetSettled layer) := targetSettled_kept
  have st : next.dmaSt = a.chip.moved.dmaSt := congrArg Handshake.dmaSt ticked.handshake
  refine ⟨?_, ?_, ?_, fun moves => reports (marks ?_)⟩
  · rw [form]
    show ((a.edged next).targetSettled layer).chip.icr = a.chip.icr
    rw [kept.chip]
    exact ticked.icr
  · rw [form]
    show ((a.edged next).targetSettled layer).chip.dmaSt = _
    rw [kept.chip]
    exact st
  · rw [form]
    exact hs
  · by_contra none
    rw [not_or] at none
    refine moves ⟨?_, not_not.mp none.1⟩
    by_contra changes
    exact none.2 (ticked.news (by rw [st]; exact changes))

/-- How far a handshake can go without the host. -/
def rankOf (held : Bool) (st : Chip.DmaSt) (hs : Hs) : ℕ :=
  match st, hs with
  | .rHs, .req => 8
  | .rHs, .rel => 7
  | .rHave, .req => 3
  | .rHave, .rel => 2
  | .idle, .rel | .rWant, .rel => if held then 0 else 6
  | .idle, .setup | .rWant, .setup => 5
  | .idle, .req | .rWant, .req => 4
  | _, _ => 0

def rank (a : Attached ρ) : ℕ :=
  rankOf a.chip.held a.chip.dmaSt a.targ.hs

theorem rank_le (a : Attached ρ) : a.rank ≤ 8 := by
  unfold rank
  cases a.chip.held <;> cases a.chip.dmaSt <;> cases a.targ.hs <;> decide

theorem rankOf_waiting {st : Chip.DmaSt} (waits : st = .idle ∨ st = .rWant) (held : Bool) :
    rankOf held st .setup = 5 ∧ rankOf held st .req = 4 ∧
      rankOf held st .rel = if held then 0 else 6 := by
  rcases waits with rfl | rfl <;> exact ⟨rfl, rfl, rfl⟩

/-- Without a strobe, an end that goes on is nearer to where it cannot. -/
theorem Underway.rank (flow : Flow past front sent a) (underway : Underway past front sent a)
    (quiet : State.Raised Core.quiet a.chip) :
    Still a ∨ rankOf a.chip.held a.chip.moved.dmaSt a.nextHs < a.rank := by
  have reading := flow.reading underway.phase
  have untaken : a.chip.stDackRd = false := quiet.dackRd
  have sdir : a.chip.stSdir = false := quiet.sdir
  cases underway.carried with
  | ready waits before rest =>
      have ack := State.acks_waiting (c := a.chip) (by rcases waits with st | st <;> simp [st])
      cases hs : a.targ.hs with
      | rel => exact absurd hs before
      | setup =>
          have st := State.moved_still waits sdir (Or.inl (reading.quiet hs))
          cases full : a.targ.haveByte with
          | true =>
              refine Or.inr ?_
              rw [Attached.rank, st, nextHs, hs]
              simp [full, rankOf_waiting waits]
          | false => exact Or.inl ⟨st, by simp [nextHs, hs, full]⟩
      | req =>
          obtain ⟨up, -⟩ := reading.offered hs
          obtain ⟨msg, cd, io⟩ := flow.lines underway.phase
          rcases waits with idle | want
          · have st := State.moved_idle idle sdir
            cases down : a.chip.held with
            | true =>
                refine Or.inr ?_
                rw [Attached.rank, st, nextHs, hs, idle]
                simp [ack, down, rankOf]
            | false => exact Or.inl ⟨st, by simp [nextHs, hs, ack, down]⟩
          · refine Or.inr ?_
            have latches := State.moved_latches want up (by simp [State.showsDataIn, msg, cd, io])
            rw [Attached.rank, latches, nextHs, hs, want]
            cases down : a.chip.held <;> simp [ack, down, rankOf]
  | stuck waits after down part =>
      have ack := State.acks_waiting (c := a.chip) (by rcases waits with st | st <;> simp [st])
      exact Or.inl ⟨State.moved_still waits sdir (Or.inl (flow.dropped after)),
        by simp [nextHs, after, ack, down]⟩
  | passed waits after up rest =>
      have ack := State.acks_waiting (c := a.chip) (by rcases waits with st | st <;> simp [st])
      refine Or.inr ?_
      rw [Attached.rank, State.moved_still waits sdir (Or.inl (flow.dropped after)), nextHs, after]
      simp [ack, up, rankOf_waiting waits]
  | latched full fresh place first rest =>
      have ack := State.acks_waiting (c := a.chip) (by simp [full])
      have st : a.chip.moved.dmaSt = a.chip.dmaSt := by rw [State.moved_keeps full fresh]
      rcases place with req | ⟨rel, down⟩
      · cases down : a.chip.held with
        | true =>
            refine Or.inr ?_
            rw [Attached.rank, st, nextHs, req, full]
            simp [ack, down, rankOf]
        | false => exact Or.inl ⟨st, by simp [nextHs, req, ack, down]⟩
      · exact Or.inl ⟨st, by simp [nextHs, rel, ack, down]⟩
  | taken full read place rest => simp [untaken] at read
  | acking acks place rest =>
      have ack := State.acks_acking acks
      have moves := State.moved_acking acks
      rcases place with req | ⟨rel, enabled⟩
      · rw [(reading.offered req).1, if_pos rfl] at moves
        cases enabled : !has a.chip.icr icrTest with
        | true =>
            refine Or.inr ?_
            rw [Attached.rank, moves, nextHs, req, acks, ack, enabled]
            cases a.chip.held <;> simp [rankOf]
        | false => exact Or.inl ⟨moves.trans acks.symm, by simp [nextHs, req, ack, enabled]⟩
      · rw [flow.dropped rel, if_neg (by simp)] at moves
        refine Or.inr ?_
        rw [Attached.rank, moves, nextHs, rel, acks, ack, enabled]
        cases a.chip.held <;> simp [rankOf]

theorem Over.rank (flow : Flow past front sent a) (ended : Over past front sent a)
    (quiet : State.Raised Core.quiet a.chip) :
    Still a ∨ rankOf a.chip.held a.chip.moved.dmaSt a.nextHs < a.rank := by
  have sdir : a.chip.stSdir = false := quiet.sdir
  have ack := State.acks_waiting (c := a.chip) (by rcases ended.waits with st | st <;> simp [st])
  cases hs : a.targ.hs with
  | setup =>
      have st := State.moved_still ended.waits sdir (Or.inl (ended.quiet hs))
      refine Or.inr ?_
      rw [Attached.rank, st, nextHs, hs]
      simp [Target.haveByte, ended.phase, rankOf_waiting ended.waits]
  | req =>
      have st := State.moved_still ended.waits sdir
        (Or.inr (by simp [State.showsDataIn, (ended.offered (by simp [hs])).2.2.1]))
      cases down : a.chip.held with
      | true =>
          refine Or.inr ?_
          rw [Attached.rank, st, nextHs, hs]
          simp [ack, down, rankOf_waiting ended.waits]
      | false => exact Or.inl ⟨st, by simp [nextHs, hs, ack, down]⟩
  | rel =>
      exact Or.inl ⟨State.moved_still ended.waits sdir (Or.inl (flow.dropped hs)),
        by simp [nextHs, hs, ack, ended.down hs]⟩

theorem Flow.rank (flow : Flow past front sent a) (quiet : State.Raised Core.quiet a.chip)
    (moves : ¬Still a) : (a.pass layer).rank < a.rank := by
  obtain ⟨icr, st, hs, -⟩ := flow.pass_moves
  rw [Attached.rank, State.held, icr, st, hs]
  rcases flow.stage with underway | ended
  · exact (underway.rank flow quiet).resolve_left moves
  · exact (ended.rank flow quiet).resolve_left moves

/-! ## At rest -/

/-- The lines of the phase, once a byte has been offered in it. -/
theorem Flow.shown (flow : Flow past front sent a)
    (dataIn : a.targ.hs = .setup → a.targ.phase = .dataIn) :
    (a.chip.peer.msg, a.chip.peer.cd, a.chip.peer.io) = Target.phaseLines a.targ.phase := by
  rcases flow.stage with underway | ended
  · obtain ⟨msg, cd, io⟩ := flow.lines underway.phase
    rw [underway.phase, msg, cd, io]
    rfl
  · have offered : a.targ.hs ≠ .setup := fun setup => by
      have other := dataIn setup
      simp [ended.phase] at other
    obtain ⟨-, msg, cd, io⟩ := ended.offered offered
    rw [ended.phase, msg, cd, io]
    rfl

/-- The target has nothing to say, and sets its lines as they were. -/
theorem Still.settled (still : Still a) (flow : Flow past front sent a)
    (ticked : State.Ticked a.chip next) :
    ((a.edged next).targetSettled layer).targ = a.targ ∧
      ((a.edged next).targetSettled layer).chip.peer = a.chip.peer := by
  have giving : Giving (a.edged next).targ := flow.stage.giving
  have bsy : (a.edged next).chip.peer.bsy = true := by
    show next.peer.bsy = true
    rw [ticked.peer, flow.bsy]
  have ack : (a.edged next).chip.wires.ack = a.chip.acks := ticked.ack
  have moves := still.target
  rw [nextHs] at moves
  cases hs : a.targ.hs with
  | setup =>
      rw [hs] at moves
      have empty : a.targ.haveByte = false := by
        cases full : a.targ.haveByte with
        | false => rfl
        | true => simp [full] at moves
      have dataIn : a.targ.phase = .dataIn := by
        rcases flow.stage.giving with dataIn | status
        · exact dataIn
        · simp [Target.haveByte, status] at empty
      rw [settled_waits giving bsy hs empty]
      refine ⟨rfl, ?_⟩
      show Target.onLines a.targ.phase { next.peer with req := false } = a.chip.peer
      rw [ticked.peer, ← (flow.reading dataIn).quiet hs]
      exact Target.onLines_eq (flow.shown fun _ => dataIn)
  | req =>
      rw [hs] at moves
      have waits : a.chip.acks = false := by
        cases acks : a.chip.acks with
        | false => rfl
        | true => simp [acks] at moves
      rw [settled_stays giving bsy (Or.inl ⟨hs, ack.trans waits⟩)]
      refine ⟨rfl, ?_⟩
      show Target.onLines a.targ.phase next.peer = a.chip.peer
      rw [ticked.peer]
      exact Target.onLines_eq (flow.shown fun setup => by simp [hs] at setup)
  | rel =>
      rw [hs] at moves
      have waits : a.chip.acks = true := by
        cases acks : a.chip.acks with
        | true => rfl
        | false => simp [acks] at moves
      rw [settled_stays giving bsy (Or.inr ⟨hs, ack.trans waits⟩)]
      refine ⟨rfl, ?_⟩
      show Target.onLines a.targ.phase next.peer = a.chip.peer
      rw [ticked.peer]
      exact Target.onLines_eq (flow.shown fun setup => by simp [hs] at setup)

/-- Between two passes no strobe is left. -/
theorem Flow.quiet (flow : Flow past front sent a) : State.Raised Core.quiet (a.pass layer).chip :=
  flow.toSteady.pass_rested.quiet

/-- A handshake at rest stays there when its strobes are gone. -/
theorem moved_rests {c d : State} (st : d.dmaSt = c.dmaSt) (peer : d.peer = c.peer)
    (quiet : State.Raised Core.quiet d) (still : c.moved.dmaSt = c.dmaSt) : d.moved.dmaSt = d.dmaSt := by
  have untaken : d.stDackRd = false := quiet.dackRd
  have sdir : d.stSdir = false := quiet.sdir
  cases now : c.dmaSt with
  | idle => exact State.moved_idle (st.trans now) sdir
  | rHave => rw [State.moved_keeps (st.trans now) untaken]
  | rWant =>
      cases latched : c.peer.req && State.showsDataIn c.peer with
      | true => simp [State.moved, now, latched] at still
      | false => simp [State.moved, st.trans now, peer, latched]
  | rHs =>
      cases up : c.peer.req with
      | true => simp [State.moved, st.trans now, peer, up]
      | false => simp [State.moved, now, up] at still
  | sWant => simp [State.moved, st.trans now]
  | sHave => simp [State.moved, st.trans now]
  | sHs => simp [State.moved, st.trans now]
  | sTrel => simp [State.moved, st.trans now]

theorem Still.pass (still : Still a) (flow : Flow past front sent a) : Still (a.pass layer) := by
  obtain ⟨next, ticked, form, -⟩ := flow.pass_eq
  obtain ⟨targ, peer⟩ := still.settled flow ticked
  obtain ⟨icr, st, -, -⟩ := flow.pass_moves
  have same : (a.pass layer).chip.peer = a.chip.peer := by
    rw [form]
    exact peer
  have alike : (a.pass layer).targ = a.targ := by
    rw [form]
    exact targ
  have acks : (a.pass layer).chip.acks = a.chip.acks := by
    rw [State.acks, State.acks, icr, st, still.chip]
  refine ⟨moved_rests (st.trans still.chip) same flow.quiet still.chip, ?_⟩
  have target := still.target
  rw [nextHs] at target ⊢
  rw [alike, acks]
  exact target

/-! ## The loop -/

/-- A loop that is at rest stays there, however long it is kept busy. -/
theorem Still.rounds (still : Still a) (flow : Flow past front sent a) (n : ℕ) :
    ∃ b, Flow past front sent b ∧ Still b ∧ a.rounds layer (n + 1) = b.pass layer := by
  induction n generalizing a with
  | zero =>
      refine ⟨a, flow, still, ?_⟩
      unfold Attached.rounds
      split_ifs <;> rfl
  | succ n ih =>
      rw [Attached.rounds]
      split_ifs
      · exact ih (still.pass flow) flow.pass
      · exact ⟨a, flow, still, rfl⟩

/-- A loop that may take more passes than the handshake has steps ends at rest. -/
theorem Flow.rounds (flow : Flow past front sent a) (quiet : State.Raised Core.quiet a.chip) (n : ℕ)
    (enough : a.rank ≤ n) :
    ∃ b, Flow past front sent b ∧ Still b ∧ a.rounds layer (n + 1) = b.pass layer := by
  induction n generalizing a with
  | zero =>
      by_cases still : Still a
      · exact still.rounds flow 0
      · have spent : (a.pass layer).rank < a.rank := flow.rank quiet still
        omega
  | succ n ih =>
      by_cases still : Still a
      · exact still.rounds flow (n + 1)
      · have spent : (a.pass layer).rank < a.rank := flow.rank quiet still
        rw [Attached.rounds, if_pos (flow.pass_moves.2.2.2 still)]
        exact ih flow.pass flow.quiet (by omega)

theorem Flow.settle (flow : Flow past front sent a) :
    ∃ b, Flow past front sent b ∧ Still b ∧ a.settle layer = b.pass layer := by
  by_cases still : Still a
  · exact still.rounds flow 63
  · show ∃ b, Flow past front sent b ∧ Still b ∧ a.rounds layer (62 + 1 + 1) = b.pass layer
    rw [Attached.rounds, if_pos (flow.pass_moves.2.2.2 still)]
    exact flow.pass.rounds flow.quiet 62 (by have low := (a.pass layer).rank_le; omega)

/-! ## Between calls -/

/-- The target holds out a status byte.  Unless the host holds ACK down of its own accord, REQ is up
in the STATUS phase and the byte is what register 0 reads as. -/
def ShowsStatus (a : Attached ρ) (status : Byte) : Prop :=
  a.targ.phase = .status ∧ a.chip.peer.data = status ∧ a.targ.hs ≠ .setup ∧
    (a.chip.held = false → a.chip.wires.req = true ∧ a.chip.wires.msg = false ∧
      a.chip.wires.cd = true ∧ a.chip.wires.io = true ∧ a.chip.readValue 0 = status)

/-- A receive while no loop is running. -/
structure Resting (past : ℕ) (front sent : List Byte) (a : Attached ρ) : Prop
    extends Flow past front sent a where
  rested : Rested a.chip
  shows : a.targ.phase = .status → ShowsStatus a a.targ.status

theorem Over.shows (ended : Over past front sent a) (flow : Flow past front sent a) (still : Still a) :
    ShowsStatus (a.pass layer) (a.pass layer).targ.status := by
  obtain ⟨next, ticked, form, -⟩ := flow.pass_eq
  obtain ⟨targ, peer⟩ := still.settled flow ticked
  have kept : Kept (a.edged next) ((a.edged next).targetSettled layer) := targetSettled_kept
  have wires : ((a.edged next).targetSettled layer).chip.wires = next.wires := by
    rw [kept.chip]
    rfl
  have icr : ((a.edged next).targetSettled layer).chip.icr = a.chip.icr := by
    rw [kept.chip]
    exact ticked.icr
  have offered : a.targ.hs ≠ .setup := fun setup => by
    have moves := still.target
    simp [nextHs, setup, Target.haveByte, ended.phase] at moves
  obtain ⟨data, msg, cd, io⟩ := ended.offered offered
  rw [form]
  refine ⟨?_, ?_, ?_, fun up => ⟨?_, ?_, ?_, ?_, ?_⟩⟩ <;> unfold soiled <;> dsimp only
  · rw [targ]
    exact ended.phase
  · rw [peer, targ]
    exact data
  · rw [targ]
    exact offered
  · have free : a.chip.held = false := by
      rw [State.held, ← icr]
      exact up
    have req : a.targ.hs = .req := by
      cases hs : a.targ.hs with
      | setup => exact absurd hs offered
      | req => rfl
      | rel => simp [ended.down hs] at free
    rw [wires, ticked.req]
    exact ended.up req
  · rw [wires, ticked.lines.1, msg]
  · rw [wires, ticked.lines.2.1, cd]
  · rw [wires, ticked.lines.2.2, io]
  · show ((a.edged next).targetSettled layer).chip.wires.data = _
    rw [wires, targ, ticked.data io, data]

theorem Flow.resting (flow : Flow past front sent a) :
    Resting past front sent (a.settle layer) := by
  obtain ⟨b, arrived, still, settled⟩ := flow.settle
  rw [settled]
  refine ⟨arrived.pass, arrived.toSteady.pass_rested, fun status => ?_⟩
  obtain ⟨next, ticked, form, -⟩ := arrived.pass_eq
  have phase : b.targ.phase = .status := by
    rw [form] at status
    rw [← (still.settled arrived ticked).1]
    exact status
  rcases arrived.stage with underway | ended
  · simp [underway.phase] at phase
  · exact ended.shows arrived still

end Attached

end Wish5380.Soft
