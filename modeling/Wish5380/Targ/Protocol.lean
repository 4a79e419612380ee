import Wish5380.Targ.Edges
import Wish5380.Targ.Medium

/-!
# The target's side of REQ and ACK

One handshake serves six states.  From the cycle REQ goes true until ACK has been seen true
and then false, the state and everything the data lines are made of stand still, whatever the
initiator does with ACK in the meantime.
-/

namespace Wish5380.Targ

namespace Seq

variable {p : Params} {s t : Seq} {c : Cycle}

/-- The handshake rests outside the six states, and a request for a block is only pending in
the two waits. -/
structure Orderly (s : Seq) : Prop where
  rests : s.hs ≠ .setup → s.Transfers
  asks : s.blkStart = true → s.st = .rdwait ∨ s.st = .wrwait

theorem orderly_of_rests (rests : s.hs ≠ .setup → s.Transfers) (idle : s.blkStart = false) :
    s.Orderly :=
  ⟨rests, fun asked => absurd (idle.symm.trans asked) Bool.false_ne_true⟩

theorem reset_orderly : Seq.reset.Orderly :=
  orderly_of_rests (fun begun => absurd rfl begun) rfl

theorem Edge.orderly (edge : Edge p s c t) (orderly : s.Orderly) : t.Orderly := by
  obtain ⟨rests, _⟩ := orderly
  cases edge with
  | pin => exact reset_orderly
  | raise pin rst moves => exact orderly_of_rests (fun _ => moves) rfl
  | keep pin rst moves => exact orderly_of_rests (fun _ => moves) rfl
  | hear pin rst st => exact orderly_of_rests (fun _ => .inl st) rfl
  | take pin rst st => exact orderly_of_rests (fun _ => .inr (.inl st)) rfl
  | hand pin rst moves => exact orderly_of_rests (fun _ => .inr (.inr moves)) rfl
  | fetch => exact ⟨fun begun => absurd rfl begun, fun _ => .inl rfl⟩
  | store => exact ⟨fun begun => absurd rfl begun, fun _ => .inr rfl⟩
  | decide pin rst st decides =>
      cases decides with
      | read => exact ⟨fun begun => absurd (by simp [taken]) begun, fun _ => .inl rfl⟩
      | write => exact ⟨fun begun => absurd (by simp [taken]) begun, by simp [taken]⟩
      | _ => exact ⟨fun begun => absurd (by simp) begun, by simp⟩
  | _ => exact orderly_of_rests (fun begun => by simp_all [Transfers]) rfl

theorem not_transfers_of_waits (waits : s.st = .rdwait ∨ s.st = .wrwait) : ¬ s.Transfers := by
  rcases waits with st | st <;> simp [Transfers, st]

theorem Transfers.connected (moves : s.Transfers) : s.connected = true := by
  rcases moves with st | st | st | st | st | st <;> simp [Seq.connected, st]

theorem Orderly.req_iff (orderly : s.Orderly) : s.req = true ↔ s.hs = .req := by
  constructor
  · intro high
    simpa [req] using And.right (by simpa [req] using high)
  · intro hs
    have moves := orderly.rests (by simp [hs])
    simp [req, moves.connected, hs]

/-- A byte that is being handed over stands still until ACK has come and gone. -/
theorem Edge.holds (edge : Edge p s c t) (pin : c.rst = false) (rst : c.bus.rst = false)
    (moves : s.Transfers) (begun : s.hs ≠ .setup) (held : s.hs = .req ∨ c.bus.ack = true) :
    t.st = s.st ∧ t.hs ≠ .setup ∧ (t.hs = .req ↔ s.hs = .req ∧ c.bus.ack = false) ∧
      (s.driveBus = true → t = { s with blkStart := false, hs := t.hs }) := by
  cases edge with
  | keep _ _ _ waits =>
      refine ⟨rfl, begun, ?_, fun _ => rfl⟩
      rcases waits with ⟨hs, ack⟩ | ⟨lets, ack⟩
      · simp [hs, ack]
      · simp [lets.2]
  | hear _ _ st hs ack => exact ⟨rfl, nofun, by simp [ack], by simp [driveBus, phase, st]⟩
  | take _ _ st hs ack => exact ⟨rfl, nofun, by simp [ack], by simp [driveBus, phase, st]⟩
  | hand _ _ _ hs ack => exact ⟨rfl, nofun, by simp [ack], fun _ => rfl⟩
  | pend _ _ st => exact absurd moves (not_transfers_of_waits st)
  | fault _ _ st => exact absurd moves (not_transfers_of_waits st)
  | _ => simp_all [Transfers, Lets]

/-- REQ only ever rises on a handshake at rest, in a state that keeps its phase. -/
theorem Edge.raises (edge : Edge p s c t) (low : s.hs ≠ .req) (high : t.hs = .req) :
    s.Transfers ∧ t = { s with blkStart := false, hs := .req } := by
  cases edge with
  | raise _ _ moves => exact ⟨moves, rfl⟩
  | decide _ _ _ decides => cases decides <;> simp [taken] at high
  | _ => first | exact absurd high low | cases high

/-- REQ only ever falls on ACK. -/
theorem Edge.lowers (edge : Edge p s c t) (pin : c.rst = false) (rst : c.bus.rst = false)
    (orderly : s.Orderly) (high : s.hs = .req) (low : t.hs ≠ .req) : c.bus.ack = true := by
  have moves := orderly.rests (by simp [high])
  cases ack : c.bus.ack with
  | true => rfl
  | false =>
      have held := edge.holds pin rst moves (by simp [high]) (.inl high)
      exact absurd (held.2.2.1.mpr ⟨high, ack⟩) low

/-- A byte of DATA IN that is being handed over was in DATA IN the cycle before, at the same
index. -/
theorem Edge.in_datain (edge : Edge p s c t) (orderly : s.Orderly) (datain : t.st = .datain)
    (begun : t.hs ≠ .setup) : s.st = .datain ∧ s.aAddr = t.aAddr := by
  have calm : ¬ s.Transfers → s.hs = .setup := by
    intro still
    by_contra moving
    exact still (orderly.rests moving)
  cases edge with
  | raise => exact ⟨datain, rfl⟩
  | keep => exact ⟨datain, rfl⟩
  | hand => exact ⟨datain, rfl⟩
  | pin => cases datain
  | decide _ _ _ decides => cases decides <;> simp at datain begun
  | _ => simp_all [Transfers]

/-- A wait for the back end lasts until its answer. -/
theorem Edge.waits (edge : Edge p s c t) (pin : c.rst = false) (rst : c.bus.rst = false)
    (waits : s.st = .rdwait ∨ s.st = .wrwait) (pending : c.blk.done = false) :
    t.st = .rdwait ∨ t.st = .wrwait := by
  cases edge with
  | pend => exact waits
  | fault _ _ _ failed => simp [mediaFault, pending] at failed
  | moved _ _ moves => rcases waits with st | st <;> simp [st] at moves
  | _ => simp_all [Transfers]

end Seq

/-! ## Runs -/

/-- What the target drives in cycle `t`. -/
def out (p : Params) (x : ℕ → State) (input : ℕ → Cycle) (t : ℕ) : Scsi :=
  drive p (x t) (input t).blk.count

/-- No reset, a medium of one size, and a back end that writes the buffer only between a
request and its answer. -/
structure Undisturbed (x : ℕ → State) (input : ℕ → Cycle) : Prop where
  pin : ∀ t, (input t).rst = false
  rst : ∀ t, (input t).bus.rst = false
  count : ∀ t, (input t).blk.count = (input 0).blk.count
  writes : ∀ t, (input t).blk.bufWe = true →
    ∃ u ≤ t, (blkReq (x u)).start = true ∧ ∀ v, u ≤ v → v < t → (input v).blk.done = false

/-- ACK has been seen true and then false, from cycle `t` on and before cycle `u`. -/
def Answered (input : ℕ → Cycle) (t u : ℕ) : Prop :=
  ∃ a b, t ≤ a ∧ a < b ∧ b < u ∧ (input a).bus.ack = true ∧ (input b).bus.ack = false

/-- REQ goes true with cycle `t + 1`. -/
def Rises (p : Params) (x : ℕ → State) (input : ℕ → Cycle) (t : ℕ) : Prop :=
  (out p x input t).req = false ∧ (out p x input (t + 1)).req = true

section Run

variable {p : Params} {b : Buf} {input : ℕ → Cycle} {t u : ℕ}

theorem run_orderly (p : Params) (b : Buf) (input : ℕ → Cycle) (t : ℕ) :
    (run p (start b) input t).seq.Orderly := by
  induction t with
  | zero => exact Seq.reset_orderly
  | succ t ih => exact (Seq.clock_edge p _ (input t)).orderly ih

theorem out_req_iff :
    (out p (run p (start b) input) input t).req = true ↔
      (run p (start b) input t).seq.hs = .req :=
  (run_orderly p b input t).req_iff

/-- The buffer is the target's own outside the two waits. -/
theorem unwritten (calm : Undisturbed (run p (start b) input) input)
    (moves : (run p (start b) input t).seq.Transfers) : (input t).blk.bufWe = false := by
  cases writes : (input t).blk.bufWe with
  | false => rfl
  | true =>
      obtain ⟨u, before, asked, pending⟩ := calm.writes t writes
      have waits : ∀ v, u ≤ v → v ≤ t → (run p (start b) input v).seq.st = .rdwait ∨
          (run p (start b) input v).seq.st = .wrwait := by
        intro v after within
        induction v, after using Nat.le_induction with
        | base => exact (run_orderly p b input u).asks asked
        | succ v after ih =>
            have edge := Seq.clock_edge p (run p (start b) input v).seq (input v)
            exact edge.waits (calm.pin v) (calm.rst v) (ih (by omega)) (pending v after within)
      exact absurd moves (Seq.not_transfers_of_waits (waits t before (Nat.le_refl t)))

/-- Nothing is written to the buffer in a cycle of DATA IN. -/
theorem mem_succ (calm : Undisturbed (run p (start b) input) input)
    (datain : (run p (start b) input t).seq.st = .datain) :
    (run p (start b) input (t + 1)).buf.mem = (run p (start b) input t).buf.mem := by
  have quiet := unwritten calm (.inr (.inr (.inl datain)))
  simp [run_succ, clock, Buf.next, Seq.aWe, datain, quiet]

/-- The byte the read port holds is the one the buffer has at the index, once REQ is up. -/
theorem fetched (calm : Undisturbed (run p (start b) input) input)
    (datain : (run p (start b) input t).seq.st = .datain)
    (begun : (run p (start b) input t).seq.hs ≠ .setup) :
    (run p (start b) input t).buf.aRdata =
      (run p (start b) input t).buf.mem (run p (start b) input t).seq.aAddr := by
  cases t with
  | zero => exact absurd rfl begun
  | succ t =>
      have edge := Seq.clock_edge p (run p (start b) input t).seq (input t)
      obtain ⟨before, same⟩ := edge.in_datain (run_orderly p b input t) datain begun
      rw [mem_succ calm before]
      exact congrArg (run p (start b) input t).buf.mem same

/-- What the lines carry from the cycle REQ goes true: the phase, and in the input phases the
byte and its parity. -/
structure Holds (p : Params) (x : ℕ → State) (input : ℕ → Cycle) (t u : ℕ) : Prop where
  begun : (x u).seq.hs ≠ .setup
  seen : (x u).seq.hs ≠ .req → ∃ a, t ≤ a ∧ a < u ∧ (input a).bus.ack = true
  st : (x u).seq.st = (x t).seq.st
  data : (x t).seq.driveBus = true →
    dataOut p (x u) (input u).blk.count = dataOut p (x t) (input t).blk.count

/-- The byte on the lines does not depend on the handshake. -/
theorem dataOut_congr {x y : State} {count : BitVec 32} {start : Bool} {hs : Hs}
    (same : y.seq = { x.seq with blkStart := start, hs := hs })
    (fetched : x.seq.st = .datain → y.buf.aRdata = x.buf.aRdata) (drives : x.seq.driveBus = true)
    (moves : x.seq.Transfers) : dataOut p y count = dataOut p x count := by
  have sameResp : resp p y.seq count = resp p x.seq count := by
    rw [same]
    rfl
  have st : y.seq.st = x.seq.st := by rw [same]
  have kind : y.seq.respKind = x.seq.respKind := by rw [same]
  have status : y.seq.status = x.seq.status := by rw [same]
  have msgIn : y.seq.msgIn = x.seq.msgIn := by rw [same]
  rcases moves with at_ | at_ | at_ | at_ | at_ | at_
  · simp [Seq.driveBus, Seq.phase, at_] at drives
  · simp [Seq.driveBus, Seq.phase, at_] at drives
  · simp only [dataOut, st, at_, kind, fetched at_, sameResp]
  · simp [Seq.driveBus, Seq.phase, at_] at drives
  · simp only [dataOut, st, at_, status]
  · simp only [dataOut, st, at_, msgIn]

theorem Holds.succ {x : ℕ → State} (x_eq : x = run p (start b) input) (calm : Undisturbed x input)
    (holds : Holds p x input t u) (later : t ≤ u) (waiting : ¬ Answered input t (u + 1)) :
    Holds p x input t (u + 1) := by
  subst x_eq
  have orderly := run_orderly p b input u
  have edge := Seq.clock_edge p (run p (start b) input u).seq (input u)
  have held : (run p (start b) input u).seq.hs = .req ∨ (input u).bus.ack = true := by
    by_contra passed
    rw [not_or] at passed
    obtain ⟨a, after, before, ack⟩ := holds.seen passed.1
    exact waiting ⟨a, u, after, before, Nat.lt_succ_self u, ack, by simpa using passed.2⟩
  obtain ⟨st, begun, asks, same⟩ := edge.holds (calm.pin u) (calm.rst u)
    (orderly.rests holds.begun) holds.begun held
  refine ⟨begun, fun passed => ?_, st.trans holds.st, fun drives => ?_⟩
  · cases ack : (input u).bus.ack with
    | true => exact ⟨u, later, Nat.lt_succ_self u, ack⟩
    | false =>
        have low : (run p (start b) input u).seq.hs ≠ .req :=
          fun high => passed (asks.mpr ⟨high, ack⟩)
        obtain ⟨a, after, before, seen⟩ := holds.seen low
        exact ⟨a, after, Nat.lt_succ_of_lt before, seen⟩
  · have drives' : (run p (start b) input u).seq.driveBus = true := by
      simpa [Seq.driveBus, Seq.connected, Seq.phase, holds.st] using drives
    have fetches : (run p (start b) input u).seq.st = .datain →
        (run p (start b) input (u + 1)).buf.aRdata = (run p (start b) input u).buf.aRdata := by
      intro datain
      exact (fetched calm datain holds.begun).symm
    have counts : (input (u + 1)).blk.count = (input u).blk.count :=
      (calm.count (u + 1)).trans (calm.count u).symm
    rw [counts]
    exact (dataOut_congr (same drives') fetches drives' (orderly.rests holds.begun)).trans
      (holds.data drives)

/-- From the cycle REQ goes true the lines stand still until ACK has come and gone. -/
theorem holds_of_rises {x : ℕ → State} (x_eq : x = run p (start b) input)
    (calm : Undisturbed x input) (rises : Rises p x input t) (later : t + 1 ≤ u)
    (waiting : ¬ Answered input (t + 1) u) : Holds p x input (t + 1) u := by
  induction u, later using Nat.le_induction with
  | base =>
      subst x_eq
      have high := out_req_iff.mp rises.2
      exact ⟨by simp [high], fun low => absurd high low, rfl, fun _ => rfl⟩
  | succ u later ih =>
      have still : ¬ Answered input (t + 1) u := by
        rintro ⟨a, b, first, second, within, ack, gone⟩
        exact waiting ⟨a, b, first, second, Nat.lt_succ_of_lt within, ack, gone⟩
      exact (ih still).succ x_eq calm later waiting

/-- The handshake stays released while ACK stays true. -/
theorem released_on (calm : Undisturbed (run p (start b) input) input) {a : ℕ}
    (falls : (run p (start b) input a).seq.hs = .req)
    (fallen : (run p (start b) input (a + 1)).seq.hs ≠ .req) (later : a + 1 ≤ u)
    (held : ∀ v, a < v → v < u → (input v).bus.ack = true) :
    (run p (start b) input u).seq.hs ≠ .setup ∧ (run p (start b) input u).seq.hs ≠ .req := by
  induction u, later using Nat.le_induction with
  | base =>
      refine ⟨?_, fallen⟩
      have orderly := run_orderly p b input a
      have edge := Seq.clock_edge p (run p (start b) input a).seq (input a)
      exact (edge.holds (calm.pin a) (calm.rst a) (orderly.rests (by simp [falls]))
        (by simp [falls]) (.inl falls)).2.1
  | succ u later ih =>
      obtain ⟨begun, low⟩ := ih fun v after before => held v after (Nat.lt_succ_of_lt before)
      have ack := held u (by omega) (Nat.lt_succ_self u)
      have orderly := run_orderly p b input u
      have edge := Seq.clock_edge p (run p (start b) input u).seq (input u)
      obtain ⟨_, still, asks, _⟩ := edge.holds (calm.pin u) (calm.rst u) (orderly.rests begun)
        begun (.inr ack)
      exact ⟨still, fun high => low (asks.mp high).1⟩


end Run

/-- MSG, C/D and I/O. -/
def phaseLines (bus : Scsi) : Bool × Bool × Bool :=
  (bus.msg, bus.cd, bus.io)

/-- The target's side of the protocol, over a whole run. -/
structure KeepsReq (p : Params) (x : ℕ → State) (input : ℕ → Cycle) : Prop where
  transfers : ∀ t, (out p x input t).req = true → (x t).seq.Transfers
  phase : ∀ t, Rises p x input t →
    phaseLines (out p x input t) = phaseLines (out p x input (t + 1)) ∧
      ∀ u, t + 1 ≤ u → ¬ Answered input (t + 1) u →
        phaseLines (out p x input u) = phaseLines (out p x input (t + 1))
  data : ∀ t, Rises p x input t → (out p x input (t + 1)).io = true →
    ∀ u, t + 1 ≤ u → ¬ Answered input (t + 1) u →
      (out p x input u).data = (out p x input (t + 1)).data ∧
        (out p x input u).dbp = (out p x input (t + 1)).dbp
  falls : ∀ t, (out p x input t).req = true → (out p x input (t + 1)).req = false →
    (input t).bus.ack = true
  again : ∀ a u, (out p x input a).req = true → (out p x input (a + 1)).req = false → a < u →
    (out p x input u).req = true → ∃ v, a < v ∧ v < u ∧ (input v).bus.ack = false

theorem phaseLines_congr {p : Params} {x y : State} {count count' : BitVec 32}
    (same : x.seq.st = y.seq.st) :
    phaseLines (drive p x count) = phaseLines (drive p y count') := by
  simp [phaseLines, drive, Seq.connected, Seq.phase, same]

/-- Whatever the initiator does with ACK, the target keeps its side. -/
theorem req_protocol (p : Params) (b : Buf) (input : ℕ → Cycle)
    (calm : Undisturbed (run p (start b) input) input) :
    KeepsReq p (run p (start b) input) input := by
  constructor
  case transfers =>
    intro t high
    exact (run_orderly p b input t).rests (by simp [out_req_iff.mp high])
  case phase =>
    intro t rises
    constructor
    · have low : (run p (start b) input t).seq.hs ≠ .req :=
        fun high => by simpa [rises.1] using out_req_iff.mpr high
      have edge := Seq.clock_edge p (run p (start b) input t).seq (input t)
      have raised := (edge.raises low (out_req_iff.mp rises.2)).2
      refine phaseLines_congr ?_
      exact (congrArg Seq.st raised).symm
    · intro u later waiting
      exact phaseLines_congr (holds_of_rises rfl calm rises later waiting).st
  case data =>
    intro t rises io u later waiting
    have holds := holds_of_rises rfl calm rises later waiting
    have drives : (run p (start b) input (t + 1)).seq.driveBus = true := io
    have drives' : (run p (start b) input u).seq.driveBus = true := by
      simpa [Seq.driveBus, Seq.connected, Seq.phase, holds.st] using drives
    have same := holds.data drives
    simp only [out, drive, drives, drives', same]
    exact ⟨trivial, trivial⟩
  case falls =>
    intro t high low
    have edge := Seq.clock_edge p (run p (start b) input t).seq (input t)
    refine edge.lowers (calm.pin t) (calm.rst t) (run_orderly p b input t)
      (out_req_iff.mp high) fun still => ?_
    simpa [low] using (out_req_iff (t := t + 1)).mpr still
  case again =>
    intro a u high low after again
    by_contra none
    have fallen : (run p (start b) input (a + 1)).seq.hs ≠ .req := by
      intro still
      simpa [low] using (out_req_iff (t := a + 1)).mpr still
    have released := released_on calm (out_req_iff.mp high) fallen after fun v later before => by
      by_contra gone
      exact none ⟨v, later, before, by simpa using gone⟩
    exact released.2 (out_req_iff.mp again)

/-- The command bytes of a READ(10) are handed over under the protocol. -/
theorem read10_keeps_req :
    (out {} (run {} (start .blank) (readCycles 5 2)) (readCycles 5 2) 23).req = true ∧
      KeepsReq {} (run {} (start .blank) (readCycles 5 2)) (readCycles 5 2) := by
  constructor
  · simp only [out, drive, run_seq]
    decide +kernel
  · refine req_protocol {} .blank (readCycles 5 2) ⟨fun _ => rfl, fun t => ?_, fun _ => rfl, nofun⟩
    rcases Nat.lt_or_ge t 53 with early | late
    · revert t
      decide +kernel
    · rw [readCycles_late 5 2 late]

end Wish5380.Targ
