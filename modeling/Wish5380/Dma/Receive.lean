import Wish5380.Chip.Handshake
import Wish5380.Dma.System

/-!
# DATA IN by DMA

The chip as a receiver with a latch of one byte, the target as a source of them.
The host may halt the transfer between the latch, the DACK and the ACK, and start
it again; the byte the target is still offering is then simply latched again.
-/

namespace Wish5380.Dma

open Interlock

/-! ## The chip as a receiver -/

/-- What the host may do while it receives: a DACK read only with DRQ up, no DACK
write, and no start in the other direction. -/
structure ReceiveAccess (s : Chip.State) (a : Chip.Port) : Prop where
  keeps : KeepsRole phDataIn a
  dackRd : a.dackRd = true → s.drq = true
  dackWr : a.dackWr = false
  sds : a.sds = false
  sdtr : a.sdtr = false

instance (s : Chip.State) (a : Chip.Port) : Decidable (ReceiveAccess s a) :=
  decidable_of_iff
    (KeepsRole phDataIn a ∧ (a.dackRd = true → s.drq = true) ∧ a.dackWr = false ∧
      a.sds = false ∧ a.sdtr = false)
    ⟨fun ⟨keeps, dackRd, dackWr, sds, sdtr⟩ => ⟨keeps, dackRd, dackWr, sds, sdtr⟩,
      fun ⟨keeps, dackRd, dackWr, sds, sdtr⟩ => ⟨keeps, dackRd, dackWr, sds, sdtr⟩⟩

theorem ReceiveAccess.strobes {s : Chip.State} {a : Chip.Port} (access : ReceiveAccess s a) :
    Chip.State.ReceiveStrobes false s a :=
  ⟨access.dackRd, access.sds, access.sdtr⟩

/-- The chip is at rest or receives as an initiator. -/
structure Receiving (s : Chip.State) : Prop extends Initiator phDataIn s where
  stage : s.regs.dmaMode = true → Chip.State.ReceiveStage false s

theorem Receiving.acks {s : Chip.State} (receiving : Receiving s) :
    s.dmaAck = s.receiver.acks := by
  cases on : s.regs.dmaMode with
  | false => simp [Chip.State.dmaAck, Chip.State.receiver, on]
  | true => exact (receiving.stage on).acks

/-- A DACK read finds DMA MODE on. -/
theorem ReceiveAccess.on {s : Chip.State} {a : Chip.Port} (access : ReceiveAccess s a)
    (reads : a.dackRd = true) : s.regs.dmaMode = true := by
  have drq := access.dackRd reads
  rw [Chip.State.drq, Bool.and_eq_true] at drq
  exact drq.2

/-- What a DACK read returns is the byte in the latch. -/
theorem Receiving.taken {s : Chip.State} {a : Chip.Port} (bus : Scsi) (receiving : Receiving s)
    (access : ReceiveAccess s a) :
    (if a.dackRd then [s.datO a bus] else []) = if a.dackRd then s.receiver.held else [] := by
  cases reads : a.dackRd with
  | false => rfl
  | true =>
      have taken := (receiving.stage (access.on reads)).taken bus access.strobes
      rwa [reads] at taken

/-- A DACK read writes no register. -/
theorem next_regs_dackRd {pc : Chip.Params} {s : Chip.State} {a : Chip.Port} {bus : Scsi}
    (rst : bus.rst = false) (bsy : bus.bsy = true) (reads : a.dackRd = true) :
    (s.next pc a bus).regs = s.regs := by
  have quiet : a.we = false := by
    simp only [Chip.Port.dackRd, Bool.and_eq_true, Bool.not_eq_true'] at reads
    exact reads.1.2
  rw [Chip.State.next_regs rst bsy, quiet]
  simp

/-- One edge of the chip while the target is in DATA IN. -/
theorem receiver_step (pc : Chip.Params) {s : Chip.State} {a : Chip.Port} {bus : Scsi}
    (receiving : Receiving s) (access : ReceiveAccess s a) (rst : bus.rst = false)
    (bsy : bus.bsy = true) (phase : s.phaseMatch bus = true) :
    Receiving (s.next pc a bus) ∧
      Recv.Step bus.req bus.data (s.next pc a bus).regs.dmaMode a.dackRd s.receiver
        (s.next pc a bus).receiver := by
  have initiator := receiving.toInitiator.next pc access.keeps rst bsy
  cases later : (s.next pc a bus).regs.dmaMode with
  | false =>
      have silent : a.dackRd = false := by
        cases reads : a.dackRd with
        | false => rfl
        | true =>
            rw [next_regs_dackRd rst bsy reads, access.on reads] at later
            cases later
      refine ⟨⟨initiator, fun on => ?_⟩, ?_⟩
      · rw [later] at on
        cases on
      · rw [Chip.State.receiver_off later, silent]
        exact .halt rfl _
  | true =>
      cases on : s.regs.dmaMode with
      | false =>
          have silent : a.dackRd = false := by
            cases reads : a.dackRd with
            | false => rfl
            | true =>
                rw [access.on reads] at on
                cases on
          obtain ⟨st, drq⟩ := Chip.State.next_dma_off rst on (p := pc) (a := a)
          refine ⟨⟨initiator, fun _ => ⟨.inl st, by simp [st, drq]⟩⟩, ?_⟩
          rw [Chip.State.receiver_off on, Chip.State.receiver_idle st, silent]
          exact .idle
      | true =>
          obtain ⟨stage, step⟩ := (receiving.stage on).next (p := pc) access.strobes rst on later
            (fun _ => phase)
          exact ⟨⟨initiator, fun _ => stage⟩, step⟩

/-! ## The target as a source -/

/-- The target is in DATA IN, waiting for a block or moving its bytes. -/
def InDataIn (t : Targ.Seq) : Prop :=
  t.st = .rdwait ∨ t.st = .datain

instance (t : Targ.Seq) : Decidable (InDataIn t) :=
  inferInstanceAs (Decidable (_ ∨ _))

theorem InDataIn.shows {t : Targ.Seq} (data : InDataIn t) : Shows phDataIn t := by
  rcases data with st | st
  · exact ⟨by simp [Targ.Seq.connected, st], by simp [Targ.Seq.phase, st]⟩
  · exact ⟨by simp [Targ.Seq.connected, st], by simp [Targ.Seq.phase, st]⟩

/-- In DATA IN a handshake under way is in the phase itself, not in the wait. -/
theorem InDataIn.datain {t : Targ.Seq} (data : InDataIn t) (orderly : t.Orderly)
    (begun : t.hs ≠ .setup) : t.st = .datain := by
  rcases data with st | st
  · exact absurd (orderly.rests begun) (Targ.Seq.not_transfers_of_waits (.inl st))
  · exact st

/-- The cycle in which the request that is up in cycle `t` went up.  One that is up at the
outset counts from cycle 0. -/
def raised (y : ℕ → System) : ℕ → ℕ
  | 0 => 0
  | t + 1 => if (y t).targ.seq.req then raised y t else t + 1

/-- The cycles in which the target asks for a byte to be taken. -/
def requests (y : ℕ → System) : ℕ → List ℕ
  | 0 => if (y 0).targ.seq.req then [0] else []
  | t + 1 => if (y (t + 1)).targ.seq.req && !(y t).targ.seq.req then [t + 1] else []

/-- The source the target is; a request is named by the cycle in which it went up. -/
def source (y : ℕ → System) (t : ℕ) : Source ℕ :=
  if (y t).targ.seq.req then .ask (raised y t) else .rest

section Source

variable {y : ℕ → System} {t : ℕ}

theorem source_asks : (source y t).asks = (y t).targ.seq.req := by
  cases req : (y t).targ.seq.req <;> simp [source, req]

theorem raised_up (up : (y t).targ.seq.req = true) :
    raised y t ≤ t ∧ ∀ w, raised y t ≤ w → w ≤ t → (y w).targ.seq.req = true := by
  induction t with
  | zero =>
      refine ⟨Nat.le_refl 0, fun w _ before => ?_⟩
      rwa [Nat.le_zero.mp before]
  | succ t ih =>
      cases before : (y t).targ.seq.req with
      | false =>
          simp only [raised, before, Bool.false_eq_true, if_false]
          refine ⟨Nat.le_refl _, fun w after within => ?_⟩
          rwa [Nat.le_antisymm within after]
      | true =>
          simp only [raised, before, if_true]
          obtain ⟨low, held⟩ := ih before
          refine ⟨by omega, fun w after within => ?_⟩
          rcases Nat.lt_or_eq_of_le within with earlier | rfl
          · exact held w after (by omega)
          · exact up

/-- One edge of the target in DATA IN. -/
theorem source_step {ack : Bool}
    (sink : Sink.Step ack (y t).targ.seq.req (y (t + 1)).targ.seq.req) :
    ∃ new, requests y (t + 1) = new.toList ∧
      Source.Step ack new (source y t) (source y (t + 1)) := by
  simp only [requests, source, raised]
  generalize (y t).targ.seq.req = before at sink
  generalize (y (t + 1)).targ.seq.req = after at sink
  cases sink with
  | rest => exact ⟨none, rfl, .rest⟩
  | raise => exact ⟨some (t + 1), rfl, .raise _⟩
  | keep low => exact ⟨none, rfl, .keep low _⟩
  | taken high => exact ⟨none, rfl, .release high _⟩

end Source

/-! ## The two together -/

/-- The bytes the host takes. -/
def dackReads (pt : Targ.Params) (y : ℕ → System) (input : ℕ → Input) (t : ℕ) : List Byte :=
  if (input t).port.dackRd then [(y t).chip.datO (input t).port ((y t).bus pt (input t))] else []

/-- The byte the target drives. -/
def shown (pt : Targ.Params) (y : ℕ → System) (input : ℕ → Input) (t : ℕ) : Byte :=
  (Targ.drive pt (y t).targ (input t).blk.count).data

/-- The target drives `v` in a cycle before `n`, under the request that went up in cycle `b`. -/
def Driven (pt : Targ.Params) (y : ℕ → System) (input : ℕ → Input) (n : ℕ) (v : Byte) (b : ℕ) :
    Prop :=
  ∃ u < n, b ≤ u ∧ (∀ w, b ≤ w → w ≤ u → (y w).targ.seq.req = true) ∧ v = shown pt y input u

/-- Before cycle `n` a byte never changes while it is up. -/
def Steady (pt : Targ.Params) (y : ℕ → System) (input : ℕ → Input) (n : ℕ) : Prop :=
  ∀ t, t + 1 < n → (y t).targ.seq.req = true → (y (t + 1)).targ.seq.req = true →
    shown pt y input (t + 1) = shown pt y input t

theorem Driven.eq_shown {pt : Targ.Params} {y : ℕ → System} {input : ℕ → Input} {n : ℕ} {v : Byte}
    {b : ℕ} (driven : Driven pt y input n v b) (steady : Steady pt y input n) :
    v = shown pt y input b := by
  obtain ⟨u, within, after, up, rfl⟩ := driven
  induction u, after using Nat.le_induction with
  | base => rfl
  | succ u after ih =>
      rw [steady u within (up u after (Nat.le_succ u)) (up (u + 1) (by omega) (Nat.le_refl _))]
      exact ih (by omega) fun w low high => up w low (by omega)

/-- The cycles in which the target sees a byte acknowledged. -/
def acknowledged (pt : Targ.Params) (y : ℕ → System) (input : ℕ → Input) (t : ℕ) : List ℕ :=
  if (y t).targ.seq.req && ((y t).bus pt (input t)).ack then [t] else []

theorem drive_data_in {pt : Targ.Params} {t : Targ.State} {count : BitVec 32}
    (shows_ : Shows phDataIn t.seq) :
    (Targ.drive pt t count).data = Targ.dataOut pt t count := by
  simp [Targ.drive, Targ.Seq.driveBus, shows_.up, shows_.phase_eq]

/-- In DATA IN only the target drives the data lines. -/
theorem bus_data_in {pt : Targ.Params} {y : System} {i : Input}
    (chip : Initiator phDataIn y.chip) (data : InDataIn y.targ.seq) :
    (y.bus pt i).data = Targ.dataOut pt y.targ i.blk.count := by
  have shows_ := data.shows
  have io : (y.bus pt i).io = true := by
    rw [← Scsi.phase_io, bus_phase pt i chip shows_]
    rfl
  have floats : y.chip.driveData (y.bus pt i) = false := by
    simp [Chip.State.driveData, chip.arb, chip.role, io]
  rw [bus_data, floats, drive_data_in shows_]
  simp

/-- The invariant of the composition. -/
structure Linked (pt : Targ.Params) (y : ℕ → System) (input : ℕ → Input) (n t : ℕ) : Prop where
  chip : Receiving (y t).chip
  targ : (y t).targ.seq.Orderly
  link : ∃ past, Delivered (Driven pt y input n) (y t).chip.receiver (source y t)
    (Clocked.trace (dackReads pt y input) 0 t) (Clocked.trace (requests y) 0 (t + 1)) past ∧
    past.length = (Clocked.trace (acknowledged pt y input) 0 t).length

theorem linked_succ {pc : Chip.Params} {pt : Targ.Params} {y : System} {input : ℕ → Input}
    {n t : ℕ} (linked : Linked pt (run pc pt y input) input n t) (within : t < n)
    (data : InDataIn (run pc pt y input t).targ.seq)
    (access : ReceiveAccess (run pc pt y input t).chip (input t).port) :
    Linked pt (run pc pt y input) input n (t + 1) := by
  obtain ⟨receiving, orderly, past, link, counted⟩ := linked
  have rst := bus_rst pt (input t) receiving.toInitiator
  have bsy := bus_bsy pt (input t) data.shows
  have phase := bus_phaseMatch pt (input t) receiving.toInitiator data.shows
  have req := bus_req pt (input t) receiving.toInitiator
  have ack : ((run pc pt y input t).bus pt (input t)).ack =
      (run pc pt y input t).chip.receiver.acks := by
    rw [bus_ack pt (input t) receiving.toInitiator, receiving.acks]
  obtain ⟨receiving', receives⟩ := receiver_step pc receiving access rst bsy phase
  obtain ⟨new, raises, offers⟩ := source_step (y := run pc pt y input) (t := t)
    (System.next_req pc pt (input t) orderly rst)
  have reads : dackReads pt (run pc pt y input) input t =
      if (input t).port.dackRd then (run pc pt y input t).chip.receiver.held else [] :=
    receiving.taken _ access
  refine ⟨receiving', System.next_orderly pc pt (input t) orderly, ?_⟩
  rw [req, ← source_asks] at receives
  rw [ack] at offers
  have value : ∀ b, source (run pc pt y input) t = .ask b →
      Driven pt (run pc pt y input) input n ((run pc pt y input t).bus pt (input t)).data b := by
    intro b asks
    unfold source at asks
    split_ifs at asks with up
    obtain rfl : raised (run pc pt y input) t = b := by simpa using asks
    obtain ⟨low, held⟩ := raised_up up
    refine ⟨t, within, low, held, ?_⟩
    rw [bus_data_in receiving.toInitiator data, shown, drive_data_in data.shows]
  have stepped : Delivered (Driven pt (run pc pt y input) input n)
      (run pc pt y input (t + 1)).chip.receiver (source (run pc pt y input) (t + 1)) _ _ _ :=
    link.step value receives offers
  rw [← reads, ← Clocked.trace_succ _ (Nat.zero_le t), ← raises,
    ← Clocked.trace_succ _ (Nat.zero_le (t + 1))] at stepped
  refine ⟨_, stepped, ?_⟩
  rw [Clocked.trace_succ _ (Nat.zero_le t), List.length_append, ← counted, source_asks]
  simp only [acknowledged, ack]
  cases asks : (run pc pt y input t).targ.seq.req with
  | false => simp
  | true =>
      cases (run pc pt y input t).chip.receiver.acks with
      | false => simp
      | true => simp [source, asks]

/-- The chip has no transfer under way. -/
def AtRest (s : Chip.State) : Prop :=
  s.regs.dmaMode = false ∨ (s.eng.dmaSt = .idle ∧ s.eng.drqQ = false)

theorem AtRest.idle {s : Chip.State} (rest : AtRest s) (on : s.regs.dmaMode = true) :
    s.eng.dmaSt = .idle ∧ s.eng.drqQ = false := by
  rcases rest with off | idle
  · rw [off] at on
    cases on
  · exact idle

theorem AtRest.receiving {s : Chip.State} (rest : AtRest s) (chip : Initiator phDataIn s) :
    Receiving s := by
  refine ⟨chip, fun on => ?_⟩
  obtain ⟨idle, drq⟩ := rest.idle on
  exact ⟨.inl idle, by rw [drq, idle]; rfl⟩

/-- The registered read port holds the byte of the block that is being handed over. -/
def Fetched (t : Targ.State) : Prop :=
  t.seq.st = .datain → t.seq.hs ≠ .setup → t.buf.aRdata = t.buf.mem t.seq.aAddr

/-- Outside DATA OUT the buffer only changes under the back end's hand. -/
theorem buf_kept {t : Targ.Seq} {blk : BlkRsp} (b : Targ.Buf) (bus : Scsi)
    (other : t.st ≠ .dataout) (unwritten : blk.bufWe = false) :
    (b.next t bus blk).mem = b.mem ∧ (b.next t bus blk).aRdata = b.mem t.aAddr := by
  simp [Targ.Buf.next, Targ.aWe_of_st _ other, unwritten]

/-- With a medium of one size and a buffer nobody writes, a byte that is up stays as it is. -/
theorem steady (pc : Chip.Params) (pt : Targ.Params) (y : System) (input : ℕ → Input) (n : ℕ)
    (chip : ∀ t < n, Initiator phDataIn (run pc pt y input t).chip) (targ : y.targ.seq.Orderly)
    (fetched : Fetched y.targ) (data : ∀ t < n, InDataIn (run pc pt y input t).targ.seq)
    (unwritten : ∀ t < n, (run pc pt y input t).targ.seq.st = .datain →
      (input t).blk.bufWe = false)
    (count : ∀ t < n, (input t).blk.count = (input 0).blk.count) :
    Steady pt (run pc pt y input) input n := by
  have edge : ∀ t, Targ.Seq.Edge pt (run pc pt y input t).targ.seq
      { bus := (run pc pt y input t).bus pt (input t), blk := (input t).blk }
      (run pc pt y input (t + 1)).targ.seq :=
    fun t => Targ.Seq.clock_edge pt _ _
  have orderly : ∀ t, (run pc pt y input t).targ.seq.Orderly := by
    intro t
    induction t with
    | zero => exact targ
    | succ t ih => exact System.next_orderly pc pt (input t) ih
  have kept : ∀ t < n, (run pc pt y input t).targ.seq.st = .datain →
      (run pc pt y input (t + 1)).targ.buf.mem = (run pc pt y input t).targ.buf.mem ∧
        (run pc pt y input (t + 1)).targ.buf.aRdata =
          (run pc pt y input t).targ.buf.mem (run pc pt y input t).targ.seq.aAddr := by
    intro t within st
    exact buf_kept _ _ (ne_of_eq_of_ne st (by simp)) (unwritten t within st)
  have held : ∀ t ≤ n, Fetched (run pc pt y input t).targ := by
    intro t within
    induction t with
    | zero => exact fetched
    | succ t ih =>
        intro st begun
        obtain ⟨before, same⟩ := (edge t).in_datain (orderly t) st begun
        obtain ⟨mem, read⟩ := kept t within before
        rw [read, mem, same]
  intro t within up up'
  have hs := (orderly t).req_iff.mp up
  have st := (data t (by omega)).datain (orderly t) (by simp [hs])
  have moves : (run pc pt y input t).targ.seq.Transfers := .inr (.inr (.inl st))
  have drives : (run pc pt y input t).targ.seq.driveBus = true := by
    simp [Targ.Seq.driveBus, Targ.Seq.connected, Targ.Seq.phase, st]
  have same := ((edge t).holds rfl (bus_rst pt (input t) (chip t (by omega))) moves (by simp [hs])
    (.inl hs)).2.2.2 drives
  have read : (run pc pt y input (t + 1)).targ.buf.aRdata =
      (run pc pt y input t).targ.buf.aRdata := by
    rw [(kept t (by omega) st).2, held t (by omega) st (by simp [hs])]
  rw [shown, shown, drive_data_in (data (t + 1) within).shows,
    drive_data_in (data t (by omega)).shows, count (t + 1) within, ← count t (by omega)]
  exact Targ.dataOut_congr same (fun _ => read) drives moves

/-- An access of a receive keeps the chip the initiator it is. -/
theorem run_initiator (pc : Chip.Params) (pt : Targ.Params) (y : System) (input : ℕ → Input)
    (n : ℕ) (chip : Initiator phDataIn y.chip)
    (data : ∀ t < n, InDataIn (run pc pt y input t).targ.seq)
    (access : ∀ t < n, KeepsRole phDataIn (input t).port) :
    ∀ t ≤ n, Initiator phDataIn (run pc pt y input t).chip := by
  intro t within
  induction t with
  | zero => exact chip
  | succ t ih =>
      have before := ih (by omega)
      exact before.next pc (access t within) (bus_rst pt (input t) before)
        (bus_bsy pt (input t) (data t within).shows)

/-- Through every interleaving of DACK reads, halts and restarts, while the target is in DATA
IN, the host takes what the target has up, one byte for each of its requests and in their
order: one that is up at the outset counts, and none is passed over or taken twice.  The
target has seen acknowledged as many as the host has taken, or one less. -/
theorem dack_reads_in_order (pc : Chip.Params) (pt : Targ.Params) (y : System) (input : ℕ → Input)
    (n : ℕ) (chip : Initiator phDataIn y.chip) (rest : AtRest y.chip) (targ : y.targ.seq.Orderly)
    (data : ∀ t < n, InDataIn (run pc pt y input t).targ.seq)
    (access : ∀ t < n, ReceiveAccess (run pc pt y input t).chip (input t).port) :
    (∃ taken, taken <+: Clocked.trace (requests (run pc pt y input)) 0 (n + 1) ∧
      List.Forall₂ (Driven pt (run pc pt y input) input n)
        (Clocked.trace (dackReads pt (run pc pt y input) input) 0 n) taken) ∧
    (Steady pt (run pc pt y input) input n →
      Clocked.trace (dackReads pt (run pc pt y input) input) 0 n <+:
        (Clocked.trace (requests (run pc pt y input)) 0 (n + 1)).map
          (shown pt (run pc pt y input) input)) ∧
    ((Clocked.trace (acknowledged pt (run pc pt y input) input) 0 n).length =
        (Clocked.trace (dackReads pt (run pc pt y input) input) 0 n).length ∨
      (Clocked.trace (acknowledged pt (run pc pt y input) input) 0 n).length + 1 =
        (Clocked.trace (dackReads pt (run pc pt y input) input) 0 n).length) := by
  have linked : ∀ t ≤ n, Linked pt (run pc pt y input) input n t := by
    intro t within
    induction t with
    | zero =>
        have off : y.chip.receiver = .off := by
          rcases rest with off | ⟨idle, _⟩
          · exact Chip.State.receiver_off off
          · exact Chip.State.receiver_idle idle
        refine ⟨rest.receiving chip, targ, [], ?_, by simp⟩
        rw [show (run pc pt y input 0) = y from rfl, off, Clocked.trace_succ _ (Nat.le_refl 0)]
        refine ⟨?_, by simp, by simp⟩
        cases up : (run pc pt y input 0).targ.seq.req with
        | false => simp [requests, source, up]
        | true => simp [requests, source, raised, up]
    | succ t ih =>
        exact linked_succ (ih (by omega)) within (data t within) (access t within)
  obtain ⟨_, _, past, link, counted⟩ := linked n (Nat.le_refl n)
  rw [← counted]
  obtain ⟨⟨taken, first, reads⟩, acknowledged⟩ := link.inOrder
  refine ⟨⟨taken, first, reads⟩, fun steady => ?_, acknowledged⟩
  have bytes : List.Forall₂ Eq (Clocked.trace (dackReads pt (run pc pt y input) input) 0 n)
      (taken.map (shown pt (run pc pt y input) input)) :=
    List.forall₂_map_right_iff.mpr (reads.imp fun _ _ driven => driven.eq_shown steady)
  rw [List.forall₂_eq_eq_eq] at bytes
  rw [bytes]
  exact first.map _

/-- A target in the middle of the INQUIRY response, with REQ up, and a chip that expects DATA
IN and is not in DMA MODE yet. -/
def inquiring : System where
  chip := { regs := { tcr := 0x01 } }
  targ := ⟨{ st := .datain, hs := .req, respKind := .inquiry, xferLen := 36, idx := 8 }, .blank⟩

/-- DMA MODE, the start, a DACK read, a halt while ACK is up, and the same again. -/
def haltAndRestart (t : ℕ) : Input :=
  { port := [{ stb := true, we := true, adr := 2, dat := 0x02 },
      { stb := true, we := true, adr := 7 }, {}, { stb := true, dack := true },
      { stb := true, we := true, adr := 2, dat := 0x00 },
      { stb := true, we := true, adr := 2, dat := 0x02 },
      { stb := true, we := true, adr := 7 }, {}, { stb := true, dack := true }].getD t {} }

theorem inquiry_bytes_read :
    Clocked.trace (dackReads {} (run {} {} inquiring haltAndRestart) haltAndRestart) 0 9 =
      [0x44, 0x4f] ∧
    Clocked.trace (dackReads {} (run {} {} inquiring haltAndRestart) haltAndRestart) 0 9 <+:
      (Clocked.trace (requests (run {} {} inquiring haltAndRestart)) 0 10).map
        (shown {} (run {} {} inquiring haltAndRestart) haltAndRestart) := by
  have chip : Initiator phDataIn inquiring.chip := ⟨⟨rfl, rfl, rfl, rfl, rfl⟩, rfl⟩
  have targ : inquiring.targ.seq.Orderly :=
    Targ.Seq.orderly_of_rests (fun _ => .inr (.inr (.inl rfl))) rfl
  have data : ∀ t < 9, InDataIn (run {} {} inquiring haltAndRestart t).targ.seq := by
    decide +kernel
  have access : ∀ t < 9,
      ReceiveAccess (run {} {} inquiring haltAndRestart t).chip (haltAndRestart t).port := by
    decide +kernel
  have initiator := run_initiator {} {} inquiring haltAndRestart 9 chip data
    fun t within => (access t within).keeps
  have still := steady {} {} inquiring haltAndRestart 9
    (fun t within => initiator t (Nat.le_of_lt within)) targ (fun _ _ => rfl) data
    (fun _ _ _ => rfl) (fun _ _ => rfl)
  exact ⟨by decide +kernel,
    (dack_reads_in_order {} {} inquiring haltAndRestart 9 chip (.inl rfl) targ data access).2.1
      still⟩

end Wish5380.Dma
