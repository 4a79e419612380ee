import Wish5380.Chip.Handshake

/-!
# Two chips on one bus

One 5380 as the initiator and one as the target, each with a host of its own that
stalls as it pleases.  Whichever of the two sends, the bytes in flight are the one
in the sender's Output Data Register and the one in the receiver's latch.
-/

namespace Wish5380.Dma

open Interlock

/-! ## The pair -/

/-- The chips by what they do with the data. -/
structure Pair where
  sends : Chip.State
  receives : Chip.State

structure PairInput where
  sends : Chip.Port := {}
  receives : Chip.Port := {}

namespace Pair

/-- The wires in a cycle. -/
def bus (y : Pair) : Scsi :=
  Chip.settleBoth y.sends y.receives

/-- One edge, with the RESET pin released. -/
def next (p : Chip.Params) (y : Pair) (i : PairInput) : Pair where
  sends := y.sends.next p i.sends y.bus
  receives := y.receives.next p i.receives y.bus

def run (p : Chip.Params) (y : Pair) (input : ℕ → PairInput) : ℕ → Pair :=
  Clocked.run (next p) y input

theorem run_succ (p : Chip.Params) (y : Pair) (input : ℕ → PairInput) (t : ℕ) :
    run p y input (t + 1) = (run p y input t).next p (input t) :=
  rfl

end Pair

/-! ## The registers of an end -/

/-- The registers of one end of a transfer in the role `tgt`: DMA MODE, the phase, and
nothing by hand.  A target holds BSY. -/
structure EndRegs (tgt : Bool) (phase : BitVec 3) (data : Bool) (r : Chip.Regs) : Prop where
  role : r.targetMode = tgt
  dma : r.dmaMode = true
  test : r.testMode = false
  arb : r.arbitrate = false
  rst : r.icrRst = false
  ack : r.icrAck = false
  req : r.tcrReq = false
  bsy : tgt = true → r.icrBsy = true
  phase_eq : r.tcrPhase = phase
  data_eq : r.icrData = data

/-- Only the Output Data Register is free to change. -/
theorem EndRegs.of_odr {tgt : Bool} {phase : BitVec 3} {data : Bool} {r : Chip.Regs} (d : Byte)
    (regs : EndRegs tgt phase data r) : EndRegs tgt phase data { r with odr := d } := by
  obtain ⟨role, dma, test, arb, rst, ack, req, bsy, phase_eq, data_eq⟩ := regs
  exact ⟨role, dma, test, arb, rst, ack, req, bsy, phase_eq, data_eq⟩

section Wires

variable {tgt : Bool} {phase : BitVec 3} {y : Pair}

/-- The two ends of one transfer, in opposite roles; ASSERT DATA BUS on the sending side
only. -/
structure Ends (tgt : Bool) (phase : BitVec 3) (y : Pair) : Prop where
  sends : EndRegs tgt phase true y.sends.regs
  receives : EndRegs (!tgt) phase false y.receives.regs

theorem Ends.rst (ends : Ends tgt phase y) : y.bus.rst = false := by
  rw [Pair.bus, Chip.settleBoth_eq]
  simp [Scsi.or, Chip.State.drive, ends.sends.rst, ends.receives.rst]

theorem Ends.bsy (ends : Ends tgt phase y) : y.bus.bsy = true := by
  rw [Pair.bus, Chip.settleBoth_eq]
  cases tgt with
  | true => simp [Scsi.or, Chip.State.drive, Chip.State.drvEn, ends.sends.test, ends.sends.bsy rfl]
  | false =>
      simp [Scsi.or, Chip.State.drive, Chip.State.drvEn, ends.receives.test,
        ends.receives.bsy rfl]

/-- The target of the two makes the requests. -/
theorem Ends.req (ends : Ends tgt phase y) :
    y.bus.req = if tgt then y.sends.dmaReq else y.receives.dmaReq := by
  rw [Pair.bus, Chip.settleBoth_eq]
  have role := ends.sends.role
  have other := ends.receives.role
  cases tgt <;>
    simp_all [Scsi.or, Chip.State.drive, Chip.State.drvEn, ends.sends.test, ends.receives.test,
      ends.sends.req, ends.receives.req]

/-- The initiator of the two acknowledges. -/
theorem Ends.ack (ends : Ends tgt phase y) :
    y.bus.ack = if tgt then y.receives.dmaAck else y.sends.dmaAck := by
  rw [Pair.bus, Chip.settleBoth_eq]
  have role := ends.sends.role
  have other := ends.receives.role
  cases tgt <;>
    simp_all [Scsi.or, Chip.State.drive, Chip.State.drvEn, ends.sends.test, ends.receives.test,
      ends.sends.ack, ends.receives.ack]

theorem Ends.phase_eq (ends : Ends tgt phase y) : y.bus.phase = phase := by
  have role := ends.sends.role
  have other := ends.receives.role
  rw [Pair.bus, Chip.settleBoth_eq]
  cases tgt with
  | true =>
      rw [← ends.sends.phase_eq, ← Chip.Regs.tcrPhase_eq]
      simp_all [Scsi.phase, Scsi.or, Chip.State.drive, Chip.State.drvEn, ends.sends.test]
  | false =>
      rw [← ends.receives.phase_eq, ← Chip.Regs.tcrPhase_eq]
      simp_all [Scsi.phase, Scsi.or, Chip.State.drive, Chip.State.drvEn, ends.receives.test]

theorem Ends.phaseMatch_sends (ends : Ends tgt phase y) : y.sends.phaseMatch y.bus = true := by
  simp [Chip.State.phaseMatch, ends.phase_eq, ends.sends.phase_eq]

theorem Ends.phaseMatch_receives (ends : Ends tgt phase y) :
    y.receives.phaseMatch y.bus = true := by
  simp [Chip.State.phaseMatch, ends.phase_eq, ends.receives.phase_eq]

/-- Only the sender drives the data lines. -/
theorem Ends.data (ends : Ends tgt phase y) (io : phase.getLsbD 0 = tgt) :
    y.bus.data = y.sends.regs.odr := by
  have input : y.bus.io = tgt := by
    rw [← Scsi.phase_io, ends.phase_eq, io]
  have drives : y.sends.driveData y.bus = true := by
    simp only [Chip.State.driveData, ends.sends.data_eq, ends.sends.role, input,
      ends.phaseMatch_sends]
    cases tgt <;> simp
  have floats : y.receives.driveData y.bus = false := by
    simp [Chip.State.driveData, Chip.State.arbitrating, ends.receives.arb, ends.receives.data_eq]
  have lines := congrArg Scsi.data (Chip.settleBoth_eq y.sends y.receives)
  rw [← Pair.bus] at lines
  simpa [Scsi.or, Chip.State.drive, Chip.State.drvEn, ends.sends.test, drives, floats] using lines

end Wires

/-! ## What the hosts may do -/

/-- Register reads, the start write, and DACK writes while DRQ is up. -/
structure SendHost (s : Chip.State) (a : Chip.Port) : Prop where
  start : a.decode = true → a.we = true → a.adr = 5
  dackWr : a.dackWr = true → s.drq = true

/-- Register reads, the start write of the role, and DACK reads while DRQ is up. -/
structure ReceiveHost (tgt : Bool) (s : Chip.State) (a : Chip.Port) : Prop where
  start : a.decode = true → a.we = true → a.adr = if tgt then 6 else 7
  dackRd : a.dackRd = true → s.drq = true
  dackWr : a.dackWr = false

instance (s : Chip.State) (a : Chip.Port) : Decidable (SendHost s a) :=
  decidable_of_iff
    ((a.decode = true → a.we = true → a.adr = 5) ∧ (a.dackWr = true → s.drq = true))
    ⟨fun ⟨start, dackWr⟩ => ⟨start, dackWr⟩, fun ⟨start, dackWr⟩ => ⟨start, dackWr⟩⟩

instance (tgt : Bool) (s : Chip.State) (a : Chip.Port) : Decidable (ReceiveHost tgt s a) :=
  decidable_of_iff
    ((a.decode = true → a.we = true → a.adr = if tgt then 6 else 7) ∧
      (a.dackRd = true → s.drq = true) ∧ a.dackWr = false)
    ⟨fun ⟨start, dackRd, dackWr⟩ => ⟨start, dackRd, dackWr⟩,
      fun ⟨start, dackRd, dackWr⟩ => ⟨start, dackRd, dackWr⟩⟩

section Hosts

variable {p : Chip.Params} {tgt : Bool} {s : Chip.State} {a : Chip.Port} {bus : Scsi}

theorem SendHost.strobes (host : SendHost s a) : Chip.State.SendStrobes s a := by
  refine ⟨host.dackWr, ?_, ?_⟩
  · by_contra starts
    simp only [Chip.Port.sdtr, Bool.not_eq_false, Bool.and_eq_true, beq_iff_eq] at starts
    have only := host.start starts.1.1 starts.1.2
    rw [starts.2] at only
    cases only
  · by_contra starts
    simp only [Chip.Port.sdir, Bool.not_eq_false, Bool.and_eq_true, beq_iff_eq] at starts
    have only := host.start starts.1.1 starts.1.2
    rw [starts.2] at only
    cases only

theorem ReceiveHost.strobes (host : ReceiveHost tgt s a) :
    Chip.State.ReceiveStrobes tgt s a := by
  have start := host.start
  refine ⟨host.dackRd, ?_, ?_⟩
  · cases tgt <;> simp_all [Chip.Port.sds]
  · cases tgt <;> simp_all [Chip.Port.sdtr, Chip.Port.sdir]

/-- The sender's host changes the Output Data Register and nothing else. -/
theorem SendHost.regs (host : SendHost s a) (rst : bus.rst = false) (bsy : bus.bsy = true) :
    (s.next p a bus).regs = { s.regs with odr := if a.dackWr then a.dat else s.regs.odr } := by
  rw [Chip.State.next_regs rst bsy]
  cases writes : a.stb && a.we with
  | false => simp [Chip.Port.dackWr, writes]
  | true =>
      rw [Bool.and_eq_true] at writes
      cases dack : a.dack with
      | true => simp [Chip.Regs.write, Chip.Port.dackWr, writes.1, writes.2, dack]
      | false =>
          have start := host.start (by simp [Chip.Port.decode, writes.1, dack]) writes.2
          simp [Chip.Regs.write, Chip.Port.dackWr, dack, start]

/-- The receiver's host changes no register. -/
theorem ReceiveHost.regs (host : ReceiveHost tgt s a) (rst : bus.rst = false)
    (bsy : bus.bsy = true) : (s.next p a bus).regs = s.regs := by
  rw [Chip.State.next_regs rst bsy]
  cases writes : a.stb && a.we with
  | false => simp
  | true =>
      rw [Bool.and_eq_true] at writes
      have dack : a.dack = false := by
        have none := host.dackWr
        simpa [Chip.Port.dackWr, writes.1, writes.2] using none
      have start := host.start (by simp [Chip.Port.decode, writes.1, dack]) writes.2
      cases tgt <;> simp [Chip.Regs.write, dack, start]

end Hosts

/-! ## The transfer -/

/-- The bytes the sender's host gives. -/
def pairWrites (input : ℕ → PairInput) (t : ℕ) : List Byte :=
  (Chip.State.given (input t).sends).toList

/-- The bytes the receiver's host takes. -/
def pairReads (y : ℕ → Pair) (input : ℕ → PairInput) (t : ℕ) : List Byte :=
  if (input t).receives.dackRd then [(y t).receives.datO (input t).receives (y t).bus] else []

/-- The invariant of a transfer, in which the target sends or the initiator does. -/
structure Joined (tgt : Bool) (phase : BitVec 3) (y : Pair) (written reads : List Byte) : Prop
    extends Ends tgt phase y where
  send : Chip.State.SendStage tgt y.sends
  receive : Chip.State.ReceiveStage (!tgt) y.receives
  link : if tgt then Pushed y.sends.pusher y.receives.receiver written reads
    else Pulled y.sends.sender y.receives.receiver written reads

section Step

variable {p : Chip.Params} {phase : BitVec 3} {y : Pair} {i : PairInput}

theorem Ends.next {tgt : Bool} (ends : Ends tgt phase y) (sends : SendHost y.sends i.sends)
    (receives : ReceiveHost (!tgt) y.receives i.receives) : Ends tgt phase (y.next p i) := by
  constructor
  · rw [Pair.next, sends.regs ends.rst ends.bsy]
    exact ends.sends.of_odr _
  · rw [Pair.next, receives.regs ends.rst ends.bsy]
    exact ends.receives

/-- The receiving end takes a step of its machine. -/
theorem Joined.next_receives {tgt : Bool} {written reads : List Byte}
    (joined : Joined tgt phase y written reads)
    (host : ReceiveHost (!tgt) y.receives i.receives) :
    Chip.State.ReceiveStage (!tgt) (y.next p i).receives ∧
      Recv.Step (Chip.State.recvLine (!tgt) y.bus) y.bus.data true i.receives.dackRd
        y.receives.receiver (y.next p i).receives.receiver := by
  have ends := joined.toEnds
  have on : (y.receives.next p i.receives y.bus).regs.dmaMode = true := by
    rw [host.regs ends.rst ends.bsy]
    exact ends.receives.dma
  exact joined.receive.next host.strobes ends.rst ends.receives.dma on
    (fun _ => ends.phaseMatch_receives)

/-- The initiator sends and the target asks. -/
theorem Joined.pull {written reads : List Byte} (joined : Joined false phase y written reads)
    (io : phase.getLsbD 0 = false) (sends : SendHost y.sends i.sends)
    (receives : ReceiveHost true y.receives i.receives) :
    Joined false phase (y.next p i) (written ++ (Chip.State.given i.sends).toList)
      (reads ++ if i.receives.dackRd then y.receives.receiver.held else []) := by
  have ends := joined.toEnds
  have later := sends.regs (p := p) ends.rst ends.bsy
  obtain ⟨send, gives⟩ := joined.send.next (p := p) sends.strobes ends.rst ends.sends.dma
    ends.sends.role (by rw [later]; exact ends.sends.dma) ends.phaseMatch_sends (by rw [later])
  obtain ⟨receive, takes⟩ := joined.next_receives (p := p) receives
  have req : y.bus.req = y.receives.receiver.requests := ends.req.trans joined.receive.requests
  have ack : y.bus.ack = !y.sends.sender.offers.isEmpty := ends.ack.trans joined.send.acks
  have value : ∀ e, y.sends.sender = .offer e → y.bus.data = e := by
    intro e offers
    have only := y.sends.sender_offers_eq
    rw [offers] at only
    rw [ends.data io]
    simpa using only.symm
  refine ⟨ends.next sends receives, send, receive, ?_⟩
  have link : Pulled y.sends.sender y.receives.receiver written reads := joined.link
  rw [req] at gives
  rw [show Chip.State.recvLine (!false) y.bus = y.bus.ack from rfl, ack] at takes
  exact link.step value gives takes

/-- The target sends and the initiator answers. -/
theorem Joined.push {written reads : List Byte} (joined : Joined true phase y written reads)
    (io : phase.getLsbD 0 = true) (sends : SendHost y.sends i.sends)
    (receives : ReceiveHost false y.receives i.receives) :
    Joined true phase (y.next p i) (written ++ (Chip.State.given i.sends).toList)
      (reads ++ if i.receives.dackRd then y.receives.receiver.held else []) := by
  have ends := joined.toEnds
  have later := sends.regs (p := p) ends.rst ends.bsy
  obtain ⟨send, gives⟩ := joined.send.next_push (p := p) sends.strobes ends.rst ends.sends.dma
    ends.sends.role (by rw [later])
  obtain ⟨receive, takes⟩ := joined.next_receives (p := p) receives
  have req : y.bus.req = !y.sends.pusher.offers.isEmpty :=
    ends.req.trans (joined.send.requests ends.sends.dma)
  have ack : y.bus.ack = y.receives.receiver.acks := ends.ack.trans joined.receive.acks
  have value : ∀ e, y.sends.pusher = .offer e → y.bus.data = e := by
    intro e offers
    have only := y.sends.pusher_offers_eq
    rw [offers] at only
    rw [ends.data io]
    simpa using only.symm
  refine ⟨ends.next sends receives, send, receive, ?_⟩
  have link : Pushed y.sends.pusher y.receives.receiver written reads := joined.link
  rw [ack] at gives
  rw [show Chip.State.recvLine (!true) y.bus = y.bus.req from rfl, req] at takes
  exact link.step value gives takes

end Step

/-- What the two hosts may do in a cycle. -/
structure PairAccess (tgt : Bool) (y : Pair) (i : PairInput) : Prop where
  sends : SendHost y.sends i.sends
  receives : ReceiveHost (!tgt) y.receives i.receives

instance (tgt : Bool) (y : Pair) (i : PairInput) : Decidable (PairAccess tgt y i) :=
  decidable_of_iff (SendHost y.sends i.sends ∧ ReceiveHost (!tgt) y.receives i.receives)
    ⟨fun ⟨sends, receives⟩ => ⟨sends, receives⟩, fun ⟨sends, receives⟩ => ⟨sends, receives⟩⟩

theorem Joined.next {p : Chip.Params} {tgt : Bool} {phase : BitVec 3} {y : Pair} {i : PairInput}
    {written reads : List Byte} (joined : Joined tgt phase y written reads)
    (io : phase.getLsbD 0 = tgt) (access : PairAccess tgt y i) :
    Joined tgt phase (y.next p i) (written ++ (Chip.State.given i.sends).toList)
      (reads ++ if i.receives.dackRd then [y.receives.datO i.receives y.bus] else []) := by
  rw [joined.receive.taken y.bus access.receives.strobes]
  cases tgt with
  | true => exact joined.push io access.sends access.receives
  | false => exact joined.pull io access.sends access.receives

theorem Joined.inOrder {tgt : Bool} {phase : BitVec 3} {y : Pair} {written reads : List Byte}
    (joined : Joined tgt phase y written reads) :
    reads <+: written ∧ written.length ≤ reads.length + 2 := by
  have link := joined.link
  cases tgt with
  | true => exact Pushed.inOrder link
  | false => exact Pulled.inOrder link

/-- Neither chip has begun. -/
structure Fresh (y : Pair) : Prop where
  sends : y.sends.eng.dmaSt = .idle ∧ y.sends.eng.drqQ = false
  receives : y.receives.eng.dmaSt = .idle ∧ y.receives.eng.drqQ = false

theorem Fresh.joined {tgt : Bool} {phase : BitVec 3} {y : Pair} (fresh : Fresh y)
    (ends : Ends tgt phase y) : Joined tgt phase y [] [] := by
  obtain ⟨⟨idle, low⟩, idle', low'⟩ := fresh
  refine ⟨ends, ⟨.inl idle, by rw [low, idle]; rfl⟩, ⟨.inl idle', by rw [low', idle']; rfl⟩, ?_⟩
  have off := Chip.State.receiver_idle idle'
  cases tgt with
  | true => exact ⟨[], by simp [Chip.State.pusher, idle, off, pushed], rfl⟩
  | false =>
      exact ⟨[], by simp [Chip.State.sender, ends.sends.dma, idle, off, pulled], rfl⟩

/-- In both directions, for either order of the two starts and every interleaving of
the two hosts, the bytes read are a prefix of the bytes written, and at most two
are in flight. -/
theorem pair_reads_in_order (p : Chip.Params) (tgt : Bool) (phase : BitVec 3) (y : Pair)
    (input : ℕ → PairInput) (n : ℕ) (io : phase.getLsbD 0 = tgt) (ends : Ends tgt phase y)
    (fresh : Fresh y) (access : ∀ t < n, PairAccess tgt (Pair.run p y input t) (input t)) :
    Clocked.trace (pairReads (Pair.run p y input) input) 0 n <+:
      Clocked.trace (pairWrites input) 0 n ∧
    (Clocked.trace (pairWrites input) 0 n).length ≤
      (Clocked.trace (pairReads (Pair.run p y input) input) 0 n).length + 2 := by
  have joined : ∀ t ≤ n, Joined tgt phase (Pair.run p y input t)
      (Clocked.trace (pairWrites input) 0 t)
      (Clocked.trace (pairReads (Pair.run p y input) input) 0 t) := by
    intro t within
    induction t with
    | zero => exact fresh.joined ends
    | succ t ih =>
        rw [Clocked.trace_succ _ (Nat.zero_le t), Clocked.trace_succ _ (Nat.zero_le t),
          Pair.run_succ]
        exact (ih (by omega)).next io (access t (by omega))
  exact (joined n (Nat.le_refl n)).inOrder

/-- The target sends to the initiator in DATA IN. -/
def targetSends : Pair where
  sends := { regs := { icr := 0x09, mr := 0x42, tcr := 0x01 } }
  receives := { regs := { mr := 0x02, tcr := 0x01 } }

/-- Both starts, two DACK writes as they are asked for, and one DACK read between them. -/
def twoAndOne (t : ℕ) : PairInput :=
  { sends := [{ stb := true, we := true, adr := 5 },
      { stb := true, we := true, dack := true, dat := 0x11 }, {}, {}, {}, {}, {}, {}, {},
      { stb := true, we := true, dack := true, dat := 0x22 }].getD t {}
    receives := [{}, {}, { stb := true, we := true, adr := 7 }, {}, {},
      { stb := true, dack := true }].getD t {} }

theorem target_bytes_read :
    Clocked.trace (pairWrites twoAndOne) 0 10 = [0x11, 0x22] ∧
    Clocked.trace (pairReads (Pair.run {} targetSends twoAndOne) twoAndOne) 0 10 <+:
      [0x11, 0x22] := by
  have written : Clocked.trace (pairWrites twoAndOne) 0 10 = [0x11, 0x22] := by decide
  have read := pair_reads_in_order {} true phDataIn targetSends twoAndOne 10 rfl
    ⟨⟨rfl, rfl, rfl, rfl, rfl, rfl, rfl, fun _ => rfl, rfl, rfl⟩,
      ⟨rfl, rfl, rfl, rfl, rfl, rfl, rfl, fun wrong => absurd wrong (by decide), rfl, rfl⟩⟩
    ⟨⟨rfl, rfl⟩, ⟨rfl, rfl⟩⟩ (by decide +kernel)
  rw [written] at read
  exact ⟨written, read.1⟩

end Wish5380.Dma
