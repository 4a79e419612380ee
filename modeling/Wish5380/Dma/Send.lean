import Wish5380.Dma.Receive

/-!
# DATA OUT by DMA

The chip as a sender that asks the host for a byte before the target has asked
for one, the target as a sink.  The Output Data Register holds the one byte in
between; clearing DMA MODE takes ACK away in the same cycle and leaves that byte
behind.
-/

namespace Wish5380.Dma

open Interlock

/-! ## The chip as a sender -/

/-- What the host may do while it sends: a DACK write only with DRQ up, no write of
the Output Data Register and no start of a receive. -/
structure SendAccess (s : Chip.State) (a : Chip.Port) : Prop where
  keeps : KeepsRole phDataOut a
  command : a.decode = true → a.we = true → a.adr.toNat = 1 → a.dat.getLsbD 0 = true
  output : a.decode = true → a.we = true → a.adr.toNat ≠ 0
  dackWr : a.dackWr = true → s.drq = true
  sdtr : a.sdtr = false
  sdir : a.sdir = false

instance (s : Chip.State) (a : Chip.Port) : Decidable (SendAccess s a) :=
  decidable_of_iff
    (KeepsRole phDataOut a ∧
      (a.decode = true → a.we = true → a.adr.toNat = 1 → a.dat.getLsbD 0 = true) ∧
      (a.decode = true → a.we = true → a.adr.toNat ≠ 0) ∧
      (a.dackWr = true → s.drq = true) ∧ a.sdtr = false ∧ a.sdir = false)
    ⟨fun ⟨keeps, command, output, dackWr, sdtr, sdir⟩ =>
        ⟨keeps, command, output, dackWr, sdtr, sdir⟩,
      fun ⟨keeps, command, output, dackWr, sdtr, sdir⟩ =>
        ⟨keeps, command, output, dackWr, sdtr, sdir⟩⟩

theorem SendAccess.strobes {s : Chip.State} {a : Chip.Port} (access : SendAccess s a) :
    Chip.State.SendStrobes s a :=
  ⟨access.dackWr, access.sdtr, access.sdir⟩

/-- The chip is at rest or sends as an initiator. -/
structure Sending (s : Chip.State) : Prop extends Initiator phDataOut s where
  data : s.regs.icrData = true
  stage : s.regs.dmaMode = true → Chip.State.SendStage false s

theorem Sending.acks {s : Chip.State} (sending : Sending s) :
    s.dmaAck = !s.sender.offers.isEmpty := by
  cases on : s.regs.dmaMode with
  | false => simp [Chip.State.dmaAck, Chip.State.sender, on]
  | true => exact (sending.stage on).acks

theorem AtRest.sending {s : Chip.State} (rest : AtRest s) (chip : Initiator phDataOut s)
    (data : s.regs.icrData = true) : Sending s := by
  refine ⟨chip, data, fun on => ?_⟩
  obtain ⟨idle, drq⟩ := rest.idle on
  exact ⟨.inl idle, by rw [drq, idle]; rfl⟩

section Next

variable (pc : Chip.Params) {s : Chip.State} {a : Chip.Port} {bus : Scsi}

/-- The Output Data Register holds unless a DACK write fills it. -/
theorem next_odr (access : SendAccess s a) (rst : bus.rst = false) (bsy : bus.bsy = true) :
    (s.next pc a bus).regs.odr = if a.dackWr then a.dat else s.regs.odr := by
  rw [Chip.State.next_regs rst bsy]
  cases writes : a.stb && a.we with
  | false =>
      have none : a.dackWr = false := by simp [Chip.Port.dackWr, writes]
      simp [none]
  | true =>
      rw [Bool.and_eq_true] at writes
      cases dack : a.dack with
      | true => simp [Chip.Regs.write_odr, Chip.Port.dackWr, writes.1, writes.2, dack]
      | false =>
          have other := access.output (by simp [Chip.Port.decode, writes.1, dack]) writes.2
          simp [Chip.Regs.write_odr, Chip.Port.dackWr, dack, other]

theorem next_icrData (access : SendAccess s a) (rst : bus.rst = false) (bsy : bus.bsy = true)
    (data : s.regs.icrData = true) : (s.next pc a bus).regs.icrData = true := by
  rw [Chip.State.next_regs rst bsy]
  split_ifs with writes
  · rw [Bool.and_eq_true] at writes
    rw [Chip.Regs.icrData, Chip.Regs.write_icr]
    split_ifs with command
    · exact access.command (by simp [Chip.Port.decode, writes.1, command.1]) writes.2 command.2
    · exact data
  · exact data

/-- A DACK write leaves the Mode Register alone. -/
theorem next_dmaMode_dackWr (rst : bus.rst = false) (bsy : bus.bsy = true)
    (gives : a.dackWr = true) : (s.next pc a bus).regs.dmaMode = s.regs.dmaMode := by
  simp only [Chip.Port.dackWr, Bool.and_eq_true] at gives
  rw [Chip.State.next_regs rst bsy]
  simp [Chip.Regs.dmaMode, Chip.Regs.write_mr, gives.1.1, gives.1.2, gives.2]

end Next

/-- A chip out of DMA MODE is given nothing. -/
theorem given_off {s : Chip.State} {a : Chip.Port} (access : SendAccess s a)
    (off : s.regs.dmaMode = false) : Chip.State.given a = none := by
  cases gives : a.dackWr with
  | false => simp [Chip.State.given, gives]
  | true =>
      have drq := access.dackWr gives
      simp [Chip.State.drq, off] at drq

/-- The chip stays a sender, in DMA MODE and out of it. -/
theorem Sending.next (pc : Chip.Params) {s : Chip.State} {a : Chip.Port} {bus : Scsi}
    (sending : Sending s) (access : SendAccess s a) (rst : bus.rst = false)
    (bsy : bus.bsy = true) (phase : s.phaseMatch bus = true) : Sending (s.next pc a bus) := by
  refine ⟨sending.toInitiator.next pc access.keeps rst bsy,
    next_icrData pc access rst bsy sending.data, fun later => ?_⟩
  cases on : s.regs.dmaMode with
  | false =>
      obtain ⟨idle, drq⟩ := Chip.State.next_dma_off rst on (p := pc) (a := a)
      exact ⟨.inl idle, by rw [drq, idle]; rfl⟩
  | true =>
      exact ((sending.stage on).next access.strobes rst on sending.role later phase
        (next_odr pc access rst bsy)).1

/-- One edge of the chip while the target is in DATA OUT, unless DMA MODE is set at it. -/
theorem sender_step (pc : Chip.Params) {s : Chip.State} {a : Chip.Port} {bus : Scsi}
    (sending : Sending s) (access : SendAccess s a) (rst : bus.rst = false)
    (bsy : bus.bsy = true) (phase : s.phaseMatch bus = true)
    (kept : (s.next pc a bus).regs.dmaMode = true → s.regs.dmaMode = true) :
    Send.Step bus.req (s.next pc a bus).regs.dmaMode (Chip.State.given a) s.sender
      (s.next pc a bus).sender := by
  cases later : (s.next pc a bus).regs.dmaMode with
  | false =>
      have silent : Chip.State.given a = none := by
        cases gives : a.dackWr with
        | false => simp [Chip.State.given, gives]
        | true =>
            have drq := access.dackWr gives
            rw [next_dmaMode_dackWr pc rst bsy gives] at later
            simp [Chip.State.drq, later] at drq
      rw [Chip.State.sender_off later, silent]
      exact .halt rfl _
  | true =>
      exact ((sending.stage (kept later)).next access.strobes rst (kept later) sending.role later
        phase (next_odr pc access rst bsy)).2

/-! ## The target as a sink -/

/-- The target is in DATA OUT, moving the bytes of a block or waiting for it to drain. -/
def InDataOut (t : Targ.Seq) : Prop :=
  t.st = .dataout ∨ t.st = .wrwait

instance (t : Targ.Seq) : Decidable (InDataOut t) :=
  inferInstanceAs (Decidable (_ ∨ _))

theorem InDataOut.shows {t : Targ.Seq} (data : InDataOut t) : Shows phDataOut t := by
  rcases data with st | st
  · exact ⟨by simp [Targ.Seq.connected, st], by simp [Targ.Seq.phase, st]⟩
  · exact ⟨by simp [Targ.Seq.connected, st], by simp [Targ.Seq.phase, st]⟩

/-- In DATA OUT a handshake under way is in the phase itself, not in the wait. -/
theorem InDataOut.dataout {t : Targ.Seq} (data : InDataOut t) (orderly : t.Orderly)
    (begun : t.hs ≠ .setup) : t.st = .dataout := by
  rcases data with st | st
  · exact st
  · exact absurd (orderly.rests begun) (Targ.Seq.not_transfers_of_waits (.inr st))

/-! ## The two together -/

/-- The bytes the host gives. -/
def dackWrites (input : ℕ → Input) (t : ℕ) : List Byte :=
  (Chip.State.given (input t).port).toList

/-- The bytes the target takes, in the cycle it sees them acknowledged. -/
def captured (pt : Targ.Params) (y : ℕ → System) (input : ℕ → Input) (t : ℕ) : List Byte :=
  if (y t).targ.seq.req && ((y t).bus pt (input t)).ack then [((y t).bus pt (input t)).data] else []

/-- In a WRITE these are the cycles that write the sector buffer. -/
theorem aWe_eq_captured {pt : Targ.Params} {y : ℕ → System} {input : ℕ → Input} {t : ℕ}
    (orderly : (y t).targ.seq.Orderly) (data : InDataOut (y t).targ.seq)
    (media : (y t).targ.seq.respKind = .media) :
    (y t).targ.seq.aWe ((y t).bus pt (input t)) = !(captured pt y input t).isEmpty := by
  cases hs : (y t).targ.seq.hs with
  | req =>
      have st := data.dataout orderly (by simp [hs])
      cases ack : ((y t).bus pt (input t)).ack <;>
        simp [Targ.Seq.aWe, captured, Targ.Seq.req, Targ.Seq.connected, st, hs, media, ack]
  | _ => simp [Targ.Seq.aWe, captured, Targ.Seq.req, hs]

/-- In DATA OUT only the chip drives the data lines. -/
theorem bus_data_out {pt : Targ.Params} {y : System} {i : Input} (sending : Sending y.chip)
    (data : InDataOut y.targ.seq) : (y.bus pt i).data = y.chip.regs.odr := by
  have shows_ := data.shows
  have io : (y.bus pt i).io = false := by
    rw [← Scsi.phase_io, bus_phase pt i sending.toInitiator shows_]
    rfl
  have drives : y.chip.driveData (y.bus pt i) = true := by
    simp [Chip.State.driveData, sending.data, io, bus_phaseMatch pt i sending.toInitiator shows_]
  have floats : (Targ.drive pt y.targ i.blk.count).data = 0 := by
    simp [Targ.drive, Targ.Seq.driveBus, shows_.phase_eq]
  rw [bus_data, drives, floats, Chip.State.drvEn, sending.test]
  simp

/-- Up to cycle `n` DMA MODE is on over one stretch only. -/
def OnePeriod (y : ℕ → System) (n : ℕ) : Prop :=
  ∀ s t u, s ≤ t → t ≤ u → u ≤ n → (y s).chip.regs.dmaMode = true →
    (y u).chip.regs.dmaMode = true → (y t).chip.regs.dmaMode = true

/-- The invariant of the composition. -/
structure Feeding (pt : Targ.Params) (y : ℕ → System) (input : ℕ → Input) (t : ℕ) : Prop where
  chip : Sending (y t).chip
  targ : (y t).targ.seq.Orderly
  link : Sent (y t).chip.sender (y t).targ.seq.req (Clocked.trace (dackWrites input) 0 t)
    (Clocked.trace (captured pt y input) 0 t)
  unbegun : (∀ u ≤ t, (y u).chip.regs.dmaMode = false) → Clocked.trace (dackWrites input) 0 t = []

theorem feeding_succ {pc : Chip.Params} {pt : Targ.Params} {y : System} {input : ℕ → Input}
    {n t : ℕ} (feeding : Feeding pt (run pc pt y input) input t)
    (period : OnePeriod (run pc pt y input) n) (within : t < n)
    (data : InDataOut (run pc pt y input t).targ.seq)
    (access : SendAccess (run pc pt y input t).chip (input t).port) :
    Feeding pt (run pc pt y input) input (t + 1) := by
  obtain ⟨sending, orderly, link, unbegun⟩ := feeding
  have rst := bus_rst pt (input t) sending.toInitiator
  have bsy := bus_bsy pt (input t) data.shows
  have phase := bus_phaseMatch pt (input t) sending.toInitiator data.shows
  have req := bus_req pt (input t) sending.toInitiator
  have ack : ((run pc pt y input t).bus pt (input t)).ack =
      !(run pc pt y input t).chip.sender.offers.isEmpty := by
    rw [bus_ack pt (input t) sending.toInitiator, sending.acks]
  have sinks := System.next_req pc pt (input t) orderly rst
  have takes : captured pt (run pc pt y input) input t =
      if (run pc pt y input t).targ.seq.req then (run pc pt y input t).chip.sender.offers
      else [] := by
    rw [captured, ack, bus_data_out sending data]
    cases (run pc pt y input t).targ.seq.req with
    | false => simp
    | true =>
        rw [if_pos rfl, Chip.State.sender_offers_eq]
        cases (run pc pt y input t).chip.sender.offers.isEmpty with
        | false => rfl
        | true => rfl
  have given : (run pc pt y input t).chip.regs.dmaMode = false → dackWrites input t = [] := by
    intro off
    rw [dackWrites, given_off access off]
    rfl
  refine ⟨sending.next pc access rst bsy phase, System.next_orderly pc pt (input t) orderly, ?_,
    fun off => ?_⟩
  · rw [Clocked.trace_succ _ (Nat.zero_le t), Clocked.trace_succ _ (Nat.zero_le t), takes]
    by_cases kept : (run pc pt y input (t + 1)).chip.regs.dmaMode = true →
        (run pc pt y input t).chip.regs.dmaMode = true
    · have sends := sender_step pc sending access rst bsy phase kept
      rw [req] at sends
      rw [ack] at sinks
      exact link.step sends sinks
    · -- the edge that sets DMA MODE begins the one period: nothing has been given before it
      simp only [Classical.not_imp, Bool.not_eq_true] at kept
      obtain ⟨on, off⟩ := kept
      have before : ∀ u ≤ t, (run pc pt y input u).chip.regs.dmaMode = false := by
        intro u early
        by_contra up
        have still := period u t (t + 1) early (Nat.le_succ t) within (by simpa using up) on
        rw [off] at still
        cases still
      have nothing := unbegun before
      have untaken : Clocked.trace (captured pt (run pc pt y input) input) 0 t = [] := by
        simpa [nothing] using link.inOrder.1
      have start : (run pc pt y input (t + 1)).chip.sender = .ready := by
        have idle := (Chip.State.next_dma_off rst off (p := pc) (a := (input t).port)).1
        simp only [Chip.State.sender, on]
        rw [show (run pc pt y input (t + 1)).chip.eng.dmaSt = .idle from idle]
        rfl
      rw [start, nothing, untaken, given off, Chip.State.sender_off off]
      simp [Sent]
  · rw [Clocked.trace_succ _ (Nat.zero_le t), unbegun fun u early => off u (by omega),
      given (off t (Nat.le_succ t))]
    rfl

/-- Through every interleaving of DACK writes within one period of DMA MODE, and a halt at any
cycle, while the target is in DATA OUT, the target has taken a prefix of the bytes the host has
given, and all of them but at most one.  Whether the target has REQ up when the transfer is set
up makes no difference. -/
theorem captured_in_order (pc : Chip.Params) (pt : Targ.Params) (y : System) (input : ℕ → Input)
    (n : ℕ) (chip : Initiator phDataOut y.chip) (assert : y.chip.regs.icrData = true)
    (rest : AtRest y.chip) (targ : y.targ.seq.Orderly) (period : OnePeriod (run pc pt y input) n)
    (data : ∀ t < n, InDataOut (run pc pt y input t).targ.seq)
    (access : ∀ t < n, SendAccess (run pc pt y input t).chip (input t).port) :
    Clocked.trace (captured pt (run pc pt y input) input) 0 n <+:
      Clocked.trace (dackWrites input) 0 n ∧
    (Clocked.trace (dackWrites input) 0 n).length ≤
      (Clocked.trace (captured pt (run pc pt y input) input) 0 n).length + 1 := by
  have feeding : ∀ t ≤ n, Feeding pt (run pc pt y input) input t := by
    intro t within
    induction t with
    | zero =>
        refine ⟨rest.sending chip assert, targ, ?_, by simp⟩
        have start : y.chip.sender = .off ∨ y.chip.sender = .ready := by
          cases on : y.chip.regs.dmaMode with
          | false => exact .inl (Chip.State.sender_off on)
          | true => exact .inr (by simp [Chip.State.sender, on, (rest.idle on).1])
        rw [show (run pc pt y input 0) = y from rfl]
        rcases start with is | is
        · simp [is, Sent]
        · simp [is, Sent]
    | succ t ih =>
        exact feeding_succ (ih (by omega)) period within (data t within) (access t within)
  exact (feeding n (Nat.le_refl n)).link.inOrder

/-- A target in the DATA OUT of a WRITE with REQ up, and a chip that expects it. -/
def writing : System where
  chip := { regs := { icr := 0x01 } }
  targ := ⟨{ st := .dataout, hs := .req, respKind := .media, xferLen := 512 }, .blank⟩

/-- DMA MODE, the start, a DACK write, the handshake of its byte, a second DACK write, and a
halt before the target has taken it. -/
def twoAndHalt (t : ℕ) : Input :=
  { port := [{ stb := true, we := true, adr := 2, dat := 0x02 },
      { stb := true, we := true, adr := 5 },
      { stb := true, we := true, dack := true, dat := 0x5a }, {}, {}, {},
      { stb := true, we := true, dack := true, dat := 0xa5 },
      { stb := true, we := true, adr := 2, dat := 0x00 }].getD t {} }

theorem one_byte_captured :
    Clocked.trace (dackWrites twoAndHalt) 0 12 = [0x5a, 0xa5] ∧
    Clocked.trace (captured {} (run {} {} writing twoAndHalt) twoAndHalt) 0 12 <+: [0x5a, 0xa5] ∧
    2 ≤ (Clocked.trace (captured {} (run {} {} writing twoAndHalt) twoAndHalt) 0 12).length + 1 := by
  have written : Clocked.trace (dackWrites twoAndHalt) 0 12 = [0x5a, 0xa5] := by decide
  have mode : ∀ t ≤ 12, (run {} {} writing twoAndHalt t).chip.regs.dmaMode =
      decide (1 ≤ t ∧ t ≤ 7) := by
    decide +kernel
  have period : OnePeriod (run {} {} writing twoAndHalt) 12 := by
    intro s t u early late within first last
    rw [mode s (by omega), decide_eq_true_eq] at first
    rw [mode u within, decide_eq_true_eq] at last
    rw [mode t (by omega), decide_eq_true_eq]
    omega
  have sent := captured_in_order {} {} writing twoAndHalt 12
    ⟨⟨rfl, rfl, rfl, rfl, rfl⟩, rfl⟩ rfl (.inl rfl)
    (Targ.Seq.orderly_of_rests (fun _ => .inr (.inr (.inr (.inl rfl)))) rfl) period
    (by decide +kernel) (by decide +kernel)
  rw [written] at sent
  exact ⟨written, sent⟩

end Wish5380.Dma
