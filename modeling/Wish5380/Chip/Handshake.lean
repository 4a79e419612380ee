import Wish5380.Chip.Steps
import Wish5380.Clocked.Interlock

/-!
# The DMA handshake

Inside one period of DMA MODE the engine is one of three machines: a receiver in
either role, a sender that answers REQ with ACK, or a sender that offers with REQ
and waits for ACK.  Each edge of the chip is a step of the machine it is.
-/

namespace Wish5380.Chip.State

open Interlock

/-! ## A receive -/

/-- No transfer yet, or a receive in the role `tgt`; DRQ is up while the latch is full. -/
structure ReceiveStage (tgt : Bool) (s : State) : Prop where
  stage : s.eng.dmaSt = .idle ∨ s.eng.dmaTgt = tgt ∧
    (s.eng.dmaSt = .rWant ∨ s.eng.dmaSt = .rHave ∨ s.eng.dmaSt = .rHs)
  drq : s.eng.drqQ = (s.eng.dmaSt == .rHave)

/-- The receiver the chip is. -/
def receiver (s : State) : Recv Byte :=
  if s.regs.dmaMode then
    match s.eng.dmaSt with
    | .rWant => .want
    | .rHave => .got s.eng.idrQ
    | .rHs => .shake
    | _ => .off
  else .off

/-- The line a receiver waits for: ACK as a target, REQ as an initiator. -/
def recvLine (tgt : Bool) (bus : Scsi) : Bool :=
  if tgt then bus.ack else bus.req

/-- What a host may do while it receives in the role `tgt`: a DACK read only with DRQ
up, and no other start. -/
structure ReceiveStrobes (tgt : Bool) (s : State) (a : Port) : Prop where
  dackRd : a.dackRd = true → s.drq = true
  sds : a.sds = false
  other : (if tgt then a.sdir else a.sdtr) = false

theorem receiver_off {s : State} (off : s.regs.dmaMode = false) : s.receiver = .off := by
  simp [receiver, off]

theorem receiver_idle {s : State} (idle : s.eng.dmaSt = .idle) : s.receiver = .off := by
  simp [receiver, idle]

/-- An initiator's receiver acknowledges on the wire. -/
theorem ReceiveStage.acks {s : State} (receive : ReceiveStage false s) :
    s.dmaAck = s.receiver.acks := by
  cases on : s.regs.dmaMode with
  | false => simp [dmaAck, receiver, on]
  | true =>
      rcases receive.stage with st | ⟨tgt, st | st | st⟩
      · simp [dmaAck, receiver, on, st]
      · simp [dmaAck, receiver, on, st]
      · simp [dmaAck, receiver, on, st]
      · simp [dmaAck, receiver, on, st, tgt]

/-- A target's receiver requests on the wire. -/
theorem ReceiveStage.requests {s : State} (receive : ReceiveStage true s) :
    s.dmaReq = s.receiver.requests := by
  cases on : s.regs.dmaMode with
  | false => simp [dmaReq, receiver, on]
  | true =>
      rcases receive.stage with st | ⟨tgt, st | st | st⟩
      · simp [dmaReq, receiver, on, st]
      · simp [dmaReq, receiver, on, st, tgt]
      · simp [dmaReq, receiver, on, st]
      · simp [dmaReq, receiver, on, st]

/-- A DACK read with DRQ up returns the byte in the latch. -/
theorem ReceiveStage.held {tgt : Bool} {s : State} {a : Port} (bus : Scsi)
    (receive : ReceiveStage tgt s) (drq : s.drq = true) (reads : a.dackRd = true) :
    s.receiver = .got (s.datO a bus) := by
  simp only [State.drq, Bool.and_eq_true] at drq
  have st : s.eng.dmaSt = .rHave := by
    have known := receive.drq
    rw [drq.1] at known
    simpa using known.symm
  have dack : a.dack = true := by
    simp only [Port.dackRd, Bool.and_eq_true] at reads
    exact reads.2
  simp [receiver, drq.2, st, datO, dack]

/-- The bytes in the receiver's hands are what a DACK read takes. -/
theorem ReceiveStage.taken {tgt : Bool} {s : State} {a : Port} (bus : Scsi)
    (receive : ReceiveStage tgt s) (strobes : ReceiveStrobes tgt s a) :
    (if a.dackRd then [s.datO a bus] else []) = if a.dackRd then s.receiver.held else [] := by
  cases reads : a.dackRd with
  | false => rfl
  | true => simp [receive.held bus (strobes.dackRd reads) reads]

section Receive

variable {p : Params} {tgt : Bool} {s : State} {a : Port} {bus : Scsi}

/-- Only the start register of its own role starts a receive. -/
theorem ReceiveStrobes.dmaStep_idle (strobes : ReceiveStrobes tgt s a)
    (idle : s.eng.dmaSt = .idle) : s.dmaStep a bus =
      if (if tgt then a.sdtr else a.sdir) then { s.eng with dmaSt := .rWant, dmaTgt := tgt }
      else s.eng := by
  have other := strobes.other
  cases tgt with
  | true =>
      rw [if_pos rfl] at other
      simp [dmaStep, idle, strobes.sds, other]
  | false =>
      rw [if_neg Bool.false_ne_true] at other
      simp [dmaStep, idle, strobes.sds, other]

/-- An edge inside DMA MODE is a step of the receiver. -/
theorem ReceiveStage.next (receive : ReceiveStage tgt s) (strobes : ReceiveStrobes tgt s a)
    (rst : bus.rst = false) (on : s.regs.dmaMode = true)
    (later : (s.next p a bus).regs.dmaMode = true)
    (phase : tgt = false → s.phaseMatch bus = true) :
    ReceiveStage tgt (s.next p a bus) ∧
      Recv.Step (recvLine tgt bus) bus.data true a.dackRd s.receiver (s.next p a bus).receiver := by
  obtain ⟨st, role, drq, idr⟩ := next_dma_on rst on (p := p) (a := a)
  generalize s.next p a bus = n at later st role drq idr ⊢
  have up := receive.drq
  have silent : s.eng.dmaSt ≠ .rHave → a.dackRd = false := by
    intro other
    cases reads : a.dackRd with
    | false => rfl
    | true =>
        have asks := strobes.dackRd reads
        rw [State.drq, up] at asks
        simp [other] at asks
  have latch : s.eng.dmaSt = .rWant → s.eng.dmaTgt = tgt → s.recvLatch bus = recvLine tgt bus := by
    intro now is
    cases tgt with
    | true => simp [recvLatch, recvLine, now, is]
    | false => simp [recvLatch, recvLine, now, is, reqOk, phase rfl]
  rcases receive.stage with now | ⟨is, now | now | now⟩
  · have quiet := silent (by simp [now])
    cases go : (if tgt then a.sdtr else a.sdir) with
    | true =>
        simp only [strobes.dmaStep_idle now, go, if_true] at st role drq
        refine ⟨⟨.inr ⟨role, .inl st⟩, by simp [st, drq, up, now]⟩, ?_⟩
        simp only [receiver, on, later, now, st, quiet, if_true]
        exact .start
    | false =>
        simp only [strobes.dmaStep_idle now, go, Bool.false_eq_true, if_false] at st drq
        refine ⟨⟨.inl (st.trans now), by rw [drq, st, up]⟩, ?_⟩
        simp only [receiver, on, later, now, st, quiet, if_true]
        exact .idle
  · have quiet := silent (by simp [now])
    cases line : recvLine tgt bus with
    | true =>
        simp only [dmaStep, now, latch now is, line, if_true] at st role drq idr
        refine ⟨⟨.inr ⟨role.trans is, .inr (.inl st)⟩, by simp [st, drq]⟩, ?_⟩
        simp only [receiver, on, later, now, st, idr, quiet, if_true]
        exact .latch rfl
    | false =>
        simp only [dmaStep, now, latch now is, line, Bool.false_eq_true, if_false] at st role drq
        refine ⟨⟨.inr ⟨role.trans is, .inl st⟩, by rw [drq, st, up, now]⟩, ?_⟩
        simp only [receiver, on, later, now, st, quiet, if_true]
        exact .await rfl
  · cases reads : a.dackRd with
    | true =>
        simp only [dmaStep, now, reads, if_true] at st role drq
        refine ⟨⟨.inr ⟨role.trans is, .inr (.inr st)⟩, by simp [st, drq]⟩, ?_⟩
        simp only [receiver, on, later, now, st, if_true]
        exact .take _
    | false =>
        simp only [dmaStep, now, reads, Bool.false_eq_true, if_false] at st role drq idr
        refine ⟨⟨.inr ⟨role.trans is, .inr (.inl st)⟩, by rw [drq, st, up, now]⟩, ?_⟩
        simp only [receiver, on, later, now, st, idr, if_true]
        exact .hold _
  · have quiet := silent (by simp [now])
    have leaves : (if s.eng.dmaTgt then !bus.ack else !bus.req) = !recvLine tgt bus := by
      rw [is]
      cases tgt <;> rfl
    cases line : recvLine tgt bus with
    | true =>
        simp only [dmaStep, now, leaves, line, Bool.not_true, Bool.false_eq_true, if_false]
          at st role drq
        refine ⟨⟨.inr ⟨role.trans is, .inr (.inr st)⟩, by rw [drq, st, up, now]⟩, ?_⟩
        simp only [receiver, on, later, now, st, quiet, if_true]
        exact .wait rfl
    | false =>
        simp only [dmaStep, now, leaves, line, Bool.not_false, if_true] at st role drq
        refine ⟨⟨.inr ⟨role.trans is, .inl st⟩, by simp [drq, st, up, now]⟩, ?_⟩
        simp only [receiver, on, later, now, st, quiet, if_true]
        exact .done rfl

end Receive

/-! ## A send -/

/-- No transfer yet, or a send in the role `tgt`; DRQ is up while the chip waits for a
byte. -/
structure SendStage (tgt : Bool) (s : State) : Prop where
  stage : s.eng.dmaSt = .idle ∨ s.eng.dmaTgt = tgt ∧
    (s.eng.dmaSt = .sWant ∨ s.eng.dmaSt = .sHave ∨ s.eng.dmaSt = .sHs ∨
      tgt = true ∧ s.eng.dmaSt = .sTrel)
  drq : s.eng.drqQ = (s.eng.dmaSt == .sWant)

/-- The sender the chip is as an initiator. -/
def sender (s : State) : Send Byte :=
  if s.regs.dmaMode then
    match s.eng.dmaSt with
    | .idle => .ready
    | .sWant => .want
    | .sHave => .full s.regs.odr
    | .sHs => .offer s.regs.odr
    | _ => .off
  else .off

/-- The sender the chip is as a target. -/
def pusher (s : State) : Push Byte :=
  match s.eng.dmaSt with
  | .sWant => .want
  | .sHave => .full s.regs.odr
  | .sHs => .offer s.regs.odr
  | .sTrel => .rel
  | _ => .ready

/-- The byte a DACK write gives. -/
def given (a : Port) : Option Byte :=
  if a.dackWr then some a.dat else none

/-- What a host may do while it sends: a DACK write only with DRQ up, and no start of a
receive. -/
structure SendStrobes (s : State) (a : Port) : Prop where
  dackWr : a.dackWr = true → s.drq = true
  sdtr : a.sdtr = false
  sdir : a.sdir = false

theorem sender_off {s : State} (off : s.regs.dmaMode = false) : s.sender = .off := by
  simp [sender, off]

/-- What a sender offers is what the Output Data Register holds. -/
theorem sender_offers_eq (s : State) :
    s.sender.offers = if s.sender.offers.isEmpty then [] else [s.regs.odr] := by
  unfold sender
  cases s.regs.dmaMode with
  | false => rfl
  | true => cases s.eng.dmaSt <;> rfl

theorem pusher_offers_eq (s : State) :
    s.pusher.offers = if s.pusher.offers.isEmpty then [] else [s.regs.odr] := by
  unfold pusher
  cases s.eng.dmaSt <;> rfl

/-- An initiator's sender offers with ACK. -/
theorem SendStage.acks {s : State} (send : SendStage false s) :
    s.dmaAck = !s.sender.offers.isEmpty := by
  cases on : s.regs.dmaMode with
  | false => simp [dmaAck, sender, on]
  | true =>
      rcases send.stage with st | ⟨tgt, st | st | st | ⟨wrong, _⟩⟩
      · simp [dmaAck, sender, on, st]
      · simp [dmaAck, sender, on, st]
      · simp [dmaAck, sender, on, st]
      · simp [dmaAck, sender, on, st, tgt]
      · cases wrong

/-- A target's sender offers with REQ. -/
theorem SendStage.requests {s : State} (send : SendStage true s) (on : s.regs.dmaMode = true) :
    s.dmaReq = !s.pusher.offers.isEmpty := by
  rcases send.stage with st | ⟨tgt, st | st | st | ⟨_, st⟩⟩
  · simp [dmaReq, pusher, on, st]
  · simp [dmaReq, pusher, on, st]
  · simp [dmaReq, pusher, on, st]
  · simp [dmaReq, pusher, on, st, tgt]
  · simp [dmaReq, pusher, on, st]

section Send

variable {p : Params} {tgt : Bool} {s : State} {a : Port} {bus : Scsi}

/-- Only a chip that waits for a byte is given one. -/
theorem SendStage.silent (send : SendStage tgt s) (strobes : SendStrobes s a)
    (other : s.eng.dmaSt ≠ .sWant) : a.dackWr = false := by
  cases gives : a.dackWr with
  | false => rfl
  | true =>
      have asks := strobes.dackWr gives
      rw [State.drq, send.drq] at asks
      simp [other] at asks

/-- An edge inside DMA MODE is a step of the initiator's sender. -/
theorem SendStage.next (send : SendStage false s) (strobes : SendStrobes s a)
    (rst : bus.rst = false) (on : s.regs.dmaMode = true) (role : s.regs.targetMode = false)
    (later : (s.next p a bus).regs.dmaMode = true) (phase : s.phaseMatch bus = true)
    (odr : (s.next p a bus).regs.odr = if a.dackWr then a.dat else s.regs.odr) :
    SendStage false (s.next p a bus) ∧
      Send.Step bus.req true (given a) s.sender (s.next p a bus).sender := by
  obtain ⟨st, tgt, drq, _⟩ := next_dma_on rst on (p := p) (a := a)
  generalize s.next p a bus = n at later odr st tgt drq ⊢
  have up := send.drq
  rcases send.stage with now | ⟨is, now | now | now | ⟨wrong, _⟩⟩
  · have quiet := send.silent strobes (by simp [now])
    cases go : a.sds with
    | true =>
        simp only [dmaStep, now, go, role, if_true] at st tgt drq
        refine ⟨⟨.inr ⟨tgt, .inl st⟩, by simp [st, drq]⟩, ?_⟩
        simp only [sender, given, on, later, now, st, quiet, if_true]
        exact .start
    | false =>
        simp [dmaStep, now, go, strobes.sdtr, strobes.sdir] at st drq
        refine ⟨⟨.inl st, by rw [drq, st, up, now]⟩, ?_⟩
        simp only [sender, given, on, later, now, st, quiet, if_true]
        exact .idle
  · cases gives : a.dackWr with
    | true =>
        simp only [dmaStep, now, gives, if_true] at st tgt drq
        refine ⟨⟨.inr ⟨tgt.trans is, .inr (.inl st)⟩, by simp [st, drq]⟩, ?_⟩
        simp only [sender, given, on, later, now, st, odr, gives, if_true]
        exact .fill _
    | false =>
        simp only [dmaStep, now, gives, Bool.false_eq_true, if_false] at st tgt drq
        refine ⟨⟨.inr ⟨tgt.trans is, .inl st⟩, by rw [drq, st, up, now]⟩, ?_⟩
        simp only [sender, given, on, later, now, st, gives, if_true]
        exact .await
  · have quiet := send.silent strobes (by simp [now])
    rw [quiet] at odr
    cases req : bus.req with
    | true =>
        simp [dmaStep, now, is, reqOk, req, phase] at st tgt drq
        refine ⟨⟨.inr ⟨tgt, .inr (.inr (.inl st))⟩, by simp [st, drq, up, now]⟩, ?_⟩
        simp only [sender, given, on, later, now, st, odr, quiet, if_true]
        exact .raise rfl _
    | false =>
        simp [dmaStep, now, is, reqOk, req] at st tgt drq
        refine ⟨⟨.inr ⟨tgt, .inr (.inl st)⟩, by rw [drq, st, up, now]⟩, ?_⟩
        simp only [sender, given, on, later, now, st, odr, quiet, if_true]
        exact .hold rfl _
  · have quiet := send.silent strobes (by simp [now])
    rw [quiet] at odr
    cases req : bus.req with
    | true =>
        simp [dmaStep, now, is, req] at st tgt drq
        refine ⟨⟨.inr ⟨tgt, .inr (.inr (.inl st))⟩, by rw [drq, st, up, now]⟩, ?_⟩
        simp only [sender, given, on, later, now, st, odr, quiet, if_true]
        exact .keep rfl _
    | false =>
        simp [dmaStep, now, is, req] at st tgt drq
        refine ⟨⟨.inr ⟨tgt, .inl st⟩, by simp [st, drq]⟩, ?_⟩
        simp only [sender, given, on, later, now, st, quiet, if_true]
        exact .done rfl _
  · cases wrong

/-- An edge inside DMA MODE is a step of the target's sender. -/
theorem SendStage.next_push (send : SendStage true s) (strobes : SendStrobes s a)
    (rst : bus.rst = false) (on : s.regs.dmaMode = true) (role : s.regs.targetMode = true)
    (odr : (s.next p a bus).regs.odr = if a.dackWr then a.dat else s.regs.odr) :
    SendStage true (s.next p a bus) ∧
      Push.Step bus.ack (given a) s.pusher (s.next p a bus).pusher := by
  obtain ⟨st, tgt, drq, _⟩ := next_dma_on rst on (p := p) (a := a)
  generalize s.next p a bus = n at odr st tgt drq ⊢
  have up := send.drq
  rcases send.stage with now | ⟨is, now | now | now | ⟨_, now⟩⟩
  · have quiet := send.silent strobes (by simp [now])
    cases go : a.sds with
    | true =>
        simp only [dmaStep, now, go, role, if_true] at st tgt drq
        refine ⟨⟨.inr ⟨tgt, .inl st⟩, by simp [st, drq]⟩, ?_⟩
        simp only [pusher, given, now, st, quiet]
        exact .start
    | false =>
        simp [dmaStep, now, go, strobes.sdtr, strobes.sdir] at st drq
        refine ⟨⟨.inl st, by rw [drq, st, up, now]⟩, ?_⟩
        simp only [pusher, given, now, st, quiet]
        exact .idle
  · cases gives : a.dackWr with
    | true =>
        simp only [dmaStep, now, gives, if_true] at st tgt drq
        refine ⟨⟨.inr ⟨tgt.trans is, .inr (.inl st)⟩, by simp [st, drq]⟩, ?_⟩
        simp only [pusher, given, now, st, odr, gives, if_true]
        exact .fill _
    | false =>
        simp only [dmaStep, now, gives, Bool.false_eq_true, if_false] at st tgt drq
        refine ⟨⟨.inr ⟨tgt.trans is, .inl st⟩, by rw [drq, st, up, now]⟩, ?_⟩
        simp only [pusher, given, now, st, gives]
        exact .await
  · have quiet := send.silent strobes (by simp [now])
    rw [quiet] at odr
    simp [dmaStep, now, is] at st tgt drq
    refine ⟨⟨.inr ⟨tgt, .inr (.inr (.inl st))⟩, by simp [st, drq, up, now]⟩, ?_⟩
    simp only [pusher, given, now, st, odr, quiet]
    exact .raise _
  · have quiet := send.silent strobes (by simp [now])
    rw [quiet] at odr
    cases ack : bus.ack with
    | true =>
        simp [dmaStep, now, is, ack] at st tgt drq
        refine ⟨⟨.inr ⟨tgt, .inr (.inr (.inr ⟨rfl, st⟩))⟩, by simp [st, drq, up, now]⟩, ?_⟩
        simp only [pusher, given, now, st, quiet]
        exact .taken rfl _
    | false =>
        simp [dmaStep, now, is, ack] at st tgt drq
        refine ⟨⟨.inr ⟨tgt, .inr (.inr (.inl st))⟩, by rw [drq, st, up, now]⟩, ?_⟩
        simp only [pusher, given, now, st, odr, quiet]
        exact .keep rfl _
  · have quiet := send.silent strobes (by simp [now])
    cases ack : bus.ack with
    | true =>
        simp [dmaStep, now, ack] at st tgt drq
        refine ⟨⟨.inr ⟨tgt.trans is, .inr (.inr (.inr ⟨rfl, st⟩))⟩, by rw [drq, st, up, now]⟩, ?_⟩
        simp only [pusher, given, now, st, quiet]
        exact .hold rfl
    | false =>
        simp [dmaStep, now, ack] at st tgt drq
        refine ⟨⟨.inr ⟨tgt.trans is, .inl st⟩, by simp [st, drq]⟩, ?_⟩
        simp only [pusher, given, now, st, quiet]
        exact .done rfl

end Send

end Wish5380.Chip.State
