import Wish5380.Soft.Connected

/-!
# One pass of a receive

A receive as an initiator, with a target in DATA IN or STATUS: what the chip makes of the lines of
the target, and what the target makes of ACK.
-/

namespace Wish5380.Soft

namespace State

variable {c : State}

/-! ## The chip's half of a pass -/

/-- The host's own ACK is on the bus. -/
def held (c : State) : Bool :=
  !has c.icr icrTest && has c.icr icrAck

/-- The chip drives ACK, for the host or for the handshake. -/
def acks (c : State) : Bool :=
  !has c.icr icrTest && (has c.icr icrAck || c.dmaSt == .rHs)

/-- The target shows DATA IN. -/
def showsDataIn (peer : Scsi) : Bool :=
  !peer.msg && !peer.cd && peer.io

/-- The registers of a receive as an initiator. -/
structure Receives (c : State) : Prop where
  dma : has c.mr mrDma = true
  initiator : has c.mr mrTarget = false
  phase : c.tcr &&& 0x07 = 0x01
  place : c.dmaSt = .idle ∨ (c.dmaSt = .rWant ∨ c.dmaSt = .rHave ∨ c.dmaSt = .rHs) ∧ c.dmaTgt = false
  sds : c.stSds = false
  sdtr : c.stSdtr = false
  rst : (!has c.icr icrTest && has c.icr icrRst) = true → c.prevRst = true

/-- The handshake after a pass, from the lines of the target. -/
def moved (c : State) : Handshake :=
  let h := c.toHandshake
  match c.dmaSt with
  | .idle => if c.stSdir then { h with dmaSt := .rWant, dmaTgt := false } else h
  | .rWant =>
      if c.peer.req && showsDataIn c.peer then
        { h with idr := c.peer.data, drqRaw := true, dmaSt := .rHave }
      else h
  | .rHave => if c.stDackRd then { h with drqRaw := false, dmaSt := .rHs } else h
  | .rHs => if !c.peer.req then { h with dmaSt := .rWant } else h
  | _ => h

/-- The chip after the edge of a pass. -/
structure Ticked (c next : State) : Prop where
  peer : next.peer = c.peer
  handshake : next.toHandshake = c.moved
  receives : next.Receives
  icr : next.icr = c.icr
  quiet : Raised Core.quiet next
  req : next.wires.req = c.peer.req
  ack : next.wires.ack = c.acks
  data : c.peer.io = true → next.wires.data = c.peer.data
  lines : next.wires.msg = c.peer.msg ∧ next.wires.cd = c.peer.cd ∧ next.wires.io = c.peer.io
  news : next.dmaSt ≠ c.dmaSt → next.dirty = true

theorem phaseMatch_of (phase : c.tcr &&& 0x07 = 0x01) (msg : c.wires.msg = c.peer.msg)
    (cd : c.wires.cd = c.peer.cd) (io : c.wires.io = c.peer.io) :
    c.phaseMatch = showsDataIn c.peer := by
  unfold phaseMatch showsDataIn
  rw [phase, msg, cd, io]
  cases c.peer.msg <;> cases c.peer.cd <;> cases c.peer.io <;> rfl

theorem dmaSwitch_moved (receives : Receives c) (req : c.wires.req = c.peer.req)
    (shown : c.phaseMatch = showsDataIn c.peer)
    (data : c.peer.io = true → c.wires.data = c.peer.data) : c.dmaSwitch = c.moved := by
  rcases receives.place with idle | ⟨want | full | hs, role⟩
  · simp [dmaSwitch, moved, idle, receives.sds, receives.sdtr]
  · have latch : c.recvLatch = (c.peer.req && showsDataIn c.peer) := by
      simp [recvLatch, receives.dma, want, role, req, shown]
    cases latched : c.peer.req && showsDataIn c.peer with
    | true =>
        have input : c.peer.io = true := by
          simp only [showsDataIn, Bool.and_eq_true] at latched
          exact latched.2.2
        simp [dmaSwitch, moved, want, latch, latched, data input]
    | false => simp [dmaSwitch, moved, want, latch, latched]
  · simp [dmaSwitch, moved, full]
  · simp [dmaSwitch, moved, hs, role, req]

theorem moved_place (receives : Receives c) :
    c.moved.dmaSt = .idle ∨
      (c.moved.dmaSt = .rWant ∨ c.moved.dmaSt = .rHave ∨ c.moved.dmaSt = .rHs) ∧
        c.moved.dmaTgt = false := by
  unfold moved
  rcases receives.place with idle | ⟨want | full | hs, role⟩
  · rw [idle]
    dsimp only
    split_ifs
    · exact Or.inr ⟨Or.inl rfl, rfl⟩
    · exact Or.inl idle
  · rw [want]
    dsimp only
    split_ifs
    · exact Or.inr ⟨Or.inr (Or.inl rfl), role⟩
    · exact Or.inr ⟨Or.inl want, role⟩
  · rw [full]
    dsimp only
    split_ifs
    · exact Or.inr ⟨Or.inr (Or.inr rfl), role⟩
    · exact Or.inr ⟨Or.inr (Or.inl full), role⟩
  · rw [hs]
    dsimp only
    split_ifs
    · exact Or.inr ⟨Or.inl rfl, role⟩
    · exact Or.inr ⟨Or.inr (Or.inr hs), role⟩

theorem acks_waiting (other : c.dmaSt ≠ .rHs) : c.acks = c.held := by
  have still : (c.dmaSt == .rHs) = false := by simpa using other
  rw [acks, held, still, Bool.or_false]

theorem acks_acking (st : c.dmaSt = .rHs) : c.acks = !has c.icr icrTest := by
  simp [acks, st]

/-- Without REQ a handshake that waits for a byte goes on waiting. -/
theorem moved_waits (st : c.dmaSt = .idle ∨ c.dmaSt = .rWant) (quiet : c.peer.req = false) :
    c.moved.dmaSt = .idle ∨ c.moved.dmaSt = .rWant := by
  unfold moved
  rcases st with idle | want
  · rw [idle]
    dsimp only
    split_ifs
    · exact Or.inr rfl
    · exact Or.inl idle
  · rw [want]
    dsimp only
    rw [quiet, Bool.false_and, if_neg (by simp)]
    exact Or.inr want

theorem moved_begins (idle : c.dmaSt = .idle) : c.moved.dmaSt = .idle ∨ c.moved.dmaSt = .rWant := by
  unfold moved
  rw [idle]
  dsimp only
  split_ifs
  · exact Or.inr rfl
  · exact Or.inl idle

theorem moved_latches (want : c.dmaSt = .rWant) (req : c.peer.req = true)
    (shown : showsDataIn c.peer = true) :
    c.moved = { c.toHandshake with idr := c.peer.data, drqRaw := true, dmaSt := .rHave } := by
  simp [moved, want, req, shown]

theorem moved_ignores (waits : c.dmaSt = .idle ∨ c.dmaSt = .rWant)
    (other : showsDataIn c.peer = false) : c.moved.dmaSt = .idle ∨ c.moved.dmaSt = .rWant := by
  rcases waits with idle | want
  · exact moved_begins idle
  · refine Or.inr ?_
    simp [moved, want, other]

theorem moved_idle (idle : c.dmaSt = .idle) (sdir : c.stSdir = false) :
    c.moved.dmaSt = c.dmaSt := by
  simp [moved, idle, sdir]

/-- Nothing to latch and nothing to start. -/
theorem moved_still (waits : c.dmaSt = .idle ∨ c.dmaSt = .rWant) (sdir : c.stSdir = false)
    (nothing : c.peer.req = false ∨ showsDataIn c.peer = false) : c.moved.dmaSt = c.dmaSt := by
  rcases waits with idle | want
  · exact moved_idle idle sdir
  · rcases nothing with none | none <;> simp [moved, want, none]

theorem moved_keeps (full : c.dmaSt = .rHave) (untaken : c.stDackRd = false) :
    c.moved = c.toHandshake := by
  simp [moved, full, untaken]

theorem moved_taken (full : c.dmaSt = .rHave) (read : c.stDackRd = true) : c.moved.dmaSt = .rHs := by
  simp [moved, full, read]

theorem moved_acking (acks : c.dmaSt = .rHs) :
    c.moved.dmaSt = if c.peer.req then .rHs else .rWant := by
  cases up : c.peer.req <;> simp [moved, acks, up]

theorem held_enabled (down : c.held = true) : (!has c.icr icrTest) = true :=
  (Bool.and_eq_true _ _ ▸ down : _ ∧ _).1

/-- The chip of a pass, with its wires worked out. -/
def wiredTo (c : State) (drv : Scsi) : State :=
  { c with drv := drv, wires := drv.or c.peer, dirty := false }

theorem Receives.acks (receives : Receives c) {drv : Scsi} (drives : Drives c drv) :
    drv.ack = c.acks := by
  rw [drives.ack, receives.initiator, receives.dma, State.acks]
  rcases receives.place with idle | ⟨want | full | hs, role⟩
  · rw [idle]
    cases has c.icr icrTest <;> cases has c.icr icrAck <;> cases c.dmaTgt <;> rfl
  · rw [want]
    cases has c.icr icrTest <;> cases has c.icr icrAck <;> cases c.dmaTgt <;> rfl
  · rw [full]
    cases has c.icr icrTest <;> cases has c.icr icrAck <;> cases c.dmaTgt <;> rfl
  · rw [hs, role]
    cases has c.icr icrTest <;> cases has c.icr icrAck <;> rfl

theorem Receives.calm (receives : Receives c) (mute : Attached.Mute c.peer) {drv : Scsi}
    (drives : Drives c drv) : (c.wiredTo drv).wires.rst = (!has c.icr icrTest && has c.icr icrRst) ∧
      ((c.wiredTo drv).wires.rst && !(c.wiredTo drv).prevRst) = false := by
  have rst : (c.wiredTo drv).wires.rst = (!has c.icr icrTest && has c.icr icrRst) := by
    simp [wiredTo, Scsi.or, mute.rst, drives.rst]
  refine ⟨rst, ?_⟩
  rw [rst]
  cases held : !has c.icr icrTest && has c.icr icrRst with
  | false => rfl
  | true =>
      have seen : (c.wiredTo drv).prevRst = true := receives.rst held
      rw [seen]
      rfl

theorem Receives.ticked (receives : Receives c) (mute : Attached.Mute c.peer)
    (bsy : c.peer.bsy = true) (free : c.arbActive = false) {drv : Scsi} (drives : Drives c drv) :
    Ticked c (c.wiredTo drv).tick := by
  obtain ⟨noReq, noMsg, noCd, noIo⟩ := drives.asks receives.initiator
  have own : (c.wiredTo drv).drv.sel = (c.wiredTo drv).wires.sel := by
    simp [wiredTo, Scsi.or, mute.sel]
  obtain ⟨rst, calm⟩ := receives.calm mute drives
  have req : (c.wiredTo drv).wires.req = c.peer.req := by simp [wiredTo, Scsi.or, noReq]
  have busy : (c.wiredTo drv).wires.bsy = true := by simp [wiredTo, Scsi.or, bsy]
  have lost : (c.wiredTo drv).busyLost = false := by simp [busyLost, busy]
  have data : c.peer.io = true → (c.wiredTo drv).wires.data = c.peer.data := fun input => by
    simp [wiredTo, Scsi.or, drives.data receives.initiator free input]
  have msg : (c.wiredTo drv).wires.msg = c.peer.msg := by simp [wiredTo, Scsi.or, noMsg]
  have cd : (c.wiredTo drv).wires.cd = c.peer.cd := by simp [wiredTo, Scsi.or, noCd]
  have io : (c.wiredTo drv).wires.io = c.peer.io := by simp [wiredTo, Scsi.or, noIo]
  have shown : (c.wiredTo drv).phaseMatch = showsDataIn c.peer :=
    phaseMatch_of (c := c.wiredTo drv) receives.phase msg cd io
  have still : Receives (c.wiredTo drv) :=
    ⟨receives.dma, receives.initiator, receives.phase, receives.place, receives.sds, receives.sdtr,
      receives.rst⟩
  have handshake : (c.wiredTo drv).dmaNext = c.moved := by
    have dma : has (c.wiredTo drv).mr mrDma = true := receives.dma
    rw [dmaNext, if_pos dma]
    exact dmaSwitch_moved still req shown data
  have news : (c.wiredTo drv).dmaNews = (c.moved.dmaSt != c.dmaSt) := by
    have dma : has (c.wiredTo drv).mr mrDma = true := receives.dma
    rw [dmaNews, if_pos dma, dmaSwitch_moved still req shown data]
    rfl
  have icr : (c.wiredTo drv).advance.icr = c.icr := by
    show (if (c.wiredTo drv).busyLost then _ else _) = _
    rw [lost]
    rfl
  have mr : (c.wiredTo drv).advance.mr = c.mr := by
    show (if (c.wiredTo drv).busyLost then _ else _) = _
    rw [lost]
    rfl
  rw [tick_advance own calm]
  exact
    { peer := rfl
      handshake := handshake
      receives :=
        { dma := by rw [mr]; exact receives.dma
          initiator := by rw [mr]; exact receives.initiator
          phase := receives.phase
          place := by
            have place := moved_place receives
            rw [← handshake] at place
            exact place
          sds := rfl
          sdtr := rfl
          rst := fun held => by
            rw [icr, ← rst] at held
            exact held }
      icr := icr
      quiet := ⟨rfl, rfl, rfl, rfl, rfl, rfl, rfl⟩
      req := req
      ack := by
        show (drv.ack || c.peer.ack) = c.acks
        rw [mute.ack, Bool.or_false]
        exact receives.acks drives
      data := data
      lines := ⟨msg, cd, io⟩
      news := fun moves => by
        have changed : (c.wiredTo drv).dmaNext.dmaSt ≠ c.dmaSt := moves
        rw [handshake] at changed
        show ((c.wiredTo drv).dirty || (c.wiredTo drv).starts || (c.wiredTo drv).dmaNews ||
          (c.wiredTo drv).stRpi || (c.wiredTo drv).busyLost ||
          (!(c.wiredTo drv).stRpi && (c.wiredTo drv).raises && !(c.wiredTo drv).irqLatch)) = true
        simp [news, changed] }

end State

namespace Target

/-- The buffer from the byte in front. -/
def left (t : Target) : List Byte :=
  (t.asyncBuf.getD []).drop t.asyncOff

/-- What of the buffer has not been handshaked. -/
def unread (t : Target) : List Byte :=
  if t.hs == .rel then t.left.tail else t.left

/-- A peer that shows a phase. -/
def onLines (phase : Phase) (peer : Scsi) : Scsi :=
  { peer with
    msg := (phaseLines phase).1, cd := (phaseLines phase).2.1, io := (phaseLines phase).2.2 }

theorem onLines_eq {phase : Phase} {peer : Scsi}
    (lines : (peer.msg, peer.cd, peer.io) = phaseLines phase) : onLines phase peer = peer := by
  rw [onLines, ← lines]

variable {t : Target}

theorem left_of_full (dataIn : t.phase = .dataIn) (full : t.haveByte = true) :
    t.left = t.outByte :: t.left.tail := by
  unfold haveByte at full
  unfold left outByte
  rw [dataIn] at full ⊢
  cases buf : t.asyncBuf with
  | none => simp [buf] at full
  | some bytes =>
      have inside : t.asyncOff < bytes.length := by simpa [buf] using full
      have front : bytes.getD t.asyncOff 0 = bytes[t.asyncOff] := by
        rw [List.getD_eq_getElem?_getD, List.getElem?_eq_getElem inside]
        rfl
      rw [Option.getD_some, front, List.drop_eq_getElem_cons inside]
      rfl

end Target

namespace Attached

variable {ρ : Type} {layer : Layer ρ} {a b : Attached ρ}

/-! ## The target's half of a pass -/

/-- The phases of a receive. -/
def Giving (t : Target) : Prop :=
  t.phase = .dataIn ∨ t.phase = .status

theorem holdBsy_eq (bsy : b.chip.peer.bsy = true) : b.holdBsy = b := by
  have same : ({ b.chip.peer with bsy := true } : Scsi) = b.chip.peer := by
    rw [← bsy]
  show { b with chip := { b.chip with peer := { b.chip.peer with bsy := true } } } = b
  rw [same]

theorem settled_eq (giving : Giving b.targ) (bsy : b.chip.peer.bsy = true) :
    b.targetSettled layer = (b.targetHandshake layer).targetPhaseLines := by
  unfold targetSettled targetReact
  rcases giving with phase | phase <;> rw [phase] <;> dsimp only <;> rw [holdBsy_eq bsy]

theorem phaseLines_eq (connected : b.targ.phase ≠ .free) : b.targetPhaseLines =
    { b with chip := { b.chip with peer := Target.onLines b.targ.phase b.chip.peer } } := by
  unfold targetPhaseLines
  rw [if_neg (by simpa using connected)]
  rfl

theorem Giving.connected (giving : Giving b.targ) : b.targ.phase ≠ .free := by
  rcases giving with phase | phase <;> simp [phase]

theorem Giving.input (giving : Giving b.targ) : b.targ.isInput = true := by
  rcases giving with phase | phase <;> simp [Target.isInput, phase]

theorem settled_offers (giving : Giving b.targ) (bsy : b.chip.peer.bsy = true)
    (setup : b.targ.hs = .setup) (full : b.targ.haveByte = true) : b.targetSettled layer =
      { b with
        chip :=
          { b.chip with
            peer :=
              Target.onLines b.targ.phase
                { b.chip.peer with
                  data := b.targ.outByte, dbp := Soft.dbp b.targ.outByte, req := true }
            dirty := true }
        targ := { b.targ with hs := .req } } := by
  rw [settled_eq giving bsy, targetHandshake, setup]
  dsimp only
  rw [full, Bool.not_true, if_neg (by simp), giving.input, if_pos rfl, if_pos rfl]
  exact phaseLines_eq giving.connected

theorem settled_waits (giving : Giving b.targ) (bsy : b.chip.peer.bsy = true)
    (setup : b.targ.hs = .setup) (empty : b.targ.haveByte = false) : b.targetSettled layer =
      { b with
        chip :=
          { b.chip with
            peer := Target.onLines b.targ.phase { b.chip.peer with req := false } } } := by
  rw [settled_eq giving bsy, targetHandshake, setup]
  dsimp only
  rw [empty, Bool.not_false, if_pos rfl]
  exact phaseLines_eq giving.connected

theorem settled_acked (giving : Giving b.targ) (bsy : b.chip.peer.bsy = true)
    (req : b.targ.hs = .req) (ack : b.chip.wires.ack = true) : b.targetSettled layer =
      { b with
        chip :=
          { b.chip with
            peer := Target.onLines b.targ.phase { b.chip.peer with req := false }, dirty := true }
        targ :=
          { b.targ with
            hsByte := b.chip.wires.data, atnAtSelect := b.chip.wires.atn, hs := .rel } } := by
  rw [settled_eq giving bsy, targetHandshake, req]
  dsimp only
  rw [if_pos ack]
  exact phaseLines_eq giving.connected

/-- The target waits for ACK to change. -/
theorem settled_stays (giving : Giving b.targ) (bsy : b.chip.peer.bsy = true)
    (stays : b.targ.hs = .req ∧ b.chip.wires.ack = false ∨
      b.targ.hs = .rel ∧ b.chip.wires.ack = true) : b.targetSettled layer =
      { b with
        chip := { b.chip with peer := Target.onLines b.targ.phase b.chip.peer } } := by
  rw [settled_eq giving bsy, targetHandshake]
  rcases stays with ⟨hs, ack⟩ | ⟨hs, ack⟩
  · rw [hs]
    dsimp only
    rw [if_neg (by simp [ack]), phaseLines_eq giving.connected]
  · rw [hs]
    dsimp only
    rw [if_neg (by simp [ack]), phaseLines_eq giving.connected]

theorem settled_released (giving : Giving b.targ) (bsy : b.chip.peer.bsy = true)
    (rel : b.targ.hs = .rel) (ack : b.chip.wires.ack = false) : b.targetSettled layer =
      (targetAdvance layer
        { b with chip := { b.chip with dirty := true }, targ := { b.targ with hs := .setup } }
        b.targ.hsByte b.targ.atnAtSelect).targetPhaseLines := by
  rw [settled_eq giving bsy, targetHandshake, rel]
  dsimp only
  rw [if_pos (by simp [ack])]

end Attached

end Wish5380.Soft
