import Wish5380.Soft.Target

/-!
# A connected target

What holds of the target and of the lines it drives between any two passes of the settle loop,
whatever the board and QEMU's SCSI layer have done.
-/

namespace Wish5380.Soft

namespace State

variable {c : State}

/-! ## The wires with a target on them -/

/-- The state with other wires before its outputs are worked out. -/
def seeing (c : State) (wires : Scsi) : State :=
  { c with wires := wires }

/-- The inner loop ends in what the chip drives when it sees I/O as it is. -/
theorem combine_settled (c : State) :
    ∃ w : Scsi, w.io = c.resolve.wires.io ∧ combine settleMax c = (c.seeing w).resolve := by
  have : Nonempty Scsi := ⟨c.wires⟩
  obtain ⟨w, settled, -⟩ := (feeds c.core.chip c.peer).existsUnique
  refine ⟨w, ?_, ?_⟩
  · calc w.io = ((c.core.chip.drive w).or c.peer).io := congrArg Scsi.io settled
      _ = c.resolve.wires.io := by
          rw [resolve_eq]
          rfl
  · calc combine settleMax c = c.wired (c.core.chip.drive w) w := combine_settles settled 61
      _ = c.wired (c.core.chip.drive w) ((c.core.chip.drive w).or c.peer) := by rw [← settled]
      _ = (c.seeing w).resolve := (resolve_eq (c.seeing w)).symm

/-- What the chip drives, as far as it does not depend on what it sees. -/
structure Drives (c : State) (drv : Scsi) : Prop where
  rst : drv.rst = (!has c.icr icrTest && has c.icr icrRst)
  bsy : drv.bsy = (!has c.icr icrTest && (has c.icr icrBsy || c.arbActive && has c.mr mrArb))
  sel : drv.sel = (!has c.icr icrTest && has c.icr icrSel)
  ack : drv.ack = (!has c.icr icrTest && !has c.mr mrTarget &&
    (has c.icr icrAck || has c.mr mrDma && !c.dmaTgt && (c.dmaSt == .sHs || c.dmaSt == .rHs)))
  asks : has c.mr mrTarget = false → drv.req = false ∧ drv.msg = false ∧ drv.cd = false ∧
    drv.io = false
  data : has c.mr mrTarget = false → c.arbActive = false → c.peer.io = true → drv.data = 0

theorem combine_drives (c : State) :
    ∃ drv, combine settleMax c = { c with drv := drv, wires := drv.or c.peer } ∧ Drives c drv := by
  obtain ⟨w, io, combined⟩ := c.combine_settled
  refine ⟨(c.seeing w).drive.drv, combined, rfl, rfl, rfl, rfl, ?_, ?_⟩
  · intro initiator
    simp [drive, seeing, initiator]
  · intro initiator free input
    have seen : w.io = true := by
      rw [io]
      simp [resolve, drive, Scsi.or, input]
    simp [drive, seeing, initiator, free, seen]

/-- DRQ is up in the two states that wait for the host. -/
theorem dmaNext_drq (drq : c.drqRaw = (c.dmaSt == .sWant || c.dmaSt == .rHave)) :
    c.dmaNext.drqRaw = (c.dmaNext.dmaSt == .sWant || c.dmaNext.dmaSt == .rHave) := by
  unfold dmaNext
  split_ifs
  · unfold dmaSwitch
    cases st : c.dmaSt <;> rw [st] at drq <;> dsimp only <;> split_ifs <;> first
      | exact rfl
      | exact drq
      | exact (st ▸ drq)
  · rfl

end State

theorem Call.enter_frame (call : Call) (c : State) :
    (call.enter c).peer = c.peer ∧ (call.enter c).arbActive = c.arbActive ∧
      (call.enter c).drqRaw = c.drqRaw ∧ (call.enter c).dmaSt = c.dmaSt := by
  cases call with
  | read reg =>
      show (c.readStrobe reg).peer = _ ∧ (c.readStrobe reg).arbActive = _ ∧
        (c.readStrobe reg).drqRaw = _ ∧ (c.readStrobe reg).dmaSt = _
      unfold State.readStrobe
      split <;> exact ⟨rfl, rfl, rfl, rfl⟩
  | write reg val =>
      show (c.written reg val).peer = _ ∧ (c.written reg val).arbActive = _ ∧
        (c.written reg val).drqRaw = _ ∧ (c.written reg val).dmaSt = _
      unfold State.written
      split <;> exact ⟨rfl, rfl, rfl, rfl⟩
  | dackRead => exact ⟨rfl, rfl, rfl, rfl⟩
  | dackWrite val => exact ⟨rfl, rfl, rfl, rfl⟩
  | setEop asserted => exact ⟨rfl, rfl, rfl, rfl⟩

namespace Attached

variable {ρ : Type} {layer : Layer ρ} {a : Attached ρ}

/-! ## What the target leaves alone -/

/-- Of the chip only the lines driven by the target and the mark of news are different, and a
callback that was taken stays taken. -/
structure Kept (a b : Attached ρ) : Prop where
  chip : b.chip = { a.chip with peer := b.chip.peer, dirty := b.chip.dirty }
  handed : a.handed <+: b.handed

theorem Kept.trans {b c : Attached ρ} (first : Kept a b) (second : Kept b c) : Kept a c :=
  ⟨by rw [second.chip, first.chip], first.handed.trans second.handed⟩

theorem dropRequest_kept : Kept a (a.dropRequest layer) := by
  unfold dropRequest
  split <;> exact ⟨rfl, List.prefix_rfl⟩

theorem back_kept (req : ℕ) (callback : Callback) : Kept a (a.back req callback) := by
  unfold back
  split_ifs
  · exact ⟨rfl, List.prefix_rfl⟩
  · cases callback <;> exact ⟨rfl, List.prefix_append _ _⟩

theorem backs_kept (req : ℕ) (callback : Option Callback) : Kept a (a.backs req callback) := by
  cases callback with
  | none => exact ⟨rfl, List.prefix_rfl⟩
  | some callback => exact back_kept req callback

theorem reqContinue_kept (buf : List Byte) : Kept a (a.reqContinue layer buf) := by
  unfold reqContinue
  split
  · exact Kept.trans (b := { a with scsi := _, asked := true }) ⟨rfl, List.prefix_rfl⟩
      (backs_kept _ _)
  · exact ⟨rfl, List.prefix_rfl⟩

theorem enqueue_kept : Kept a (a.enqueue layer).2 :=
  Kept.trans (b := { a with targ := { a.targ with sreq := _ }, scsi := _, asked := true })
    ⟨rfl, List.prefix_rfl⟩ (backs_kept _ _)

theorem targetCommand_kept : Kept a (a.targetCommand layer) := by
  unfold targetCommand
  split_ifs
  · exact ⟨rfl, List.prefix_rfl⟩
  · have directed : Kept a ((a.enqueue layer).2.direct (a.enqueue layer).1) :=
      Kept.trans enqueue_kept ⟨rfl, List.prefix_rfl⟩
    show Kept a (if (a.enqueue layer).1 != 0 then _ else _)
    split_ifs
    · exact directed.trans (reqContinue_kept [])
    · exact directed

theorem nextByte_kept : Kept a (a.nextByte layer) := by
  unfold nextByte
  dsimp only
  split_ifs
  · exact ⟨rfl, List.prefix_rfl⟩
  · exact Kept.trans (b := { a with targ := { a.targ with asyncBuf := none, asyncOff := 0 } })
      ⟨rfl, List.prefix_rfl⟩ (reqContinue_kept _)

theorem targetMessage_kept (m : Byte) (atn : Bool) : Kept a (a.targetMessage layer m atn).2 := by
  unfold targetMessage
  split_ifs
  · exact ⟨rfl, List.prefix_rfl⟩
  · have dropped : Kept a (a.dropRequest layer) := dropRequest_kept
    exact dropped.trans ⟨rfl, List.prefix_rfl⟩
  · exact ⟨rfl, List.prefix_rfl⟩

theorem targetAdvance_kept (byte : Byte) (atn : Bool) : Kept a (a.targetAdvance layer byte atn) := by
  unfold targetAdvance
  split
  · have told : Kept a (a.targetMessage layer byte atn).2 := targetMessage_kept byte atn
    dsimp only
    split_ifs
    · exact told.trans ⟨rfl, List.prefix_rfl⟩
    · exact told
  · have taken : ∀ cdb cdbLen,
        Kept a { a with targ := { a.targ with cdb := cdb, cdbLen := cdbLen } } :=
      fun _ _ => ⟨rfl, List.prefix_rfl⟩
    dsimp only
    split_ifs
    all_goals first
      | exact (taken _ _).trans targetCommand_kept
      | exact taken _ _
  · exact nextByte_kept
  · have stored : ∀ buf, Kept a { a with targ := { a.targ with asyncBuf := buf } } :=
      fun _ => ⟨rfl, List.prefix_rfl⟩
    exact (stored _).trans nextByte_kept
  · exact ⟨rfl, List.prefix_rfl⟩
  · exact ⟨rfl, List.prefix_rfl⟩
  · exact ⟨rfl, List.prefix_rfl⟩
  · exact ⟨rfl, List.prefix_rfl⟩

theorem targetHandshake_kept : Kept a (a.targetHandshake layer) := by
  unfold targetHandshake
  split
  · split_ifs <;> exact ⟨rfl, List.prefix_rfl⟩
  · split_ifs <;> exact ⟨rfl, List.prefix_rfl⟩
  · split_ifs
    · exact Kept.trans (b := { a with
        chip := { a.chip with dirty := true }, targ := { a.targ with hs := .setup } })
        ⟨rfl, List.prefix_rfl⟩ (targetAdvance_kept _ _)
    · exact ⟨rfl, List.prefix_rfl⟩

theorem targetSelect_kept : Kept a (a.targetSelect layer) := by
  unfold targetSelect
  dsimp only
  split <;> exact ⟨rfl, List.prefix_rfl⟩

theorem targetReact_kept : Kept a (a.targetReact layer) := by
  unfold targetReact
  split
  · split_ifs
    · exact targetSelect_kept
    · exact ⟨rfl, List.prefix_rfl⟩
  · dsimp only
    split_ifs <;> exact ⟨rfl, List.prefix_rfl⟩
  · exact Kept.trans (b := a.holdBsy) ⟨rfl, List.prefix_rfl⟩ targetHandshake_kept

theorem targetSettled_kept : Kept a (a.targetSettled layer) := by
  have lines : Kept (a.targetReact layer) (a.targetReact layer).targetPhaseLines := by
    unfold targetPhaseLines
    split_ifs <;> exact ⟨rfl, List.prefix_rfl⟩
  exact targetReact_kept.trans lines

/-! ## What holds between the steps of a pass -/

/-- A target in DATA IN: the byte on offer is the one in front, and a request that is owed a
callback has no buffer. -/
structure Reading (a : Attached ρ) : Prop where
  offered : a.targ.hs = .req → a.chip.peer.req = true ∧ a.chip.peer.data = a.targ.outByte
  quiet : a.targ.hs = .setup → a.chip.peer.req = false
  full : a.targ.hs ≠ .setup → a.targ.haveByte = true
  waits : a.asked = true → a.targ.hs = .setup ∧ a.targ.asyncBuf = none

/-- Lines no target drives. -/
structure Mute (peer : Scsi) : Prop where
  rst : peer.rst = false
  sel : peer.sel = false
  atn : peer.atn = false
  ack : peer.ack = false

structure Steady (a : Attached ρ) : Prop where
  mute : Mute a.chip.peer
  busy : a.targ.phase ≠ .free → a.chip.peer.bsy = true ∧ a.chip.arbActive = false
  owner : a.targ.sreq ≠ none → a.targ.phase ≠ .free
  dropped : a.targ.hs = .rel → a.chip.peer.req = false
  reading : a.targ.phase = .dataIn → Reading a
  drq : a.chip.drqRaw = (a.chip.dmaSt == .sWant || a.chip.dmaSt == .rHave)

/-- Between two passes the phase lines are those of the phase. -/
structure Sound (a : Attached ρ) : Prop extends Steady a where
  lines : a.targ.phase = .dataIn →
    a.chip.peer.msg = false ∧ a.chip.peer.cd = false ∧ a.chip.peer.io = true

/-- A byte has just been handshaked. -/
structure Turned (a : Attached ρ) : Prop extends Steady a where
  setup : a.targ.hs = .setup
  released : a.chip.peer.req = false
  idle : a.targ.phase = .dataIn → a.asked = false

theorem mute_nothing : Mute {} :=
  ⟨rfl, rfl, rfl, rfl⟩

/-- A target that sets a byte up and asks for nothing is steady in whatever phase. -/
theorem steady_setup (mute : Mute a.chip.peer)
    (busy : a.targ.phase ≠ .free → a.chip.peer.bsy = true ∧ a.chip.arbActive = false)
    (owner : a.targ.sreq ≠ none → a.targ.phase ≠ .free) (setup : a.targ.hs = .setup)
    (released : a.chip.peer.req = false)
    (waits : a.targ.phase = .dataIn → a.asked = true → a.targ.asyncBuf = none)
    (drq : a.chip.drqRaw = (a.chip.dmaSt == .sWant || a.chip.dmaSt == .rHave)) : Steady a where
  mute := mute
  busy := busy
  owner := owner
  dropped := fun _ => released
  reading := fun dataIn =>
    { offered := fun req => by simp [setup] at req
      quiet := fun _ => released
      full := fun other => absurd setup other
      waits := fun asked => ⟨setup, waits dataIn asked⟩ }
  drq := drq

theorem Steady.targetFree (steady : Steady a) : Steady a.targetFree :=
  steady_setup mute_nothing (fun other => absurd rfl other) (fun other => absurd rfl other) rfl rfl
    (fun dataIn => by simp [Attached.targetFree] at dataIn) steady.drq

theorem Steady.dropRequest (steady : Steady a) : Steady (a.dropRequest layer) := by
  unfold Attached.dropRequest
  split
  · exact ⟨steady.mute, steady.busy, fun other => absurd rfl other, steady.dropped,
      fun dataIn => ⟨(steady.reading dataIn).offered, (steady.reading dataIn).quiet,
        (steady.reading dataIn).full, (steady.reading dataIn).waits⟩, steady.drq⟩
  · exact steady

/-! ## Callbacks -/

theorem Steady.back (steady : Steady a) {req : ℕ} {callback : Callback}
    (owed : a.targ.sreq = some req → a.asked = true) : Steady (a.back req callback) := by
  unfold Attached.back
  split_ifs with other
  · exact steady
  · have current : a.targ.sreq = some req := by simpa using other
    have connected : a.targ.phase ≠ .free := steady.owner (by simp [current])
    cases callback with
    | transferData buf =>
        have asked := owed current
        exact
          { mute := steady.mute
            busy := steady.busy
            owner := steady.owner
            dropped := steady.dropped
            reading := fun dataIn => by
              have setup := ((steady.reading dataIn).waits asked).1
              exact
                { offered := fun req => by
                    have now : a.targ.hs = .req := req
                    simp [setup] at now
                  quiet := (steady.reading dataIn).quiet
                  full := fun busy => absurd setup busy
                  waits := fun again => by simp at again }
            drq := steady.drq }
    | complete status =>
        exact
          { mute := steady.mute
            busy := fun _ => steady.busy connected
            owner := fun _ => by simp
            dropped := fun rel => by simp at rel
            reading := fun dataIn => by simp at dataIn
            drq := steady.drq }

theorem Steady.reqContinue (steady : Steady a) (buf : List Byte)
    (ready : a.targ.phase = .dataIn → a.targ.hs = .setup ∧ a.targ.asyncBuf = none) :
    Steady (a.reqContinue layer buf) := by
  unfold Attached.reqContinue
  cases current : a.targ.sreq with
  | none => exact steady
  | some req =>
      have asked : Steady { a with scsi := (layer.reqContinue a.scsi req buf).2, asked := true } :=
        ⟨steady.mute, steady.busy, steady.owner, steady.dropped,
          fun dataIn => ⟨(steady.reading dataIn).offered, (steady.reading dataIn).quiet,
            (steady.reading dataIn).full, fun _ => ready dataIn⟩, steady.drq⟩
      show Steady (backs _ req (layer.reqContinue a.scsi req buf).1)
      cases (layer.reqContinue a.scsi req buf).1 with
      | none => exact asked
      | some callback => exact asked.back fun _ => rfl

/-! ## The phases -/

theorem back_complete {req : ℕ} (current : a.targ.sreq = some req) (status : Byte) :
    a.back req (.complete status) =
      { a with
        chip := { a.chip with dirty := true }
        asked := false, handed := a.handed ++ [.complete status]
        targ :=
          { a.targ with
            status := status, asyncBuf := none, asyncOff := 0, phase := .status, hs := .setup } } := by
  simp [back, current]

theorem backs_complete {req : ℕ} (current : a.targ.sreq = some req) (connected : a.targ.phase ≠ .free)
    (done : Option Byte) :
    (a.backs req (done.map .complete)).chip =
        { a.chip with dirty := (a.backs req (done.map .complete)).chip.dirty } ∧
      (a.backs req (done.map .complete)).targ.phase ≠ .free := by
  cases done with
  | none => exact ⟨rfl, connected⟩
  | some status =>
      rw [Option.map_some, backs, back_complete current]
      exact ⟨rfl, fun free => by simp at free⟩

/-- A command that has been handed over. -/
theorem enqueue_frame (connected : a.targ.phase ≠ .free) :
    (a.enqueue layer).2.chip = { a.chip with dirty := (a.enqueue layer).2.chip.dirty } ∧
      (a.enqueue layer).2.targ.phase ≠ .free := by
  let made := layer.reqNew a.scsi a.targ.selId a.targ.selLun a.targ.cdb
  let sent : Attached ρ :=
    { a with
      targ := { a.targ with sreq := some made.1 }
      scsi := (layer.reqEnqueue made.2 made.1).2.2, asked := true }
  exact backs_complete (a := sent) rfl connected _

theorem direct_connected {datalen : ℤ} (connected : a.targ.phase ≠ .free) :
    (a.direct datalen).targ.phase ≠ .free := by
  unfold direct
  dsimp only
  split_ifs
  · simp
  · simp
  · exact connected

theorem Turned.targetCommand (turned : Turned a) (connected : a.targ.phase ≠ .free) :
    Steady (a.targetCommand layer) := by
  unfold Attached.targetCommand
  split_ifs with missing
  · exact turned.toSteady.targetFree
  · obtain ⟨chip, still⟩ := enqueue_frame connected
    have steady : Steady ((a.enqueue layer).2.direct (a.enqueue layer).1) := by
      refine steady_setup ?_ (fun _ => ?_) (fun _ => direct_connected still) rfl ?_
        (fun _ _ => rfl) ?_ <;> (unfold direct; dsimp only; rw [chip])
      · exact turned.mute
      · exact turned.busy connected
      · exact turned.released
      · exact turned.drq
    show Steady (if (a.enqueue layer).1 != 0 then _ else _)
    split_ifs
    · exact steady.reqContinue [] fun _ => ⟨rfl, rfl⟩
    · exact steady

theorem Turned.nextByte (turned : Turned a) : Steady (a.nextByte layer) := by
  unfold Attached.nextByte
  dsimp only
  split_ifs
  · exact steady_setup turned.mute turned.busy turned.owner turned.setup turned.released
      (fun dataIn asked => by
        have idle : a.asked = false := turned.idle dataIn
        have still : a.asked = true := asked
        simp [idle] at still) turned.drq
  · have emptied : Steady { a with targ := { a.targ with asyncBuf := none, asyncOff := 0 } } :=
      steady_setup turned.mute turned.busy turned.owner turned.setup turned.released
        (fun _ _ => rfl) turned.drq
    exact emptied.reqContinue _ fun _ => ⟨turned.setup, rfl⟩

theorem Turned.targetMessage (turned : Turned a) (connected : a.targ.phase = .msgOut) (m : Byte)
    (atn : Bool) : Steady (a.targetMessage layer m atn).2 ∧
      ((a.targetMessage layer m atn).2.targ.phase = .msgOut →
        Turned (a.targetMessage layer m atn).2) := by
  unfold Attached.targetMessage
  split_ifs with identify abort
  · have kept : Steady { a with targ := { a.targ with selLun := (m &&& 7).toNat } } :=
      steady_setup turned.mute turned.busy turned.owner turned.setup turned.released
        (fun dataIn => by simp [connected] at dataIn) turned.drq
    exact ⟨kept, fun _ => ⟨kept, turned.setup, turned.released, turned.idle⟩⟩
  · exact ⟨turned.toSteady.dropRequest.targetFree, fun out => by simp [Attached.targetFree] at out⟩
  · exact ⟨turned.toSteady, fun _ => turned⟩

theorem Turned.targetAdvance (turned : Turned a) (byte : Byte) (atn : Bool) :
    Steady (a.targetAdvance layer byte atn) := by
  unfold Attached.targetAdvance
  cases phase : a.targ.phase with
  | free => exact turned.toSteady
  | selected => exact turned.toSteady
  | msgOut =>
      obtain ⟨steady, again⟩ := turned.targetMessage phase byte atn
      dsimp only
      split_ifs with ended
      · have still : (a.targetMessage layer byte atn).2.targ.phase = .msgOut := by
          simp only [Bool.and_eq_true, beq_iff_eq] at ended
          exact ended.2
        have out := again still
        exact steady_setup out.mute (fun _ => out.busy (by simp [still])) (fun _ => by simp)
          out.setup out.released (fun dataIn => by simp at dataIn) out.drq
      · exact steady
  | command =>
      dsimp only
      have taken : ∀ cdb cdbLen, Turned { a with targ := { a.targ with cdb := cdb, cdbLen := cdbLen } } :=
        fun _ _ => ⟨steady_setup turned.mute turned.busy turned.owner turned.setup turned.released
          (fun dataIn => by simp [phase] at dataIn) turned.drq, turned.setup, turned.released,
          turned.idle⟩
      split_ifs
      all_goals first
        | exact (taken _ _).targetCommand (by simp [phase])
        | exact (taken _ _).toSteady
  | dataIn => exact turned.nextByte
  | dataOut =>
      refine Turned.nextByte ⟨steady_setup turned.mute turned.busy turned.owner turned.setup
        turned.released (fun dataIn => by simp [phase] at dataIn) turned.drq, turned.setup,
        turned.released, turned.idle⟩
  | status =>
      exact steady_setup turned.mute (fun _ => turned.busy (by simp [phase])) (fun _ => by simp)
        turned.setup turned.released (fun dataIn => by simp at dataIn) turned.drq
  | msgIn => exact turned.toSteady.targetFree

/-! ## The handshake -/

theorem Steady.targetHandshake (steady : Steady a) : Steady (a.targetHandshake layer) := by
  unfold Attached.targetHandshake
  cases hs : a.targ.hs with
  | setup =>
      dsimp only
      cases full : a.targ.haveByte with
      | false =>
          exact steady_setup ⟨steady.mute.rst, steady.mute.sel, steady.mute.atn, steady.mute.ack⟩
            steady.busy steady.owner hs rfl
            (fun dataIn asked => ((steady.reading dataIn).waits asked).2) steady.drq
      | true =>
          exact
            { mute := ⟨steady.mute.rst, steady.mute.sel, steady.mute.atn, steady.mute.ack⟩
              busy := steady.busy
              owner := steady.owner
              dropped := fun rel => by simp at rel
              reading := fun dataIn =>
                { offered := fun _ => ⟨rfl, by
                    have here : a.targ.phase = .dataIn := dataIn
                    simp [Target.isInput, Target.outByte, here]⟩
                  quiet := fun setup => by simp at setup
                  full := fun _ => full
                  waits := fun asked => by
                    have here : a.targ.phase = .dataIn := dataIn
                    have none := ((steady.reading dataIn).waits asked).2
                    simp [Target.haveByte, here, none] at full }
              drq := steady.drq }
  | req =>
      dsimp only
      split_ifs with ack
      · exact
          { mute := ⟨steady.mute.rst, steady.mute.sel, steady.mute.atn, steady.mute.ack⟩
            busy := steady.busy
            owner := steady.owner
            dropped := fun _ => rfl
            reading := fun dataIn =>
              { offered := fun req => by simp at req
                quiet := fun setup => by simp at setup
                full := fun _ => (steady.reading dataIn).full (by simp [hs])
                waits := fun asked => by
                  have setup := ((steady.reading dataIn).waits asked).1
                  simp [hs] at setup }
            drq := steady.drq }
      · exact steady
  | rel =>
      dsimp only
      split_ifs with ack
      · have idle : a.targ.phase = .dataIn → a.asked = false := fun dataIn => by
          cases asked : a.asked with
          | false => rfl
          | true =>
              have setup := ((steady.reading dataIn).waits asked).1
              simp [hs] at setup
        have turned : Turned { a with
            chip := { a.chip with dirty := true }, targ := { a.targ with hs := .setup } } :=
          ⟨steady_setup steady.mute steady.busy steady.owner rfl (steady.dropped hs)
            (fun dataIn asked => by
              have still : a.asked = true := asked
              simp [idle dataIn] at still) steady.drq, rfl, steady.dropped hs, idle⟩
        exact turned.targetAdvance _ _
      · exact steady

theorem Steady.holdBsy (steady : Steady a) : Steady a.holdBsy :=
  { mute := ⟨steady.mute.rst, steady.mute.sel, steady.mute.atn, steady.mute.ack⟩
    busy := fun connected => ⟨rfl, (steady.busy connected).2⟩
    owner := steady.owner
    dropped := steady.dropped
    reading := fun dataIn => ⟨(steady.reading dataIn).offered, (steady.reading dataIn).quiet,
      (steady.reading dataIn).full, (steady.reading dataIn).waits⟩
    drq := steady.drq }

theorem Steady.targetSelect (steady : Steady a) (free : a.chip.arbActive = false) :
    Steady (a.targetSelect layer) := by
  unfold Attached.targetSelect
  dsimp only
  split
  · exact
      { mute := ⟨steady.mute.rst, steady.mute.sel, steady.mute.atn, steady.mute.ack⟩
        busy := fun _ => ⟨rfl, free⟩
        owner := fun _ => by simp
        dropped := steady.dropped
        reading := fun dataIn => by simp at dataIn
        drq := steady.drq }
  · exact steady

theorem Steady.targetReact (steady : Steady a)
    (free : a.chip.wires.sel = true → a.chip.wires.bsy = false → a.chip.arbActive = false) :
    Steady (a.targetReact layer) := by
  unfold Attached.targetReact
  cases phase : a.targ.phase with
  | free =>
      dsimp only
      split_ifs with selected
      · simp only [Bool.and_eq_true, Bool.not_eq_true'] at selected
        exact steady.targetSelect (free selected.1.1 selected.1.2)
      · exact steady
  | selected =>
      have held := steady.holdBsy
      have connected : a.targ.phase ≠ .free := by simp [phase]
      have arb := (steady.busy connected).2
      dsimp only
      cases a.chip.wires.sel with
      | false =>
          rw [if_pos (by rfl)]
          exact
            { mute := held.mute
              busy := fun _ => ⟨rfl, arb⟩
              owner := fun _ free => by
                revert free
                dsimp only
                split_ifs <;> simp
              dropped := fun rel => by simp at rel
              reading := fun dataIn => by
                exfalso
                revert dataIn
                dsimp only
                split_ifs <;> simp
              drq := held.drq }
      | true =>
          cases a.chip.wires.atn with
          | false => exact held
          | true =>
              exact
                { mute := held.mute
                  busy := held.busy
                  owner := fun _ => connected
                  dropped := held.dropped
                  reading := fun dataIn => by
                    have here : a.targ.phase = .dataIn := dataIn
                    simp [phase] at here
                  drq := held.drq }
  | msgOut => exact steady.holdBsy.targetHandshake
  | command => exact steady.holdBsy.targetHandshake
  | dataIn => exact steady.holdBsy.targetHandshake
  | dataOut => exact steady.holdBsy.targetHandshake
  | status => exact steady.holdBsy.targetHandshake
  | msgIn => exact steady.holdBsy.targetHandshake

theorem Steady.targetPhaseLines (steady : Steady a) : Sound a.targetPhaseLines := by
  unfold Attached.targetPhaseLines
  split_ifs with free
  · exact ⟨steady, fun dataIn => by simp [beq_iff_eq.mp free] at dataIn⟩
  · refine ⟨⟨⟨steady.mute.rst, steady.mute.sel, steady.mute.atn, steady.mute.ack⟩, steady.busy,
      steady.owner, steady.dropped, fun dataIn => ⟨(steady.reading dataIn).offered,
        (steady.reading dataIn).quiet, (steady.reading dataIn).full, (steady.reading dataIn).waits⟩,
      steady.drq⟩, fun dataIn => ?_⟩
    have here : a.targ.phase = .dataIn := dataIn
    simp [here, Target.phaseLines]

/-! ## A pass -/

theorem Sound.enter (sound : Sound a) (call : Call) :
    Sound { a with chip := call.enter a.chip } := by
  obtain ⟨peer, arb, drq, st⟩ := call.enter_frame a.chip
  refine ⟨⟨?_, ?_, sound.owner, ?_, fun dataIn => ⟨?_, ?_, (sound.reading dataIn).full,
    (sound.reading dataIn).waits⟩, ?_⟩, ?_⟩ <;> dsimp only
  · rw [peer]
    exact sound.mute
  · rw [peer, arb]
    exact sound.busy
  · rw [peer]
    exact sound.dropped
  · rw [peer]
    exact (sound.reading dataIn).offered
  · rw [peer]
    exact (sound.reading dataIn).quiet
  · rw [drq, st]
    exact sound.drq
  · rw [peer]
    exact sound.lines

/-- The chip's edge, and the reset that reaches the target. -/
theorem Steady.tick (steady : Steady a) (drives : State.Drives a.chip a.chip.drv)
    (wires : a.chip.wires = a.chip.drv.or a.chip.peer) :
    Steady (a.tick layer) ∧ ((a.tick layer).chip.wires.sel = true →
      (a.tick layer).chip.wires.bsy = false → (a.tick layer).chip.arbActive = false) := by
  have own : a.chip.drv.sel = a.chip.wires.sel := by
    rw [wires]
    simp [Scsi.or, steady.mute.sel]
  unfold Attached.tick
  cases rises : a.chip.wires.rst && !a.chip.prevRst with
  | true =>
      rw [if_pos rfl, State.tick_reset rises]
      refine ⟨steady_setup mute_nothing (fun other => absurd rfl other) (fun other => ?_) rfl rfl
        (fun dataIn => by simp [targetBusReset] at dataIn) rfl, fun _ _ => rfl⟩
      refine absurd ?_ other
      show (a.dropRequest layer).targ.sreq = none
      unfold Attached.dropRequest
      split
      · rfl
      · assumption
  | false =>
      rw [if_neg (by simp), State.tick_advance own rises]
      have arb : a.chip.advance.arbActive =
        (has a.chip.mr mrArb && (a.chip.arbActive || a.chip.starts)) := rfl
      refine ⟨⟨steady.mute, fun connected => ?_, steady.owner, steady.dropped,
        fun dataIn => ⟨(steady.reading dataIn).offered, (steady.reading dataIn).quiet,
          (steady.reading dataIn).full, (steady.reading dataIn).waits⟩,
        State.dmaNext_drq steady.drq⟩, fun sel bsy => ?_⟩
      · obtain ⟨held, free⟩ := steady.busy connected
        refine ⟨held, ?_⟩
        have seen : a.chip.wires.bsy = true := by
          rw [wires]
          simp [Scsi.or, held]
        show a.chip.advance.arbActive = false
        rw [arb]
        simp [State.starts, free, seen]
      · show a.chip.advance.arbActive = false
        have sel' : a.chip.wires.sel = true := sel
        have bsy' : a.chip.wires.bsy = false := bsy
        have driven : a.chip.drv.sel = true := own ▸ sel'
        have quiet : a.chip.drv.bsy = false := by
          rw [wires] at bsy'
          exact (Bool.or_eq_false_iff.mp bsy').1
        rw [drives.sel, Bool.and_eq_true] at driven
        rw [drives.bsy, driven.1, Bool.true_and, Bool.or_eq_false_iff] at quiet
        have starts : a.chip.starts = false := by simp [State.starts, sel']
        rw [arb, starts, Bool.or_false, Bool.and_comm]
        exact quiet.2

theorem Sound.soil (sound : Sound a) (dirty : Bool) :
    Sound { a with chip := { a.chip with dirty := dirty } } :=
  ⟨⟨sound.mute, sound.busy, sound.owner, sound.dropped, fun dataIn =>
    ⟨(sound.reading dataIn).offered, (sound.reading dataIn).quiet, (sound.reading dataIn).full,
      (sound.reading dataIn).waits⟩, sound.drq⟩, sound.lines⟩

theorem Steady.combined (steady : Steady a) :
    Steady a.combined ∧ State.Drives a.combined.chip a.combined.chip.drv ∧
      a.combined.chip.wires = a.combined.chip.drv.or a.combined.chip.peer := by
  obtain ⟨drv, combined, drives⟩ := State.combine_drives { a.chip with dirty := false }
  unfold Attached.combined
  rw [combined]
  exact ⟨⟨steady.mute, steady.busy, steady.owner, steady.dropped, fun dataIn =>
    ⟨(steady.reading dataIn).offered, (steady.reading dataIn).quiet, (steady.reading dataIn).full,
      (steady.reading dataIn).waits⟩, steady.drq⟩, ⟨drives.rst, drives.bsy, drives.sel, drives.ack,
        drives.asks, drives.data⟩, rfl⟩

theorem Sound.pass (sound : Sound a) : Sound (a.pass layer) := by
  obtain ⟨steady, drives, wires⟩ := sound.toSteady.combined
  obtain ⟨ticked, free⟩ := steady.tick drives wires
  exact Sound.soil ((ticked.targetReact free).targetPhaseLines) _

/-! ## Between calls -/

/-- No strobe is left, and a reset that is held has been seen. -/
structure Rested (c : State) : Prop where
  quiet : State.Raised Core.quiet c
  rst : (!has c.icr icrTest && has c.icr icrRst) = true → c.prevRst = true

theorem tick_rested (c : State) (rst : c.wires.rst = (!has c.icr icrTest && has c.icr icrRst))
    (own : c.drv.sel = c.wires.sel) : Rested c.tick := by
  cases rises : c.wires.rst && !c.prevRst with
  | true =>
      have up : c.wires.rst = true := (Bool.and_eq_true _ _ ▸ rises).1
      rw [State.tick_reset rises]
      exact ⟨⟨rfl, rfl, rfl, rfl, rfl, rfl, rfl⟩, fun _ => up⟩
  | false =>
      rw [State.tick_advance own rises]
      refine ⟨⟨rfl, rfl, rfl, rfl, rfl, rfl, rfl⟩, fun held => ?_⟩
      show c.wires.rst = true
      rw [rst, ← held]
      show _ = (!has (if c.busyLost then c.icr &&& 0xc0 else c.icr) icrTest &&
        has (if c.busyLost then c.icr &&& 0xc0 else c.icr) icrRst)
      split_ifs
      · rw [(State.masked c.icr c.mr).1, (State.masked c.icr c.mr).2.1]
      · rfl

theorem Steady.pass_rested (steady : Steady a) : Rested (a.pass layer).chip := by
  obtain ⟨steady, drives, wires⟩ := steady.combined
  have own : a.combined.chip.drv.sel = a.combined.chip.wires.sel := by
    rw [wires]
    simp [Scsi.or, steady.mute.sel]
  have rst : a.combined.chip.wires.rst =
      (!has a.combined.chip.icr icrTest && has a.combined.chip.icr icrRst) := by
    rw [wires, ← drives.rst]
    simp [Scsi.or, steady.mute.rst]
  have ticked : (a.combined.tick layer).chip = a.combined.chip.tick := by
    unfold Attached.tick
    split_ifs <;> rfl
  have rested := tick_rested a.combined.chip rst own
  have kept : Kept (a.combined.tick layer) ((a.combined.tick layer).targetSettled layer) :=
    targetSettled_kept
  unfold Attached.pass
  dsimp only
  rw [kept.chip, ticked]
  exact ⟨⟨rested.quiet.csdRd, rested.quiet.rpi, rested.quiet.sds, rested.quiet.sdtr,
    rested.quiet.sdir, rested.quiet.dackRd, rested.quiet.dackWr⟩, rested.rst⟩

/-- What holds whenever no loop is running. -/
structure Sane (a : Attached ρ) : Prop where
  sound : Sound a
  rested : Rested a.chip

theorem Sound.rounds (sound : Sound a) (n : ℕ) : Sane (a.rounds layer (n + 1)) := by
  induction n generalizing a with
  | zero =>
      unfold Attached.rounds
      split_ifs <;> exact ⟨sound.pass, sound.pass_rested⟩
  | succ n ih =>
      rw [Attached.rounds]
      split_ifs
      · exact ih sound.pass
      · exact ⟨sound.pass, sound.pass_rested⟩

theorem Sound.settle (sound : Sound a) : Sane (a.settle layer) :=
  sound.rounds 63

theorem Sound.back (sound : Sound a) {req : ℕ} {callback : Callback}
    (owed : a.targ.sreq = some req → a.asked = true) : Sound (a.back req callback) := by
  refine ⟨sound.toSteady.back owed, ?_⟩
  unfold Attached.back
  split_ifs
  · exact sound.lines
  · cases callback with
    | transferData buf => exact sound.lines
    | complete status => exact fun dataIn => by simp at dataIn

theorem Sound.requestCancelled (sound : Sound a) (req : ℕ) : Sound (a.requestCancelled req) := by
  unfold Attached.requestCancelled
  split_ifs
  · exact sound
  · exact ⟨steady_setup mute_nothing (fun other => absurd rfl other) (fun other => absurd rfl other)
      rfl rfl (fun dataIn => by simp [Attached.targetFree] at dataIn) sound.drq,
      fun dataIn => by simp [Attached.targetFree] at dataIn⟩

theorem hardReset_sane (a : Attached ρ) : Sane (a.hardReset layer) := by
  refine Sound.settle ⟨steady_setup mute_nothing (fun other => absurd rfl other)
    (fun other => absurd ?_ other) rfl rfl (fun dataIn => by simp [targetBusReset] at dataIn) ?_,
    fun dataIn => by simp [targetBusReset] at dataIn⟩
  · unfold targetBusReset dropRequest
    dsimp only
    split
    · rfl
    · assumption
  · unfold targetBusReset dropRequest
    dsimp only
    split <;> rfl

/-! ## Runs -/

/-- What happens to the chip: a call of the board, a callback of the layer, the RESET pin. -/
inductive Event where
  | call (call : Call)
  | deliver (req : ℕ) (callback : Callback)
  | cancel (req : ℕ)
  | hardReset

def after (layer : Layer ρ) (a : Attached ρ) : Event → Attached ρ
  | .call call => a.perform layer call
  | .deliver req callback => a.deliver layer req callback
  | .cancel req => a.cancel layer req
  | .hardReset => a.hardReset layer

/-- The layer calls back for the current request only when it owes it a callback. -/
def Allowed (a : Attached ρ) : Event → Prop
  | .deliver req _ => a.targ.sreq = some req → a.asked = true
  | .call _ | .cancel _ | .hardReset => True

/-- A run in which the layer keeps to that. -/
def Lawful (layer : Layer ρ) : Attached ρ → List Event → Prop
  | _, [] => True
  | a, event :: events => Allowed a event ∧ Lawful layer (a.after layer event) events

/-- Reached from a hard reset. -/
def Reachable (layer : Layer ρ) (a : Attached ρ) : Prop :=
  ∃ first events, Lawful layer (hardReset layer first) events ∧
    a = events.foldl (after layer) (hardReset layer first)

theorem Sane.after (sane : Sane a) (event : Event) (allowed : Allowed a event) :
    Sane (a.after layer event) := by
  cases event with
  | call call => exact (sane.sound.enter call).settle
  | deliver req callback =>
      show Sane (a.deliver layer req callback)
      unfold Attached.deliver
      split_ifs
      · exact sane
      · exact (sane.sound.back allowed).settle
  | cancel req =>
      show Sane (a.cancel layer req)
      unfold Attached.cancel
      split_ifs
      · exact sane
      · exact (sane.sound.requestCancelled req).settle
  | hardReset => exact hardReset_sane a

theorem Sane.run (sane : Sane a) (events : List Event) (lawful : Lawful layer a events) :
    Sane (events.foldl (Attached.after layer) a) := by
  induction events generalizing a with
  | nil => exact sane
  | cons event events ih => exact ih (sane.after event lawful.1) lawful.2

theorem Reachable.sane (reachable : Reachable layer a) : Sane a := by
  obtain ⟨first, events, lawful, rfl⟩ := reachable
  exact (hardReset_sane first).run events lawful

end Attached

end Wish5380.Soft
