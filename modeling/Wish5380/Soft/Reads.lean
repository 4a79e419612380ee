import Wish5380.Soft.Arrival

/-!
# Reading a data phase

What a host gets from DACK reads made while DRQ is up, with QEMU's SCSI layer calling back whenever
it likes: the bytes of the buffers, once each and in order, and then the status.
-/

namespace Wish5380.Soft

namespace Attached

variable {ρ : Type} {layer : Layer ρ} {a : Attached ρ} {past : ℕ} {front sent : List Byte}

/-! ## What happens during a receive -/

/-- A register is read; a byte is read while DRQ is up; the layer calls back, for the current
request only when it owes it a callback. -/
def Receipt (a : Attached ρ) : Event → Prop
  | .call (.read _) => True
  | .call .dackRead => a.chip.drq = true
  | .deliver req _ => a.targ.sreq = some req → a.asked = true
  | _ => False

def Receipts (layer : Layer ρ) : Attached ρ → List Event → Prop
  | _, [] => True
  | a, event :: events => Receipt a event ∧ Receipts layer (a.after layer event) events

instance (a : Attached ρ) : ∀ event, Decidable (Receipt a event)
  | .call (.read _) => inferInstanceAs (Decidable True)
  | .call .dackRead => inferInstanceAs (Decidable (a.chip.drq = true))
  | .deliver req _ => inferInstanceAs (Decidable (a.targ.sreq = some req → a.asked = true))
  | .call (.write ..) | .call (.dackWrite _) | .call (.setEop _) | .cancel _ | .hardReset =>
    inferInstanceAs (Decidable False)

instance decidableReceipts (layer : Layer ρ) :
    ∀ (a : Attached ρ) (events : List Event), Decidable (Receipts layer a events)
  | _, [] => inferInstanceAs (Decidable True)
  | a, event :: events =>
    have := decidableReceipts layer (a.after layer event) events
    inferInstanceAs (Decidable (Receipt a event ∧ Receipts layer (a.after layer event) events))

/-- What `ncr5380_dack_read` returns. -/
def dackValue (a : Attached ρ) : Event → List Byte
  | .call .dackRead => [a.chip.idr]
  | _ => []

/-- The values of the DACK reads of a run. -/
def dackValues (layer : Layer ρ) : Attached ρ → List Event → List Byte
  | _, [] => []
  | a, event :: events => a.dackValue event ++ dackValues layer (a.after layer event) events

/-! ## One event -/

/-- Reading a register only raises strobes that no transfer looks at. -/
theorem readStrobe_frame (c : State) (reg : BitVec 3) : ∃ csdRd rpi,
    c.readStrobe reg = { c with stCsdRd := csdRd, stRpi := rpi } := by
  unfold State.readStrobe
  split
  · exact ⟨true, c.stRpi, rfl⟩
  · exact ⟨c.stCsdRd, true, rfl⟩
  · exact ⟨c.stCsdRd, c.stRpi, rfl⟩

theorem Flow.read (flow : Flow past front sent a) (reg : BitVec 3) :
    Flow past front sent { a with chip := a.chip.readStrobe reg } := by
  have sound := flow.toSound.enter (.read reg)
  obtain ⟨csdRd, rpi, frame⟩ := readStrobe_frame a.chip reg
  refine ⟨sound, ?_, flow.since, ?_⟩
  · show State.Receives (a.chip.readStrobe reg)
    rw [frame]
    exact ⟨flow.receives.dma, flow.receives.initiator, flow.receives.phase, flow.receives.place,
      flow.receives.sds, flow.receives.sdtr, flow.receives.rst⟩
  · rw [frame]
    rcases flow.stage with underway | ended
    · exact Or.inl ⟨underway.phase, underway.carried, underway.going⟩
    · exact Or.inr ⟨ended.phase, ended.all, ended.waits, ended.last, ended.done, ended.quiet, ended.offered,
        ended.up, ended.down⟩

/-- DRQ is up when a byte waits in the Input Data Register. -/
theorem Resting.latched (resting : Resting past front sent a) (drq : a.chip.drq = true) :
    Underway past front sent a ∧ a.chip.dmaSt = .rHave ∧
      ∃ rest, a.targ.left = a.chip.idr :: rest ∧ (a.targ.hs = .req ∨
        a.targ.hs = .rel ∧ a.chip.held = true) ∧ sent ++ a.targ.left = a.promised past front := by
  have raw : a.chip.drqRaw = true := by
    rw [State.drq, Bool.and_eq_true] at drq
    exact drq.1
  have full : a.chip.dmaSt = .rHave := by
    have place := resting.drq
    rw [raw] at place
    rcases resting.receives.place with st | ⟨st | st | st, -⟩
    · simp [st] at place
    · simp [st] at place
    · exact st
    · simp [st] at place
  rcases resting.stage with underway | ended
  · refine ⟨underway, full, ?_⟩
    have untaken : a.chip.stDackRd = false := resting.rested.quiet.dackRd
    cases underway.carried with
    | ready waits before rest => rcases waits with st | st <;> simp [full] at st
    | stuck waits after down part => rcases waits with st | st <;> simp [full] at st
    | passed waits after up rest => rcases waits with st | st <;> simp [full] at st
    | taken _ read place rest => simp [untaken] at read
    | acking acks place rest => simp [full] at acks
    | latched _ fresh place first rest =>
        cases left : a.targ.left with
        | nil => simp [left] at first
        | cons byte tail =>
            rw [left] at first rest
            simp only [List.head?_cons, Option.some.injEq] at first
            exact ⟨tail, by rw [first], place, rest⟩
  · rcases ended.waits with st | st <;> simp [full] at st

theorem Resting.dackRead (resting : Resting past front sent a) (drq : a.chip.drq = true) :
    Flow past front (sent ++ [a.chip.idr]) { a with chip := { a.chip with stDackRd := true } } := by
  obtain ⟨underway, full, tail, left, place, rest⟩ := resting.latched drq
  refine ⟨resting.toSound.enter .dackRead, ?_, resting.since, Or.inl ⟨underway.phase, ?_,
    underway.going⟩⟩
  · exact ⟨resting.receives.dma, resting.receives.initiator, resting.receives.phase,
      resting.receives.place, resting.receives.sds, resting.receives.sdtr, resting.receives.rst⟩
  · refine .taken full rfl place ?_
    show sent ++ [a.chip.idr] ++ a.targ.left.tail = a.promised past front
    rw [← rest, left]
    simp

theorem Resting.deliver (resting : Resting past front sent a) {req : ℕ}
    (current : a.targ.sreq = some req) (asked : a.asked = true) (callback : Callback) :
    Flow past front sent (a.back req callback) := by
  have kept : Kept a (a.back req callback) := back_kept req callback
  refine ⟨resting.toSound.back fun _ => asked, kept.receives resting.receives,
    resting.since.trans kept.handed.length_le, ?_⟩
  rcases resting.stage with underway | ended
  · obtain ⟨setup, none⟩ := (resting.reading underway.phase).waits asked
    have empty : a.targ.left = [] := by
      rw [Target.left, none]
      exact List.drop_nil
    have released := (resting.reading underway.phase).quiet setup
    cases underway.carried with
    | ready waits before rest =>
        rw [empty, List.append_nil] at rest
        exact Stage.back current resting.since setup released waits rest underway.phase
          underway.going callback
    | stuck waits after down part => simp [setup] at after
    | passed waits after up rest => simp [setup] at after
    | latched full fresh place first rest => simp [empty] at first
    | taken full read place rest => simp [setup] at place
    | acking acks place rest => simp [setup] at place
  · simp [ended.done] at asked

/-- An event of a receive leaves a receive, with what the host has read added to what it has. -/
theorem Resting.after (resting : Resting past front sent a) (event : Event)
    (receipt : Receipt a event) :
    Resting past front (sent ++ a.dackValue event) (a.after layer event) := by
  cases event with
  | cancel req => exact receipt.elim
  | hardReset => exact receipt.elim
  | deliver req callback =>
      show Resting past front (sent ++ []) (a.deliver layer req callback)
      rw [List.append_nil]
      unfold Attached.deliver
      split_ifs with other
      · exact resting
      · have current : a.targ.sreq = some req := by simpa using other
        exact (resting.deliver current (receipt current) callback).resting
  | call call =>
      cases call with
      | read reg =>
          show Resting past front (sent ++ []) _
          rw [List.append_nil]
          exact (resting.toFlow.read reg).resting
      | dackRead => exact (resting.dackRead receipt).resting
      | write reg val => exact receipt.elim
      | dackWrite val => exact receipt.elim
      | setEop asserted => exact receipt.elim

theorem Resting.run (resting : Resting past front sent a) (events : List Event)
    (receipts : Receipts layer a events) :
    Resting past front (sent ++ dackValues layer a events) (events.foldl (Attached.after layer) a) := by
  induction events generalizing a sent with
  | nil =>
      rw [dackValues, List.append_nil]
      exact resting
  | cons event events ih =>
      rw [dackValues, ← List.append_assoc]
      exact ih (resting.after event receipts.1) receipts.2

/-! ## A callback that was taken stays taken -/

theorem dropRequest_handed : (a.dropRequest layer).handed = a.handed := by
  unfold dropRequest
  split <;> rfl

theorem pass_handed : a.handed <+: (a.pass layer).handed := by
  have ticked : (a.combined.tick layer).handed = a.handed := by
    unfold Attached.tick
    split_ifs
    · exact dropRequest_handed
    · rfl
  have kept : Kept (a.combined.tick layer) ((a.combined.tick layer).targetSettled layer) :=
    targetSettled_kept
  have same : (a.pass layer).handed = ((a.combined.tick layer).targetSettled layer).handed := rfl
  rw [← ticked, same]
  exact kept.handed

theorem rounds_handed (n : ℕ) : a.handed <+: (a.rounds layer n).handed := by
  induction n generalizing a with
  | zero => exact List.prefix_rfl
  | succ n ih =>
      rw [rounds]
      split_ifs
      · exact pass_handed.trans ih
      · exact pass_handed

theorem after_handed (event : Event) : a.handed <+: (a.after layer event).handed := by
  cases event with
  | call call => exact rounds_handed settleMax (a := { a with chip := call.enter a.chip })
  | deliver req callback =>
      show a.handed <+: (a.deliver layer req callback).handed
      unfold deliver
      split_ifs
      · exact List.prefix_rfl
      · exact (back_kept req callback).handed.trans (rounds_handed settleMax)
  | cancel req =>
      show a.handed <+: (a.cancel layer req).handed
      unfold cancel
      split_ifs with other
      · exact List.prefix_rfl
      · have same : (a.requestCancelled req).handed = a.handed := by
          unfold requestCancelled
          split_ifs
          rfl
        rw [← same]
        exact rounds_handed settleMax
  | hardReset =>
      have same : (targetBusReset layer { a with chip := { wires := a.chip.wires } }).handed =
          a.handed := dropRequest_handed
      rw [← same]
      exact rounds_handed settleMax

theorem run_handed (events : List Event) :
    a.handed <+: (events.foldl (Attached.after layer) a).handed := by
  induction events generalizing a with
  | nil => exact List.prefix_rfl
  | cons event events ih => exact (after_handed event).trans ih

/-! ## The whole of it -/

/-- Start DMA Initiator Receive, written while nothing is under way. -/
theorem Sane.begins (sane : Sane a) (dataIn : a.targ.phase = .dataIn)
    (dma : has a.chip.mr mrDma = true) (initiator : has a.chip.mr mrTarget = false)
    (phase : a.chip.tcr &&& 0x07 = 0x01) (idle : a.chip.dmaSt = .idle) (val : Byte) :
    Resting a.handed.length a.targ.unread [] (a.perform layer (.write 7 val)) := by
  have flow : Flow a.handed.length a.targ.unread []
      { a with chip := Call.enter a.chip (.write 7 val) } := by
    refine ⟨sane.sound.enter _, ⟨dma, initiator, phase, Or.inl idle, sane.rested.quiet.sds,
      sane.rested.quiet.sdtr, sane.rested.rst⟩, le_rfl, Or.inl ⟨dataIn, ?_, ?_⟩⟩
    · have all : promised a.handed.length a.targ.unread
          { a with chip := Call.enter a.chip (.write 7 val) } = a.targ.unread := by
        simp [promised, since, bytesOf]
      rw [all]
      cases hs : a.targ.hs with
      | setup => exact .ready (Or.inl idle) (by simp) (by simp [Target.unread, hs])
      | req => exact .ready (Or.inl idle) (by simp) (by simp [Target.unread, hs])
      | rel =>
          cases down : a.chip.held with
          | true => exact .stuck (Or.inl idle) rfl down List.nil_prefix
          | false => exact .passed (Or.inl idle) rfl down (by simp [Target.unread, hs])
    · simp [since]
  exact flow.resting

/-- A receive begun in DATA IN, from any state the chip can be in.  Whatever is read and however the
layer calls back, the DACK reads return the bytes that were left in the buffer and those of the
buffers handed over since, once each and in order.  When the request is complete all of them have
been read, and its status is shown. -/
theorem reads_in_order (layer : Layer ρ) (a : Attached ρ) (reached : Reachable layer a)
    (dataIn : a.targ.phase = .dataIn) (dma : has a.chip.mr mrDma = true)
    (initiator : has a.chip.mr mrTarget = false) (phase : a.chip.tcr &&& 0x07 = 0x01)
    (idle : a.chip.dmaSt = .idle) (val : Byte) (events : List Event)
    (receipts : Receipts layer (a.perform layer (.write 7 val)) events) :
    ∃ news : List Callback,
      (events.foldl (Attached.after layer) (a.perform layer (.write 7 val))).handed =
        a.handed ++ news ∧
      dackValues layer (a.perform layer (.write 7 val)) events <+: a.targ.unread ++ bytesOf news ∧
      ∀ status, Callback.complete status ∈ news →
        dackValues layer (a.perform layer (.write 7 val)) events = a.targ.unread ++ bytesOf news ∧
        ShowsStatus (events.foldl (Attached.after layer) (a.perform layer (.write 7 val))) status := by
  have begun : Resting a.handed.length a.targ.unread [] (a.perform layer (.write 7 val)) :=
    reached.sane.begins dataIn dma initiator phase idle val
  have resting := begun.run events receipts
  obtain ⟨news, handed⟩ : a.handed <+:
      (events.foldl (Attached.after layer) (a.perform layer (.write 7 val))).handed :=
    (after_handed (.call (.write 7 val))).trans (run_handed events)
  have since : (events.foldl (Attached.after layer) (a.perform layer (.write 7 val))).since
      a.handed.length = news := by
    rw [Attached.since, ← handed]
    exact List.drop_left
  rw [List.nil_append] at resting
  refine ⟨news, handed.symm, ?_, fun status found => ?_⟩
  · rcases resting.stage with underway | ended
    · have part := underway.carried.part
      rw [promised, since] at part
      exact part
    · have all := ended.all
      rw [promised, since] at all
      rw [all]
  · rcases resting.stage with underway | ended
    · exact absurd found (since ▸ underway.going status)
    · refine ⟨?_, ?_⟩
      · have all := ended.all
        rw [promised, since] at all
        exact all
      · rw [ended.last status (since ▸ found)]
        exact resting.shows ended.phase

/-- A layer with one disk at ID 1, whose first answer comes later, whose second comes at once, and
whose third is the end. -/
def disk : Layer ℕ where
  deviceFind _ id lun := id == 1 && lun == 0
  cdbLength code :=
    match code.toNat / 32 with
    | 0 => 6
    | 1 | 2 => 10
    | 4 => 16
    | 5 => 12
    | _ => -1
  reqNew state _ _ _ := (state, state)
  reqEnqueue state _ := (3, none, state)
  reqContinue state _ _ :=
    match state with
    | 0 => (none, 1)
    | 1 => (some (.transferData [0xc3]), 2)
    | _ => (some (.complete 0x02), 3)
  reqCancel state _ := state

/-- A command byte by hand: onto the bus, ACK down, ACK up. -/
def sendByte (byte : Byte) : List Call :=
  [.write 0 byte, .write 1 0x11, .write 1 0x01]

/-- ID 1 is selected without arbitration and gets a READ of one block; then the registers are set
for a receive. -/
def connecting : List Call :=
  [Call.write 0 0x02, .write 1 0x05, .write 3 0x02, .write 1 0x01] ++
    [0x08, 0x00, 0x00, 0x00, 0x01, 0x00].flatMap sendByte ++
    [Call.write 1 0x00, .write 3 0x01, .write 2 0x02]

def connected : Attached ℕ :=
  (connecting.map Event.call).foldl (after disk) (hardReset disk { scsi := 0 })

theorem lawful_calls (calls : List Call) : Lawful layer a (calls.map Event.call) := by
  induction calls generalizing a with
  | nil => trivial
  | cons call calls ih => exact ⟨trivial, ih⟩

/-- The first buffer comes while nobody is waiting, and a register is read between two bytes. -/
def reading : List Event :=
  [.deliver 0 (.transferData [0xa1, 0xb2]), .call .dackRead, .call (.read 5), .call .dackRead,
    .call .dackRead]

theorem three_bytes_read :
    dackValues disk (connected.perform disk (.write 7 0)) reading = [0xa1, 0xb2, 0xc3] ∧
      ∃ news : List Callback,
        (reading.foldl (Attached.after disk) (connected.perform disk (.write 7 0))).handed =
          connected.handed ++ news ∧
        dackValues disk (connected.perform disk (.write 7 0)) reading <+:
          connected.targ.unread ++ bytesOf news ∧
        ∀ status, Callback.complete status ∈ news →
          dackValues disk (connected.perform disk (.write 7 0)) reading =
            connected.targ.unread ++ bytesOf news ∧
          ShowsStatus (reading.foldl (Attached.after disk) (connected.perform disk (.write 7 0)))
            status := by
  have facts : dackValues disk (connected.perform disk (.write 7 0)) reading = [0xa1, 0xb2, 0xc3] ∧
      connected.targ.phase = .dataIn ∧ has connected.chip.mr mrDma = true ∧
      has connected.chip.mr mrTarget = false ∧ connected.chip.tcr &&& 0x07 = 0x01 ∧
      connected.chip.dmaSt = .idle ∧ Receipts disk (connected.perform disk (.write 7 0)) reading := by
    decide +kernel
  obtain ⟨values, dataIn, dma, initiator, phase, idle, receipts⟩ := facts
  exact ⟨values, reads_in_order disk connected
    ⟨{ scsi := 0 }, connecting.map Event.call, lawful_calls connecting, rfl⟩ dataIn dma initiator
    phase idle 0 reading receipts⟩

end Attached

end Wish5380.Soft
