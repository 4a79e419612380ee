import Wish5380.Block.Device
import Wish5380.Sd.BlockArray

/-!
# The disk on a card

The target of `wish5380_sd`, with `blk_sd` behind its block interface and a card in the slot.  The
sequencer and the card are an array of blocks to an owner that keeps the order of requests; the
target does, so that it has a device in front of it.
-/

namespace Wish5380.Block

open Targ

/-- A target, its card back end, and the slot. -/
structure Drive where
  targ : State
  blk : Sd.Blk
  spi : Sd.Spi
  slot : Sd.SdCard

namespace Drive

/-- `CLK_PERIOD_PS` goes to both. -/
def back (p : Params) : Sd.Params where
  clkPeriodPs := p.clkPeriodPs

def reset (p : Params) (b : Buf) (card : Sd.Card) : Drive where
  targ := Targ.start b
  blk := Sd.Blk.reset (back p)
  spi := {}
  slot := { card := card }

/-- The card's look at the pins, and what it then drives MISO with. -/
def look (f : Sd.Faults) (d : Drive) : Sd.SdCard × Bool :=
  d.slot.tick f d.spi.sclk (!d.blk.cs) d.spi.mosi

/-- What the target sees in a cycle. -/
def cycle (d : Drive) (bus : Scsi) : Cycle where
  bus := bus
  blk := d.blk.rsp

/-- One edge, with the RESET pin released. -/
def next (p : Params) (f : Sd.Faults) (d : Drive) (bus : Scsi) : Drive where
  targ := clock p d.targ (d.cycle bus)
  blk := d.blk.next (back p) d.spi (blkReq d.targ)
  spi := d.spi.next d.blk.div d.blk.go d.blk.tx (d.look f).2
  slot := (d.look f).1

/-- The run from the RESET pin's release. -/
def run (p : Params) (f : Sd.Faults) (b : Buf) (card : Sd.Card) (bus : ℕ → Scsi) : ℕ → Drive :=
  Clocked.run (next p f) (reset p b card) bus

/-- What the target sees in it. -/
def seen (p : Params) (f : Sd.Faults) (b : Buf) (card : Sd.Card) (bus : ℕ → Scsi) (t : ℕ) : Cycle :=
  (run p f b card bus t).cycle (bus t)

/-- The target in it, which is a run of its own. -/
def target (p : Params) (f : Sd.Faults) (b : Buf) (card : Sd.Card) (bus : ℕ → Scsi) : ℕ → State :=
  Targ.run p (Targ.start b) (seen p f b card bus)

/-- The target as the owner of `blk_sd`. -/
def call (p : Params) (f : Sd.Faults) (b : Buf) (card : Sd.Card) (bus : ℕ → Scsi) (t : ℕ) : Sd.Call where
  start := (blkReq (target p f b card bus t)).start
  we := (blkReq (target p f b card bus t)).we
  lba := (blkReq (target p f b card bus t)).lba
  fill :=
    if (target p f b card bus t).seq.aWe (bus t) then
      some ((target p f b card bus t).seq.aAddr, (bus t).data)
    else none
  faults := f

/-- `blk_sd` in it, with the sector buffer. -/
def stack (p : Params) (f : Sd.Faults) (b : Buf) (card : Sd.Card) (bus : ℕ → Scsi) : ℕ → Sd.Stack :=
  Sd.Stack.run (back p) card b.mem (call p f b card bus)

/-- The blocks, and what is owed. -/
def ledger (p : Params) (f : Sd.Faults) (b : Buf) (card : Sd.Card) (bus : ℕ → Scsi) : ℕ → Sd.Ledger :=
  Sd.ledger (back p) card b.mem (call p f b card bus)

/-- The blocks after the answers that the target has had. -/
def holds (p : Params) (f : Sd.Faults) (b : Buf) (card : Sd.Card) (bus : ℕ → Scsi) : ℕ → Blocks
  | 0 => card.block
  | t + 1 => (ledger p f b card bus t).disk

section Run

variable {p : Params} {f : Sd.Faults} {b : Buf} {card : Sd.Card} {bus : ℕ → Scsi} {t v w d : ℕ}

theorem run_targ (t : ℕ) : (run p f b card bus t).targ = target p f b card bus t := by
  induction t with
  | zero => rfl
  | succ t ih =>
      rw [target, Targ.run_succ, ← target, ← ih]
      rfl

/-- Before the buffer has been read, nobody looks at what it was read for. -/
theorem blk_next_reset (p : Sd.Params) (s : Sd.Spi) (req : BlkReq) (v : Byte) :
    (Sd.Blk.reset p).next p s req = (Sd.Blk.reset p).next p s { req with bufRdata := v } := by
  rfl

/-- The back end with the buffer is the stack. -/
theorem stack_eq (t : ℕ) :
    (stack p f b card bus t).dev.blk = (run p f b card bus t).blk ∧
      (stack p f b card bus t).dev.spi = (run p f b card bus t).spi ∧
      (stack p f b card bus t).slot = (run p f b card bus t).slot ∧
      (stack p f b card bus t).mem = (target p f b card bus t).buf.mem ∧
      (t ≠ 0 → (stack p f b card bus t).dev.rdata = (target p f b card bus t).buf.sbufRdata) := by
  induction t with
  | zero => exact ⟨rfl, rfl, rfl, rfl, fun other => absurd rfl other⟩
  | succ t ih =>
      obtain ⟨blk, spi, slot, mem, rdata⟩ := ih
      have look : (stack p f b card bus t).look (call p f b card bus t).faults =
          (run p f b card bus t).look f := by
        rw [Sd.Stack.look, blk, spi, slot]
        rfl
      have moved : stack p f b card bus (t + 1) =
          (stack p f b card bus t).next (back p) (call p f b card bus t) := rfl
      have moved' : run p f b card bus (t + 1) = (run p f b card bus t).next p f (bus t) := rfl
      have edge : target p f b card bus (t + 1) =
          clock p (target p f b card bus t) (seen p f b card bus t) := rfl
      have rsp : (seen p f b card bus t).blk = (run p f b card bus t).blk.rsp := rfl
      rw [moved, moved', edge]
      refine ⟨?_, ?_, ?_, ?_, fun _ => ?_⟩
      · simp only [Sd.Stack.next, Sd.Dev.next, Drive.next, blk, spi, run_targ]
        rcases Nat.eq_zero_or_pos t with rfl | positive
        · exact blk_next_reset _ _ _ _
        · rw [Sd.Dev.req, rdata (by omega)]
          rfl
      · simp only [Sd.Stack.next, Sd.Dev.next, Drive.next, blk, spi, Sd.Stack.input, look]
      · simp only [Sd.Stack.next, Drive.next, look]
      · simp only [Sd.Stack.next, clock, Buf.next, rsp, Sd.Blk.rsp, blk, mem, call]
        have bus_eq : (seen p f b card bus t).bus = bus t := rfl
        rw [bus_eq]
        cases (target p f b card bus t).seq.aWe (bus t) <;> rfl
      · simp only [Sd.Stack.next, Sd.Dev.next, clock, Buf.next, rsp, Sd.Blk.rsp, blk, Sd.Stack.input,
          mem]

theorem seen_blk (t : ℕ) : (seen p f b card bus t).blk = (stack p f b card bus t).rsp := by
  rw [Sd.Stack.rsp, (stack_eq t).1]
  rfl

theorem mem_eq (t : ℕ) : (stack p f b card bus t).mem = (target p f b card bus t).buf.mem :=
  (stack_eq t).2.2.2.1

end Run

end Drive

/-! ## What is owed -/

section Ledger

variable {q : Sd.Params} {card : Sd.Card} {mem : BitVec 9 → Byte} {call : ℕ → Sd.Call} {s t : ℕ}

theorem accept_owed (l : Sd.Ledger) (i : Sd.Call) (m : BitVec 9 → Byte) :
    (l.accept i m).owed.isSome = (i.start || l.owed.isSome) := by
  rw [Sd.Ledger.accept]
  cases i.start <;> simp

theorem ledger_silent (silent : (Sd.Stack.run q card mem call (t + 1)).rsp.done = false) :
    Sd.ledger q card mem call (t + 1) =
      (Sd.ledger q card mem call t).accept (call t) (Sd.Stack.run q card mem call t).mem := by
  rw [Sd.ledger, silent]
  rfl

/-- A request is owed until it is answered. -/
theorem owed_since (start : (call s).start = true) (later : s < t)
    (silent : ∀ v, s < v → v ≤ t → (Sd.Stack.run q card mem call v).rsp.done = false) :
    (Sd.ledger q card mem call t).owed.isSome = true := by
  induction t, later using Nat.le_induction with
  | base =>
      rw [ledger_silent (silent _ (Nat.lt_succ_self s) (Nat.le_refl _)), accept_owed, start]
      rfl
  | succ t later ih =>
      rw [ledger_silent (silent _ (by omega) (Nat.le_refl _)), accept_owed,
        ih fun v low high => silent v low (by omega), Bool.or_true]

/-- Nothing is answered but the last request. -/
theorem asked_of_done (done : (Sd.Stack.run q card mem call t).rsp.done = true) :
    ∃ s < t, (call s).start = true ∧
      ∀ v, s < v → v < t → (Sd.Stack.run q card mem call v).rsp.done = false := by
  simp only [Sd.Stack.rsp, Sd.Blk.rsp, Sd.Stack.run_dev] at done ⊢
  obtain ⟨s, earlier, taken, since⟩ := Sd.Dev.asked_of_done done
  exact ⟨s, earlier, taken.1, fun v low high => (since v low high).2⟩

theorem owed_of_done (done : (Sd.Stack.run q card mem call (t + 1)).rsp.done = true) :
    ((Sd.ledger q card mem call t).accept (call t) (Sd.Stack.run q card mem call t).mem).owed.isSome =
      true := by
  obtain ⟨s, earlier, start, silent⟩ := asked_of_done done
  rw [accept_owed]
  rcases Nat.lt_or_eq_of_le (Nat.le_of_lt_succ earlier) with before | rfl
  · rw [owed_since start before fun v low high => silent v low (by omega), Bool.or_true]
  · rw [start, Bool.true_or]

/-- With the answer nothing is owed. -/
theorem ledger_done (done : (Sd.Stack.run q card mem call (t + 1)).rsp.done = true) :
    ∃ r ∈ ((Sd.ledger q card mem call t).accept (call t) (Sd.Stack.run q card mem call t).mem).owed,
      Sd.ledger q card mem call (t + 1) = { disk := r.result (Sd.ledger q card mem call t).disk } := by
  obtain ⟨r, owed⟩ := Option.isSome_iff_exists.mp (owed_of_done done)
  have disk : ((Sd.ledger q card mem call t).accept (call t)
      (Sd.Stack.run q card mem call t).mem).disk = (Sd.ledger q card mem call t).disk := by
    rw [Sd.Ledger.accept]
    split <;> rfl
  refine ⟨r, owed, ?_⟩
  simp only [Sd.ledger, done, Sd.Ledger.settle, owed, disk]

/-- The card is ready from then on only. -/
theorem begins_le {a : ℕ} (begins : Sd.Begins q card mem call a)
    (ready : (Sd.Stack.run q card mem call t).rsp.ready = true) : a ≤ t := by
  by_contra early
  rw [begins.early t (by omega)] at ready
  cases ready

end Ledger

/-! ## A write does not read -/

/-- On the way of a write. -/
def writing : Sd.St → Bool
  | .wrCmd => true
  | .wrCmdR => true
  | .wrPre => true
  | .wrTok => true
  | .wrDat => true
  | .wrCrc => true
  | .wrResp => true
  | .wrBusy => true
  | .finish => true
  | _ => false

/-- It ends where the sequencer is at rest. -/
theorem writing_step {q : Sd.Params} {b : Sd.Blk} {req : BlkReq} {rx : Byte} {ms : ℕ}
    (placed : Sd.Placed b) (inside : writing b.place = true) :
    writing (b.step q req rx ms).place = true ∨ (b.step q req rx ms).st = .ready := by
  cases st : b.st
  case cSend | cR1 | cExtra =>
    have out := Sd.helper_of_job (placed.job (by simp [st, Sd.St.helper]))
    rw [Sd.Blk.place_of_helper (by simp [st, Sd.St.helper])] at inside
    simp only [Sd.Blk.step, st, Sd.Blk.stepCSend, Sd.Blk.stepCR1, Sd.Blk.stepCExtra, Sd.Blk.send,
      Sd.Blk.count]
    have sends : Sd.St.cSend.helper = true := rfl
    have waits : Sd.St.cR1.helper = true := rfl
    have collects : Sd.St.cExtra.helper = true := rfl
    split_ifs <;> simp [Sd.Blk.place, sends, waits, collects, out, inside]
  case finish => exact .inr (by simp [Sd.Blk.step, st])
  all_goals
    rw [Sd.Blk.place, st] at inside
    simp [Sd.St.helper, writing] at inside
  all_goals
    simp only [Sd.Blk.step, st, Sd.Blk.command, Sd.Blk.stepWrCmdR, Sd.Blk.stepWrPre, Sd.Blk.stepWrTok,
      Sd.Blk.stepWrDat, Sd.Blk.stepWrCrc, Sd.Blk.stepWrResp, Sd.Blk.stepWrBusy, Sd.Blk.send,
      Sd.Blk.count, Sd.Blk.fail]
    try split_ifs
  all_goals simp [Sd.Blk.place, Sd.St.helper, writing]

/-! ## The target keeps the order of requests -/

/-- A card that the back end can drive, new in its slot, and a target that waits for an answer that
a reset cut short before it takes a READ or WRITE on, all of them exact. -/
structure Drive.Proper (p : Params) (f : Sd.Faults) (b : Buf) (card : Sd.Card) (bus : ℕ → Scsi) :
    Prop where
  suited : Sd.Suited (Drive.back p) card
  fresh : card.Fresh
  answers : AnswersCuts (Drive.target p f b card bus) (Drive.seen p f b card bus)
  exactly : ∀ t, Takes (Drive.target p f b card bus) (Drive.seen p f b card bus) t →
    (Drive.target p f b card bus t).seq.Exact

namespace Drive

section Proper

variable {p : Params} {f : Sd.Faults} {b : Buf} {card : Sd.Card} {bus : ℕ → Scsi} {t v w d : ℕ}

theorem Proper.owned (proper : Proper p f b card bus) (t : ℕ) :
    Owned (target p f b card bus) (seen p f b card bus) t :=
  (accounted_run p b _ proper.answers t).tracks.owned

/-- Both sides count alike: what the target waits for is owed, or is answered in this cycle. -/
theorem Proper.outstanding_eq (proper : Proper p f b card bus) (t : ℕ) :
    outstanding (target p f b card bus) (seen p f b card bus) t =
      (ledger p f b card bus t).owed.isSome.toNat + (seen p f b card bus t).blk.done.toNat := by
  induction t with
  | zero => rfl
  | succ t ih =>
      have owes := accept_owed (ledger p f b card bus t) (call p f b card bus t)
        (stack p f b card bus t).mem
      have either : ((ledger p f b card bus t).accept (call p f b card bus t)
          (stack p f b card bus t).mem).owed.isSome.toNat =
          (blkReq (target p f b card bus t)).start.toNat +
            (ledger p f b card bus t).owed.isSome.toNat := by
        have single := (proper.owned t).single
        rw [ih] at single
        rw [owes]
        change ((blkReq (target p f b card bus t)).start || _).toNat = _
        cases start : (blkReq (target p f b card bus t)).start with
        | false => simp
        | true =>
            have none := single start
            have settled : (ledger p f b card bus t).owed.isSome.toNat = 0 := by omega
            simp [settled]
      rw [outstanding_succ, owed, ih, seen_blk (t + 1)]
      cases done : (stack p f b card bus (t + 1)).rsp.done with
      | false =>
          have silent : ledger p f b card bus (t + 1) = _ := ledger_silent done
          have same := congrArg (fun l => l.owed.isSome.toNat) silent
          simp only [Bool.toNat_false] at same ⊢
          rw [same]
          change _ = ((ledger p f b card bus t).accept (call p f b card bus t)
            (stack p f b card bus t).mem).owed.isSome.toNat + 0
          omega
      | true =>
          obtain ⟨r, answered, settled⟩ := ledger_done done
          have none := congrArg (fun l => l.owed.isSome.toNat) settled
          have some_ : ((ledger p f b card bus t).accept (call p f b card bus t)
              (stack p f b card bus t).mem).owed.isSome.toNat = 1 := by
            have one : ((ledger p f b card bus t).accept (call p f b card bus t)
              (stack p f b card bus t).mem).owed = some r := answered
            rw [one]
            rfl
          change (ledger p f b card bus (t + 1)).owed.isSome.toNat = 0 at none
          rw [none, Bool.toNat_true]
          omega

/-- A request comes only once the card is ready. -/
theorem Proper.ready_of_start (proper : Proper p f b card bus)
    (start : (blkReq (target p f b card bus t)).start = true) :
    (stack p f b card bus t).rsp.ready = true := by
  by_contra unready
  -- no cycle before has been ready, so that any count would do
  have early (u : ℕ) (below : u < t) (ready : (seen p f b card bus u).blk.ready = true) :
      (seen p f b card bus u).blk.count = 0 := by
    rw [seen_blk] at ready
    exact absurd (Sd.ready_mono (Nat.le_of_lt below) ready) unready
  have none := inside_of_start p b _ 0 early proper.exactly start
  simp at none

theorem Proper.begins (proper : Proper p f b card bus) :
    ∃ a, Sd.Begins (back p) card b.mem (call p f b card bus) a :=
  Sd.exists_begins proper.suited.toFits proper.fresh fun _ => proper.ready_of_start

/-- The count is the card's. -/
theorem Proper.count (proper : Proper p f b card bus)
    (ready : (stack p f b card bus t).rsp.ready = true) :
    (stack p f b card bus t).rsp.count = card.blocks := by
  obtain ⟨a, begins⟩ := proper.begins
  have first := (begins.between fun _ => proper.ready_of_start).2
  have up : (stack p f b card bus a).rsp.ready = true := by
    obtain ⟨v, rest, here⟩ := begins.rest
    exact (congrArg Sd.Blk.cardReady here.blk :).trans rest.up
  exact (Sd.count_kept (begins_le begins ready) up).trans first.count

/-- The target makes a request when the one before has been answered, for a block that there is,
and leaves the buffer alone until the answer. -/
theorem Proper.orderly (proper : Proper p f b card bus) :
    Sd.Orderly (back p) card b.mem (call p f b card bus) := by
  refine ⟨fun t start => ?_, fun t r owes => ?_⟩
  · have ready := proper.ready_of_start start
    have single := (proper.owned t).single start
    rw [proper.outstanding_eq] at single
    refine ⟨ready, ?_, ?_⟩
    · have none : (ledger p f b card bus t).owed.isSome.toNat = 0 := by omega
      have settled : (ledger p f b card bus t).owed = .none := by simpa using none
      exact settled
    · have inside : (call p f b card bus t).lba < card.blocks :=
        inside_of_start p b _ card.blocks (fun u _ ready => by
          rw [seen_blk] at ready ⊢
          exact proper.count ready) proper.exactly start
      exact (proper.count ready).symm ▸ inside
  · have busy : 0 < Targ.owed (target p f b card bus) (seen p f b card bus) t := by
      have some_ : (ledger p f b card bus t).owed = some r := owes
      rw [Targ.owed, proper.outstanding_eq, some_]
      simp
    have unwritten : (target p f b card bus t).seq.aWe (bus t) = false :=
      (proper.owned t).unwritten busy
    obtain ⟨u, -, -, rfl⟩ := Sd.made_of_owed owes
    exact ⟨if_neg (by simp [unwritten]), rfl⟩

/-- A request, from the cycle it is raised in to its answer. -/
structure Served (p : Params) (f : Sd.Faults) (b : Buf) (card : Sd.Card) (bus : ℕ → Scsi) (w d : ℕ) :
    Prop where
  answered : Answered (target p f b card bus) (seen p f b card bus) w d
  err : (seen p f b card bus d).blk.err =
    f.strikes (blkReq (target p f b card bus w)).we (blkReq (target p f b card bus w)).lba
  before : holds p f b card bus d = (ledger p f b card bus w).disk
  after : holds p f b card bus (d + 1) =
    ((call p f b card bus w).request (stack p f b card bus w).mem).result (ledger p f b card bus w).disk
  delivered : (blkReq (target p f b card bus w)).we = false →
    f.strikes false (blkReq (target p f b card bus w)).lba = false →
      (stack p f b card bus d).mem =
        (ledger p f b card bus w).disk (blkReq (target p f b card bus w)).lba

/-- From the first cycle in which the card is ready, the run falls into requests and idle cycles. -/
theorem Proper.within (proper : Proper p f b card bus)
    (ready : (stack p f b card bus t).rsp.ready = true) :
    ∃ u v, u ≤ t ∧ t < v ∧ (∃ k, Sd.Between (back p) card b.mem (call p f b card bus) u k) ∧
      Sd.Stretch (back p) card b.mem (call p f b card bus) u v := by
  obtain ⟨a, begins⟩ := proper.begins
  have first := (begins.between fun _ => proper.ready_of_start).2
  exact Clocked.exists_stretch ⟨_, first⟩
    (fun t ⟨k, between⟩ => between.advance proper.suited proper.orderly) (begins_le begins ready)

/-- No request is raised in the cycle of an answer. -/
theorem Proper.quiet_of_done (proper : Proper p f b card bus)
    (done : (seen p f b card bus t).blk.done = true) :
    (blkReq (target p f b card bus t)).start = false := by
  by_contra start
  have single := (proper.owned t).single (by simpa using start)
  rw [proper.outstanding_eq, done, Bool.toNat_true] at single
  omega

theorem Proper.serves (proper : Proper p f b card bus)
    (start : (blkReq (target p f b card bus w)).start = true) : ∃ d, Served p f b card bus w d := by
  have free : (ledger p f b card bus w).owed = none := (proper.orderly.asks w start).2.1
  obtain ⟨d, r, serves⟩ :
      ∃ d r, Sd.Serves (back p) card b.mem (call p f b card bus) w d r := by
    obtain ⟨u, d, low, high, ⟨k, between⟩, stretch⟩ := proper.within (proper.ready_of_start start)
    rcases Nat.eq_or_lt_of_le low with rfl | inside
    · obtain ⟨d, r, serves, -⟩ := between.serves proper.suited proper.orderly start
      exact ⟨d, r, serves⟩
    · rcases stretch with ⟨rfl, -⟩ | ⟨r, serves⟩
      · omega
      · have owes : ledger p f b card bus w = _ := serves.owes w inside high
        rw [owes] at free
        cases free
  have later := serves.later
  have owes (v : ℕ) (low : w < v) (high : v < d) :
      ledger p f b card bus v = { disk := (ledger p f b card bus w).disk, owed := some r } :=
    serves.owes v low high
  have silent (v : ℕ) (low : w < v) (high : v < d) : (seen p f b card bus v).blk.done = false := by
    rw [seen_blk]
    exact serves.silent v low high
  have idle (v : ℕ) (low : w < v) (high : v < d) :
      (blkReq (target p f b card bus v)).start = false := by
    cases again : (blkReq (target p f b card bus v)).start with
    | false => rfl
    | true =>
        have taken : (ledger p f b card bus v).owed = none := (proper.orderly.asks v again).2.1
        rw [owes v low high] at taken
        cases taken
  have done : (seen p f b card bus d).blk.done = true := by
    rw [seen_blk]
    exact serves.done
  have made : r = (call p f b card bus w).request (stack p f b card bus w).mem := by
    have first : ledger p f b card bus (w + 1) = _ :=
      ledger_silent (serves.silent _ (Nat.lt_succ_self w) (by omega))
    have asked : (call p f b card bus w).start = true := start
    rw [owes _ (Nat.lt_succ_self w) (by omega), Sd.Ledger.accept, if_pos asked] at first
    exact Option.some.inj (congrArg Sd.Ledger.owed first)
  obtain ⟨e, rfl⟩ : ∃ e, d = e + 1 := ⟨d - 1, by omega⟩
  have last := owes e (by omega) (Nat.lt_succ_self e)
  refine ⟨e + 1, ⟨by omega, start, fun v low high => ?_, fun v low high => ?_, done⟩, ?_, ?_, ?_,
    fun read good => ?_⟩
  · rcases Nat.lt_or_eq_of_le high with before | rfl
    · exact idle v low before
    · exact proper.quiet_of_done done
  · rcases Nat.lt_or_eq_of_le low with after | rfl
    · exact silent v after high
    · by_contra answered
      have quiet := proper.quiet_of_done (by simpa using answered)
      rw [start] at quiet
      cases quiet
  · rw [seen_blk]
    exact serves.err.trans (by rw [made]; rfl)
  · rw [holds, last]
  · obtain ⟨r', answered, settled⟩ := ledger_done serves.done
    have settled : ledger p f b card bus (e + 1) = { disk := r'.result (ledger p f b card bus e).disk } :=
      settled
    have same : ((ledger p f b card bus e).accept (call p f b card bus e)
        (stack p f b card bus e).mem).owed = some r' := answered
    have still : (call p f b card bus e).start = false := idle e (by omega) (Nat.lt_succ_self e)
    rw [Sd.Ledger.accept, still, last] at same
    obtain rfl : r = r' := Option.some.inj same
    rw [holds, settled, last, made]
  · refine serves.delivered (by rw [made]; exact read) ?_ |>.trans (by rw [made]; rfl)
    rw [made, Sd.Request.fails]
    exact read.symm ▸ good

theorem Proper.served (proper : Proper p f b card bus)
    (answered : Answered (target p f b card bus) (seen p f b card bus) w d) :
    Served p f b card bus w d := by
  obtain ⟨d', served⟩ := proper.serves answered.start
  obtain rfl := answered.end_unique served.answered
  exact served

/-- A write that is taken does not store into the buffer until it is answered. -/
theorem writes_on {input : ℕ → Sd.Input} {q : Sd.Params} {s u : ℕ} (later : s < u)
    (begun : (Sd.Dev.run q input (s + 1)).blk.st = .wrCmd)
    (busy : ∀ v, s < v → v ≤ u → (Sd.Dev.run q input v).blk.free = false) :
    writing (Sd.Dev.run q input u).blk.place = true := by
  induction u, later using Nat.le_induction with
  | base =>
      rw [Sd.Blk.place_of_state (by rw [begun]; rfl), begun]
      rfl
  | succ u later ih =>
      have before := ih fun v low high => busy v low (by omega)
      have working := busy (u + 1) (by omega) (Nat.le_refl _)
      rw [Sd.Dev.run_succ] at working ⊢
      cases idle : (Sd.Dev.run q input u).idle with
      | false =>
          rw [Sd.Dev.next_of_busy idle]
          exact before
      | true =>
          rw [(Sd.Dev.next_of_idle idle (input u)).1] at working ⊢
          rcases writing_step (Sd.Dev.placed_run input u).tickMs before with still | rest
          · exact still
          · rw [Sd.Dev.free_of_ready rest] at working
            cases working

/-- The sequencer stores into the buffer only on a visit in `S_RD_DAT`. -/
theorem stores_of_bufWe {input : ℕ → Sd.Input} {q : Sd.Params} {u : ℕ}
    (stores : (Sd.Dev.run q input (u + 1)).blk.bufWe = true) :
    (Sd.Dev.run q input u).idle = true ∧ (Sd.Dev.run q input u).blk.st = .rdDat := by
  rw [Sd.Dev.run_succ] at stores
  cases idle : (Sd.Dev.run q input u).idle with
  | false =>
      rw [Sd.Dev.next_of_busy idle] at stores
      exact absurd stores (by simp [Sd.Blk.tickMs])
  | true =>
      rw [(Sd.Dev.next_of_idle idle (input u)).1] at stores
      refine ⟨rfl, ?_⟩
      by_contra other
      have unmoved : ((Sd.Dev.run q input u).blk.tickMs q).st ≠ .rdDat := other
      rw [(Sd.leaves_step ..).bufWe unmoved] at stores
      exact absurd stores (by simp [Sd.Blk.tickMs])

/-- The sequencer stores into the buffer only between a read and its answer. -/
theorem read_of_bufWe {q : Sd.Params} {mem : BitVec 9 → Byte} {call : ℕ → Sd.Call}
    (stores : (Sd.Stack.run q card mem call t).rsp.bufWe = true) :
    ∃ s < t, (call s).start = true ∧ (call s).we = false ∧
      ∀ v, s < v → v < t → (Sd.Stack.run q card mem call v).rsp.done = false := by
  simp only [Sd.Stack.rsp, Sd.Blk.rsp, Sd.Stack.run_dev] at stores ⊢
  cases t with
  | zero => exact absurd stores (by simp [Sd.Dev.run, Sd.Dev.reset, Sd.Blk.reset])
  | succ u =>
      obtain ⟨-, st⟩ := stores_of_bufWe stores
      have busy : (Sd.Dev.run q (fun u => (Sd.Stack.run q card mem call u).input (call u)) u).blk.free =
          false := by
        simp [Sd.Blk.free, Sd.Blk.place, st, Sd.St.helper, Sd.St.up]
      obtain ⟨s, earlier, taken, since⟩ := Sd.Dev.asked_of_busy busy
      refine ⟨s, by omega, taken.1, ?_, fun v low high => (since v low (by omega)).2⟩
      by_contra writes
      obtain ⟨start, idle, rest | dead⟩ := taken
      · have begun := Sd.Dev.ready_next idle rest start
        rw [if_pos (by simpa [Sd.Stack.input] using writes)] at begun
        have on := writes_on earlier begun fun v low high => (since v low high).1
        rw [Sd.Blk.place_of_state (by rw [st]; rfl), st] at on
        cases on
      · have working := (since (s + 1) (Nat.lt_succ_self s) (by omega)).1
        rw [Sd.Dev.free_of_dead (Sd.Dev.dead_next dead)] at working
        cases working

/-- Nothing is stored in the cycle of an answer. -/
theorem unwritten_of_done (done : (stack p f b card bus t).rsp.done = true) :
    (stack p f b card bus t).rsp.bufWe = false := by
  by_contra stores
  have stores : (stack p f b card bus t).rsp.bufWe = true := by simpa using stores
  cases t with
  | zero => cases done
  | succ u =>
      simp only [stack, Sd.Stack.rsp, Sd.Blk.rsp, Sd.Stack.run_dev] at done stores
      obtain ⟨-, st⟩ := stores_of_bufWe stores
      obtain ⟨-, finish | ⟨dead, -⟩⟩ := Sd.Dev.done_next done
      · rw [st] at finish
        cases finish
      · rw [st] at dead
        cases dead

/-- A write takes the buffer as it is in the cycle of the request. -/
theorem Proper.request_eq (proper : Proper p f b card bus)
    (start : (blkReq (target p f b card bus w)).start = true) :
    (call p f b card bus w).request (stack p f b card bus w).mem = {
      we := (blkReq (target p f b card bus w)).we
      lba := (blkReq (target p f b card bus w)).lba
      faults := f
      block := (target p f b card bus w).buf.mem } := by
  have busy : 0 < Targ.owed (target p f b card bus) (seen p f b card bus) w := by
    simp [Targ.owed, start]
  have unwritten : (target p f b card bus w).seq.aWe (bus w) = false :=
    (proper.owned w).unwritten busy
  simp only [Sd.Call.request, call, unwritten, mem_eq]
  rfl

/-- Blocks change only with the answer to a write. -/
theorem Proper.still (proper : Proper p f b card bus)
    (reads : ∀ w, Answered (target p f b card bus) (seen p f b card bus) w d →
      (blkReq (target p f b card bus w)).we = false) :
    holds p f b card bus (d + 1) = holds p f b card bus d := by
  cases d with
  | zero => rfl
  | succ e =>
      cases done : (stack p f b card bus (e + 1)).rsp.done with
      | false =>
          have silent : ledger p f b card bus (e + 1) = _ := ledger_silent done
          rw [holds, holds, silent, Sd.Ledger.accept]
          split <;> rfl
      | true =>
          obtain ⟨s, earlier, start, pending⟩ := asked_of_done done
          have start : (blkReq (target p f b card bus s)).start = true := start
          obtain ⟨d, served⟩ := proper.serves start
          have answered := served.answered
          obtain rfl : d = e + 1 := by
            rcases Nat.lt_trichotomy d (e + 1) with before | same | after
            · have after : s < d := by
                refine Nat.lt_of_le_of_ne answered.le fun same => ?_
                have quiet := proper.quiet_of_done answered.done
                rw [← same, start] at quiet
                cases quiet
              have silent : (stack p f b card bus d).rsp.done = false := pending d after before
              rw [← seen_blk, answered.done] at silent
              cases silent
            · exact same
            · have silent := answered.pending (e + 1) (Nat.le_of_lt earlier) after
              rw [seen_blk, done] at silent
              cases silent
          rw [served.after, served.before, proper.request_eq start, Sd.Request.result,
            if_neg (by simp [reads s answered])]

/-- The back end with the card keeps the contract of the block interface. -/
theorem Proper.device (proper : Proper p f b card bus) :
    Device f.strikes (holds p f b card bus) (target p f b card bus) (seen p f b card bus) := by
  constructor
  · intro w start
    obtain ⟨d, served⟩ := proper.serves start
    exact ⟨d, served.answered⟩
  · exact fun w d answered => (proper.served answered).err
  · intro w d answered read good
    have served := proper.served answered
    have busy : 0 < Targ.owed (target p f b card bus) (seen p f b card bus) d :=
      owed_of_pending answered.le answered.start answered.pending
    have kept : (target p f b card bus (d + 1)).buf.mem = (target p f b card bus d).buf.mem := by
      have closed : (seen p f b card bus d).blk.bufWe = false := by
        rw [seen_blk]
        exact unwritten_of_done (by rw [← seen_blk]; exact answered.done)
      have step := run_mem_succ (p := p) (s := Targ.start b) ((proper.owned d).unwritten busy)
      rw [closed] at step
      exact step
    rw [kept, ← mem_eq, served.delivered read good, served.before]
  · intro w d answered write good
    have served := proper.served answered
    rw [served.after, served.before, proper.request_eq answered.start, Sd.Request.result]
    exact if_pos ⟨write, by simp [Sd.Request.fails, write, good]⟩
  · intro w d answered write other apart
    have served := proper.served answered
    rw [served.after, served.before, proper.request_eq answered.start, Sd.Request.result]
    split
    · exact Function.update_of_ne apart _ _
    · rfl
  · exact fun d reads => proper.still reads
  · intro v stores
    rw [seen_blk] at stores
    obtain ⟨s, earlier, start, read, silent⟩ := read_of_bufWe stores
    refine ⟨s, Nat.le_of_lt earlier, start, read, fun u low high => ?_⟩
    rcases Nat.lt_or_eq_of_le low with after | rfl
    · rw [seen_blk]
      exact silent u after high
    · by_contra answered
      have quiet := proper.quiet_of_done (by simpa using answered)
      have start : (blkReq (target p f b card bus s)).start = true := start
      rw [start] at quiet
      cases quiet

/-- While the target rests, so does the card. -/
theorem Proper.stored (proper : Proper p f b card bus)
    (ready : (seen p f b card bus t).blk.ready = true)
    (rests : Rests (target p f b card bus) (seen p f b card bus) t) :
    (run p f b card bus t).slot.card.block = holds p f b card bus t := by
  rw [seen_blk] at ready
  obtain ⟨u, v, low, high, ⟨k, between⟩, stretch⟩ := proper.within ready
  have first : u = t := by
    rcases Nat.eq_or_lt_of_le low with same | before
    · exact same
    · rcases stretch with ⟨rfl, -⟩ | ⟨r, serves⟩
      · omega
      · have start : (blkReq (target p f b card bus u)).start = true := by
          by_contra none
          have busy : ledger p f b card bus (u + 1) = _ :=
            serves.owes (u + 1) (Nat.lt_succ_self u) serves.later
          have silent : ledger p f b card bus (u + 1) = _ :=
            ledger_silent (serves.silent (u + 1) (Nat.lt_succ_self u) serves.later)
          have unasked : (call p f b card bus u).start = false := by simpa [call] using none
          have free : (ledger p f b card bus u).owed = .none := between.owed
          rw [busy, Sd.Ledger.accept, unasked] at silent
          exact absurd ((congrArg Sd.Ledger.owed silent).trans free) (by simp)
        obtain ⟨d, above, below, done⟩ := rests u (Nat.le_of_lt before) start
        rcases Nat.lt_or_eq_of_le above with after | rfl
        · have silent : (stack p f b card bus d).rsp.done = false :=
            serves.silent d after (by omega)
          rw [← seen_blk, done] at silent
          cases silent
        · rw [proper.quiet_of_done done] at start
          cases start
  subst first
  rw [← proper.device.kept rests, ← (stack_eq u).2.2.1]
  exact between.stored

end Proper

end Drive

end Wish5380.Block
