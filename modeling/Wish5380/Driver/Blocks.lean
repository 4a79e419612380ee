import Mathlib.Tactic.MkIffOfInductiveProp
import Wish5380.Block.Write
import Wish5380.Driver.Progress

/-!
# Blocks through the driver

A READ or WRITE that the driver reports as done has been done: what it hands to its caller is what
the back end holds, what it was given is what the back end has taken, and the status it reports
says whether a block was bad.
-/

namespace Wish5380.Driver

open Clocked

/-! ## What an initiator hears -/

theorem during_trace (phase : BitVec 3) (f : ℕ → Moved) (a b : ℕ) :
    during phase (trace f a b) = trace (fun t => during phase (f t)) a b := by
  simp [during, trace, List.filter_flatMap, List.map_flatMap]

theorem spoken_append {x : ℕ → Targ.State} {input : ℕ → Targ.Cycle} {a b c : ℕ} (low : a ≤ b)
    (high : b ≤ c) : Targ.spoken x input a c =
      Targ.spoken x input a b ++ Targ.spoken x input b c :=
  trace_append _ low high

/-- Where what a stretch keeps no longer holds, the stretch has ended. -/
theorem ended_of_not {α : Type} {f : ℕ → List α} {Q : ℕ → Prop} {a b T : ℕ} {told : List α}
    (stretch : Stretch f Q a b told) (le : a ≤ T) (out : ¬ Q T) : b ≤ T := by
  by_contra early
  exact out (stretch.within T le (by omega))

/-- From cycle `since` on the target is left alone, the bus carries what it drives, and its buffer
has caught up with each byte. -/
structure Hearing (p : Targ.Params) (x : ℕ → Targ.State) (input : ℕ → Targ.Cycle)
    (count : BitVec 32) (since : ℕ) : Prop where
  alone : Targ.LeftAlone input since
  orderly : ∀ t, since ≤ t → (x t).seq.Orderly
  size : ∀ t, since ≤ t → (input t).blk.count = count
  caught : ∀ t, since ≤ t → Caught (x t)
  data : ∀ t, since ≤ t → (x t).seq.connected = true → (x t).seq.phase.getLsbD 0 = true →
    (input t).bus.data = Targ.dataOut p (x t) count

section Hear

variable {p : Targ.Params} {s : Targ.State} {input : ℕ → Targ.Cycle} {count : BitVec 32}
  {since a b t : ℕ}

/-- A byte that is asked for and not taken stays on the lines. -/
theorem Hearing.waits (hearing : Hearing p (Targ.run p s input) input count since)
    (late : since ≤ t) (asks : (Targ.run p s input t).seq.hs = .req)
    (towards : (Targ.run p s input t).seq.phase.getLsbD 0 = true)
    (ack : (input t).bus.ack = false) :
    (Targ.run p s input (t + 1)).seq.hs = .req ∧
      Targ.dataOut p (Targ.run p s input (t + 1)) count =
        Targ.dataOut p (Targ.run p s input t) count := by
  have orderly := hearing.orderly t late
  have moves := orderly.rests (by simp [asks])
  have drives : (Targ.run p s input t).seq.driveBus = true := by
    simp [Targ.Seq.driveBus, moves.connected, towards]
  obtain ⟨-, -, still, same⟩ := (Targ.Seq.clock_edge p (Targ.run p s input t).seq (input t)).holds
    (hearing.alone.pin t late) (hearing.alone.rst t late) moves (by simp [asks]) (.inl asks)
  refine ⟨still.mpr ⟨asks, ack⟩, Targ.dataOut_congr (same drives) (fun datain => ?_) drives moves⟩
  rw [hearing.caught t late (by simp [asks]) datain]
  rfl

/-- The byte on the lines, once REQ is up. -/
def shown (p : Targ.Params) (x : ℕ → Targ.State) (count : BitVec 32) (t : ℕ) : List Byte :=
  if (x t).seq.req then [Targ.dataOut p (x t) count] else []

/-- The byte on the lines that has been there before. -/
def pending (p : Targ.Params) (x : ℕ → Targ.State) (count : BitVec 32) (t : ℕ) : List Byte :=
  if (x (t - 1)).seq.req then shown p x count t else []

theorem Hearing.cell (hearing : Hearing p (Targ.run p s input) input count since) (late : since ≤ t)
    (phase : (Targ.run p s input t).seq.connected = true →
      (Targ.run p s input t).seq.phase = phDataIn) :
    pending p (Targ.run p s input) count t ++
        Targ.dataInBytes p (Targ.run p s input) input t =
      during phDataIn ((Targ.run p s input t).seq.gives (input t).bus) ++
        pending p (Targ.run p s input) count (t + 1) := by
  have orderly := hearing.orderly t late
  cases asks : (Targ.run p s input t).seq.req with
  | false =>
      simp [pending, shown, Targ.dataInBytes, Targ.reqRises, Targ.Seq.gives, asks]
  | true =>
      have hs := orderly.req_iff.mp asks
      have moves := orderly.rests (by simp [hs])
      have up := moves.connected
      have is := phase up
      have towards : (Targ.run p s input t).seq.phase.getLsbD 0 = true := by rw [is]; rfl
      have drives : (Targ.run p s input t).seq.driveBus = true := by
        simp [Targ.Seq.driveBus, up, towards]
      have left : pending p (Targ.run p s input) count t ++
          Targ.dataInBytes p (Targ.run p s input) input t =
            [Targ.dataOut p (Targ.run p s input t) count] := by
        have out : (Targ.drive p (Targ.run p s input t) (input t).blk.count).data =
            Targ.dataOut p (Targ.run p s input t) count := by
          rw [← hearing.size t late]
          exact if_pos drives
        have shows_ : (Targ.drive p (Targ.run p s input t) (input t).blk.count).phase = phDataIn :=
          (Targ.drive_phase _ up).trans is
        simp only [pending, shown, Targ.dataInBytes, Targ.reqRises, asks, out, shows_]
        cases (Targ.run p s input (t - 1)).seq.req <;> simp
      rw [left, pending, Nat.add_sub_cancel, if_pos asks, shown]
      cases ack : (input t).bus.ack with
      | true =>
          have low : (Targ.run p s input (t + 1)).seq.req = false := by
            obtain ⟨-, -, still, -⟩ :=
              (Targ.Seq.clock_edge p (Targ.run p s input t).seq (input t)).holds
                (hearing.alone.pin t late) (hearing.alone.rst t late) moves (by simp [hs]) (.inl hs)
            have fallen : (Targ.run p s input (t + 1)).seq.hs ≠ .req := fun high => by
              simp [(still.mp high).2] at ack
            simp [Targ.Seq.req, fallen]
          rw [Targ.Seq.gives_of_req moves hs ack, is, hearing.data t late up towards, low]
          simp
      | false =>
          obtain ⟨high, same⟩ := hearing.waits late hs towards ack
          have asks' := (hearing.orderly (t + 1) (by omega)).req_iff.mpr high
          rw [Targ.Seq.gives_of_silent (.inr ack), asks', same]
          simp

/-- What is shown in DATA IN is what is heard, but for a byte that is still there. -/
theorem Hearing.data_in (hearing : Hearing p (Targ.run p s input) input count since)
    (late : since ≤ a) (begins : (Targ.run p s input a).seq.req = false) (le : a ≤ b)
    (phase : ∀ t, a ≤ t → t < b → (Targ.run p s input t).seq.connected = true →
      (Targ.run p s input t).seq.phase = phDataIn) :
    trace (Targ.dataInBytes p (Targ.run p s input) input) a b =
      during phDataIn (Targ.spoken (Targ.run p s input) input a b) ++
        pending p (Targ.run p s input) count b := by
  induction b, le using Nat.le_induction with
  | base => simp [Targ.spoken, pending, shown, begins]
  | succ b le ih =>
      rw [Targ.spoken, trace_succ _ le, trace_succ _ le, ← Targ.spoken, during_append,
        ih fun t low high => phase t low (by omega), List.append_assoc, List.append_assoc,
        hearing.cell (by omega) (phase b le (Nat.lt_succ_self b))]

/-- What changes hands in other phases is not heard in `phase`. -/
theorem during_spoken_nil {x : ℕ → Targ.State} {phase : BitVec 3}
    (other : ∀ t, a ≤ t → t < b → ∀ m ∈ (x t).seq.gives (input t).bus, m.1 ≠ phase) :
    during phase (Targ.spoken x input a b) = [] := by
  rw [Targ.spoken, during_trace]
  refine trace_eq_nil fun t low high => ?_
  simp only [during, List.map_eq_nil_iff, List.filter_eq_nil_iff]
  intro m mem
  simpa using other t low high m mem

/-! ### The end of a command -/

/-- Status, COMMAND COMPLETE, and off the bus. -/
def Closing (s : Targ.Seq) : Prop :=
  s.st = .status ∨ s.st = .msgin ∨ s.st = .free ∨ s.st = .idle

theorem Closing.clock {s : Targ.Seq} {c : Targ.Cycle} (closing : Closing s) (pin : c.rst = false)
    (rst : c.bus.rst = false) (sel : c.bus.sel = false) : Closing (s.clock p c) := by
  have unnamed : Targ.selMatch p c.bus = false := by simp [Targ.selMatch, sel]
  have edge := Targ.Seq.clock_edge p s c
  generalize s.clock p c = t at edge ⊢
  cases edge with
  | pin reset => simp [pin] at reset
  | busReset _ reset => simp [rst] at reset
  | selected _ _ _ named => simp [unnamed] at named
  | raise => exact closing
  | keep => exact closing
  | hand => exact closing
  | more _ _ moves =>
      rcases closing with st | st | st | st <;> simp [st] at moves
  | pend _ _ waits => rcases closing with st | st | st | st <;> simp [st] at waits
  | moved _ _ moves => rcases closing with st | st | st | st <;> simp [st] at moves
  | _ => simp_all [Closing]

theorem closing_run (alone : Targ.LeftAlone input a) (closing : Closing (Targ.run p s input a).seq)
    (late : a ≤ t) : Closing (Targ.run p s input t).seq := by
  induction t, late using Nat.le_induction with
  | base => exact closing
  | succ t late ih => exact ih.clock (alone.pin t late) (alone.rst t late) (alone.sel t late)

theorem off_run (alone : Targ.LeftAlone input a)
    (off : (Targ.run p s input a).seq.connected = false) (late : a ≤ t) :
    (Targ.run p s input t).seq.connected = false ∧
      (Targ.run p s input t).seq.sense = (Targ.run p s input a).seq.sense := by
  induction t, late using Nat.le_induction with
  | base => exact ⟨off, rfl⟩
  | succ t late ih =>
      have step := off_clock (p := p) (c := input t) ih.1 (alone.pin t late) (alone.rst t late)
        (alone.sel t late)
      exact ⟨step.1, step.2.trans ih.2⟩

theorem closing_gives {s : Targ.Seq} {bus : Scsi} (closing : Closing s) :
    ∀ m ∈ s.gives bus, m.1 = phStatus ∨ m.1 = phMsgIn := by
  intro m mem
  unfold Targ.Seq.gives at mem
  split_ifs at mem with given
  · obtain rfl := List.mem_singleton.mp mem
    simp only [Targ.Seq.req, Bool.and_eq_true] at given
    rcases closing with st | st | st | st
    · exact .inl (by simp [Targ.Seq.phase, st])
    · exact .inr (by simp [Targ.Seq.phase, st])
    · simp [Targ.Seq.connected, st] at given
    · simp [Targ.Seq.connected, st] at given
  · cases mem

theorem off_gives {s : Targ.Seq} {bus : Scsi} (off : s.connected = false) : s.gives bus = [] := by
  simp [Targ.Seq.gives, Targ.Seq.req, off]

/-- A byte that changes hands does so in the phase the target drives. -/
theorem Hearing.given (hearing : Hearing p (Targ.run p s input) input count since)
    (late : since ≤ t) (given : ((Targ.run p s input t).seq.req && (input t).bus.ack) = true) :
    (Targ.run p s input t).seq.connected = true ∧ (input t).bus.ack = true ∧
      (Targ.drive p (Targ.run p s input t) (input t).blk.count).req = true ∧
      (Targ.drive p (Targ.run p s input t) (input t).blk.count).phase =
        (Targ.run p s input t).seq.phase ∧
      (Targ.run p s input t).seq.gives (input t).bus =
        [((Targ.run p s input t).seq.phase, (input t).bus.data)] := by
  obtain ⟨req, ack⟩ := Bool.and_eq_true_iff.mp given
  have orderly := hearing.orderly t late
  have moves := orderly.rests (by simp [orderly.req_iff.mp req])
  exact ⟨moves.connected, ack, req, Targ.drive_phase _ moves.connected, if_pos given⟩

/-- The status byte of an event. -/
def statusOf : Targ.Event → Option Byte
  | .status v => some v
  | _ => none

theorem Hearing.statuses (hearing : Hearing p (Targ.run p s input) input count since)
    (late : since ≤ t) :
    during phStatus ((Targ.run p s input t).seq.gives (input t).bus) =
      (Targ.shows p (Targ.run p s input) input t).filterMap statusOf := by
  have asked : (Targ.requests (Targ.run p s input) t).filterMap statusOf = [] := by
    unfold Targ.requests
    split <;> rfl
  rw [Targ.shows, List.filterMap_append, asked, List.nil_append]
  cases given : (Targ.run p s input t).seq.req && (input t).bus.ack with
  | false =>
      have silent := (Bool.and_eq_false_iff.mp given)
      rw [Targ.deliveries_of_silent silent]
      simp [Targ.Seq.gives, given]
  | true =>
      obtain ⟨up, ack, req, phase, gives⟩ := hearing.given late given
      rw [gives, during_singleton, Targ.deliveries, req, ack, phase]
      simp only [Bool.and_self, if_true]
      by_cases is : (Targ.run p s input t).seq.phase = phStatus
      · have towards : (Targ.run p s input t).seq.phase.getLsbD 0 = true := by rw [is]; rfl
        have out : (Targ.drive p (Targ.run p s input t) (input t).blk.count).data =
            Targ.dataOut p (Targ.run p s input t) count := by
          rw [← hearing.size t late]
          exact if_pos (by simp [Targ.Seq.driveBus, up, towards])
        rw [if_pos is, if_pos is, hearing.data t late up towards, out]
        rfl
      · rw [if_neg is, if_neg is]
        split_ifs <;> rfl

theorem quiet_of_off {s : Targ.Seq} (orderly : s.Orderly) (off : s.connected = false) :
    s.blkStart = false := by
  by_contra asked
  rcases orderly.asks (by simpa using asked) with st | st <;> simp [Targ.Seq.connected, st] at off

variable {bad : Bool → BitVec 32 → Bool} {blocks : ℕ → Block.Blocks} {stopped : Option (BitVec 32)}
  {lba : BitVec 32} {n e T : ℕ}

/-- From its verdict on a READ or WRITE is heard to report it, and nothing else. -/
theorem Hearing.verdict (hearing : Hearing p (Targ.run p s input) input count since)
    (late : since ≤ a) (device : Block.Device bad blocks (Targ.run p s input) input)
    (patient : Targ.Patient (Targ.run p s input) input since)
    (ending : Block.Verdict (Targ.run p s input a).seq stopped)
    (rests : Block.Rests (Targ.run p s input) input a) (le : a ≤ T)
    (off : (Targ.run p s input T).seq.connected = false) :
    during phStatus (Targ.spoken (Targ.run p s input) input a T) = [(Block.verdict stopped).1] ∧
      during phDataIn (Targ.spoken (Targ.run p s input) input a T) = [] ∧
      during phDataOut (Targ.spoken (Targ.run p s input) input a T) = [] ∧
      (Targ.run p s input T).seq.sense = (Block.verdict stopped).2 ∧ blocks T = blocks a := by
  obtain ⟨w, free, sense, quiet, told⟩ := ending.ends patient late
  have up := told.le
  have rested : w ≤ T := ended_of_not told le (by simp [off])
  have freed : (Targ.run p s input w).seq.connected = false := by simp [Targ.Seq.connected, free]
  have later {t : ℕ} (after : w ≤ t) := off_run (hearing.alone.later (by omega)) freed after
  have split : Targ.spoken (Targ.run p s input) input a T =
      Targ.spoken (Targ.run p s input) input a w := by
    have silent : Targ.spoken (Targ.run p s input) input w T = [] :=
      trace_eq_nil fun t low _ => off_gives (later low).1
    rw [spoken_append up rested, silent, List.append_nil]
  have other (phase : BitVec 3) (apart : phase ≠ phStatus ∧ phase ≠ phMsgIn) :
      during phase (Targ.spoken (Targ.run p s input) input a w) = [] := by
    refine during_spoken_nil fun t low _ m mem => ?_
    have closing := closing_run (hearing.alone.later late) (.inl ending.st_eq) low
    rcases closing_gives closing m mem with is | is
    · exact fun same => apart.1 (same.symm.trans is)
    · exact fun same => apart.2 (same.symm.trans is)
  rw [split]
  refine ⟨?_, other _ (by decide), other _ (by decide), (later rested).2.trans sense, ?_⟩
  · have heard : during phStatus (Targ.spoken (Targ.run p s input) input a w) =
        (trace (Targ.shows p (Targ.run p s input) input) a w).filterMap statusOf := by
      rw [Targ.spoken, during_trace, trace, trace, List.filterMap_flatMap]
      refine List.flatMap_congr fun t inside => ?_
      rw [List.mem_range'_1] at inside
      exact hearing.statuses (by omega)
    rw [heard, told.trace_eq]
    rfl
  · refine device.kept_until rests le fun t low high => ?_
    rcases Nat.le_total t w with early | after
    · exact quiet t low early
    · exact quiet_of_off (hearing.orderly t (by omega)) (later after).1

/-- A READ of existing blocks, as its initiator hears it. -/
theorem Hearing.read (hearing : Hearing p (Targ.run p s input) input count e)
    (device : Block.Device bad blocks (Targ.run p s input) input)
    (patient : Targ.Patient (Targ.run p s input) input e)
    (exec : (Targ.run p s input e).seq.st = .exec)
    (addressed : (Targ.run p s input e).seq.Addressed (input e).blk)
    (read : (Targ.run p s input e).seq.cdbIsRead = true)
    (some_ : (Targ.run p s input e).seq.cmdBlocks ≠ 0)
    (lba_eq : (Targ.run p s input e).seq.cmdLba = lba)
    (count_eq : (Targ.run p s input e).seq.cmdBlocks.toNat = n) (after : e < T)
    (off : (Targ.run p s input T).seq.connected = false) :
    (during phStatus (Targ.spoken (Targ.run p s input) input (e + 1) T)).getLast? =
        some (Block.verdict (Block.stop (bad false) lba n)).1 ∧
      during phDataIn (Targ.spoken (Targ.run p s input) input (e + 1) T) =
        Block.readOut (bad false) (blocks (e + 1)) lba n ∧
      (Targ.run p s input T).seq.sense = (Block.verdict (Block.stop (bad false) lba n)).2 ∧
      blocks T = blocks (e + 1) := by
  obtain ⟨u, ending, kept, rests, told⟩ :=
    device.read_ends patient exec addressed read some_ lba_eq count_eq
  have le := told.le
  have rested : u ≤ T := ended_of_not told after fun shows =>
    absurd (off.symm.trans shows.bsy) (by decide)
  obtain ⟨status, silent, -, sense, still⟩ :=
    hearing.verdict (by omega) device patient ending rests rested off
  have begins : (Targ.run p s input (e + 1)).seq.req = false := by
    by_contra high
    have orderly := hearing.orderly e (Nat.le_refl e)
    have calm : ¬ (Targ.run p s input e).seq.Transfers := by simp [Targ.Seq.Transfers, exec]
    have low : (Targ.run p s input e).seq.hs ≠ .req := fun hs => calm (orderly.rests (by simp [hs]))
    have hs := (hearing.orderly (e + 1) (Nat.le_succ e)).req_iff.mp (by simpa using high)
    exact calm ((Targ.Seq.clock_edge p _ (input e)).raises low hs).1
  have heard := hearing.data_in (Nat.le_succ e) begins le fun t low high up =>
    (Targ.drive_phase _ up).symm.trans (told.within t low high).phase
  have asks : (Targ.run p s input u).seq.req = false := by simp [Targ.Seq.req, ending.hs_eq]
  rw [told.trace_eq, pending, shown, asks, if_neg Bool.false_ne_true, ite_self,
    List.append_nil] at heard
  rw [spoken_append le rested, during_append, during_append, status, silent, ← heard,
    List.append_nil]
  exact ⟨List.getLast?_concat, rfl, sense, still.trans kept⟩

theorem Hearing.handed (hearing : Hearing p (Targ.run p s input) input count since)
    (late : since ≤ t) :
    Block.handed p (Targ.run p s input) input t =
      during phDataOut ((Targ.run p s input t).seq.gives (input t).bus) := by
  cases given : (Targ.run p s input t).seq.req && (input t).bus.ack with
  | false =>
      rw [Block.handed_of_silent (Bool.and_eq_false_iff.mp given)]
      simp [Targ.Seq.gives, given]
  | true =>
      obtain ⟨-, ack, req, phase, gives⟩ := hearing.given late given
      rw [gives, during_singleton, Block.handed, req, ack, phase]
      simp

/-- A WRITE of existing blocks, as its initiator hands it over. -/
theorem Hearing.write (hearing : Hearing p (Targ.run p s input) input count e)
    (device : Block.Device bad blocks (Targ.run p s input) input)
    (patient : Targ.Patient (Targ.run p s input) input e)
    (exec : (Targ.run p s input e).seq.st = .exec)
    (rests : Block.Rests (Targ.run p s input) input (e + 1))
    (addressed : (Targ.run p s input e).seq.Addressed (input e).blk)
    (write : (Targ.run p s input e).seq.cdbIsWrite = true)
    (some_ : (Targ.run p s input e).seq.cmdBlocks ≠ 0)
    (lba_eq : (Targ.run p s input e).seq.cmdLba = lba)
    (count_eq : (Targ.run p s input e).seq.cmdBlocks.toNat = n) (after : e < T)
    (off : (Targ.run p s input T).seq.connected = false) :
    (during phStatus (Targ.spoken (Targ.run p s input) input (e + 1) T)).getLast? =
        some (Block.verdict (Block.stop (bad true) lba n)).1 ∧
      (during phDataOut (Targ.spoken (Targ.run p s input) input (e + 1) T)).length =
        512 * Block.asked (bad true) lba n ∧
      (Targ.run p s input T).seq.sense = (Block.verdict (Block.stop (bad true) lba n)).2 ∧
      ∀ b, Block.stop (bad true) lba n ≠ some b →
        blocks T b = Block.writeIn (bad true)
          (during phDataOut (Targ.spoken (Targ.run p s input) input (e + 1) T))
          (blocks (e + 1)) lba n b := by
  obtain ⟨u, bytes, ending, length, held, rests, told⟩ :=
    device.write_ends patient exec rests addressed write some_ lba_eq count_eq
  have le := told.le
  have rested : u ≤ T := ended_of_not told after (by simp [off])
  obtain ⟨status, -, silent, sense, still⟩ :=
    hearing.verdict (by omega) device patient ending rests rested off
  have heard : during phDataOut (Targ.spoken (Targ.run p s input) input (e + 1) u) = bytes := by
    rw [Targ.spoken, during_trace, ← told.trace_eq, trace, trace]
    refine List.flatMap_congr fun t inside => ?_
    rw [List.mem_range'_1] at inside
    exact (hearing.handed (by omega)).symm
  rw [spoken_append le rested, during_append, during_append, status, silent, heard, List.append_nil]
  exact ⟨List.getLast?_concat, length, sense, fun b other => still ▸ held b other⟩

end Hear

/-! ## From the driver's run -/

section Run

variable {ρ : Type} {pc : Chip.Params} {pt : Targ.Params} {count : BitVec 32} {p : Code ρ}
  {y : Dma.System} {turns : ℕ → Turn BlkRsp}

theorem caught_run (poised : Poised y) (behaves : BehavesOver pc pt count p y turns) (t : ℕ) :
    Caught (targets pc pt p y turns t) := by
  induction t with
  | zero => exact poised.caught
  | succ t ih =>
      obtain ⟨a, step⟩ : ∃ a, ((machine pc pt).exec p y turns (t + 1)).2 =
          (machine pc pt).next ((machine pc pt).exec p y turns t).2 (turns t).world a :=
        Machine.exec_step t
      have orderly : (targets pc pt p y turns t).seq.Orderly := by
        rw [targets_run]
        exact Targ.orderly_run poised.orderly t
      rw [targets, step]
      exact caught_next (behaves t) orderly

end Run

section Success

variable {pc : Chip.Params} {pt : Targ.Params} {count : BitVec 32} {host : ℕ} {c : Command}
  {y : Dma.System} {turns : ℕ → Turn BlkRsp} {T S e : ℕ} {res : Result}

theorem Attended.hearing (attended : Attended pc pt host c y turns S) (poised : Poised y)
    (behaves : BehavesOver pc pt count (execute host c) y turns) :
    Hearing pt (targets pc pt (execute host c) y turns) (seen pc pt (execute host c) y turns) count
      S where
  alone := attended.alone
  orderly t _ := by
    rw [targets_run]
    exact Targ.orderly_run poised.orderly t
  size t _ := (behaves t).count
  caught t _ := caught_run poised behaves t
  data t late up towards := by
    have wires := bus_data_in pt { blk := (turns t).world } (attended.quiet t late) up towards
    exact wires.trans (by rw [show ({ blk := (turns t).world } : Dma.Input).blk.count = count from
      (behaves t).count]; rfl)

/-- What is known of a command ever after its success. -/
theorem told_after (plain : c.usePdma = false) (poised : Poised y)
    (low : y.chip.regs.icrAck = false)
    (behaves : BehavesOver pc pt count (execute host c) y turns)
    (returned : ((machine pc pt).exec (execute host c) y turns T).1.result? = some res) {u : ℕ}
    (late : T ≤ u) : Told c res (transcript pc pt (execute host c) y turns u,
      ((machine pc pt).exec (execute host c) y turns u).2) :=
  run_returned (fun _ => told_keeps) (execute_spec plain ⟨rfl, poised, low, rfl⟩) (fun u _ => behaves u)
    (Machine.exec_stays returned late)

/-- A driver that succeeds has completed every handshake. -/
theorem Attended.patient (attended : Attended pc pt host c y turns S) (plain : c.usePdma = false)
    (poised : Poised y) (low : y.chip.regs.icrAck = false)
    (behaves : BehavesOver pc pt count (execute host c) y turns)
    (returned : ((machine pc pt).exec (execute host c) y turns T).1.result? = some res)
    (ok : res.ok = true) (before : S ≤ T) :
    Targ.Patient (targets pc pt (execute host c) y turns) (seen pc pt (execute host c) y turns)
      S := by
  have after {u : ℕ} (late : T ≤ u) :
      Told c res (transcript pc pt (execute host c) y turns u,
        ((machine pc pt).exec (execute host c) y turns u).2) :=
    told_after plain poised low behaves returned late
  have off {u : ℕ} (late : T ≤ u) :
      (targets pc pt (execute host c) y turns u).seq.connected = false :=
    ((after late).complete ok).2.2
  have hearing := attended.hearing poised behaves
  refine ⟨fun _ _ => rfl, attended.alone.rst, fun t late asks => ?_, fun t late _ => ?_⟩
  · by_contra never
    rw [not_exists] at never
    have keeps (u : ℕ) (above : t ≤ u) :
        (targets pc pt (execute host c) y turns u).seq.hs = .req := by
      induction u, above using Nat.le_induction with
      | base => exact (hearing.orderly t late).req_iff.mp asks
      | succ u above ih =>
          by_contra fallen
          rw [targets_run] at ih fallen
          have acked := (Targ.Seq.clock_edge pt _
            (seen pc pt (execute host c) y turns u)).lowers rfl (attended.alone.rst u (by omega))
              (Targ.orderly_run poised.orderly u) ih fallen
          exact never u ⟨above, acked⟩
    have high := keeps (max t T) (Nat.le_max_left t T)
    have moves := (hearing.orderly (max t T) (by omega)).rests (by simp [high])
    exact absurd (moves.connected.symm.trans (off (Nat.le_max_right t T))) (by decide)
  · refine ⟨max t T, Nat.le_max_left t T, ?_⟩
    have late' : T ≤ max t T := Nat.le_max_right t T
    have quiet := attended.quiet (max t T) (by omega)
    have ack := bus_ack pt { blk := (turns (max t T)).world } quiet
    change (seen pc pt (execute host c) y turns (max t T)).bus.ack = _ at ack
    rw [ack]
    by_contra up
    have moves := ((after late').poised.acked (by simpa using up)).2
    have gone : ((machine pc pt).exec (execute host c) y turns (max t T)).2.targ.seq.connected =
        false := off late'
    rw [moves.connected] at gone
    cases gone

/-- A success, as the target sees it: in cycle `e` it carries out the command, nothing was asked of
the back end before, and what the driver has heard since is what it reports. -/
structure Success (pc : Chip.Params) (pt : Targ.Params) (count : BitVec 32) (host : ℕ) (c : Command)
    (y : Dma.System) (turns : ℕ → Turn BlkRsp) (T e : ℕ) : Prop where
  before : e < T
  exec : (targets pc pt (execute host c) y turns e).seq.st = .exec
  bears : Targ.Bears c.cdb c.unit (targets pc pt (execute host c) y turns e).seq
  hearing : Hearing pt (targets pc pt (execute host c) y turns)
    (seen pc pt (execute host c) y turns) count e
  patient : Targ.Patient (targets pc pt (execute host c) y turns)
    (seen pc pt (execute host c) y turns) e
  off : (targets pc pt (execute host c) y turns T).seq.connected = false
  quiet : ∀ u ≤ e, (Targ.blkReq (targets pc pt (execute host c) y turns u)).start = false
  heard : ∀ phase, phase ≠ phMsgOut → phase ≠ phCommand →
    during phase (transcript pc pt (execute host c) y turns T) =
      during phase (Targ.spoken (targets pc pt (execute host c) y turns)
        (seen pc pt (execute host c) y turns) (e + 1) T)

theorem success (plain : c.usePdma = false) (poised : Poised y) (low : y.chip.regs.icrAck = false)
    (unspoken : y.targ.seq.Unspoken) (whole : c.cdb.length = Targ.commandLength c.cdb)
    (behaves : BehavesOver pc pt count (execute host c) y turns)
    (returned : ((machine pc pt).exec (execute host c) y turns T).1.result? = some res)
    (ok : res.ok = true) : ∃ e, Success pc pt count host c y turns T e := by
  have told : Told c res (transcript pc pt (execute host c) y turns T,
      ((machine pc pt).exec (execute host c) y turns T).2) :=
    told_after plain poised low behaves returned (Nat.le_refl T)
  have off : (targets pc pt (execute host c) y turns T).seq.connected = false :=
    (told.complete ok).2.2
  rcases session plain poised low (fun u _ => behaves u) returned with ⟨S, before, attended⟩ | ⟨none, -⟩
  · rcases attended.course poised.orderly told before (Nat.le_refl T) with
      course | ⟨e, late, early, st, course⟩
    · rw [course.connected] at off
      cases off
    · have hearing := attended.hearing poised behaves
      have patient := attended.patient plain poised low behaves returned ok before
      have orderly := hearing.orderly e late
      refine ⟨e, early, st, (attended.bears poised.orderly whole told late (by omega) st).2,
        ⟨attended.alone.later late, fun t above => hearing.orderly t (by omega),
          fun t above => hearing.size t (by omega), fun t above => hearing.caught t (by omega),
          fun t above => hearing.data t (by omega)⟩, patient.later late, off, fun u below => ?_,
        fun phase notMessage notCommand => ?_⟩
      · rcases Nat.lt_or_ge u S with first | second
        · have part : transcript pc pt (execute host c) y turns u <+:
              transcript pc pt (execute host c) y turns S := transcript_mono (by omega)
          rw [attended.silent] at part
          exact (unspoken_at poised.orderly unspoken (List.prefix_nil.mp part)).2
        · rcases attended.course poised.orderly told second (by omega) with
            course | ⟨d, above, under, st', -⟩
          · exact course.quiet (hearing.orderly u second)
          · rw [targets_run] at st st'
            exact absurd st (Targ.away_after (attended.alone.later above) st' (by omega)).exec
      · have calm : (targets pc pt (execute host c) y turns e).seq.hs ≠ .req := by
          intro hs
          have moves := orderly.rests (by simp [hs])
          simp [Targ.Seq.Transfers, st] at moves
        have upTo : transcript pc pt (execute host c) y turns (e + 1) =
            transcript pc pt (execute host c) y turns e := by
          rw [transcript_spoken, Targ.spoken, trace_succ _ (Nat.zero_le e),
            Targ.Seq.gives_of_silent (.inl calm), List.append_nil]
          rfl
        have split : transcript pc pt (execute host c) y turns T =
            transcript pc pt (execute host c) y turns (e + 1) ++
              Targ.spoken (targets pc pt (execute host c) y turns)
                (seen pc pt (execute host c) y turns) (e + 1) T :=
          trace_append _ (Nat.zero_le _) early
        have none : during phase (transcript pc pt (execute host c) y turns e) = [] := by
          simp only [during, List.map_eq_nil_iff, List.filter_eq_nil_iff]
          intro m mem is
          have same : m.1 = phase := by simpa using is
          rcases course.phases m mem with message | command
          · exact notMessage (same.symm.trans message)
          · exact notCommand (same.symm.trans command)
        rw [split, during_append, upTo, none, List.nil_append]
  · rw [none] at ok
    cases ok

end Success

/-! ## The blocks of a command -/

section Command

variable {pc : Chip.Params} {pt : Targ.Params} {count : BitVec 32} {host : ℕ} {c : Command}
  {y : Dma.System} {turns : ℕ → Turn BlkRsp} {T e : ℕ} {bad : Bool → BitVec 32 → Bool}
  {blocks : ℕ → Block.Blocks}

/-- Up to the command nothing is asked of the back end. -/
theorem Success.rests (done : Success pc pt count host c y turns T e) :
    Block.Rests (targets pc pt (execute host c) y turns) (seen pc pt (execute host c) y turns)
      e := by
  intro w early start
  simp [done.quiet w early] at start

/-- And the blocks are as they were. -/
theorem Success.kept (done : Success pc pt count host c y turns T e)
    (device : Block.Device bad blocks (targets pc pt (execute host c) y turns)
      (seen pc pt (execute host c) y turns)) : blocks (e + 1) = blocks 0 := by
  have first : Block.Rests (targets pc pt (execute host c) y turns)
      (seen pc pt (execute host c) y turns) 0 := by
    intro w early start
    simp [done.quiet w (by omega)] at start
  exact device.kept_until first (Nat.zero_le _) fun u _ below => done.quiet u (by omega)

/-- The command is for existing blocks of the medium. -/
theorem Success.addressed (done : Success pc pt count host c y turns T e)
    (whole : c.cdb.length = Targ.commandLength c.cdb) (unit : c.unit = 0)
    (ready : ∀ t, (turns t).world.ready = true) (size : ∀ t, (turns t).world.count = count)
    (media : (c.asks.cdbIsRead || c.asks.cdbIsWrite) = true)
    (inside : c.asks.cmdLba.toNat + c.asks.cmdBlocks.toNat ≤ count.toNat) :
    (targets pc pt (execute host c) y turns e).seq.Addressed
      (seen pc pt (execute host c) y turns e).blk := by
  obtain ⟨op, lba, blocks⟩ := bears_decode done.bears whole
  refine ⟨done.bears.lun.trans unit, ?_, ready e, ?_⟩
  · rw [Targ.Seq.cdbIsRead, Targ.Seq.cdbIsWrite, op]
    exact media
  · rw [lba, blocks, show (seen pc pt (execute host c) y turns e).blk.count = count from size e]
    exact inside

end Command

/-- A READ of existing blocks, against whatever serves the block interface.  A driver that moves
again and again gets back from it; and whenever it reports it as done, it returns the blocks up to
the first bad one, its status says whether there was one, the target remembers which, and no block
has changed. -/
theorem reads_through_the_driver (pc : Chip.Params) (pt : Targ.Params) (count : BitVec 32)
    (host : ℕ) (c : Command) (y : Dma.System) (turns : ℕ → Turn BlkRsp)
    (bad : Bool → BitVec 32 → Bool) (blocks : ℕ → Block.Blocks) (plain : c.usePdma = false)
    (poised : Poised y) (low : y.chip.regs.icrAck = false) (unspoken : y.targ.seq.Unspoken)
    (whole : c.cdb.length = Targ.commandLength c.cdb) (unit : c.unit = 0)
    (device : Block.Device bad blocks (targets pc pt (execute host c) y turns)
      (seen pc pt (execute host c) y turns))
    (ready : ∀ t, (turns t).world.ready = true) (size : ∀ t, (turns t).world.count = count)
    (read : c.asks.cdbIsRead = true) (some_ : c.asks.cmdBlocks ≠ 0)
    (inside : c.asks.cmdLba.toNat + c.asks.cmdBlocks.toNat ≤ count.toNat) :
    ((∀ t, ∃ u, t ≤ u ∧ (turns u).moves = true) →
      ∃ T res, ((machine pc pt).exec (execute host c) y turns T).1.result? = some res) ∧
    ∀ T res, ((machine pc pt).exec (execute host c) y turns T).1.result? = some res →
      res.ok = true →
      let stopped := Block.verdict (Block.stop (bad false) c.asks.cmdLba c.asks.cmdBlocks.toNat)
      res.data = Block.readOut (bad false) (blocks 0) c.asks.cmdLba c.asks.cmdBlocks.toNat ∧
        res.status = stopped.1 ∧
        (targets pc pt (execute host c) y turns T).seq.sense = stopped.2 ∧ blocks T = blocks 0 := by
  refine ⟨Machine.exec_returns, fun T res returned ok => ?_⟩
  intro stopped
  have behaves := behaves_of_inside (execute_only host plain) poised device.inside size
  obtain ⟨e, done⟩ := success plain poised low unspoken whole behaves returned ok
  obtain ⟨op, lba, number⟩ := bears_decode done.bears whole
  have addressed := done.addressed whole unit ready size (by rw [read, Bool.true_or]) inside
  have kept := done.kept device
  obtain ⟨before, exec, -, hearing, patient, off, -, heard⟩ := done
  rw [targets_run] at device hearing patient exec addressed off op lba number heard ⊢
  obtain ⟨status, data, sense, still⟩ := hearing.read device patient exec addressed
    (by rw [Targ.Seq.cdbIsRead, op]; exact read) (by rw [number]; exact some_) lba
    (congrArg BitVec.toNat number) before off
  obtain ⟨told, -, told', -⟩ := (told_after plain poised low behaves returned (Nat.le_refl T)).reports
  rw [heard phDataIn (by decide) (by decide), data, kept] at told
  rw [heard phStatus (by decide) (by decide), status] at told'
  exact ⟨told.symm, told'.symm, sense, still.trans kept⟩

/-- READ(10) of block five. -/
def readFive : Command where
  target := 0
  cdb := [0x28, 0x00, 0x00, 0x00, 0x00, 0x05, 0x00, 0x00, 0x01, 0x00]
  maxIn := 512

/-- A prompt driver, and a medium that is there but can not be read. -/
def broken (_ : ℕ) : Turn BlkRsp :=
  { moves := true, pick := 40
    world := { ready := true, count := 2048, done := true, err := true } }

theorem broken_serves (c : Command) : Block.Device (fun _ _ => true) (fun _ _ _ => 0)
    (targets {} {} (execute 7 c) fresh broken) (seen {} {} (execute 7 c) fresh broken) where
  answers w start := ⟨w, Nat.le_refl w, start, fun v above below => by omega,
    fun v above below => by omega, rfl⟩
  err _ _ _ := rfl
  fetched _ _ _ _ good := absurd good (by decide)
  stored _ _ _ _ good := absurd good (by decide)
  spares _ _ _ _ _ _ := rfl
  still _ _ := rfl
  inside _ writes := absurd (show false = true from writes) (by decide)

/-- A driver that polls for as long as the disk takes, and is late once. -/
def unhurried (t : ℕ) : Turn Unit :=
  { moves := t != 171 && t != 172, pick := 600, world := () }

/-- The bench disk behind it. -/
def fromDisk (c : Command) : ℕ → Turn BlkRsp :=
  diskTurns {} {} (execute 7 c) fresh Block.benchDisk unhurried

theorem fromDisk_world (c : Command) (t : ℕ) :
    (fromDisk c t).world.ready = true ∧ (fromDisk c t).world.count = 2048 :=
  (world_eq (b := .blank) rfl t).symm

/-- The run up to the command, whose last byte goes over in cycle 171. -/
def opened (c : Command) : ℕ → Code Turned × Site :=
  (onDisk {} {}).exec (opening 7 c) (fresh, Block.benchDisk) unhurried

theorem opened_same (c : Command) (t : ℕ) : Block.Disk.Same Block.benchDisk (opened c t).2.2 :=
  disk_same rfl t

/-- Where a command for block five stands then. -/
@[mk_iff]
structure Opens (c : Command) : Prop where
  before : (opened c 170).1.result? = none
  after : (opened c 173).1.result? = some ⟨true, 0, {}⟩
  regs : (opened c 173).2.1.chip.regs = { tcr := 2 }
  idle : (opened c 173).2.2.st = .idle
  hs : (opened c 173).2.1.targ.seq.hs = .setup
  media : (opened c 173).2.1.targ.seq.respKind = .media
  length : (opened c 173).2.1.targ.seq.xferLen = 512
  lba : (opened c 173).2.1.targ.seq.lba = 5
  left : (opened c 173).2.1.targ.seq.blkLeft = 1

instance (c : Command) : Decidable (Opens c) :=
  decidable_of_iff _ (opens_iff c).symm

namespace Opens

variable {c : Command}

theorem steady (opens : Opens c) : Steady Block.benchDisk false (opened c 173).2 := by
  constructor
  · rw [opens.regs]
    exact ⟨rfl, rfl⟩
  · rw [opens.regs]
    rfl
  · exact opened_same c 173

theorem good (opens : Opens c) : ∀ i < 1,
    Block.benchDisk.fails ((opened c 173).2.1.targ.seq.lba + BitVec.ofNat 32 i) = false := by
  rw [opens.lba]
  decide

/-- What ends well from there ends well. -/
theorem ends (opens : Opens c) (well : holds {} {} ((transfer c 4094 0 {}).atLeast 600)
      (fun res _ => res.ok = true) (opened c 173).2) :
    ∃ T res, ((machine {} {}).exec (execute 7 c) fresh (fromDisk c) T).1.result? = some res ∧
      res.ok = true := by
  refine execute_ends (fun t => ⟨t + 173, by omega, ?_⟩) (fun _ => Nat.le_refl _) opens.after
    (fun u early => ?_) rfl well
  · simp [unhurried]
  · rcases Nat.lt_or_ge 170 u with late | before
    · right
      obtain rfl | rfl : u = 171 ∨ u = 172 := by omega
      · rfl
      · rfl
    · left
      by_contra returned
      obtain ⟨r, returned⟩ := Option.ne_none_iff_exists'.mp returned
      exact absurd (opens.before.symm.trans (Machine.exec_stays returned before)) (by simp)

end Opens

/-- A good block comes from the disk; and where it can not be read, the driver succeeds without it. -/
theorem block_five_read :
    (∃ T res, ((machine {} {}).exec (execute 7 readFive) fresh (fromDisk readFive) T).1.result? =
        some res ∧ res.ok = true ∧ res.data = Block.sector (Block.benchDisk.block 5) ∧
          res.status = Targ.stGood) ∧
    ((machine {} {}).exec (execute 7 readFive) fresh broken 300).1.result? =
        some { ok := true, status := 0x02, message := 0x00, data := [] } ∧
      (targets {} {} (execute 7 readFive) fresh broken 300).seq.sense =
        ⟨Targ.skMediumError, Targ.ascUnrecoveredRead, 0, 5⟩ := by
  have five : readFive.asks.cmdLba = 5 := by decide
  have one : readFive.asks.cmdBlocks.toNat = 1 := by decide
  refine ⟨?_, ?_⟩
  · have opens : Opens readFive := by decide +kernel
    have asks : (opened readFive 173).2.1.targ.seq.st = .rdwait ∧
        (opened readFive 173).2.1.targ.seq.blkStart = true ∧
        (opened readFive 173).2.1.targ.seq.blkLba = 5 := by decide +kernel
    obtain ⟨T, res, returned, ok⟩ := opens.ends (read_begins (n := 0) opens.steady opens.idle asks.1
      opens.hs asks.2.1 opens.media opens.length (asks.2.2.trans opens.lba.symm)
      (congrArg BitVec.toNat opens.left) opens.good (by decide) rfl rfl rfl)
    obtain ⟨blocks, device, held⟩ := @onDisk_device {} {} 7 readFive fresh Block.benchDisk unhurried
      .blank rfl rfl rfl fresh_poised rfl (by decide) (by decide) (by decide)
    have first : blocks 0 = Block.benchDisk.block := (held 0 rfl).symm
    obtain ⟨-, reads⟩ := reads_through_the_driver {} {} 2048 7 readFive fresh (fromDisk readFive)
      _ blocks rfl fresh_poised rfl (.inl rfl) (by decide) (by decide) device
      (fun t => (fromDisk_world readFive t).1) (fun t => (fromDisk_world readFive t).2) (by decide)
      (by decide) (by decide)
    obtain ⟨data, status, -, -⟩ := reads T res returned ok
    have good : Block.benchDisk.fails 5 = false := by decide
    rw [five, one, Block.readOut, good, first] at data
    rw [five, one, Block.stop, good] at status
    exact ⟨T, res, returned, ok, data.trans (List.append_nil _), status⟩
  · have returned : ((machine {} {}).exec (execute 7 readFive) fresh broken 300).1.result? =
        some { ok := true, status := 0x02, message := 0x00, data := [] } := by decide +kernel
    obtain ⟨-, -, sense, -⟩ := (reads_through_the_driver {} {} 2048 7 readFive fresh broken _ _ rfl
      fresh_poised rfl (.inl rfl) (by decide) (by decide) (broken_serves readFive) (fun _ => rfl)
      (fun _ => rfl) (by decide) (by decide) (by decide)).2 300 _ returned rfl
    rw [five, one] at sense
    exact ⟨returned, sense⟩

/-- What a WRITE stores depends on the bytes it asks for alone. -/
theorem writeIn_prefix {bad : BitVec 32 → Bool} {bytes rest : List Byte} {d : Block.Blocks}
    {lba : BitVec 32} {n : ℕ} (length : bytes.length = 512 * Block.asked bad lba n) :
    Block.writeIn bad (bytes ++ rest) d lba n = Block.writeIn bad bytes d lba n := by
  induction n generalizing bytes d lba with
  | zero => rfl
  | succ n ih =>
      rw [Block.writeIn, Block.writeIn]
      split_ifs with broken
      · rfl
      · rw [Block.asked, if_neg broken] at length
        have first : Block.ofBytes (bytes ++ rest) = Block.ofBytes bytes := by
          rw [← Block.ofBytes_take, List.take_append_of_le_length (by omega), Block.ofBytes_take]
        rw [first, List.drop_append_of_le_length (by omega), ih (by rw [List.length_drop]; omega)]

/-- A WRITE of existing blocks, against whatever serves the block interface.  A driver that moves
again and again gets back from it; and whenever it reports it as done, the bytes it was given are in
the blocks up to the first bad one, its status says whether there was one, the target remembers
which, and no other block has changed. -/
theorem writes_through_the_driver (pc : Chip.Params) (pt : Targ.Params) (count : BitVec 32)
    (host : ℕ) (c : Command) (y : Dma.System) (turns : ℕ → Turn BlkRsp)
    (bad : Bool → BitVec 32 → Bool) (blocks : ℕ → Block.Blocks) (plain : c.usePdma = false)
    (poised : Poised y) (low : y.chip.regs.icrAck = false) (unspoken : y.targ.seq.Unspoken)
    (whole : c.cdb.length = Targ.commandLength c.cdb) (unit : c.unit = 0)
    (device : Block.Device bad blocks (targets pc pt (execute host c) y turns)
      (seen pc pt (execute host c) y turns))
    (ready : ∀ t, (turns t).world.ready = true) (size : ∀ t, (turns t).world.count = count)
    (write : c.asks.cdbIsWrite = true) (some_ : c.asks.cmdBlocks ≠ 0)
    (inside : c.asks.cmdLba.toNat + c.asks.cmdBlocks.toNat ≤ count.toNat) :
    ((∀ t, ∃ u, t ≤ u ∧ (turns u).moves = true) →
      ∃ T res, ((machine pc pt).exec (execute host c) y turns T).1.result? = some res) ∧
    ∀ T res, ((machine pc pt).exec (execute host c) y turns T).1.result? = some res →
      res.ok = true →
      let stopped := Block.stop (bad true) c.asks.cmdLba c.asks.cmdBlocks.toNat
      512 * Block.asked (bad true) c.asks.cmdLba c.asks.cmdBlocks.toNat ≤ c.dataOut.length ∧
        res.status = (Block.verdict stopped).1 ∧
        (targets pc pt (execute host c) y turns T).seq.sense = (Block.verdict stopped).2 ∧
        ∀ b, stopped ≠ some b → blocks T b =
          Block.writeIn (bad true) c.dataOut (blocks 0) c.asks.cmdLba c.asks.cmdBlocks.toNat b := by
  refine ⟨Machine.exec_returns, fun T res returned ok => ?_⟩
  intro stopped
  have behaves := behaves_of_inside (execute_only host plain) poised device.inside size
  obtain ⟨e, done⟩ := success plain poised low unspoken whole behaves returned ok
  obtain ⟨op, lba, number⟩ := bears_decode done.bears whole
  have addressed := done.addressed whole unit ready size (by rw [write, Bool.or_true]) inside
  have kept := done.kept device
  have rests := done.rests
  obtain ⟨before, exec, -, hearing, patient, off, -, heard⟩ := done
  rw [targets_run] at device hearing patient exec addressed off op lba number heard rests ⊢
  have isWrite :
      (Targ.run pt y.targ (seen pc pt (execute host c) y turns) e).seq.cdbIsWrite = true := by
    rw [Targ.Seq.cdbIsWrite, op]
    exact write
  have quiet := Block.quiet_of_write patient
    ⟨exec, patient.rst e (Nat.le_refl e), addressed.accepts⟩ isWrite
  obtain ⟨status, length, sense, stored⟩ := hearing.write device patient exec (rests.succ quiet)
    addressed isWrite (by rw [number]; exact some_) lba (congrArg BitVec.toNat number) before off
  obtain ⟨-, told, told', -⟩ := (told_after plain poised low behaves returned (Nat.le_refl T)).reports
  rw [heard phDataOut (by decide) (by decide)] at told
  rw [heard phStatus (by decide) (by decide), status] at told'
  obtain ⟨rest, all⟩ := told
  refine ⟨?_, told'.symm, sense, fun b other => ?_⟩
  · rw [← all, List.length_append, length]
    exact Nat.le_add_right _ _
  · rw [stored b other, kept, ← all, writeIn_prefix length]

/-- WRITE(10) of block five, with bytes that all tell where they are. -/
def writeFive : Command where
  target := 0
  cdb := [0x2a, 0x00, 0x00, 0x00, 0x00, 0x05, 0x00, 0x00, 0x01, 0x00]
  dataOut := Block.sector fun a => a.setWidth 8

/-- A good block goes to the disk, and the one before it stays. -/
theorem block_five_written :
    ∃ T res, ((machine {} {}).exec (execute 7 writeFive) fresh (fromDisk writeFive) T).1.result? =
        some res ∧ res.ok = true ∧ res.status = Targ.stGood ∧
      ∃ blocks : ℕ → Block.Blocks,
        (∀ t, ((onDisk {} {}).exec (execute 7 writeFive) (fresh, Block.benchDisk)
            unhurried t).2.2.st = .idle →
          ((onDisk {} {}).exec (execute 7 writeFive) (fresh, Block.benchDisk)
            unhurried t).2.2.block = blocks t) ∧
        Block.sector (blocks T 5) = writeFive.dataOut ∧ blocks T 4 = Block.benchDisk.block 4 := by
  have five : writeFive.asks.cmdLba = 5 := by decide
  have one : writeFive.asks.cmdBlocks.toNat = 1 := by decide
  have good : Block.benchDisk.fails 5 = false := by decide
  have opens : Opens writeFive := by decide +kernel
  have asks : (opened writeFive 173).2.1.targ.seq.st = .dataout ∧
      (opened writeFive 173).2.1.targ.seq.blkStart = false ∧
      (opened writeFive 173).2.1.targ.seq.idx = 0 := by decide +kernel
  have serves : Serves Block.benchDisk 1 (opened writeFive 173).2.1.targ.seq :=
    ⟨.inr asks.1, opens.media, opens.length, asks.2.2, asks.2.1, congrArg BitVec.toNat opens.left,
      opens.good⟩
  have all : writeFive.dataOut.length = 512 := by rw [writeFive, Block.sector_length]
  obtain ⟨T, res, returned, ok⟩ := opens.ends (write_begins (n := 0) opens.steady opens.idle serves
    asks.1 opens.hs (by decide) rfl (by rw [all]))
  obtain ⟨blocks, device, held⟩ := @onDisk_device {} {} 7 writeFive fresh Block.benchDisk unhurried
    .blank rfl rfl rfl fresh_poised rfl (by decide) (by decide) (by decide)
  have first : blocks 0 = Block.benchDisk.block := (held 0 rfl).symm
  obtain ⟨-, writes⟩ := writes_through_the_driver {} {} 2048 7 writeFive fresh
    (fromDisk writeFive) _ blocks rfl fresh_poised rfl (.inl rfl) (by decide) (by decide) device
    (fun t => (fromDisk_world writeFive t).1) (fun t => (fromDisk_world writeFive t).2) (by decide)
    (by decide) (by decide)
  obtain ⟨-, status, -, stored⟩ := writes T res returned ok
  rw [five, one, Block.stop, good] at status stored
  have out (b : BitVec 32) : blocks T b =
      Function.update Block.benchDisk.block 5 (Block.ofBytes writeFive.dataOut) b := by
    rw [stored b (by simp [Block.stop]), Block.writeIn, good, first]
    rfl
  refine ⟨T, res, returned, ok, status, blocks, held, ?_, ?_⟩
  · rw [out, Function.update_self, writeFive, Block.ofBytes_sector]
  · rw [out, Function.update_of_ne (by decide)]

end Wish5380.Driver
