import Wish5380.Block.Volume
import Wish5380.Targ.Ownership
import Wish5380.Targ.ReadData
import Wish5380.Targ.Responses

/-!
# What the target may count on

The block interface, from the target's side: every request is answered before the next one is
made, with an error exactly when its block is bad; a read leaves the block in the sector buffer; a
write puts the buffer into the block, and leaves a bad block in doubt; and nothing else changes the
one or the other.
-/

namespace Wish5380.Block

open Targ

/-- The request raised in cycle `w` is answered in cycle `d`. -/
structure Answered (x : ℕ → State) (input : ℕ → Cycle) (w d : ℕ) : Prop where
  le : w ≤ d
  start : (blkReq (x w)).start = true
  only : ∀ v, w < v → v ≤ d → (blkReq (x v)).start = false
  pending : ∀ v, w ≤ v → v < d → (input v).blk.done = false
  done : (input d).blk.done = true

/-- The back end serves the target in this run, `blocks` being what it holds in each cycle and
`bad` the blocks it can not read, or write. -/
structure Device (bad : Bool → BitVec 32 → Bool) (blocks : ℕ → Blocks) (x : ℕ → State)
    (input : ℕ → Cycle) : Prop where
  answers : ∀ w, (blkReq (x w)).start = true → ∃ d, Answered x input w d
  err : ∀ w d, Answered x input w d →
    (input d).blk.err = bad (blkReq (x w)).we (blkReq (x w)).lba
  fetched : ∀ w d, Answered x input w d → (blkReq (x w)).we = false →
    bad false (blkReq (x w)).lba = false → (x (d + 1)).buf.mem = blocks d (blkReq (x w)).lba
  stored : ∀ w d, Answered x input w d → (blkReq (x w)).we = true →
    bad true (blkReq (x w)).lba = false →
      blocks (d + 1) = Function.update (blocks d) (blkReq (x w)).lba (x w).buf.mem
  spares : ∀ w d, Answered x input w d → (blkReq (x w)).we = true →
    ∀ b ≠ (blkReq (x w)).lba, blocks (d + 1) b = blocks d b
  still : ∀ d, (∀ w, Answered x input w d → (blkReq (x w)).we = false) →
    blocks (d + 1) = blocks d
  inside : ∀ v, (input v).blk.bufWe = true → ∃ w, w ≤ v ∧ (blkReq (x w)).start = true ∧
    (blkReq (x w)).we = false ∧ ∀ u, w ≤ u → u < v → (input u).blk.done = false

/-- Nothing is asked in cycle `v`, and all that was has been answered. -/
def Rests (x : ℕ → State) (input : ℕ → Cycle) (v : ℕ) : Prop :=
  ∀ w, w ≤ v → (blkReq (x w)).start = true → ∃ u, w ≤ u ∧ u < v ∧ (input u).blk.done = true

section Contract

variable {bad : Bool → BitVec 32 → Bool} {blocks : ℕ → Blocks} {x : ℕ → State} {input : ℕ → Cycle}
  {v w d : ℕ}

theorem Answered.rests (answered : Answered x input w d)
    (quiet : (blkReq (x (d + 1))).start = false) : Rests x input (d + 1) := by
  intro u low start
  rcases Nat.lt_or_eq_of_le low with before | rfl
  · exact ⟨d, by omega, by omega, answered.done⟩
  · simp [quiet] at start

theorem Answered.unique {w' : ℕ} (answered : Answered x input w d)
    (other : Answered x input w' d) : w' = w := by
  have le := answered.le
  have le' := other.le
  rcases Nat.lt_trichotomy w' w with before | same | after
  · have start := other.only w before le
    simp [answered.start] at start
  · exact same
  · have start := answered.only w' after le'
    simp [other.start] at start

theorem Answered.end_unique {d' : ℕ} (answered : Answered x input w d)
    (other : Answered x input w d') : d' = d := by
  rcases Nat.lt_trichotomy d' d with before | same | after
  · have silent := answered.pending d' other.le before
    simp [other.done] at silent
  · exact same
  · have silent := other.pending d answered.le after
    simp [answered.done] at silent

theorem Rests.succ (rests : Rests x input v) (quiet : (blkReq (x (v + 1))).start = false) :
    Rests x input (v + 1) := by
  intro w low start
  rcases Nat.lt_or_eq_of_le low with before | rfl
  · obtain ⟨u, above, below, done⟩ := rests w (by omega) start
    exact ⟨u, above, by omega, done⟩
  · simp [quiet] at start

/-- While nothing is asked the back end rests. -/
theorem Rests.until (rests : Rests x input v) (low : v ≤ w)
    (quiet : ∀ u, v < u → u ≤ w → (blkReq (x u)).start = false) : Rests x input w := by
  induction w, low using Nat.le_induction with
  | base => exact rests
  | succ w low ih =>
      exact (ih fun u above below => quiet u above (by omega)).succ (quiet _ (by omega) (Nat.le_refl _))

theorem Device.untouched (device : Device bad blocks x input) (rests : Rests x input v) :
    (input v).blk.bufWe = false := by
  by_contra writes
  obtain ⟨w, low, start, -, pending⟩ := device.inside v (by simpa using writes)
  obtain ⟨u, above, below, done⟩ := rests w low start
  simp [pending u above below] at done

theorem Device.kept (device : Device bad blocks x input) (rests : Rests x input v) :
    blocks (v + 1) = blocks v := by
  refine device.still v fun w answered => ?_
  obtain ⟨u, above, below, done⟩ := rests w answered.le answered.start
  simp [answered.pending u above below] at done

/-- While nothing is asked the blocks stay as they are. -/
theorem Device.kept_until (device : Device bad blocks x input) (rests : Rests x input v)
    (low : v ≤ w) (quiet : ∀ u, v < u → u < w → (blkReq (x u)).start = false) :
    blocks w = blocks v := by
  induction w, low using Nat.le_induction with
  | base => rfl
  | succ w low ih =>
      rw [device.kept (rests.until low fun u above below => quiet u above (by omega)),
        ih fun u above below => quiet u above (by omega)]

/-- Until the answer the blocks stay as they are. -/
theorem Device.pending (device : Device bad blocks x input) (answered : Answered x input w d)
    (low : w ≤ v) (high : v ≤ d) : blocks v = blocks w := by
  induction v, low using Nat.le_induction with
  | base => rfl
  | succ v low ih =>
      rw [← ih (by omega)]
      refine device.still v fun u other => ?_
      have done := other.done
      simp [answered.pending v low (by omega)] at done

/-- A read leaves the blocks alone. -/
theorem Device.read_keeps (device : Device bad blocks x input) (answered : Answered x input w d)
    (read : (blkReq (x w)).we = false) : blocks (d + 1) = blocks w := by
  rw [← device.pending answered answered.le (Nat.le_refl d)]
  refine device.still d fun u other => ?_
  rw [answered.unique other, read]

end Contract

/-! ## Requests in hand -/

/-- From a request until its answer comes up, the back end owes it. -/
theorem owed_of_pending {x : ℕ → State} {input : ℕ → Cycle} {w u : ℕ} (low : w ≤ u)
    (start : (blkReq (x w)).start = true)
    (pending : ∀ v, w ≤ v → v < u → (input v).blk.done = false) : 0 < owed x input u := by
  induction u, low using Nat.le_induction with
  | base => simp [owed, start]
  | succ u low ih =>
      have before := ih fun v above below => pending v above (by omega)
      have silent := pending u low (Nat.lt_succ_self u)
      simp only [owed, outstanding_succ, silent] at before ⊢
      simp
      omega

/-- The account is kept in every run from reset in which the back end answers for a wait that a
reset cut short before the next READ or WRITE is taken on. -/
theorem accounted_run (p : Params) (b : Buf) (input : ℕ → Cycle)
    (answers : AnswersCuts (run p (start b) input) input) (t : ℕ) :
    Accounted (run p (start b) input) input t := by
  induction t with
  | zero =>
      refine ⟨⟨fun moving => ?_, fun moving => ?_, fun _ => rfl⟩, Nat.zero_le 1, fun busy => ?_⟩
      · simp [run, start, Seq.InTransfer, Seq.reset] at moving
      · simp [run, start, Seq.InTransfer, Seq.reset] at moving
      · exact absurd busy (Nat.lt_irrefl 0)
  | succ t ih => exact accounted_succ answers ih

/-- In every run from reset whose READs and WRITEs are exact, a request is for a block that there
is, as far as the back end has told so. -/
theorem inside_of_start (p : Params) (b : Buf) (input : ℕ → Cycle) (size : BitVec 32) {t : ℕ}
    (sized : ∀ u < t, (input u).blk.ready = true → (input u).blk.count = size)
    (exactly : ∀ u, Takes (run p (start b) input) input u → (run p (start b) input u).seq.Exact)
    (raised : (blkReq (run p (start b) input t)).start = true) :
    (blkReq (run p (start b) input t)).lba < size := by
  have bounded (n : ℕ) (inside : n ≤ t) : Seq.Bounded size (run p (start b) input n).seq := by
    induction n with
    | zero => exact Seq.reset_bounded size
    | succ n ih =>
        exact Seq.clock_bounded (ih (by omega)) (sized n inside) fun exec rst accepted =>
          exactly n ⟨exec, rst, accepted⟩
  exact (bounded t (Nat.le_refl t)).request raised

/-- An exact READ or WRITE that is taken on is for existing blocks. -/
theorem addressed_of_accepts {s : Seq} {blk : BlkRsp} (accepted : s.accepts blk = true)
    (exact' : s.Exact) : s.Addressed blk := by
  have inside := Seq.accepts_inMedium (t := { s with lba := s.cmdLba, blkLeft := s.cmdBlocks })
    accepted exact' rfl rfl
  simp only [Seq.accepts, Bool.and_eq_true, beq_iff_eq] at accepted
  exact ⟨accepted.1.1.1, accepted.1.1.2, accepted.1.2, inside.fits⟩

/-- By the time a READ or WRITE is taken on, all that was asked before it has been answered. -/
theorem rests_of_takes (p : Params) (b : Buf) (input : ℕ → Cycle)
    (answers : AnswersCuts (run p (start b) input) input) {t : ℕ}
    (takes : Takes (run p (start b) input) input t)
    (quiet : (blkReq (run p (start b) input (t + 1))).start = false) :
    Rests (run p (start b) input) input (t + 1) := by
  intro w low start
  by_contra none
  have pending (v : ℕ) (above : w ≤ v) (below : v < t + 1) : (input v).blk.done = false := by
    by_contra done
    exact none ⟨v, above, below, by simpa using done⟩
  have before : w ≤ t := by
    refine Nat.le_of_lt_succ (Nat.lt_of_le_of_ne low fun same => ?_)
    rw [same, quiet] at start
    cases start
  have busy := owed_of_pending before start fun v above below => pending v above (by omega)
  rcases (accounted_run p b input answers t).abandoned busy with ⟨-, waits⟩ | ⟨c, earlier, cut, silent⟩
  · simp [takes.exec] at waits
  · obtain ⟨v, low, high, done⟩ := answers c t earlier cut takes
    rcases Nat.lt_or_eq_of_le high with before | rfl
    · simp [silent v low before] at done
    · simp [pending v (by omega) (Nat.lt_succ_self v)] at done

/-! ## Moving bytes while the back end rests -/

section Run

variable {bad : Bool → BitVec 32 → Bool} {blocks : ℕ → Blocks} {p : Params} {s : State}
  {input : ℕ → Cycle} {since v w d : ℕ}

/-- In the wait for an answer the target stands still. -/
theorem Answered.waits (answered : Answered (run p s input) input w d)
    (patient : Patient (run p s input) input since) (later : since ≤ w)
    (st : (run p s input w).seq.st = .rdwait ∨ (run p s input w).seq.st = .wrwait) (low : w < v)
    (high : v ≤ d) : (run p s input v).seq = (run p s input w).seq.endPulse := by
  induction v, low using Nat.le_induction with
  | base =>
      exact Seq.clock_wait st (patient.pin w later) (patient.rst w later)
        (answered.pending w (Nat.le_refl w) (by omega))
  | succ v low ih =>
      have here := ih (by omega)
      have there : (run p s input v).seq.st = .rdwait ∨ (run p s input v).seq.st = .wrwait := by
        rw [here]
        exact st
      have stays : (run p s input (v + 1)).seq = (run p s input v).seq.endPulse :=
        Seq.clock_wait there (patient.pin v (by omega)) (patient.rst v (by omega))
          (answered.pending v (by omega) (by omega))
      rw [stays, here]
      rfl

/-- The edge of the answer. -/
theorem Answered.edge (answered : Answered (run p s input) input w d)
    (patient : Patient (run p s input) input since) (later : since ≤ w)
    (st : (run p s input w).seq.st = .rdwait ∨ (run p s input w).seq.st = .wrwait) :
    (run p s input (d + 1)).seq =
      (run p s input w).seq.endPulse.step p (input d).bus (input d).blk := by
  have le := answered.le
  rw [run_seq_succ patient (by omega)]
  rcases Nat.lt_or_eq_of_le le with after | rfl
  · rw [answered.waits patient later st after (Nat.le_refl d)]
    rfl
  · rfl

variable {a r : ℕ}

/-- Over a byte of a data phase the back end rests. -/
theorem rests_over_byte (moved : ByteMoved (run p s input) input (run p s input v).seq v a r)
    (quiet : (run p s input v).seq.blkStart = false) (rests : Rests (run p s input) input v)
    {u : ℕ} (low : v ≤ u) (high : u ≤ r) : Rests (run p s input) input u :=
  rests.until low fun _ above below => (moved.blkStart_eq (by omega) (by omega)).trans quiet

/-- Over a byte of a data phase the blocks stay as they are. -/
theorem Device.kept_over_byte (device : Device bad blocks (run p s input) input)
    (moved : ByteMoved (run p s input) input (run p s input v).seq v a r)
    (quiet : (run p s input v).seq.blkStart = false) (rests : Rests (run p s input) input v) :
    blocks (r + 1) = blocks v := by
  have asked := moved.asked
  have freed := moved.freed
  exact device.kept_until rests (by omega) fun _ above below =>
    (moved.blkStart_eq (by omega) (by omega)).trans quiet

end Run

/-! ## The end of a command -/

/-- What is left of a command that stopped at a bad block, or at none. -/
def verdict : Option (BitVec 32) → Byte × Sense
  | none => (stGood, noSense)
  | some lba => (stCheck, ⟨skMediumError, ascUnrecoveredRead, 0, lba⟩)

/-- About to set up the status byte of a READ or WRITE. -/
structure Verdict (s : Seq) (stopped : Option (BitVec 32)) : Prop where
  st_eq : s.st = .status
  hs_eq : s.hs = .setup
  quiet : s.blkStart = false
  op : s.op ≠ cRequestSense
  status : s.status = (verdict stopped).1
  sense : s.sense = (verdict stopped).2

section End

variable {p : Params} {s : State} {input : ℕ → Cycle} {since t : ℕ} {stopped : Option (BitVec 32)}

/-- The status byte, the message byte, and the bus is free; the sense is kept for whoever asks. -/
theorem Verdict.ends (patient : Patient (run p s input) input since) (later : since ≤ t)
    (ending : Verdict (run p s input t).seq stopped) :
    ∃ u, (run p s input u).seq.st = .free ∧ (run p s input u).seq.sense = (verdict stopped).2 ∧
      (∀ v, t < v → v ≤ u → (blkReq (run p s input v)).start = false) ∧
      Clocked.Stretch (shows p (run p s input) input)
        (fun v => (run p s input v).seq.connected = true) t u
        [.status (verdict stopped).1, .message mCommandComplete] := by
  have statusMoves : (run p s input t).seq.MovesByte := .inr (.inr (.inl ending.st_eq))
  obtain ⟨a, r, status⟩ := byteMoved patient later statusMoves ending.quiet ending.hs_eq
  have first := status.stretch (p := p) ending.quiet statusMoves
  have closing : (run p s input (r + 1)).seq =
      { (run p s input t).seq with hs := .setup, msgIn := mCommandComplete, st := .msgin } := by
    rw [status.after]
    simp [Seq.released, ending.st_eq, Seq.statusReleased]
  have messageMoves : (run p s input (r + 1)).seq.MovesByte := .inr (.inr (.inr (by rw [closing])))
  have quiet : (run p s input (r + 1)).seq.blkStart = false := by
    rw [closing]
    exact ending.quiet
  have le := first.le
  obtain ⟨b, q, message⟩ := byteMoved patient (by omega) messageMoves quiet (by rw [closing])
  have second := message.stretch (p := p) quiet messageMoves
  have freed : (run p s input (q + 1)).seq =
      { (run p s input (r + 1)).seq with hs := .setup, st := .free } := by
    have op : (run p s input (r + 1)).seq.op ≠ cRequestSense := by
      rw [closing]
      exact ending.op
    rw [message.after]
    simp only [Seq.released, Seq.msginReleased, closing]
    rw [closing] at op
    exact if_neg op
  have statusByte : deliveries p (run p s input) input a = [.status (verdict stopped).1] := by
    have asking := status.asks a status.asked (Nat.le_refl a)
    rw [deliveries_status _ _ status.acked, asking, ← ending.status]
    · rw [asking]
      exact ending.st_eq
    · rw [asking]
  have messageByte : deliveries p (run p s input) input b = [.message mCommandComplete] := by
    have asking := message.asks b message.asked (Nat.le_refl b)
    rw [deliveries_message _ _ message.acked, asking, closing]
    · rw [asking, closing]
    · rw [asking]
  rw [statusByte] at first
  rw [messageByte] at second
  refine ⟨q + 1, by rw [freed], ?_, fun v low high => ?_, first.trans second⟩
  · rw [freed, ← ending.sense, closing]
    rfl
  · rcases Nat.lt_or_ge r v with late | early
    · rcases Nat.lt_or_eq_of_le high with before | rfl
      · exact (message.blkStart_eq late (by omega)).trans quiet
      · simp only [blkReq, freed]
        exact quiet
    · exact (status.blkStart_eq (by omega) early).trans ending.quiet

end End

end Wish5380.Block
