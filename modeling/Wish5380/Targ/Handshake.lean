import Wish5380.Targ.Steps

/-!
# Handshakes over time

What a byte handshake and a wait for the back end look like as stretches of a
run: in which cycles the sequencer stands where, and what it holds afterwards.
Both last as long as the other side likes, so all that is assumed of it is that
it answers in the end.
-/

namespace Wish5380.Targ

/-- From cycle `since` on there is no reset, and the initiator completes every handshake. -/
structure Patient (x : ℕ → State) (input : ℕ → Cycle) (since : ℕ) : Prop where
  pin : ∀ t, since ≤ t → (input t).rst = false
  rst : ∀ t, since ≤ t → (input t).bus.rst = false
  acks : ∀ t, since ≤ t → (x t).seq.req = true → ∃ u, t ≤ u ∧ (input u).bus.ack = true
  frees : ∀ t, since ≤ t → (x t).seq.req = false → ∃ u, t ≤ u ∧ (input u).bus.ack = false

/-- From cycle `since` on there is no reset, the initiator completes every
handshake and the back end answers every request without an error. -/
structure Fair (x : ℕ → State) (input : ℕ → Cycle) (since : ℕ) : Prop where
  pin : ∀ t, since ≤ t → (input t).rst = false
  rst : ∀ t, since ≤ t → (input t).bus.rst = false
  acks : ∀ t, since ≤ t → (x t).seq.req = true → ∃ u, t ≤ u ∧ (input u).bus.ack = true
  frees : ∀ t, since ≤ t → (x t).seq.req = false → ∃ u, t ≤ u ∧ (input u).bus.ack = false
  answers : ∀ t, since ≤ t → (blkReq (x t)).start = true → ∃ u, t ≤ u ∧ (input u).blk.done = true
  clean : ∀ t, since ≤ t → (input t).blk.done = true → (input t).blk.err = false

theorem Fair.patient {x : ℕ → State} {input : ℕ → Cycle} {since : ℕ} (fair : Fair x input since) :
    Patient x input since :=
  ⟨fair.pin, fair.rst, fair.acks, fair.frees⟩

theorem Patient.later {x : ℕ → State} {input : ℕ → Cycle} {since u : ℕ}
    (patient : Patient x input since) (after : since ≤ u) : Patient x input u where
  pin v low := patient.pin v (by omega)
  rst v low := patient.rst v (by omega)
  acks v low := patient.acks v (by omega)
  frees v low := patient.frees v (by omega)

namespace Seq

/-- The four phases that share the plain byte handshake. -/
def MovesByte (s : Seq) : Prop :=
  s.st = .datain ∨ s.st = .dataout ∨ s.st = .status ∨ s.st = .msgin

/-- What the phase does once a byte is released. -/
def released (s : Seq) : Seq :=
  match s.st with
  | .datain => s.datainReleased
  | .dataout => s.dataoutReleased
  | .status => s.statusReleased
  | _ => s.msginReleased

theorem step_handshake (p : Params) {s : Seq} (bus : Scsi) (blk : BlkRsp) (moves : s.MovesByte) :
    s.step p bus blk = s.handshake s.released bus := by
  rcases moves with st | st | st | st <;>
    simp [step, released, stepDatain, stepDataout, stepStatus, stepMsgin, st]

theorem endPulse_of_quiet {s : Seq} (quiet : s.blkStart = false) : s.endPulse = s := by
  cases s
  simp only at quiet
  simp [endPulse, quiet]

theorem connected_of_movesByte {s : Seq} (moves : s.MovesByte) : s.connected = true := by
  rcases moves with st | st | st | st <;> simp [connected, st]

theorem clock_calm (p : Params) (s : Seq) {c : Cycle} (pin : c.rst = false)
    (rst : c.bus.rst = false) : s.clock p c = s.endPulse.step p c.bus c.blk := by
  simp [clock, next, pin, rst]

end Seq

/-- One byte: `s` sets up in cycle `t`, asks until the acknowledgement in cycle
`a`, and lets go in cycle `r`. -/
structure ByteMoved (x : ℕ → State) (input : ℕ → Cycle) (s : Seq) (t a r : ℕ) : Prop where
  setup : (x t).seq = { s with hs := .setup }
  asked : t < a
  asks : ∀ v, t < v → v ≤ a → (x v).seq = { s with hs := .req }
  silent : ∀ v, t < v → v < a → (input v).bus.ack = false
  acked : (input a).bus.ack = true
  freed : a < r
  holds : ∀ v, a < v → v ≤ r → (x v).seq = { s with hs := .rel }
  after : (x (r + 1)).seq = Seq.released { s with hs := .rel }

/-- Only `hs` moves while a byte does, and outside the cycle of the acknowledgement
a request is met by silence. -/
theorem ByteMoved.seq_eq {x : ℕ → State} {input : ℕ → Cycle} {s : Seq} {t a r v : ℕ}
    (moved : ByteMoved x input s t a r) (low : t ≤ v) (high : v ≤ r) :
    ∃ h, (x v).seq = { s with hs := h } ∧ (v ≠ a → h = .req → (input v).bus.ack = false) := by
  rcases Nat.lt_or_eq_of_le low with after | rfl
  · rcases Nat.lt_or_ge a v with late | early
    · exact ⟨.rel, moved.holds v late high, by simp⟩
    · refine ⟨.req, moved.asks v after early, fun other _ => ?_⟩
      exact moved.silent v after (by omega)
  · exact ⟨.setup, moved.setup, by simp⟩

theorem ByteMoved.st_eq {x : ℕ → State} {input : ℕ → Cycle} {s : Seq} {t a r v : ℕ}
    (moved : ByteMoved x input s t a r) (low : t ≤ v) (high : v ≤ r) : (x v).seq.st = s.st := by
  obtain ⟨h, is, _⟩ := moved.seq_eq low high
  rw [is]

theorem ByteMoved.blkStart_eq {x : ℕ → State} {input : ℕ → Cycle} {s : Seq} {t a r v : ℕ}
    (moved : ByteMoved x input s t a r) (low : t ≤ v) (high : v ≤ r) :
    (x v).seq.blkStart = s.blkStart := by
  obtain ⟨h, is, _⟩ := moved.seq_eq low high
  rw [is]

/-- One block: the request stands in cycle `w`, the answer comes in cycle `d`. -/
structure BlockMoved (x : ℕ → State) (input : ℕ → Cycle) (s : Seq) (w d : ℕ) : Prop where
  le : w ≤ d
  start : (x w).seq = s
  waits : ∀ v, w < v → v ≤ d → (x v).seq = s.endPulse
  pending : ∀ v, w ≤ v → v < d → (input v).blk.done = false
  done : (input d).blk.done = true
  clean : (input d).blk.err = false

theorem BlockMoved.last {x : ℕ → State} {input : ℕ → Cycle} {s : Seq} {w d : ℕ}
    (moved : BlockMoved x input s w d) : (x d).seq.endPulse = s.endPulse := by
  rcases Nat.lt_or_eq_of_le moved.le with after | rfl
  · rw [moved.waits d after (Nat.le_refl d)]
    rfl
  · rw [moved.start]

section Run

variable {p : Params} {s : State} {input : ℕ → Cycle} {since t : ℕ}

theorem run_seq_succ (patient : Patient (run p s input) input since) (later : since ≤ t) :
    (run p s input (t + 1)).seq =
      (run p s input t).seq.endPulse.step p (input t).bus (input t).blk :=
  Seq.clock_calm p _ (patient.pin t later) (patient.rst t later)

/-- One edge of a byte handshake. -/
theorem run_seq_handshake (patient : Patient (run p s input) input since) (later : since ≤ t)
    (moves : (run p s input t).seq.MovesByte) (quiet : (run p s input t).seq.blkStart = false) :
    (run p s input (t + 1)).seq =
      (run p s input t).seq.handshake (run p s input t).seq.released (input t).bus := by
  rw [run_seq_succ patient later, Seq.endPulse_of_quiet quiet, Seq.step_handshake p _ _ moves]

theorem byteMoved (patient : Patient (run p s input) input since) (later : since ≤ t)
    (moves : (run p s input t).seq.MovesByte) (quiet : (run p s input t).seq.blkStart = false)
    (setup : (run p s input t).seq.hs = .setup) :
    ∃ a r, ByteMoved (run p s input) input (run p s input t).seq t a r := by
  generalize now : (run p s input t).seq = b at *
  have edge : ∀ (h : Hs) (u : ℕ), since ≤ u → (run p s input u).seq = { b with hs := h } →
      (run p s input (u + 1)).seq =
        Seq.handshake { b with hs := h } (Seq.released { b with hs := h }) (input u).bus := by
    intro h u reached is
    have same : (run p s input u).seq.MovesByte := by
      rw [is]
      exact moves
    rw [run_seq_handshake patient reached same (by rw [is]; exact quiet), is]
  have first : (run p s input t).seq = { b with hs := .setup } := by rw [now, ← setup]
  have asking : (run p s input (t + 1)).seq = { b with hs := .req } := edge .setup t later first
  have requests : ({ b with hs := .req } : Seq).req = true := by
    simpa [Seq.req, Seq.connected] using Seq.connected_of_movesByte moves
  have rests : ({ b with hs := .rel } : Seq).req = false := by simp [Seq.req]
  obtain ⟨a, low, acked, silent, asks⟩ := Clocked.hold_until (P := fun u => (input u).bus.ack = true)
    asking
    (fun u reached is quietly => by
      rw [edge .req u (by omega) is]
      simp only [Bool.not_eq_true] at quietly
      simp [Seq.handshake, quietly])
    (patient.acks (t + 1) (by omega) (by rw [asking]; exact requests))
  have holding : (run p s input (a + 1)).seq = { b with hs := .rel } := by
    rw [edge .req a (by omega) (asks a low (Nat.le_refl a))]
    simp [Seq.handshake, acked]
  obtain ⟨r, above, freed, _, holds⟩ := Clocked.hold_until
    (P := fun u => (input u).bus.ack = false) holding
    (fun u reached is quietly => by
      rw [edge .rel u (by omega) is]
      simp only [Bool.not_eq_false] at quietly
      simp [Seq.handshake, quietly])
    (patient.frees (a + 1) (by omega) (by rw [holding]; exact rests))
  have freeing := edge .rel r (by omega) (holds r above (Nat.le_refl r))
  refine ⟨a, r, first, low, asks, ?_, acked, above, holds, ?_⟩
  · intro v lower upper
    simpa using silent v lower upper
  · rw [freeing]
    simp [Seq.handshake, freed]

theorem blockMoved (fair : Fair (run p s input) input since) (later : since ≤ t)
    (waits : (run p s input t).seq.st = .rdwait ∨ (run p s input t).seq.st = .wrwait)
    (start : (run p s input t).seq.blkStart = true) :
    ∃ d, BlockMoved (run p s input) input (run p s input t).seq t d := by
  generalize now : (run p s input t).seq = b at *
  have hold : ∀ u, t ≤ u → (run p s input u).seq.endPulse = b.endPulse →
      ¬ (input u).blk.done = true → (run p s input (u + 1)).seq = b.endPulse := by
    intro u reached is pending
    have there : (run p s input u).seq.st = .rdwait ∨ (run p s input u).seq.st = .wrwait := by
      have same : (run p s input u).seq.endPulse.st = b.endPulse.st := congrArg Seq.st is
      rwa [show (run p s input u).seq.st = b.st from same]
    have stays : (run p s input (u + 1)).seq = (run p s input u).seq.endPulse :=
      Seq.clock_wait there (fair.pin u (by omega)) (fair.rst u (by omega)) (by simpa using pending)
    rw [stays, is]
  have asked : (blkReq (run p s input t)).start = true := by
    simp only [blkReq, now]
    exact start
  obtain ⟨d, low, done, silent, stands⟩ := Clocked.hold_until
    (x := fun u => (run p s input u).seq.endPulse) (s := b.endPulse)
    (P := fun u => (input u).blk.done = true) (congrArg Seq.endPulse now)
    (fun u reached is pending => by
      simp only [hold u reached is pending]
      rfl)
    (fair.answers t later asked)
  refine ⟨d, low, now, ?_, fun v lower upper => by simpa using silent v lower upper, done,
    fair.clean d (by omega) done⟩
  intro v above below
  obtain ⟨u, rfl⟩ : ∃ u, v = u + 1 := ⟨v - 1, by omega⟩
  exact hold u (by omega) (stands u (by omega) (by omega)) (silent u (by omega) (by omega))

end Run

end Wish5380.Targ
