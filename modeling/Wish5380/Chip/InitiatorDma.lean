import Wish5380.Chip.EndOfProcess
import Wish5380.Clocked.Streak

/-!
# Initiator DMA against any target

The DMA handshake tests levels, never edges.  What keeps one REQ from being taken for two is
that each state is entered only after the level it tests has been seen the other way.  Nothing
is asked of the target here: REQ, the phase and the data may do anything.
-/

namespace Wish5380.Chip

open Clocked

/-- An initiator in DMA mode, with nothing but the engine in the way of ACK. -/
structure Regs.Initiates (r : Regs) : Prop where
  dma : r.dmaMode = true
  role : r.targetMode = false
  ack : r.icrAck = false
  live : r.testMode = false

/-- A start is written in cycle `a` with the engine at rest, and the registers stand as they
are up to cycle `b`. -/
structure Started (x : ℕ → State) (input : ℕ → Cycle) (a b : ℕ) : Prop where
  regs : ∀ t, a ≤ t → t ≤ b → (x t).regs.Initiates
  rest : (x a).eng.dmaSt = .idle
  start : (input a).port.sdir = true ∨ (input a).port.sds = true

namespace State

variable {p : Params} {s : State} {a : Port} {bus : Scsi} {c : Cycle}

/-- An initiator's transfer is under way. -/
structure Active (s : State) : Prop where
  role : s.eng.dmaTgt = false
  begun : s.eng.dmaSt ≠ .idle ∧ s.eng.dmaSt ≠ .sTrel

/-- The engine holds ACK. -/
def Acks (s : State) : Prop :=
  s.eng.dmaSt = .sHs ∨ s.eng.dmaSt = .rHs

/-- ACK on the bus is the engine's. -/
theorem drive_ack (initiates : s.regs.Initiates) :
    (s.drive bus).ack = (!s.eng.dmaTgt && (s.eng.dmaSt == .sHs || s.eng.dmaSt == .rHs)) := by
  simp [drive, drvEn, dmaAck, initiates.live, initiates.role, initiates.ack, initiates.dma]

/-- An edge after which DMA MODE still stands is an edge of the handshake. -/
theorem clock_dma (now : s.regs.dmaMode = true) (next : (clock p s c).regs.dmaMode = true) :
    c.rst = false ∧ s.sclr c.bus = false ∧
      (clock p s c).eng.dmaSt = (s.dmaStep c.port c.bus).dmaSt ∧
      (clock p s c).eng.dmaTgt = (s.dmaStep c.port c.bus).dmaTgt ∧
      (clock p s c).eng.idrQ = (s.dmaStep c.port c.bus).idrQ := by
  have pin : c.rst = false := by
    cases pin : c.rst with
    | false => rfl
    | true => simp [clock, pin, Regs.dmaMode] at next
  have calm : s.sclr c.bus = false := by
    cases calm : s.sclr c.bus with
    | false => rfl
    | true =>
        have off : (clock p s c).regs.dmaMode = false := by
          simp only [clock, pin, State.next, Regs.next, calm]
          cases s.busyLost p c.bus <;> simp [Regs.scsiClear, Regs.busyClear, Regs.dmaMode]
        simp [off] at next
  refine ⟨pin, calm, ?_⟩
  simp [clock, pin, State.next, nextEng, nextDma, calm, now]

/-- Every edge of an initiator's transfer. -/
inductive Step (s : State) (c : Cycle) (t : State) : Prop where
  | wait (st : s.eng.dmaSt = .rWant) (none : s.reqOk c.bus = false) (st' : t.eng.dmaSt = .rWant)
      (idr : t.eng.idrQ = s.eng.idrQ)
  | latch (st : s.eng.dmaSt = .rWant) (asked : s.reqOk c.bus = true) (st' : t.eng.dmaSt = .rHave)
      (idr : t.eng.idrQ = c.bus.data)
  | full (st : s.eng.dmaSt = .rHave) (unread : c.port.dackRd = false)
      (st' : t.eng.dmaSt = .rHave) (idr : t.eng.idrQ = s.eng.idrQ)
  | read (st : s.eng.dmaSt = .rHave) (access : c.port.dackRd = true) (st' : t.eng.dmaSt = .rHs)
      (idr : t.eng.idrQ = s.eng.idrQ)
  | ask (st : s.eng.dmaSt = .sWant) (unwritten : c.port.dackWr = false)
      (st' : t.eng.dmaSt = .sWant) (idr : t.eng.idrQ = s.eng.idrQ)
  | write (st : s.eng.dmaSt = .sWant) (access : c.port.dackWr = true)
      (st' : t.eng.dmaSt = .sHave) (idr : t.eng.idrQ = s.eng.idrQ)
  | hold (st : s.eng.dmaSt = .sHave) (none : s.reqOk c.bus = false)
      (st' : t.eng.dmaSt = .sHave) (idr : t.eng.idrQ = s.eng.idrQ)
  | offer (st : s.eng.dmaSt = .sHave) (asked : s.reqOk c.bus = true) (st' : t.eng.dmaSt = .sHs)
      (idr : t.eng.idrQ = s.eng.idrQ)
  | keep (acks : s.Acks) (req : c.bus.req = true) (st' : t.eng.dmaSt = s.eng.dmaSt)
      (idr : t.eng.idrQ = s.eng.idrQ)
  | release (acks : s.Acks) (req : c.bus.req = false)
      (st' : t.eng.dmaSt = if s.eng.dmaSt = .sHs then .sWant else .rWant)
      (idr : t.eng.idrQ = s.eng.idrQ)

theorem step_of_clock (active : s.Active) (now : s.regs.dmaMode = true)
    (next : (clock p s c).regs.dmaMode = true) :
    Step s c (clock p s c) ∧ (clock p s c).Active := by
  obtain ⟨-, -, st, tgt, idr⟩ := clock_dma now next
  obtain ⟨role, begun, notTarget⟩ := active
  cases here : s.eng.dmaSt with
  | idle => exact absurd here begun
  | sTrel => exact absurd here notTarget
  | rWant =>
      simp only [dmaStep, here, recvLatch, role] at st tgt idr
      cases asked : s.reqOk c.bus
      · simp [asked, here, role] at st tgt idr
        exact ⟨.wait here asked st idr, tgt, by simp [st]⟩
      · simp [asked] at st tgt idr
        exact ⟨.latch here asked st idr, tgt, by simp [st]⟩
  | rHave =>
      simp only [dmaStep, here] at st tgt idr
      cases access : c.port.dackRd
      · simp [access, here, role] at st tgt idr
        exact ⟨.full here access st idr, tgt, by simp [st]⟩
      · simp [access, role] at st tgt idr
        exact ⟨.read here access st idr, tgt, by simp [st]⟩
  | rHs =>
      simp only [dmaStep, here, role] at st tgt idr
      cases req : c.bus.req
      · simp [req] at st tgt idr
        exact ⟨.release (.inr here) req (by simp [here, st]) idr, tgt, by simp [st]⟩
      · simp [req, here, role] at st tgt idr
        exact ⟨.keep (.inr here) req (st.trans here.symm) idr, tgt, by simp [st]⟩
  | sWant =>
      simp only [dmaStep, here] at st tgt idr
      cases access : c.port.dackWr
      · simp [access, here, role] at st tgt idr
        exact ⟨.ask here access st idr, tgt, by simp [st]⟩
      · simp [access, role] at st tgt idr
        exact ⟨.write here access st idr, tgt, by simp [st]⟩
  | sHave =>
      simp only [dmaStep, here, role] at st tgt idr
      cases asked : s.reqOk c.bus
      · simp [asked, here, role] at st tgt idr
        exact ⟨.hold here asked st idr, tgt, by simp [st]⟩
      · simp [asked] at st tgt idr
        exact ⟨.offer here asked st idr, tgt, by simp [st]⟩
  | sHs =>
      simp only [dmaStep, here, role] at st tgt idr
      cases req : c.bus.req
      · simp [req] at st tgt idr
        exact ⟨.release (.inl here) req (by simp [here, st]) idr, tgt, by simp [st]⟩
      · simp [req, here, role] at st tgt idr
        exact ⟨.keep (.inl here) req (st.trans here.symm) idr, tgt, by simp [st]⟩

section Step

variable {t : State}

theorem Step.keeps (step : Step s c t) (acks : s.Acks) (req : c.bus.req = true) : t.Acks := by
  cases step with
  | keep _ _ st' =>
      rw [Acks, st']
      exact acks
  | release _ low => simp [low] at req
  | _ => rcases acks with st | st <;> simp_all

theorem Step.releases (step : Step s c t) (acks : s.Acks) (req : c.bus.req = false) :
    ¬ t.Acks := by
  cases step with
  | keep _ high => simp [high] at req
  | release _ _ st' =>
      rw [Acks, st']
      split_ifs <;> simp
  | _ => rcases acks with st | st <;> simp_all

/-- An ACK begins with the host's access in a receive, and with REQ in a send. -/
theorem Step.acks (step : Step s c t) (low : ¬ s.Acks) (high : t.Acks) :
    s.eng.dmaSt = .rHave ∧ c.port.dackRd = true ∨
      s.eng.dmaSt = .sHave ∧ s.reqOk c.bus = true := by
  cases step with
  | read st access => exact .inl ⟨st, access⟩
  | offer st asked => exact .inr ⟨st, asked⟩
  | keep acks => exact absurd acks low
  | release acks => exact absurd acks low
  | _ => simp_all [Acks]

/-- A latched byte stands in the way of the next one while REQ stays true. -/
theorem Step.holds_byte (step : Step s c t) (req : c.bus.req = true)
    (held : s.eng.dmaSt = .rHave ∨ s.eng.dmaSt = .rHs) :
    t.eng.dmaSt = .rHave ∨ t.eng.dmaSt = .rHs := by
  cases step with
  | full _ _ st' => exact .inl st'
  | read _ _ st' => exact .inr st'
  | keep _ _ st' => rwa [st']
  | release _ low => simp [low] at req
  | _ => simp_all

theorem Step.sends (step : Step s c t)
    (sends : s.eng.dmaSt = .sWant ∨ s.eng.dmaSt = .sHave ∨ s.eng.dmaSt = .sHs) :
    t.eng.dmaSt = .sWant ∨ t.eng.dmaSt = .sHave ∨ t.eng.dmaSt = .sHs := by
  cases step with
  | release acks _ st' =>
      rcases acks with st | st
      · simp [st', st]
      · simp [st] at sends
  | keep _ _ st' => rwa [st']
  | _ => simp_all

/-- The Input Data Register is loaded by `recv_latch` and nothing else. -/
theorem Step.idr (step : Step s c t) (active : s.Active) :
    t.eng.idrQ = if s.recvLatch c.bus then c.bus.data else s.eng.idrQ := by
  have latch : s.recvLatch c.bus = (s.eng.dmaSt == .rWant && s.reqOk c.bus) := by
    simp [recvLatch, active.role]
  rw [latch]
  cases step with
  | latch st asked _ idr => simp [st, asked, idr]
  | wait st none _ idr => simp [none, idr]
  | keep acks _ _ idr => rcases acks with st | st <;> simp [st, idr]
  | release acks _ _ idr => rcases acks with st | st <;> simp [st, idr]
  | _ => simp_all

end Step

/-- The start itself. -/
theorem active_of_start (initiates : s.regs.Initiates)
    (next : (clock p s c).regs.dmaMode = true) (rest : s.eng.dmaSt = .idle)
    (start : c.port.sdir = true ∨ c.port.sds = true) :
    (clock p s c).Active ∧ (clock p s c).eng.idrQ = s.eng.idrQ ∧
      ((clock p s c).eng.dmaSt = .rWant ∨ (clock p s c).eng.dmaSt = .sWant) := by
  obtain ⟨-, -, st, tgt, idr⟩ := clock_dma initiates.dma next
  simp only [dmaStep, rest] at st tgt idr
  cases sends : c.port.sds with
  | true =>
      simp only [sends, if_true, initiates.role] at st tgt idr
      exact ⟨⟨tgt, by simp [st]⟩, idr, .inr st⟩
  | false =>
      have receives : c.port.sdir = true := by simpa [sends] using start
      have other : c.port.sdtr = false := by
        simp only [Port.sdir, Bool.and_eq_true, beq_iff_eq] at receives
        simp [Port.sdtr, receives.2]
      simp only [sends, other, receives, Bool.false_eq_true, if_false, if_true] at st tgt idr
      exact ⟨⟨tgt, by simp [st]⟩, idr, .inl st⟩

end State

/-! ## One period -/

section Period

variable {p : Params} {input : ℕ → Cycle} {a b t : ℕ}

theorem Started.active (started : Started (run p input) input a b) (after : a < t) (within : t ≤ b) :
    (run p input t).Active := by
  induction t, after using Nat.le_induction with
  | base =>
      exact (State.active_of_start (started.regs a (Nat.le_refl a) (by omega))
        (started.regs (a + 1) (by omega) within).dma started.rest started.start).1
  | succ t after ih =>
      exact (State.step_of_clock (ih (by omega)) (started.regs t (by omega) (by omega)).dma
        (started.regs (t + 1) (by omega) within).dma).2

theorem Started.step (started : Started (run p input) input a b) (after : a < t) (within : t < b) :
    State.Step (run p input t) (input t) (run p input (t + 1)) :=
  (State.step_of_clock (started.active after (by omega)) (started.regs t (by omega) (by omega)).dma
    (started.regs (t + 1) (by omega) within).dma).1

/-- ACK on the wires in cycle `t`. -/
def acked (x : ℕ → State) (input : ℕ → Cycle) (t : ℕ) : Bool :=
  ((x t).drive (input t).bus).ack

/-- An ACK pulse begins with cycle `t + 1`. -/
def begins (x : ℕ → State) (input : ℕ → Cycle) (t : ℕ) : Bool :=
  !acked x input t && acked x input (t + 1)

theorem Started.acked_iff (started : Started (run p input) input a b) (after : a < t)
    (within : t ≤ b) : acked (run p input) input t = true ↔ (run p input t).Acks := by
  have active := started.active after within
  rw [acked, State.drive_ack (started.regs t (by omega) within), active.role]
  simp [State.Acks]

theorem Started.acked_first (started : Started (run p input) input a b) (some : a ≤ b) :
    acked (run p input) input a = false := by
  rw [acked, State.drive_ack (started.regs a (Nat.le_refl a) some), started.rest]
  simp

theorem Started.begins_cases (started : Started (run p input) input a b) (after : a ≤ t)
    (within : t < b) (now : begins (run p input) input t = true) :
    a < t ∧ ¬ (run p input t).Acks ∧ (run p input (t + 1)).Acks := by
  simp only [begins, Bool.and_eq_true, Bool.not_eq_true'] at now
  have high := (started.acked_iff (t := t + 1) (by omega) within).mp now.2
  rcases Nat.lt_or_eq_of_le after with later | rfl
  · refine ⟨later, fun low => ?_, high⟩
    simpa [now.1] using (started.acked_iff later (by omega)).mpr low
  · have first := (State.active_of_start (started.regs a (Nat.le_refl a) (by omega))
      (started.regs (a + 1) (by omega) within).dma started.rest started.start).2.2
    have fresh : (run p input (a + 1)).eng.dmaSt = .rWant ∨
        (run p input (a + 1)).eng.dmaSt = .sWant := first
    rcases fresh with st | st <;> simp [State.Acks, st] at high

/-- A pulse lasts while REQ stays true. -/
theorem Started.lasts (started : Started (run p input) input a b) {u : ℕ} (after : a < t)
    (within : u ≤ b) (acks : (run p input t).Acks) (later : t ≤ u)
    (high : ∀ v, t ≤ v → v < u → (input v).bus.req = true) : (run p input u).Acks := by
  induction u, later using Nat.le_induction with
  | base => exact acks
  | succ u later ih =>
      have on := ih (by omega) fun v low below => high v low (by omega)
      exact (started.step (by omega) within).keeps on (high u later (Nat.lt_succ_self u))

/-- A latched byte is still there while REQ stays true. -/
theorem Started.byte_lasts (started : Started (run p input) input a b) {u : ℕ} (after : a < t)
    (within : u ≤ b) (held : (run p input t).eng.dmaSt = .rHave ∨ (run p input t).eng.dmaSt = .rHs)
    (later : t ≤ u) (high : ∀ v, t ≤ v → v < u → (input v).bus.req = true) :
    (run p input u).eng.dmaSt = .rHave ∨ (run p input u).eng.dmaSt = .rHs := by
  induction u, later using Nat.le_induction with
  | base => exact held
  | succ u later ih =>
      have on := ih (by omega) fun v low below => high v low (by omega)
      exact (started.step (by omega) within).holds_byte (high u later (Nat.lt_succ_self u)) on

theorem Started.sends (started : Started (run p input) input a b)
    (send : (input a).port.sds = true) (after : a < t) (within : t ≤ b) :
    (run p input t).eng.dmaSt = .sWant ∨ (run p input t).eng.dmaSt = .sHave ∨
      (run p input t).eng.dmaSt = .sHs := by
  induction t, after using Nat.le_induction with
  | base =>
      obtain ⟨-, -, st, -⟩ := State.clock_dma (p := p) (c := input a)
        (started.regs a (Nat.le_refl a) (by omega)).dma
        (started.regs (a + 1) (by omega) within).dma
      left
      refine st.trans ?_
      simp [State.dmaStep, started.rest, send]
  | succ t after ih => exact (started.step (by omega) within).sends (ih (by omega))

/-- A pulse uses up an access, and a held byte is one that is not used up yet. -/
theorem Started.pays (started : Started (run p input) input a b) (after : a < t) (within : t < b) :
    (begins (run p input) input t).toNat +
        (if (run p input (t + 1)).eng.dmaSt = .sHave then 1 else 0) ≤
      (input t).port.acknowledges.toNat + if (run p input t).eng.dmaSt = .sHave then 1 else 0 := by
  have step := started.step after within
  cases now : begins (run p input) input t with
  | true =>
      obtain ⟨_, low, high⟩ := started.begins_cases (by omega) within now
      have next : (run p input (t + 1)).eng.dmaSt ≠ .sHave := by
        rcases high with st | st <;> simp [st]
      rcases step.acks low high with ⟨_, access⟩ | ⟨st, _⟩
      · simp [next, Port.acknowledges, access]
      · simp [next, st]
  | false =>
      cases step with
      | write _ access st' => simp [st', Port.acknowledges, access]
      | hold st _ st' => simp [st, st']
      | keep acks _ st' => rcases acks with st | st <;> simp [st', st]
      | release acks _ st' => rcases acks with st | st <;> simp [st', st]
      | _ => simp_all

/-- The accesses are ahead of the pulses, by the byte a send holds. -/
theorem Started.counted (started : Started (run p input) input a b) (after : a < t)
    (within : t ≤ b) :
    tally (begins (run p input) input) a t + (if (run p input t).eng.dmaSt = .sHave then 1 else 0) ≤
      tally (fun v => (input v).port.acknowledges) a t := by
  induction t, after using Nat.le_induction with
  | base =>
      have quiet : begins (run p input) input a = false := by
        cases now : begins (run p input) input a with
        | false => rfl
        | true =>
            have later := (started.begins_cases (Nat.le_refl a) within now).1
            omega
      have fresh : (run p input (a + 1)).eng.dmaSt = .rWant ∨
          (run p input (a + 1)).eng.dmaSt = .sWant :=
        (State.active_of_start (started.regs a (Nat.le_refl a) (by omega))
          (started.regs (a + 1) (by omega) within).dma started.rest started.start).2.2
      rw [tally_succ _ (Nat.le_refl a), tally_self, quiet]
      rcases fresh with st | st <;> simp [st]
  | succ t after ih =>
      have before := ih (by omega)
      have pays := started.pays after within
      rw [tally_succ _ (by omega), tally_succ _ (by omega)]
      omega

end Period

/-- What holds of an initiator's transfer in a period from cycle `a` to cycle `b`, whatever the
target does. -/
structure Orderly (x : ℕ → State) (input : ℕ → Cycle) (a b : ℕ) : Prop where
  loads : ∀ t, a ≤ t → t < b → (x (t + 1)).eng.idrQ =
    if (x t).recvLatch (input t).bus then (input t).bus.data else (x t).eng.idrQ
  asked : ∀ t, a ≤ t → t < b → (x t).recvLatch (input t).bus = true ∨
      (input a).port.sds = true ∧ begins x input t = true →
    (input t).bus.req = true ∧ (input t).bus.phase = (x t).regs.tcrPhase
  once : ∀ t u, a ≤ t → t < u → u < b →
    (x t).recvLatch (input t).bus = true ∧ (x u).recvLatch (input u).bus = true ∨
      begins x input t = true ∧ begins x input u = true →
    ∃ v, t < v ∧ v < u ∧ (input v).bus.req = false
  lasts : ∀ t u, a ≤ t → t < u → u ≤ b → begins x input t = true →
    (∀ v, t < v → v < u → (input v).bus.req = true) → acked x input u = true
  ends : ∀ t, a ≤ t → t < b → acked x input t = true → (input t).bus.req = false →
    acked x input (t + 1) = false
  counted : ∀ t, a ≤ t → t ≤ b →
    tally (begins x input) a t ≤ tally (fun v => (input v).port.acknowledges) a t
  mismatch : ∀ t, a ≤ t → t < b → (input t).bus.req = true →
    (∀ u, u + 1 = t → (input u).bus.req = false) →
    (input t).bus.phase ≠ (x t).regs.tcrPhase → (input t).port.rpi = false →
    (x (t + 1)).eng.irqQ = true

theorem run_reqQ (p : Params) (input : ℕ → Cycle) {t : ℕ}
    (low : ∀ u, u + 1 = t → (input u).bus.req = false) : (run p input t).eng.reqQ = false := by
  cases t with
  | zero => rfl
  | succ u =>
      rw [run_succ]
      cases pin : (input u).rst with
      | true => simp [clock, pin]
      | false => simp [clock, pin, State.next, State.nextEng, low u rfl]

section Orderly

variable {p : Params} {input : ℕ → Cycle} {a b t : ℕ}

/-- A byte is latched only after the start, in the stage that waits for one. -/
theorem Started.latch_cases (started : Started (run p input) input a b) (after : a ≤ t)
    (within : t < b) (latch : (run p input t).recvLatch (input t).bus = true) :
    a < t ∧ (run p input t).eng.dmaSt = .rWant ∧
      (run p input t).reqOk (input t).bus = true := by
  rcases Nat.lt_or_eq_of_le after with later | rfl
  · have active := started.active later (by omega)
    simp only [State.recvLatch, active.role, Bool.and_eq_true, beq_iff_eq] at latch
    exact ⟨later, latch.1, by simpa using latch.2⟩
  · simp [State.recvLatch, started.rest] at latch

theorem Started.loads (started : Started (run p input) input a b) (after : a ≤ t) (within : t < b) :
    (run p input (t + 1)).eng.idrQ =
      if (run p input t).recvLatch (input t).bus then (input t).bus.data
      else (run p input t).eng.idrQ := by
  rcases Nat.lt_or_eq_of_le after with later | rfl
  · exact (started.step later within).idr (started.active later (by omega))
  · have same : (run p input (a + 1)).eng.idrQ = (run p input a).eng.idrQ :=
      (State.active_of_start (started.regs a (Nat.le_refl a) (by omega))
        (started.regs (a + 1) (by omega) within).dma started.rest started.start).2.1
    rw [same]
    simp [State.recvLatch, started.rest]

theorem Started.asked (started : Started (run p input) input a b) (after : a ≤ t) (within : t < b)
    (event : (run p input t).recvLatch (input t).bus = true ∨
      (input a).port.sds = true ∧ begins (run p input) input t = true) :
    (input t).bus.req = true ∧ (input t).bus.phase = (run p input t).regs.tcrPhase := by
  have ok : (run p input t).reqOk (input t).bus = true := by
    rcases event with latch | ⟨send, now⟩
    · exact (started.latch_cases after within latch).2.2
    · obtain ⟨later, low, high⟩ := started.begins_cases after within now
      rcases (started.step later within).acks low high with ⟨st, _⟩ | ⟨_, ok⟩
      · have place := started.sends send later (by omega)
        simp [st] at place
      · exact ok
  simpa [State.reqOk, State.phaseMatch] using ok

theorem Started.once (started : Started (run p input) input a b) {u : ℕ} (after : a ≤ t)
    (later : t < u) (within : u < b)
    (events : (run p input t).recvLatch (input t).bus = true ∧
        (run p input u).recvLatch (input u).bus = true ∨
      begins (run p input) input t = true ∧ begins (run p input) input u = true) :
    ∃ v, t < v ∧ v < u ∧ (input v).bus.req = false := by
  by_contra none
  have high : ∀ v, t + 1 ≤ v → v < u → (input v).bus.req = true := by
    intro v low below
    by_contra off
    exact none ⟨v, low, below, by simpa using off⟩
  rcases events with ⟨first, second⟩ | ⟨first, second⟩
  · obtain ⟨begun, st, ok⟩ := started.latch_cases after (by omega) first
    have full : (run p input (t + 1)).eng.dmaSt = .rHave := by
      have step := started.step begun (t := t) (by omega)
      cases step with
      | latch _ _ st' => exact st'
      | wait _ off => simp [off] at ok
      | keep acks => rcases acks with other | other <;> simp [other] at st
      | release acks => rcases acks with other | other <;> simp [other] at st
      | _ => simp_all
    have held := started.byte_lasts (t := t + 1) (u := u) (by omega) (by omega) (.inl full) later high
    have free := (started.latch_cases (by omega) within second).2.1
    simp [free] at held
  · obtain ⟨begun, _, acks⟩ := started.begins_cases after (by omega) first
    have still := started.lasts (t := t + 1) (u := u) (by omega) (by omega) acks later high
    exact (started.begins_cases (by omega) within second).2.1 still

theorem Started.interrupts (started : Started (run p input) input a b) (after : a ≤ t)
    (within : t < b) (req : (input t).bus.req = true)
    (rises : ∀ u, u + 1 = t → (input u).bus.req = false)
    (other : (input t).bus.phase ≠ (run p input t).regs.tcrPhase)
    (unread : (input t).port.rpi = false) : (run p input (t + 1)).eng.irqQ = true := by
  have regs := started.regs t after (by omega)
  have pin := (State.clock_dma (p := p) (c := input t) regs.dma
    (started.regs (t + 1) (by omega) within).dma).1
  have fires : (run p input t).interrupts p (input t) = true := by
    simp [State.interrupts, State.phaseMismatchInt, State.phaseMatch, regs.dma, regs.role, req,
      run_reqQ p input rises, other]
  rw [run_succ, clock_irqQ, pin, unread, fires]
  simp

end Orderly

/-- Initiator DMA is orderly against every target. -/
theorem initiator_dma_orderly (p : Params) (input : ℕ → Cycle) (a b : ℕ)
    (started : Started (run p input) input a b) : Orderly (run p input) input a b := by
  constructor
  case loads =>
    intro t after within
    exact started.loads after within
  case asked =>
    intro t after within event
    exact started.asked after within event
  case once =>
    intro t u after later within events
    exact started.once after later within events
  case lasts =>
    intro t u after later within now high
    obtain ⟨begun, _, acks⟩ := started.begins_cases after (by omega) now
    refine (started.acked_iff (by omega) within).mpr ?_
    exact started.lasts (t := t + 1) (by omega) within acks later high
  case ends =>
    intro t after within now req
    rcases Nat.lt_or_eq_of_le after with later | rfl
    · have acks := (started.acked_iff later (by omega)).mp now
      have gone := (started.step later within).releases acks req
      cases still : acked (run p input) input (t + 1) with
      | false => rfl
      | true => exact absurd ((started.acked_iff (by omega) within).mp still) gone
    · simp [started.acked_first (by omega)] at now
  case counted =>
    intro t after within
    rcases Nat.lt_or_eq_of_le after with later | rfl
    · have bound := started.counted later within
      omega
    · simp
  case mismatch =>
    intro t after within req rises other unread
    exact started.interrupts after within req rises other unread

/-- DMA MODE is set, an initiator receive is started, and one byte is asked for and read. -/
def oneByte (t : ℕ) : Cycle where
  port :=
    match t with
    | 0 => { stb := true, we := true, adr := 2, dat := 0x02 }
    | 1 => { stb := true, we := true, adr := 7 }
    | 4 => { stb := true, dack := true }
    | _ => {}
  bus := { bsy := true, req := decide (2 ≤ t ∧ t ≤ 5), data := 0x5a }

/-- The byte is latched, and there is one pulse for one access. -/
theorem one_byte_orderly :
    (run {} oneByte 7).eng.idrQ = 0x5a ∧ tally (begins (run {} oneByte) oneByte) 1 8 = 1 ∧
      Orderly (run {} oneByte) oneByte 1 8 := by
  have stands : ∀ t < 9, 1 ≤ t → (run {} oneByte t).regs.dmaMode = true ∧
      (run {} oneByte t).regs.targetMode = false ∧ (run {} oneByte t).regs.icrAck = false ∧
      (run {} oneByte t).regs.testMode = false := by
    decide +kernel
  refine ⟨by decide +kernel, by decide +kernel, initiator_dma_orderly {} oneByte 1 8 ⟨?_, ?_, ?_⟩⟩
  · intro t low high
    obtain ⟨dma, role, ack, live⟩ := stands t (by omega) low
    exact ⟨dma, role, ack, live⟩
  · decide +kernel
  · exact .inl rfl

end Wish5380.Chip
