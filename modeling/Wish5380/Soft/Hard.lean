import Wish5380.Soft.Core

/-!
# The hardware alone on its bus

`wish5380` with nothing else on the fabric.  Every clock is a pass of the core, with
BSY believed once the counter has run out; and however the counter stands, enough
idle clocks take the core to where two passes take it at once.
-/

namespace Wish5380.Soft

/-- A register access: any register, and never a DACK cycle. -/
inductive Access where
  | read (reg : BitVec 3)
  | write (reg : BitVec 3) (val : Byte)
  deriving DecidableEq, Repr

/-- The access as the port sees it. -/
def Access.port : Access → Chip.Port
  | .read reg => { stb := true, adr := reg }
  | .write reg val => { stb := true, we := true, adr := reg, dat := val }

/-- The core of a chip. -/
def Core.of (s : Chip.State) : Core where
  regs := s.regs
  rst := s.eng.rstQ
  arb := s.eng.arbActive
  dmaSt := s.eng.dmaSt
  dmaTgt := s.eng.dmaTgt
  drq := s.eng.drqQ
  idr := s.eng.idrQ
  parErr := s.eng.parErrQ
  busyErr := s.eng.busyErrQ
  irq := s.eng.irqQ

namespace Hard

/-- The wires, when nobody else drives them. -/
def bus (s : Chip.State) : Scsi :=
  Chip.settle s {}

/-- One clock. -/
def clock (p : Chip.Params) (s : Chip.State) (a : Chip.Port) : Chip.State :=
  s.next p a (bus s)

/-- Clocks without an access. -/
def idle (p : Chip.Params) (n : ℕ) (s : Chip.State) : Chip.State :=
  (fun s => clock p s Core.quiet)^[n] s

theorem idle_succ (p : Chip.Params) (n : ℕ) (s : Chip.State) :
    idle p (n + 1) s = idle p n (clock p s Core.quiet) :=
  Function.iterate_succ_apply _ _ _

theorem idle_add (p : Chip.Params) (m n : ℕ) (s : Chip.State) :
    idle p (m + n) s = idle p m (idle p n s) :=
  Function.iterate_add_apply _ _ _ _

/-! ## The counter -/

/-- BSY has been false for a bus free delay. -/
def believed (p : Chip.Params) (s : Chip.State) : Bool :=
  decide (p.tBusFree ≤ s.eng.freeCnt)

/-- What the core leaves out stays at rest, and the counter in range. -/
structure Quiet (p : Chip.Params) (s : Chip.State) : Prop where
  la : s.eng.laQ = false
  endDma : s.eng.endDmaQ = false
  counter : s.eng.freeCnt ≤ p.tBusFree
  waiting : (Core.of s).Waiting

section Clock

variable {p : Chip.Params} {s : Chip.State} {a : Chip.Port}

theorem bus_of (s : Chip.State) : (Core.of s).bus = bus s := by
  have same : ∀ b, (Core.of s).chip.drive b = s.drive b :=
    Core.drive_eq_of rfl rfl (fun _ => rfl) (fun _ => rfl)
  simp only [Core.bus, bus, Chip.settle, same]

/-- The count of the clocks without BSY. -/
theorem clock_freeCnt (counter : s.eng.freeCnt ≤ p.tBusFree) :
    (clock p s a).eng.freeCnt =
      if (Core.of s).bus.bsy then 0 else min (s.eng.freeCnt + 1) p.tBusFree := by
  have width : p.tBusFree < 2 ^ p.cntW := by
    have bound := p.nBusFree_eq
    rw [← bound, Chip.Params.nBusFree]
    exact Nat.mod_lt _ (Nat.two_pow_pos _)
  rw [bus_of]
  show s.nextFreeCnt p (bus s) = _
  rw [Chip.State.nextFreeCnt, Chip.Params.nMax_eq]
  split_ifs with bsy full
  · rfl
  · rw [Nat.mod_eq_of_lt (by omega)]
    omega
  · omega

/-- No parity is checked for a handshake that DMA MODE has let go. -/
def Calm (k : Core) : Prop :=
  k.regs.dmaMode = false → k.chip.recvLatch k.bus = true → k.parityErr = false

theorem selInt_of (s : Chip.State) :
    s.selInt p (bus s) = (Core.of s).selInt (believed p s) := by
  rw [Chip.State.selInt, Core.selInt, bus_of, Chip.State.bsySettledFalse, Chip.Params.nBusSettle_eq]
  show (s.selMatch (bus s) && _) = (_ && s.selMatch (bus s))
  rw [believed, Chip.State.selMatch]
  cases (bus s).bsy <;> simp [Bool.and_comm]

theorem busyLost_of (s : Chip.State) :
    s.busyLost p (bus s) = (Core.of s).busyLost (believed p s) := by
  rw [Chip.State.busyLost, Core.busyLost, bus_of, Chip.State.bsySettledFalse, Chip.Params.nBusSettle_eq,
    believed]
  show (s.regs.monitorBsy && _ && !s.eng.busyErrQ) = (s.regs.monitorBsy && _ && _ && !s.eng.busyErrQ)
  cases s.regs.monitorBsy <;> simp

theorem begins_of (s : Chip.State) :
    (s.busFree p (bus s) && !(bus s).sel) =
      (Core.of s).begins (believed p s) := by
  rw [Chip.State.busFree, Core.begins, bus_of, Chip.Params.nBusFree_eq, believed]

/-- Alone on the bus an initiator sees no REQ, and so no phase mismatch. -/
theorem mismatch_of (s : Chip.State) : s.phaseMismatchInt (bus s) = false := by
  rw [← bus_of, Chip.State.phaseMismatchInt, Core.bus_req]
  show (_ && !s.regs.targetMode && (_ && s.regs.targetMode && _) && _ && _) = false
  cases s.regs.targetMode <;> simp

/-- What the parity check adds. -/
theorem parity_of (calm : Calm (Core.of s)) (b : Bool) :
    (s.regs.parChk && Chip.State.parityBad (bus s) &&
        (b || s.recvLatch (bus s))) =
      ((Core.of s).parityErr && (b || (Core.of s).latch)) := by
  have bad : (Core.of s).parityErr =
      (s.regs.parChk && Chip.State.parityBad (bus s)) := by
    rw [Core.parityErr, bus_of]
    rfl
  have raw : (Core.of s).chip.recvLatch (Core.of s).bus = s.recvLatch (bus s) := by
    rw [bus_of]
    rfl
  rw [Core.latch, raw, ← bad]
  cases on : (Core.of s).regs.dmaMode with
  | true => simp
  | false =>
      cases latches : s.recvLatch (bus s) with
      | false => simp
      | true => simp [calm on (raw.trans latches)]

/-- The handshake of the core is the chip's. -/
theorem dmaStep_of (s : Chip.State) (b : Scsi) :
    (Core.of s).chip.dmaStep a b = { s.dmaStep a b with
      reqQ := false, freeCnt := 0, laQ := false, endDmaQ := false } := by
  have latch : (Core.of s).chip.recvLatch b = s.recvLatch b := rfl
  have reqOk : (Core.of s).chip.reqOk b = s.reqOk b := rfl
  obtain ⟨regs, reqQ, rstQ, freeCnt, arbActive, laQ, dmaSt, dmaTgt, drqQ, idrQ⟩ := s
  simp only [Chip.State.dmaStep, latch, reqOk]
  generalize Chip.State.recvLatch _ b = latches
  generalize Chip.State.reqOk _ b = asked
  cases dmaSt with
  | idle => cases a.sds <;> cases a.sdtr <;> cases a.sdir <;> rfl
  | sWant => cases a.dackWr <;> rfl
  | sHave => cases dmaTgt <;> cases asked <;> rfl
  | sHs => cases dmaTgt <;> cases b.ack <;> cases b.req <;> rfl
  | sTrel => cases b.ack <;> rfl
  | rWant => cases latches <;> rfl
  | rHave => cases a.dackRd <;> rfl
  | rHs => cases dmaTgt <;> cases b.ack <;> cases b.req <;> rfl

theorem dma_of (s : Chip.State) (calm : s.sclr (bus s) = false) :
    (Core.of s).dma a = { s.nextDma a (bus s) with
      reqQ := false, freeCnt := 0, laQ := false, endDmaQ := false } := by
  have mode : (Core.of s).regs.dmaMode = s.regs.dmaMode := rfl
  rw [Core.dma, bus_of, mode, dmaStep_of]
  cases on : s.regs.dmaMode with
  | false => simp [Chip.State.nextDma, calm, on, Core.chip, Core.of]
  | true => simp [Chip.State.nextDma, calm, on]

/-- One clock is a pass of the core. -/
theorem of_clock (calm : Calm (Core.of s)) (eop : a.eop = false)
    (rpi : (Core.of s).sclr = true → a.rpi = false) :
    Core.of (clock p s a) =
      { (Core.of s).tick (believed p s) a with regs := (clock p s a).regs } := by
  have sclr : s.sclr (bus s) = (Core.of s).sclr := by
    rw [Core.sclr, bus_of]
    rfl
  cases rises : (Core.of s).sclr with
  | true =>
      rw [rises] at sclr
      have rst : (bus s).rst = true := by
        rw [Chip.State.sclr, Bool.and_eq_true] at sclr
        exact sclr.1
      rw [Core.tick_of_sclr rises]
      simp [Core.of, clock, Chip.State.next, Chip.State.nextEng, Chip.State.nextArb,
        Chip.State.nextDma, Chip.State.nextParErr, Chip.State.nextBusyErr, Chip.State.nextIrq, sclr,
        rst, Core.cleared, rpi rises]
  | false =>
      rw [rises] at sclr
      have dma := dma_of (a := a) s sclr
      rw [Core.tick_of_calm rises]
      ext1
      · rfl
      · show (bus s).rst = (Core.of s).bus.rst
        rw [bus_of]
      · show (s.nextArb p (bus s)).1 = (s.regs.arbitrate && (s.eng.arbActive || _))
        rw [← begins_of]
        cases on : s.regs.arbitrate <;> simp [Chip.State.nextArb, sclr, on]
      · show (s.nextDma a (bus s)).dmaSt = ((Core.of s).dma a).dmaSt
        rw [dma]
      · show (s.nextDma a (bus s)).dmaTgt = ((Core.of s).dma a).dmaTgt
        rw [dma]
      · show (s.nextDma a (bus s)).drqQ = ((Core.of s).dma a).drqQ
        rw [dma]
      · show (s.nextDma a (bus s)).idrQ = ((Core.of s).dma a).idrQ
        rw [dma]
      · show s.nextParErr p a (bus s) = (!a.rpi && (s.eng.parErrQ || _))
        cases read : a.rpi with
        | true => simp [Chip.State.nextParErr, read]
        | false =>
            have check := parity_of calm (a.csdRd || s.selInt p (bus s))
            rw [Bool.or_right_comm] at check
            rw [Chip.State.nextParErr, sclr, read, check, selInt_of, Bool.or_right_comm]
            simp
      · show s.nextBusyErr p a (bus s) = (!a.rpi && (s.eng.busyErrQ || _))
        rw [← busyLost_of]
        cases read : a.rpi <;> simp [Chip.State.nextBusyErr, sclr, read]
      · show s.nextIrq p a (bus s) = (!a.rpi && (s.eng.irqQ || _ ||
          _ && s.regs.parIntrEn && _ || _))
        have check := parity_of calm a.csdRd
        have raised : s.parityInt a (bus s) =
            ((Core.of s).parityErr && s.regs.parIntrEn && (a.csdRd || (Core.of s).latch)) := by
          rw [Bool.and_right_comm, ← check, Chip.State.parityInt]
          cases s.regs.parIntrEn <;> simp
        have eopInt : s.eopInt a = false := by simp [Chip.State.eopInt, eop]
        rw [← raised, ← busyLost_of, ← selInt_of, Chip.State.nextIrq, sclr, mismatch_of, eopInt]
        cases read : a.rpi <;> simp

/-- A reset clears all that a loss of BSY clears. -/
theorem scsiClear_busyClear (r : Chip.Regs) : r.scsiClear.busyClear = r.scsiClear := by
  have icr : r.icr &&& 0x80 &&& 0xc0 = r.icr &&& 0x80 := by
    rw [BitVec.and_assoc]
    rfl
  simp only [Chip.Regs.scsiClear, Chip.Regs.busyClear, icr]
  rfl

theorem of_idle (calm : Calm (Core.of s)) :
    Core.of (clock p s Core.quiet) = (Core.of s).tick (believed p s) Core.quiet := by
  rw [of_clock calm rfl (fun _ => rfl)]
  have sclr : s.sclr (bus s) = (Core.of s).sclr := by
    rw [Core.sclr, bus_of]
    rfl
  have regs : (clock p s Core.quiet).regs =
      ((Core.of s).tick (believed p s) Core.quiet).regs := by
    show s.regs.next Core.quiet (bus s).bsy (s.sclr (bus s)) (s.busyLost p (bus s)) = _
    rw [sclr, busyLost_of]
    cases rises : (Core.of s).sclr with
    | true =>
        rw [Core.tick_of_sclr rises]
        simp only [Chip.Regs.next, if_true, scsiClear_busyClear, ite_self]
        rfl
    | false =>
        rw [Core.tick_of_calm rises]
        rfl
  rw [regs]

theorem Quiet.clock (counts : Quiet p s) (calm : Calm (Core.of s)) (dack : a.dack = false)
    (eop : a.eop = false) (rpi : (Core.of s).sclr = true → a.rpi = false) :
    Quiet p (clock p s a) := by
  have sel : (bus s).sel = (s.drive (bus s)).sel := by
    have fixed := (Core.of s).bus_eq
    rw [bus_of] at fixed
    exact congrArg Scsi.sel fixed
  refine ⟨?_, ?_, ?_, ?_⟩
  · show (s.nextArb p (bus s)).2 = false
    rw [Chip.State.nextArb, counts.la, ← sel]
    split_ifs
    · rfl
    · rfl
    · cases (bus s).sel <;> simp
  · show s.nextEndDma a (bus s) = false
    rw [Chip.State.nextEndDma, counts.endDma, eop]
    split_ifs <;> rfl
  · rw [clock_freeCnt counts.counter]
    split_ifs
    · omega
    · omega
  · rw [of_clock calm eop rpi]
    exact counts.waiting.tick_access dack

end Clock

/-! ## Idle clocks -/

section Idle

variable {p : Chip.Params} {s : Chip.State}

/-- A loss of BSY raises no line that a receive waits for. -/
theorem line_busyClear (r : Chip.Regs) (tgt : Bool) :
    Core.line r.busyClear tgt = true → Core.line r tgt = true := by
  have test : r.busyClear.testMode = r.testMode := (Core.busyClear_bits r).2
  have role : r.busyClear.targetMode = r.targetMode := by
    simp [Chip.Regs.busyClear, Chip.Regs.targetMode]
  have ack : r.busyClear.icrAck = false := by
    simp [Chip.Regs.busyClear, Chip.Regs.icrAck]
  cases tgt with
  | true => simp [Core.line, ack]
  | false =>
      rw [Core.line, Core.line, test, role]
      exact fun up => up

/-- A pass leaves no parity to be checked for a handshake that is over. -/
theorem calm_tick {f : Bool} {k : Core} (waiting : k.Waiting) : Calm (k.tick f Core.quiet) := by
  cases rises : k.sclr with
  | true =>
      intro _ latches
      rw [Core.tick_of_sclr rises] at latches
      simp [Chip.State.recvLatch, Core.chip, Core.cleared] at latches
  | false =>
      intro off latches
      rw [Core.tick_of_calm rises] at off latches
      rw [waiting.moved.recvLatch, Bool.and_eq_true, beq_iff_eq] at latches
      obtain ⟨st, up⟩ := latches
      have regs : (k.moved f Core.quiet).regs =
          if k.busyLost f then k.regs.busyClear else k.regs := rfl
      simp only [Core.moved, waiting.dma_rest] at st up
      cases on : k.regs.dmaMode with
      | false => simp [on] at st
      | true =>
          cases latch : k.latch with
          | true => simp [on, latch] at st
          | false =>
              simp only [on, latch, if_true, Bool.false_eq_true, if_false] at st up
              cases lost : k.busyLost f with
              | false =>
                  rw [regs, lost, if_neg Bool.false_ne_true, on] at off
                  cases off
              | true =>
                  rw [lost, if_pos rfl] at up
                  have before := line_busyClear _ _ up
                  rw [waiting.latch_eq, on] at latch
                  rw [show k.chip.eng.dmaTgt = k.dmaTgt from rfl] at before
                  rw [show k.chip.eng.dmaSt = k.dmaSt from rfl] at st
                  simp [st, before] at latch

theorem Quiet.clock_idle (counts : Quiet p s) (calm : Calm (Core.of s)) :
    Quiet p (Hard.clock p s Core.quiet) ∧ Calm (Core.of (Hard.clock p s Core.quiet)) := by
  refine ⟨counts.clock calm rfl rfl (fun _ => rfl), ?_⟩
  rw [of_idle calm]
  exact calm_tick counts.waiting

/-- BSY is true, or has been false for long enough. -/
def Ready (p : Chip.Params) (s : Chip.State) : Prop :=
  (Core.of s).bus.bsy = true ∨ p.tBusFree ≤ s.eng.freeCnt

/-- Then BSY is as good as believed. -/
theorem Ready.of_idle (ready : Ready p s) (calm : Calm (Core.of s)) :
    Core.of (clock p s Core.quiet) = (Core.of s).tick true Core.quiet := by
  rw [Hard.of_idle calm]
  rcases ready with bsy | free
  · have lost : ∀ f, (Core.of s).busyLost f = false := by
      intro f
      simp [Core.busyLost, bsy]
    have sel : ∀ f, (Core.of s).selInt f = false := by
      intro f
      simp [Core.selInt, Chip.State.selMatch, bsy]
    have begins : ∀ f, (Core.of s).begins f = false := by
      intro f
      simp [Core.begins, bsy]
    simp only [Core.tick, Core.moved, lost, sel, begins]
  · rw [believed, decide_eq_true free]

/-- BSY only goes away by a reset, after which nothing is left to do. -/
theorem Ready.clock (ready : Ready p s) (counts : Quiet p s) (calm : Calm (Core.of s)) :
    Ready p (clock p s Core.quiet) ∨ (Core.of (clock p s Core.quiet)).Settled := by
  cases rises : (Core.of s).sclr with
  | true =>
      right
      rw [ready.of_idle calm, Core.tick_of_sclr rises]
      exact Core.cleared_tick true rises
  | false =>
      left
      cases bsy : (Core.of s).bus.bsy with
      | false =>
          right
          rcases ready with up | free
          · rw [up] at bsy
            cases bsy
          · rw [clock_freeCnt counts.counter, bsy, if_neg Bool.false_ne_true]
            omega
      | true =>
          left
          rw [ready.of_idle calm, Core.tick_of_calm rises]
          have lost : (Core.of s).busyLost true = false := by simp [Core.busyLost, bsy]
          rw [Core.bus_bsy, Core.moved_regs lost]
          rw [Core.bus_bsy] at bsy
          revert bsy
          simp only [Core.moved]
          cases (Core.of s).regs.testMode <;> cases (Core.of s).regs.icrBsy <;>
            cases (Core.of s).arb <;> cases (Core.of s).regs.arbitrate <;> simp

/-- An idle clock changes nothing about it. -/
theorem bound_clock (counts : Quiet p s) (calm : Calm (Core.of s)) :
    (Core.of (clock p s Core.quiet)).bound = (Core.of s).bound := by
  rw [of_idle calm]
  cases believed p s with
  | false => rw [Core.bound, counts.waiting.tick_tick, Core.bound]
  | true => exact counts.waiting.bound_tick

theorem Quiet.idle (counts : Quiet p s) (calm : Calm (Core.of s)) (n : ℕ) :
    Quiet p (idle p n s) ∧ Calm (Core.of (idle p n s)) ∧
      (Core.of (idle p n s)).bound = (Core.of s).bound := by
  induction n generalizing s with
  | zero => exact ⟨counts, calm, rfl⟩
  | succ n ih =>
      obtain ⟨counts', calm'⟩ := counts.clock_idle calm
      rw [idle_succ, ← bound_clock counts calm]
      exact ih counts' calm'

theorem idle_settled (settled : (Core.of s).Settled) (counts : Quiet p s)
    (calm : Calm (Core.of s)) (n : ℕ) : Core.of (idle p n s) = Core.of s := by
  induction n generalizing s with
  | zero => rfl
  | succ n ih =>
      obtain ⟨counts', calm'⟩ := counts.clock_idle calm
      have same : Core.of (clock p s Core.quiet) = Core.of s := by
        rw [of_idle calm]
        exact settled.stays _
      rw [idle_succ, ih (by rw [same]; exact settled) counts' calm', same]

/-- Two clocks settle a chip that is ready. -/
theorem Ready.settles (ready : Ready p s) (counts : Quiet p s) (calm : Calm (Core.of s)) :
    (Core.of (idle p 2 s)).Settled := by
  obtain ⟨_, calm'⟩ := counts.clock_idle calm
  show (Core.of (Hard.clock p (Hard.clock p s Core.quiet) Core.quiet)).Settled
  rcases ready.clock counts calm with again | settled
  · rw [again.of_idle calm', ready.of_idle calm]
    exact counts.waiting.settles
  · rw [Hard.of_idle calm', settled.stays]
    exact settled

/-- The counter runs out, and two clocks later the chip has settled. -/
theorem idle_settles (counts : Quiet p s) (calm : Calm (Core.of s)) {n : ℕ}
    (enough : p.tBusFree - s.eng.freeCnt + 2 ≤ n) : (Core.of (idle p n s)).Settled := by
  induction n generalizing s with
  | zero => omega
  | succ n ih =>
      by_cases ready : Ready p s
      · have split : n + 1 = n - 1 + 2 := by omega
        have settled := ready.settles counts calm
        obtain ⟨counts', calm', _⟩ := counts.idle calm 2
        rw [split, idle_add, idle_settled settled counts' calm']
        exact settled
      · simp only [Ready, not_or, Bool.not_eq_true, not_le] at ready
        obtain ⟨counts', calm'⟩ := counts.clock_idle calm
        rw [idle_succ]
        refine ih counts' calm' ?_
        rw [clock_freeCnt counts.counter, ready.1, if_neg Bool.false_ne_true]
        omega

/-- Where enough idle clocks take the chip. -/
theorem of_idle_enough (counts : Quiet p s) (calm : Calm (Core.of s)) {n : ℕ}
    (enough : p.tBusFree + 4 ≤ n) : Core.of (idle p n s) = (Core.of s).bound := by
  have settled := idle_settles counts calm (n := n) (by omega)
  rw [← (counts.idle calm n).2.2, Core.bound]
  rw [Core.Settled] at settled
  rw [settled, settled]

end Idle

/-! ## An access -/

/-- A Mode Register write that ends DMA MODE under a receive, and makes the line the
receive waits for true by the same stroke, lets the parity of an undriven bus be
checked for a byte that is not latched. -/
def Stray (s : Chip.State) : Access → Prop
  | .read _ => False
  | .write reg val =>
      let w : Chip.State := { s with regs := s.regs.write (Access.write reg val).port (bus s).bsy }
      w.regs.dmaMode = false ∧ w.recvLatch (bus w) = true ∧
        (w.regs.parChk && Chip.State.parityBad (bus w)) = true

instance (s : Chip.State) (a : Access) : Decidable (Stray s a) :=
  match a with
  | .read _ => inferInstanceAs (Decidable False)
  | .write _ _ => inferInstanceAs (Decidable (_ ∧ _ ∧ _))

section Step

variable {p : Chip.Params} {s : Chip.State}

theorem calm_of_settled {k : Core} (settled : k.Settled) : Calm k := by
  intro off latches
  have st : k.chip.eng.dmaSt = .idle := settled.idle off
  simp [Chip.State.recvLatch, st] at latches

/-- The clock of an access. -/
theorem of_access (settled : (Core.of s).Settled) (a : Access) :
    Core.of (clock p s a.port) = (Core.of s).access a.port := by
  have eop : a.port.eop = false := by cases a <;> rfl
  have stb : a.port.stb = true := by cases a <;> rfl
  have calm := settled.calm
  have sclr : s.sclr (bus s) = false := by
    rw [Core.sclr, bus_of] at calm
    exact calm
  have regs : (clock p s a.port).regs =
      if a.port.we then s.regs.write a.port (bus s).bsy else s.regs := by
    show s.regs.next a.port (bus s).bsy (s.sclr (bus s)) (s.busyLost p (bus s)) = _
    rw [sclr, busyLost_of, settled.kept]
    simp [Chip.Regs.next, stb]
  rw [of_clock (calm_of_settled settled) eop (fun rises => by rw [rises] at calm; cases calm),
    regs, settled.tick_any, Core.access, bus_of]
  rfl

/-- A strobe on a settled chip leaves nothing to go astray; neither does a write that
is not one of the above. -/
theorem calm_access (settled : (Core.of s).Settled) {a : Access} (clear : ¬ Stray s a) :
    Calm ((Core.of s).access a.port) := by
  intro off latches
  cases on : (Core.of s).regs.dmaMode with
  | false =>
      have st : ((Core.of s).access a.port).dmaSt = .idle := by
        rw [Core.access, Core.tick_of_calm settled.calm]
        simp [Core.moved, Core.dma, on]
      have is : ((Core.of s).access a.port).chip.eng.dmaSt = .idle := st
      simp [Chip.State.recvLatch, is] at latches
  | true =>
      cases a with
      | read reg =>
          rw [show ((Core.of s).access (Access.read reg).port).regs = (Core.of s).regs from rfl,
            on] at off
          cases off
      | write reg val =>
          have mode : reg = 2 := by
            by_contra other
            have away : reg.toNat ≠ 2 := fun is => other (BitVec.eq_of_toNat_eq is)
            have same : ((Core.of s).access (Access.write reg val).port).regs.mr = s.regs.mr := by
              show (s.regs.write (Access.write reg val).port _).mr = s.regs.mr
              rw [Chip.Regs.write_mr_eq, if_neg (fun is => away is.2)]
            rw [Chip.Regs.dmaMode, same, ← Chip.Regs.dmaMode] at off
            rw [show (Core.of s).regs.dmaMode = s.regs.dmaMode from rfl, off] at on
            cases on
          have plain : Core.Unstrobed (Access.write reg val).port := by
            subst mode
            exact ⟨rfl, rfl, rfl, rfl, rfl, rfl⟩
          have is : (Core.of s).access (Access.write reg val).port =
              Core.of { s with regs := s.regs.write (Access.write reg val).port (bus s).bsy } := by
            rw [settled.access_unstrobed plain rfl, bus_of]
            rfl
          rw [is] at off latches ⊢
          rw [bus_of] at latches
          by_contra bad
          refine clear ⟨off, latches, ?_⟩
          rw [Core.parityErr, bus_of] at bad
          exact eq_true_of_ne_false bad

/-- An access and enough idle clocks. -/
theorem settled_step (settled : (Core.of s).Settled) (counts : Quiet p s) {a : Access}
    (clear : ¬ Stray s a) {gap : ℕ} (enough : p.tBusFree + 4 ≤ gap) :
    Core.of (idle p gap (clock p s a.port)) = ((Core.of s).access a.port).bound ∧
      (Core.of (idle p gap (clock p s a.port))).Settled ∧
      Quiet p (idle p gap (clock p s a.port)) := by
  have dack : a.port.dack = false := by cases a <;> rfl
  have eop : a.port.eop = false := by cases a <;> rfl
  have low := settled.calm
  have counts' : Quiet p (clock p s a.port) :=
    counts.clock (calm_of_settled settled) dack eop (fun rises => by rw [rises] at low; cases low)
  have is := of_access (p := p) settled a
  have calm' : Calm (Core.of (clock p s a.port)) := by
    rw [is]
    exact calm_access settled clear
  have core := of_idle_enough counts' calm' enough
  refine ⟨by rw [core, is], ?_, (counts'.idle calm' gap).1⟩
  rw [core]
  exact counts'.waiting.settles

end Step

end Hard

end Wish5380.Soft
