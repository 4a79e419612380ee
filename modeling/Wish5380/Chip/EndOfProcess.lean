import Wish5380.Chip.Interrupt

/-!
# End of Process without an acknowledge

EOP enters the engine in two places.  The END OF DMA latch asks for an acknowledge beside
it; the interrupt condition does not.  So of two runs whose EOP waveforms differ only in
cycles without a DACK access, the interrupt latch is the one place that can tell.
-/

namespace Wish5380.Chip

/-- A DACK access is strobed. -/
def Port.acknowledges (a : Port) : Bool :=
  a.dackRd || a.dackWr

/-- The same access with another level on the EOP pin. -/
def Port.withEop (a : Port) (eop : Bool) : Port :=
  { a with eop := eop }

/-- The same cycle with another level on the EOP pin. -/
def Cycle.withEop (c : Cycle) (eop : Bool) : Cycle :=
  { c with port := c.port.withEop eop }

namespace State

/-- EOP in this cycle makes no difference to the interrupt latch: the condition is disabled,
the latch is up or comes up anyway, or it is cleared. -/
def IgnoresEop (p : Params) (s : State) (c : Cycle) : Prop :=
  (s.regs.eopIntrEn = false ∨ s.regs.dmaMode = false) ∨
    (s.eng.irqQ = true ∨ s.interrupts p (c.withEop false) = true) ∨
    (c.rst = true ∨ c.port.rpi = true)

instance (p : Params) (s : State) (c : Cycle) : Decidable (s.IgnoresEop p c) :=
  inferInstanceAs (Decidable (_ ∨ _ ∨ _))

theorem interrupts_withEop (p : Params) (s : State) (c : Cycle) (eop : Bool) :
    s.interrupts p (c.withEop eop) =
      (s.interrupts p (c.withEop false) || (eop && s.regs.eopIntrEn && s.regs.dmaMode)) := by
  have csd : (c.port.withEop eop).csdRd = (c.port.withEop false).csdRd := rfl
  have same : s.parityInt (c.port.withEop eop) c.bus = s.parityInt (c.port.withEop false) c.bus := by
    simp [parityInt, csd]
  have off : s.eopInt (c.port.withEop false) = false := by simp [eopInt, Port.withEop]
  have on : s.eopInt (c.port.withEop eop) = (eop && s.regs.eopIntrEn && s.regs.dmaMode) := by
    simp [eopInt, Port.withEop, Bool.and_comm eop]
  simp only [interrupts, Cycle.withEop, same, off, on]
  cases s.selInt p c.bus <;> cases s.sclr c.bus <;> cases s.phaseMismatchInt c.bus <;>
    cases s.busyLost p c.bus <;> cases s.parityInt (c.port.withEop false) c.bus <;> simp

/-- The latch takes no notice of the pin exactly when it ignores it. -/
theorem irqQ_withEop_iff (p : Params) (s : State) (c : Cycle) :
    (clock p s (c.withEop true)).eng.irqQ = (clock p s (c.withEop false)).eng.irqQ ↔
      s.IgnoresEop p c := by
  have rpi (eop : Bool) : (c.port.withEop eop).rpi = c.port.rpi := rfl
  rw [clock_irqQ, clock_irqQ, interrupts_withEop p s c true]
  simp only [Cycle.withEop, rpi, IgnoresEop]
  cases c.rst <;> cases c.port.rpi <;> cases s.eng.irqQ <;> cases s.regs.eopIntrEn <;>
    cases s.regs.dmaMode <;> simp

/-- Everything but the latch is the same, whatever the pin does. -/
theorem clock_withEop (p : Params) (s : State) (c : Cycle) (quiet : c.port.acknowledges = false)
    (eop : Bool) :
    clock p s (c.withEop eop) = { clock p s (c.withEop false) with
      eng := { (clock p s (c.withEop false)).eng with
        irqQ := (clock p s (c.withEop eop)).eng.irqQ } } := by
  cases pin : c.rst with
  | true => simp [clock, Cycle.withEop, pin]
  | false =>
      simp only [Port.acknowledges, Bool.or_eq_false_iff] at quiet
      have dackRd (eop : Bool) : (c.port.withEop eop).dackRd = false := quiet.1
      have dackWr (eop : Bool) : (c.port.withEop eop).dackWr = false := quiet.2
      have ended (eop : Bool) : s.nextEndDma (c.port.withEop eop) c.bus =
          s.nextEndDma (c.port.withEop false) c.bus := by
        simp [nextEndDma, dackRd, dackWr]
      have regs : s.regs.next (c.port.withEop eop) c.bus.bsy (s.sclr c.bus) (s.busyLost p c.bus) =
          s.regs.next (c.port.withEop false) c.bus.bsy (s.sclr c.bus) (s.busyLost p c.bus) := rfl
      have dma : s.nextDma (c.port.withEop eop) c.bus = s.nextDma (c.port.withEop false) c.bus := rfl
      have parity : s.nextParErr p (c.port.withEop eop) c.bus =
          s.nextParErr p (c.port.withEop false) c.bus := rfl
      have busy : s.nextBusyErr p (c.port.withEop eop) c.bus =
          s.nextBusyErr p (c.port.withEop false) c.bus := rfl
      simp [clock, Cycle.withEop, pin, next, nextEng, regs, dma, parity, busy, ended eop]

/-- One edge: the two levels lead to the same state exactly when the latch ignores the pin. -/
theorem clock_withEop_iff (p : Params) (s : State) (c : Cycle) {eop : Bool}
    (quiet : c.port.acknowledges = false) (differs : eop ≠ c.port.eop) :
    clock p s (c.withEop eop) = clock p s c ↔ s.IgnoresEop p c := by
  have self : clock p s c = clock p s (c.withEop c.port.eop) := rfl
  have levels : clock p s (c.withEop true) = clock p s (c.withEop false) ↔ s.IgnoresEop p c := by
    rw [← irqQ_withEop_iff]
    refine ⟨fun same => by rw [same], fun same => ?_⟩
    rw [clock_withEop p s c quiet true, same]
  cases now : c.port.eop with
  | true =>
      obtain rfl : eop = false := by simpa [now] using differs
      rw [self, now, ← levels]
      exact eq_comm
  | false =>
      obtain rfl : eop = true := by simpa [now] using differs
      rw [self, now]
      exact levels

end State

/-- Two runs whose EOP waveforms differ only beside no acknowledge are the same in every
cycle exactly when the latch ignores the pin in every cycle in which they differ. -/
theorem eop_unnoticed_iff (p : Params) (input : ℕ → Cycle) (eop : ℕ → Bool)
    (apart : ∀ t, eop t ≠ (input t).port.eop → (input t).port.acknowledges = false) :
    (∀ t, run p (fun t => (input t).withEop (eop t)) t = run p input t) ↔
      ∀ t, eop t ≠ (input t).port.eop → (run p input t).IgnoresEop p (input t) := by
  constructor
  · intro same t differs
    have edge := same (t + 1)
    rw [run_succ, run_succ, same t] at edge
    exact (State.clock_withEop_iff p _ _ (apart t differs) differs).mp edge
  · intro ignores t
    induction t with
    | zero => rfl
    | succ t ih =>
        rw [run_succ, run_succ, ih]
        by_cases differs : eop t ≠ (input t).port.eop
        · exact (State.clock_withEop_iff p _ _ (apart t differs) differs).mpr (ignores t differs)
        · rw [not_not.mp differs]
          rfl

/-! ## EOP with the last byte, and EOP alone -/

/-- A target sends two bytes to a chip that has been set up for DMA with ENABLE EOP INTERRUPT; EOP
comes with the acknowledge of the second. -/
def twoReads (t : ℕ) : Cycle where
  port := match t with
    | 0 => { stb := true, we := true, adr := 3, dat := 0x01 }
    | 1 => { stb := true, we := true, adr := 2, dat := 0x0a }
    | 2 => { stb := true, we := true, adr := 7 }
    | 8 => { stb := true, dack := true }
    | 16 => { stb := true, dack := true, eop := true }
    | _ => {}
  bus := { bsy := true, io := true, req := decide (4 ≤ t ∧ t < 9 ∨ 12 ≤ t ∧ t < 17), data := 0xa5 }

/-- EOP stays high for eight cycles. -/
def eopLinger (t : ℕ) : Bool :=
  decide (16 ≤ t ∧ t < 24)

/-- The interrupt has come with the second byte, and EOP afterwards is not noticed. -/
theorem lingering_eop_unnoticed :
    (twoReads 8).port.acknowledges = true ∧ (twoReads 16).port.acknowledges = true ∧
      (run {} twoReads 16).eng.irqQ = false ∧ (run {} twoReads 17).eng.irqQ = true ∧
      (run {} twoReads 17).regs.dmaMode = true ∧
      ∀ t, run {} (fun t => (twoReads t).withEop (eopLinger t)) t = run {} twoReads t := by
  have within {t : ℕ} (differs : eopLinger t ≠ (twoReads t).port.eop) : 16 < t ∧ t < 24 := by
    by_contra outside
    refine differs ?_
    rcases Nat.lt_or_ge t 24 with low | high
    · have checked : ∀ t ≤ 16, eopLinger t = (twoReads t).port.eop := by decide
      exact checked t (by omega)
    · have off : eopLinger t = false := by
        simp [eopLinger]
        omega
      have silent : (twoReads t).port = {} := by
        simp only [twoReads]
        split <;> first | omega | rfl
      rw [off, silent]
  have ignored : ∀ t < 24, 16 < t → (run {} twoReads t).IgnoresEop {} (twoReads t) := by
    decide +kernel
  have apart : ∀ t < 24, 16 < t → (twoReads t).port.acknowledges = false := by decide
  refine ⟨rfl, rfl, by decide +kernel, by decide +kernel, by decide +kernel, ?_⟩
  refine (eop_unnoticed_iff {} twoReads eopLinger fun t differs => ?_).mpr fun t differs => ?_
  · exact apart t (within differs).2 (within differs).1
  · exact ignored t (within differs).2 (within differs).1

/-- A target holds BSY; the host sets DMA MODE and ENABLE EOP INTERRUPT and does nothing more. -/
def eopEnabled (t : ℕ) : Cycle :=
  { port := if t = 0 then { stb := true, we := true, adr := 2, dat := 0x0a } else {}
    bus := { bsy := true } }

/-- EOP for one cycle, with no access in it. -/
def eopPulse (t : ℕ) : Bool :=
  t == 1

/-- EOP on its own raises IRQ. -/
theorem eop_alone_interrupts :
    (∀ t, eopPulse t ≠ (eopEnabled t).port.eop → (eopEnabled t).port.acknowledges = false) ∧
      (run {} (fun t => (eopEnabled t).withEop (eopPulse t)) 2).eng.irqQ = true ∧
      (run {} eopEnabled 2).eng.irqQ = false := by
  refine ⟨fun t _ => ?_, by decide +kernel, by decide +kernel⟩
  unfold eopEnabled
  split_ifs <;> rfl

end Wish5380.Chip
