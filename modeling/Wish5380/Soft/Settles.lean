import Wish5380.Soft.Passes

/-!
# The settle loop settles

With no device on the bus every call of `ncr5380.c` comes to rest.  A pass without a strobe that
reports news takes something from a store that nothing refills, so there are few of them; and a
pass that reports none has left nothing for another to do.
-/

namespace Wish5380.Soft

namespace State

variable {c : State}

/-! ## One pass, with EOP and DACK -/

def parityBad (c : State) : Bool :=
  c.wires.dbp != Soft.dbp c.wires.data

def selInt (c : State) : Bool :=
  c.wires.sel && !c.wires.bsy && has c.wires.data c.ser && !c.wires.bsy

def busyLost (c : State) : Bool :=
  has c.mr mrMonBsy && !c.wires.bsy && !c.busyErr

/-- The conditions of the interrupt latch that last, and those of one pass. -/
def raises (c : State) : Bool :=
  c.selInt || (has c.mr mrEopIntr && c.eop && has c.mr mrDma) ||
    (has c.mr mrParChk && has c.mr mrParIntr && c.parityBad && (c.stCsdRd || c.recvLatch)) ||
    (has c.mr mrDma && !has c.mr mrTarget && (c.wires.req && !c.prevReq) && !c.phaseMatch) ||
    c.busyLost

/-- A pass without a reset of the bus. -/
def advance (c : State) : State :=
  consume { c with
    prevReq := c.wires.req
    prevRst := c.wires.rst
    arbActive := has c.mr mrArb && (c.arbActive || c.starts)
    lostArb := has c.mr mrArb && c.lostArb
    aip := has c.mr mrArb && (c.arbActive || c.starts)
    arbId := if c.starts then c.odr else c.arbId
    toHandshake := c.dmaNext
    endDma := c.ends
    parErr := !c.stRpi && (c.parErr ||
      has c.mr mrParChk && c.parityBad && (c.stCsdRd || c.recvLatch || c.selInt))
    busyErr := !c.stRpi && (c.busyErr || c.busyLost)
    icr := if c.busyLost then c.icr &&& 0xc0 else c.icr
    mr := if c.busyLost then c.mr &&& 0xfd else c.mr
    irqLatch := !c.stRpi && (c.irqLatch || c.raises)
    dirty := c.dirty || c.starts || c.dmaNews || c.stRpi || c.busyLost ||
      (!c.stRpi && c.raises && !c.irqLatch) }

theorem tick_advance (own : c.drv.sel = c.wires.sel) (calm : (c.wires.rst && !c.prevRst) = false) :
    c.tick = c.advance := by
  let seen : State := { c with prevReq := c.wires.req, prevRst := c.wires.rst }
  let arb : State := { seen with
    arbActive := has c.mr mrArb && (c.arbActive || c.starts)
    lostArb := has c.mr mrArb && c.lostArb
    aip := has c.mr mrArb && (c.arbActive || c.starts)
    arbId := if c.starts then c.odr else c.arbId
    dirty := c.dirty || c.starts }
  have first : seen.tickArb = arb := tickArb_own (c := seen) own
  have second : arb.tickDma =
      { arb with
        toHandshake := c.dmaNext, endDma := c.ends, dirty := c.dirty || c.starts || c.dmaNews } :=
    tickDma_all (c := arb)
  simp only [tick, calm, Bool.false_eq_true, if_false]
  rw [show State.tickArb { c with prevReq := c.wires.req, prevRst := c.wires.rst } = arb from first,
    second, tickLatches_eq, tickIrq_eq]
  rfl

/-! ## The handshake by itself -/

/-- A handshake that stays where it is stays as it is. -/
theorem dmaSwitch_rests (still : c.dmaSwitch.dmaSt = c.dmaSt) : c.dmaSwitch = c.toHandshake := by
  unfold dmaSwitch at still ⊢
  cases st : c.dmaSt <;> simp only [st] at still ⊢ <;> split_ifs at still ⊢ <;> rfl

/-- How far a handshake can go before it needs a strobe. -/
def steps : Chip.DmaSt → ℕ
  | .idle => 0
  | .sWant => 2
  | .rHave => 2
  | .sTrel => 4
  | .rWant => 4
  | .sHs => 6
  | .rHs => 6
  | .sHave => 8

theorem dmaSwitch_spends (quiet : Raised Core.quiet c) (moves : c.dmaSwitch.dmaSt ≠ c.dmaSt) :
    steps c.dmaSwitch.dmaSt + 2 ≤ steps c.dmaSt := by
  have sds : c.stSds = false := quiet.sds
  have sdtr : c.stSdtr = false := quiet.sdtr
  have sdir : c.stSdir = false := quiet.sdir
  have dackRd : c.stDackRd = false := quiet.dackRd
  have dackWr : c.stDackWr = false := quiet.dackWr
  cases st : c.dmaSt with
  | idle => simp [dmaSwitch, st, sds, sdtr, sdir] at moves
  | sWant => simp [dmaSwitch, st, dackWr] at moves
  | rHave => simp [dmaSwitch, st, dackRd] at moves
  | sHave =>
      simp only [dmaSwitch, st] at moves ⊢
      split_ifs at moves ⊢
      · simp [steps]
      · exact absurd st moves
  | sHs =>
      simp only [dmaSwitch, st] at moves ⊢
      split_ifs at moves ⊢
      · simp [steps]
      · exact absurd st moves
      · simp [steps]
      · exact absurd st moves
  | sTrel =>
      simp only [dmaSwitch, st] at moves ⊢
      split_ifs at moves ⊢
      · simp [steps]
      · exact absurd st moves
  | rWant =>
      simp only [dmaSwitch, st] at moves ⊢
      split_ifs at moves ⊢
      · simp [steps]
      · exact absurd st moves
  | rHs =>
      simp only [dmaSwitch, st] at moves ⊢
      split_ifs at moves ⊢
      · simp [steps]
      · exact absurd st moves
      · simp [steps]
      · exact absurd st moves

theorem dmaNext_rests (still : c.dmaNews = false) : c.dmaNext = c.toHandshake := by
  unfold dmaNews at still
  unfold dmaNext
  split_ifs at still ⊢ with on
  · exact dmaSwitch_rests (by simpa using still)
  · simp only [Bool.or_eq_false_iff, bne_eq_false_iff_eq] at still
    rw [← still.1, ← still.2]

theorem dmaNext_spends (quiet : Raised Core.quiet c) :
    steps c.dmaNext.dmaSt + c.dmaNext.drqRaw.toNat + c.dmaNews.toNat ≤
      steps c.dmaSt + c.drqRaw.toNat := by
  cases news : c.dmaNews with
  | false =>
      rw [dmaNext_rests news]
      rfl
  | true =>
      have one : c.dmaNext.drqRaw.toNat ≤ 1 := Bool.toNat_le _
      unfold dmaNews at news
      unfold dmaNext at one ⊢
      split_ifs at news one ⊢ with on
      · have spent := dmaSwitch_spends quiet (by simpa using news)
        simp only [Bool.toNat_true]
        omega
      · revert news
        cases c.dmaSt <;> cases c.drqRaw <;> simp [steps]

/-! ## What is left to happen -/

/-- The reset, the loss of BSY, the arbitration, the interrupt and the steps of the handshake that
are still to come. -/
def energy (c : State) : ℕ :=
  (!has c.icr icrTest && has c.icr icrRst && !c.prevRst).toNat +
    (has c.mr mrMonBsy && !c.busyErr).toNat + (has c.mr mrArb && !c.arbActive).toNat +
    (!c.irqLatch).toNat + (steps c.dmaSt + c.drqRaw.toNat)

theorem energy_le (c : State) : c.energy ≤ 13 := by
  have rst := Bool.toNat_le (!has c.icr icrTest && has c.icr icrRst && !c.prevRst)
  have busy := Bool.toNat_le (has c.mr mrMonBsy && !c.busyErr)
  have arb := Bool.toNat_le (has c.mr mrArb && !c.arbActive)
  have irq := Bool.toNat_le (!c.irqLatch)
  have drq := Bool.toNat_le c.drqRaw
  have dma : steps c.dmaSt ≤ 8 := by cases c.dmaSt <;> decide
  unfold energy
  omega

theorem masked (icr mr : Byte) :
    has (icr &&& 0xc0) icrTest = has icr icrTest ∧ has (icr &&& 0xc0) icrRst = has icr icrRst ∧
      has (mr &&& 0xfd) mrMonBsy = has mr mrMonBsy ∧ has (mr &&& 0xfd) mrArb = has mr mrArb := by
  have icrs : ∀ icr : Byte, has (icr &&& 0xc0) icrTest = has icr icrTest ∧
      has (icr &&& 0xc0) icrRst = has icr icrRst := by decide
  have mrs : ∀ mr : Byte, has (mr &&& 0xfd) mrMonBsy = has mr mrMonBsy ∧
      has (mr &&& 0xfd) mrArb = has mr mrArb := by decide
  exact ⟨(icrs icr).1, (icrs icr).2, (mrs mr).1, (mrs mr).2⟩

theorem wires_rst (wires : c.wires = c.core.bus) :
    c.wires.rst = (!has c.icr icrTest && has c.icr icrRst) := by
  rw [wires, Core.bus_rst, c.has_icr.1, c.has_icr.2.1]

/-- News of a pass without strobes is paid for. -/
theorem advance_energy (quiet : Raised Core.quiet c) (wires : c.wires = c.core.bus) :
    c.advance.energy + c.starts.toNat + c.dmaNews.toNat + c.busyLost.toNat +
      (c.raises && !c.irqLatch).toNat ≤ c.energy := by
  have rpi : c.stRpi = false := quiet.rpi
  have rst : (!has c.advance.icr icrTest && has c.advance.icr icrRst && !c.advance.prevRst) = false := by
    show (!has (if c.busyLost then c.icr &&& 0xc0 else c.icr) icrTest &&
      has (if c.busyLost then c.icr &&& 0xc0 else c.icr) icrRst && !c.wires.rst) = false
    rw [wires_rst wires]
    split_ifs
    · rw [(masked c.icr c.mr).1, (masked c.icr c.mr).2.1]
      exact Bool.and_not_self _
    · exact Bool.and_not_self _
  have busy : (has c.advance.mr mrMonBsy && !c.advance.busyErr).toNat + c.busyLost.toNat ≤
      (has c.mr mrMonBsy && !c.busyErr).toNat := by
    have monitor : has c.advance.mr mrMonBsy = has c.mr mrMonBsy := by
      show has (if c.busyLost then c.mr &&& 0xfd else c.mr) mrMonBsy = _
      split_ifs
      · exact (masked c.icr c.mr).2.2.1
      · rfl
    have latched : c.advance.busyErr = (c.busyErr || c.busyLost) := by
      show (!c.stRpi && (c.busyErr || c.busyLost)) = _
      rw [rpi]
      rfl
    rw [monitor, latched]
    unfold busyLost
    cases has c.mr mrMonBsy <;> cases c.busyErr <;> cases c.wires.bsy <;> decide
  have arb : (has c.advance.mr mrArb && !c.advance.arbActive).toNat + c.starts.toNat ≤
      (has c.mr mrArb && !c.arbActive).toNat := by
    have mode : has c.advance.mr mrArb = has c.mr mrArb := by
      show has (if c.busyLost then c.mr &&& 0xfd else c.mr) mrArb = _
      split_ifs
      · exact (masked c.icr c.mr).2.2.2
      · rfl
    have active : c.advance.arbActive = (has c.mr mrArb && (c.arbActive || c.starts)) := rfl
    rw [mode, active]
    unfold starts
    cases has c.mr mrArb <;> cases c.arbActive <;> cases c.wires.bsy <;> cases c.wires.sel <;> decide
  have irq : (!c.advance.irqLatch).toNat + (c.raises && !c.irqLatch).toNat ≤ (!c.irqLatch).toNat := by
    have latched : c.advance.irqLatch = (c.irqLatch || c.raises) := by
      show (!c.stRpi && (c.irqLatch || c.raises)) = _
      rw [rpi]
      rfl
    rw [latched]
    cases c.irqLatch <;> cases c.raises <;> decide
  have dma := dmaNext_spends quiet
  have handshake : c.advance.toHandshake = c.dmaNext := rfl
  unfold energy
  rw [rst, handshake]
  simp only [Bool.toNat_false]
  omega

/-- A reset of the bus spends everything. -/
theorem tick_reset (rises : (c.wires.rst && !c.prevRst) = true) :
    c.tick = consume { scsiReset { c with prevReq := c.wires.req, prevRst := c.wires.rst } with
      irqLatch := true, dirty := true } := by
  simp only [tick, rises, if_true]

theorem reset_energy (rises : (c.wires.rst && !c.prevRst) = true) : c.tick.energy = 0 := by
  have rst : c.wires.rst = true := (Bool.and_eq_true _ _ ▸ rises).1
  rw [tick_reset rises]
  simp [energy, consume, scsiReset, rst, steps, has]

/-- A tick pays for its news. -/
theorem tick_energy (quiet : Raised Core.quiet c) (wires : c.wires = c.core.bus)
    (own : c.drv.sel = c.wires.sel) (clean : c.dirty = false) :
    c.tick.energy + c.tick.dirty.toNat ≤ c.energy := by
  cases rises : c.wires.rst && !c.prevRst with
  | true =>
      have pending : (!has c.icr icrTest && has c.icr icrRst && !c.prevRst) = true := by
        rw [← wires_rst wires]
        exact rises
      have dirty := Bool.toNat_le c.tick.dirty
      rw [reset_energy rises]
      unfold energy
      rw [pending]
      simp only [Bool.toNat_true]
      omega
  | false =>
      have rpi : c.stRpi = false := quiet.rpi
      have paid := advance_energy quiet wires
      have news : c.advance.dirty =
          (c.starts || c.dmaNews || c.busyLost || (c.raises && !c.irqLatch)) := by
        show (c.dirty || c.starts || c.dmaNews || c.stRpi || c.busyLost ||
          (!c.stRpi && c.raises && !c.irqLatch)) = _
        rw [clean, rpi]
        simp
      have some : (c.starts || c.dmaNews || c.busyLost || (c.raises && !c.irqLatch)).toNat ≤
          c.starts.toNat + c.dmaNews.toNat + c.busyLost.toNat + (c.raises && !c.irqLatch).toNat := by
        cases c.starts <;> cases c.dmaNews <;> cases c.busyLost <;> cases c.raises && !c.irqLatch <;>
          decide
      rw [tick_advance own rises, news]
      omega

/-! ## A tick without news -/

/-- Nothing to report: the registers that reach the wires are as they were. -/
structure Calm (c : State) : Prop where
  rst : (c.wires.rst && !c.prevRst) = false
  starts : c.starts = false
  dma : c.dmaNews = false
  rpi : c.stRpi = false
  busy : c.busyLost = false
  irq : c.raises = true → c.irqLatch = true

theorem calm_of_clean (own : c.drv.sel = c.wires.sel) (clean : c.tick.dirty = false) : Calm c := by
  cases rises : c.wires.rst && !c.prevRst with
  | true =>
      rw [tick_reset rises] at clean
      simp [consume] at clean
  | false =>
      rw [tick_advance own rises] at clean
      have news : (c.dirty || c.starts || c.dmaNews || c.stRpi || c.busyLost ||
        (!c.stRpi && c.raises && !c.irqLatch)) = false := clean
      simp only [Bool.or_eq_false_iff] at news
      obtain ⟨⟨⟨⟨⟨-, starts⟩, dma⟩, rpi⟩, busy⟩, irq⟩ := news
      rw [rpi] at irq
      refine ⟨rises, starts, dma, rpi, busy, fun raised => ?_⟩
      simpa [raised] using irq

/-- The state a calm tick leaves. -/
def rested (c : State) : State :=
  consume { c with
    prevReq := c.wires.req
    prevRst := c.wires.rst
    arbActive := has c.mr mrArb && c.arbActive
    lostArb := has c.mr mrArb && c.lostArb
    aip := has c.mr mrArb && c.arbActive
    endDma := c.ends
    parErr := c.parErr || has c.mr mrParChk && c.parityBad && (c.stCsdRd || c.recvLatch || c.selInt) }

theorem Calm.tick (calm : Calm c) (own : c.drv.sel = c.wires.sel) (clean : c.dirty = false) :
    c.tick = c.rested := by
  have irq : (c.irqLatch || c.raises) = c.irqLatch := by
    cases raised : c.raises with
    | true => rw [calm.irq raised]; rfl
    | false => exact Bool.or_false _
  have quiet : (c.raises && !c.irqLatch) = false := by
    cases raised : c.raises with
    | true => rw [calm.irq raised]; rfl
    | false => rfl
  rw [tick_advance own calm.rst]
  simp only [advance, rested, calm.starts, calm.dma, calm.rpi, calm.busy, dmaNext_rests calm.dma,
    clean, irq, quiet, Bool.or_false, Bool.not_false, Bool.true_and, Bool.false_eq_true, if_false]

/-- A strobe only ever lets a handshake go on. -/
theorem dmaSwitch_rested (still : c.dmaSwitch.dmaSt = c.dmaSt) :
    c.rested.dmaSwitch.dmaSt = c.dmaSt := by
  have st : c.rested.dmaSt = c.dmaSt := rfl
  have latch : c.rested.recvLatch = c.recvLatch := rfl
  have phase : c.rested.phaseMatch = c.phaseMatch := rfl
  unfold dmaSwitch at still ⊢
  rw [st, latch, phase]
  cases now : c.dmaSt <;> simp only [now] at still ⊢
  case idle => exact now
  case sWant => exact now
  case rHave => exact now
  all_goals exact still

theorem Calm.rested (calm : Calm c) : Calm c.rested := by
  refine ⟨Bool.and_not_self _, ?_, ?_, rfl, calm.busy, ?_⟩
  · have begun := calm.starts
    show (has c.mr mrArb && !(has c.mr mrArb && c.arbActive) && !c.wires.bsy && !c.wires.sel) = false
    revert begun
    unfold State.starts
    cases has c.mr mrArb <;> simp
  · have still := calm.dma
    unfold dmaNews at still ⊢
    have mode : c.rested.mr = c.mr := rfl
    rw [mode]
    split_ifs at still ⊢ with on
    · rw [bne_eq_false_iff_eq] at still ⊢
      exact dmaSwitch_rested still
    · exact still
  · intro raised
    apply calm.irq
    have level : (c.selInt || (has c.mr mrEopIntr && c.eop && has c.mr mrDma) ||
        (has c.mr mrParChk && has c.mr mrParIntr && c.parityBad && (false || c.recvLatch)) ||
        (has c.mr mrDma && !has c.mr mrTarget && (c.wires.req && !c.wires.req) && !c.phaseMatch) ||
        c.busyLost) = true := raised
    unfold State.raises
    revert level
    cases c.selInt <;> cases c.busyLost <;> cases c.recvLatch <;> cases c.wires.req <;>
      cases has c.mr mrEopIntr && c.eop && has c.mr mrDma <;>
      cases has c.mr mrParChk && has c.mr mrParIntr && c.parityBad <;> simp

theorem rested_rested : c.rested.rested = c.rested := by
  have arb : (has c.mr mrArb && (has c.mr mrArb && c.arbActive)) = (has c.mr mrArb && c.arbActive) := by
    cases has c.mr mrArb <;> rfl
  have lost : (has c.mr mrArb && (has c.mr mrArb && c.lostArb)) = (has c.mr mrArb && c.lostArb) := by
    cases has c.mr mrArb <;> rfl
  have ends : c.rested.ends = c.ends := by
    show (has c.mr mrDma && (c.ends || c.eop && (false || false))) = c.ends
    unfold State.ends
    cases has c.mr mrDma <;> simp
  have parity : (c.rested.parErr ||
      has c.mr mrParChk && c.parityBad && (false || c.recvLatch || c.selInt)) = c.rested.parErr := by
    show (c.parErr || has c.mr mrParChk && c.parityBad && (c.stCsdRd || c.recvLatch || c.selInt) ||
      has c.mr mrParChk && c.parityBad && (false || c.recvLatch || c.selInt)) =
      (c.parErr || has c.mr mrParChk && c.parityBad && (c.stCsdRd || c.recvLatch || c.selInt))
    cases c.recvLatch <;> cases c.selInt <;> cases c.stCsdRd <;>
      cases has c.mr mrParChk && c.parityBad <;> simp
  rw [show c.rested.rested = consume { c.rested with
      arbActive := has c.mr mrArb && (has c.mr mrArb && c.arbActive)
      lostArb := has c.mr mrArb && (has c.mr mrArb && c.lostArb)
      aip := has c.mr mrArb && (has c.mr mrArb && c.arbActive)
      endDma := c.rested.ends
      parErr := c.rested.parErr ||
        has c.mr mrParChk && c.parityBad && (false || c.recvLatch || c.selInt) } from rfl,
    arb, lost, ends, parity]
  rfl

theorem bus_rested : c.rested.core.bus = c.core.bus := by
  refine Core.bus_eq_of rfl ?_ (fun _ => rfl) (fun _ => rfl)
  show ((has c.mr mrArb && c.arbActive) && c.core.regs.arbitrate) = (c.arbActive && c.core.regs.arbitrate)
  rw [c.has_mr.2.2.2.2.2]
  cases c.core.regs.arbitrate <;> simp

/-! ## Passes -/

/-- The wires resolved, and nothing reported yet. -/
def fresh (c : State) : State :=
  { c with drv := c.core.bus, wires := c.core.bus, dirty := false }

theorem pass_eq (peer : c.peer = {}) :
    c.pass = { c.fresh.tick with dirty := c.fresh.tick.dirty || !(c.wires == c.fresh.tick.wires) } := by
  have combined : combine settleMax { c with dirty := false } = c.fresh := by
    rw [combine_eq (c := { c with dirty := false }) peer]
    rfl
  unfold pass
  rw [combined]

theorem tick_frame (own : c.drv.sel = c.wires.sel) (peer : c.peer = {}) :
    c.tick.wires = c.wires ∧ c.tick.peer = {} ∧ Raised Core.quiet c.tick := by
  cases rises : c.wires.rst && !c.prevRst with
  | true =>
      rw [tick_reset rises]
      exact ⟨rfl, rfl, rfl, rfl, rfl, rfl, rfl, rfl, rfl⟩
  | false =>
      rw [tick_advance own rises]
      exact ⟨rfl, peer, rfl, rfl, rfl, rfl, rfl, rfl, rfl⟩

/-- Between passes: nobody else on the bus, and no strobe. -/
structure Between (c : State) : Prop where
  peer : c.peer = {}
  quiet : Raised Core.quiet c

theorem pass_between (peer : c.peer = {}) : Between c.pass ∧ c.pass.wires = c.core.bus := by
  obtain ⟨wires, still, quiet⟩ := tick_frame (c := c.fresh) rfl peer
  rw [pass_eq peer]
  exact ⟨⟨still, quiet.csdRd, quiet.rpi, quiet.sds, quiet.sdtr, quiet.sdir, quiet.dackRd,
    quiet.dackWr⟩, wires⟩

theorem pass_clean (peer : c.peer = {}) (clean : c.pass.dirty = false) :
    Calm c.fresh ∧ c.wires = c.core.bus ∧ c.pass = c.fresh.rested := by
  have wires := (tick_frame (c := c.fresh) rfl peer).1
  rw [pass_eq peer] at clean ⊢
  rw [wires] at clean ⊢
  simp only [Bool.or_eq_false_iff, Bool.not_eq_false', beq_iff_eq] at clean
  have calm := calm_of_clean (c := c.fresh) rfl clean.1
  have same : (c.wires == c.fresh.wires) = true := beq_iff_eq.mpr clean.2
  refine ⟨calm, clean.2, ?_⟩
  rw [clean.1, same, calm.tick rfl rfl]
  rfl

/-- A pass that reports nothing leaves nothing to do. -/
theorem pass_fixed (peer : c.peer = {}) (clean : c.pass.dirty = false) : c.pass.pass = c.pass := by
  obtain ⟨calm, -, left⟩ := pass_clean peer clean
  have fresh : c.fresh.rested.fresh = c.fresh.rested := by
    unfold State.fresh
    rw [bus_rested]
    rfl
  have still : c.fresh.rested.tick = c.fresh.rested :=
    (calm.rested.tick rfl rfl).trans rested_rested
  have again := pass_eq (c := c.fresh.rested) peer
  rw [fresh, still, beq_self_eq_true] at again
  rw [left, again]
  rfl

/-- Twice the energy, and one more for wires that are out of date. -/
def fuel (c : State) : ℕ :=
  2 * c.energy + (!(c.wires == c.core.bus)).toNat

/-- Every other pass takes some. -/
theorem pass_fuel (between : Between c) (dirty : c.pass.dirty = true) : c.pass.fuel < c.fuel := by
  have wires := (pass_between between.peer).2
  have paid : c.fresh.tick.energy + c.fresh.tick.dirty.toNat ≤ c.energy :=
    tick_energy (c := c.fresh)
      ⟨between.quiet.csdRd, between.quiet.rpi, between.quiet.sds, between.quiet.sdtr,
        between.quiet.sdir, between.quiet.dackRd, between.quiet.dackWr⟩ rfl rfl rfl
  have energy : c.pass.energy = c.fresh.tick.energy := by
    rw [pass_eq between.peer]
    rfl
  have stale := Bool.toNat_le (!(c.pass.wires == c.pass.core.bus))
  unfold fuel
  rw [energy]
  cases news : c.fresh.tick.dirty with
  | true =>
      rw [news, Bool.toNat_true] at paid
      omega
  | false =>
      have calm := calm_of_clean (c := c.fresh) rfl news
      have same : c.pass.core.bus = c.core.bus := by
        rw [pass_eq between.peer, calm.tick rfl rfl]
        exact bus_rested (c := c.fresh)
      have fresh : (c.pass.wires == c.pass.core.bus) = true := by
        rw [same, wires]
        exact beq_self_eq_true _
      have out : (c.wires == c.core.bus) = false := by
        rw [pass_eq between.peer] at dirty
        have seen : c.fresh.wires = c.core.bus := rfl
        rw [(tick_frame (c := c.fresh) rfl between.peer).1, news, seen] at dirty
        simpa using dirty
      rw [fresh, out, Bool.not_true, Bool.not_false, Bool.toNat_false, Bool.toNat_true]
      omega

theorem fuel_le (c : State) : c.fuel ≤ 27 := by
  have energy := c.energy_le
  have stale := Bool.toNat_le (!(c.wires == c.core.bus))
  unfold fuel
  omega

/-! ## The loop -/

/-- The loop leaves through its exit: after `n + 1` passes, the last of which was the first to
report nothing. -/
def Exits (c : State) (n : ℕ) : Prop :=
  (∀ k < n, (State.pass^[k + 1] c).dirty = true) ∧ (State.pass^[n + 1] c).dirty = false

theorem Between.exits (between : Between c) : ∃ n ≤ c.fuel, Exits c n := by
  induction spent : c.fuel using Nat.strong_induction_on generalizing c with
  | h f ih =>
      cases dirty : c.pass.dirty with
      | false => exact ⟨0, Nat.zero_le f, by simp, dirty⟩
      | true =>
          have less := pass_fuel between dirty
          obtain ⟨n, low, before, last⟩ :=
            ih c.pass.fuel (spent ▸ less) (pass_between between.peer).1 rfl
          refine ⟨n + 1, by omega, fun k early => ?_, last⟩
          cases k with
          | zero => exact dirty
          | succ k => exact before k (by omega)

theorem exits (peer : c.peer = {}) : ∃ n ≤ 28, Exits c n := by
  cases dirty : c.pass.dirty with
  | false => exact ⟨0, Nat.zero_le 28, by simp, dirty⟩
  | true =>
      obtain ⟨n, low, before, last⟩ := (pass_between peer).1.exits
      have most := c.pass.fuel_le
      refine ⟨n + 1, by omega, fun k early => ?_, last⟩
      cases k with
      | zero => exact dirty
      | succ k => exact before k (by omega)

theorem rounds_eq {n : ℕ} (out : Exits c n) (m : ℕ) (more : n < m) :
    rounds m c = State.pass^[n + 1] c := by
  induction n generalizing c m with
  | zero =>
      obtain ⟨m, rfl⟩ := Nat.exists_eq_succ_of_ne_zero (Nat.ne_of_gt more)
      have clean : c.pass.dirty = false := out.2
      rw [rounds, clean]
      rfl
  | succ n ih =>
      obtain ⟨m, rfl⟩ := Nat.exists_eq_succ_of_ne_zero (by omega : m ≠ 0)
      have dirty : c.pass.dirty = true := out.1 0 (Nat.succ_pos n)
      rw [rounds, if_pos dirty, ih ⟨fun k low => out.1 (k + 1) (by omega), out.2⟩ m (by omega)]
      rfl

theorem iterate_peer (peer : c.peer = {}) (k : ℕ) : (State.pass^[k] c).peer = {} := by
  induction k generalizing c with
  | zero => exact peer
  | succ k ih => exact ih (pass_between peer).1.peer

/-- How the loop that starts in `c` goes: out through its exit in fewer passes than it may take,
each with its inner loop at rest, and into a state that another pass would not change. -/
structure Settles (c : State) : Prop where
  exit : ∃ n, n + 1 < settleMax ∧ Exits c n ∧ c.settle = State.pass^[n + 1] c
  combined : ∀ k, (combine settleMax { State.pass^[k] c with dirty := false }).resolve =
    combine settleMax { State.pass^[k] c with dirty := false }
  fixed : c.settle.pass = c.settle

theorem settles (peer : c.peer = {}) : Settles c := by
  obtain ⟨n, low, out⟩ := exits peer
  have settled : c.settle = State.pass^[n + 1] c := rounds_eq out settleMax (by unfold settleMax; omega)
  refine ⟨⟨n, by unfold settleMax; omega, out, settled⟩, fun k => ?_, ?_⟩
  · have still := iterate_peer peer k
    rw [combine_eq (c := { State.pass^[k] c with dirty := false }) still]
    refine (resolve_wired (c := { State.pass^[k] c with dirty := false }) still _ _).trans ?_
    rw [← Core.bus_eq]
  · rw [settled, Function.iterate_succ_apply']
    have last : (State.pass^[n] c).pass.dirty = false := by
      rw [← Function.iterate_succ_apply' State.pass n c]
      exact out.2
    exact pass_fixed (iterate_peer peer n) last

theorem settle_peer (peer : c.peer = {}) : c.settle.peer = {} := by
  obtain ⟨n, -, -, settled⟩ := (settles peer).exit
  rw [settled]
  exact iterate_peer peer (n + 1)

end State

/-! ## Calls -/

/-- The calls a board makes. -/
inductive Call where
  | read (reg : BitVec 3)
  | write (reg : BitVec 3) (val : Byte)
  | dackRead
  | dackWrite (val : Byte)
  | setEop (asserted : Bool)

namespace Call

/-- What the call does before it settles. -/
def enter (c : State) : Call → State
  | .read reg => c.readStrobe reg
  | .write reg val => c.written reg val
  | .dackRead => { c with stDackRd := true }
  | .dackWrite val => { c with odr := val, stDackWr := true }
  | .setEop asserted => { c with eop := asserted }

def perform (c : State) : Call → State
  | .read reg => c.regRead reg
  | .write reg val => c.regWrite reg val
  | .dackRead => c.dackRead
  | .dackWrite val => c.dackWrite val
  | .setEop asserted => c.setEop asserted

theorem perform_eq (c : State) (call : Call) : call.perform c = (call.enter c).settle := by
  cases call <;> rfl

theorem enter_peer {c : State} (peer : c.peer = {}) (call : Call) : (call.enter c).peer = {} := by
  cases call with
  | read reg =>
      show (c.readStrobe reg).peer = {}
      unfold State.readStrobe
      split <;> exact peer
  | write reg val =>
      show (c.written reg val).peer = {}
      unfold State.written
      split <;> exact peer
  | dackRead => exact peer
  | dackWrite val => exact peer
  | setEop asserted => exact peer

end Call

theorem calls_peer {c : State} (peer : c.peer = {}) (calls : List Call) :
    (calls.foldl Call.perform c).peer = {} := by
  induction calls generalizing c with
  | nil => exact peer
  | cons call calls ih =>
      apply ih
      rw [Call.perform_eq]
      exact State.settle_peer (call.enter_peer peer)

/-- After a hard reset, whatever calls were made, the next one settles. -/
theorem every_call_settles (c : State) (calls : List Call) (call : Call) :
    (call.enter (calls.foldl Call.perform c.hardReset)).Settles ∧
      call.perform (calls.foldl Call.perform c.hardReset) =
        (call.enter (calls.foldl Call.perform c.hardReset)).settle := by
  have peer : c.hardReset.peer = {} := State.settle_peer rfl
  exact ⟨State.settles (call.enter_peer (calls_peer peer calls)), Call.perform_eq _ call⟩

end Wish5380.Soft
