import Wish5380.Soft.Hard
import Wish5380.Soft.Passes

/-!
# The software refines the hardware

Between accesses the two models have the same settled core, and a read is decided by
the core and its wires.  One Mode Register write can tell them apart: the hardware's
`recv_latch` does not ask for DMA MODE.
-/

namespace Wish5380.Soft

namespace State

/-! ## The rounds of the settle loop -/

/-- Settled, with the wires in place. -/
structure Done (c : State) : Prop extends Resting c where
  settled : c.core.Settled
  wires_eq : c.wires = c.core.bus

section Rounds

variable {c : State}

theorem Resting.pass (resting : Resting c) :
    c.pass.core = c.core.tick true Core.quiet ∧ Resting c.pass ∧ c.pass.wires = c.core.bus ∧
      c.pass.dirty = (c.core.sclr || c.core.news Core.quiet || !(c.wires == c.core.bus)) :=
  pass_core resting.toAlone resting.raised

/-- A round that ends the loop leaves it done. -/
theorem done_of_clean {a : Chip.Port} (alone : Alone c) (raised : Raised a c)
    (waiting : c.core.Waiting) (dack : a.dack = false) (clean : c.pass.dirty = false) :
    Done c.pass := by
  obtain ⟨core, resting, wires, dirty⟩ := pass_core alone raised
  rw [clean] at dirty
  have quiet := dirty.symm
  simp only [Bool.or_eq_false_iff] at quiet
  obtain ⟨settled, bus⟩ := Core.settled_of_news waiting dack quiet.1.1 quiet.1.2
  refine ⟨resting, ?_, ?_⟩
  · rw [core]
    exact settled
  · rw [wires, core, bus]

/-- A done state takes one round. -/
theorem Done.pass_clean (done : Done c) : c.pass.dirty = false ∧ Done c.pass ∧
    c.pass.core = c.core := by
  obtain ⟨core, resting, wires, dirty⟩ := done.toResting.pass
  have same : c.pass.core = c.core := core.trans done.settled
  refine ⟨?_, ⟨resting, ?_, ?_⟩, same⟩
  · rw [dirty, done.settled.calm, done.settled.news, done.wires_eq]
    simp
  · rw [same]
    exact done.settled
  · rw [wires, same]

/-- A settled core takes two: the wires may still be those of the round before. -/
theorem Resting.rounds_settled (resting : Resting c) (settled : c.core.Settled) (n : ℕ) :
    Done (rounds (n + 2) c) ∧ (rounds (n + 2) c).core = c.core := by
  obtain ⟨core, resting', wires, dirty⟩ := resting.pass
  have same : c.pass.core = c.core := core.trans settled
  have done : Done c.pass := by
    refine ⟨resting', ?_, ?_⟩
    · rw [same]
      exact settled
    · rw [wires, same]
  rw [rounds]
  split_ifs
  · obtain ⟨clean, done', same'⟩ := done.pass_clean
    rw [rounds, clean, if_neg Bool.false_ne_true]
    exact ⟨done', same'.trans same⟩
  · exact ⟨done, same⟩

/-- From anywhere the loop ends in time, where two passes of the core lead. -/
theorem Resting.rounds (resting : Resting c) (waiting : c.core.Waiting) (n : ℕ) :
    Done (rounds (n + 4) c) ∧ (State.rounds (n + 4) c).core = c.core.bound := by
  obtain ⟨core, resting', _, _⟩ := resting.pass
  have waiting' : c.pass.core.Waiting := by
    rw [core]
    exact waiting.tick
  rw [State.rounds]
  split_ifs with first
  · obtain ⟨core', resting'', _, _⟩ := resting'.pass
    have settled : c.pass.pass.core.Settled := by
      rw [core', core]
      exact waiting.settles
    have is : c.pass.pass.core = c.core.bound := by rw [core', core, Core.bound]
    rw [State.rounds]
    split_ifs with second
    · obtain ⟨done, same⟩ := resting''.rounds_settled settled n
      exact ⟨done, same.trans is⟩
    · exact ⟨done_of_clean resting'.toAlone resting'.raised waiting' rfl
        (eq_false_of_ne_true second), is⟩
  · have done := done_of_clean resting.toAlone resting.raised waiting rfl
      (eq_false_of_ne_true first)
    refine ⟨done, ?_⟩
    rw [← waiting.bound_tick, ← core]
    exact done.settled.bound.symm

/-- A strobe acts in the first round. -/
theorem settle_strobe {a : Chip.Port} (alone : Alone c) (raised : Raised a c)
    (waiting : c.core.Waiting) (dack : a.dack = false) :
    Done c.settle ∧ c.settle.core = (c.core.tick true a).bound := by
  obtain ⟨core, resting, _, _⟩ := pass_core alone raised
  rw [settle, settleMax, State.rounds]
  split_ifs with first
  · have after : c.pass.core.Waiting := by
      rw [core]
      exact waiting.tick_access dack
    obtain ⟨done, is⟩ := resting.rounds after 59
    exact ⟨done, by rw [is, core]⟩
  · have done := done_of_clean alone raised waiting dack (eq_false_of_ne_true first)
    refine ⟨done, ?_⟩
    rw [← core]
    exact done.settled.bound.symm

end Rounds

/-! ## The accesses -/

/-- A register access of the software. -/
def perform (c : State) : Access → State
  | .read reg => c.regRead reg
  | .write reg val => c.regWrite reg val

theorem reg_cases : ∀ reg : BitVec 3, reg = 0 ∨ reg = 1 ∨ reg = 2 ∨ reg = 3 ∨ reg = 4 ∨
    reg = 5 ∨ reg = 6 ∨ reg = 7 := by
  decide

section Access

variable {c : State}

/-- An access that raises a strobe or none, and writes nothing. -/
theorem Done.settle_access (done : Done c) {d : State} {a : Chip.Port} (alone : Alone d)
    (raised : Raised a d) (core : d.core = c.core) (waiting : c.core.Waiting)
    (dack : a.dack = false)
    (regs : (if a.we then c.core.regs.write a c.core.bus.bsy else c.core.regs) = c.core.regs) :
    Done d.settle ∧ d.settle.core = (c.core.access a).bound := by
  have kept : (c.core.tick true a).regs = c.core.regs := by
    rw [Core.tick_of_calm done.settled.calm]
    simp [Core.moved, done.settled.kept]
  have is : c.core.access a = c.core.tick true a := by
    rw [Core.access, regs, ← kept]
  rw [is, ← core]
  exact settle_strobe alone raised (by rw [core]; exact waiting) dack

/-- An access that writes and raises no strobe. -/
theorem Done.settle_write (done : Done c) {d : State} {a : Chip.Port} (alone : Alone d)
    (raised : Raised Core.quiet d) (plain : Core.Unstrobed a) (writes : a.we = true)
    (core : d.core = { c.core with regs := c.core.regs.write a c.core.bus.bsy })
    (waiting : c.core.Waiting) : Done d.settle ∧ d.settle.core = (c.core.access a).bound := by
  rw [done.settled.access_unstrobed plain writes, ← core]
  have waiting' : d.core.Waiting := by
    rw [core]
    exact waiting
  obtain ⟨done', is⟩ := settle_strobe alone raised waiting' rfl
  exact ⟨done', is.trans waiting'.bound_tick⟩

theorem Done.regRead (done : Done c) (waiting : c.core.Waiting) (reg : BitVec 3) :
    Done (c.regRead reg) ∧
      (c.regRead reg).core = (c.core.access (Access.read reg).port).bound := by
  obtain ⟨csdRd, rpi, sds, sdtr, sdir, dackRd, dackWr⟩ := done.raised
  have alone : Alone (c.readStrobe reg) := by
    rcases reg_cases reg with rfl | rfl | rfl | rfl | rfl | rfl | rfl | rfl <;>
      exact ⟨done.peer, done.eop, done.lost, done.endDma⟩
  have core : (c.readStrobe reg).core = c.core := by
    rcases reg_cases reg with rfl | rfl | rfl | rfl | rfl | rfl | rfl | rfl <;> rfl
  have raised : Raised (Access.read reg).port (c.readStrobe reg) := by
    rcases reg_cases reg with rfl | rfl | rfl | rfl | rfl | rfl | rfl | rfl
    · exact ⟨rfl, rpi, sds, sdtr, sdir, dackRd, dackWr⟩
    · exact ⟨csdRd, rpi, sds, sdtr, sdir, dackRd, dackWr⟩
    · exact ⟨csdRd, rpi, sds, sdtr, sdir, dackRd, dackWr⟩
    · exact ⟨csdRd, rpi, sds, sdtr, sdir, dackRd, dackWr⟩
    · exact ⟨csdRd, rpi, sds, sdtr, sdir, dackRd, dackWr⟩
    · exact ⟨csdRd, rpi, sds, sdtr, sdir, dackRd, dackWr⟩
    · exact ⟨csdRd, rpi, sds, sdtr, sdir, dackRd, dackWr⟩
    · exact ⟨csdRd, rfl, sds, sdtr, sdir, dackRd, dackWr⟩
  exact done.settle_access alone raised core waiting rfl rfl

theorem Done.regWrite (done : Done c) (waiting : c.core.Waiting) (reg : BitVec 3) (val : Byte) :
    Done (c.regWrite reg val) ∧
      (c.regWrite reg val).core = (c.core.access (Access.write reg val).port).bound := by
  obtain ⟨csdRd, rpi, sds, sdtr, sdir, dackRd, dackWr⟩ := done.raised
  have alone : Alone (c.written reg val) := by
    rcases reg_cases reg with rfl | rfl | rfl | rfl | rfl | rfl | rfl | rfl <;>
      exact ⟨done.peer, done.eop, done.lost, done.endDma⟩
  have mode : (c.written 2 val).core =
      { c.core with regs := c.core.regs.write (Access.write 2 val).port c.core.bus.bsy } := by
    rw [← done.wires_eq]
    simp only [written, Chip.Regs.write, Access.port]
    cases c.wires.bsy <;> rfl
  rcases reg_cases reg with rfl | rfl | rfl | rfl | rfl | rfl | rfl | rfl
  · exact done.settle_write alone ⟨csdRd, rpi, sds, sdtr, sdir, dackRd, dackWr⟩
      ⟨rfl, rfl, rfl, rfl, rfl, rfl⟩ rfl rfl waiting
  · exact done.settle_write alone ⟨csdRd, rpi, sds, sdtr, sdir, dackRd, dackWr⟩
      ⟨rfl, rfl, rfl, rfl, rfl, rfl⟩ rfl rfl waiting
  · exact done.settle_write alone ⟨csdRd, rpi, sds, sdtr, sdir, dackRd, dackWr⟩
      ⟨rfl, rfl, rfl, rfl, rfl, rfl⟩ rfl mode waiting
  · exact done.settle_write alone ⟨csdRd, rpi, sds, sdtr, sdir, dackRd, dackWr⟩
      ⟨rfl, rfl, rfl, rfl, rfl, rfl⟩ rfl rfl waiting
  · exact done.settle_write alone ⟨csdRd, rpi, sds, sdtr, sdir, dackRd, dackWr⟩
      ⟨rfl, rfl, rfl, rfl, rfl, rfl⟩ rfl rfl waiting
  · exact done.settle_access alone ⟨csdRd, rpi, rfl, sdtr, sdir, dackRd, dackWr⟩ rfl waiting rfl rfl
  · exact done.settle_access alone ⟨csdRd, rpi, sds, rfl, sdir, dackRd, dackWr⟩ rfl waiting rfl rfl
  · exact done.settle_access alone ⟨csdRd, rpi, sds, sdtr, rfl, dackRd, dackWr⟩ rfl waiting rfl rfl

theorem Done.perform (done : Done c) (waiting : c.core.Waiting) (a : Access) :
    Done (c.perform a) ∧ (c.perform a).core = (c.core.access a.port).bound := by
  cases a with
  | read reg => exact done.regRead waiting reg
  | write reg val => exact done.regWrite waiting reg val

end Access

/-! ## The reads -/

/-- Eight status bits under their masks and side by side. -/
theorem masks_eq : ∀ b7 b6 b5 b4 b3 b2 b1 b0 : Bool,
    ((if b7 then 0x80 else 0) ||| (if b6 then 0x40 else 0) ||| (if b5 then 0x20 else 0) |||
      (if b4 then 0x10 else 0) ||| (if b3 then 0x08 else 0) ||| (if b2 then 0x04 else 0) |||
      (if b1 then 0x02 else 0) ||| (if b0 then 0x01 else 0) : Byte) =
    BitVec.ofBool b7 ++ BitVec.ofBool b6 ++ BitVec.ofBool b5 ++ BitVec.ofBool b4 ++
      BitVec.ofBool b3 ++ BitVec.ofBool b2 ++ BitVec.ofBool b1 ++ BitVec.ofBool b0 := by
  decide +kernel

/-- Initiator Command as the two put it together. -/
theorem icrRd_eq : ∀ (icr : Byte) (aip : Bool),
    ((icr &&& ~~~(icrAip ||| icrLa)) ||| (if aip then icrAip else 0) ||| 0 : Byte) =
    (icr &&& 0x9f) ||| (BitVec.ofBool aip).setWidth 8 <<< 6 |||
      (BitVec.ofBool false).setWidth 8 <<< 5 := by
  decide +kernel

/-- With the same core the two return the same byte. -/
theorem Done.readValue_eq {p : Chip.Params} {c : State} {s : Chip.State} (done : Done c)
    (counts : Hard.Quiet p s) (same : Core.of s = c.core) (reg : BitVec 3) :
    s.datO (Access.read reg).port (Hard.bus s) = c.readValue reg := by
  have wires : Hard.bus s = c.wires := by rw [done.wires_eq, ← same, Hard.bus_of]
  have regs : s.regs = c.core.regs := congrArg Core.regs same
  rw [wires]
  rcases reg_cases reg with rfl | rfl | rfl | rfl | rfl | rfl | rfl | rfl
  · rfl
  · show s.icrRd = (c.icr &&& ~~~(icrAip ||| icrLa)) ||| (if c.aip then icrAip else 0) |||
      (if c.lostArb && has c.mr mrArb then icrLa else 0)
    have la : s.la = false := by simp [Chip.State.la, counts.la]
    have aip : s.aip = c.aip := by
      rw [done.aip, ← same]
      rfl
    rw [Chip.State.icrRd, la, aip, regs, done.lost, Bool.false_and, if_neg Bool.false_ne_true]
    exact (icrRd_eq c.icr c.aip).symm
  · show s.regs.mr = c.mr
    rw [regs]
    rfl
  · show s.regs.tcr &&& 0x0f = c.tcr &&& tcrRwMask
    rw [regs]
    rfl
  · exact (masks_eq _ _ _ _ _ _ _ _).symm
  · show s.bsr c.wires = c.bsr
    have endDma : s.endDma = (c.endDma && has c.mr mrDma) := by
      simp [Chip.State.endDma, counts.endDma, done.endDma]
    have raw : s.eng.drqQ = c.drqRaw := congrArg Core.drq same
    have drq : s.drq = c.drq := by
      rw [Chip.State.drq, State.drq, raw, regs, c.has_mr.2.2.2.2.1]
    have phase : s.phaseMatch c.wires = c.phaseMatch := by
      rw [phaseMatch_eq, ← same]
      rfl
    have parErr : s.eng.parErrQ = c.parErr := congrArg Core.parErr same
    have irq : s.eng.irqQ = c.irqLatch := congrArg Core.irq same
    have busyErr : s.eng.busyErrQ = c.busyErr := congrArg Core.busyErr same
    rw [Chip.State.bsr, endDma, drq, phase, parErr, irq, busyErr]
    exact (masks_eq _ _ _ _ _ _ _ _).symm
  · exact congrArg Core.idr same
  · rfl

end State

/-! ## Runs -/

/-- An access and the idle clocks after it. -/
abbrev Spaced := Access × ℕ

/-- The bytes the hardware returns to the reads of a run. -/
def hardReads (p : Chip.Params) : Chip.State → List Spaced → List Byte
  | _, [] => []
  | s, (a, gap) :: rest =>
      let later := hardReads p (Hard.idle p gap (Hard.clock p s a.port)) rest
      match a with
      | .read _ => s.datO a.port (Hard.bus s) :: later
      | .write _ _ => later

/-- The bytes the software returns to them. -/
def softReads : State → List Access → List Byte
  | _, [] => []
  | c, a :: rest =>
      match a with
      | .read reg => c.readValue reg :: softReads (c.perform a) rest
      | .write _ _ => softReads (c.perform a) rest

/-- No access of the run lets a parity check go astray. -/
def Clear (p : Chip.Params) : Chip.State → List Spaced → Prop
  | _, [] => True
  | s, (a, gap) :: rest =>
      ¬ Hard.Stray s a ∧ Clear p (Hard.idle p gap (Hard.clock p s a.port)) rest

instance Clear.decidable (p : Chip.Params) :
    (s : Chip.State) → (run : List Spaced) → Decidable (Clear p s run)
  | _, [] => isTrue trivial
  | s, (a, gap) :: rest =>
      have := Clear.decidable p (Hard.idle p gap (Hard.clock p s a.port)) rest
      inferInstanceAs (Decidable (¬ Hard.Stray s a ∧ _))

/-- Between accesses the two have one settled core. -/
structure Agree (p : Chip.Params) (s : Chip.State) (c : State) : Prop where
  done : c.Done
  quiet : Hard.Quiet p s
  same : Core.of s = c.core

section Runs

variable {p : Chip.Params} {s : Chip.State} {c : State}

/-- One access keeps the two together. -/
theorem Agree.step (agree : Agree p s c) {a : Access} (clear : ¬ Hard.Stray s a) {gap : ℕ}
    (enough : p.tBusFree + 4 ≤ gap) :
    Agree p (Hard.idle p gap (Hard.clock p s a.port)) (c.perform a) := by
  have settled : (Core.of s).Settled := by
    rw [agree.same]
    exact agree.done.settled
  have waiting : c.core.Waiting := by
    rw [← agree.same]
    exact agree.quiet.waiting
  obtain ⟨hard, -, quiet⟩ := Hard.settled_step settled agree.quiet clear enough
  obtain ⟨done, soft⟩ := agree.done.perform waiting a
  constructor
  · exact done
  · exact quiet
  · rw [hard, soft, agree.same]

theorem Agree.reads (agree : Agree p s c) {run : List Spaced} (clear : Clear p s run)
    (spaced : ∀ step ∈ run, p.tBusFree + 4 ≤ step.2) :
    hardReads p s run = softReads c (run.map Prod.fst) := by
  induction run generalizing s c with
  | nil => rfl
  | cons step rest ih =>
      obtain ⟨a, gap⟩ := step
      have enough : p.tBusFree + 4 ≤ gap := spaced (a, gap) List.mem_cons_self
      have next := agree.step clear.1 enough
      have later := ih next clear.2 (fun step there => spaced step (List.mem_cons_of_mem _ there))
      cases a with
      | read reg =>
          have byte := agree.done.readValue_eq agree.quiet agree.same reg
          simp only [hardReads, softReads, List.map_cons, byte, later]
      | write reg val => simp only [hardReads, softReads, List.map_cons, later]

/-- RESET puts both into the same state. -/
theorem Agree.reset (p : Chip.Params) (c : State) : Agree p {} c.hardReset := by
  have start : Core.of {} = State.core { wires := c.wires } := rfl
  have settled : (Core.of {}).Settled := by
    unfold Core.Settled
    rfl
  have waiting : (Core.of {}).Waiting := Or.inl rfl
  obtain ⟨done, core⟩ := State.settle_strobe (c := { wires := c.wires }) (a := Core.quiet)
    ⟨rfl, rfl, rfl, rfl⟩ ⟨rfl, rfl, rfl, rfl, rfl, rfl, rfl⟩ waiting rfl
  constructor
  · exact done
  · exact ⟨rfl, rfl, Nat.zero_le _, waiting⟩
  · rw [State.hardReset, core, ← start, settled, settled.bound]

end Runs

/-- Whatever is read and written after RESET, the two return the same bytes, so long as
no Mode Register write ends DMA MODE under a receive whose line it raises, on a bus
without parity. -/
theorem reads_agree (p : Chip.Params) (c : State) (run : List Spaced)
    (spaced : ∀ step ∈ run, p.tBusFree + 4 ≤ step.2) (clear : Clear p {} run) :
    hardReads p {} run = softReads c.hardReset (run.map Prod.fst) :=
  (Agree.reset p c).reads clear spaced

/-- The chip arbitrates alone, and both say so. -/
theorem arbitration_reads_agree :
    hardReads {} {} [(.write 0 0x80, 24), (.write 2 0x01, 24), (.read 1, 24), (.read 0, 24),
        (.read 4, 30)] =
      softReads (State.hardReset {})
        [.write 0 0x80, .write 2 0x01, .read 1, .read 0, .read 4] :=
  reads_agree {} {} [(.write 0 0x80, 24), (.write 2 0x01, 24), (.read 1, 24), (.read 0, 24),
    (.read 4, 30)] (by decide) (by decide +kernel)

/-- A target receive waits for ACK, and the write that ends it makes the chip an
initiator that drives ACK. -/
def endedReceive : List Spaced :=
  [(.write 1 0x18, 24), (.write 2 0x42, 24), (.write 6 0x00, 24), (.write 2 0x20, 24),
    (.read 5, 24)]

/-- The hardware latches a parity error that the software does not. -/
theorem ended_receive_differs :
    (∀ step ∈ endedReceive, ({} : Chip.Params).tBusFree + 4 ≤ step.2) ∧
      hardReads {} {} endedReceive = [0x29] ∧
      softReads (State.hardReset {}) (endedReceive.map Prod.fst) = [0x09] := by
  decide +kernel

end Wish5380.Soft
