import Wish5380.Dma.System
import Wish5380.Targ.Selection

/-!
# Who drives the data lines

The chip, never made a target, and one target on the bus.  The chip stays off the data
lines of an input phase by the phase itself, except in arbitration; and the target
cannot be selected while the chip arbitrates, nor the chip arbitrate while the target
is connected.
-/

namespace Wish5380.Dma

/-- An access that does not set TARGET in the Mode Register. -/
def KeepsInitiator (a : Chip.Port) : Prop :=
  a.decode = true → a.we = true → a.adr.toNat = 2 → a.dat.getLsbD 6 = false

instance (a : Chip.Port) : Decidable (KeepsInitiator a) :=
  inferInstanceAs (Decidable (_ → _ → _ → _))

/-- The two just out of RESET. -/
def System.start (b : Targ.Buf) : System where
  chip := {}
  targ := Targ.start b

/-- The chip is an initiator, and does not arbitrate under a connected target. -/
structure Apart (y : System) : Prop where
  role : y.chip.regs.targetMode = false
  arb : y.targ.seq.connected = true → y.chip.eng.arbActive = false

section Step

variable {pc : Chip.Params} {pt : Targ.Params} {y : System} {i : Input}

theorem role_next {s : Chip.State} {a : Chip.Port} {bus : Scsi} (role : s.regs.targetMode = false)
    (keeps : KeepsInitiator a) : (s.next pc a bus).regs.targetMode = false := by
  have written : (if a.stb && a.we then s.regs.write a bus.bsy else s.regs).targetMode = false := by
    split_ifs with writes
    · rw [Bool.and_eq_true] at writes
      rw [Chip.Regs.targetMode, Chip.Regs.write_mr_eq]
      split_ifs with mode bsy
      · exact keeps (by simp [Chip.Port.decode, writes.1, mode.1]) writes.2 mode.2
      · have clear := keeps (by simp [Chip.Port.decode, writes.1, mode.1]) writes.2 mode.2
        rw [BitVec.getLsbD_and, clear, Bool.false_and]
      · exact role
    · exact role
  have clear : ∀ r : Chip.Regs, r.busyClear.targetMode = r.targetMode := by
    intro r
    simp [Chip.Regs.busyClear, Chip.Regs.targetMode]
  have reset : s.regs.scsiClear.targetMode = false := by
    simp [Chip.Regs.scsiClear, Chip.Regs.targetMode]
  show (s.regs.next a bus.bsy (s.sclr bus) (s.busyLost pc bus)).targetMode = false
  simp only [Chip.Regs.next]
  split_ifs at written ⊢ <;> simp [clear, reset, written]

/-- The lines an initiator leaves to the target. -/
theorem bus_lines (apart : Apart y) :
    (y.bus pt i).req = y.targ.seq.req ∧
      (y.bus pt i).io = (y.targ.seq.connected && y.targ.seq.phase.getLsbD 0) ∧
      (y.bus pt i).sel = (y.chip.drvEn && y.chip.regs.icrSel) := by
  rw [System.bus, Chip.settle_eq]
  simp [Scsi.or, Chip.State.drive, Targ.drive, apart.role]

theorem bus_bsy_eq : (y.bus pt i).bsy =
    (y.chip.drvEn && (y.chip.regs.icrBsy || y.chip.arbitrating) || y.targ.seq.connected) := by
  rw [System.bus, Chip.settle_eq]
  simp [Scsi.or, Chip.State.drive, Targ.drive]

/-- Arbitration neither goes on nor begins in a cycle of selection or under BSY. -/
theorem arb_next (apart : Apart y)
    (taken : y.targ.seq.connected = true ∨ Targ.selMatch pt (y.bus pt i) = true) :
    (y.chip.nextArb pc (y.bus pt i)).1 = false := by
  rw [Chip.State.nextArb]
  split_ifs with rises waits
  · rfl
  · rfl
  · rcases taken with up | matched
    · have bsy : (y.bus pt i).bsy = true := by
        rw [bus_bsy_eq, up, Bool.or_true]
      simp [apart.arb up, Chip.State.busFree, bsy]
    · obtain ⟨sel, bsy, _⟩ := Targ.Drives.selMatch_bsy matched
      have idle : y.chip.eng.arbActive = false := by
        rw [(bus_lines apart).2.2, Bool.and_eq_true] at sel
        rw [bus_bsy_eq] at bsy
        simp only [sel.1, Bool.true_and, Bool.or_eq_false_iff] at bsy
        have arbitrating := bsy.1.2
        rw [Chip.State.arbitrating] at arbitrating
        simp only [Bool.not_eq_true', Bool.not_eq_false] at waits
        simpa [waits] using arbitrating
      simp [idle, sel]

theorem Apart.next (apart : Apart y) (keeps : KeepsInitiator i.port) :
    Apart (y.next pc pt i) := by
  constructor
  · exact role_next apart.role keeps
  · intro up
    exact arb_next apart (Targ.Seq.connected_clock up)

/-- A chip that leaves the target alone is off the lines the target drives. -/
theorem Apart.off (apart : Apart y) (drives : y.targ.seq.driveBus = true) :
    y.chip.driveData (y.bus pt i) = false := by
  rw [Targ.Seq.driveBus, Bool.and_eq_true] at drives
  have arbitrating : y.chip.arbitrating = false := by
    simp [Chip.State.arbitrating, apart.arb drives.1]
  have io : (y.bus pt i).io = true := by
    rw [(bus_lines apart).2.1, drives.1, drives.2]
    rfl
  simp [Chip.State.driveData, arbitrating, apart.role, io]

/-- What the lines carry then. -/
theorem Apart.carries (apart : Apart y) (drives : y.targ.seq.driveBus = true) :
    (y.bus pt i).data = Targ.dataOut pt y.targ i.blk.count ∧
      (y.bus pt i).dbp = dbpOf (Targ.dataOut pt y.targ i.blk.count) := by
  have off : y.chip.driveData (y.bus pt i) = false := apart.off drives
  have lines := Chip.settle_eq y.chip (Targ.drive pt y.targ i.blk.count)
  rw [← System.bus] at lines
  constructor
  · rw [congrArg Scsi.data lines]
    simp [Scsi.or, Chip.State.drive, Targ.drive, off, drives]
  · rw [congrArg Scsi.dbp lines]
    simp [Scsi.or, Chip.State.drive, Targ.drive, off, drives]

end Step

theorem run_apart (pc : Chip.Params) (pt : Targ.Params) (b : Targ.Buf) (input : ℕ → Input)
    (keeps : ∀ t, KeepsInitiator (input t).port) (t : ℕ) :
    Apart (run pc pt (System.start b) input t) := by
  induction t with
  | zero =>
      constructor
      · exact (by decide : ({} : Chip.Regs).targetMode = false)
      · intro _
        rfl
  | succ t ih => exact ih.next (keeps t)

/-- While TARGET stays clear, chip and target never drive the data lines together; and
whenever REQ and I/O are true the lines carry the target's byte with good parity. -/
theorem data_lines_driven_once (pc : Chip.Params) (pt : Targ.Params) (b : Targ.Buf)
    (input : ℕ → Input) (keeps : ∀ t, KeepsInitiator (input t).port) (t : ℕ) :
    let y := run pc pt (System.start b) input t
    let bus := y.bus pt (input t)
    ¬ ((y.chip.drvEn && y.chip.driveData bus) = true ∧ y.targ.seq.driveBus = true) ∧
      (bus.req = true → bus.io = true →
        bus.data = Targ.dataOut pt y.targ (input t).blk.count ∧
          Chip.State.parityBad bus = false) := by
  intro y bus
  have apart : Apart y := run_apart pc pt b input keeps t
  constructor
  · rintro ⟨chip, targ⟩
    have off : y.chip.driveData bus = false := apart.off targ
    simp [off] at chip
  · intro req io
    have drives : y.targ.seq.driveBus = true := by
      rw [← io]
      exact (bus_lines apart).2.1.symm
    have carried : bus.data = Targ.dataOut pt y.targ (input t).blk.count ∧
        bus.dbp = dbpOf (Targ.dataOut pt y.targ (input t).blk.count) := apart.carries drives
    refine ⟨carried.1, ?_⟩
    show (bus.dbp != dbpOf bus.data) = false
    rw [carried.1, carried.2]
    exact bne_self_eq_false _

/-- The host asks for arbitration, and for nothing else. -/
def arbitrates (t : ℕ) : Input where
  port := if t = 0 then { stb := true, we := true, adr := 2, dat := 0x01 } else {}

theorem arbitrates_keeps (t : ℕ) : KeepsInitiator (arbitrates t).port := by
  unfold arbitrates
  split_ifs <;> decide

/-- Once it has the bus the chip drives the data lines, and the target does not. -/
theorem arbitration_drives_alone :
    let y := run {} {} (System.start ⟨fun _ => 0, 0, 0⟩) arbitrates 30
    (y.chip.drvEn && y.chip.driveData (y.bus {} (arbitrates 30))) = true ∧
      y.targ.seq.driveBus = false := by
  intro y
  have chip : (y.chip.drvEn && y.chip.driveData (y.bus {} (arbitrates 30))) = true := by
    decide +kernel
  have once := (data_lines_driven_once {} {} ⟨fun _ => 0, 0, 0⟩ arbitrates arbitrates_keeps 30).1
  refine ⟨chip, ?_⟩
  by_contra targ
  exact once ⟨chip, eq_true_of_ne_false targ⟩

end Wish5380.Dma
