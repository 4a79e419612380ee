import Wish5380.Chip.Steps
import Wish5380.Clocked.Interlock
import Wish5380.Targ.Protocol
import Wish5380.Targ.ReadData

/-!
# The chip and the target on one bus

The composition of `wish5380_wb.sv` around the fabric: the 5380 on one port, the
target on another, and nobody on the other two.  A cycle of the composition takes
one access of the host and one cycle of the block back end.
-/

namespace Wish5380.Dma

structure System where
  chip : Chip.State
  targ : Targ.State

structure Input where
  port : Chip.Port := {}
  blk : BlkRsp := {}

namespace System

/-- The wires in a cycle. -/
def bus (pt : Targ.Params) (y : System) (i : Input) : Scsi :=
  Chip.settle y.chip (Targ.drive pt y.targ i.blk.count)

/-- One edge, with the RESET pin released. -/
def next (pc : Chip.Params) (pt : Targ.Params) (y : System) (i : Input) : System where
  chip := y.chip.next pc i.port (y.bus pt i)
  targ := Targ.clock pt y.targ { bus := y.bus pt i, blk := i.blk }

end System

def run (pc : Chip.Params) (pt : Targ.Params) (y : System) (input : ℕ → Input) : ℕ → System :=
  Clocked.run (System.next pc pt) y input

/-! ## An initiator in a data phase -/

/-- The registers of an initiator that expects `phase` and leaves RST, ACK and TEST
MODE alone. -/
structure InitiatorRegs (phase : BitVec 3) (r : Chip.Regs) : Prop where
  role : r.targetMode = false
  tcr : r.tcrPhase = phase
  ack : r.icrAck = false
  test : r.testMode = false
  rst : r.icrRst = false

/-- The chip as such an initiator, not in arbitration. -/
structure Initiator (phase : BitVec 3) (s : Chip.State) : Prop
    extends InitiatorRegs phase s.regs where
  arb : s.arbitrating = false

/-- The target shows `phase`, and holds the bus. -/
structure Shows (phase : BitVec 3) (t : Targ.Seq) : Prop where
  up : t.connected = true
  phase_eq : t.phase = phase

section Wires

variable (pt : Targ.Params) (i : Input) {y : System} {phase : BitVec 3}

theorem bus_rst (chip : Initiator phase y.chip) : (y.bus pt i).rst = false := by
  rw [System.bus, Chip.settle_eq]
  simp [Scsi.or, Chip.State.drive, Targ.drive, chip.rst]

theorem bus_bsy (targ : Shows phase y.targ.seq) : (y.bus pt i).bsy = true := by
  rw [System.bus, Chip.settle_eq]
  simp [Scsi.or, Targ.drive, targ.up]

theorem bus_req (chip : Initiator phase y.chip) : (y.bus pt i).req = y.targ.seq.req := by
  rw [System.bus, Chip.settle_eq]
  simp [Scsi.or, Chip.State.drive, Targ.drive, chip.role]

theorem bus_ack (chip : Initiator phase y.chip) : (y.bus pt i).ack = y.chip.dmaAck := by
  rw [System.bus, Chip.settle_eq]
  simp [Scsi.or, Chip.State.drive, Targ.drive, chip.role, chip.ack, chip.test, Chip.State.drvEn]

theorem bus_phase (chip : Initiator phase y.chip) (targ : Shows phase y.targ.seq) :
    (y.bus pt i).phase = phase := by
  have lines : (y.bus pt i).phase = (Targ.drive pt y.targ i.blk.count).phase := by
    rw [System.bus, Chip.settle_eq]
    simp [Scsi.phase, Scsi.or, Chip.State.drive, chip.role]
  rw [lines, Targ.drive_phase _ targ.up, targ.phase_eq]

/-- The data lines are the OR of what the two drive. -/
theorem bus_data : (y.bus pt i).data =
    (if y.chip.drvEn && y.chip.driveData (y.bus pt i) then y.chip.regs.odr else 0) |||
      (Targ.drive pt y.targ i.blk.count).data :=
  congrArg Scsi.data (Chip.settle_eq y.chip (Targ.drive pt y.targ i.blk.count))

theorem bus_phaseMatch (chip : Initiator phase y.chip) (targ : Shows phase y.targ.seq) :
    y.chip.phaseMatch (y.bus pt i) = true := by
  simp [Chip.State.phaseMatch, bus_phase pt i chip targ, chip.tcr]

end Wires

/-! ## REQ over one edge -/

/-- Whatever state the target is in, it keeps REQ up until it sees ACK, and then drops it. -/
theorem sink_step (pt : Targ.Params) {t : Targ.Seq} {c : Targ.Cycle} (orderly : t.Orderly)
    (pin : c.rst = false) (rst : c.bus.rst = false) :
    Interlock.Sink.Step c.bus.ack t.req (t.clock pt c).req := by
  have edge := Targ.Seq.clock_edge pt t c
  have orderly' := edge.orderly orderly
  cases high : t.req with
  | false =>
      cases later : (t.clock pt c).req with
      | false => exact .rest
      | true => exact .raise
  | true =>
      have hs := orderly.req_iff.mp high
      obtain ⟨_, _, asks, _⟩ :=
        edge.holds pin rst (orderly.rests (by simp [hs])) (by simp [hs]) (.inl hs)
      cases ack : c.bus.ack with
      | false =>
          rw [orderly'.req_iff.mpr (asks.mpr ⟨hs, ack⟩)]
          exact .keep rfl
      | true =>
          have low : (t.clock pt c).req = false := by
            rw [← Bool.not_eq_true, orderly'.req_iff, asks]
            simp [ack]
          rw [low]
          exact .taken rfl

theorem System.next_req (pc : Chip.Params) (pt : Targ.Params) {y : System} (i : Input)
    (orderly : y.targ.seq.Orderly) (rst : (y.bus pt i).rst = false) :
    Interlock.Sink.Step (y.bus pt i).ack y.targ.seq.req (y.next pc pt i).targ.seq.req :=
  sink_step pt orderly (c := { bus := y.bus pt i, blk := i.blk }) rfl rst

theorem System.next_orderly (pc : Chip.Params) (pt : Targ.Params) {y : System} (i : Input)
    (orderly : y.targ.seq.Orderly) : (y.next pc pt i).targ.seq.Orderly :=
  (Targ.Seq.clock_edge pt y.targ.seq { bus := y.bus pt i, blk := i.blk }).orderly orderly

/-! ## What the host may write -/

/-- An access leaves the chip the initiator it is: RST, ACK and TEST MODE stay clear
in what it writes to Initiator Command, TARGET in what it writes to Mode, and the
phase in Target Command. -/
def KeepsRole (phase : BitVec 3) (a : Chip.Port) : Prop :=
  a.decode = true → a.we = true →
    (a.adr.toNat = 1 →
      a.dat.getLsbD 7 = false ∧ a.dat.getLsbD 6 = false ∧ a.dat.getLsbD 4 = false) ∧
    (a.adr.toNat = 2 → a.dat.getLsbD 6 = false) ∧
    (a.adr.toNat = 3 → a.dat.extractLsb' 0 3 = phase)

instance (phase : BitVec 3) (a : Chip.Port) : Decidable (KeepsRole phase a) :=
  inferInstanceAs (Decidable (_ → _ → _ ∧ _ ∧ _))

theorem InitiatorRegs.write {phase : BitVec 3} {r : Chip.Regs} {a : Chip.Port}
    (regs : InitiatorRegs phase r) (keeps : KeepsRole phase a) (stb : a.stb = true)
    (we : a.we = true) : InitiatorRegs phase (r.write a true) := by
  obtain ⟨role, tcr, ack, test, rst⟩ := regs
  cases dack : a.dack with
  | true =>
      simp only [Chip.Regs.write, dack]
      exact ⟨role, tcr, ack, test, rst⟩
  | false =>
      obtain ⟨command, mode, target⟩ := keeps (by simp [Chip.Port.decode, stb, dack]) we
      simp only [Chip.Regs.write, dack, Bool.false_eq_true, if_false, if_true]
      generalize a.adr.toNat = n at command mode target ⊢
      rcases n with _ | _ | _ | _ | _ | n
      · exact ⟨role, tcr, ack, test, rst⟩
      · exact ⟨role, tcr, (command rfl).2.2, (command rfl).2.1, (command rfl).1⟩
      · exact ⟨mode rfl, tcr, ack, test, rst⟩
      · exact ⟨role, target rfl, ack, test, rst⟩
      · exact ⟨role, tcr, ack, test, rst⟩
      · exact ⟨role, tcr, ack, test, rst⟩

theorem Initiator.next (pc : Chip.Params) {s : Chip.State} {a : Chip.Port} {bus : Scsi}
    {phase : BitVec 3} (chip : Initiator phase s) (keeps : KeepsRole phase a)
    (rst : bus.rst = false) (bsy : bus.bsy = true) : Initiator phase (s.next pc a bus) := by
  refine ⟨?_, ?_⟩
  · rw [Chip.State.next_regs rst bsy]
    split_ifs with writes
    · rw [Bool.and_eq_true] at writes
      exact chip.toInitiatorRegs.write keeps writes.1 writes.2
    · exact chip.toInitiatorRegs
  · rw [Chip.State.arbitrating, Chip.State.next_arbActive rst bsy, chip.arb]
    rfl

end Wish5380.Dma
