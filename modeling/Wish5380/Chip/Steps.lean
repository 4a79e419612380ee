import Wish5380.Chip.Model

/-!
# What one edge of the chip does

The wires of the fabric settle in one pass, and while BSY is true and RST is
false the engine leaves the registers to the host: what remains is the DMA
handshake.
-/

namespace Wish5380

theorem scsiFabric_pair (a b : Scsi) : scsiFabric a b {} {} = a.or b := by
  simp [scsiFabric, Scsi.or]

namespace Chip

namespace State

/-- What a chip drives depends on the phase lines it sees and on nothing else. -/
theorem drive_congr (s : State) {b c : Scsi} (phase : b.phase = c.phase) (io : b.io = c.io) :
    s.drive b = s.drive c := by
  simp [drive, driveData, phaseMatch, phase, io]

end State

/-! ## The settled wires -/

section Settle

variable (s t : State) (rest : Scsi)

/-- The wires are what the devices drive when they see the wires. -/
theorem settle_eq : settle s rest = (s.drive (settle s rest)).or rest := by
  have same : s.drive (settle s rest) = s.drive (scsiFabric (s.drive rest) rest {} {}) :=
    s.drive_congr rfl rfl
  rw [same, settle, scsiFabric_pair]

theorem settleBoth_eq :
    settleBoth s t = (s.drive (settleBoth s t)).or (t.drive (settleBoth s t)) := by
  have first : s.drive (settleBoth s t) = s.drive (scsiFabric (s.drive {}) (t.drive {}) {} {}) :=
    s.drive_congr rfl rfl
  have second : t.drive (settleBoth s t) = t.drive (scsiFabric (s.drive {}) (t.drive {}) {} {}) :=
    t.drive_congr rfl rfl
  rw [first, second, settleBoth, scsiFabric_pair]

end Settle

/-! ## One write -/

namespace Regs

theorem write_odr (r : Regs) (a : Port) (bsy : Bool) :
    (r.write a bsy).odr = if a.dack = true ∨ a.adr.toNat = 0 then a.dat else r.odr := by
  cases dack : a.dack with
  | true => simp [write, dack]
  | false =>
      simp only [write, dack]
      generalize a.adr.toNat = n
      match n with
      | 0 | 1 | 2 | 3 | 4 => simp
      | n + 5 => simp

theorem write_icr (r : Regs) (a : Port) (bsy : Bool) :
    (r.write a bsy).icr = if a.dack = false ∧ a.adr.toNat = 1 then a.dat else r.icr := by
  cases dack : a.dack with
  | true => simp [write, dack]
  | false =>
      simp only [write, dack]
      generalize a.adr.toNat = n
      match n with
      | 0 | 1 | 2 | 3 | 4 => simp
      | n + 5 => simp

theorem write_mr_eq (r : Regs) (a : Port) (bsy : Bool) :
    (r.write a bsy).mr = if a.dack = false ∧ a.adr.toNat = 2 then
      if bsy then a.dat else a.dat &&& 0xfd else r.mr := by
  cases dack : a.dack with
  | true => simp [write, dack]
  | false =>
      simp only [write, dack]
      generalize a.adr.toNat = n
      match n with
      | 0 | 1 | 2 | 3 | 4 => simp
      | n + 5 => simp

theorem write_mr (r : Regs) (a : Port) :
    (r.write a true).mr = if a.dack = false ∧ a.adr.toNat = 2 then a.dat else r.mr := by
  rw [write_mr_eq]
  rfl

/-- The phase lines a target drives are the low bits of its Target Command Register. -/
theorem tcrPhase_eq (r : Regs) :
    BitVec.ofBool r.tcrMsg ++ BitVec.ofBool r.tcrCd ++ BitVec.ofBool r.tcrIo = r.tcrPhase := by
  apply BitVec.eq_of_getLsbD_eq
  intro i within
  simp only [BitVec.getLsbD_append, tcrPhase, BitVec.getLsbD_extractLsb',
    tcrMsg, tcrCd, tcrIo]
  match i with
  | 0 => simp
  | 1 => simp
  | 2 => simp
  | i + 3 => omega

end Regs

/-! ## The registers while a target holds the bus -/

namespace State

section Held

variable {p : Params} {s : State} {a : Port} {bus : Scsi}

theorem sclr_of_rst (rst : bus.rst = false) : s.sclr bus = false := by
  simp [sclr, rst]

theorem busyLost_of_bsy (bsy : bus.bsy = true) : s.busyLost p bus = false := by
  simp [busyLost, bsySettledFalse, bsy]

/-- The host is the only one to write the registers. -/
theorem next_regs (rst : bus.rst = false) (bsy : bus.bsy = true) :
    (s.next p a bus).regs = if a.stb && a.we then s.regs.write a true else s.regs := by
  simp [next, Regs.next, sclr_of_rst rst, busyLost_of_bsy bsy, bsy]

/-- Nobody begins to arbitrate. -/
theorem next_arbActive (rst : bus.rst = false) (bsy : bus.bsy = true) :
    (s.next p a bus).eng.arbActive = s.arbitrating := by
  cases on : s.regs.arbitrate <;>
    simp [next, nextEng, nextArb, sclr_of_rst rst, busFree, bsy, arbitrating, on]

/-- Without DMA MODE the handshake is over. -/
theorem next_dma_off (rst : bus.rst = false) (off : s.regs.dmaMode = false) :
    (s.next p a bus).eng.dmaSt = .idle ∧ (s.next p a bus).eng.drqQ = false := by
  simp [next, nextEng, nextDma, sclr_of_rst rst, off]

/-- With it the handshake takes its step. -/
theorem next_dma_on (rst : bus.rst = false) (on : s.regs.dmaMode = true) :
    (s.next p a bus).eng.dmaSt = (s.dmaStep a bus).dmaSt ∧
      (s.next p a bus).eng.dmaTgt = (s.dmaStep a bus).dmaTgt ∧
      (s.next p a bus).eng.drqQ = (s.dmaStep a bus).drqQ ∧
      (s.next p a bus).eng.idrQ = (s.dmaStep a bus).idrQ := by
  simp [next, nextEng, nextDma, sclr_of_rst rst, on]

end Held

end State

end Chip

end Wish5380
