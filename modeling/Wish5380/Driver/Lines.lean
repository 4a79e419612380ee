import Wish5380.Driver.Model
import Wish5380.Targ.Protocol

/-!
# The lines under the driver

What one cycle does while the driver keeps the chip in the initiator's role, out of arbitration
and out of DMA MODE: nothing reaches the target but ACK, ATN and the data lines.  Over a byte the
two of them are `Poised`, until the target asks, then `Asked`, then `Raised`, and poised again.
-/

namespace Wish5380.Driver

open Clocked

/-- Mode clear, and no RST, TEST MODE, BSY or SEL in Initiator Command. -/
structure Quiet (regs : Chip.Regs) : Prop where
  mr : regs.mr = 0
  icr : regs.icr &&& 0xcc = 0

/-- The byte that changes hands in a cycle, and the phase it does so in: the target asks for
it, and sees ACK. -/
def handed (pt : Targ.Params) (y : Dma.System) (blk : BlkRsp) : List (BitVec 3 × Byte) :=
  if y.targ.seq.req && (y.bus pt { blk := blk }).ack then
    [(y.targ.seq.phase, (y.bus pt { blk := blk }).data)]
  else []

/-- The medium keeps its size, and during DATA IN the back end keeps its hands off the sector
buffer. -/
structure Behaves (count : BitVec 32) (y : Dma.System) (blk : BlkRsp) : Prop where
  count : blk.count = count
  unwritten : y.targ.seq.st = .datain → blk.bufWe = false

/-! ## The chip -/

namespace Quiet

variable {regs : Chip.Regs} {s : Chip.State} {bus : Scsi}

theorem icr_bit (quiet : Quiet regs) {i : ℕ} (bit : (0xcc#8).getLsbD i = true) :
    regs.icr.getLsbD i = false := by
  have zero := congrArg (BitVec.getLsbD · i) quiet.icr
  simpa [bit] using zero

theorem icrRst (quiet : Quiet regs) : regs.icrRst = false := quiet.icr_bit (by decide)
theorem testMode (quiet : Quiet regs) : regs.testMode = false := quiet.icr_bit (by decide)
theorem icrBsy (quiet : Quiet regs) : regs.icrBsy = false := quiet.icr_bit (by decide)
theorem icrSel (quiet : Quiet regs) : regs.icrSel = false := quiet.icr_bit (by decide)

theorem targetMode (quiet : Quiet regs) : regs.targetMode = false := by
  simp [Chip.Regs.targetMode, quiet.mr]

theorem dmaMode (quiet : Quiet regs) : regs.dmaMode = false := by
  simp [Chip.Regs.dmaMode, quiet.mr]

theorem arbitrate (quiet : Quiet regs) : regs.arbitrate = false := by
  simp [Chip.Regs.arbitrate, quiet.mr]

theorem monitorBsy (quiet : Quiet regs) : regs.monitorBsy = false := by
  simp [Chip.Regs.monitorBsy, quiet.mr]

/-- What is left of what a chip drives. -/
theorem drive (quiet : Quiet s.regs) : s.drive bus =
    { atn := s.regs.icrAtn
      ack := s.regs.icrAck
      data := if s.regs.icrData && (!bus.io && s.phaseMatch bus) then s.regs.odr else 0
      dbp := (s.regs.icrData && (!bus.io && s.phaseMatch bus)) && dbpOf s.regs.odr } := by
  simp [Chip.State.drive, Chip.State.driveData, Chip.State.drvEn, Chip.State.arbitrating,
    Chip.State.dmaAck, quiet.icrRst, quiet.testMode, quiet.icrBsy, quiet.icrSel, quiet.targetMode,
    quiet.dmaMode, quiet.arbitrate]

end Quiet

/-- The registers after an access. -/
def wrote (regs : Chip.Regs) (bsy : Bool) (a : Option Access) : Chip.Regs :=
  if (port a).stb && (port a).we then regs.write (port a) bsy else regs

section Wrote

variable (regs : Chip.Regs) (bsy : Bool) (v : Byte)

@[simp] theorem wrote_none : wrote regs bsy none = regs := rfl
@[simp] theorem wrote_read (reg : BitVec 3) : wrote regs bsy (some (.read reg)) = regs := rfl
@[simp] theorem wrote_odr : wrote regs bsy (some (.write rOdr v)) = { regs with odr := v } := rfl
@[simp] theorem wrote_icr : wrote regs bsy (some (.write rIcr v)) = { regs with icr := v } := rfl
@[simp] theorem wrote_tcr : wrote regs bsy (some (.write rTcr v)) = { regs with tcr := v } := rfl
@[simp] theorem wrote_ser : wrote regs bsy (some (.write rSer v)) = { regs with ser := v } := rfl
@[simp] theorem wrote_mr : wrote regs bsy (some (.write rMr v)) =
    { regs with mr := if bsy then v else v &&& 0xfd } := rfl

end Wrote

/-- Only the driver writes the registers. -/
theorem next_regs (pc : Chip.Params) (pt : Targ.Params) (y : Dma.System) (blk : BlkRsp)
    (a : Option Access) (rst : (y.bus pt { port := port a, blk := blk }).rst = false)
    (monitor : y.chip.regs.monitorBsy = false) :
    ((machine pc pt).next y blk a).chip.regs =
      wrote y.chip.regs (y.bus pt { port := port a, blk := blk }).bsy a := by
  simp [machine, Dma.System.next, Chip.State.next, Chip.Regs.next, wrote,
    Chip.State.sclr_of_rst rst, Chip.State.busyLost, monitor]

/-! ## The wires -/

section Wires

variable (pt : Targ.Params) {y : Dma.System} (i : Dma.Input)

theorem bus_eq (quiet : Quiet y.chip.regs) : y.bus pt i =
    { bsy := y.targ.seq.connected
      req := y.targ.seq.req
      ack := y.chip.regs.icrAck
      atn := y.chip.regs.icrAtn
      msg := y.targ.seq.connected && y.targ.seq.phase.getLsbD 2
      cd := y.targ.seq.connected && y.targ.seq.phase.getLsbD 1
      io := y.targ.seq.connected && y.targ.seq.phase.getLsbD 0
      data := (y.bus pt i).data
      dbp := (y.bus pt i).dbp } := by
  rw [Dma.System.bus, Chip.settle_eq, quiet.drive]
  simp [Scsi.or, Targ.drive]

theorem bus_rst (quiet : Quiet y.chip.regs) : (y.bus pt i).rst = false := by
  rw [bus_eq pt i quiet]

theorem bus_sel (quiet : Quiet y.chip.regs) : (y.bus pt i).sel = false := by
  rw [bus_eq pt i quiet]

theorem bus_bsy (quiet : Quiet y.chip.regs) : (y.bus pt i).bsy = y.targ.seq.connected := by
  rw [bus_eq pt i quiet]

theorem bus_req (quiet : Quiet y.chip.regs) : (y.bus pt i).req = y.targ.seq.req := by
  rw [bus_eq pt i quiet]

theorem bus_ack (quiet : Quiet y.chip.regs) : (y.bus pt i).ack = y.chip.regs.icrAck := by
  rw [bus_eq pt i quiet]

theorem bus_phase (quiet : Quiet y.chip.regs) (up : y.targ.seq.connected = true) :
    (y.bus pt i).phase = y.targ.seq.phase := by
  rw [← Targ.drive_phase (p := pt) i.blk.count up, bus_eq pt i quiet]
  rfl

/-- Towards the initiator the target alone drives the data lines. -/
theorem bus_data_in (quiet : Quiet y.chip.regs) (up : y.targ.seq.connected = true)
    (towards : y.targ.seq.phase.getLsbD 0 = true) :
    (y.bus pt i).data = Targ.dataOut pt y.targ i.blk.count := by
  have io : (y.bus pt i).io = true := by
    rw [bus_eq pt i quiet]
    simp [up, towards]
  have wires := congrArg Scsi.data (Chip.settle_eq y.chip (Targ.drive pt y.targ i.blk.count))
  change (y.bus pt i).data = _ at wires
  rw [wires]
  change (Scsi.or (y.chip.drive (y.bus pt i)) _).data = _
  rw [quiet.drive]
  simp [Scsi.or, io, Targ.drive, Targ.Seq.driveBus, up, towards]

/-- Towards the target the chip drives them, in the phase it expects. -/
theorem bus_data_out (quiet : Quiet y.chip.regs) (up : y.targ.seq.connected = true)
    (away : y.targ.seq.phase.getLsbD 0 = false) (asserts : y.chip.regs.icrData = true)
    (expects : y.chip.regs.tcrPhase = y.targ.seq.phase) :
    (y.bus pt i).data = y.chip.regs.odr := by
  have io : (y.bus pt i).io = false := by
    rw [bus_eq pt i quiet]
    change (_ && y.targ.seq.phase.getLsbD 0) = false
    rw [away, Bool.and_false]
  have floats : (Targ.drive pt y.targ i.blk.count).data = 0 := by
    change (if (_ && y.targ.seq.phase.getLsbD 0) = true then _ else _) = _
    rw [away, Bool.and_false, if_neg Bool.false_ne_true]
  have same : y.chip.phaseMatch (y.bus pt i) = true := by
    simp [Chip.State.phaseMatch, bus_phase pt i quiet up, expects]
  have wires := congrArg Scsi.data (Chip.settle_eq y.chip (Targ.drive pt y.targ i.blk.count))
  change (y.bus pt i).data = _ at wires
  rw [wires]
  change (y.chip.drive (y.bus pt i)).data ||| (Targ.drive pt y.targ i.blk.count).data = _
  rw [floats, quiet.drive]
  simp [io, same, asserts]

end Wires

/-! ## The target's edge -/

/-- The read port of the buffer has caught up with the index while a byte is handed over. -/
def Caught (t : Targ.State) : Prop :=
  t.seq.hs ≠ .setup → t.seq.st = .datain → t.buf.aRdata = t.buf.mem t.seq.aAddr

section Edge

variable {pc : Chip.Params} {pt : Targ.Params} {y : Dma.System} {blk : BlkRsp} {a : Option Access}
  {count : BitVec 32}

theorem next_targ (pc : Chip.Params) (pt : Targ.Params) (y : Dma.System) (blk : BlkRsp)
    (a : Option Access) : ((machine pc pt).next y blk a).targ =
      Targ.clock pt y.targ { bus := y.bus pt { blk := blk }, blk := blk } :=
  rfl

theorem targ_edge (pc : Chip.Params) (pt : Targ.Params) (y : Dma.System) (blk : BlkRsp)
    (a : Option Access) : Targ.Seq.Edge pt y.targ.seq { bus := y.bus pt { blk := blk }, blk := blk }
      ((machine pc pt).next y blk a).targ.seq :=
  Targ.Seq.clock_edge pt y.targ.seq _

/-- In DATA IN nobody writes the buffer. -/
theorem buf_next (pc : Chip.Params) (pt : Targ.Params) (a : Option Access)
    (behaves : Behaves count y blk) (st : y.targ.seq.st = .datain) :
    ((machine pc pt).next y blk a).targ.buf.mem = y.targ.buf.mem ∧
      ((machine pc pt).next y blk a).targ.buf.aRdata = y.targ.buf.mem y.targ.seq.aAddr := by
  have unwritten := behaves.unwritten st
  simp [next_targ, Targ.clock, Targ.Buf.next, Targ.aWe_of_st _ (show y.targ.seq.st ≠ .dataout by
    simp [st]), unwritten]

theorem caught_next (behaves : Behaves count y blk) (orderly : y.targ.seq.Orderly) :
    Caught ((machine pc pt).next y blk a).targ := by
  intro begun datain
  obtain ⟨st, addr⟩ := (targ_edge pc pt y blk a).in_datain orderly datain begun
  obtain ⟨mem, read⟩ := buf_next pc pt a behaves st
  rw [read, mem, addr]

end Edge

/-! ## Between two bytes -/

/-- ACK is up only with the byte already taken. -/
structure Poised (y : Dma.System) : Prop where
  quiet : Quiet y.chip.regs
  orderly : y.targ.seq.Orderly
  caught : Caught y.targ
  acked : y.chip.regs.icrAck = true → y.targ.seq.Lets ∧ y.targ.seq.Transfers

/-- The target asks for a byte in `phase`; towards the initiator it is `v`. -/
structure Asked (pt : Targ.Params) (count : BitVec 32) (phase : BitVec 3) (v : Byte)
    (y : Dma.System) : Prop extends Poised y where
  asks : y.targ.seq.hs = .req
  shows_ : y.targ.seq.phase = phase
  offers : phase.getLsbD 0 = true → Targ.dataOut pt y.targ count = v

/-- The driver has raised ACK over a byte the target is still asking for. -/
structure Raised (pt : Targ.Params) (count : BitVec 32) (phase : BitVec 3) (v : Byte)
    (y : Dma.System) : Prop where
  quiet : Quiet y.chip.regs
  orderly : y.targ.seq.Orderly
  ack : y.chip.regs.icrAck = true
  asks : y.targ.seq.hs = .req
  shows_ : y.targ.seq.phase = phase
  data : ∀ blk : BlkRsp, blk.count = count → (y.bus pt { blk := blk }).data = v

section Step

variable {pc : Chip.Params} {pt : Targ.Params} {y : Dma.System} {blk : BlkRsp} {a : Option Access}
  {count : BitVec 32} {phase : BitVec 3} {v : Byte}

theorem Poised.regs_eq (pc : Chip.Params) (pt : Targ.Params) (blk : BlkRsp) (a : Option Access)
    (poised : Poised y) : ((machine pc pt).next y blk a).chip.regs =
      wrote y.chip.regs y.targ.seq.connected a := by
  rw [next_regs pc pt y blk a (bus_rst pt _ poised.quiet) poised.quiet.monitorBsy,
    bus_bsy pt _ poised.quiet]

theorem Poised.handed (poised : Poised y) : handed pt y blk = [] := by
  rw [Driver.handed, bus_ack pt _ poised.quiet]
  cases ack : y.chip.regs.icrAck with
  | false => simp
  | true =>
      have past := (poised.acked ack).1.2
      simp [Targ.Seq.req, past]

/-- Between bytes any access will do that raises no ACK. -/
theorem Poised.next (poised : Poised y) (behaves : Behaves count y blk)
    (quiet : Quiet (wrote y.chip.regs y.targ.seq.connected a))
    (calm : (wrote y.chip.regs y.targ.seq.connected a).icrAck = true → y.chip.regs.icrAck = true) :
    Poised ((machine pc pt).next y blk a) := by
  have edge := targ_edge pc pt y blk a
  have regs := poised.regs_eq pc pt blk a
  refine ⟨regs ▸ quiet, edge.orderly poised.orderly, caught_next behaves poised.orderly, ?_⟩
  intro up
  rw [regs] at up
  have ack := calm up
  obtain ⟨past, moves⟩ := poised.acked ack
  have seen : (y.bus pt { blk := blk }).ack = true := (bus_ack pt _ poised.quiet).trans ack
  obtain ⟨st, begun, asks, -⟩ := edge.holds rfl (bus_rst pt _ poised.quiet) moves past.1 (.inr seen)
  refine ⟨⟨begun, fun now => past.2 (asks.mp now).1⟩, ?_⟩
  rw [Targ.Seq.Transfers, st]
  exact moves

theorem Asked.low (asked : Asked pt count phase v y) : y.chip.regs.icrAck = false := by
  cases ack : y.chip.regs.icrAck with
  | false => rfl
  | true => exact absurd asked.asks (asked.acked ack).1.2

theorem Asked.moves (asked : Asked pt count phase v y) : y.targ.seq.Transfers :=
  asked.orderly.rests (by simp [asked.asks])

theorem Asked.up (asked : Asked pt count phase v y) : y.targ.seq.connected = true :=
  asked.moves.connected

/-- Without ACK the target goes on asking. -/
theorem Asked.next (asked : Asked pt count phase v y) (behaves : Behaves count y blk)
    (quiet : Quiet (wrote y.chip.regs y.targ.seq.connected a))
    (low : (wrote y.chip.regs y.targ.seq.connected a).icrAck = false) :
    Asked pt count phase v ((machine pc pt).next y blk a) := by
  have edge := targ_edge pc pt y blk a
  have poised : Poised ((machine pc pt).next y blk a) := asked.toPoised.next behaves quiet
    fun up => absurd (up.symm.trans low) (by decide)
  have ack : (y.bus pt { blk := blk }).ack = false := (bus_ack pt _ asked.quiet).trans asked.low
  obtain ⟨st, -, asks, same⟩ := edge.holds rfl (bus_rst pt _ asked.quiet) asked.moves
    (by simp [asked.asks]) (.inl asked.asks)
  have phases : ((machine pc pt).next y blk a).targ.seq.phase = y.targ.seq.phase := by
    simp only [Targ.Seq.phase, st]
  refine ⟨poised, asks.mpr ⟨asked.asks, ack⟩, phases.trans asked.shows_, fun towards => ?_⟩
  have drives : y.targ.seq.driveBus = true := by
    simp [Targ.Seq.driveBus, asked.up, asked.shows_, towards]
  rw [← asked.offers towards]
  refine Targ.dataOut_congr (same drives) (fun datain => ?_) drives asked.moves
  rw [(buf_next pc pt a behaves datain).2, asked.caught (by simp [asked.asks]) datain]

/-- ACK goes up over a byte that comes in. -/
theorem Asked.raises_in (asked : Asked pt count phase v y) (behaves : Behaves count y blk)
    (towards : phase.getLsbD 0 = true) (icr : Byte) (keeps : icr &&& 0xcc = 0)
    (ack : icr.getLsbD 4 = true) :
    Raised pt count phase v ((machine pc pt).next y blk (some (.write rIcr icr))) := by
  have held : Asked pt count phase v ((machine pc pt).next y blk none) :=
    asked.next behaves asked.quiet asked.low
  have regs := asked.regs_eq pc pt blk (some (.write rIcr icr))
  rw [wrote_icr] at regs
  have quiet : Quiet ((machine pc pt).next y blk (some (.write rIcr icr))).chip.regs := by
    rw [regs]
    exact ⟨asked.quiet.mr, keeps⟩
  have same : ((machine pc pt).next y blk (some (.write rIcr icr))).targ =
      ((machine pc pt).next y blk none).targ := rfl
  refine ⟨quiet, same ▸ held.orderly, ?_, same ▸ held.asks, same ▸ held.shows_, fun blk' size => ?_⟩
  · rw [regs]
    exact ack
  · rw [bus_data_in pt _ quiet (same ▸ held.up) (by rw [same, held.shows_, towards]), same]
    change Targ.dataOut pt _ blk'.count = v
    rw [size]
    exact held.offers towards

/-- ACK goes up over a byte that goes out. -/
theorem Asked.raises_out (asked : Asked pt count phase v y) (behaves : Behaves count y blk)
    (away : phase.getLsbD 0 = false) (expects : y.chip.regs.tcrPhase = phase) (icr : Byte)
    (keeps : icr &&& 0xcc = 0) (ack : icr.getLsbD 4 = true) (data : icr.getLsbD 0 = true) :
    Raised pt count phase y.chip.regs.odr
      ((machine pc pt).next y blk (some (.write rIcr icr))) := by
  have held : Asked pt count phase v ((machine pc pt).next y blk none) :=
    asked.next behaves asked.quiet asked.low
  have regs := asked.regs_eq pc pt blk (some (.write rIcr icr))
  rw [wrote_icr] at regs
  have quiet : Quiet ((machine pc pt).next y blk (some (.write rIcr icr))).chip.regs := by
    rw [regs]
    exact ⟨asked.quiet.mr, keeps⟩
  have same : ((machine pc pt).next y blk (some (.write rIcr icr))).targ =
      ((machine pc pt).next y blk none).targ := rfl
  refine ⟨quiet, same ▸ held.orderly, ?_, same ▸ held.asks, same ▸ held.shows_, fun blk' size => ?_⟩
  · rw [regs]
    exact ack
  · rw [bus_data_out pt _ quiet (same ▸ held.up) (by rw [same, held.shows_, away])
      (by rw [regs]; exact data)
      (by rw [regs, same, held.shows_, ← expects]; rfl), regs]

/-- In the cycle after it the target takes the byte. -/
theorem Raised.handed (raised : Raised pt count phase v y) (size : blk.count = count) :
    handed pt y blk = [(phase, v)] := by
  rw [Driver.handed, bus_ack pt _ raised.quiet, raised.ack, raised.orderly.req_iff.mpr raised.asks,
    raised.shows_, raised.data blk size]
  rfl

theorem Raised.next (raised : Raised pt count phase v y) (behaves : Behaves count y blk)
    (same : wrote y.chip.regs y.targ.seq.connected a = y.chip.regs) :
    Poised ((machine pc pt).next y blk a) ∧
      ((machine pc pt).next y blk a).chip.regs = y.chip.regs ∧
      ((machine pc pt).next y blk a).targ.seq.req = false := by
  have edge := targ_edge pc pt y blk a
  have moves := raised.orderly.rests (by simp [raised.asks])
  have seen : (y.bus pt { blk := blk }).ack = true := (bus_ack pt _ raised.quiet).trans raised.ack
  obtain ⟨st, begun, asks, -⟩ := edge.holds rfl (bus_rst pt _ raised.quiet) moves
    (by simp [raised.asks]) (.inr seen)
  have past : ((machine pc pt).next y blk a).targ.seq.hs ≠ .req := by
    intro now
    exact absurd (seen.symm.trans (asks.mp now).2) (by decide)
  have regs : ((machine pc pt).next y blk a).chip.regs = y.chip.regs := by
    rw [next_regs pc pt y blk a (bus_rst pt _ raised.quiet) raised.quiet.monitorBsy,
      bus_bsy pt _ raised.quiet, same]
  refine ⟨⟨regs ▸ raised.quiet, edge.orderly raised.orderly, caught_next behaves raised.orderly,
    fun _ => ⟨⟨begun, past⟩, ?_⟩⟩, regs, by simp [Targ.Seq.req, past]⟩
  rw [Targ.Seq.Transfers, st]
  exact moves

end Step

end Wish5380.Driver
