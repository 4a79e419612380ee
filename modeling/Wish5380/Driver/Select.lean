import Wish5380.Driver.Pio

/-!
# Selection by the driver

`select` never moves a byte, and it only comes back with a target that was named: one that saw
its own ID beside SEL on a free bus, found ATN up, and will go to MESSAGE OUT.
-/

namespace Wish5380.Driver

open Clocked

/-- What the driver keeps to from the first write of `select` to the last: no RST, TEST MODE or
ACK, and nothing in Mode but ARBITRATE. -/
structure Selecting (y : Dma.System) : Prop where
  icr : y.chip.regs.icr &&& 0xd0 = 0
  mr : y.chip.regs.mr &&& 0xfe = 0
  orderly : y.targ.seq.Orderly
  caught : Caught y.targ

namespace Selecting

variable {y : Dma.System}

theorem icr_bit (selecting : Selecting y) {i : ℕ} (bit : (0xd0#8).getLsbD i = true) :
    y.chip.regs.icr.getLsbD i = false := by
  have zero := congrArg (BitVec.getLsbD · i) selecting.icr
  simpa [bit] using zero

theorem mr_bit (selecting : Selecting y) {i : ℕ} (bit : (0xfe#8).getLsbD i = true) :
    y.chip.regs.mr.getLsbD i = false := by
  have zero := congrArg (BitVec.getLsbD · i) selecting.mr
  simpa [bit] using zero

theorem icrRst (selecting : Selecting y) : y.chip.regs.icrRst = false :=
  selecting.icr_bit (by decide)
theorem testMode (selecting : Selecting y) : y.chip.regs.testMode = false :=
  selecting.icr_bit (by decide)
theorem icrAck (selecting : Selecting y) : y.chip.regs.icrAck = false :=
  selecting.icr_bit (by decide)
theorem targetMode (selecting : Selecting y) : y.chip.regs.targetMode = false :=
  selecting.mr_bit (by decide)
theorem dmaMode (selecting : Selecting y) : y.chip.regs.dmaMode = false :=
  selecting.mr_bit (by decide)
theorem monitorBsy (selecting : Selecting y) : y.chip.regs.monitorBsy = false :=
  selecting.mr_bit (by decide)

/-- What is left of what the chip drives. -/
theorem drive (selecting : Selecting y) (bus : Scsi) : y.chip.drive bus =
    { bsy := y.chip.regs.icrBsy || y.chip.arbitrating
      sel := y.chip.regs.icrSel
      atn := y.chip.regs.icrAtn
      data := if y.chip.driveData bus then y.chip.regs.odr else 0
      dbp := y.chip.driveData bus && dbpOf y.chip.regs.odr } := by
  simp [Chip.State.drive, Chip.State.drvEn, Chip.State.dmaAck, selecting.icrRst,
    selecting.testMode, selecting.icrAck, selecting.targetMode, selecting.dmaMode]

variable (pt : Targ.Params) (i : Dma.Input)

theorem bus_eq (selecting : Selecting y) : y.bus pt i =
    { bsy := y.chip.regs.icrBsy || y.chip.arbitrating || y.targ.seq.connected
      sel := y.chip.regs.icrSel
      req := y.targ.seq.req
      atn := y.chip.regs.icrAtn
      msg := y.targ.seq.connected && y.targ.seq.phase.getLsbD 2
      cd := y.targ.seq.connected && y.targ.seq.phase.getLsbD 1
      io := y.targ.seq.connected && y.targ.seq.phase.getLsbD 0
      data := (y.bus pt i).data
      dbp := (y.bus pt i).dbp } := by
  rw [Dma.System.bus, Chip.settle_eq, selecting.drive]
  simp [Scsi.or, Targ.drive]

theorem bus_rst (selecting : Selecting y) : (y.bus pt i).rst = false := by
  rw [selecting.bus_eq pt i]

theorem bus_ack (selecting : Selecting y) : (y.bus pt i).ack = false := by
  rw [selecting.bus_eq pt i]

theorem bus_sel (selecting : Selecting y) : (y.bus pt i).sel = y.chip.regs.icrSel := by
  rw [selecting.bus_eq pt i]

theorem bus_atn (selecting : Selecting y) : (y.bus pt i).atn = y.chip.regs.icrAtn := by
  rw [selecting.bus_eq pt i]

theorem bus_bsy (selecting : Selecting y) : (y.bus pt i).bsy =
    (y.chip.regs.icrBsy || y.chip.arbitrating || y.targ.seq.connected) := by
  rw [selecting.bus_eq pt i]

/-- On a free bus the data lines carry the chip's own byte or none. -/
theorem bus_data (selecting : Selecting y) (free : y.targ.seq.driveBus = false) :
    (y.bus pt i).data = 0 ∨ (y.bus pt i).data = y.chip.regs.odr := by
  have wires := congrArg Scsi.data (Chip.settle_eq y.chip (Targ.drive pt y.targ i.blk.count))
  change (y.bus pt i).data =
    (y.chip.drive (y.bus pt i)).data ||| (Targ.drive pt y.targ i.blk.count).data at wires
  have floats : (Targ.drive pt y.targ i.blk.count).data = 0 := by
    simp [Targ.drive, free]
  rw [wires, floats, selecting.drive]
  cases y.chip.driveData (y.bus pt i) <;> simp

variable {pc : Chip.Params} {pt} {blk : BlkRsp} {a : Option Access} {count : BitVec 32}

theorem handed (selecting : Selecting y) : handed pt y blk = [] := by
  rw [Driver.handed, selecting.bus_ack]
  simp

theorem regs_eq (pc : Chip.Params) (pt : Targ.Params) (blk : BlkRsp) (a : Option Access)
    (selecting : Selecting y) : ((machine pc pt).next y blk a).chip.regs =
      wrote y.chip.regs (y.bus pt { port := port a, blk := blk }).bsy a :=
  next_regs pc pt y blk a (selecting.bus_rst pt _) selecting.monitorBsy

/-- Any access will do that keeps to it. -/
theorem next (selecting : Selecting y) (behaves : Behaves count y blk)
    (icr : ((machine pc pt).next y blk a).chip.regs.icr &&& 0xd0 = 0)
    (mr : ((machine pc pt).next y blk a).chip.regs.mr &&& 0xfe = 0) :
    Selecting ((machine pc pt).next y blk a) :=
  ⟨icr, mr, (targ_edge pc pt y blk a).orderly selecting.orderly,
    caught_next behaves selecting.orderly⟩

end Selecting

/-- A target off the bus comes on it by a selection that names it, and notes ATN. -/
theorem connects {p : Targ.Params} {s t : Targ.Seq} {c : Targ.Cycle} (edge : Targ.Seq.Edge p s c t)
    (off : s.connected = false) (up : t.connected = true) :
    Targ.selMatch p c.bus = true ∧ t.st = .selwait ∧ t.atnSeen = c.bus.atn := by
  have still : ¬ s.Transfers := fun moves => by simp [moves.connected] at off
  cases edge with
  | selected _ _ _ named => exact ⟨named, rfl, rfl⟩
  | raise _ _ moves => exact absurd moves still
  | keep _ _ moves => exact absurd moves still
  | hand _ _ moves => exact absurd (.inr (.inr moves)) still
  | decide _ _ st => simp [Targ.Seq.connected, st] at off
  | fault _ _ st => rcases st with st | st <;> simp [Targ.Seq.connected, st] at off
  | moved _ _ st => rcases st with st | st <;> simp [Targ.Seq.connected, st] at off
  | pin => cases up
  | _ => simp_all [Targ.Seq.connected]

/-! ## The stages of a selection -/

/-- Waiting for the arbitration to begin, which it does on a free bus only; Initiator Command is
as it was before. -/
structure Seeks (was : Byte) (y : Dma.System) : Prop extends Selecting y where
  untouched : y.chip.regs.icr = was
  calm : y.chip.regs.icr &&& 0x0c = 0
  free : y.chip.eng.arbActive = true → y.targ.seq.connected = false

/-- The arbitration is on, and the target off the bus. -/
structure Begun (was : Byte) (y : Dma.System) : Prop extends Selecting y where
  untouched : y.chip.regs.icr = was
  calm : y.chip.regs.icr &&& 0x0c = 0
  free : y.targ.seq.connected = false

/-- The chip holds BSY. -/
structure Claims (y : Dma.System) : Prop extends Selecting y where
  bsy : y.chip.regs.icrBsy = true
  free : y.targ.seq.connected = false

/-- The chip calls `ids`: SEL and ATN without BSY. -/
structure Calls (pt : Targ.Params) (ids : Byte) (y : Dma.System) : Prop extends Selecting y where
  sel : y.chip.regs.icrSel = true
  atn : y.chip.regs.icrAtn = true
  bsy : y.chip.regs.icrBsy = false
  mode : y.chip.regs.mr = 0
  odr : y.chip.regs.odr = ids
  answered : y.targ.seq.connected = true →
    y.targ.seq.st = .selwait ∧ y.targ.seq.atnSeen = true ∧ ids &&& pt.idMask ≠ 0

/-- A target that was selected with ATN: on its way to MESSAGE OUT, or asking there for the
first byte. -/
structure Attends (y : Dma.System) : Prop extends Poised y where
  low : y.chip.regs.icrAck = false
  atn : y.chip.regs.icrAtn = true
  seen : y.targ.seq.atnSeen = true
  place : y.targ.seq.st = .selwait ∨ y.targ.seq.st = .msgout ∧ ¬ y.targ.seq.Lets

section Stages

variable {pc : Chip.Params} {pt : Targ.Params} {y : Dma.System} {blk : BlkRsp} {a : Option Access}
  {count : BitVec 32} {ids was : Byte}

theorem calm_bits {icr : Byte} (calm : icr &&& 0x0c = 0) :
    icr.getLsbD 3 = false ∧ icr.getLsbD 2 = false := by
  have bit (i : ℕ) (set : (0x0c#8).getLsbD i = true) : icr.getLsbD i = false := by
    have zero := congrArg (BitVec.getLsbD · i) calm
    simpa [set] using zero
  exact ⟨bit 3 (by decide), bit 2 (by decide)⟩

theorem quiet_of_calm {icr : Byte} (still : icr &&& 0xd0 = 0) (calm : icr &&& 0x0c = 0) :
    icr &&& 0xcc = 0 := by
  have split : (0xcc : Byte) = 0xd0 &&& 0xcc ||| 0x0c := by decide
  rw [split, BitVec.and_or_distrib_left, calm, ← BitVec.and_assoc, still]
  rfl

theorem Selecting.stays_free (pc : Chip.Params) (pt : Targ.Params) (blk : BlkRsp)
    (a : Option Access) (selecting : Selecting y) (free : y.targ.seq.connected = false)
    (deaf : y.chip.regs.icrSel = false ∨ y.chip.regs.icrBsy = true) :
    ((machine pc pt).next y blk a).targ.seq.connected = false := by
  by_contra up
  have match_ := (connects (targ_edge pc pt y blk a) free (by simpa using up)).1
  simp only [Targ.selMatch, Bool.and_eq_true, Bool.not_eq_true'] at match_
  rw [selecting.bus_sel, selecting.bus_bsy] at match_
  rcases deaf with sel | bsy
  · simp [sel] at match_
  · simp [bsy] at match_

/-- An arbitration begins on a free bus. -/
theorem begins {s : Chip.State} {bus : Scsi} {p : Chip.Params} {i : Chip.Port}
    (active : (s.next p i bus).eng.arbActive = true) : s.eng.arbActive = true ∨ bus.bsy = false := by
  simp only [Chip.State.next, Chip.State.nextEng, Chip.State.nextArb] at active
  split_ifs at active
  rcases Bool.or_eq_true _ _ ▸ active with before | now
  · exact .inl before
  · simp only [Chip.State.busFree, Bool.and_eq_true, Bool.not_eq_true'] at now
    exact .inr now.1.2

/-- Without ARBITRATE there is none. -/
theorem begins_not {s : Chip.State} {bus : Scsi} {p : Chip.Params} {i : Chip.Port}
    (off : s.regs.arbitrate = false) : (s.next p i bus).eng.arbActive = false := by
  simp [Chip.State.next, Chip.State.nextEng, Chip.State.nextArb, off]

theorem Seeks.next (seeks : Seeks was y) (behaves : Behaves count y blk)
    (same : ((machine pc pt).next y blk a).chip.regs.icr = y.chip.regs.icr)
    (mr : ((machine pc pt).next y blk a).chip.regs.mr &&& 0xfe = 0) :
    Seeks was ((machine pc pt).next y blk a) := by
  refine ⟨seeks.toSelecting.next behaves (same ▸ seeks.icr) mr, same.trans seeks.untouched,
    same ▸ seeks.calm, fun active => ?_⟩
  refine seeks.stays_free pc pt blk a ?_ (.inl (calm_bits seeks.calm).2)
  rcases begins active with before | silent
  · exact seeks.free before
  · rw [seeks.bus_bsy, Bool.or_eq_false_iff] at silent
    exact silent.2

theorem Begun.next (begun : Begun was y) (behaves : Behaves count y blk)
    (same : ((machine pc pt).next y blk a).chip.regs = y.chip.regs) :
    Begun was ((machine pc pt).next y blk a) :=
  ⟨begun.toSelecting.next behaves (same ▸ begun.icr) (same ▸ begun.mr), same ▸ begun.untouched,
    same ▸ begun.calm, begun.stays_free pc pt blk a begun.free (.inl (calm_bits begun.calm).2)⟩

theorem Claims.next (claims : Claims y) (behaves : Behaves count y blk)
    (icr : ((machine pc pt).next y blk a).chip.regs.icr &&& 0xd0 = 0)
    (bsy : ((machine pc pt).next y blk a).chip.regs.icrBsy = true)
    (mr : ((machine pc pt).next y blk a).chip.regs.mr &&& 0xfe = 0) :
    Claims ((machine pc pt).next y blk a) :=
  ⟨claims.toSelecting.next behaves icr mr, bsy,
    claims.stays_free pc pt blk a claims.free (.inr claims.bsy)⟩

/-- While the target is called it stays once it has answered. -/
theorem Calls.stays (pc : Chip.Params) (blk : BlkRsp) (a : Option Access) (calls : Calls pt ids y)
    (on : y.targ.seq.connected = true) :
    ((machine pc pt).next y blk a).targ.seq.st = .selwait ∧
      ((machine pc pt).next y blk a).targ.seq.atnSeen = true := by
  have edge := targ_edge pc pt y blk a
  obtain ⟨st, seen, -⟩ := calls.answered on
  have sel : (y.bus pt { blk := blk }).sel = true := (calls.bus_sel pt _).trans calls.sel
  have still : ¬ y.targ.seq.Transfers := by simp [Targ.Seq.Transfers, st]
  generalize ((machine pc pt).next y blk a).targ.seq = t at edge ⊢
  cases edge with
  | held => exact ⟨st, (congrArg (_ || ·) seen).trans (Bool.or_true _)⟩
  | pin rst => cases rst
  | busReset _ rst => exact absurd ((calls.bus_rst pt _).symm.trans rst) (by decide)
  | raise _ _ moves => exact absurd moves still
  | keep _ _ moves => exact absurd moves still
  | _ => simp_all [Targ.Seq.Transfers]

/-- It answers only if it is named. -/
theorem Calls.place (calls : Calls pt ids y)
    (up : ((machine pc pt).next y blk a).targ.seq.connected = true) :
    ((machine pc pt).next y blk a).targ.seq.st = .selwait ∧
      ((machine pc pt).next y blk a).targ.seq.atnSeen = true ∧ ids &&& pt.idMask ≠ 0 := by
  cases on : y.targ.seq.connected with
  | false =>
      obtain ⟨match_, st, seen⟩ := connects (targ_edge pc pt y blk a) on up
      refine ⟨st, seen.trans ((calls.bus_atn pt _).trans calls.atn), ?_⟩
      simp only [Targ.selMatch, Bool.and_eq_true, bne_iff_ne] at match_
      rcases calls.bus_data pt { blk := blk } (by simp [Targ.Seq.driveBus, on]) with none | own
      · rw [none] at match_
        exact absurd BitVec.zero_and match_.2
      · rw [own, calls.odr] at match_
        exact match_.2
  | true =>
      obtain ⟨st, seen⟩ := calls.stays pc blk a on
      exact ⟨st, seen, (calls.answered on).2.2⟩

theorem Calls.next (calls : Calls pt ids y) (behaves : Behaves count y blk)
    (same : ((machine pc pt).next y blk a).chip.regs = y.chip.regs) :
    Calls pt ids ((machine pc pt).next y blk a) := by
  refine ⟨calls.toSelecting.next behaves ?_ ?_, ?_, ?_, ?_, ?_, ?_, calls.place⟩
  · rw [same]
    exact calls.icr
  · rw [same]
    exact calls.mr
  · rw [same]
    exact calls.sel
  · rw [same]
    exact calls.atn
  · rw [same]
    exact calls.bsy
  · rw [same]
    exact calls.mode
  · rw [same]
    exact calls.odr

/-- Once selected it goes to MESSAGE OUT, and waits there. -/
theorem Attends.next (attends : Attends y) (behaves : Behaves count y blk)
    (same : wrote y.chip.regs y.targ.seq.connected a = y.chip.regs) :
    Attends ((machine pc pt).next y blk a) := by
  have edge := targ_edge pc pt y blk a
  have poised : Poised ((machine pc pt).next y blk a) := attends.toPoised.next behaves
    (by rw [same]; exact attends.quiet) (by rw [same]; exact id)
  have regs := attends.regs_eq pc pt blk a
  rw [same] at regs
  have rst := bus_rst pt { blk := blk } attends.quiet
  have sel := bus_sel pt { blk := blk } attends.quiet
  have ack : (y.bus pt { blk := blk }).ack = false := (bus_ack pt _ attends.quiet).trans attends.low
  have seen := attends.seen
  suffices there : ((machine pc pt).next y blk a).targ.seq.atnSeen = true ∧
      (((machine pc pt).next y blk a).targ.seq.st = .selwait ∨
        ((machine pc pt).next y blk a).targ.seq.st = .msgout ∧
          ¬ ((machine pc pt).next y blk a).targ.seq.Lets) from
    ⟨poised, regs ▸ attends.low, regs ▸ attends.atn, there.1, there.2⟩
  generalize ((machine pc pt).next y blk a).targ.seq = t at edge ⊢
  rcases attends.place with st | ⟨st, begun⟩
  · cases edge with
    | attends => exact ⟨by simp [seen], .inr ⟨rfl, fun lets => absurd rfl lets.1⟩⟩
    | raise _ _ moves => simp [Targ.Seq.Transfers, st] at moves
    | keep _ _ moves => simp [Targ.Seq.Transfers, st] at moves
    | _ => simp_all
  · cases edge with
    | raise => exact ⟨seen, .inr ⟨st, fun lets => absurd rfl lets.2⟩⟩
    | keep => exact ⟨seen, .inr ⟨st, begun⟩⟩
    | _ => simp_all

end Stages

/-! ## The program -/

/-- A stage, with nothing new handed over. -/
def Still (P : Dma.System → Prop) (h : Moved) (c : Moved × Dma.System) : Prop :=
  c.1 = h ∧ P c.2

/-- What an access makes of a stage. -/
def Leads (pc : Chip.Params) (pt : Targ.Params) (count : BitVec 32) (P : Dma.System → Prop)
    (a : Option Access) (P' : Dma.System → Prop) : Prop :=
  ∀ y blk, Behaves count y blk → P y → handed pt y blk = [] ∧ P' ((machine pc pt).next y blk a)

section Program

variable {pc : Chip.Params} {pt : Targ.Params} {count : BitVec 32} {P P' : Dma.System → Prop}
  {a : Option Access} {h : Moved} {c : Moved × Dma.System} {blk : BlkRsp} {ids was : Byte}

theorem Still.next (still : Still P h c) (leads : Leads pc pt count P a P')
    (behaves : Behaves count c.2 blk) : Still P' h ((recorded pc pt).next c blk a) := by
  obtain ⟨silent, after⟩ := leads c.2 blk behaves still.2
  exact ⟨by rw [next_recorded, silent, List.append_nil, still.1], after⟩

theorem still_keeps (rests : Leads pc pt count P none P) : Keeps pc pt count (Still P h) :=
  fun _ _ behaves still => still.next rests behaves

theorem still_w {reg : BitVec 3} {v : Byte} (rests : Leads pc pt count P none P)
    (leads : Leads pc pt count P (some (.write reg v)) P') (still : Still P h c) :
    (recorded pc pt).wp (fun c blk => Behaves count c.2 blk) (w reg v) (fun _ => Still P' h) c :=
  wp_w (still_keeps rests) still fun _ _ behaves still => still.next leads behaves

/-! ### The stages under an access -/

/-- The chip holds BSY, with what is known of the registers beside it. -/
def ClaimsAs (R : Chip.Regs → Prop) (y : Dma.System) : Prop :=
  Claims y ∧ R y.chip.regs

variable {R S : Chip.Regs → Prop}

theorem claims_leads (regs : ∀ regs bsy, regs.icr &&& 0xd0 = 0 → regs.icrBsy = true →
    regs.mr &&& 0xfe = 0 → R regs → (wrote regs bsy a).icr &&& 0xd0 = 0 ∧
      (wrote regs bsy a).icrBsy = true ∧ (wrote regs bsy a).mr &&& 0xfe = 0 ∧
      S (wrote regs bsy a)) :
    Leads pc pt count (ClaimsAs R) a (ClaimsAs S) := by
  rintro y blk behaves ⟨claims, known⟩
  have after := regs y.chip.regs (y.bus pt { port := port a, blk := blk }).bsy claims.icr claims.bsy
    claims.mr known
  rw [← claims.regs_eq pc pt blk a] at after
  obtain ⟨icr, bsy, mr, known⟩ := after
  exact ⟨claims.handed, claims.next behaves icr bsy mr, known⟩

theorem calls_rests : Leads pc pt count (Calls pt ids) none (Calls pt ids) :=
  fun _ blk behaves calls => ⟨calls.handed, calls.next behaves (calls.regs_eq pc pt blk none)⟩

/-- The target has been seen to answer. -/
structure Answers (pt : Targ.Params) (ids : Byte) (y : Dma.System) : Prop extends Calls pt ids y where
  up : y.targ.seq.connected = true

theorem Answers.next {y : Dma.System} (answers : Answers pt ids y) (behaves : Behaves count y blk)
    (same : ((machine pc pt).next y blk a).chip.regs = y.chip.regs) :
    Answers pt ids ((machine pc pt).next y blk a) := by
  refine ⟨answers.toCalls.next behaves same, ?_⟩
  simp [Targ.Seq.connected, (answers.stays pc blk a answers.up).1]

theorem answers_rests : Leads pc pt count (Answers pt ids) none (Answers pt ids) :=
  fun _ blk behaves answers =>
    ⟨answers.handed, answers.next behaves (answers.regs_eq pc pt blk none)⟩

/-- SEL is released, ATN stays. -/
theorem answers_released : Leads pc pt count (Answers pt ids) (some (.write rIcr icrAtn))
    (fun y => Attends y ∧ ids &&& pt.idMask ≠ 0) := by
  intro y blk behaves answers
  have regs := answers.regs_eq pc pt blk (some (.write rIcr icrAtn))
  rw [wrote_icr] at regs
  obtain ⟨st, seen⟩ := answers.stays pc blk (some (.write rIcr icrAtn)) answers.up
  refine ⟨answers.handed, ⟨⟨⟨?_, ?_⟩, (targ_edge pc pt y blk _).orderly answers.orderly,
    caught_next behaves answers.orderly, ?_⟩, ?_, ?_, seen, .inl st⟩,
    (answers.answered answers.up).2.2⟩
  · rw [regs]
    exact answers.mode
  · rw [regs]
    exact (by decide : icrAtn &&& 0xcc = 0)
  · rw [regs]
    exact fun up => absurd (show icrAtn.getLsbD 4 = true from up) (by decide)
  · rw [regs]
    exact (by decide : icrAtn.getLsbD 4 = false)
  · rw [regs]
    exact (by decide : icrAtn.getLsbD 1 = true)

/-- What a `select` that gives up leaves: Mode clear, and Initiator Command clear or as it was. -/
def GivenUp (was : Byte) (y : Dma.System) : Prop :=
  Poised y ∧ (y.chip.regs.icr = 0 ∨ y.chip.regs.icr = was)

/-- The call is given up. -/
theorem calls_dropped :
    Leads pc pt count (Calls pt ids) (some (.write rIcr 0)) (GivenUp was) := by
  intro y blk behaves calls
  have regs := calls.regs_eq pc pt blk (some (.write rIcr 0))
  rw [wrote_icr] at regs
  refine ⟨calls.handed, ⟨⟨?_, ?_⟩, (targ_edge pc pt y blk _).orderly calls.orderly,
    caught_next behaves calls.orderly, ?_⟩, .inl (congrArg Chip.Regs.icr regs)⟩
  · rw [regs]
    exact calls.mode
  · rw [regs]
    exact (by decide : (0 : Byte) &&& 0xcc = 0)
  · rw [regs]
    exact fun up => absurd (show (0#8).getLsbD 4 = true from up) (by decide)

/-- BSY is dropped, and the target called. -/
theorem claims_calls : Leads pc pt count (ClaimsAs fun regs => regs.odr = ids ∧ regs.mr = 0)
    (some (.write rIcr (icrData ||| icrAtn ||| icrSel))) (Calls pt ids) := by
  rintro y blk behaves ⟨claims, odr, mr⟩
  have regs := claims.regs_eq pc pt blk (some (.write rIcr (icrData ||| icrAtn ||| icrSel)))
  rw [wrote_icr] at regs
  have free := claims.stays_free pc pt blk (some (.write rIcr (icrData ||| icrAtn ||| icrSel)))
    claims.free (.inr claims.bsy)
  refine ⟨claims.handed, claims.toSelecting.next behaves ?_ ?_, ?_, ?_, ?_, ?_, ?_, fun up => ?_⟩
  · rw [regs]
    exact (by decide : (icrData ||| icrAtn ||| icrSel) &&& 0xd0 = 0)
  · rw [regs, mr]
    decide
  · rw [regs]
    exact (by decide : (icrData ||| icrAtn ||| icrSel).getLsbD 2 = true)
  · rw [regs]
    exact (by decide : (icrData ||| icrAtn ||| icrSel).getLsbD 1 = true)
  · rw [regs]
    exact (by decide : (icrData ||| icrAtn ||| icrSel).getLsbD 3 = false)
  · rw [regs]
    exact mr
  · rw [regs]
    exact odr
  · exact absurd (up.symm.trans free) (by decide)

/-- The arbitration is given up. -/
theorem Selecting.givenUp {y : Dma.System} (selecting : Selecting y)
    (behaves : Behaves count y blk) (untouched : y.chip.regs.icr = was)
    (calm : y.chip.regs.icr &&& 0x0c = 0) :
    GivenUp was ((machine pc pt).next y blk (some (.write rMr 0))) := by
  have regs := selecting.regs_eq pc pt blk (some (.write rMr 0))
  rw [wrote_mr] at regs
  refine ⟨⟨⟨?_, ?_⟩, (targ_edge pc pt y blk _).orderly selecting.orderly,
    caught_next behaves selecting.orderly, ?_⟩,
    .inr ((congrArg Chip.Regs.icr regs).trans untouched)⟩
  · rw [regs]
    split <;> rfl
  · rw [regs]
    exact quiet_of_calm selecting.icr calm
  · rw [regs]
    exact fun up => absurd (up.symm.trans selecting.icrAck) (by decide)

/-- The IDs on the bus when `host` selects `target`. -/
def called (host target : ℕ) : Byte :=
  idMask host ||| BitVec.ofNat 8 (1 <<< target)

/-- How `select` leaves the bus, with `was` in Initiator Command before. -/
def Outcome (pt : Targ.Params) (ids was : Byte) (selected : Bool) (y : Dma.System) : Prop :=
  if selected then Attends y ∧ ids &&& pt.idMask ≠ 0 else GivenUp was y

theorem still_polls {mask val : Byte} (rests : Leads pc pt count P none P)
    (polls : Leads pc pt count P (some (.read rCsb)) P)
    (seen : ∀ y blk, Behaves count y blk → P y →
      (Chip.State.csb (y.bus pt { blk := blk }) &&& mask == val) = true →
        P' ((machine pc pt).next y blk (some (.read rCsb)))) (still : Still P h c) :
    (recorded pc pt).wp (fun c blk => Behaves count c.2 blk) (poll rCsb mask val)
      (fun ok => Still (if ok then P' else P) h) c := by
  refine wp_poll (still_keeps rests) still (R := Still P h) (fun c blk behaves still => ?_)
    (fun _ still => still) (fun _ still => still)
  have read := still.next polls behaves
  rw [answer_csb]
  split
  · exact ⟨read.1, seen c.2 blk behaves still.2 ‹_›⟩
  · exact read

theorem calls_polls : Leads pc pt count (Calls pt ids) (some (.read rCsb)) (Calls pt ids) :=
  fun _ blk behaves calls =>
    ⟨calls.handed, calls.next behaves (calls.regs_eq pc pt blk (some (.read rCsb)))⟩

/-- BSY that is seen while the chip calls is the target's. -/
theorem calls_answered {y : Dma.System} (behaves : Behaves count y blk) (calls : Calls pt ids y)
    (seen : (Chip.State.csb (y.bus pt { blk := blk }) &&& csbBsy == csbBsy) = true) :
    Answers pt ids ((machine pc pt).next y blk (some (.read rCsb))) := by
  rw [(csb_bits _).2.2.2.1, calls.bus_bsy, calls.bsy, Chip.State.arbitrating,
    show y.chip.regs.arbitrate = false by simp [Chip.Regs.arbitrate, calls.mode], Bool.and_false,
    Bool.false_or, Bool.false_or] at seen
  exact Answers.next ⟨calls, seen⟩ behaves (calls.regs_eq pc pt blk (some (.read rCsb)))

/-- The chip takes BSY over from the arbitration. -/
theorem begun_claims : Leads pc pt count (Begun was) (some (.write rIcr (icrSel ||| icrBsy)))
    (ClaimsAs fun _ => True) := by
  intro y blk behaves begun
  have regs := begun.regs_eq pc pt blk (some (.write rIcr (icrSel ||| icrBsy)))
  rw [wrote_icr] at regs
  refine ⟨begun.handed, ⟨begun.toSelecting.next behaves ?_ ?_, ?_,
    begun.stays_free pc pt blk _ begun.free (.inl (calm_bits begun.calm).2)⟩, trivial⟩
  · rw [regs]
    exact (by decide : (icrSel ||| icrBsy) &&& 0xd0 = 0)
  · rw [regs]
    exact begun.mr
  · rw [regs]
    exact (by decide : (icrSel ||| icrBsy).getLsbD 3 = true)

theorem begun_rests : Leads pc pt count (Begun was) none (Begun was) :=
  fun _ blk behaves begun => ⟨begun.handed, begun.next behaves (begun.regs_eq pc pt blk none)⟩

theorem claims_rests : Leads pc pt count (ClaimsAs R) none (ClaimsAs R) :=
  claims_leads fun _ _ icr bsy mr known => ⟨icr, bsy, mr, known⟩

theorem selectTarget_spec {host target : ℕ} (still : Still (Begun was) h c) :
    (recorded pc pt).wp (fun c blk => Behaves count c.2 blk) (selectTarget host target)
      (fun selected => Still (Outcome pt (called host target) was selected) h) c := by
  unfold selectTarget
  refine Machine.wp_bind (Machine.wp_mono (fun _ _ still => ?_)
    (still_w begun_rests begun_claims still))
  refine Machine.wp_bind (Machine.wp_mono (fun _ _ still => ?_) (still_w claims_rests
    (claims_leads (S := fun regs => regs.odr = called host target)
      fun _ _ icr bsy mr _ => ⟨icr, bsy, mr, rfl⟩) still))
  refine Machine.wp_bind (Machine.wp_mono (fun _ _ still => ?_) (still_w claims_rests
    (claims_leads (S := fun regs => regs.odr = called host target)
      fun _ _ _ _ mr odr =>
        ⟨(by decide : (icrBsy ||| icrData ||| icrAtn ||| icrSel) &&& 0xd0 = 0),
          (by decide : (icrBsy ||| icrData ||| icrAtn ||| icrSel).getLsbD 3 = true), mr, odr⟩)
    still))
  refine Machine.wp_bind (Machine.wp_mono (fun _ _ still => ?_) (still_w claims_rests
    (claims_leads (S := fun regs => regs.odr = called host target ∧ regs.mr = 0)
      fun regs bsy icr held mr odr =>
        have zero : (wrote regs bsy (some (.write rMr 0))).mr = 0 := by
          rw [wrote_mr]
          split <;> rfl
        ⟨icr, held, by rw [zero]; rfl, odr, zero⟩) still))
  refine Machine.wp_bind (Machine.wp_mono (fun _ _ still => ?_) (still_w claims_rests
    (claims_leads (S := fun regs => regs.odr = called host target ∧ regs.mr = 0)
      fun _ _ icr bsy mr known => ⟨icr, bsy, mr, known⟩) still))
  refine Machine.wp_bind (Machine.wp_mono (fun _ _ still => ?_)
    (still_w claims_rests claims_calls still))
  refine Machine.wp_bind (Machine.wp_mono (fun answered _ still => ?_)
    (still_polls calls_rests calls_polls (fun _ _ behaves calls => calls_answered behaves calls)
      still))
  cases answered with
  | true =>
      rw [if_pos rfl]
      exact Machine.wp_bind (Machine.wp_mono (fun _ _ still => still)
        (still_w answers_rests answers_released still))
  | false =>
      rw [if_neg Bool.false_ne_true]
      exact Machine.wp_bind (Machine.wp_mono (fun _ _ still => still)
        (still_w calls_rests calls_dropped still))

theorem calm_of_quiet : ∀ icr : Byte, icr &&& 0xcc = 0 → icr.getLsbD 4 = false →
    icr &&& 0xd0 = 0 ∧ icr &&& 0x0c = 0 := by
  decide

/-- The registers of `Seeks` after an access that leaves Initiator Command and Mode alone. -/
theorem seeks_access (icr : ∀ regs bsy, (wrote regs bsy a).icr = regs.icr)
    (mr : ∀ regs bsy, regs.mr &&& 0xfe = 0 → (wrote regs bsy a).mr &&& 0xfe = 0) :
    Leads pc pt count (Seeks was) a (Seeks was) := by
  intro y blk behaves seeks
  have regs := seeks.regs_eq pc pt blk a
  refine ⟨seeks.handed, seeks.next behaves ?_ ?_⟩
  · rw [regs, icr]
  · rw [regs]
    exact mr _ _ seeks.mr

/-- Between two bytes, with `was` in Initiator Command and no ACK in it. -/
structure Ready (was : Byte) (y : Dma.System) : Prop extends Poised y where
  low : y.chip.regs.icrAck = false
  before : y.chip.regs.icr = was

/-- The first write of `select`: whatever arbitration there was is over. -/
theorem ready_seeks : Leads pc pt count (Ready was) (some (.write rTcr 0)) (Seeks was) := by
  rintro y blk behaves ⟨poised, low, before⟩
  have regs := poised.regs_eq pc pt blk (some (.write rTcr 0))
  rw [wrote_tcr] at regs
  have after : Poised ((machine pc pt).next y blk (some (.write rTcr 0))) :=
    poised.next behaves ⟨poised.quiet.mr, poised.quiet.icr⟩ id
  obtain ⟨still, calm⟩ := calm_of_quiet _ poised.quiet.icr low
  refine ⟨poised.handed, ⟨?_, ?_, after.orderly, after.caught⟩, ?_, ?_, fun active => ?_⟩
  · rw [regs]
    exact still
  · rw [regs]
    change y.chip.regs.mr &&& 0xfe = 0
    rw [poised.quiet.mr]
    decide
  · rw [regs]
    exact before
  · rw [regs]
    exact calm
  · rw [show ((machine pc pt).next y blk (some (.write rTcr 0))).chip.eng.arbActive = false from
      begins_not poised.quiet.arbitrate] at active
    cases active

theorem icrRd_aip (s : Chip.State) : (s.icrRd &&& icrAip == icrAip) = s.aip := by
  have bits : ∀ (icr : Byte) (aip la : Bool),
      (((icr &&& 0x9f) ||| (BitVec.ofBool aip).setWidth 8 <<< 6 |||
        (BitVec.ofBool la).setWidth 8 <<< 5) &&& icrAip == icrAip) = aip := by
    decide
  exact bits s.regs.icr s.aip s.la

/-- AIP is seen: the bus was free when the arbitration began. -/
theorem seeks_begun {y : Dma.System} (behaves : Behaves count y blk) (seeks : Seeks was y)
    (seen : y.chip.aip = true) : Begun was ((machine pc pt).next y blk (some (.read rIcr))) := by
  have active : y.chip.eng.arbActive = true := by
    simp only [Chip.State.aip, Chip.State.arbitrating, Bool.and_eq_true] at seen
    exact seen.1
  have regs : ((machine pc pt).next y blk (some (.read rIcr))).chip.regs = y.chip.regs :=
    seeks.regs_eq pc pt blk (some (.read rIcr))
  exact ⟨seeks.toSelecting.next behaves (regs ▸ seeks.icr) (regs ▸ seeks.mr),
    regs ▸ seeks.untouched, regs ▸ seeks.calm,
    seeks.stays_free pc pt blk _ (seeks.free active) (.inl (calm_bits seeks.calm).2)⟩

theorem begun_reads (reg : BitVec 3) :
    Leads pc pt count (Begun was) (some (.read reg)) (Begun was) :=
  fun _ blk behaves begun =>
    ⟨begun.handed, begun.next behaves (begun.regs_eq pc pt blk (some (.read reg)))⟩

theorem seeks_rests : Leads pc pt count (Seeks was) none (Seeks was) :=
  seeks_access (fun _ _ => rfl) fun _ _ mr => mr

theorem aip_spec (still : Still (Seeks was) h c) :
    (recorded pc pt).wp (fun c blk => Behaves count c.2 blk) (poll rIcr icrAip icrAip)
      (fun begun => Still (if begun then Begun was else Seeks was) h) c := by
  refine wp_poll (still_keeps seeks_rests) still (R := Still (Seeks was) h)
    (fun c blk behaves still => ?_) (fun _ still => still) (fun _ still => still)
  have read : Still (Seeks was) h ((recorded pc pt).next c blk (some (.read rIcr))) :=
    still.next (seeks_access (fun _ _ => rfl) fun _ _ mr => mr) behaves
  rw [answer_icr, icrRd_aip]
  cases seen : c.2.chip.aip with
  | true => exact ⟨read.1, seeks_begun behaves still.2 seen⟩
  | false => exact read

theorem lost_spec {Q : Bool → Moved × Dma.System → Prop}
    (rests : Leads pc pt count P none P)
    (leads : Leads pc pt count P (some (.write rMr 0)) (GivenUp was))
    (lost : ∀ c, Still (GivenUp was) h c → Q false c) (still : Still P h c) :
    (recorded pc pt).wp (fun c blk => Behaves count c.2 blk)
      (do
        w rMr 0
        pure false) Q c :=
  Machine.wp_bind (Machine.wp_mono (fun _ c still => lost c still) (still_w rests leads still))

theorem ready_rests : Leads pc pt count (Ready was) none (Ready was) := by
  rintro y blk behaves ⟨poised, low, before⟩
  have regs : ((machine pc pt).next y blk none).chip.regs = y.chip.regs :=
    poised.regs_eq pc pt blk none
  exact ⟨poised.handed, poised.next behaves poised.quiet id, regs ▸ low, regs ▸ before⟩

/-- `select`, from any state between two bytes without ACK. -/
theorem select_spec {host target : ℕ} (still : Still (Ready was) h c) :
    (recorded pc pt).wp (fun c blk => Behaves count c.2 blk) (select host target)
      (fun selected => Still (Outcome pt (called host target) was selected) h) c := by
  unfold select
  refine Machine.wp_bind (Machine.wp_mono (fun _ _ still => ?_)
    (still_w ready_rests ready_seeks still))
  refine Machine.wp_bind (Machine.wp_mono (fun _ _ still => ?_)
    (still_w seeks_rests (seeks_access (fun _ _ => rfl) fun _ _ mr => mr) still))
  refine Machine.wp_bind (Machine.wp_mono (fun _ _ still => ?_)
    (still_w seeks_rests (seeks_access (fun _ _ => rfl) fun regs bsy _ => ?_) still))
  case refine_2 =>
    rw [wrote_mr]
    cases bsy with
    | true => exact (by decide : mrArb &&& 0xfe = 0)
    | false => exact (by decide : (mrArb &&& 0xfd) &&& 0xfe = 0)
  refine Machine.wp_bind (Machine.wp_mono (fun begun _ still => ?_) (aip_spec still))
  have seeksLost : Leads pc pt count (Seeks was) (some (.write rMr 0)) (GivenUp was) :=
    fun _ _ behaves seeks => ⟨seeks.handed, seeks.givenUp behaves seeks.untouched seeks.calm⟩
  have begunLost : Leads pc pt count (Begun was) (some (.write rMr 0)) (GivenUp was) :=
    fun _ _ behaves begun => ⟨begun.handed, begun.givenUp behaves begun.untouched begun.calm⟩
  cases begun with
  | false => exact lost_spec seeks_rests seeksLost (fun _ still => still) still
  | true =>
      rw [if_pos rfl]
      refine Machine.wp_bind (wp_r (still_keeps begun_rests) still fun c blk behaves still => ?_)
      have still : Still (Begun was) h ((recorded pc pt).next c blk (some (.read rIcr))) :=
        still.next (begun_reads rIcr) behaves
      split
      · exact lost_spec begun_rests begunLost (fun _ still => still) still
      · refine Machine.wp_bind (wp_r (still_keeps begun_rests) still fun c blk behaves still => ?_)
        have still : Still (Begun was) h ((recorded pc pt).next c blk (some (.read rCsd))) :=
          still.next (begun_reads rCsd) behaves
        split
        · exact lost_spec begun_rests begunLost (fun _ still => still) still
        · exact selectTarget_spec still

theorem outcome_keeps (selected : Bool) :
    Keeps pc pt count (Still (Outcome pt ids was selected) h) := by
  refine still_keeps fun y blk behaves outcome => ?_
  cases selected with
  | true =>
      obtain ⟨attends, named⟩ : Attends y ∧ _ := outcome
      exact ⟨attends.handed, attends.next behaves rfl, named⟩
  | false =>
      obtain ⟨poised, clear⟩ : GivenUp was y := outcome
      have regs : ((machine pc pt).next y blk none).chip.regs = y.chip.regs :=
        poised.regs_eq pc pt blk none
      exact ⟨poised.handed, poised.next behaves poised.quiet id, regs ▸ clear⟩

end Program

end Wish5380.Driver
