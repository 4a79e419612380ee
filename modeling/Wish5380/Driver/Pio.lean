import Wish5380.Driver.Lines

/-!
# Programmed transfers

`pio` reports as moved exactly the bytes the target has handed over or taken, each once and in
order, however long the two let each other wait, and wherever a timeout or a change of phase
stops it.
-/

namespace Wish5380.Driver

open Clocked

/-- The bytes that have changed hands, each with its phase. -/
abbrev Moved : Type :=
  List (BitVec 3 × Byte)

/-- The machine with the record of what changed hands. -/
def recorded (pc : Chip.Params) (pt : Targ.Params) :
    Machine (Moved × Dma.System) BlkRsp Access Reply :=
  (machine pc pt).logged (handed pt)

/-- The cycles without an access leave `P` standing. -/
def Keeps (pc : Chip.Params) (pt : Targ.Params) (count : BitVec 32)
    (P : Moved × Dma.System → Prop) : Prop :=
  (recorded pc pt).Stable (fun c blk => Behaves count c.2 blk) P

/-! ## What a poll of the bus tells -/

theorem csb_bits (bus : Scsi) :
    (Chip.State.csb bus &&& (csbReq ||| csbBsy) == csbReq ||| csbBsy) = (bus.req && bus.bsy) ∧
    (Chip.State.csb bus &&& csbReq == csbReq) = bus.req ∧
    (Chip.State.csb bus &&& csbReq == 0) = !bus.req ∧
    (Chip.State.csb bus &&& csbBsy == csbBsy) = bus.bsy ∧
    (Chip.State.csb bus &&& csbBsy == 0) = !bus.bsy ∧
    csbToPhase (Chip.State.csb bus) = bus.phase := by
  obtain ⟨rst, bsy, sel, req, ack, atn, msg, cd, io, data, dbp⟩ := bus
  simp only [Chip.State.csb, Scsi.phase]
  clear ack atn data
  revert rst bsy sel req msg cd io dbp
  decide

section Answers

variable (pc : Chip.Params) (pt : Targ.Params) (c : Moved × Dma.System) (blk : BlkRsp)

theorem answer_csb : ((recorded pc pt).answer c blk (.read rCsb)).byte =
    Chip.State.csb (c.2.bus pt { blk := blk }) :=
  rfl

theorem answer_csd : ((recorded pc pt).answer c blk (.read rCsd)).byte =
    (c.2.bus pt { blk := blk }).data :=
  rfl

theorem answer_icr : ((recorded pc pt).answer c blk (.read rIcr)).byte = c.2.chip.icrRd :=
  rfl

theorem next_recorded (a : Option Access) : (recorded pc pt).next c blk a =
    (c.1 ++ handed pt c.2 blk, (machine pc pt).next c.2 blk a) :=
  rfl

end Answers

section Rules

variable {σ ε : Type} {m : Machine σ ε Access Reply} {W : σ → ε → Prop} {P : σ → Prop} {s : σ}

theorem wp_w {reg : BitVec 3} {v : Byte} {Q : Unit → σ → Prop} (keeps : m.Stable W P) (now : P s)
    (after : ∀ s e, W s e → P s → Q () (m.next s e (some (.write reg v)))) :
    m.wp W (w reg v) Q s :=
  Machine.wp_bind (Machine.wp_perform keeps now after)

theorem wp_r {reg : BitVec 3} {Q : Byte → σ → Prop} (keeps : m.Stable W P) (now : P s)
    (after : ∀ s e, W s e → P s →
      Q (m.answer s e (.read reg)).byte (m.next s e (some (.read reg)))) :
    m.wp W (r reg) Q s :=
  Machine.wp_bind (Machine.wp_perform keeps now after)

theorem wp_poll {reg : BitVec 3} {mask val : Byte} {R : σ → Prop} {Q : Bool → σ → Prop}
    (keeps : m.Stable W P) (now : P s)
    (read : ∀ s e, W s e → P s →
      if (m.answer s e (.read reg)).byte &&& mask == val then
        Q true (m.next s e (some (.read reg)))
      else R (m.next s e (some (.read reg))))
    (again : ∀ s, R s → P s) (late : ∀ s, R s → Q false s) :
    m.wp W (poll reg mask val) Q s :=
  Machine.wp_bind (Machine.wp_any keeps now fun n _ here =>
    Machine.wp_await keeps here read again late n)

/-- A poll that lasts as long as it takes. -/
theorem wp_poll_within {reg : BitVec 3} {mask val : Byte} {P : ℕ → σ → Prop} {Q : Bool → σ → Prop}
    {k least : ℕ} (keeps : ∀ k, m.Stable W (P k)) (now : P k s)
    (read : ∀ k s e, W s e → P k s →
      if (m.answer s e (.read reg)).byte &&& mask == val then
        Q true (m.next s e (some (.read reg)))
      else ∃ j < k, P j (m.next s e (some (.read reg))))
    (enough : k ≤ least) : m.wp W ((poll reg mask val).atLeast least) Q s := by
  have longer : (poll reg mask val).atLeast least =
      .choose fun n => .await (.read reg) (fun reply => reply.byte &&& mask == val) (least + n) :=
    congrArg Program.choose (funext fun n => Program.atLeast_await ..)
  rw [longer]
  exact fun n s' idles => Machine.wp_within keeps ((keeps k).idles idles now) read (by omega)

end Rules

/-! ## The assertions -/

/-- `h` has changed hands, and the next byte has not begun; the chip expects `phase`. -/
def Between (phase : BitVec 3) (h : Moved) (c : Moved × Dma.System) : Prop :=
  c.1 = h ∧ Poised c.2 ∧ c.2.chip.regs.tcrPhase = phase

/-- `h` has changed hands, and the target asks for the next byte, showing `shown`. -/
def Asking (pt : Targ.Params) (count : BitVec 32) (shown : BitVec 3) (v : Byte)
    (phase : BitVec 3) (h : Moved) (c : Moved × Dma.System) : Prop :=
  c.1 = h ∧ Asked pt count shown v c.2 ∧ c.2.chip.regs.tcrPhase = phase

/-- ACK is up: over the byte, or after it. -/
def Acking (pt : Targ.Params) (count : BitVec 32) (phase : BitVec 3) (v : Byte) (h : Moved)
    (c : Moved × Dma.System) : Prop :=
  c.2.chip.regs.tcrPhase = phase ∧
    (c.1 = h ∧ Raised pt count phase v c.2 ∨ c.1 = h ++ [(phase, v)] ∧ Poised c.2)

section Pio

variable {pc : Chip.Params} {pt : Targ.Params} {count : BitVec 32}
  {phase shown : BitVec 3} {v : Byte} {h : Moved} {c : Moved × Dma.System} {blk : BlkRsp} {a : Option Access}

theorem Between.next (between : Between phase h c) (behaves : Behaves count c.2 blk)
    (quiet : Quiet (wrote c.2.chip.regs c.2.targ.seq.connected a))
    (calm : (wrote c.2.chip.regs c.2.targ.seq.connected a).icrAck = true →
      c.2.chip.regs.icrAck = true)
    {phase' : BitVec 3} (tcr : (wrote c.2.chip.regs c.2.targ.seq.connected a).tcrPhase = phase') :
    Between phase' h ((recorded pc pt).next c blk a) := by
  obtain ⟨past, poised, -⟩ := between
  refine ⟨?_, poised.next behaves quiet calm, ?_⟩
  · rw [next_recorded, poised.handed, List.append_nil, past]
  · rw [next_recorded, poised.regs_eq, tcr]

/-- A cycle without a write. -/
theorem Between.rests (between : Between phase h c) (behaves : Behaves count c.2 blk)
    (same : wrote c.2.chip.regs c.2.targ.seq.connected a = c.2.chip.regs) :
    Between phase h ((recorded pc pt).next c blk a) := by
  refine between.next behaves ?_ ?_ ?_
  · rw [same]
    exact between.2.1.quiet
  · rw [same]
    exact id
  · rw [same]
    exact between.2.2

theorem between_keeps : Keeps pc pt count (Between phase h) :=
  fun _ _ behaves between => between.rests behaves rfl

theorem Asking.next (asking : Asking pt count shown v phase h c) (behaves : Behaves count c.2 blk)
    (quiet : Quiet (wrote c.2.chip.regs c.2.targ.seq.connected a))
    (low : (wrote c.2.chip.regs c.2.targ.seq.connected a).icrAck = false)
    (tcr : (wrote c.2.chip.regs c.2.targ.seq.connected a).tcrPhase = phase) :
    Asking pt count shown v phase h ((recorded pc pt).next c blk a) := by
  obtain ⟨past, asked, -⟩ := asking
  refine ⟨?_, asked.next behaves quiet low, ?_⟩
  · rw [next_recorded, asked.handed, List.append_nil, past]
  · rw [next_recorded, asked.regs_eq, tcr]

theorem Asking.rests (asking : Asking pt count shown v phase h c) (behaves : Behaves count c.2 blk)
    (same : wrote c.2.chip.regs c.2.targ.seq.connected a = c.2.chip.regs) :
    Asking pt count shown v phase h ((recorded pc pt).next c blk a) := by
  refine asking.next behaves ?_ ?_ ?_
  · rw [same]
    exact asking.2.1.quiet
  · rw [same]
    exact asking.2.1.low
  · rw [same]
    exact asking.2.2

theorem asking_keeps : Keeps pc pt count (Asking pt count shown v phase h) :=
  fun _ _ behaves asking => asking.rests behaves rfl

/-- The same with a byte in the Output Data Register. -/
theorem asking_odr_keeps {out : Byte} : Keeps pc pt count
    (fun c => Asking pt count shown v phase h c ∧ c.2.chip.regs.odr = out) := by
  rintro c blk behaves ⟨asking, odr⟩
  refine ⟨asking.rests behaves rfl, ?_⟩
  rw [next_recorded, asking.2.1.regs_eq]
  exact odr

theorem Acking.rests (acking : Acking pt count phase v h c) (behaves : Behaves count c.2 blk)
    (same : wrote c.2.chip.regs c.2.targ.seq.connected a = c.2.chip.regs) :
    Between phase (h ++ [(phase, v)]) ((recorded pc pt).next c blk a) := by
  obtain ⟨tcr, ⟨past, raised⟩ | ⟨past, poised⟩⟩ := acking
  · obtain ⟨poised, regs, -⟩ : Poised ((machine pc pt).next c.2 blk a) ∧ _ :=
      raised.next behaves same
    refine ⟨?_, poised, ?_⟩
    · rw [next_recorded, raised.handed behaves.count, past]
    · rw [next_recorded, regs, tcr]
  · exact Between.rests ⟨past, poised, tcr⟩ behaves same

theorem acking_keeps : Keeps pc pt count (Acking pt count phase v h) := by
  intro c blk behaves acking
  obtain ⟨past, poised, tcr⟩ : Between phase _ ((recorded pc pt).next c blk none) :=
    acking.rests behaves rfl
  exact ⟨tcr, .inr ⟨past, poised⟩⟩

/-! ## One byte -/

/-- REQ seen: the target asks, for whatever the lines show. -/
theorem Between.asked (between : Between phase h c) (req : (c.2.bus pt { blk := blk }).req = true) :
    Asking pt count c.2.targ.seq.phase (Targ.dataOut pt c.2.targ count) phase h c := by
  obtain ⟨past, poised, tcr⟩ := between
  rw [bus_req pt _ poised.quiet] at req
  exact ⟨past, ⟨poised, poised.orderly.req_iff.mp req, rfl, fun _ => rfl⟩, tcr⟩

theorem Asking.bus_phase (asking : Asking pt count shown v phase h c) (i : Dma.Input) :
    (c.2.bus pt i).phase = shown := by
  rw [Driver.bus_phase pt i asking.2.1.quiet asking.2.1.up, asking.2.1.shows_]

/-- The byte goes over, whichever way. -/
theorem hand_spec (keep out : Byte) (keeps : keep = 0 ∨ keep = icrAtn)
    (asking : Asking pt count phase v phase h c) :
    (recorded pc pt).wp (fun c blk => Behaves count c.2 blk) (hand phase keep out)
      (fun u c => (phase.getLsbD 0 = false → u = out) ∧ Acking pt count phase u h c) c := by
  have bits : (keep ||| icrAck) &&& 0xcc = 0 ∧ (keep ||| icrAck).getLsbD 4 = true ∧
      (keep ||| icrData) &&& 0xcc = 0 ∧ (keep ||| icrData).getLsbD 4 = false ∧
      (keep ||| icrData ||| icrAck) &&& 0xcc = 0 ∧
      (keep ||| icrData ||| icrAck).getLsbD 4 = true ∧
      (keep ||| icrData ||| icrAck).getLsbD 0 = true := by
    rcases keeps with rfl | rfl <;> decide
  obtain ⟨inKeeps, inAck, dataKeeps, dataAck, outKeeps, outAck, outData⟩ := bits
  unfold hand
  cases towards : phase.getLsbD 0 with
  | true =>
      rw [if_pos rfl]
      refine Machine.wp_bind (wp_r asking_keeps asking fun c blk behaves asking => ?_)
      have read : ((recorded pc pt).answer c blk (.read rCsd)).byte = v := by
        rw [answer_csd, bus_data_in pt _ asking.2.1.quiet asking.2.1.up
          (by rw [asking.2.1.shows_, towards])]
        change Targ.dataOut pt c.2.targ blk.count = v
        rw [behaves.count]
        exact asking.2.1.offers towards
      rw [read]
      refine Machine.wp_bind (wp_w asking_keeps (asking.rests behaves rfl)
        fun c blk behaves asking => ?_)
      refine Machine.wp_pure ⟨fun away => absurd away (by simp), ?_, .inl ⟨?_, ?_⟩⟩
      · rw [next_recorded, asking.2.1.regs_eq, wrote_icr]
        exact asking.2.2
      · rw [next_recorded, asking.2.1.handed, List.append_nil, asking.1]
      · exact asking.2.1.raises_in behaves towards _ inKeeps inAck
  | false =>
      rw [if_neg Bool.false_ne_true]
      refine Machine.wp_bind (wp_w asking_keeps asking fun c blk behaves asking => ?_)
      have loaded : Asking pt count phase v phase h
            ((recorded pc pt).next c blk (some (.write rOdr out))) ∧
          ((recorded pc pt).next c blk (some (.write rOdr out))).2.chip.regs.odr = out := by
        refine ⟨asking.next behaves ?_ ?_ ?_, ?_⟩
        · exact ⟨asking.2.1.quiet.mr, asking.2.1.quiet.icr⟩
        · exact asking.2.1.low
        · exact asking.2.2
        · rw [next_recorded, asking.2.1.regs_eq, wrote_odr]
      refine Machine.wp_bind (wp_w asking_odr_keeps loaded fun c blk behaves ⟨asking, odr⟩ => ?_)
      have driven : Asking pt count phase v phase h
            ((recorded pc pt).next c blk (some (.write rIcr (keep ||| icrData)))) ∧
          ((recorded pc pt).next c blk (some (.write rIcr (keep ||| icrData)))).2.chip.regs.odr =
            out := by
        refine ⟨asking.next behaves ?_ ?_ ?_, ?_⟩
        · exact ⟨asking.2.1.quiet.mr, dataKeeps⟩
        · exact dataAck
        · exact asking.2.2
        · rw [next_recorded, asking.2.1.regs_eq, wrote_icr]
          exact odr
      refine Machine.wp_bind (wp_w asking_odr_keeps driven fun c blk behaves ⟨asking, odr⟩ => ?_)
      refine Machine.wp_pure ⟨fun _ => rfl, ?_, .inl ⟨?_, ?_⟩⟩
      · rw [next_recorded, asking.2.1.regs_eq, wrote_icr]
        exact asking.2.2
      · rw [next_recorded, asking.2.1.handed, List.append_nil, asking.1]
      · rw [← odr]
        exact asking.2.1.raises_out behaves towards asking.2.2 _ outKeeps outAck outData

theorem Asking.between (asking : Asking pt count shown v phase h c) : Between phase h c :=
  ⟨asking.1, asking.2.1.toPoised, asking.2.2⟩

/-- Waiting for REQ. -/
theorem ask_spec (between : Between phase h c) :
    (recorded pc pt).wp (fun c blk => Behaves count c.2 blk)
      (poll rCsb (csbReq ||| csbBsy) (csbReq ||| csbBsy))
      (fun asked c => if asked then ∃ shown v, Asking pt count shown v phase h c
        else Between phase h c) c := by
  refine wp_poll between_keeps between (R := Between phase h) (fun c blk behaves between => ?_)
    (fun _ between => between) (fun _ between => between)
  rw [answer_csb, (csb_bits _).1]
  cases asked : (c.2.bus pt { blk := blk }).req && (c.2.bus pt { blk := blk }).bsy with
  | true =>
      rw [Bool.and_eq_true] at asked
      exact ⟨_, _, (between.asked asked.1).rests behaves rfl⟩
  | false => exact between.rests behaves rfl

/-- Waiting for REQ to be released: the byte is over by the time of the first look. -/
theorem release_spec (acking : Acking pt count phase v h c) :
    (recorded pc pt).wp (fun c blk => Behaves count c.2 blk) (poll rCsb csbReq 0)
      (fun _ => Between phase (h ++ [(phase, v)])) c := by
  refine wp_poll acking_keeps acking (R := Between phase (h ++ [(phase, v)]))
    (fun c blk behaves acking => ?_) (fun c between => ⟨between.2.2, .inr ⟨between.1, between.2.1⟩⟩)
    (fun _ between => between)
  split
  · exact acking.rests behaves rfl
  · exact acking.rests behaves rfl

/-! ## The loop -/

/-- What `pio` reports as moved. -/
def reported (phase : BitVec 3) (out : List Byte) (moved : ℕ) (got : List Byte) : Moved :=
  (if phase.getLsbD 0 then got else out.take moved).map (phase, ·)

theorem reported_zero (phase : BitVec 3) (out : List Byte) : reported phase out 0 [] = [] := by
  simp [reported]

theorem reported_succ {out : List Byte} {i : ℕ} {got : List Byte}
    (sent : phase.getLsbD 0 = false → i < out.length ∧ v = out.getD i 0) :
    reported phase out (i + 1) (if phase.getLsbD 0 then got ++ [v] else got) =
      reported phase out i got ++ [(phase, v)] := by
  unfold reported
  cases towards : phase.getLsbD 0 with
  | true => simp
  | false =>
      obtain ⟨within, rfl⟩ := sent towards
      have byte : out.getD i 0 = out[i] := by
        rw [List.getD_eq_getElem?_getD, List.getElem?_eq_getElem within, Option.getD_some]
      rw [if_neg Bool.false_ne_true, if_neg Bool.false_ne_true,
        List.take_succ_eq_append_getElem within, byte, List.map_append, List.map_singleton]

/-- Where the loop stands with `left` bytes to go. -/
def PioDone (phase : BitVec 3) (out : List Byte) (n : ℕ) (h : Moved) (done : ℕ × List Byte)
    (c : Moved × Dma.System) : Prop :=
  Between phase (h ++ reported phase out done.1 done.2) c ∧ done.1 ≤ n ∧
    (phase.getLsbD 0 = true → done.2.length = done.1)

theorem pioFrom_spec {out : List Byte} {n left i : ℕ} {got : List Byte}
    (enough : phase.getLsbD 0 = false → n ≤ out.length) (all : i + left = n)
    (done : PioDone phase out n h (i, got) c) :
    (recorded pc pt).wp (fun c blk => Behaves count c.2 blk) (pioFrom phase out n left i got)
      (PioDone phase out n h) c := by
  induction left generalizing i got c with
  | zero => exact Machine.wp_pure done
  | succ left ih =>
      obtain ⟨between, within, gotten⟩ := done
      refine Machine.wp_bind (Machine.wp_mono (fun asked c polled => ?_) (ask_spec between))
      cases asked with
      | false => exact Machine.wp_pure ⟨polled, within, gotten⟩
      | true =>
          obtain ⟨shown, v, asking⟩ := polled
          rw [if_pos rfl]
          refine Machine.wp_bind (wp_r asking_keeps asking fun c blk behaves asking => ?_)
          rw [answer_csb, (csb_bits _).2.2.2.2.2, asking.bus_phase]
          have asking : Asking pt count shown v phase _
              ((recorded pc pt).next c blk (some (.read rCsb))) := asking.rests behaves rfl
          by_cases other : shown ≠ phase
          · rw [if_pos other]
            exact Machine.wp_pure ⟨asking.between, within, gotten⟩
          · obtain rfl : shown = phase := not_not.mp other
            rw [if_neg other]
            generalize keeps : (if shown = phMsgOut ∧ i + 1 < n then icrAtn else 0) = keep
            have masks : keep = 0 ∨ keep = icrAtn := by
              rw [← keeps]
              split
              · exact .inr rfl
              · exact .inl rfl
            have clear : keep &&& 0xcc = 0 ∧ keep.getLsbD 4 = false := by
              rcases masks with rfl | rfl <;> decide
            refine Machine.wp_bind (Machine.wp_mono (fun u c handed => ?_)
              (hand_spec keep (out.getD i 0) masks asking))
            obtain ⟨sent, acking⟩ := handed
            have report : reported shown out (i + 1) (if shown.getLsbD 0 then got ++ [u] else got) =
                reported shown out i got ++ [(shown, u)] :=
              reported_succ fun away => ⟨by have := enough away; omega, sent away⟩
            have length : shown.getLsbD 0 = true →
                (if shown.getLsbD 0 then got ++ [u] else got).length = i + 1 := by
              intro towards
              simp [towards, gotten towards]
            refine Machine.wp_bind (Machine.wp_mono (fun released c between => ?_)
              (release_spec acking))
            rw [List.append_assoc, ← report] at between
            cases released with
            | false => exact Machine.wp_pure ⟨between, by omega, length⟩
            | true =>
                rw [if_pos rfl]
                refine Machine.wp_bind (wp_w between_keeps between fun c blk behaves between => ?_)
                refine ih (by omega) ⟨between.next behaves ?_ ?_ ?_, by omega, length⟩
                · exact ⟨between.2.1.quiet.mr, clear.1⟩
                · exact fun up => absurd (up.symm.trans clear.2) (by decide)
                · exact between.2.2

theorem low_bits : ∀ phase : BitVec 3, (phase.setWidth 8).extractLsb' 0 3 = phase := by
  decide

/-- `pio`, from any state between two bytes. -/
theorem pio_spec {out : List Byte} {n : ℕ} (enough : phase.getLsbD 0 = false → n ≤ out.length)
    (past : c.1 = h) (poised : Poised c.2) :
    (recorded pc pt).wp (fun c blk => Behaves count c.2 blk) (pio phase out n)
      (PioDone phase out n h) c := by
  refine Machine.wp_bind (wp_w between_keeps ⟨past, poised, rfl⟩ fun c blk behaves between => ?_)
  refine pioFrom_spec enough (Nat.zero_add n) ⟨?_, Nat.zero_le n, fun _ => rfl⟩
  rw [reported_zero, List.append_nil]
  refine between.next behaves ?_ ?_ ?_
  · exact ⟨between.2.1.quiet.mr, between.2.1.quiet.icr⟩
  · exact id
  · rw [wrote_tcr]
    exact low_bits phase

end Pio

/-! ## Runs -/

section Run

variable {ρ : Type}

/-- What changes hands over a run of the driver, up to cycle `t`. -/
def transcript (pc : Chip.Params) (pt : Targ.Params) (p : Code ρ) (y : Dma.System)
    (turns : ℕ → Turn BlkRsp) (t : ℕ) : Moved :=
  trace (fun u => handed pt ((machine pc pt).exec p y turns u).2 (turns u).world) 0 t

/-- The back end behaves all along the run. -/
def BehavesOver (pc : Chip.Params) (pt : Targ.Params) (count : BitVec 32) (p : Code ρ)
    (y : Dma.System) (turns : ℕ → Turn BlkRsp) : Prop :=
  ∀ t, Behaves count ((machine pc pt).exec p y turns t).2 (turns t).world

variable {pc : Chip.Params} {pt : Targ.Params} {count : BitVec 32} {p : Code ρ} {y : Dma.System}
  {turns : ℕ → Turn BlkRsp} {Q : ρ → Moved × Dma.System → Prop}

/-- What holds of the program holds of its runs. -/
theorem run_returned (keeps : ∀ r, Keeps pc pt count (Q r))
    (holds : (recorded pc pt).wp (fun c blk => Behaves count c.2 blk) p Q ([], y)) {t : ℕ} {r : ρ}
    (behaves : ∀ u < t, Behaves count ((machine pc pt).exec p y turns u).2 (turns u).world)
    (returned : ((machine pc pt).exec p y turns t).1.result? = some r) :
    Q r (transcript pc pt p y turns t, ((machine pc pt).exec p y turns t).2) := by
  have same := fun u => Machine.exec_logged (m := machine pc pt) (p := p) (s := y) (handed pt) []
    turns u
  have ends := Machine.exec_done keeps holds (fun u before => by
      rw [recorded, same u]
      exact behaves u before) (show ((recorded pc pt).exec p ([], y) turns t).1.result? = some r by
      rw [recorded, same t]
      exact returned)
  rw [recorded, same t, List.nil_append] at ends
  exact ends

end Run

/-- A driver that moves again and again gets back from `pio`; and whenever it does, the bytes it
reports are those that changed hands, in the phase it was called for. -/
theorem pio_moves_exactly (pc : Chip.Params) (pt : Targ.Params) (count : BitVec 32)
    (phase : BitVec 3) (out : List Byte) (n : ℕ) (y : Dma.System) (turns : ℕ → Turn BlkRsp)
    (poised : Poised y) (enough : phase.getLsbD 0 = false → n ≤ out.length)
    (behaves : BehavesOver pc pt count (pio phase out n) y turns) :
    ((∀ t, ∃ u, t ≤ u ∧ (turns u).moves = true) →
      ∃ t done, ((machine pc pt).exec (pio phase out n) y turns t).1.result? = some done) ∧
    ∀ t moved got,
      ((machine pc pt).exec (pio phase out n) y turns t).1.result? = some (moved, got) →
      transcript pc pt (pio phase out n) y turns t =
          (if phase.getLsbD 0 then got else out.take moved).map (phase, ·) ∧
        moved ≤ n ∧ (phase.getLsbD 0 = true → got.length = moved) ∧
        Poised ((machine pc pt).exec (pio phase out n) y turns t).2 := by
  refine ⟨Machine.exec_returns, fun t moved got returned => ?_⟩
  obtain ⟨between, within, length⟩ := run_returned (Q := PioDone phase out n [])
    (fun r c blk world done => ⟨between_keeps c blk world done.1, done.2⟩)
    (pio_spec enough rfl poised) (fun u _ => behaves u) returned
  exact ⟨between.1, within, length, between.2.1⟩

/-- A target about to send the INQUIRY response, and a chip nobody has touched. -/
def inquiring : Dma.System where
  chip := {}
  targ := ⟨{ st := .datain, respKind := .inquiry, xferLen := 36 }, .blank⟩

/-- Three bytes, by a driver that moves in two cycles of three and waits for up to four polls. -/
def inTurns (t : ℕ) : Turn BlkRsp :=
  { moves := t % 3 != 1, pick := 4, world := {} }

theorem three_bytes_in : ((machine {} {}).exec (pio phDataIn [] 3) inquiring inTurns 38).1.result? =
      some (3, [0x00, 0x00, 0x02]) ∧
    transcript {} {} (pio phDataIn [] 3) inquiring inTurns 38 =
      [(phDataIn, 0x00), (phDataIn, 0x00), (phDataIn, 0x02)] := by
  have returned : ((machine {} {}).exec (pio phDataIn [] 3) inquiring inTurns 38).1.result? =
      some (3, [0x00, 0x00, 0x02]) := by decide +kernel
  have poised : Poised inquiring := by
    refine ⟨⟨rfl, rfl⟩, Targ.Seq.orderly_of_rests (fun begun => absurd rfl begun) rfl,
      fun begun => absurd rfl begun, fun up => absurd up (by decide)⟩
  exact ⟨returned, ((pio_moves_exactly {} {} 0 phDataIn [] 3 inquiring inTurns poised
    (fun away => absurd away (by decide)) fun _ => ⟨rfl, fun _ => rfl⟩).2 38 3 _ returned).1⟩

end Wish5380.Driver
