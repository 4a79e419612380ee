import Mathlib.Data.List.Infix
import Wish5380.Driver.Course
import Wish5380.Driver.Execute

/-!
# What the target makes of a command

The target decides by the bytes it has taken, and the driver hands over no others than those it
was given: so whatever becomes of a command, and whenever it is broken off, the target carries out
that command for that unit or none, and never twice.
-/

namespace Wish5380.Driver

open Clocked

/-! ## The accesses of a program -/

/-- No RST, no MONITOR BUSY, and no window. -/
def Lawful : Access → Prop
  | .read _ => True
  | .write reg v => reg = rTcr ∨ reg = rOdr ∨ reg = rSer ∨ reg = rIcr ∧ v.getLsbD 7 = false ∨
      reg = rMr ∧ v.getLsbD 2 = false
  | _ => False

/-- What leaves a chip `Quiet`. -/
def Handing : Access → Prop
  | .read _ => True
  | .write reg v => reg = rTcr ∨ reg = rOdr ∨ reg = rIcr ∧ v &&& 0xcc = 0
  | _ => False

theorem Handing.lawful : ∀ a, Handing a → Lawful a
  | .read _, _ => trivial
  | .write _ _, .inl tcr => .inl tcr
  | .write _ _, .inr (.inl odr) => .inr (.inl odr)
  | .write _ v, .inr (.inr ⟨icr, keeps⟩) =>
      .inr (.inr (.inr (.inl ⟨icr, (show Quiet { icr := v } from ⟨rfl, keeps⟩).icrRst⟩)))

section Only

variable {P : Access → Prop}

theorem only_w {reg : BitVec 3} {v : Byte} (allowed : P (.write reg v)) : (w reg v).Only P :=
  (Program.Only.perform allowed).bind fun _ => .pure _

theorem only_r {reg : BitVec 3} (allowed : P (.read reg)) : (r reg).Only P :=
  (Program.Only.perform allowed).bind fun _ => .pure _

theorem only_poll {reg : BitVec 3} {mask val : Byte} (allowed : P (.read reg)) :
    (poll reg mask val).Only P :=
  Program.Only.any.bind fun n => .await allowed _ n

theorem hand_only (phase : BitVec 3) (keep out : Byte) (keeps : keep = 0 ∨ keep = icrAtn) :
    (hand phase keep out).Only Handing := by
  have bits : (keep ||| icrAck) &&& 0xcc = 0 ∧ (keep ||| icrData) &&& 0xcc = 0 ∧
      (keep ||| icrData ||| icrAck) &&& 0xcc = 0 := by
    rcases keeps with rfl | rfl <;> decide
  obtain ⟨ack, data, both⟩ := bits
  unfold hand
  split
  · exact (only_r trivial).bind fun _ =>
      (only_w (.inr (.inr ⟨rfl, ack⟩))).bind fun _ => .pure _
  · exact (only_w (.inr (.inl rfl))).bind fun _ => (only_w (.inr (.inr ⟨rfl, data⟩))).bind fun _ =>
      (only_w (.inr (.inr ⟨rfl, both⟩))).bind fun _ => .pure _

theorem pioFrom_only (phase : BitVec 3) (out : List Byte) (n left i : ℕ) (got : List Byte) :
    (pioFrom phase out n left i got).Only Handing := by
  induction left generalizing i got with
  | zero => exact .pure _
  | succ left ih =>
      refine (only_poll trivial).bind fun asked => ?_
      split
      · refine (only_r trivial).bind fun csb => ?_
        split
        · exact .pure _
        · have keeps : (if phase = phMsgOut ∧ i + 1 < n then icrAtn else 0) = 0 ∨
              (if phase = phMsgOut ∧ i + 1 < n then icrAtn else 0) = icrAtn := by
            split <;> simp
          refine (hand_only phase _ _ keeps).bind fun v => (only_poll trivial).bind fun released => ?_
          split
          · refine (only_w (.inr (.inr ⟨rfl, ?_⟩))).bind fun _ => ih _ _
            rcases keeps with none | atn
            · rw [none]
              decide
            · rw [atn]
              decide
          · exact .pure _
      · exact .pure _

theorem pio_only (phase : BitVec 3) (out : List Byte) (n : ℕ) : (pio phase out n).Only Handing :=
  (only_w (.inl rfl)).bind fun _ => pioFrom_only phase out n n 0 []

theorem move_only {c : Command} (plain : c.usePdma = false) (phase : BitVec 3) (out : List Byte)
    (n : ℕ) : (move c phase out n).Only Handing := by
  rw [move_plain plain]
  exact pio_only phase out n

theorem answer_only {c : Command} (plain : c.usePdma = false) (phase : BitVec 3) (pos : ℕ)
    (res : Result) : (answer c phase pos res).Only Handing := by
  unfold answer giveMessage giveCommand giveData takeData takeStatus takeMessage
  split_ifs
  · exact (pio_only ..).bind fun _ => .pure _
  · exact (pio_only ..).bind fun _ => .pure _
  · dsimp only
    split_ifs
    · exact .pure _
    · exact (move_only plain ..).bind fun _ => .pure _
  · dsimp only
    split_ifs
    · exact .pure _
    · exact (move_only plain ..).bind fun _ => .pure _
  · refine (pio_only ..).bind fun done => ?_
    dsimp only
    split_ifs <;> exact .pure _
  · refine (pio_only ..).bind fun done => ?_
    dsimp only
    split_ifs
    · exact (only_poll trivial).bind fun _ => .pure _
    · exact .pure _
    · exact .pure _
  · exact .pure _

/-- The phase loop leaves Mode alone, and RST, TEST MODE, BSY and SEL. -/
theorem transfer_only {c : Command} (plain : c.usePdma = false) (guard pos : ℕ) (res : Result) :
    (transfer c guard pos res).Only Handing := by
  induction guard generalizing pos res with
  | zero => exact .pure _
  | succ guard ih =>
      refine (only_poll trivial).bind fun asked => (only_r trivial).bind fun csb => ?_
      split
      · refine (answer_only plain _ pos res).bind fun turned => ?_
        split
        · exact ih _ _
        · exact .pure _
      · exact .pure _

theorem select_only (host target : ℕ) : (select host target).Only Lawful := by
  have icr {v : Byte} (clear : v.getLsbD 7 = false) : (w rIcr v).Only Lawful :=
    only_w (.inr (.inr (.inr (.inl ⟨rfl, clear⟩))))
  have mr {v : Byte} (clear : v.getLsbD 2 = false) : (w rMr v).Only Lawful :=
    only_w (.inr (.inr (.inr (.inr ⟨rfl, clear⟩))))
  have lost : (do
      w rMr 0
      pure false : Code Bool).Only Lawful := (mr (by decide)).bind fun _ => .pure _
  refine (only_w (.inl rfl)).bind fun _ => (only_w (.inr (.inl rfl))).bind fun _ =>
    (mr (by decide)).bind fun _ => (only_poll trivial).bind fun begun => ?_
  split
  · refine (only_r trivial).bind fun _ => ?_
    split
    · exact lost
    · refine (only_r trivial).bind fun _ => ?_
      split
      · exact lost
      · refine (icr (by decide)).bind fun _ => (only_w (.inr (.inl rfl))).bind fun _ =>
          (icr (by decide)).bind fun _ => (mr (by decide)).bind fun _ =>
          (only_w (.inr (.inr (.inl rfl)))).bind fun _ => (icr (by decide)).bind fun _ =>
          (only_poll trivial).bind fun answered => ?_
        split
        · exact (icr (by decide)).bind fun _ => .pure _
        · exact (icr (by decide)).bind fun _ => .pure _
  · exact lost

theorem execute_only (host : ℕ) {c : Command} (plain : c.usePdma = false) :
    (execute host c).Only Lawful := by
  refine (select_only host c.target).bind fun connected => ?_
  split
  · exact (transfer_only plain 4096 0 {}).mono Handing.lawful
  · exact .pure _

end Only

/-! ## What it leaves of the chip -/

section Next

variable {pc : Chip.Params} {pt : Targ.Params} {y : Dma.System} {blk : BlkRsp} {a : Option Access}

theorem bus_rst_low (pt : Targ.Params) (i : Dma.Input) (low : y.chip.regs.icrRst = false) :
    (y.bus pt i).rst = false := by
  have wires := congrArg Scsi.rst (Chip.settle_eq y.chip (Targ.drive pt y.targ i.blk.count))
  change (y.bus pt i).rst = ((y.chip.drvEn && y.chip.regs.icrRst) || false) at wires
  rw [wires, low, Bool.and_false, Bool.or_false]

/-- Neither RST nor MONITOR BUSY. -/
def Calm (y : Dma.System) : Prop :=
  y.chip.regs.icrRst = false ∧ y.chip.regs.monitorBsy = false

theorem Calm.next (calm : Calm y) (allowed : ∀ b ∈ a, Lawful b) :
    Calm ((machine pc pt).next y blk a) := by
  unfold Calm
  rw [next_regs pc pt y blk a (bus_rst_low pt _ calm.1) calm.2]
  cases a with
  | none => exact calm
  | some b =>
      cases b with
      | read reg => exact calm
      | pdmaRead n => exact (allowed _ rfl).elim
      | pdmaWrite bytes => exact (allowed _ rfl).elim
      | write reg v =>
          rcases allowed _ rfl with rfl | rfl | rfl | ⟨rfl, clear⟩ | ⟨rfl, clear⟩
          · exact calm
          · exact calm
          · exact calm
          · exact ⟨clear, calm.2⟩
          · refine ⟨calm.1, ?_⟩
            rw [wrote_mr, Chip.Regs.monitorBsy]
            split
            · exact clear
            · rw [BitVec.getLsbD_and, clear, Bool.false_and]

theorem Quiet.next (quiet : Quiet y.chip.regs) (allowed : ∀ b ∈ a, Handing b) :
    Quiet ((machine pc pt).next y blk a).chip.regs := by
  rw [next_regs pc pt y blk a (bus_rst pt _ quiet) quiet.monitorBsy]
  cases a with
  | none => exact quiet
  | some b =>
      cases b with
      | read reg => exact quiet
      | pdmaRead n => exact (allowed _ rfl).elim
      | pdmaWrite bytes => exact (allowed _ rfl).elim
      | write reg v =>
          rcases allowed _ rfl with rfl | rfl | ⟨rfl, keeps⟩
          · exact ⟨quiet.mr, quiet.icr⟩
          · exact ⟨quiet.mr, quiet.icr⟩
          · exact ⟨quiet.mr, keeps⟩

end Next

section Run

variable {ρ : Type} {pc : Chip.Params} {pt : Targ.Params} {count : BitVec 32} {p : Code ρ}
  {y : Dma.System} {turns : ℕ → Turn BlkRsp} {t : ℕ}

theorem calm_run (only : p.Only Lawful) (calm : Calm y) (t : ℕ) :
    Calm ((machine pc pt).exec p y turns t).2 :=
  (Machine.exec_keeps only (fun _ _ calm => Calm.next calm (by simp))
    (fun _ _ _ allowed calm => Calm.next calm (by simpa using allowed)) calm t).2

theorem quiet_run (only : p.Only Handing) (quiet : Quiet y.chip.regs) (t : ℕ) :
    Quiet ((machine pc pt).exec p y turns t).2.chip.regs :=
  (Machine.exec_keeps (I := fun y => Quiet y.chip.regs) only
    (fun y _ quiet => Quiet.next (y := y) quiet (by simp))
    (fun y _ _ allowed quiet => Quiet.next (y := y) quiet (by simpa using allowed)) quiet t).2

/-! ## The target over a run of the driver -/

def targets (pc : Chip.Params) (pt : Targ.Params) (p : Code ρ) (y : Dma.System)
    (turns : ℕ → Turn BlkRsp) (t : ℕ) : Targ.State :=
  ((machine pc pt).exec p y turns t).2.targ

/-- What it sees. -/
def seen (pc : Chip.Params) (pt : Targ.Params) (p : Code ρ) (y : Dma.System)
    (turns : ℕ → Turn BlkRsp) (t : ℕ) : Targ.Cycle where
  bus := ((machine pc pt).exec p y turns t).2.bus pt { blk := (turns t).world }
  blk := (turns t).world

/-- It is a run of its own. -/
theorem targets_run : targets pc pt p y turns = Targ.run pt y.targ (seen pc pt p y turns) := by
  funext t
  induction t with
  | zero => rfl
  | succ t ih =>
      obtain ⟨a, step⟩ : ∃ a, ((machine pc pt).exec p y turns (t + 1)).2 =
          (machine pc pt).next ((machine pc pt).exec p y turns t).2 (turns t).world a :=
        Machine.exec_step t
      rw [Targ.run_succ, ← ih, targets, step]
      rfl

theorem transcript_spoken : transcript pc pt p y turns t =
    Targ.spoken (targets pc pt p y turns) (seen pc pt p y turns) 0 t :=
  rfl

theorem transcript_mono {t u : ℕ} (early : t ≤ u) :
    transcript pc pt p y turns t <+: transcript pc pt p y turns u := by
  rw [transcript, transcript, trace_append _ (Nat.zero_le t) early]
  exact List.prefix_append _ _

theorem transcript_add {ρ' : Type} {q : Code ρ'} {z : Dma.System} {turns' : ℕ → Turn BlkRsp} {a : ℕ}
    (same : ∀ u < t, ((machine pc pt).exec p y turns (a + u)).2 = ((machine pc pt).exec q z turns' u).2)
    (worlds : ∀ u < t, turns (a + u) = turns' u) :
    transcript pc pt p y turns (a + t) =
      transcript pc pt p y turns a ++ transcript pc pt q z turns' t := by
  induction t with
  | zero => simp [transcript]
  | succ t ih =>
      have before := ih (fun u early => same u (by omega)) fun u early => worlds u (by omega)
      rw [transcript, ← Nat.add_assoc, trace_succ _ (Nat.zero_le _), ← transcript, before,
        same t (Nat.lt_succ_self t), worlds t (Nat.lt_succ_self t), List.append_assoc]
      congr 1
      exact (trace_succ _ (Nat.zero_le t)).symm

theorem seen_calm (only : p.Only Lawful) (poised : Poised y) (t : ℕ) :
    (seen pc pt p y turns t).bus.rst = false :=
  bus_rst_low pt _ (calm_run only ⟨poised.quiet.icrRst, poised.quiet.monitorBsy⟩ t).1

/-- A back end that fills the buffer for the READ it owes an answer, and only then, keeps its hands
off it while bytes move. -/
theorem behaves_of_inside (only : p.Only Lawful) (poised : Poised y)
    (inside : ∀ v, (seen pc pt p y turns v).blk.bufWe = true →
      ∃ w, w ≤ v ∧ (Targ.blkReq (targets pc pt p y turns w)).start = true ∧
        (Targ.blkReq (targets pc pt p y turns w)).we = false ∧
        ∀ u, w ≤ u → u < v → (seen pc pt p y turns u).blk.done = false)
    (size : ∀ t, (turns t).world.count = count) : BehavesOver pc pt count p y turns := by
  intro t
  refine ⟨size t, fun moves => ?_⟩
  by_contra writes
  obtain ⟨w, low, start, -, pending⟩ := inside t
    (show (turns t).world.bufWe = true by simpa using writes)
  have orderly (u : ℕ) : (targets pc pt p y turns u).seq.Orderly := by
    rw [targets_run]
    exact Targ.orderly_run poised.orderly u
  have waits (u : ℕ) (above : w ≤ u) (below : u ≤ t) :
      (targets pc pt p y turns u).seq.st = .rdwait ∨
        (targets pc pt p y turns u).seq.st = .wrwait := by
    induction u, above using Nat.le_induction with
    | base => exact (orderly w).asks start
    | succ u above ih =>
        have edge := Targ.Seq.clock_edge pt (targets pc pt p y turns u).seq (seen pc pt p y turns u)
        have next : (targets pc pt p y turns (u + 1)).seq =
            (targets pc pt p y turns u).seq.clock pt (seen pc pt p y turns u) := by
          rw [targets_run]
          rfl
        rw [next]
        exact edge.waits rfl (seen_calm only poised u) (ih (by omega)) (pending u above below)
  rcases waits t low (Nat.le_refl t) with st | st
  · exact Targ.St.noConfusion (moves.symm.trans st)
  · exact Targ.St.noConfusion (moves.symm.trans st)

end Run

/-! ## The sessions of a command -/

section Session

variable {pc : Chip.Params} {pt : Targ.Params} {count : BitVec 32} {host : ℕ} {c : Command}
  {y : Dma.System} {turns : ℕ → Turn BlkRsp} {T : ℕ} {res : Result}

/-- From cycle `S` on, before which nothing is said, the target attends and the driver is in its
phase loop. -/
structure Attended (pc : Chip.Params) (pt : Targ.Params) (host : ℕ) (c : Command) (y : Dma.System)
    (turns : ℕ → Turn BlkRsp) (S : ℕ) : Prop where
  silent : transcript pc pt (execute host c) y turns S = []
  attends : Attends ((machine pc pt).exec (execute host c) y turns S).2
  quiet : ∀ u, S ≤ u → Quiet ((machine pc pt).exec (execute host c) y turns u).2.chip.regs

/-- First the selection, then the phase loop. -/
theorem execute_splits
    (returned : ((machine pc pt).exec (execute host c) y turns T).1.result? = some res) :
    ∃ S selected, S ≤ T ∧
      ((machine pc pt).exec (select host c.target) y turns S).1.result? = some selected ∧
      (∀ u ≤ S, ((machine pc pt).exec (execute host c) y turns u).2 =
        ((machine pc pt).exec (select host c.target) y turns u).2) ∧
      ∀ u, (machine pc pt).exec (execute host c) y turns (S + u) =
        (machine pc pt).exec (if selected then transfer c 4096 0 {} else pure {})
          ((machine pc pt).exec (execute host c) y turns S).2 (fun v => turns (S + v)) u := by
  obtain ⟨S, selected, before, ended, same, after⟩ := Machine.exec_bind returned
  refine ⟨S, selected, before, ended, same, fun u => ?_⟩
  rw [show ((machine pc pt).exec (execute host c) y turns S).2 = _ from same S (Nat.le_refl S)]
  exact after u

/-- A command that is over has had a session, or nothing was ever said. -/
theorem session (plain : c.usePdma = false) (poised : Poised y) (low : y.chip.regs.icrAck = false)
    (behaves : ∀ u < T, Behaves count ((machine pc pt).exec (execute host c) y turns u).2 (turns u).world)
    (returned : ((machine pc pt).exec (execute host c) y turns T).1.result? = some res) :
    (∃ S ≤ T, Attended pc pt host c y turns S) ∨
      res = {} ∧ transcript pc pt (execute host c) y turns T = [] := by
  obtain ⟨S, selected, before, ended, same, after⟩ := execute_splits returned
  obtain ⟨unheard, outcome⟩ : Still (Outcome pt (called host c.target) y.chip.regs.icr selected) []
      (transcript pc pt (select host c.target) y turns S,
        ((machine pc pt).exec (select host c.target) y turns S).2) :=
    run_returned outcome_keeps (select_spec ⟨rfl, poised, low, rfl⟩) (fun u early => by
      rw [← same u (by omega)]
      exact behaves u (by omega)) ended
  have silent : transcript pc pt (execute host c) y turns S = [] := by
    have split : transcript pc pt (execute host c) y turns (0 + S) =
        [] ++ transcript pc pt (select host c.target) y turns S :=
      transcript_add (fun u early => by rw [Nat.zero_add]; exact same u (by omega))
        fun u _ => by rw [Nat.zero_add]
    rw [Nat.zero_add] at split
    exact split.trans unheard
  rw [← same S (Nat.le_refl S)] at outcome
  cases selected with
  | true =>
      obtain ⟨attends, -⟩ : Attends ((machine pc pt).exec (execute host c) y turns S).2 ∧ _ := outcome
      refine .inl ⟨S, before, silent, attends, fun u late => ?_⟩
      rw [← Nat.add_sub_cancel' late, after]
      exact quiet_run (transfer_only plain 4096 0 {}) attends.quiet _
  | false =>
      obtain ⟨poised, -⟩ : Poised ((machine pc pt).exec (execute host c) y turns S).2 ∧ _ := outcome
      have after (u : ℕ) : (machine pc pt).exec (execute host c) y turns (S + u) =
          (machine pc pt).exec (pure {} : Code Result)
            ((machine pc pt).exec (execute host c) y turns S).2 (fun v => turns (S + v)) u := after u
      have stays (u : ℕ) : ((machine pc pt).exec (pure {} : Code Result)
          ((machine pc pt).exec (execute host c) y turns S).2 (fun v => turns (S + v)) u).1.result? =
            some {} := Machine.exec_stays rfl (Nat.zero_le u)
      refine .inr ⟨?_, ?_⟩
      · rw [← Nat.add_sub_cancel' before, after, stays] at returned
        exact (Option.some.inj returned).symm
      · have rest := run_returned (Q := fun _ => Still Poised [])
          (fun _ => still_keeps fun y blk behaves poised =>
            ⟨poised.handed, poised.next behaves poised.quiet id⟩)
          (Machine.wp_pure ⟨rfl, poised⟩) (fun u early => by
            rw [← after u]
            exact behaves (S + u) (by omega)) (stays (T - S))
        rw [← Nat.add_sub_cancel' before, transcript_add (fun u _ => congrArg Prod.snd (after u))
          fun u _ => rfl, silent]
        exact rest.1

theorem Attended.alone {S : ℕ} (attended : Attended pc pt host c y turns S) :
    Targ.LeftAlone (seen pc pt (execute host c) y turns) S where
  pin _ _ := rfl
  rst u late := bus_rst pt _ (attended.quiet u late)
  sel u late := bus_sel pt _ (attended.quiet u late)

theorem Attends.course {y : Dma.System} (attends : Attends y) (id : Byte) :
    Targ.Course id [] y.targ.seq := by
  rcases attends.place with st | ⟨st, begun⟩
  · exact .selected st attends.seen
  · exact .message st attends.seen (by simp) fun lets => absurd lets begun

theorem during_mono {phase : BitVec 3} {h h' : Moved} (early : h <+: h') :
    during phase h <+: during phase h' :=
  (early.filter _).map _

/-- The first command among the bytes of several. -/
theorem first_command {cdb got sent : List Byte} {n : ℕ} (whole : cdb.length = Targ.commandLength cdb)
    (some : got ≠ []) (complete : got.length = Targ.commandLength got) (short : sent <+: cdb)
    (inside : got <+: (List.replicate n cdb).flatten ++ sent) : got = cdb := by
  have begins : ∃ rest, got <+: cdb ++ rest := by
    cases n with
    | zero => exact ⟨[], by simpa using inside.trans short⟩
    | succ n => exact ⟨_, by simpa [List.replicate_succ, List.append_assoc] using inside⟩
  obtain ⟨rest, begins⟩ := begins
  have same : Targ.commandLength got = Targ.commandLength cdb := by
    cases got with
    | nil => exact absurd rfl some
    | cons op got =>
        cases cdb with
        | nil => cases whole
        | cons op' cdb =>
            obtain ⟨rfl, -⟩ := List.cons_prefix_cons.mp begins
            rfl
  have within : got <+: cdb :=
    List.prefix_of_prefix_length_le begins (List.prefix_append _ _) (by omega)
  exact within.eq_of_length (by omega)

/-- The unit a command is for. -/
def Command.unit (c : Command) : BitVec 3 :=
  c.lun.extractLsb' 0 3

theorem identify_bits (c : Command) : c.identify.getLsbD 7 = true ∧
    c.identify.extractLsb' 0 3 = c.unit := by
  have bits : ∀ lun : Byte, (0x80 ||| (lun &&& 7)).getLsbD 7 = true ∧
      (0x80 ||| (lun &&& 7)).extractLsb' 0 3 = lun.extractLsb' 0 3 := by
    decide
  exact bits c.lun

/-- What the target hears in a session that is over. -/
theorem Told.hears (told : Told c res (transcript pc pt (execute host c) y turns T,
      ((machine pc pt).exec (execute host c) y turns T).2)) {u : ℕ} (early : u < T) :
    ∀ m ∈ (targets pc pt (execute host c) y turns u).seq.gives
      (seen pc pt (execute host c) y turns u).bus, m.1 = phMsgOut → m.2 = c.identify := by
  intro m mem phase
  obtain ⟨-, -, -, -, -, messages⟩ := told.reports
  refine messages m.2 ?_
  have inside : m ∈ transcript pc pt (execute host c) y turns T :=
    mem_trace.mpr ⟨u, Nat.zero_le u, early, mem⟩
  simp only [during, List.mem_map, List.mem_filter]
  exact ⟨m, ⟨inside, by simp [phase]⟩, rfl⟩

/-- From the selection on the target is on its way to a command, or has had one. -/
theorem Attended.course {S e : ℕ} (attended : Attended pc pt host c y turns S)
    (orderly : y.targ.seq.Orderly)
    (told : Told c res (transcript pc pt (execute host c) y turns T,
      ((machine pc pt).exec (execute host c) y turns T).2)) (low : S ≤ e) (high : e ≤ T) :
    Targ.Course c.identify (transcript pc pt (execute host c) y turns e)
        (targets pc pt (execute host c) y turns e).seq ∨
      ∃ d, S ≤ d ∧ d < e ∧ (targets pc pt (execute host c) y turns d).seq.st = .exec ∧
        Targ.Course c.identify (transcript pc pt (execute host c) y turns d)
          (targets pc pt (execute host c) y turns d).seq := by
  have spoken (e : ℕ) (low : S ≤ e) : transcript pc pt (execute host c) y turns e =
      Targ.spoken (targets pc pt (execute host c) y turns) (seen pc pt (execute host c) y turns) S e := by
    have split := trace_append (fun u => handed pt ((machine pc pt).exec (execute host c) y turns u).2
      (turns u).world) (Nat.zero_le S) low
    rw [← transcript, ← transcript, attended.silent, List.nil_append] at split
    exact split
  have begun : Targ.Course c.identify [] (targets pc pt (execute host c) y turns S).seq :=
    attended.attends.course c.identify
  have messages := fun u (_ : S ≤ u) (early : u < T) => told.hears early
  rw [targets_run] at begun messages
  have run := Targ.course_run orderly attended.alone (identify_bits c).1 begun messages low high
  rw [← targets_run] at run
  rcases run with course | ⟨d, after, before, st, course⟩
  · exact .inl (spoken e low ▸ course)
  · exact .inr ⟨d, after, before, st, spoken d after ▸ course⟩

/-- A target that carries out a command carries out the one the driver was given. -/
theorem Attended.bears {S e : ℕ} (attended : Attended pc pt host c y turns S)
    (orderly : y.targ.seq.Orderly) (whole : c.cdb.length = Targ.commandLength c.cdb)
    (told : Told c res (transcript pc pt (execute host c) y turns T,
      ((machine pc pt).exec (execute host c) y turns T).2)) (low : S ≤ e) (high : e ≤ T)
    (st : (targets pc pt (execute host c) y turns e).seq.st = .exec) :
    Targ.Course c.identify (transcript pc pt (execute host c) y turns e)
        (targets pc pt (execute host c) y turns e).seq ∧
      Targ.Bears c.cdb c.unit (targets pc pt (execute host c) y turns e).seq := by
  have course : Targ.Course c.identify (transcript pc pt (execute host c) y turns e)
      (targets pc pt (execute host c) y turns e).seq := by
    rcases attended.course orderly told low high with course | ⟨d, after, before, earlier, -⟩
    · exact course
    · rw [targets_run] at earlier st
      exact absurd st (Targ.away_after (attended.alone.later after) earlier before).exec
  refine ⟨course, ?_⟩
  obtain ⟨said, got, spoken, messages, some, complete, bears⟩ := course.bears st
  obtain ⟨-, -, -, -, ⟨n, sent, short, commands, -⟩, -⟩ := told.reports
  have mine : during phCommand (transcript pc pt (execute host c) y turns e) = got := by
    have none : during phCommand said = [] := by
      simp only [during, List.map_eq_nil_iff, List.filter_eq_nil_iff]
      intro b mem
      rw [messages b mem]
      exact (by decide : ¬ (phMsgOut == phCommand) = true)
    rw [spoken, during_append, none, during_map, if_pos rfl, List.nil_append]
  have inside : during phCommand (transcript pc pt (execute host c) y turns e) <+:
      during phCommand (transcript pc pt (execute host c) y turns T) :=
    during_mono (transcript_mono high)
  rw [mine, commands] at inside
  obtain rfl := first_command whole some complete short inside
  rw [← (identify_bits c).2]
  exact bears

/-- While nothing is said to it the target carries out nothing, and asks for nothing. -/
theorem unspoken_at {ρ : Type} {p : Code ρ} {u : ℕ} (orderly : y.targ.seq.Orderly)
    (unspoken : y.targ.seq.Unspoken) (silent : transcript pc pt p y turns u = []) :
    (targets pc pt p y turns u).seq.Unspoken ∧ (Targ.blkReq (targets pc pt p y turns u)).start = false := by
  have nothing (v : ℕ) (early : v < u) :
      (targets pc pt p y turns v).seq.gives (seen pc pt p y turns v).bus = [] := by
    refine List.eq_nil_iff_forall_not_mem.mpr fun m mem => ?_
    have inside : m ∈ transcript pc pt p y turns u := mem_trace.mpr ⟨v, Nat.zero_le v, early, mem⟩
    simp [silent] at inside
  rw [targets_run] at nothing ⊢
  have here := Targ.unspoken_run unspoken nothing
  exact ⟨here, here.quiet (Targ.orderly_run orderly u)⟩

/-- A command that is carried out before the driver is done is the one it was given. -/
theorem bears_of_returned (plain : c.usePdma = false) (poised : Poised y)
    (low : y.chip.regs.icrAck = false) (unspoken : y.targ.seq.Unspoken)
    (whole : c.cdb.length = Targ.commandLength c.cdb)
    (behaves : ∀ u < T, Behaves count ((machine pc pt).exec (execute host c) y turns u).2 (turns u).world)
    (returned : ((machine pc pt).exec (execute host c) y turns T).1.result? = some res) {e : ℕ}
    (before : e ≤ T) (st : (targets pc pt (execute host c) y turns e).seq.st = .exec) :
    ∃ S ≤ e, Attended pc pt host c y turns S ∧
      Targ.Bears c.cdb c.unit (targets pc pt (execute host c) y turns e).seq := by
  have told : Told c res (transcript pc pt (execute host c) y turns T,
      ((machine pc pt).exec (execute host c) y turns T).2) :=
    run_returned (fun _ => told_keeps) (execute_spec plain ⟨rfl, poised, low, rfl⟩) behaves returned
  have spoke : transcript pc pt (execute host c) y turns e ≠ [] := fun silent =>
    (unspoken_at poised.orderly unspoken silent).1.not_exec st
  rcases session plain poised low behaves returned with ⟨S, -, attended⟩ | ⟨-, silent⟩
  · have late : S ≤ e := by
      by_contra early
      have part : transcript pc pt (execute host c) y turns e <+:
          transcript pc pt (execute host c) y turns S := transcript_mono (Nat.le_of_not_le early)
      rw [attended.silent] at part
      exact spoke (List.prefix_nil.mp part)
    exact ⟨S, late, attended, (attended.bears poised.orderly whole told late before st).2⟩
  · have part : transcript pc pt (execute host c) y turns e <+:
        transcript pc pt (execute host c) y turns T := transcript_mono before
    rw [silent] at part
    exact absurd (List.prefix_nil.mp part) spoke

/-- The driver could always still come to an end, and find a back end that keeps still. -/
theorem run_completes {ρ : Type} {p : Code ρ} (t : ℕ)
    (behaves : ∀ u < t, Behaves count ((machine pc pt).exec p y turns u).2 (turns u).world) :
    ∃ turns' : ℕ → Turn BlkRsp, ∃ T r, (∀ u < t, turns' u = turns u) ∧ t ≤ T ∧
      ((machine pc pt).exec p y turns' T).1.result? = some r ∧
      ∀ u < T, Behaves count ((machine pc pt).exec p y turns' u).2 (turns' u).world := by
  let rest : Turn BlkRsp := { moves := true, world := { count := count } }
  let turns' (u : ℕ) : Turn BlkRsp := if u < t then turns u else rest
  have same (u : ℕ) (early : u < t) : turns' u = turns u := if_pos early
  have moves (u : ℕ) : ∃ v, u ≤ v ∧ (turns' v).moves = true := by
    refine ⟨max u t, Nat.le_max_left u t, ?_⟩
    rw [show turns' (max u t) = rest from if_neg (by omega)]
  obtain ⟨T, r, returned⟩ := Machine.exec_returns (m := machine pc pt) (p := p) (s := y) moves
  refine ⟨turns', max T t, r, same, Nat.le_max_right T t,
    Machine.exec_stays returned (Nat.le_max_left T t), fun u _ => ?_⟩
  rcases Nat.lt_or_ge u t with early | late
  · rw [same u early, Machine.exec_congr same (Nat.le_of_lt early)]
    exact behaves u early
  · rw [show turns' u = rest from if_neg (by omega)]
    exact ⟨rfl, fun _ => rfl⟩

/-- Whether the driver ever gets back or not, a command that is carried out is the one it was
given. -/
theorem bears_of_exec (plain : c.usePdma = false) (poised : Poised y)
    (low : y.chip.regs.icrAck = false) (unspoken : y.targ.seq.Unspoken)
    (whole : c.cdb.length = Targ.commandLength c.cdb)
    (behaves : BehavesOver pc pt count (execute host c) y turns) {e : ℕ}
    (st : (targets pc pt (execute host c) y turns e).seq.st = .exec) :
    Targ.Bears c.cdb c.unit (targets pc pt (execute host c) y turns e).seq := by
  obtain ⟨turns', T, r, same, late, returned, keeps⟩ := run_completes (e + 1) fun u _ => behaves u
  have there : targets pc pt (execute host c) y turns' e =
      targets pc pt (execute host c) y turns e := by
    rw [targets, targets, Machine.exec_congr same (by omega)]
  rw [← there] at st ⊢
  obtain ⟨S, -, -, bears⟩ := bears_of_returned plain poised low unspoken whole keeps returned
    (by omega) st
  exact bears

end Session

/-! ## What a command asks for -/

/-- The descriptor register with the bytes of a command. -/
def register (bytes : List Byte) : BitVec 96 :=
  (List.range 12).foldl (fun cdb i => Targ.setCdbByte cdb i (bytes.getD i 0)) 0

theorem cdbByte_register {bytes : List Byte} {k : ℕ} (inside : k < 12) :
    Targ.cdbByte (register bytes) k = bytes.getD k 0 := by
  have upTo (n : ℕ) (few : n ≤ 12) : ∀ j < n, Targ.cdbByte ((List.range n).foldl
      (fun cdb i => Targ.setCdbByte cdb i (bytes.getD i 0)) 0) j = bytes.getD j 0 := by
    induction n with
    | zero => exact fun j below => absurd below (Nat.not_lt_zero j)
    | succ n ih =>
        intro j below
        rw [List.range_succ, List.foldl_append, List.foldl_cons, List.foldl_nil,
          Targ.cdbByte_setCdbByte _ _ (by omega) (by omega)]
        split_ifs with last
        · rw [last]
        · exact ih (by omega) j (by omega)
  exact upTo 12 (Nat.le_refl 12) k inside

/-- A target that holds the command, for what its registers decode. -/
def Command.asks (c : Command) : Targ.Seq :=
  { cdb := register c.cdb }

/-- The registers of a target that holds a command decode as the command does. -/
theorem bears_decode {c : Command} {s : Targ.Seq} (bears : Targ.Bears c.cdb c.unit s)
    (whole : c.cdb.length = Targ.commandLength c.cdb) :
    s.op = c.asks.op ∧ s.cmdLba = c.asks.cmdLba ∧ s.cmdBlocks = c.asks.cmdBlocks := by
  have few := Targ.Seq.commandLength_le c.cdb
  have byte (k : ℕ) (below : k < c.cdb.length) :
      Targ.cdbByte s.cdb k = Targ.cdbByte (register c.cdb) k := by
    rw [bears.bytes k below, cdbByte_register (by omega)]
  have length : Targ.groupLength s.op = c.cdb.length := by
    cases bytes : c.cdb with
    | nil => simp [bytes, Targ.commandLength] at whole
    | cons op rest =>
        have first := bears.bytes 0 (by simp [bytes])
        rw [bytes] at first
        rw [← bytes, whole, bytes]
        exact congrArg Targ.groupLength first
  have same : Targ.Seq.SameCommand s { s with cdb := register c.cdb } :=
    ⟨rfl, rfl, fun k below => byte k (length ▸ below)⟩
  exact ⟨same.op, same.media.1, same.media.2⟩

/-! ## A command and what becomes of it -/

/-- Whatever becomes of a command: what the target carries out is that command, for that unit, and
it does so once at most; and if the driver reports success it has. -/
theorem carried_out_once (pc : Chip.Params) (pt : Targ.Params) (count : BitVec 32) (host : ℕ)
    (c : Command) (y : Dma.System) (turns : ℕ → Turn BlkRsp) (plain : c.usePdma = false)
    (poised : Poised y) (low : y.chip.regs.icrAck = false) (unspoken : y.targ.seq.Unspoken)
    (whole : c.cdb.length = Targ.commandLength c.cdb)
    (behaves : BehavesOver pc pt count (execute host c) y turns) :
    (∀ e, (targets pc pt (execute host c) y turns e).seq.st = .exec →
      Targ.Bears c.cdb c.unit (targets pc pt (execute host c) y turns e).seq ∧
        ∀ d, (targets pc pt (execute host c) y turns d).seq.st = .exec → d = e) ∧
    ∀ T res, ((machine pc pt).exec (execute host c) y turns T).1.result? = some res →
      res.ok = true → ∃ e < T, (targets pc pt (execute host c) y turns e).seq.st = .exec := by
  constructor
  · intro e st
    have once (e d : ℕ) (before : e < d)
        (first : (targets pc pt (execute host c) y turns e).seq.st = .exec)
        (second : (targets pc pt (execute host c) y turns d).seq.st = .exec) : False := by
      obtain ⟨turns', T, r, same, late, returned, keeps⟩ := run_completes (d + 1)
        fun u _ => behaves u
      have there (u : ℕ) (early : u ≤ d) : targets pc pt (execute host c) y turns' u =
          targets pc pt (execute host c) y turns u := by
        rw [targets, targets, Machine.exec_congr same (by omega)]
      rw [← there e (by omega)] at first
      rw [← there d (Nat.le_refl d)] at second
      obtain ⟨S, low, attended, -⟩ := bears_of_returned plain poised low unspoken whole keeps returned
        (by omega) first
      rw [targets_run] at first second
      exact (Targ.away_after (attended.alone.later low) first before).exec second
    refine ⟨bears_of_exec plain poised low unspoken whole behaves st, fun d other => ?_⟩
    rcases Nat.lt_trichotomy d e with before | same | after
    · exact (once d e before other st).elim
    · exact same
    · exact (once e d after st other).elim
  · intro T res returned ok
    have told : Told c res (transcript pc pt (execute host c) y turns T,
        ((machine pc pt).exec (execute host c) y turns T).2) :=
      run_returned (fun _ => told_keeps) (execute_spec plain ⟨rfl, poised, low, rfl⟩)
        (fun u _ => behaves u) returned
    rcases session plain poised low (fun u _ => behaves u) returned with
      ⟨S, before, attended⟩ | ⟨none, -⟩
    · rcases attended.course poised.orderly told before (Nat.le_refl T) with
        course | ⟨e, -, before, st, -⟩
      · have off : (targets pc pt (execute host c) y turns T).seq.connected = false :=
          (told.complete ok).2.2
        rw [course.connected] at off
        cases off
      · exact ⟨e, before, st⟩
    · rw [none] at ok
      cases ok

theorem inquiry_carried_out :
    ∃ e < 200, (targets {} {} (execute 7 inquiry) fresh prompt e).seq.st = .exec ∧
      Targ.Bears inquiry.cdb 0 (targets {} {} (execute 7 inquiry) fresh prompt e).seq := by
  obtain ⟨bears, succeeds⟩ := carried_out_once {} {} 0 7 inquiry fresh prompt rfl fresh_poised rfl
    (.inl rfl) (by decide) fun _ => ⟨rfl, fun _ => rfl⟩
  obtain ⟨e, before, st⟩ := succeeds 200 _ fresh_returns.2 rfl
  exact ⟨e, before, st, (bears e st).1⟩

end Wish5380.Driver
