import Wish5380.Targ.Steps

/-!
# Selection, and two targets on one bus

A target comes onto the bus only in answer to a selection that names it, on a bus
without BSY; off the bus it drives nothing, asks for nothing and forgets nothing.
-/

namespace Wish5380.Targ

namespace Seq

/-- The only way onto the bus. -/
theorem connected_clock {p : Params} {s : Seq} {c : Cycle}
    (up : (s.clock p c).connected = true) : s.connected = true ∨ selMatch p c.bus = true := by
  unfold clock next at up
  split_ifs at up with pin rst
  · cases up
  · cases up
  · cases st : s.st with
    | idle =>
        have here : s.endPulse.st = .idle := st
        simp only [step, here, stepIdle] at up
        split_ifs at up with matched
        · exact .inr matched
        · exact .inr matched
        · simp [connected] at up
    | free =>
        have here : s.endPulse.st = .free := st
        simp only [step, here] at up
        cases up
    | _ => exact .inl (by simp [connected, st])

/-- A selection on the bus that names a target: SEL without BSY, no reselection, and its ID on the
data lines. -/
def Names (p : Params) (bus : Scsi) : Prop :=
  bus.sel = true ∧ bus.bsy = false ∧ bus.io = false ∧ bus.data &&& p.idMask ≠ 0

instance (p : Params) (bus : Scsi) : Decidable (Names p bus) :=
  inferInstanceAs (Decidable (_ ∧ _ ∧ _ ∧ _))

theorem names_iff {p : Params} {bus : Scsi} : Names p bus ↔ selMatch p bus = true := by
  simp [Names, selMatch, and_assoc]

/-- A target that nobody selects stays off the bus. -/
theorem off_clock {p : Params} {s : Seq} {c : Cycle} (off : s.connected = false)
    (unnamed : ¬ Names p c.bus) : (s.clock p c).connected = false := by
  by_contra up
  rcases connected_clock (eq_true_of_ne_false up) with before | matched
  · rw [off] at before
    cases before
  · exact unnamed (names_iff.mpr matched)

/-- What a target remembers: everything but the place in the sequence and its counters. -/
def memory (s : Seq) : Seq :=
  { s with st := .idle, hs := .setup, selCnt := 0, msgRx := 0, blkStart := false }

/-- A target that stays off the bus keeps its memory. -/
theorem memory_clock {p : Params} {s : Seq} {c : Cycle} (off : s.connected = false)
    (stays : (s.clock p c).connected = false) (pin : c.rst = false) :
    (s.clock p c).memory = s.memory := by
  unfold clock next at stays ⊢
  rw [pin, if_neg Bool.false_ne_true] at stays ⊢
  split_ifs at stays ⊢ with rst
  · rfl
  · cases st : s.st with
    | idle =>
        have here : s.endPulse.st = .idle := st
        simp only [step, here, stepIdle] at stays ⊢
        split_ifs at stays ⊢ with matched settled
        · cases stays
        · rfl
        · rfl
    | free =>
        have here : s.endPulse.st = .free := st
        simp only [step, here]
        rfl
    | _ => simp [connected, st] at off

/-- A request is only ever up in one of the two waits. -/
theorem connected_of_start {p : Params} {s : Seq} {c : Cycle}
    (start : (s.clock p c).blkStart = true) : (s.clock p c).connected = true := by
  rcases clock_onward p s c with ⟨goes, _⟩ | outside
  · rcases goes.inTransfer.2 with st | st | st | st <;> simp [connected, st]
  · rw [outside.2] at start
    cases start

end Seq

theorem drive_off (p : Params) {t : State} (count : BitVec 32) (off : t.seq.connected = false) :
    drive p t count = {} := by
  simp [drive, Seq.req, Seq.driveBus, off]

/-! ## Two targets -/

/-- Two targets on one bus. -/
structure Drives where
  first : State
  second : State

/-- The inputs of a cycle: the RESET pin, what any other devices drive, and the two back
ends. -/
structure Drives.Input where
  rst : Bool := false
  chip : Scsi := {}
  peer : Scsi := {}
  firstBlk : BlkRsp := {}
  secondBlk : BlkRsp := {}

namespace Drives

variable (p q : Params)

/-- The wires: `scsi_fabric` with a target on two of its ports. -/
def bus (y : Drives) (i : Input) : Scsi :=
  scsiFabric i.chip (drive p y.first i.firstBlk.count) (drive q y.second i.secondBlk.count) i.peer

def next (y : Drives) (i : Input) : Drives where
  first := clock p y.first { rst := i.rst, bus := y.bus p q i, blk := i.firstBlk }
  second := clock q y.second { rst := i.rst, bus := y.bus p q i, blk := i.secondBlk }

/-- A run of the two from RESET. -/
def run (b b' : Buf) (input : ℕ → Input) : ℕ → Drives :=
  Clocked.run (next p q) ⟨start b, start b'⟩ input

/-- The selections of a run never name both. -/
def NamesOne (b b' : Buf) (input : ℕ → Input) : Prop :=
  ∀ t, ((run p q b b' input t).bus p q (input t)).sel = true →
    ((run p q b b' input t).bus p q (input t)).bsy = false →
    ((run p q b b' input t).bus p q (input t)).data &&& p.idMask = 0 ∨
      ((run p q b b' input t).bus p q (input t)).data &&& q.idMask = 0

section Run

variable {p q} {b b' : Buf} {input : ℕ → Input}

theorem bus_bsy {y : Drives} (i : Input)
    (up : y.first.seq.connected = true ∨ y.second.seq.connected = true) :
    (y.bus p q i).bsy = true := by
  rcases up with up | up <;> simp [bus, scsiFabric, Scsi.or, drive, up]

theorem selMatch_bsy {bus : Scsi} (matched : selMatch p bus = true) :
    bus.sel = true ∧ bus.bsy = false ∧ bus.data &&& p.idMask ≠ 0 := by
  simp only [selMatch, Bool.and_eq_true, Bool.not_eq_true', bne_iff_ne] at matched
  exact ⟨matched.1.1.1, matched.1.1.2, matched.2⟩

/-- One edge keeps the two apart. -/
theorem apart_next {y : Drives} {i : Input}
    (names : (y.bus p q i).sel = true → (y.bus p q i).bsy = false →
      (y.bus p q i).data &&& p.idMask = 0 ∨ (y.bus p q i).data &&& q.idMask = 0)
    (apart : ¬ (y.first.seq.connected = true ∧ y.second.seq.connected = true)) :
    ¬ ((y.next p q i).first.seq.connected = true ∧
      (y.next p q i).second.seq.connected = true) := by
  rintro ⟨first, second⟩
  have free : ∀ r : Params, selMatch r (y.bus p q i) = true →
      ¬ (y.first.seq.connected = true ∨ y.second.seq.connected = true) := by
    intro r matched up
    have down := (selMatch_bsy matched).2.1
    rw [bus_bsy i up] at down
    cases down
  rcases Seq.connected_clock first with firstUp | firstNamed
  · rcases Seq.connected_clock second with secondUp | secondNamed
    · exact apart ⟨firstUp, secondUp⟩
    · exact free q secondNamed (.inl firstUp)
  · rcases Seq.connected_clock second with secondUp | secondNamed
    · exact free p firstNamed (.inr secondUp)
    · obtain ⟨sel, bsy, named⟩ := selMatch_bsy firstNamed
      obtain ⟨_, _, named'⟩ := selMatch_bsy secondNamed
      rcases names sel bsy with none | none
      · exact named none
      · exact named' none

theorem run_apart (names : NamesOne p q b b' input) (t : ℕ) :
    ¬ ((run p q b b' input t).first.seq.connected = true ∧
      (run p q b b' input t).second.seq.connected = true) := by
  induction t with
  | zero =>
      rintro ⟨up, -⟩
      cases up
  | succ t ih => exact apart_next (names t) ih

end Run

/-- Off the bus in one cycle: no line is driven and no block is asked for. -/
structure Silent (r : Params) (x : State) (count : BitVec 32) : Prop where
  drives : drive r x count = {}
  start : (blkReq x).start = false

theorem silent_of_off (r : Params) {x : State} (count : BitVec 32)
    (asks : x.seq.blkStart = true → x.seq.connected = true) (off : x.seq.connected = false) :
    Silent r x count := by
  constructor
  · exact drive_off r count off
  · by_contra start
    have up := asks (eq_true_of_ne_false start)
    rw [off] at up
    cases up

/-- From cycle `a` to cycle `c` the target is off the bus, nothing is executed or asked for, and
what the target remembers, sense data and requests included, is at `c` what it was at `a`. -/
structure Untouched (x : ℕ → State) (a c : ℕ) : Prop where
  memory : (x c).seq.memory = (x a).seq.memory
  off : ∀ t, a ≤ t → t ≤ c → (x t).seq.connected = false
  idle : ∀ t, a ≤ t → t ≤ c → (x t).seq.st ≠ .exec ∧ (x t).seq.blkStart = false

/-- A target that is off the bus and that nobody selects is left alone. -/
theorem untouched {r : Params} {x : ℕ → State} (input : ℕ → Cycle)
    (step : ∀ t, x (t + 1) = clock r (x t) (input t))
    (asks : ∀ t, (x t).seq.blkStart = true → (x t).seq.connected = true) {a c : ℕ} (le : a ≤ c)
    (free : (x a).seq.connected = false)
    (unnamed : ∀ t, a ≤ t → t < c → ¬ Seq.Names r (input t).bus)
    (pin : ∀ t, a ≤ t → t < c → (input t).rst = false) : Untouched x a c := by
  have off (t : ℕ) (low : a ≤ t) (high : t ≤ c) : (x t).seq.connected = false := by
    induction t, low using Nat.le_induction with
    | base => exact free
    | succ t low ih =>
        rw [step]
        exact Seq.off_clock (ih (by omega)) (unnamed t low (by omega))
  refine ⟨?_, off, ?_⟩
  · clear unnamed
    induction c, le using Nat.le_induction with
    | base => rfl
    | succ c le ih =>
        have here := off c le (Nat.le_succ c)
        have next := off (c + 1) (by omega) (Nat.le_refl _)
        rw [step] at next ⊢
        have kept := Seq.memory_clock here next (pin c le (Nat.lt_succ_self c))
        exact kept.trans (ih (fun t low high => pin t low (by omega))
          (fun t low high => off t low (by omega)))
  · intro t low high
    have here := off t low high
    constructor
    · intro exec
      simp [Seq.connected, exec] at here
    · by_contra start
      have up := asks t (eq_true_of_ne_false start)
      rw [here] at up
      cases up

section Isolation

variable (b b' : Buf) (input : ℕ → Input)

/-- Two drives on one bus, while no selection names both: never are both connected; one
that is not connected drives no line and raises no request; and from a cycle in which nobody
holds BSY until one of them is selected, whatever passes on the bus, that one stays off it,
executes nothing and keeps its sense data and its requests. -/
theorem drives_isolated (names : NamesOne p q b b' input) :
    let y := run p q b b' input
    (∀ t, ¬ ((y t).first.seq.connected = true ∧ (y t).second.seq.connected = true)) ∧
    (∀ t, ((y t).first.seq.connected = false →
        Silent p (y t).first (input t).firstBlk.count) ∧
      ((y t).second.seq.connected = false →
        Silent q (y t).second (input t).secondBlk.count)) ∧
    (∀ a c, a ≤ c → ((y a).bus p q (input a)).bsy = false →
      (∀ t, a ≤ t → t < c → (input t).rst = false) →
      ((∀ t, a ≤ t → t < c → ¬ Seq.Names p ((y t).bus p q (input t))) →
        Untouched (fun t => (y t).first) a c) ∧
      ((∀ t, a ≤ t → t < c → ¬ Seq.Names q ((y t).bus p q (input t))) →
        Untouched (fun t => (y t).second) a c)) := by
  intro y
  have asks : ∀ t, (y t).first.seq.blkStart = true → (y t).first.seq.connected = true := by
    intro t start
    cases t with
    | zero => cases start
    | succ t => exact Seq.connected_of_start start
  have asks' : ∀ t, (y t).second.seq.blkStart = true → (y t).second.seq.connected = true := by
    intro t start
    cases t with
    | zero => cases start
    | succ t => exact Seq.connected_of_start start
  refine ⟨run_apart names, ?_, ?_⟩
  · intro t
    constructor
    · exact silent_of_off p _ (asks t)
    · exact silent_of_off q _ (asks' t)
  · intro a c le free pin
    have down : ¬ ((y a).first.seq.connected = true ∨ (y a).second.seq.connected = true) := by
      intro up
      rw [bus_bsy (input a) up] at free
      cases free
    rw [not_or, Bool.not_eq_true, Bool.not_eq_true] at down
    constructor
    · intro unnamed
      exact untouched (fun t =>
        { rst := (input t).rst, bus := (y t).bus p q (input t), blk := (input t).firstBlk })
        (fun _ => rfl) asks le down.1 unnamed pin
    · intro unnamed
      exact untouched (fun t =>
        { rst := (input t).rst, bus := (y t).bus p q (input t), blk := (input t).secondBlk })
        (fun _ => rfl) asks' le down.2 unnamed pin

end Isolation

/-- Somebody holds SEL and ID 0 on the bus for ever. -/
def selectsFirst (_ : ℕ) : Input where
  chip := { sel := true, data := 0x01, dbp := false }

/-- With IDs 0 and 1 the selection of one names only that one. -/
theorem selectsFirst_names (b b' : Buf) : NamesOne {} { targetId := 1 } b b' selectsFirst := by
  intro t _ bsy
  right
  have first : (run {} { targetId := 1 } b b' selectsFirst t).first.seq.connected = false := by
    by_contra up
    rw [bus_bsy _ (.inl (eq_true_of_ne_false up))] at bsy
    cases bsy
  have second : (run {} { targetId := 1 } b b' selectsFirst t).second.seq.connected = false := by
    by_contra up
    rw [bus_bsy _ (.inr (eq_true_of_ne_false up))] at bsy
    cases bsy
  rw [bus, drive_off _ _ first, drive_off _ _ second]
  simp [selectsFirst, scsiFabric, Scsi.or, Params.idMask]

/-- The first drive answers, and the second has noticed nothing. -/
theorem second_drive_untouched :
    (run {} { targetId := 1 } ⟨fun _ => 0, 0, 0⟩ ⟨fun _ => 0, 0, 0⟩ selectsFirst 30).first.seq.st =
        .selwait ∧
      Untouched (fun t => (run {} { targetId := 1 } ⟨fun _ => 0, 0, 0⟩ ⟨fun _ => 0, 0, 0⟩
        selectsFirst t).second) 0 30 := by
  have isolated := drives_isolated {} { targetId := 1 } ⟨fun _ => 0, 0, 0⟩ ⟨fun _ => 0, 0, 0⟩
    selectsFirst (selectsFirst_names _ _)
  refine ⟨by decide +kernel, ?_⟩
  refine (isolated.2.2 0 30 (by omega) rfl (fun _ _ _ => rfl)).2 ?_
  have unnamed : ∀ t < 30, ¬ Seq.Names { targetId := 1 }
      ((run {} { targetId := 1 } ⟨fun _ => 0, 0, 0⟩ ⟨fun _ => 0, 0, 0⟩ selectsFirst t).bus
        {} { targetId := 1 } (selectsFirst t)) := by
    decide +kernel
  exact fun t _ high => unnamed t high

end Drives

end Wish5380.Targ
