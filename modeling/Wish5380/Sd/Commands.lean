import Wish5380.Sd.Checks
import Wish5380.Sd.Views

/-!
# A command and its answer

The helper of the sequencer against the card: seven bytes out, the first of them deselected,
then as many bytes of ones as the card takes to think, the answer, and the four bytes some
answers have more.
-/

namespace Wish5380.Sd

/-! ## The six bytes of a command -/

namespace Blk

/-- The command as the card is to see it. -/
def frame (b : Blk) : List Byte :=
  [0b01#2 ++ b.cmdIdx, b.cmdArg.extractLsb' 24 8, b.cmdArg.extractLsb' 16 8,
    b.cmdArg.extractLsb' 8 8, b.cmdArg.extractLsb' 0 8, b.cmdCrc7 ++ 1#1]

end Blk

theorem command_first (idx : BitVec 6) : (0b01#2 ++ idx : Byte) &&& 0xc0 = 0x40 := by
  revert idx
  decide

theorem command_index (idx : BitVec 6) : (0b01#2 ++ idx : Byte).setWidth 6 = idx := by
  revert idx
  decide

theorem argument_bytes (arg : BitVec 32) :
    (arg.extractLsb' 24 8 ++ arg.extractLsb' 16 8 ++ arg.extractLsb' 8 8 ++
      arg.extractLsb' 0 8 : BitVec 32) = arg := by
  refine BitVec.eq_of_getLsbD_eq fun i inside => ?_
  simp only [BitVec.getLsbD_append, BitVec.getLsbD_extractLsb']
  split_ifs with first second third
  · simp [first]
  · rw [decide_eq_true second, Bool.true_and]
    congr 1
    omega
  · rw [decide_eq_true third, Bool.true_and]
    congr 1
    omega
  · rw [decide_eq_true (by omega), Bool.true_and]
    congr 1
    omega

/-- The check is right, so the card carries the command out. -/
theorem frame_executes (b : Blk) (f : Faults) (c : Card) :
    c.frame f b.frame = { c with cmd := [], acmd := false }.execute f c.acmd b.cmdIdx b.cmdArg := by
  have check : (b.cmdCrc7 ++ 1#1 : Byte) =
      (sdCrc7 [0b01#2 ++ b.cmdIdx, b.cmdArg.extractLsb' 24 8, b.cmdArg.extractLsb' 16 8,
        b.cmdArg.extractLsb' 8 8, b.cmdArg.extractLsb' 0 8] <<< 1) ||| 1 := by
    rw [sdCrc7_eq, append_one]
    rfl
  simp only [Card.frame, Blk.frame, check, ne_eq, not_true_eq_false, if_false, command_index,
    argument_bytes]

/-- A byte of a command, not the last. -/
theorem onByte_within {c : Card} {rx : Byte} (mode : c.mode = .cmd)
    (first : c.cmd = [] → rx &&& 0xc0 = 0x40) (short : c.cmd.length + 1 < 6) (f : Faults) :
    c.onByte f rx = { c with cmd := c.cmd ++ [rx] } := by
  have begun : ¬ (c.cmd = [] ∧ rx &&& 0xc0 ≠ 0x40) := fun ⟨empty, wrong⟩ => wrong (first empty)
  simp only [Card.onByte, mode, if_neg begun, List.length_append, List.length_singleton, short,
    if_true]

/-- The last byte of a command. -/
theorem onByte_last {c : Card} {rx : Byte} (mode : c.mode = .cmd) (full : c.cmd.length = 5)
    (f : Faults) : c.onByte f rx = c.frame f (c.cmd ++ [rx]) := by
  have begun : ¬ (c.cmd = [] ∧ rx &&& 0xc0 ≠ 0x40) := by
    rintro ⟨empty, -⟩
    simp [empty] at full
  simp only [Card.onByte, mode, if_neg begun, List.length_append, List.length_singleton, full,
    lt_irrefl, if_false]

/-! ## Sending it -/

section Send

variable {p : Params} {h : Option Faults} {v : View}

/-- The gap and `n - 1` bytes of the command are out. -/
def View.framing (v : View) (n : ℕ) : View :=
  { v with
    blk := { v.blk with bcnt := n, cs := decide (n ≠ 1) }
    rx := 0xff
    card := { v.card with cmd := v.blk.frame.take (n - 1) }
    queue := []
    fresh := true
    age := v.age + n * v.blk.lap }

theorem cmdByte_framing (v : View) {n : ℕ} (low : 0 < n) (high : n < 7) :
    v.blk.frame.take n = v.blk.frame.take (n - 1) ++ [(v.framing n).blk.calm.cmdByte] := by
  obtain rfl | rfl | rfl | rfl | rfl | rfl :
    n = 1 ∨ n = 2 ∨ n = 3 ∨ n = 4 ∨ n = 5 ∨ n = 6 := by omega
  all_goals rfl

theorem leads_framing (st : v.blk.st = .cSend) (div : v.blk.div < 2 ^ 16)
    (mode : v.card.mode = .cmd) {n : ℕ} (low : 0 < n) (high : n < 6) :
    LeadsIn p h v.blk.lap (At p h (v.framing n)) (At p h (v.framing (n + 1))) := by
  have grows := cmdByte_framing v low (by omega)
  have small : (n + 1) % 2 ^ 10 = n + 1 := Nat.mod_eq_of_lt (by omega)
  refine LeadsIn.tell (b := { (v.framing n).blk.calm with
      cs := true, tx := (v.framing n).blk.calm.cmdByte, go := true, bcnt := n + 1 })
    (v.framing (n + 1)).blk _ (fun req ms _ _ _ => ?_) rfl rfl rfl div rfl (fun f _ => ?_) ?_ ?_
  · have sending : (v.framing n).blk.calm.st = .cSend := st
    have counted : (v.framing n).blk.calm.bcnt = n := rfl
    simp only [Blk.step, sending, Blk.stepCSend, counted, if_neg (show n ≠ 6 by omega),
      decide_eq_true (show n ≠ 0 by omega), Blk.send, Blk.count, small]
  · have within := @onByte_within { (v.framing n).card with tx := (v.framing n).queue.tail }
      (v.framing n).blk.calm.cmdByte mode (fun empty => ?_) ?_ f
    · rw [within]
      have longer : (v.framing n).card.cmd ++ [(v.framing n).blk.calm.cmdByte] =
          (v.framing (n + 1)).card.cmd := grows.symm
      dsimp only
      rw [longer]
      rfl
    · obtain rfl : n = 1 := by
        have length := congrArg List.length empty
        simp [View.framing, Blk.frame] at length
        omega
      exact command_first v.blk.cmdIdx
    · simp [View.framing, Blk.frame]
      omega
  · simp [View.framing, Blk.calm]
    omega
  · rw [Blk.after_running rfl]
    have lap : v.age + (n + 1) * v.blk.lap = v.age + n * v.blk.lap + v.blk.lap := by
      rw [Nat.succ_mul]
      omega
    exact Nat.le_of_eq (by dsimp only [View.framing]; rw [lap]; simp [Blk.lap, Blk.calm]; omega)

theorem leads_frame {k : Card} {q : List Byte} (st : v.blk.st = .cSend) (first : v.blk.bcnt = 0)
    (div : v.blk.div < 2 ^ 16) (mode : v.card.mode = .cmd) (empty : v.card.cmd = [])
    (queue : v.queue = [])
    (acts : ∀ f, (∀ g ∈ h, f = g) →
      { v.card with tx := [], cmd := [], acmd := false }.execute f v.card.acmd v.blk.cmdIdx
        v.blk.cmdArg = { k with tx := q }) :
    LeadsIn p h (7 * v.blk.lap) (At p h v)
      (At p h { v with
        blk := { v.blk with st := .cR1, bcnt := 0, cs := true }
        rx := 0xff, card := k, queue := q, fresh := true, age := v.age + 7 * v.blk.lap }) := by
  have gap : LeadsIn p h v.blk.lap (At p h v) (At p h (v.framing 1)) := by
    have path := LeadsIn.gap (p := p) (h := h) (v := v)
      (b := { v.blk.calm with cs := false, tx := 0xff, go := true, bcnt := 1 })
      (v.framing 1).blk (v.framing 1).age (fun req ms _ _ => ?_) rfl rfl rfl div rfl rfl ?_
    · have same : v.framing 1 =
          { v with blk := (v.framing 1).blk, rx := 0xff, fresh := true, age := (v.framing 1).age } := by
        obtain ⟨blk, rx, card, q, mem, fresh, age⟩ := v
        obtain ⟨⟩ := card
        simp_all [View.framing]
      rw [same]
      exact path
    · have sending : v.blk.calm.st = .cSend := st
      have counted : v.blk.calm.bcnt = 0 := first
      simp [Blk.step, sending, Blk.stepCSend, counted, Blk.send, Blk.count, Blk.cmdByte]
    · rw [Blk.after_running rfl]
      exact Nat.le_of_eq (by simp [View.framing, Blk.lap, Blk.calm]; omega)
  have bytes : LeadsIn p h (5 * v.blk.lap) (At p h (v.framing 1)) (At p h (v.framing 6)) :=
    Clocked.LeadsIn.stages (P := fun n => At p h (v.framing (n + 1))) (n := 5)
      fun n below => leads_framing st div mode (Nat.succ_pos n) (by omega)
  refine Clocked.LeadsIn.cast (gap.trans (bytes.trans (m := v.blk.lap) ?_)) (by omega)
  have last := LeadsIn.tell (p := p) (h := h) (v := v.framing 6) (k := k) (q := q)
    (b := { (v.framing 6).blk.calm with
      cs := true, tx := (v.framing 6).blk.calm.cmdByte, go := true, bcnt := 0, st := .cR1 })
    { v.blk with st := .cR1, bcnt := 0, cs := true } (v.age + 7 * v.blk.lap)
    (fun req ms _ _ _ => ?_) rfl rfl rfl div rfl (fun f given => ?_) rfl ?_
  · exact last
  · have sending : (v.framing 6).blk.calm.st = .cSend := st
    have counted : (v.framing 6).blk.calm.bcnt = 6 := rfl
    simp [Blk.step, sending, Blk.stepCSend, counted, Blk.send]
  · have full : ({ (v.framing 6).card with tx := (v.framing 6).queue.tail } : Card).cmd.length = 5 := by
      simp [View.framing, Blk.frame]
    refine (onByte_last (c := { (v.framing 6).card with tx := (v.framing 6).queue.tail }) mode full
      f).trans ?_
    have whole : (v.framing 6).card.cmd ++ [(v.framing 6).blk.calm.cmdByte] = v.blk.frame := rfl
    dsimp only
    rw [whole, frame_executes, ← acts f given]
    rfl
  · rw [Blk.after_running rfl]
    exact Nat.le_of_eq (by simp [View.framing, Blk.lap, Blk.calm]; omega)

end Send

/-! ## Reading what the card sends -/

section Stream

variable {p : Params} {h : Option Faults} {v : View}

theorem At.stale {s : Stack} (here : At p h v s) : At p h { v with fresh := false } s :=
  ⟨here.blk, here.go, here.bufWe, here.aged, ⟨here.rest.run, here.rest.ended, here.rest.sclk,
    here.rest.rx, here.rest.slot, here.rest.mem⟩, by simp⟩

/-- What a visit leaves when it asks for the next byte, the timer running on. -/
structure Asks (b c : Blk) (div : ℕ) : Prop where
  go : b.go = true
  done : b.done = false
  cs : b.cs = true
  tx : b.tx = 0xff
  ms : b.ms = 1
  div : b.div = div
  same : b.calm = c.calm

/-- The byte a visit finds, `k` exchanges on. -/
def View.byte (v : View) (k : ℕ) : Byte :=
  (v.rx :: v.queue).getD k 0xff

/-- The view `k` exchanges on. -/
def View.reading (v : View) (k : ℕ) (blk : Blk) (mem : BitVec 9 → Byte) : View :=
  { v with
    blk := blk
    rx := v.byte k
    queue := v.queue.drop k
    mem := mem
    fresh := false
    age := v.age + k * v.blk.lap }

theorem At.reading {s : Stack} (here : At p h v s) : At p h (v.reading 0 v.blk v.mem) s := by
  have stale := here.stale
  simpa [View.reading, View.byte] using stale

/-- The rule of a loop that reads what the card sends. -/
theorem LeadsIn.stream (blk : ℕ → Blk) (mem : ℕ → BitVec 9 → Byte) (n : ℕ)
    (listens : v.card.Listens) (div : v.blk.div < 2 ^ 16)
    (visit : ∀ k < n, ∃ b, Asks b (blk (k + 1)) v.blk.div ∧ b.stores (mem k) = mem (k + 1) ∧
      ∀ req ms, req.start = false → ms * p.ticks ≤ v.age + k * v.blk.lap →
        (blk k).calm.step p req (v.byte k) ms = b) :
    LeadsIn p h (n * v.blk.lap) (At p h (v.reading 0 (blk 0) (mem 0)))
      (At p h (v.reading n (blk n) (mem n))) := by
  refine Clocked.LeadsIn.stages (P := fun k => At p h (v.reading k (blk k) (mem k)))
    fun k below => ?_
  obtain ⟨b, asks, stores, step⟩ := visit k below
  have narrow : b.div < 2 ^ 16 := asks.div ▸ div
  have lap : b.lap = v.blk.lap := by rw [Blk.lap, Blk.lap, asks.div]
  have path := LeadsIn.exchange (p := p) (h := h) (v := v.reading k (blk k) (mem k)) (k := v.card)
    (q := v.queue.drop (k + 1)) (blk (k + 1)) (v.age + (k + 1) * v.blk.lap)
    (fun req ms start _ timely => step req ms start timely) asks.go asks.done narrow ?_ asks.same ?_
  · refine (path.mono fun s here => ?_).cast lap
    have stale := here.stale
    rw [if_pos asks.cs] at stale
    have stored : b.stores (v.reading k (blk k) (mem k)).mem = mem (k + 1) := stores
    rw [stored] at stale
    simpa [View.reading, View.byte] using stale
  · intro f _
    have tail : (v.reading k (blk k) (mem k)).queue.tail = v.queue.drop (k + 1) := by
      simp [View.reading]
    rw [if_pos asks.cs, asks.tx, tail]
    exact listens.onByte f _
  · rw [Blk.after_running asks.ms, Nat.succ_mul]
    simp only [View.reading, Blk.lap, asks.div]
    omega

/-- The wait for an answer. -/
theorem leads_r1 {n : ℕ} {r1 : Byte} {rest : List Byte} (st : v.blk.st = .cR1)
    (first : v.blk.bcnt = 0) (cs : v.blk.cs = true) (div : v.blk.div < 2 ^ 16) (rx : v.rx = 0xff)
    (queue : v.queue = List.replicate n 0xff ++ r1 :: rest) (short : n ≤ 62)
    (listens : v.card.Listens) :
    LeadsIn p h ((n + 1) * v.blk.lap) (At p h v)
      (At p h { v with
        blk := { v.blk with bcnt := n + 1 }, rx := r1, queue := rest, fresh := false,
        age := v.age + (n + 1) * v.blk.lap }) := by
  have high : ∀ k < n + 1, v.byte k = 0xff := by
    intro k below
    cases k with
    | zero => exact rx
    | succ k =>
        have inside : k < n := by omega
        simp [View.byte, queue, List.getElem?_append, inside]
  have path := LeadsIn.stream (p := p) (h := h) (v := v) (fun k => { v.blk with bcnt := k })
    (fun _ => v.mem) (n + 1) listens div (fun k below => ?_)
  · refine Clocked.LeadsIn.from_imp (fun s here => ?_) (path.mono fun s here => ?_)
    · have same : ({ v.blk with bcnt := 0 } : Blk) = v.blk := by rw [← first]
      rw [same]
      exact here.reading
    · have got : v.byte (n + 1) = r1 := by simp [View.byte, queue]
      have after : v.queue.drop (n + 1) = rest := by
        rw [queue, List.drop_append]
        simp
      simpa [View.reading, got, after] using here
  · refine ⟨{ v.blk.calm with bcnt := k + 1, tx := 0xff, go := true }, ⟨rfl, rfl, cs, rfl, rfl,
      rfl, rfl⟩, rfl, fun req ms _ _ => ?_⟩
    have small : (k + 1) % 1024 = k + 1 := Nat.mod_eq_of_lt (by omega)
    have early : ¬ 63 ≤ k := by omega
    have waiting : ({ v.blk with bcnt := k } : Blk).calm.st = .cR1 := st
    rw [high k below]
    simp only [Blk.step, waiting, Blk.stepCR1]
    simp [Blk.calm, early, Blk.send, Blk.count, small]

/-- Four bytes shifted into a register of four. -/
theorem shifted_in (x : BitVec 32) (a b c d : Byte) :
    ((((x.extractLsb' 0 24 ++ a : BitVec 32).extractLsb' 0 24 ++ b : BitVec 32).extractLsb' 0 24 ++
      c : BitVec 32).extractLsb' 0 24 ++ d : BitVec 32) = a ++ b ++ c ++ d := by
  refine BitVec.eq_of_getLsbD_eq fun i inside => ?_
  have one : i - 8 < 24 := by omega
  have two : i - 8 - 8 < 24 := by omega
  have three : i - 8 - 8 - 8 < 24 := by omega
  have four : i - 8 - 8 - 8 < 8 := by omega
  simp only [BitVec.getLsbD_append, BitVec.getLsbD_extractLsb', Nat.zero_add, decide_eq_true one,
    decide_eq_true two, decide_eq_true three, Bool.true_and, if_pos four]

/-- The four bytes some answers have more. -/
theorem leads_extra (st : v.blk.st = .cExtra) (first : v.blk.bcnt = 0) (cs : v.blk.cs = true)
    (div : v.blk.div < 2 ^ 16) (listens : v.card.Listens) :
    LeadsIn p h (3 * v.blk.lap + 1) (At p h v)
      (At p h { v with
        blk := { v.blk with
          bcnt := 4, st := v.blk.ret, rExtra := v.byte 0 ++ v.byte 1 ++ v.byte 2 ++ v.byte 3 }
        rx := v.byte 3
        queue := v.queue.drop 3
        fresh := false
        age := v.age + 4 * v.blk.lap }) := by
  let blk (k : ℕ) : Blk := { v.blk with
    bcnt := k
    rExtra := (List.range k).foldl (fun x i => x.extractLsb' 0 24 ++ v.byte i) v.blk.rExtra }
  have waiting (k : ℕ) : (blk k).calm.st = .cExtra := st
  have counted (k : ℕ) : (blk k).calm.bcnt = k := rfl
  have path := LeadsIn.stream (p := p) (h := h) (v := v) blk (fun _ => v.mem) 3 listens div
    (fun k below => ?_)
  · refine Clocked.LeadsIn.from_imp (fun s here => ?_) (path.trans ?_)
    · have same : blk 0 = v.blk := by
        simp only [blk, List.range_zero, List.foldl_nil]
        rw [← first]
      rw [same]
      exact here.reading
    · refine LeadsIn.still (b := { (blk 3).calm with
          rExtra := (blk 3).calm.rExtra.extractLsb' 0 24 ++ v.byte 3, bcnt := 4, st := v.blk.ret }) _ _
        (fun req ms _ _ => ?_) rfl rfl rfl ?_ ?_
      · change (blk 3).calm.step p req (v.byte 3) ms = _
        simp only [Blk.step, waiting, Blk.stepCExtra, counted, if_true, Blk.count]
        rfl
      · have bytes : (blk 3).calm.rExtra.extractLsb' 0 24 ++ v.byte 3 =
            v.byte 0 ++ v.byte 1 ++ v.byte 2 ++ v.byte 3 := shifted_in _ _ _ _ _
        rw [bytes]
        rfl
      · rw [Blk.after_running rfl]
        simp only [View.reading, Blk.lap]
        omega
  · refine ⟨{ (blk (k + 1)).calm with tx := 0xff, go := true }, ⟨rfl, rfl, cs, rfl, rfl, rfl, rfl⟩,
      rfl, fun req ms _ _ => ?_⟩
    have small : (k + 1) % 2 ^ 10 = k + 1 := Nat.mod_eq_of_lt (by omega)
    have early : k ≠ 3 := by omega
    simp only [Blk.step, waiting, Blk.stepCExtra, counted, if_neg early, Blk.count, Blk.send, small]
    simp only [blk, List.range_succ, List.foldl_append, List.foldl_cons, List.foldl_nil]
    rfl

end Stream

/-! ## A command and its answer -/

section Answer

variable {p : Params} {h : Option Faults} {v : View} {k : Card} {n : ℕ} {r1 : Byte}
  {rest : List Byte}

/-- The sequencer has a command to send to a card that is between commands, and the card will
answer with `r1` after `n` bytes of ones, and then send `rest`. -/
structure Asked (h : Option Faults) (v : View) (k : Card) (n : ℕ) (r1 : Byte)
    (rest : List Byte) : Prop where
  st : v.blk.st = .cSend
  first : v.blk.bcnt = 0
  div : v.blk.div < 2 ^ 16
  mode : v.card.mode = .cmd
  empty : v.card.cmd = []
  queue : v.queue = []
  acts : ∀ f, (∀ g ∈ h, f = g) →
    { v.card with tx := [], cmd := [], acmd := false }.execute f v.card.acmd v.blk.cmdIdx
      v.blk.cmdArg = { k with tx := List.replicate n 0xff ++ r1 :: rest }
  short : n ≤ 62
  listens : k.Listens
  low : r1.getLsbD 7 = false

/-- The answer is there. -/
theorem Asked.leads (asked : Asked h v k n r1 rest) :
    LeadsIn p h ((n + 8) * v.blk.lap) (At p h v)
      (At p h { v with
        blk := { v.blk with st := .cR1, bcnt := n + 1, cs := true }
        rx := r1, card := k, queue := rest, fresh := false, age := v.age + (n + 8) * v.blk.lap }) := by
  have length : 7 * v.blk.lap + (n + 1) * v.blk.lap = (n + 8) * v.blk.lap := by
    rw [← Nat.add_mul]
    congr 1
    omega
  refine Clocked.LeadsIn.cast ((leads_frame asked.st asked.first asked.div asked.mode asked.empty
    asked.queue asked.acts).trans ?_) length
  have path := leads_r1 (p := p) (h := h) (v := { v with
    blk := { v.blk with st := .cR1, bcnt := 0, cs := true }
    rx := 0xff, card := k, queue := List.replicate n 0xff ++ r1 :: rest, fresh := true,
    age := v.age + 7 * v.blk.lap }) rfl rfl rfl asked.div rfl rfl asked.short asked.listens
  have time : v.age + (n + 8) * v.blk.lap = v.age + 7 * v.blk.lap + (n + 1) * v.blk.lap := by
    rw [Nat.add_assoc, ← Nat.add_mul]
    congr 2
    omega
  rw [time]
  exact path

/-- A command with a short answer. -/
theorem Asked.leads_short (asked : Asked h v k n r1 rest) (extra : v.blk.cmdExtra = false) :
    LeadsIn p h ((n + 8) * v.blk.lap + 1) (At p h v)
      (At p h { v with
        blk := { v.blk with st := v.blk.ret, r1 := r1, bcnt := 0, cs := true }
        rx := r1, card := k, queue := rest, fresh := false, age := v.age + (n + 9) * v.blk.lap }) := by
  refine asked.leads.trans (LeadsIn.still
    (b := { v.blk.calm with st := v.blk.ret, r1 := r1, bcnt := 0, cs := true }) _ _
    (fun req ms _ _ => ?_) rfl rfl rfl rfl ?_)
  · simp only [Blk.step, Blk.calm, Blk.stepCR1, asked.low, extra, Bool.not_false, if_true,
      Bool.false_eq_true, if_false]
  · rw [Blk.after_running rfl, Nat.succ_mul (n + 8)]
    have positive : 0 < v.blk.lap := Nat.succ_pos _
    dsimp only
    omega

/-- A command with a long answer.  Where the card has nothing more to send, it is ones. -/
theorem Asked.leads_long (asked : Asked h v k n r1 rest) (extra : v.blk.cmdExtra = true) :
    LeadsIn p h ((n + 12) * v.blk.lap + 1) (At p h v)
      (At p h { v with
        blk := { v.blk with
          st := v.blk.ret, r1 := r1, bcnt := 4, cs := true
          rExtra := rest.getD 0 0xff ++ rest.getD 1 0xff ++ rest.getD 2 0xff ++ rest.getD 3 0xff }
        rx := rest.getD 3 0xff, card := k, queue := rest.drop 4, fresh := false,
        age := v.age + (n + 13) * v.blk.lap }) := by
  have length : (n + 8) * v.blk.lap + (v.blk.lap + (3 * v.blk.lap + 1)) =
      (n + 12) * v.blk.lap + 1 := by
    have whole : (n + 12) * v.blk.lap = (n + 8) * v.blk.lap + 4 * v.blk.lap := by
      rw [← Nat.add_mul]
    omega
  refine Clocked.LeadsIn.cast (asked.leads.trans ?_) length
  have more : LeadsIn p h v.blk.lap
      (At p h { v with
        blk := { v.blk with st := .cR1, bcnt := n + 1, cs := true }
        rx := r1, card := k, queue := rest, fresh := false, age := v.age + (n + 8) * v.blk.lap })
      (At p h { v with
        blk := { v.blk with st := .cExtra, r1 := r1, bcnt := 0, cs := true }
        rx := rest.headD 0xff, card := k, queue := rest.tail, fresh := true,
        age := v.age + (n + 9) * v.blk.lap }) := by
    refine LeadsIn.poll (b := { v.blk.calm with
      st := .cExtra, r1 := r1, bcnt := 0, cs := true, tx := 0xff, go := true }) _ _
      (fun req ms _ _ => ?_) rfl rfl rfl asked.div rfl rfl asked.listens rfl ?_
    · simp only [Blk.step, Blk.calm, Blk.stepCR1, asked.low, extra, Bool.not_false, if_true, Blk.send]
    · rw [Blk.after_running rfl, Nat.succ_mul (n + 8)]
      simp only [Blk.lap, Blk.calm]
      omega
  refine more.trans ?_
  have path := leads_extra (p := p) (h := h) (v := { v with
    blk := { v.blk with st := .cExtra, r1 := r1, bcnt := 0, cs := true }
    rx := rest.headD 0xff, card := k, queue := rest.tail, fresh := true,
    age := v.age + (n + 9) * v.blk.lap }) rfl rfl rfl asked.div asked.listens
  have time : v.age + (n + 13) * v.blk.lap = v.age + (n + 9) * v.blk.lap + 4 * v.blk.lap := by
    rw [Nat.add_assoc, ← Nat.add_mul]
  have left : rest.tail.drop 3 = rest.drop 4 := by rw [List.drop_tail]
  rw [time, ← left]
  refine path.mono fun s here => ?_
  cases rest with
  | nil => exact here
  | cons a rest => exact here

end Answer

/-! ## The start of a block -/

/-- After its answer the card thinks about it for two bytes, and then sends a token. -/
theorem leads_token {p : Params} {h : Option Faults} {v : View} {tok : St} {token : Byte}
    {data : List Byte}
    (begins : ∀ req ms, v.blk.calm.step p req v.rx ms =
      { v.blk.calm with ms := 0, st := tok, tx := 0xff, go := true })
    (waits : ∀ req ms, ms < 200 → { v.blk.calm with st := tok }.step p req 0xff ms =
      { v.blk.calm with st := tok, tx := 0xff, go := true })
    (cs : v.blk.cs = true) (div : v.blk.div < 2 ^ 16) (quick : v.blk.lap ≤ p.ticks)
    (queue : v.queue = 0xff :: 0xff :: token :: data) (listens : v.card.Listens) :
    Leads p h (At p h v)
      (At p h { v with
        blk := { v.blk with st := tok }, rx := token, queue := data, fresh := false,
        age := p.ticks + v.blk.lap + 2 * v.blk.lap }) := by
  have first : Leads p h (At p h v)
      (At p h { v with
        blk := { v.blk with st := tok }, rx := 0xff, queue := 0xff :: token :: data, fresh := true,
        age := p.ticks + v.blk.lap }) := by
    have path := LeadsIn.poll (p := p) (h := h) (v := v)
      (b := { v.blk.calm with ms := 0, st := tok, tx := 0xff, go := true })
      { v.blk with st := tok } (p.ticks + v.blk.lap) (fun req ms _ _ => begins req ms) rfl rfl rfl div
      cs rfl listens rfl ?_
    · rw [queue] at path
      exact path.leads
    · rw [Blk.after_cleared rfl]
      exact Nat.le_succ _
  refine first.trans ?_
  have wait := LeadsIn.stream (p := p) (h := h) (v := { v with
      blk := { v.blk with st := tok }, rx := 0xff, queue := 0xff :: token :: data, fresh := true,
      age := p.ticks + v.blk.lap }) (fun _ => { v.blk with st := tok }) (fun _ => v.mem) 2 listens
    div (fun k below => ?_)
  · exact Clocked.Leads.from_imp (fun s here => here.reading) wait.leads
  · refine ⟨{ v.blk.calm with st := tok, tx := 0xff, go := true }, ⟨rfl, rfl, cs, rfl, rfl, rfl,
      rfl⟩, rfl, fun req ms _ timely => ?_⟩
    have early : ms < 200 := by
      by_contra late
      have lower := Nat.mul_le_mul_right p.ticks (Nat.le_of_not_lt late)
      have upper : k * v.blk.lap ≤ 1 * v.blk.lap := Nat.mul_le_mul_right _ (by omega)
      have same : ({ v.blk with st := tok } : Blk).lap = v.blk.lap := rfl
      dsimp only at timely
      rw [same] at timely
      have positive : 0 < p.ticks := Nat.succ_pos _
      omega
    have ones : View.byte { v with
        blk := { v.blk with st := tok }, rx := 0xff, queue := 0xff :: token :: data,
        fresh := true, age := p.ticks + v.blk.lap } k = 0xff := by
      obtain rfl | rfl : k = 0 ∨ k = 1 := by omega
      all_goals rfl
    rw [ones]
    exact waits req ms early

end Wish5380.Sd
