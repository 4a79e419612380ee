import Wish5380.Sd.Capacity
import Wish5380.Sd.Commands
import Wish5380.Sd.Progress

/-!
# The card comes up

From the release of the RESET pin to the ready state, against a card that answers within
sixty-two bytes: the power-up wait, eighty clocks deselected, and one command after another,
as the card's version asks for them.  At the end the count is the card's own.
-/

namespace Wish5380.Sd

variable {p : Params} {h : Option Faults}

/-- The stack shows some view of a kind. -/
def Seen (p : Params) (h : Option Faults) (V : View → Prop) (s : Stack) : Prop :=
  ∃ v, V v ∧ At p h v s

theorem At.seen {V : View → Prop} {v : View} {s : Stack} (here : At p h v s) (kind : V v) :
    Seen p h V s :=
  ⟨v, kind, here⟩

theorem Leads.seen {V : View → Prop} {Q : Stack → Prop}
    (each : ∀ v, V v → Leads p h (At p h v) Q) : Leads p h (Seen p h V) Q :=
  fun s ⟨v, kind, here⟩ => each v kind s here

theorem LeadsIn.seen {V : View → Prop} {Q : Stack → Prop} {n : ℕ}
    (each : ∀ v, V v → LeadsIn p h n (At p h v) Q) : LeadsIn p h n (Seen p h V) Q :=
  fun s ⟨v, kind, here⟩ => each v kind s here

/-! ## Power -/

/-- Waiting for two milliseconds, `n` cycles of them over. -/
structure Powering (p : Params) (card : Card) (n : ℕ) (s : Stack) : Prop where
  blk : s.dev.blk.calm = (Blk.reset p).calm
  quiet : Quiet s.dev.blk
  spi : s.dev.spi = {}
  slot : s.slot = { card := card }
  ranged : Ranged p s.dev.blk
  elapsed : s.dev.blk.elapsed p = n
  early : s.dev.blk.ms ≤ 2

/-- The sequencer on its way up: the state, the slow card clock, the card with what it has
still to send, and what is known of it. -/
structure Rising (p : Params) (st : St) (card : Card) (queue : List Byte) (v2 ccs : Bool) (age : ℕ)
    (v : View) : Prop where
  st : v.blk.st = st
  div : v.blk.div = p.divSlow
  queue : v.queue = queue
  card : v.card = card
  v2 : v.blk.v2 = v2
  ccs : v.blk.ccs = ccs
  age : v.age ≤ age

/-- The cycles of a byte on the way up. -/
def Params.slowLap (p : Params) : ℕ :=
  Params.byteTime p.divSlow

/-- `k` of the ten bytes that go out before the card is selected are over. -/
structure Clocking (p : Params) (card : Card) (k : ℕ) (v : View) : Prop
    extends Rising p .dummy card [] false false (p.ticks + k * p.slowLap) v where
  count : v.blk.bcnt = k
  cs : v.blk.cs = false

theorem Ranged.cleared {b c : Blk} (ranged : Ranged p b) (tickCnt : c.tickCnt = b.tickCnt)
    (msPulse : c.msPulse = b.msPulse) (ms : c.ms = 0) : c.Aged p p.ticks := by
  have timed : c.Timed p := by
    rw [Blk.Timed, tickCnt]
    exact ranged.timed
  refine ⟨timed, Blk.elapsed_of_cleared ms ?_ timed⟩
  rw [tickCnt, msPulse]
  exact ranged.pulse

theorem Powering.next {card : Card} {n : ℕ} {s : Stack} (here : Powering p card n s) (i : Call)
    (empty : card.tx = []) (soon : n ≤ 3 * p.ticks) :
    (Powering p card (n + 1) (s.next p i) ∨
        Seen p none (Clocking p card 0) (s.next p i)) ∧
      (s.next p i).rsp.done = false := by
  have st : s.dev.blk.st = .power := congrArg Blk.st here.blk
  have cs : s.dev.blk.cs = false := congrArg Blk.cs here.blk
  have idle : s.dev.idle = true := Dev.idle_iff.mpr (by simp [here.quiet.go, here.spi])
  have spi : (s.next p i).dev.spi = {} := by
    simp [Stack.next, Dev.next, here.spi, here.quiet.go, Spi.next]
  have slot : (s.next p i).slot = { card := card } := by
    simp [Stack.next, Stack.look, here.slot, here.spi, cs, SdCard.tick]
  have moved : (s.next p i).dev.blk = (s.dev.blk.tickMs p).stepPower s.dev.blk.ms := by
    have visit := (Dev.next_of_idle (p := p) idle (s.input i)).1
    simpa [Blk.step, Blk.tickMs, st, Stack.next] using visit
  have calm : (s.dev.blk.tickMs p).calm = (Blk.reset p).calm := here.blk
  have ranged := here.ranged.tickMs
  by_cases late : 2 ≤ s.dev.blk.ms
  · rw [Blk.stepPower, if_pos late] at moved
    refine ⟨.inr ⟨⟨{ Blk.reset p with st := .dummy }, 0, card, [], (s.next p i).mem, false, p.ticks⟩,
      ⟨⟨rfl, rfl, rfl, rfl, rfl, rfl, Nat.le_add_right _ _⟩, rfl, rfl⟩, ⟨?_, ?_, ?_, ?_, ?_, by simp⟩⟩, ?_⟩
    · have same : ({ s.dev.blk.tickMs p with cs := false, ms := 0, bcnt := 0, st := .dummy } : Blk).calm =
          { (s.dev.blk.tickMs p).calm with cs := false, bcnt := 0, st := .dummy } := rfl
      rw [moved, same, calm]
      rfl
    · rw [moved]
      rfl
    · rw [moved]
      rfl
    · rw [moved]
      exact ranged.cleared (by simp) (by simp) (by simp)
    · refine ⟨?_, ?_, ?_, ?_, ⟨?_, ?_, ?_, ?_, ?_⟩, by simp⟩
      case refine_9 =>
        rw [slot]
        cases card
        simp_all
      all_goals simp [spi, slot]
    · rw [Stack.rsp_done, moved]
      rfl
  · rw [Blk.stepPower, if_neg late] at moved
    have cleared : ({ s.dev.blk.tickMs p with cs := false } : Blk) = s.dev.blk.tickMs p := by
      have low : (s.dev.blk.tickMs p).cs = false := cs
      rw [← low]
    rw [cleared] at moved
    refine ⟨.inl ⟨?_, ?_, spi, slot, ?_, ?_, ?_⟩, ?_⟩
    · rw [moved]
      exact calm
    · rw [moved]
      exact s.dev.blk.quiet_tickMs p
    · rw [moved]
      exact ranged
    · rw [moved]
      have wrapped := here.ranged.elapsed_tickMs
      have bound := Blk.elapsed_tickMs here.ranged.timed
      rw [here.elapsed] at wrapped bound
      have positive : 0 < p.ticks := Nat.succ_pos _
      rwa [Nat.mod_eq_of_lt (by omega), Nat.mod_eq_of_lt (by omega)] at wrapped
    · rw [moved]
      have counted := Nat.mod_le (s.dev.blk.ms + 1) (2 ^ 16)
      simp only [Blk.tickMs]
      split <;> omega
    · rw [Stack.rsp_done, moved]
      rfl

/-- The wait is over. -/
theorem leads_powered {card : Card} (empty : card.tx = []) :
    Leads p none (Powering p card 0)
      (Seen p none (Clocking p card 0)) := by
  refine (Clocked.Leads.until_left (P := Powering p card) (n := 3 * p.ticks + 1) fun n soon =>
    .edge fun s i here _ => here.next i empty (by omega)).mono fun s here => ?_
  refine here.resolve_left fun late => ?_
  have early := late.early
  have ms := late.ranged.ms_of_elapsed (n := 2) (by rw [late.elapsed]; omega)
  have bound := late.ranged.elapsed_le
  rw [late.elapsed, show s.dev.blk.ms = 2 by omega] at bound
  omega

/-! ## Eighty clocks -/

theorem Rising.lap {st : St} {card : Card} {queue : List Byte} {v2 ccs : Bool} {age : ℕ} {v : View}
    (rising : Rising p st card queue v2 ccs age v) : v.blk.lap = p.slowLap := by
  rw [Blk.lap, rising.div]
  rfl

theorem Rising.narrow {st : St} {card : Card} {queue : List Byte} {v2 ccs : Bool} {age : ℕ}
    {v : View} (rising : Rising p st card queue v2 ccs age v) : v.blk.div < 2 ^ 16 := by
  rw [rising.div]
  exact Nat.mod_lt _ (by decide)

theorem leads_selected {card : Card} :
    Leads p none
      (Seen p none (Clocking p card 0)) (Seen p none (Rising p .cmd0 card [] false false p.ticks)) := by
  have bytes : Leads p none
      (Seen p none (Clocking p card 0)) (Seen p none (Clocking p card 10)) := by
    refine Clocked.Leads.stages (P := fun k => Seen p none (Clocking p card k))
      fun k below => Leads.seen fun v => ?_
    rintro ⟨rising, count, cs⟩
    have small : (k + 1) % 2 ^ 10 = k + 1 := Nat.mod_eq_of_lt (by omega)
    refine Clocked.LeadsIn.lands (LeadsIn.gap
      (b := { v.blk.calm with bcnt := k + 1, tx := 0xff, go := true }) { v.blk with bcnt := k + 1 }
      (v.age + v.blk.lap) (fun req ms _ _ => ?_) rfl rfl rfl rising.narrow cs rfl ?_) fun s here => ?_
    · have st : v.blk.calm.st = .dummy := rising.st
      have counted : v.blk.calm.bcnt = k := count
      simp only [Blk.step, st, Blk.stepDummy, counted, if_neg (show k ≠ 10 by omega), Blk.count,
        Blk.send, small]
    · rw [Blk.after_running rfl]
      simp only [Blk.lap, Blk.calm]
      omega
    · refine here.seen ⟨⟨rising.st, rising.div, rising.queue, rising.card, rising.v2, rising.ccs, ?_⟩,
        rfl, cs⟩
      have age := rising.age
      rw [Nat.succ_mul, ← rising.lap]
      rw [← rising.lap] at age
      dsimp only
      omega
  refine bytes.trans (Leads.seen fun v => ?_)
  rintro ⟨rising, count, -⟩
  refine Clocked.LeadsIn.lands (LeadsIn.still
    (b := { v.blk.calm with cs := true, ms := 0, st := .cmd0 }) { v.blk with cs := true, st := .cmd0 }
    p.ticks (fun req ms _ _ => ?_) rfl rfl rfl rfl ?_) fun s here =>
      here.seen ⟨rfl, rising.div, rising.queue, rising.card, rising.v2, rising.ccs, Nat.le_refl _⟩
  · have st : v.blk.calm.st = .dummy := rising.st
    have counted : v.blk.calm.bcnt = 10 := count
    simp only [Blk.step, st, Blk.stepDummy, counted, if_true]
  · exact Nat.le_of_eq (Blk.after_cleared rfl)

/-! ## One command after another -/

/-- The card between commands. -/
def Card.up (c : Card) (acmd idle : Bool) (left : ℕ) : Card :=
  { c with tx := [], mode := .cmd, cmd := [], acmd := acmd, idle := idle, acmd41Left := left }

theorem Card.up_listens (c : Card) (acmd idle : Bool) (left : ℕ) : (c.up acmd idle left).Listens :=
  .inl ⟨rfl, rfl⟩

section Commands

variable {st ret : St} {idx : BitVec 6} {arg : BitVec 32} {card k : Card} {r1 : Byte}
  {rest : List Byte} {v2 ccs : Bool} {age : ℕ}

/-- What the card does with a command. -/
def Card.Replies (card : Card) (idx : BitVec 6) (arg : BitVec 32) (k : Card) (r1 : Byte)
    (rest : List Byte) : Prop :=
  ∀ f, { card with tx := [], cmd := [], acmd := false }.execute f card.acmd idx arg =
    { k with tx := List.replicate card.ncr 0xff ++ r1 :: rest }

/-- The state that calls for a command. -/
def Calls (p : Params) (st : St) (v2 extra : Bool) (idx : BitVec 6) (arg : BitVec 32) (ret : St) :
    Prop :=
  ∀ (b : Blk) (req : BlkReq) (rx : Byte) (ms : ℕ), b.st = st → b.v2 = v2 →
    b.step p req rx ms = b.command idx arg extra ret

theorem Rising.asked {v : View} {extra : Bool} (rising : Rising p st card [] v2 ccs age v)
    (mode : card.mode = .cmd) (empty : card.cmd = []) (replies : card.Replies idx arg k r1 rest)
    (short : card.ncr ≤ 62) (listens : k.Listens) (low : r1.getLsbD 7 = false) :
    Asked none { v with blk := v.blk.command idx arg extra ret, fresh := false, age := v.age + 1 } k
      card.ncr r1 rest where
  st := rfl
  first := rfl
  div := rising.narrow
  mode := rising.card ▸ mode
  empty := rising.card ▸ empty
  queue := rising.queue
  acts f _ := by
    dsimp only
    rw [rising.card]
    exact replies f
  short := short
  listens := listens
  low := low

theorem Rising.call {v : View} {extra : Bool} (rising : Rising p st card [] v2 ccs age v)
    (calls : Calls p st v2 extra idx arg ret) :
    LeadsIn p none 1 (At p none v)
      (At p none
        { v with blk := v.blk.command idx arg extra ret, fresh := false, age := v.age + 1 }) := by
  refine LeadsIn.still (b := v.blk.calm.command idx arg extra ret) _ _ (fun req ms _ _ => ?_) rfl rfl
    rfl rfl (Nat.le_of_eq (Blk.after_running rfl))
  exact calls v.blk.calm req v.rx ms rising.st rising.v2

/-- A command with a short answer. -/
theorem leads_short (calls : Calls p st v2 false idx arg ret) (mode : card.mode = .cmd)
    (empty : card.cmd = []) (replies : card.Replies idx arg k r1 rest) (short : card.ncr ≤ 62)
    (listens : k.Listens) (low : r1.getLsbD 7 = false) :
    Leads p none (Seen p none (Rising p st card [] v2 ccs age))
      (Seen p none fun v =>
        Rising p ret k rest v2 ccs (age + (card.ncr + 10) * p.slowLap) v ∧ v.blk.r1 = r1 ∧
          v.blk.cs = true) := by
  refine Leads.seen fun v rising => ?_
  have asked : Asked none
      { v with blk := v.blk.command idx arg false ret, fresh := false, age := v.age + 1 } k card.ncr r1
      rest := rising.asked mode empty replies short listens low
  refine (rising.call calls).before ((asked.leads_short rfl).lands fun s here => ?_)
  refine here.seen ⟨⟨rfl, rising.div, rfl, rfl, rising.v2, rising.ccs, ?_⟩, rfl, rfl⟩
  have age := rising.age
  have lap : (v.blk.command idx arg false ret).lap = p.slowLap := rising.lap
  have positive : 0 < p.slowLap := Nat.succ_pos _
  dsimp only
  rw [lap, Nat.succ_mul (card.ncr + 9)]
  omega

/-- A command with a long answer. -/
theorem leads_long (calls : Calls p st v2 true idx arg ret) (mode : card.mode = .cmd)
    (empty : card.cmd = []) (replies : card.Replies idx arg k r1 rest) (short : card.ncr ≤ 62)
    (listens : k.Listens) (low : r1.getLsbD 7 = false) :
    Leads p none (Seen p none (Rising p st card [] v2 ccs age))
      (Seen p none fun v =>
        Rising p ret k (rest.drop 4) v2 ccs (age + (card.ncr + 14) * p.slowLap) v ∧
          v.blk.r1 = r1 ∧ v.blk.rExtra =
            rest.getD 0 0xff ++ rest.getD 1 0xff ++ rest.getD 2 0xff ++ rest.getD 3 0xff) := by
  refine Leads.seen fun v rising => ?_
  have asked : Asked none
      { v with blk := v.blk.command idx arg true ret, fresh := false, age := v.age + 1 } k card.ncr r1
      rest := rising.asked mode empty replies short listens low
  refine (rising.call calls).before ((asked.leads_long rfl).lands fun s here => ?_)
  refine here.seen ⟨⟨rfl, rising.div, rfl, rfl, rising.v2, rising.ccs, ?_⟩, rfl, rfl⟩
  have age := rising.age
  have lap : (v.blk.command idx arg true ret).lap = p.slowLap := rising.lap
  have positive : 0 < p.slowLap := Nat.succ_pos _
  dsimp only
  rw [lap, Nat.succ_mul (card.ncr + 13)]
  omega

/-- What the sequencer makes of an answer, when it sends nothing. -/
theorem leads_turn (cleared : Bool) (Q : Blk → Prop) {v2' ccs' : Bool} {onward : St}
    {queue : List Byte} (calm : ∀ b, Q b → Q b.calm)
    (turn : ∀ (b : Blk) (req : BlkReq) (rx : Byte) (ms : ℕ), b.st = ret → b.v2 = v2 → b.ccs = ccs →
      Q b → ms * p.ticks ≤ age →
        b.step p req rx ms =
          { b with ms := if cleared then 0 else b.ms, st := onward, v2 := v2', ccs := ccs' }) :
    Leads p none (Seen p none fun v => Rising p ret k queue v2 ccs age v ∧ Q v.blk)
      (Seen p none (Rising p onward k queue v2' ccs' (if cleared then p.ticks else age + 1))) := by
  refine Leads.seen fun v => ?_
  rintro ⟨rising, fits⟩
  have aged := rising.age
  refine Clocked.LeadsIn.lands (LeadsIn.still (b := { v.blk.calm with
      ms := if cleared then 0 else 1, st := onward, v2 := v2', ccs := ccs' })
    { v.blk with st := onward, v2 := v2', ccs := ccs' } (if cleared then p.ticks else v.age + 1)
    (fun req ms _ timely => turn v.blk.calm req v.rx ms rising.st rising.v2 rising.ccs
      (calm _ fits) (timely.trans aged)) rfl rfl rfl rfl ?_) fun s here =>
        here.seen ⟨rfl, rising.div, rising.queue, rising.card, rfl, rfl, ?_⟩
  · cases cleared
    · exact Nat.le_of_eq (Blk.after_running rfl)
    · exact Nat.le_of_eq (Blk.after_cleared rfl)
  · cases cleared
    · exact Nat.succ_le_succ aged
    · exact Nat.le_refl _

end Commands

section Sequence

variable {c : Card} {idle : Bool} {left age : ℕ}

/-- CMD0: the card is idle. -/
theorem leads_idle (short : c.ncr ≤ 62) :
    Leads p none (Seen p none (Rising p .cmd0 (c.up false idle left) [] false false age))
      (Seen p none (Rising p .cmd8 (c.up false true 3) [] false false p.ticks)) := by
  have calls : Calls p .cmd0 false false 0 0 .cmd0R := by
    intro b req rx ms st _
    simp only [Blk.step, st]
  have replies : (c.up false idle left).Replies 0 0 (c.up false true 3) 0x01 [] := by
    intro f
    simp [Card.execute, Card.pushR1, Card.push, Card.up]
  refine (leads_short calls rfl rfl replies short (c.up_listens _ _ _) rfl).trans ?_
  refine Clocked.Leads.from_imp (fun s ⟨v, ⟨rising, r1, _⟩, here⟩ => here.seen ⟨rising, r1⟩)
    (leads_turn true (fun b => b.r1 = 0x01) (fun b r1 => r1) fun b req rx ms st v2 ccs r1 _ => ?_)
  simp only [Blk.step, st, Blk.stepCmd0R, r1, v2, ccs, if_true]

/-- CMD8: the version of the card. -/
theorem leads_version (short : c.ncr ≤ 62) :
    Leads p none (Seen p none (Rising p .cmd8 (c.up false true 3) [] false false age))
      (Seen p none (Rising p .cmd55 (c.up false true 3) [] c.hc false p.ticks)) := by
  have calls : Calls p .cmd8 false true 8 0x000001aa .cmd8R := by
    intro b req rx ms st _
    simp only [Blk.step, st]
  cases hc : c.hc with
  | true =>
      have replies : (c.up false true 3).Replies 8 0x000001aa (c.up false true 3) 0x01
          [0x00, 0x00, 0x01, 0xaa] := by
        intro f
        simp [Card.execute, Card.sendIfCond, Card.pushR1, Card.push, Card.up, hc]
      refine (leads_long calls rfl rfl replies short (c.up_listens _ _ _) rfl).trans ?_
      refine leads_turn true (fun b => b.r1 = 0x01 ∧ b.rExtra = 0x000001aa) (fun b fits => fits)
        fun b req rx ms st v2 ccs ⟨r1, rExtra⟩ _ => ?_
      simp [Blk.step, st, Blk.stepCmd8R, r1, rExtra, ccs]
  | false =>
      have replies : (c.up false true 3).Replies 8 0x000001aa (c.up false true 3) 0x05 [] := by
        intro f
        simp [Card.execute, Card.sendIfCond, Card.pushR1, Card.push, Card.up, hc]
      refine (leads_long calls rfl rfl replies short (c.up_listens _ _ _) rfl).trans ?_
      refine Clocked.Leads.from_imp (fun s ⟨v, ⟨rising, r1, _⟩, here⟩ => here.seen ⟨rising, r1⟩)
        (leads_turn true (fun b => b.r1 = 0x05) (fun b r1 => r1) fun b req rx ms st v2 ccs r1 _ => ?_)
      simp [Blk.step, st, Blk.stepCmd8R, r1, ccs]

/-- CMD55 and ACMD41, up to what the answer is. -/
theorem leads_asked_op (short : c.ncr ≤ 62) {v2 : Bool} {k : Card} {r1 : Byte}
    (replies : (c.up true true left).Replies 41 (if v2 then 0x40000000 else 0) k r1 [])
    (listens : k.Listens) (low : r1.getLsbD 7 = false) :
    Leads p none (Seen p none (Rising p .cmd55 (c.up false true left) [] v2 false age))
      (Seen p none fun v =>
        Rising p .acmd41R k [] v2 false (age + (2 * c.ncr + 21) * p.slowLap) v ∧ v.blk.r1 = r1) := by
  have calls : Calls p .cmd55 v2 false 55 0 .cmd55R := by
    intro b req rx ms st _
    simp only [Blk.step, st]
  have app : (c.up false true left).Replies 55 0 (c.up true true left) 0x01 [] := by
    intro f
    simp [Card.execute, Card.pushR1, Card.push, Card.up]
  have calls' : Calls p .acmd41 v2 false 41 (if v2 then 0x40000000 else 0) .acmd41R := by
    intro b req rx ms st v2
    simp only [Blk.step, st, v2]
  refine (leads_short calls rfl rfl app short (c.up_listens _ _ _) rfl).trans ?_
  have turn : Leads p none
      (Seen p none fun v => Rising p .cmd55R (c.up true true left) [] v2 false
        (age + (c.ncr + 10) * p.slowLap) v ∧ True)
      (Seen p none (Rising p .acmd41 (c.up true true left) [] v2 false
        (age + (c.ncr + 10) * p.slowLap + 1))) := by
    refine leads_turn false (fun _ => True) (fun _ _ => trivial) fun b req rx ms st v2 ccs _ _ => ?_
    simp [Blk.step, st, v2, ccs]
  refine Clocked.Leads.from_imp (fun s ⟨v, ⟨rising, _⟩, here⟩ => here.seen ⟨rising, trivial⟩)
    (turn.trans ((leads_short calls' rfl rfl replies short listens low).mono fun s here => ?_))
  obtain ⟨v, ⟨rising, r1, -⟩, here⟩ := here
  refine here.seen ⟨⟨rising.st, rising.div, rising.queue, rising.card, rising.v2, rising.ccs, ?_⟩, r1⟩
  refine rising.age.trans ?_
  have positive : 0 < p.slowLap := Nat.succ_pos _
  have twice : (2 * c.ncr + 21) * p.slowLap =
      (c.ncr + 10) * p.slowLap + (c.ncr + 10) * p.slowLap + p.slowLap := by
    rw [← Nat.add_mul, ← Nat.succ_mul]
    congr 1
    omega
  have same : (c.up true true left).ncr = c.ncr := rfl
  rw [same, twice]
  omega

/-- Not yet. -/
theorem leads_again (short : c.ncr ≤ 62) {v2 : Bool}
    (timely : age + (2 * c.ncr + 21) * p.slowLap < 1000 * p.ticks) :
    Leads p none (Seen p none (Rising p .cmd55 (c.up false true (left + 1)) [] v2 false age))
      (Seen p none (Rising p .cmd55 (c.up false true left) [] v2 false
        (age + (2 * c.ncr + 22) * p.slowLap))) := by
  have replies : (c.up true true (left + 1)).Replies 41 (if v2 then 0x40000000 else 0)
      (c.up false true left) 0x01 [] := by
    intro f
    simp [Card.execute, Card.sendOpCond, Card.pushR1, Card.push, Card.up]
  have turn : Leads p none
      (Seen p none fun v => Rising p .acmd41R (c.up false true left) [] v2 false
        (age + (2 * c.ncr + 21) * p.slowLap) v ∧ v.blk.r1 = 0x01)
      (Seen p none (Rising p .cmd55 (c.up false true left) [] v2 false
        (age + (2 * c.ncr + 21) * p.slowLap + 1))) := by
    refine leads_turn false (fun b => b.r1 = 0x01) (fun _ r1 => r1)
      fun b req rx ms st v2 ccs r1 aged => ?_
    have early : ¬ 1000 ≤ ms := by
      intro late
      have := Nat.mul_le_mul_right p.ticks late
      omega
    simp [Blk.step, st, v2, ccs, Blk.stepAcmd41R, r1, early]
  refine (leads_asked_op short replies (c.up_listens _ _ _) rfl).trans (turn.mono fun s here => ?_)
  obtain ⟨v, rising, here⟩ := here
  refine here.seen ⟨rising.st, rising.div, rising.queue, rising.card, rising.v2, rising.ccs, ?_⟩
  have positive : 0 < p.slowLap := Nat.succ_pos _
  have aged := rising.age
  rw [Nat.succ_mul (2 * c.ncr + 21)]
  omega

/-- The card has powered up. -/
theorem leads_up (short : c.ncr ≤ 62) {v2 : Bool} :
    Leads p none (Seen p none (Rising p .cmd55 (c.up false true 0) [] v2 false age))
      (Seen p none (Rising p (if v2 then .cmd58 else .cmd16) (c.up false false 0) [] v2 false
        p.ticks)) := by
  have replies : (c.up true true 0).Replies 41 (if v2 then 0x40000000 else 0) (c.up false false 0)
      0x00 [] := by
    intro f
    simp [Card.execute, Card.sendOpCond, Card.pushR1, Card.push, Card.up]
  refine (leads_asked_op short replies (c.up_listens _ _ _) rfl).trans
    (leads_turn true (fun b => b.r1 = 0x00) (fun _ r1 => r1) fun b req rx ms st v2 ccs r1 _ => ?_)
  simp [Blk.step, st, v2, ccs, Blk.stepAcmd41R, r1]

/-- CMD58 or CMD16: how blocks are addressed. -/
theorem leads_addressed (short : c.ncr ≤ 62) :
    Leads p none
      (Seen p none (Rising p (if c.hc then .cmd58 else .cmd16) (c.up false false 0) [] c.hc false age))
      (Seen p none (Rising p .cmd9 (c.up false false 0) [] c.hc c.hc
        (age + (c.ncr + 15) * p.slowLap))) := by
  have positive : 0 < p.slowLap := Nat.succ_pos _
  cases hc : c.hc with
  | true =>
      have calls : Calls p .cmd58 true true 58 0 .cmd58R := by
        intro b req rx ms st _
        simp only [Blk.step, st]
      have replies : (c.up false false 0).Replies 58 0 (c.up false false 0) 0x00
          [0xc0, 0xff, 0x80, 0x00] := by
        intro f
        simp [Card.execute, Card.pushR1, Card.push, Card.up, hc]
      have turn : Leads p none
          (Seen p none fun v => Rising p .cmd58R (c.up false false 0) [] true false
            (age + (c.ncr + 14) * p.slowLap) v ∧ v.blk.rExtra = 0xc0ff8000)
          (Seen p none (Rising p .cmd9 (c.up false false 0) [] true true
            (age + (c.ncr + 14) * p.slowLap + 1))) := by
        refine leads_turn false (fun b => b.rExtra = 0xc0ff8000) (fun _ rExtra => rExtra)
          fun b req rx ms st v2 ccs rExtra _ => ?_
        simp [Blk.step, st, v2, Blk.stepCmd58R, rExtra]
      refine (leads_long calls rfl rfl replies short (c.up_listens _ _ _) rfl).trans
        (Clocked.Leads.from_imp (fun s ⟨v, ⟨rising, _, rExtra⟩, here⟩ => here.seen ⟨rising, rExtra⟩)
          (turn.mono fun s here => ?_))
      obtain ⟨v, rising, here⟩ := here
      refine here.seen ⟨rising.st, rising.div, rising.queue, rising.card, rising.v2, rising.ccs, ?_⟩
      have aged := rising.age
      rw [Nat.succ_mul (c.ncr + 14)]
      omega
  | false =>
      have calls : Calls p .cmd16 false false 16 512 .cmd16R := by
        intro b req rx ms st _
        simp only [Blk.step, st]
      have replies : (c.up false false 0).Replies 16 512 (c.up false false 0) 0x00 [] := by
        intro f
        simp [Card.execute, Card.pushR1, Card.push, Card.up]
      have turn : Leads p none
          (Seen p none fun v => Rising p .cmd16R (c.up false false 0) [] false false
            (age + (c.ncr + 10) * p.slowLap) v ∧ v.blk.r1 = 0x00)
          (Seen p none (Rising p .cmd9 (c.up false false 0) [] false false
            (age + (c.ncr + 10) * p.slowLap + 1))) := by
        refine leads_turn false (fun b => b.r1 = 0x00) (fun _ r1 => r1)
          fun b req rx ms st v2 ccs r1 _ => ?_
        simp [Blk.step, st, v2, ccs, r1]
      refine (leads_short calls rfl rfl replies short (c.up_listens _ _ _) rfl).trans
        (Clocked.Leads.from_imp (fun s ⟨v, ⟨rising, r1, _⟩, here⟩ => here.seen ⟨rising, r1⟩)
          (turn.mono fun s here => ?_))
      obtain ⟨v, rising, here⟩ := here
      refine here.seen ⟨rising.st, rising.div, rising.queue, rising.card, rising.v2, rising.ccs, ?_⟩
      have aged := rising.age
      have more : (c.ncr + 15) * p.slowLap = (c.ncr + 10) * p.slowLap + 5 * p.slowLap := by
        rw [← Nat.add_mul]
      omega

end Sequence

/-! ## The card's own data -/

section Register

variable {v : View} {data : List Byte} {hi lo : Byte}

/-- The start of the register. -/
theorem leads_begun (st : v.blk.st = .cmd9R) (r1 : v.blk.r1 = 0x00) (cs : v.blk.cs = true)
    (div : v.blk.div < 2 ^ 16) (quick : v.blk.lap ≤ p.ticks)
    (queue : v.queue = 0xff :: 0xff :: 0xfe :: data) (listens : v.card.Listens) :
    Leads p none (At p none v)
      (Seen p none fun w =>
        w.blk.calm = { v.blk.calm with st := .csdDat, bcnt := 0 } ∧ w.rx = data.headD 0xff ∧
          w.queue = data.tail ∧ w.card = v.card) := by
  have token : Leads p none (At p none v) (At p none { v with
      blk := { v.blk with st := .csdTok }, rx := 0xfe, queue := data, fresh := false,
      age := p.ticks + v.blk.lap + 2 * v.blk.lap }) := by
    refine leads_token (fun req ms => ?_) (fun req ms early => ?_) cs div quick queue listens
    · have here : v.blk.calm.st = .cmd9R := st
      have granted : v.blk.calm.r1 = 0x00 := r1
      simp only [Blk.step, here, Blk.stepCmd9R, granted, if_true, Blk.send]
    · simp [Blk.step, Blk.stepCsdTok, Blk.send, Nat.not_le.mpr early]
  refine token.trans (Clocked.LeadsIn.lands (LeadsIn.poll (b := { v.blk.calm with
    st := .csdDat, bcnt := 0, tx := 0xff, go := true }) { v.blk with st := .csdDat, bcnt := 0 }
    (p.ticks + v.blk.lap + 2 * v.blk.lap + v.blk.lap) (fun req ms _ _ => rfl) rfl rfl rfl div cs rfl
    listens rfl ?_) fun s here => here.seen ⟨rfl, rfl, rfl, rfl⟩)
  rw [Blk.after_running rfl]
  simp only [Blk.lap, Blk.calm]
  omega

/-- The register itself, and its check, which nobody looks at. -/
theorem leads_register (st : v.blk.st = .csdDat) (first : v.blk.bcnt = 0) (cs : v.blk.cs = true)
    (div : v.blk.div < 2 ^ 16) (listens : v.card.Listens)
    (bytes : v.rx :: v.queue = data ++ [hi, lo]) (full : data.length = 16) :
    Leads p none (At p none v)
      (Seen p none fun w =>
        w.blk.calm = { v.blk.calm with
          st := .csdCrc, bcnt := 1, csd := collected v.blk.csd (fun k => data.getD k 0xff) 16 } ∧
        w.queue = [] ∧ w.card = v.card) := by
  let blk (k : ℕ) : Blk :=
    { v.blk with st := .csdDat, bcnt := k, csd := collected v.blk.csd v.byte k }
  have counted (k : ℕ) : (blk k).calm.bcnt = k := rfl
  have rest : v.queue.drop 15 = [hi, lo] := by
    change (v.rx :: v.queue).drop 16 = [hi, lo]
    rw [bytes]
    exact List.drop_left' full
  have same : collected v.blk.csd v.byte 16 = collected v.blk.csd (fun k => data.getD k 0xff) 16 := by
    refine List.foldl_ext _ _ _ fun x k inside => ?_
    have below : k < data.length := by
      rw [full]
      exact List.mem_range.mp inside
    have found : v.byte k = data.getD k 0xff := by
      rw [View.byte, bytes, List.getD_eq_getElem?_getD, List.getElem?_append_left below,
        ← List.getD_eq_getElem?_getD]
    rw [found]
  have taken := LeadsIn.stream (p := p) (h := none) (v := v) blk (fun _ => v.mem) 15 listens div
    (fun k below => ?_)
  · have begun : blk 0 = v.blk := by
      simp only [blk, collected, List.range_zero, List.foldl_nil]
      rw [← first, ← st]
    rw [begun] at taken
    refine Clocked.Leads.from_imp (fun s here => here.reading) (taken.before ?_)
    refine Clocked.LeadsIn.before (LeadsIn.poll (b := { (blk 16).calm with
      st := .csdCrc, bcnt := 0, tx := 0xff, go := true }) { blk 16 with st := .csdCrc, bcnt := 0 }
      (v.age + 16 * v.blk.lap) (fun req ms _ _ => ?_) rfl rfl rfl div cs rfl listens rfl ?_) ?_
    · change (blk 15).calm.step p req (v.byte 15) ms = _
      simp only [Blk.step, Blk.stepCsdDat, counted, if_true, Blk.send]
      simp only [blk, collected_succ]
      rfl
    · rw [Blk.after_running rfl]
      simp only [View.reading, Blk.lap, Blk.calm, blk]
      omega
    refine Clocked.LeadsIn.lands (LeadsIn.poll (b := { (blk 16).calm with
      st := .csdCrc, bcnt := 1, tx := 0xff, go := true }) { blk 16 with st := .csdCrc, bcnt := 1 }
      (v.age + 17 * v.blk.lap) (fun req ms _ _ => ?_) rfl rfl rfl div cs rfl listens rfl ?_)
      fun s here => here.seen ⟨?_, ?_, rfl⟩
    · rfl
    · rw [Blk.after_running rfl]
      simp only [Blk.lap, Blk.calm, blk]
      omega
    · rw [← same]
      rfl
    · simp [View.reading, rest]
  · refine ⟨{ (blk (k + 1)).calm with tx := 0xff, go := true }, ⟨rfl, rfl, cs, rfl, rfl, rfl, rfl⟩,
      rfl, fun req ms _ _ => ?_⟩
    have small : (k + 1) % 2 ^ 10 = k + 1 := Nat.mod_eq_of_lt (by omega)
    simp only [Blk.step, Blk.stepCsdDat, counted, if_neg (show k ≠ 15 by omega), Blk.send,
      Blk.count, small]
    simp only [blk, collected_succ]
    rfl

end Register

/-! ## From reset to ready -/

/-- The sequencer at rest, with a card that is between commands. -/
structure Ready (p : Params) (k : Card) (v : View) : Prop where
  st : v.blk.st = .ready
  div : v.blk.div = p.divFast
  queue : v.queue = []
  card : v.card = k
  ccs : v.blk.ccs = k.hc
  up : v.blk.cardReady = true
  count : v.blk.blocks = k.blocks

/-- The register is in, and one visit is left. -/
structure Registered (p : Params) (k : Card) (v : View) : Prop where
  st : v.blk.st = .csdCrc
  last : v.blk.bcnt = 1
  queue : v.queue = []
  card : v.card = k
  ccs : v.blk.ccs = k.hc
  count : v.blk.blocks = k.blocks

variable {c : Card}

theorem leads_registered {age : ℕ} (period : 0 < p.clkPeriodPs) (high : p.clkPeriodPs ≤ 50000000)
    (short : c.ncr ≤ 62) (sized : c.Sized) :
    Leads p none
      (Seen p none (Rising p .cmd9 (c.up false false 0) [] c.hc c.hc age))
      (Seen p none (Registered p (c.up false false 0))) := by
  have quick : p.slowLap ≤ p.ticks := Params.byteTime_le_ticks period high (by decide) (Nat.le_refl _)
  have calls : Calls p .cmd9 c.hc false 9 0 .cmd9R := by
    intro b req rx ms st _
    simp only [Blk.step, st]
  have replies : (c.up false false 0).Replies 9 0 (c.up false false 0) 0x00
      (Card.packet c.csd (sdCrc16 c.csd)) := by
    intro f
    simp [Card.execute, Card.pushR1, Card.push, Card.up, Card.csd, Card.csdFields]
  refine (leads_short calls rfl rfl replies short (c.up_listens _ _ _) rfl).trans
    (Leads.seen fun v => ?_)
  rintro ⟨rising, r1, cs⟩
  have listens : v.card.Listens := rising.card ▸ c.up_listens _ _ _
  refine (leads_begun rising.st r1 cs rising.narrow (rising.lap ▸ quick) rising.queue listens).trans
    (Leads.seen fun w => ?_)
  rintro ⟨blk, rx, queue, card⟩
  have st : w.blk.st = .csdDat := congrArg Blk.st blk
  have first : w.blk.bcnt = 0 := congrArg Blk.bcnt blk
  have select : w.blk.cs = v.blk.cs := (congrArg Blk.cs blk :)
  have div : w.blk.div = v.blk.div := (congrArg Blk.div blk :)
  have ccs : w.blk.ccs = v.blk.ccs := (congrArg Blk.ccs blk :)
  have full : c.csd.length = 16 := by
    cases hc : c.hc <;> simp [Card.csd, Card.csdFields, hc]
  have bytes : w.rx :: w.queue = c.csd ++
      [(sdCrc16 c.csd).extractLsb' 8 8, (sdCrc16 c.csd).extractLsb' 0 8] := by
    rw [rx, queue]
    cases data : c.csd with
    | nil => simp [data] at full
    | cons a rest => rfl
  refine Clocked.Leads.mono (leads_register st first (select.trans cs) (div ▸ rising.narrow)
    (card ▸ listens) bytes full) ?_
  rintro s ⟨x, ⟨blk', queue', card'⟩, here⟩
  have st' : x.blk.st = .csdCrc := congrArg Blk.st blk'
  have last : x.blk.bcnt = 1 := congrArg Blk.bcnt blk'
  have ccs' : x.blk.ccs = w.blk.ccs := (congrArg Blk.ccs blk' :)
  have csd : x.blk.csd = collected w.blk.csd (fun k => c.csd.getD k 0xff) 16 :=
    congrArg Blk.csd blk'
  exact here.seen ⟨st', last, queue', card'.trans (card.trans rising.card),
    ccs'.trans (ccs.trans rising.ccs), blocks_of_csd sized _ csd⟩

/-- The last visit. -/
theorem Registered.lands {v : View} {s : Stack} {i : Call} {k : Card} (registered : Registered p k v)
    (here : At p none v s) : Seen p none (Ready p k) (s.next p i) ∧ (s.next p i).rsp.done = false := by
  have visit : v.blk.calm.step p (s.dev.req (s.input i)) v.rx s.dev.blk.ms =
      { v.blk.calm with st := .ready, bcnt := 2, cardReady := true, div := p.divFast } := by
    have st : v.blk.calm.st = .csdCrc := registered.st
    have last : v.blk.calm.bcnt = 1 := registered.last
    simp [Blk.step, st, Blk.stepCsdCrc, last, Blk.count]
  have landed := here.visit i
  rw [visit] at landed
  refine ⟨(here.turn (by simp) landed rfl rfl).seen ⟨rfl, rfl, registered.queue, registered.card,
    registered.ccs, rfl, registered.count⟩, ?_⟩
  rw [Stack.rsp_done, landed]
  rfl

/-- The sequencer and a card fresh from its power-up. -/
structure Card.Fresh (c : Card) : Prop where
  tx : c.tx = []
  mode : c.mode = .cmd
  cmd : c.cmd = []
  acmd : c.acmd = false

theorem Card.Fresh.up (fresh : c.Fresh) : c.up false c.idle c.acmd41Left = c := by
  obtain ⟨tx, mode, cmd, acmd⟩ := fresh
  cases c
  simp_all [Card.up]

/-- From reset the sequencer gets as far as its last visit before it is ready. -/
theorem comes_up (period : 0 < p.clkPeriodPs) (high : p.clkPeriodPs ≤ 50000000) (fresh : c.Fresh)
    (short : c.ncr ≤ 62) (sized : c.Sized) (mem : BitVec 9 → Byte) :
    Leads p none (· = Stack.reset p c mem) (Seen p none (Registered p (c.up false false 0))) := by
  have quick : p.slowLap ≤ p.ticks := Params.byteTime_le_ticks period high (by decide) (Nat.le_refl _)
  have begins (s : Stack) (reset : s = Stack.reset p c mem) : Powering p c 0 s := by
    rw [reset]
    have paced := (Dev.paced_run period high (fun _ => {}) 0).ranged
    exact ⟨rfl, ⟨rfl, rfl, rfl⟩, rfl, rfl, paced, by simp [Stack.reset, Dev.reset, Blk.reset, Blk.elapsed],
      Nat.zero_le _⟩
  have positive : 0 < p.ticks := Nat.succ_pos _
  have round : (2 * c.ncr + 22) * p.slowLap ≤ 146 * p.ticks := Nat.mul_le_mul (by omega) quick
  have less : (2 * c.ncr + 21) * p.slowLap ≤ (2 * c.ncr + 22) * p.slowLap :=
    Nat.mul_le_mul_right _ (by omega)
  refine Clocked.Leads.from_imp begins ((leads_powered fresh.tx).trans (leads_selected.trans ?_))
  rw [← fresh.up]
  refine (leads_idle short).trans ((leads_version short).trans ?_)
  refine Clocked.Leads.trans (leads_again short (by omega)) ?_
  refine Clocked.Leads.trans (leads_again short (by omega)) ?_
  refine Clocked.Leads.trans (leads_again short (by omega)) ?_
  exact (leads_up short).trans ((leads_addressed short).trans (leads_registered period high short sized))

end Wish5380.Sd
