import Wish5380.Sd.Blocks

/-!
# One request after another

Between requests the sequencer is at rest and the card between commands, whatever the owner does
to the sector buffer.  A request that it takes then runs to its answer, and as it gives the answer
the sequencer is at rest again.
-/

namespace Wish5380.Sd

/-! ## What a request does -/

/-- Blocks by their numbers. -/
abbrev Disk :=
  BitVec 32 → BitVec 9 → Byte

/-- A request as it is made: what it asks for, what the card is to pretend, and what is in the
sector buffer. -/
structure Request where
  we : Bool
  lba : BitVec 32
  faults : Faults
  block : BitVec 9 → Byte

namespace Request

/-- The fault of its own block. -/
def fails (r : Request) : Bool :=
  r.faults.strikes r.we r.lba

/-- What it makes of the blocks. -/
def result (r : Request) (d : Disk) : Disk :=
  if r.we ∧ ¬ r.fails then Function.update d r.lba r.block else d

end Request

/-- The request made in a cycle. -/
def Call.request (i : Call) (mem : BitVec 9 → Byte) : Request where
  we := i.we
  lba := i.lba
  faults := i.faults
  block := Stack.filled mem i.fill

section Medium

variable {k : Card} {r : Request} {lba : BitVec 32} {f : Faults} {m : BitVec 9 → Byte}

/-- The card after a request. -/
def Card.served (k : Card) (r : Request) : Card :=
  if r.we then k.ended r.faults r.lba r.block else k

theorem written_block (d : List Byte) :
    (k.writeMedia lba d).block = Function.update k.block lba fun a => d.getD a.toNat 0 := by
  funext other a
  have small : a.toNat < 512 := a.isLt
  rw [Function.update_apply]
  by_cases same : other = lba
  · subst same
    have inside : other.toNat * 512 ≤ other.toNat * 512 + a.toNat ∧
        other.toNat * 512 + a.toNat < other.toNat * 512 + 512 := by omega
    have offset : other.toNat * 512 + a.toNat - other.toNat * 512 = a.toNat := by omega
    simp only [Card.block, Card.writeMedia, if_pos inside, offset, if_true]
  · have apart : other.toNat ≠ lba.toNat := fun equal => same (BitVec.eq_of_toNat_eq equal)
    have outside : ¬ (lba.toNat * 512 ≤ other.toNat * 512 + a.toNat ∧
        other.toNat * 512 + a.toNat < lba.toNat * 512 + 512) := by omega
    simp only [Card.block, Card.writeMedia, if_neg outside, if_neg same]

theorem takes_byte (a : BitVec 9) : (k.takes lba m 512).wrBuf.getD a.toNat 0 = m a := by
  have small : a.toNat < 512 := a.isLt
  simp only [Card.takes, List.getD_eq_getElem?_getD, List.getElem?_map, List.getElem?_range small,
    Option.map_some, Option.getD_some, if_pos small, BitVec.ofNat_toNat, BitVec.setWidth_eq]

theorem ended_block :
    (k.ended f lba m).block =
      if f.failWrite = some lba then k.block else Function.update k.block lba m := by
  rw [Card.ended]
  split_ifs with bad
  · rfl
  · have block (d : Card) : ({ d with mode := .cmd, wrGot := 514 } : Card).block = d.block := rfl
    have buffer (d : Card) : ({ d with mode := .cmd, wrGot := 514 } : Card).wrBuf = d.wrBuf := rfl
    have kept : (k.takes lba m 512).block = k.block := rfl
    rewrite [written_block, block, buffer, kept]
    exact congrArg (Function.update k.block lba) (funext takes_byte)

/-- The blocks of the card after a request are as the request makes them. -/
theorem Card.served_block (k : Card) (r : Request) : (k.served r).block = r.result k.block := by
  rw [Card.served, Request.result, Request.fails]
  cases we : r.we with
  | false => rfl
  | true =>
      rw [if_pos rfl, ended_block]
      by_cases bad : r.faults.failWrite = some r.lba <;> simp [Faults.strikes, bad]

/-- A card as it is between requests, with what stays as it is. -/
structure Card.Idles (c k : Card) : Prop where
  waits : k.Waits
  hc : k.hc = c.hc
  blocks : k.blocks = c.blocks
  ncr : k.ncr = c.ncr
  busyBytes : k.busyBytes = c.busyBytes

theorem Card.Idles.served {c : Card} (idles : c.Idles k) (r : Request) : c.Idles (k.served r) := by
  rw [Card.served]
  split
  · obtain ⟨-, -, -, hc, blocks, ncr, busyBytes⟩ := k.ended_facts r.faults r.lba r.block
    exact ⟨Card.ended_waits idles.waits, hc.trans idles.hc, blocks.trans idles.blocks,
      ncr.trans idles.ncr, busyBytes.trans idles.busyBytes⟩
  · exact idles

/-- The argument of a command and what the card makes of it. -/
theorem lbaOf_argument (sized : k.Sized) (inside : lba < k.blocks) :
    k.lbaOf (if k.hc then lba else lba <<< 9) = lba := by
  rw [Card.lbaOf]
  cases hc : k.hc with
  | true => rfl
  | false =>
      have most : k.blocks.toNat ≤ 2 ^ 21 := by
        have size := sized.2
        simp only [hc, Bool.false_eq_true, if_false] at size
        exact size.2
      have below : lba.toNat < k.blocks.toNat := inside
      refine BitVec.eq_of_toNat_eq ?_
      simp only [Bool.false_eq_true, if_false, BitVec.toNat_ushiftRight, BitVec.toNat_shiftLeft,
        Nat.shiftLeft_eq, Nat.shiftRight_eq_div_pow]
      omega

end Medium

/-! ## At rest -/

section Rest

variable {p : Params} {k : Card} {v : View} {s : Stack} {i : Call} {f : Faults}

/-- The card and the registers as they are known while the owner may do what it likes to the
buffer, and once it may not. -/
theorem At.given (here : At p none v s) (stale : v.fresh = false) :
    At p (some f) { v with mem := s.mem } s where
  blk := here.blk
  go := here.go
  bufWe := here.bufWe
  aged := here.aged
  rest := ⟨here.rest.run, here.rest.ended, here.rest.sclk, here.rest.rx, here.rest.slot,
    fun _ _ => rfl⟩
  fresh on := absurd on (by simp [stale])

theorem At.forget {h : Option Faults} (here : At p h v s) : At p none v s where
  blk := here.blk
  go := here.go
  bufWe := here.bufWe
  aged := here.aged
  rest := ⟨here.rest.run, here.rest.ended, here.rest.sclk, here.rest.rx, here.rest.slot, by simp⟩
  fresh _ _ given := absurd given (by simp)

theorem At.block (here : At p none v s) : s.slot.card.block = v.card.block := by
  rw [here.rest.slot.card]
  rfl

theorem At.mem_next (here : At p none v s) (i : Call) :
    (s.next p i).mem = Stack.filled s.mem i.fill := by
  simp [Stack.next, here.bufWe]

/-- At rest and not asked for anything, the sequencer stays at rest. -/
theorem Ready.stays (ready : Ready p k v) (here : At p none v s) (none : i.start = false) :
    Seen p .none (Ready p k) (s.next p i) ∧ (s.next p i).rsp.done = false := by
  have visit : v.blk.calm.step p (s.dev.req (s.input i)) v.rx s.dev.blk.ms =
      { v.blk.calm with err := false } := by
    have st : v.blk.calm.st = .ready := ready.st
    have quiet : (s.dev.req (s.input i)).start = false := none
    simp [Blk.step, st, Blk.stepReady, quiet]
  have landed := here.visit i
  rw [visit] at landed
  refine ⟨(here.turn (by simp) landed rfl rfl).seen ⟨ready.st, ready.div, ready.queue, ready.card,
    ready.ccs, ready.up, ready.count⟩, ?_⟩
  rw [Stack.rsp_done, landed]
  rfl

/-- At rest and asked, it goes to work. -/
theorem Ready.takes (ready : Ready p k v) (here : At p none v s) (asked : i.start = true)
    (f : Faults) :
    (∃ w, At p (some f) w (s.next p i) ∧
        Serving p (if i.we then .wrCmd else .rdCmd) k (Stack.filled s.mem i.fill) p.ticks w ∧
        w.queue = [] ∧ w.blk.err = false ∧
        w.blk.cmdArg = if k.hc then i.lba else i.lba <<< 9) ∧
      (s.next p i).rsp.done = false := by
  have visit : v.blk.calm.step p (s.dev.req (s.input i)) v.rx s.dev.blk.ms =
      { v.blk.calm with
        err := false, cmdArg := if v.blk.ccs then i.lba else i.lba <<< 9, ms := 0
        st := if i.we then .wrCmd else .rdCmd } := by
    have st : v.blk.calm.st = .ready := ready.st
    have start : (s.dev.req (s.input i)).start = true := asked
    simp only [Blk.step, st, Blk.stepReady, start, if_true]
    rfl
  have landed := here.visit i
  rw [visit] at landed
  have there := (here.turn (by simp) landed rfl rfl).given (f := f) rfl
  refine ⟨⟨_, there, ⟨rfl, ready.div, ready.card, here.mem_next i, ready.ccs, ready.up, ready.count,
    ?_⟩, ready.queue, rfl, ?_⟩, ?_⟩
  · dsimp only
    exact Nat.le_of_eq (Blk.after_cleared rfl)
  · rw [← ready.ccs]
  · rw [Stack.rsp_done, landed]
    rfl

/-- The answer. -/
theorem Finishing.answers {m : BitVec 9 → Byte} {fails : Bool} (finishing : Finishing p k m fails v)
    (here : At p (some f) v s) (kept : i.fill = none ∧ i.faults = f) :
    Seen p none (Ready p k) (s.next p i) ∧ (s.next p i).rsp.done = true ∧
      (s.next p i).rsp.err = fails ∧ (s.next p i).mem = m := by
  obtain ⟨⟨age, serving⟩, queue, err⟩ := finishing
  have visit : v.blk.calm.step p (s.dev.req (s.input i)) v.rx s.dev.blk.ms =
      { v.blk.calm with done := true, st := .ready } := by
    have st : v.blk.calm.st = .finish := serving.st
    simp [Blk.step, st]
  have landed := here.visit i
  rw [visit] at landed
  have there := here.turn (by simpa using kept) landed rfl rfl
  refine ⟨there.forget.seen ⟨rfl, serving.div, queue, serving.card, serving.ccs, serving.up,
    serving.count⟩, ?_, ?_, ?_⟩
  · rw [Stack.rsp_done, landed]
    rfl
  · rw [← err]
    simp only [Stack.rsp, Blk.rsp, landed]
    rfl
  · rw [← serving.mem]
    exact there.rest.mem f rfl

end Rest

/-! ## From the request to its answer -/

section Request

variable {p : Params} {c k : Card} {card : Card} {mem : BitVec 9 → Byte} {call : ℕ → Call} {t : ℕ}
  {v : View} {r : Request}

/-- What is asked of the clock and of the card before it is first busy. -/
structure Fits (p : Params) (c : Card) : Prop where
  period : 0 < p.clkPeriodPs
  high : p.clkPeriodPs ≤ 50000000
  sized : c.Sized
  short : c.ncr ≤ 62

/-- What is asked of the clock and of the card. -/
structure Suited (p : Params) (c : Card) : Prop extends Fits p c where
  /-- Busy for less than the timeout of 500 ms: the first millisecond that the timer counts is
  running already when it is cleared, so that it may show 500 once 499 are over. -/
  prompt : c.busyBytes * p.fastLap < 499 * p.ticks

theorem leads_answer (suited : Suited p c) (idles : c.Idles k)
    (serving : Serving p (if r.we then .wrCmd else .rdCmd) k r.block p.ticks v) (queue : v.queue = [])
    (err : v.blk.err = false) (arg : v.blk.cmdArg = if k.hc then r.lba else r.lba <<< 9)
    (inside : r.lba < k.blocks) :
    Leads p (some r.faults) (At p (some r.faults) v)
      (Seen p (some r.faults) fun w => ∃ m, Finishing p (k.served r) m r.fails w ∧
        (r.we = false → r.fails = false → m = k.block r.lba)) := by
  have quick : p.fastLap ≤ p.ticks :=
    Params.byteTime_le_ticks suited.period suited.high (by decide) (by decide)
  have sized : k.Sized := by
    have size := suited.sized
    rwa [Card.Sized, ← idles.hc, ← idles.blocks] at size
  have addressed : k.lbaOf v.blk.cmdArg = r.lba := by
    rw [arg]
    exact lbaOf_argument sized inside
  have short : k.ncr ≤ 62 := idles.ncr ▸ suited.short
  rw [Card.served, Request.fails]
  cases we : r.we with
  | false =>
      rw [we] at serving
      refine (leads_read serving quick queue err idles.waits short addressed inside).mono ?_
      rintro s ⟨w, ⟨m, finishing, delivered⟩, here⟩
      exact here.seen ⟨m, finishing, fun _ => delivered⟩
  | true =>
      rw [we] at serving
      have prompt : k.busyBytes * p.fastLap < 499 * p.ticks := idles.busyBytes ▸ suited.prompt
      refine (leads_write serving quick queue err idles.waits short addressed inside prompt).mono ?_
      rintro s ⟨w, finishing, here⟩
      exact here.seen ⟨_, finishing, by simp⟩

/-- A request made of the sequencer at rest is answered, as long as the owner leaves the buffer
alone and the faults stay the same until then. -/
theorem request_answered (suited : Suited p c) (idles : c.Idles k)
    (rest : Seen p none (Ready p k) (Stack.run p card mem call t)) (asked : (call t).start = true)
    (made : r = (call t).request (Stack.run p card mem call t).mem) (inside : r.lba < k.blocks)
    (kept : ∀ u, t < u → (∀ w, t < w → w ≤ u → (Stack.run p card mem call w).rsp.done = false) →
      Hush (some r.faults) (call u)) :
    ∃ u, t + 1 < u ∧ (∀ w, t < w → w < u → (Stack.run p card mem call w).rsp.done = false) ∧
      Seen p none (Ready p (k.served r)) (Stack.run p card mem call u) ∧
      (Stack.run p card mem call u).rsp.done = true ∧
      (Stack.run p card mem call u).rsp.err = r.fails ∧
      (r.we = false → r.fails = false → (Stack.run p card mem call u).mem = k.block r.lba) := by
  obtain ⟨v, ready, here⟩ := rest
  obtain ⟨⟨w, there, serving, queue, err, arg⟩, first⟩ := ready.takes here asked r.faults
  have later (n : ℕ) : Stack.run p card mem call (t + 1 + n) =
      Clocked.run (Stack.next p) (Stack.run p card mem call (t + 1)) (fun n => call (t + 1 + n)) n :=
    Clocked.run_add _ _ _ _ _
  subst made
  have path := leads_answer (r := (call t).request (Stack.run p card mem call t).mem) suited idles
    serving queue err arg inside
  have begun : (Stack.run p card mem call (t + 1)).rsp.done = false := first
  have silent {n : ℕ} (passed : ∀ i, 0 < i → i ≤ n → (Clocked.run (Stack.next p)
      (Stack.run p card mem call (t + 1)) (fun n => call (t + 1 + n)) i).rsp.done = false)
      (u : ℕ) (low : t < u) (high : u ≤ t + 1 + n) : (Stack.run p card mem call u).rsp.done = false := by
    obtain ⟨i, rfl⟩ : ∃ i, u = t + 1 + i := ⟨u - (t + 1), by omega⟩
    rcases Nat.eq_zero_or_pos i with rfl | positive
    · exact begun
    · rw [later]
      exact passed i positive (by omega)
  obtain ⟨n, ⟨x, ⟨m, finishing, delivered⟩, last⟩, passed⟩ := path.reaches there
    (fun n => call (t + 1 + n)) { faults := (call t).faults }
    ⟨rfl, fun g given => ⟨rfl, Option.some.inj given⟩⟩
    (fun n passed => kept (t + 1 + n) (by omega) (silent passed))
  have last : At p (some (call t).faults) x (Stack.run p card mem call (t + 1 + n)) := by
    rw [later]
    exact last
  have hush := kept (t + 1 + n) (by omega) (silent passed)
  obtain ⟨rest, done, err, mem'⟩ := finishing.answers last (hush.2 _ rfl)
  refine ⟨t + 1 + n + 1, by omega, fun u low high => silent passed u low (by omega), rest, done, err,
    fun read good => ?_⟩
  exact mem'.trans (delivered read good)

end Request

end Wish5380.Sd
