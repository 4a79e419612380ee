import Wish5380.Sd.Exchange

/-!
# From visit to visit

What the stack looks like in the cycles in which the sequencer acts, and the two rules that
carry it from one of them to the next: a visit that sends nothing is followed by another at
once, and one that sends a byte by the exchange of that byte.
-/

namespace Wish5380.Sd

/-! ## A visit without the timer -/

namespace Blk

/-- The registers without the pulses, the byte sent last and the timer.  `ms` stands at one, so
that a visit that clears it shows. -/
def calm (b : Blk) : Blk :=
  { b with
    go := false
    tx := 0xff
    bufWe := false
    done := false
    tickCnt := 0
    msPulse := false
    ms := 1 }

/-- The registers with the timer of `clock`, unless it has just been cleared, and with the byte
sent last, unless there is a new one. -/
def retime (b clock : Blk) : Blk :=
  { b with
    tx := if b.go then b.tx else clock.tx
    tickCnt := clock.tickCnt
    msPulse := clock.msPulse
    ms := if b.ms = 0 then 0 else clock.ms }

@[simp] theorem calm_calm (b : Blk) : b.calm.calm = b.calm :=
  rfl

@[simp] theorem calm_retime (b clock : Blk) : (b.retime clock).calm = b.calm :=
  rfl

@[simp] theorem retime_go (b clock : Blk) : (b.retime clock).go = b.go :=
  rfl

@[simp] theorem retime_bufWe (b clock : Blk) : (b.retime clock).bufWe = b.bufWe :=
  rfl

@[simp] theorem retime_done (b clock : Blk) : (b.retime clock).done = b.done :=
  rfl

@[simp] theorem calm_tickMs (p : Params) (b : Blk) : (b.tickMs p).calm = b.calm :=
  rfl

theorem retime_calm {b : Blk} (quiet : Quiet b) : b.calm.retime b = b := by
  obtain ⟨go, bufWe, done⟩ := quiet
  obtain ⟨⟩ := b
  simp_all [calm, retime]

theorem retime_ite (q : Prop) [Decidable q] (x y clock : Blk) :
    (if q then x else y).retime clock = if q then x.retime clock else y.retime clock :=
  apply_ite (retime · clock) q x y

/-- A visit reads the timer through its argument only, and clears it or leaves it. -/
theorem step_retime (b clock : Blk) (p : Params) (req : BlkReq) (rx : Byte) (ms : ℕ) :
    (b.retime clock).step p req rx ms = (b.step p req rx ms).retime clock := by
  have same : (b.retime clock).st = b.st := rfl
  cases st : b.st
  all_goals
    simp only [step, same, st, stepPower, stepDummy, stepCmd0R, stepCmd8R, stepAcmd41R,
      stepCsdTok, stepCsdDat, stepCsdCrc, stepReady, stepRdCmdR, stepRdTok, stepRdDat, stepRdCrc,
      stepWrCmdR, stepWrDat, stepWrCrc, stepWrResp, stepWrBusy, stepDead, stepCSend, stepCR1,
      stepCExtra, retime_ite]
    rfl

theorem Timed.retime {p : Params} {clock : Blk} (timed : clock.Timed p) (b : Blk) :
    (b.retime clock).Timed p :=
  timed

/-- The timer is in range and not older than `age`. -/
structure Aged (p : Params) (age : ℕ) (b : Blk) : Prop where
  timed : b.Timed p
  elapsed : b.elapsed p ≤ age

theorem Aged.tickMs {p : Params} {age : ℕ} {b : Blk} (aged : Aged p age b) :
    Aged p (age + 1) (b.tickMs p) :=
  ⟨timed_tickMs p b, (elapsed_tickMs aged.timed).trans (by have := aged.elapsed; omega)⟩

/-- The age after a visit that began at `age`. -/
def after (p : Params) (b : Blk) (age : ℕ) : ℕ :=
  if b.ms = 0 then p.ticks else age + 1

theorem after_running {p : Params} {b : Blk} {age : ℕ} (running : b.ms = 1) :
    b.after p age = age + 1 := by
  simp [after, running]

theorem after_cleared {p : Params} {b : Blk} {age : ℕ} (cleared : b.ms = 0) :
    b.after p age = p.ticks :=
  if_pos cleared

theorem Aged.visit {p : Params} {age : ℕ} {clock : Blk} (aged : Aged p age clock) (b : Blk) :
    Aged p (b.after p age) (b.retime (clock.tickMs p)) := by
  have ticked := aged.tickMs
  refine ⟨ticked.timed.retime b, ?_⟩
  unfold after
  split_ifs with cleared
  · refine elapsed_of_cleared (by simp [retime, cleared]) (fun pulse => ?_) (ticked.timed.retime b)
    simp only [retime, Blk.tickMs, decide_eq_true_eq] at pulse
    simp [retime, Blk.tickMs, pulse]
  · have older := ticked.elapsed
    simpa [retime, Blk.elapsed, cleared] using older

end Blk

/-! ## What the stack looks like at a visit -/

/-- What the inputs keep to: no request, and where the faults are given, these and no write
by the owner of the buffer. -/
def Hush (h : Option Faults) (i : Call) : Prop :=
  i.start = false ∧ ∀ g ∈ h, i.fill = none ∧ i.faults = g

/-- The registers, the byte received last, the card with what it has still to send, the
sector buffer, whether its register is up to date, and the age of the timer. -/
structure View where
  blk : Blk
  rx : Byte
  card : Card
  queue : List Byte
  mem : BitVec 9 → Byte
  fresh : Bool
  age : ℕ

/-- The card between two bytes. -/
structure Inserted (card : Card) (queue : List Byte) (slot : SdCard) : Prop where
  present : slot.present = true
  low : slot.prevClk = false
  bit : slot.bit = 0
  curTx : slot.curTx = queue.headD 0xff
  card : slot.card = { card with tx := queue.tail }

/-- The transceiver and the card at rest. -/
structure Rest (h : Option Faults) (v : View) (s : Stack) : Prop where
  run : s.dev.spi.run = false
  ended : s.dev.spi.done = false
  sclk : s.dev.spi.sclk = false
  rx : s.dev.spi.shRx = v.rx
  slot : Inserted v.card v.queue s.slot
  mem : ∀ g ∈ h, s.mem = v.mem

/-- The stack in a cycle in which the sequencer acts. -/
structure At (p : Params) (h : Option Faults) (v : View) (s : Stack) : Prop where
  blk : s.dev.blk.calm = v.blk.calm
  go : s.dev.blk.go = false
  bufWe : s.dev.blk.bufWe = false
  aged : s.dev.blk.Aged p v.age
  rest : Rest h v s
  fresh : v.fresh = true → ∀ g ∈ h, s.dev.rdata = v.mem v.blk.bufAddr

/-- One condition leads to another, without an answer on the way. -/
def Leads (p : Params) (h : Option Faults) (P Q : Stack → Prop) : Prop :=
  Clocked.Leads (Stack.next p) (Hush h) (fun s => s.rsp.done = false) P Q

/-- The same in `n` cycles. -/
def LeadsIn (p : Params) (h : Option Faults) (n : ℕ) (P Q : Stack → Prop) : Prop :=
  Clocked.LeadsIn (Stack.next p) (Hush h) (fun s => s.rsp.done = false) n P Q

theorem Stack.rsp_done (s : Stack) : s.rsp.done = s.dev.blk.done :=
  rfl

section Visit

variable {p : Params} {h : Option Faults} {v : View} {s : Stack} {i : Call}

theorem Rest.look (rest : Rest h v s) (f : Faults) : (s.look f).1 = s.slot := by
  obtain ⟨-, -, sclk, -, ⟨present, low, bit, -⟩, -⟩ := rest
  cases same : s.slot
  cases cs : s.dev.blk.cs <;> simp_all [Stack.look, SdCard.tick]

theorem Rest.mem_next (rest : Rest h v s) (hush : Hush h i) :
    ∀ g ∈ h, (s.next p i).mem =
      if s.dev.blk.bufWe then Function.update v.mem s.dev.blk.bufAddr s.dev.blk.bufWdata
      else v.mem := by
  intro g given
  simp [Stack.next, (hush.2 g given).1, Stack.filled, rest.mem g given]

/-- The card and the transceiver stay at rest when no byte is sent. -/
theorem Rest.next (rest : Rest h v s) (go : s.dev.blk.go = false) (bufWe : s.dev.blk.bufWe = false)
    (hush : Hush h i) : Rest h v (s.next p i) where
  run := by simp [Stack.next, Dev.next, Spi.next, rest.run, go]
  ended := by simp [Stack.next, Dev.next, Spi.next, rest.run, go]
  sclk := by simp [Stack.next, Dev.next, Spi.next, rest.run, go]
  rx := by simp [Stack.next, Dev.next, Spi.next, rest.run, go, rest.rx]
  slot := by
    rw [Stack.next, rest.look]
    exact rest.slot
  mem g given := by simp [rest.mem_next hush g given, bufWe]

/-- A visit: where it lands is decided by the view, the request and the count of milliseconds. -/
theorem At.visit (here : At p h v s) (i : Call) :
    (s.next p i).dev.blk =
      (v.blk.calm.step p (s.dev.req (s.input i)) v.rx s.dev.blk.ms).retime (s.dev.blk.tickMs p) := by
  have idle : s.dev.blk.spiIdle s.dev.spi = true :=
    Blk.spiIdle_iff.mpr ⟨here.go, here.rest.run, here.rest.ended⟩
  have ticked : s.dev.blk.tickMs p = v.blk.calm.retime (s.dev.blk.tickMs p) := by
    rw [← here.blk, ← Blk.calm_tickMs p, Blk.retime_calm (s.dev.blk.quiet_tickMs p)]
  rw [← Blk.step_retime, ← ticked]
  simp [Stack.next, Dev.next, Blk.next, idle, here.rest.rx]

/-- Of the registers only those without pulses and timer matter, and the timer may be older. -/
theorem At.as {c : Blk} {age : ℕ} (here : At p h v s) (same : v.blk.calm = c.calm)
    (older : v.age ≤ age) : At p h { v with blk := c, age := age } s where
  blk := here.blk.trans same
  go := here.go
  bufWe := here.bufWe
  aged := ⟨here.aged.timed, here.aged.elapsed.trans older⟩
  rest := ⟨here.rest.run, here.rest.ended, here.rest.sclk, here.rest.rx, here.rest.slot,
    here.rest.mem⟩
  fresh fresh g given := by
    have addr : v.blk.bufAddr = c.bufAddr := by
      have equal := congrArg Blk.bufAddr same
      exact equal
    rw [here.fresh fresh g given, addr]

/-- What a visit that sends nothing leaves behind, whatever it was asked. -/
theorem At.turn {b : Blk} (here : At p h v s) (kept : ∀ g ∈ h, i.fill = none ∧ i.faults = g)
    (landed : (s.next p i).dev.blk = b.retime (s.dev.blk.tickMs p)) (go : b.go = false)
    (bufWe : b.bufWe = false) :
    At p h { v with blk := b, fresh := false, age := b.after p v.age } (s.next p i) := by
  have rest : Rest h v (s.next p { i with start := false }) :=
    here.rest.next here.go here.bufWe ⟨rfl, kept⟩
  refine ⟨?_, ?_, ?_, ?_, ⟨rest.run, rest.ended, rest.sclk, rest.rx, rest.slot, rest.mem⟩, by simp⟩
  · rw [landed, Blk.calm_retime]
  · rw [landed, Blk.retime_go, go]
  · rw [landed, Blk.retime_bufWe, bufWe]
  · rw [landed]
    exact here.aged.visit b

/-- The rule of a visit that sends nothing. -/
theorem LeadsIn.still {b : Blk} (c : Blk) (age : ℕ)
    (visit : ∀ req ms, req.start = false → ms * p.ticks ≤ v.age →
      v.blk.calm.step p req v.rx ms = b)
    (go : b.go = false) (bufWe : b.bufWe = false) (done : b.done = false)
    (same : b.calm = c.calm) (older : b.after p v.age ≤ age) :
    LeadsIn p h 1 (At p h v) (At p h { v with blk := c, fresh := false, age := age }) := by
  refine .edge fun s i here hush => ?_
  have landed := here.visit i
  rw [visit _ _ hush.1 ((s.dev.blk.ms_le_elapsed p).trans here.aged.elapsed)] at landed
  refine ⟨(here.turn hush.2 landed go bufWe).as same older, ?_⟩
  rw [Stack.rsp_done, landed, Blk.retime_done, done]

end Visit

/-! ## The exchange -/

section Exchange

variable {p : Params} {h : Option Faults} {v : View} {b : Blk} {slot : SdCard}
  {m : BitVec 9 → Byte} {half cnt age : ℕ} {s : Stack} {i : Call}

/-- The registers while a byte moves: they wait, and the timer runs. -/
structure Parked (p : Params) (h : Option Faults) (b : Blk) (m : BitVec 9 → Byte) (age : ℕ)
    (s : Stack) : Prop where
  blk : s.dev.blk.calm = b.calm
  go : s.dev.blk.go = false
  bufWe : s.dev.blk.bufWe = false
  aged : s.dev.blk.Aged p age
  mem : ∀ g ∈ h, s.mem = m

/-- The transceiver in cycle `cnt` of half period `half`. -/
def Spi.moving (rx tx got : Byte) (half cnt : ℕ) : Spi where
  cnt := cnt
  bitCnt := half / 2
  shTx := window tx 0xff (half / 2)
  shRx := window rx got ((half + 1) / 2)
  run := true
  sclk := decide (half % 2 = 1)
  done := false

/-- The stack in cycle `cnt` of half period `half`. -/
structure Moving (p : Params) (h : Option Faults) (b : Blk) (m : BitVec 9 → Byte) (rx : Byte)
    (slot : SdCard) (half cnt age : ℕ) (s : Stack) : Prop where
  parked : Parked p h b m age s
  spi : s.dev.spi = Spi.moving rx b.tx (slot.offers b.cs) half cnt
  look : ∀ f, s.look f = (slot.seen b.cs b.tx half, (slot.offers b.cs).getLsbD (7 - half / 2))

theorem Parked.cs (parked : Parked p h b m age s) : s.dev.blk.cs = b.cs := by
  have same := congrArg Blk.cs parked.blk
  exact same

theorem Parked.div (parked : Parked p h b m age s) : s.dev.blk.div = b.div := by
  have same := congrArg Blk.div parked.blk
  exact same

theorem Parked.next (parked : Parked p h b m age s) (hush : Hush h i)
    (busy : s.dev.spi.run = true ∨ s.dev.spi.done = true) :
    Parked p h b m (age + 1) (s.next p i) ∧ (s.next p i).rsp.done = false := by
  have idle : s.dev.blk.spiIdle s.dev.spi = false := by
    rcases busy with on | on <;> simp [Blk.spiIdle, on]
  have ticked : (s.next p i).dev.blk = s.dev.blk.tickMs p := by
    simp [Stack.next, Dev.next, Blk.next, idle]
  refine ⟨⟨?_, ?_, ?_, ?_, fun g given => ?_⟩, ?_⟩
  · rw [ticked, Blk.calm_tickMs, parked.blk]
  · rw [ticked]
    rfl
  · rw [ticked]
    rfl
  · rw [ticked]
    exact parked.aged.tickMs
  · simp [Stack.next, parked.bufWe, (hush.2 g given).1, Stack.filled, parked.mem g given]
  · rw [Stack.rsp_done, ticked]
    rfl

/-- Between two edges of the card clock only the divider moves. -/
theorem Moving.wait {rx : Byte} (moving : Moving p h b m rx slot half cnt age s) (hush : Hush h i)
    (present : slot.present = true) (below : half < 16) (early : cnt < b.div) (div : b.div < 2 ^ 16) :
    Moving p h b m rx slot half (cnt + 1) (age + 1) (s.next p i) := by
  have parked := (moving.parked.next (p := p) hush (.inl (by simp [moving.spi, Spi.moving]))).1
  have spi : (s.next p i).dev.spi = Spi.moving rx b.tx (slot.offers b.cs) half (cnt + 1) := by
    have small : (cnt + 1) % 2 ^ 16 = cnt + 1 := Nat.mod_eq_of_lt (by omega)
    simp only [Stack.next, Dev.next, moving.spi, moving.parked.div, Spi.next, Spi.moving,
      Bool.not_true, Bool.false_eq_true, if_false, if_pos early, small]
  refine ⟨parked, spi, fun f => ?_⟩
  have slot' : (s.next p i).slot = slot.seen b.cs b.tx half := by simp [Stack.next, moving.look]
  rw [Stack.look, slot', spi, parked.cs]
  exact SdCard.tick_seen f present below _

/-- An edge of the card clock, other than the last. -/
theorem Moving.edge {rx : Byte} (moving : Moving p h b m rx slot half b.div age s)
    (hush : Hush h i) (present : slot.present = true) (below : half + 1 < 16) :
    Moving p h b m rx slot (half + 1) 0 (age + 1) (s.next p i) := by
  have parked := (moving.parked.next (p := p) hush (.inl (by simp [moving.spi, Spi.moving]))).1
  have miso : (s.input i).miso = (slot.offers b.cs).getLsbD (7 - half / 2) := by
    simp [Stack.input, moving.look]
  have spi : (s.next p i).dev.spi = Spi.moving rx b.tx (slot.offers b.cs) (half + 1) 0 := by
    have inside : half / 2 < 8 := by omega
    simp only [Stack.next, Dev.next, moving.spi, moving.parked.div, miso, Spi.next, Spi.moving,
      Bool.not_true, Bool.false_eq_true, if_false, lt_irrefl]
    rcases Nat.mod_two_eq_zero_or_one half with even | odd
    · have up : (half + 1) % 2 = 1 := by omega
      have bits : (half + 1) / 2 = half / 2 := by omega
      have more : (half + 1 + 1) / 2 = half / 2 + 1 := by omega
      simp [even, up, bits, more, shift_window rx _ inside]
    · have down : (half + 1) % 2 = 0 := by omega
      have bits : (half + 1 + 1) / 2 = (half + 1) / 2 := by omega
      have more : (half + 1) / 2 = half / 2 + 1 := by omega
      have early : half / 2 ≠ 7 := by omega
      have small : (half / 2 + 1) % 8 = half / 2 + 1 := Nat.mod_eq_of_lt (by omega)
      have ones := shift_ones b.tx inside
      simp at ones
      simp [odd, down, bits, more, early, small, ones]
  refine ⟨parked, spi, fun f => ?_⟩
  have slot' : (s.next p i).slot = slot.seen b.cs b.tx half := by simp [Stack.next, moving.look]
  have mosi : (s.next p i).dev.spi.mosi = b.tx.getLsbD (7 - (half + 1) / 2) := by
    rw [spi, ← window_top b.tx 0xff (show (half + 1) / 2 < 8 by omega)]
    rfl
  rw [Stack.look, slot', mosi, spi, parked.cs]
  exact SdCard.tick_seen_succ f present below

/-- The byte is complete, and the card has yet to see it. -/
structure Ended (p : Params) (h : Option Faults) (b : Blk) (m : BitVec 9 → Byte)
    (slot : SdCard) (age : ℕ) (s : Stack) : Prop where
  parked : Parked p h b m age s
  run : s.dev.spi.run = false
  ended : s.dev.spi.done = true
  sclk : s.dev.spi.sclk = false
  rx : s.dev.spi.shRx = slot.offers b.cs
  slot : s.slot = slot.seen b.cs b.tx 15

theorem Moving.last {rx : Byte} (moving : Moving p h b m rx slot 15 b.div age s)
    (hush : Hush h i) : Ended p h b m slot (age + 1) (s.next p i) := by
  have parked := (moving.parked.next (p := p) hush (.inl (by simp [moving.spi, Spi.moving]))).1
  refine ⟨parked, ?_, ?_, ?_, ?_, by simp [Stack.next, moving.look]⟩ <;>
    simp [Stack.next, Dev.next, moving.spi, moving.parked.div, Spi.next, Spi.moving]

/-- From the first half period to the last edge. -/
theorem leads_ended {rx : Byte} (present : slot.present = true) (div : b.div < 2 ^ 16) (age : ℕ) :
    LeadsIn p h (16 * (b.div + 1)) (Moving p h b m rx slot 0 0 age)
      (Ended p h b m slot (age + 16 * (b.div + 1))) := by
  have quiet {half cnt age : ℕ} {s : Stack} {i : Call}
      (moving : Moving p h b m rx slot half cnt age s) (hush : Hush h i) :
      (s.next p i).rsp.done = false :=
    (moving.parked.next hush (.inl (by simp [moving.spi, Spi.moving]))).2
  have through (half : ℕ) (below : half < 16) (age : ℕ) :
      LeadsIn p h (b.div * 1) (Moving p h b m rx slot half 0 age)
        (Moving p h b m rx slot half b.div (age + b.div)) :=
    Clocked.LeadsIn.stages (P := fun k => Moving p h b m rx slot half k (age + k)) (n := b.div)
      fun k early => .edge fun s i moving hush =>
        ⟨moving.wait hush present below early div, quiet moving hush⟩
  have on : LeadsIn p h (15 * (b.div * 1 + 1)) (Moving p h b m rx slot 0 0 (age + 0 * (b.div + 1)))
      (Moving p h b m rx slot 15 0 (age + 15 * (b.div + 1))) := by
    refine Clocked.LeadsIn.stages
      (P := fun k => Moving p h b m rx slot k 0 (age + k * (b.div + 1))) (n := 15) fun k below => ?_
    refine (through k (by omega) _).trans (.edge fun s i moving hush => ⟨?_, quiet moving hush⟩)
    have same : age + (k + 1) * (b.div + 1) = age + k * (b.div + 1) + b.div + 1 := by
      rw [Nat.succ_mul]
      omega
    rw [same]
    exact moving.edge hush present (by omega)
  rw [Nat.zero_mul, Nat.add_zero] at on
  refine (on.trans ((through 15 (by omega) _).trans (.edge fun s i moving hush =>
    ⟨?_, quiet moving hush⟩))).cast (by omega)
  have same : age + 16 * (b.div + 1) = age + 15 * (b.div + 1) + b.div + 1 := by omega
  rw [same]
  exact moving.last hush

/-- The visit that sends the byte is over. -/
structure Going (p : Params) (h : Option Faults) (b : Blk) (v : View) (age : ℕ) (s : Stack) :
    Prop where
  blk : s.dev.blk.calm = b.calm
  go : s.dev.blk.go = true
  tx : s.dev.blk.tx = b.tx
  bufWe : s.dev.blk.bufWe = b.bufWe
  aged : s.dev.blk.Aged p age
  rest : Rest h v s

/-- The sector buffer after the visit's write. -/
def Blk.stores (b : Blk) (mem : BitVec 9 → Byte) : BitVec 9 → Byte :=
  if b.bufWe then Function.update mem b.bufAddr b.bufWdata else mem

theorem leads_going
    (visit : ∀ req ms, req.start = false →
      (v.fresh = true → ∀ g ∈ h, req.bufRdata = v.mem v.blk.bufAddr) → ms * p.ticks ≤ v.age →
      v.blk.calm.step p req v.rx ms = b)
    (go : b.go = true) (done : b.done = false) :
    LeadsIn p h 1 (At p h v) (Going p h b v (b.after p v.age)) := by
  refine .edge fun s i here hush => ?_
  have landed := here.visit i
  rw [visit _ _ hush.1 here.fresh ((s.dev.blk.ms_le_elapsed p).trans here.aged.elapsed)] at landed
  refine ⟨⟨?_, ?_, ?_, ?_, ?_, here.rest.next here.go here.bufWe hush⟩, ?_⟩
  · rw [landed, Blk.calm_retime]
  · rw [landed, Blk.retime_go, go]
  · rw [landed]
    exact if_pos go
  · rw [landed, Blk.retime_bufWe]
  · rw [landed]
    exact here.aged.visit b
  · rw [Stack.rsp_done, landed, Blk.retime_done, done]

theorem Going.next (going : Going p h b v age s) (hush : Hush h i) :
    Moving p h b (b.stores v.mem) v.rx s.slot 0 0 (age + 1) (s.next p i) ∧
      (s.next p i).rsp.done = false := by
  have idle : s.dev.blk.spiIdle s.dev.spi = false := by simp [Blk.spiIdle, going.go]
  have ticked : (s.next p i).dev.blk = s.dev.blk.tickMs p := by
    simp [Stack.next, Dev.next, Blk.next, idle]
  have addr : s.dev.blk.bufAddr = b.bufAddr := by
    have same := congrArg Blk.bufAddr going.blk
    exact same
  have data : s.dev.blk.bufWdata = b.bufWdata := by
    have same := congrArg Blk.bufWdata going.blk
    exact same
  have parked : Parked p h b (b.stores v.mem) (age + 1) (s.next p i) := by
    refine ⟨?_, ?_, ?_, ?_, fun g given => ?_⟩
    · rw [ticked, Blk.calm_tickMs, going.blk]
    · rw [ticked]
      rfl
    · rw [ticked]
      rfl
    · rw [ticked]
      exact going.aged.tickMs
    · rw [going.rest.mem_next hush g given, going.bufWe, addr, data]
      rfl
  have spi : (s.next p i).dev.spi = Spi.moving v.rx b.tx (s.slot.offers b.cs) 0 0 := by
    simp [Stack.next, Dev.next, Spi.next, Spi.moving, going.rest.run, going.go, going.rest.rx,
      going.tx]
  refine ⟨⟨parked, spi, fun f => ?_⟩, ?_⟩
  · have slot : (s.next p i).slot = s.slot.seen b.cs b.tx 0 := by
      rw [SdCard.seen_zero going.rest.slot.low going.rest.slot.bit]
      exact going.rest.look i.faults
    rw [Stack.look, slot, spi, parked.cs]
    exact SdCard.tick_seen f going.rest.slot.present (by omega) _
  · rw [Stack.rsp_done, ticked]
    rfl

/-- The cycle after the last edge: the card sees the byte. -/
theorem Ended.next {c c' : Card} {q q' : List Byte} (ended : Ended p h b m slot age s)
    (hush : Hush h i) (inserted : Inserted c q slot)
    (acts : if b.cs then { c with tx := q.tail }.onByte i.faults b.tx = { c' with tx := q' }
      else c' = c ∧ q' = q) :
    At p h ⟨b, slot.offers b.cs, c', q', m, true, age + 1⟩ (s.next p i) ∧
      (s.next p i).rsp.done = false := by
  obtain ⟨parked, quiet⟩ := ended.parked.next (p := p) hush (.inr ended.ended)
  have slot' : (s.next p i).slot = ((slot.seen b.cs b.tx 15).tick i.faults false (!b.cs)
      s.dev.spi.mosi).1 := by
    simp [Stack.next, Stack.look, ended.slot, ended.sclk, ended.parked.cs]
  rw [SdCard.tick_seen_last i.faults inserted.present, inserted.card] at slot'
  have addr : s.dev.blk.bufAddr = b.bufAddr := by
    have same := congrArg Blk.bufAddr ended.parked.blk
    exact same
  refine ⟨⟨parked.blk, parked.go, parked.bufWe, parked.aged,
    ⟨?_, ?_, ?_, ?_, ?_, parked.mem⟩, fun _ g given => ?_⟩, quiet⟩
  · simp [Stack.next, Dev.next, Spi.next, ended.run, ended.parked.go]
  · simp [Stack.next, Dev.next, Spi.next, ended.run, ended.parked.go]
  · simp [Stack.next, Dev.next, Spi.next, ended.run, ended.parked.go]
  · simp [Stack.next, Dev.next, Spi.next, ended.run, ended.parked.go, ended.rx]
  · rw [slot']
    split_ifs at acts ⊢ with cs
    · exact ⟨inserted.present, rfl, rfl, by rw [acts], by rw [acts]⟩
    · rw [acts.1, acts.2]
      exact ⟨inserted.present, rfl, rfl, inserted.curTx, rfl⟩
  · simp [Stack.next, Dev.next, Stack.input, ended.parked.mem g given, addr]

/-- The cycles from one visit to the next, when the first sends a byte. -/
def Blk.lap (b : Blk) : ℕ :=
  16 * (b.div + 1) + 3

/-- The rule of a visit that sends a byte, selected or not. -/
theorem LeadsIn.exchange {k : Card} {q : List Byte} (c : Blk) (age : ℕ)
    (visit : ∀ req ms, req.start = false →
      (v.fresh = true → ∀ g ∈ h, req.bufRdata = v.mem v.blk.bufAddr) → ms * p.ticks ≤ v.age →
      v.blk.calm.step p req v.rx ms = b)
    (go : b.go = true) (done : b.done = false) (div : b.div < 2 ^ 16)
    (acts : ∀ f, (∀ g ∈ h, f = g) →
      if b.cs then { v.card with tx := v.queue.tail }.onByte f b.tx = { k with tx := q }
      else k = v.card ∧ q = v.queue)
    (same : b.calm = c.calm) (older : b.after p v.age + b.lap ≤ age + 1) :
    LeadsIn p h b.lap (At p h v)
      (At p h ⟨c, if b.cs then v.queue.headD 0xff else 0xff, k, q, b.stores v.mem, true, age⟩) := by
  refine Clocked.LeadsIn.cast ((leads_going visit go done).trans fun s going => ?_)
    (show 1 + (1 + (16 * (b.div + 1) + 1)) = b.lap by unfold Blk.lap; omega)
  have inserted := going.rest.slot
  have first : LeadsIn p h 1 (· = s)
      (Moving p h b (b.stores v.mem) v.rx s.slot 0 0 (b.after p v.age + 1)) :=
    .edge fun t i same hush => same ▸ going.next hush
  have last : LeadsIn p h 1
      (Ended p h b (b.stores v.mem) s.slot (b.after p v.age + 1 + 16 * (b.div + 1)))
      (At p h ⟨c, if b.cs then v.queue.headD 0xff else 0xff, k, q, b.stores v.mem, true, age⟩) := by
    refine .edge fun t i ended hush => ?_
    have seen := ended.next hush inserted (acts i.faults fun g given => (hush.2 g given).2)
    rw [SdCard.offers, inserted.curTx] at seen
    refine ⟨seen.1.as same ?_, seen.2⟩
    simp only [Blk.lap] at older
    dsimp only
    omega
  exact (first.trans ((leads_ended inserted.present div _).trans last)) s rfl

/-- Deselected, the card does not see the byte, and the line is high. -/
theorem LeadsIn.gap (c : Blk) (age : ℕ)
    (visit : ∀ req ms, req.start = false → ms * p.ticks ≤ v.age →
      v.blk.calm.step p req v.rx ms = b)
    (go : b.go = true) (bufWe : b.bufWe = false) (done : b.done = false) (div : b.div < 2 ^ 16)
    (cs : b.cs = false) (same : b.calm = c.calm) (older : b.after p v.age + b.lap ≤ age + 1) :
    LeadsIn p h b.lap (At p h v)
      (At p h { v with blk := c, rx := 0xff, fresh := true, age := age }) := by
  have path := LeadsIn.exchange (h := h) (k := v.card) (q := v.queue) c age
    (fun req ms start _ => visit req ms start) go done div (by simp [cs]) same older
  simpa [cs, Blk.stores, bufWe] using path

/-- Selected, the card acts on the byte, and the next it has to send comes in. -/
theorem LeadsIn.tell {k : Card} {q : List Byte} (c : Blk) (age : ℕ)
    (visit : ∀ req ms, req.start = false →
      (v.fresh = true → ∀ g ∈ h, req.bufRdata = v.mem v.blk.bufAddr) → ms * p.ticks ≤ v.age →
      v.blk.calm.step p req v.rx ms = b)
    (go : b.go = true) (bufWe : b.bufWe = false) (done : b.done = false) (div : b.div < 2 ^ 16)
    (cs : b.cs = true)
    (acts : ∀ f, (∀ g ∈ h, f = g) →
      { v.card with tx := v.queue.tail }.onByte f b.tx = { k with tx := q })
    (same : b.calm = c.calm) (older : b.after p v.age + b.lap ≤ age + 1) :
    LeadsIn p h b.lap (At p h v)
      (At p h { v with
        blk := c, rx := v.queue.headD 0xff, card := k, queue := q, fresh := true, age := age }) := by
  have path := LeadsIn.exchange (h := h) (k := k) (q := q) c age visit go done div
    (by simpa [cs] using acts) same older
  simpa [cs, Blk.stores, bufWe] using path

end Exchange

/-! ## A card that only sends -/

/-- The card is between commands, or waits for a block: bytes of ones mean nothing to it. -/
def Card.Listens (c : Card) : Prop :=
  c.mode = .cmd ∧ c.cmd = [] ∨ c.mode = .wrToken

theorem Card.Listens.onByte {c : Card} (listens : c.Listens) (f : Faults) (q : List Byte) :
    { c with tx := q }.onByte f 0xff = { c with tx := q } := by
  rcases listens with ⟨mode, cmd⟩ | mode
  · simp [Card.onByte, mode, cmd]
  · simp [Card.onByte, mode]

section Poll

variable {p : Params} {h : Option Faults} {v : View} {b : Blk}

/-- The rule of a visit that asks for the card's next byte. -/
theorem LeadsIn.poll (c : Blk) (age : ℕ)
    (visit : ∀ req ms, req.start = false → ms * p.ticks ≤ v.age →
      v.blk.calm.step p req v.rx ms = b)
    (go : b.go = true) (bufWe : b.bufWe = false) (done : b.done = false) (div : b.div < 2 ^ 16)
    (cs : b.cs = true) (tx : b.tx = 0xff) (listens : v.card.Listens) (same : b.calm = c.calm)
    (older : b.after p v.age + b.lap ≤ age + 1) :
    LeadsIn p h b.lap (At p h v)
      (At p h { v with
        blk := c, rx := v.queue.headD 0xff, queue := v.queue.tail, fresh := true, age := age }) :=
  LeadsIn.tell c age (fun req ms start _ => visit req ms start) go bufWe done div cs
    (fun f _ => tx ▸ listens.onByte f v.queue.tail) same older

end Poll

end Wish5380.Sd
