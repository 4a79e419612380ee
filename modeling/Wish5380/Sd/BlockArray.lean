import Wish5380.Sd.Timing

/-!
# The back end and its card are an array of blocks

What the owner of `blk_sd` may count on, for any sequence of requests: the sequencer comes ready
with the card's block count; a read leaves in the buffer what was last written to the block; a
write changes that block and no other; and a request that meets an injected fault ends in an error
and changes nothing.
-/

namespace Wish5380.Sd

/-! ## The array -/

/-- The blocks, and the request that has not been answered yet. -/
structure Ledger where
  disk : Disk
  owed : Option Request := none

namespace Ledger

/-- A request is made. -/
def accept (l : Ledger) (i : Call) (mem : BitVec 9 → Byte) : Ledger :=
  if i.start then { l with owed := some (i.request mem) } else l

/-- The answer is given. -/
def settle (l : Ledger) (done : Bool) : Ledger :=
  match done, l.owed with
  | true, some r => { disk := r.result l.disk }
  | _, _ => l

end Ledger

section Array

variable (p : Params) (card : Card) (mem : BitVec 9 → Byte) (call : ℕ → Call)

/-- The ledger in a cycle, with the answer that is shown in it, and before the request. -/
def ledger : ℕ → Ledger
  | 0 => { disk := card.block }
  | t + 1 =>
    ((ledger t).accept (call t) (Stack.run p card mem call t).mem).settle
      (Stack.run p card mem call (t + 1)).rsp.done

/-- The owner makes a request of the ready sequencer when the one before has been answered, for a
block that there is; until the answer it leaves the buffer alone, and the faults stay the same. -/
structure Orderly : Prop where
  asks : ∀ t, (call t).start = true →
    (Stack.run p card mem call t).rsp.ready = true ∧ (ledger p card mem call t).owed = none ∧
      (call t).lba < (Stack.run p card mem call t).rsp.count
  waits : ∀ t, ∀ r ∈ (ledger p card mem call t).owed, (call t).fill = none ∧ (call t).faults = r.faults

/-- The array of blocks. -/
structure ActsAsArray : Prop where
  /-- The sequencer comes ready, and stays so. -/
  ready : ∃ t, ∀ u, (Stack.run p card mem call u).rsp.ready = true ↔ t ≤ u
  /-- Its count is the card's. -/
  count : ∀ t, (Stack.run p card mem call t).rsp.ready = true →
    (Stack.run p card mem call t).rsp.count = card.blocks
  /-- Every request is answered. -/
  answered : ∀ t, ∀ r ∈ (ledger p card mem call t).owed, ∃ u, t < u ∧
    (Stack.run p card mem call u).rsp.done = true ∧
    ∀ v, t ≤ v → v < u → (ledger p card mem call v).owed = some r
  /-- Nothing else is. -/
  asked : ∀ t, (Stack.run p card mem call (t + 1)).rsp.done = true →
    (ledger p card mem call t).owed ≠ none
  /-- The answer is an error exactly when the request meets a fault, and a read without one leaves
  the block in the buffer. -/
  outcome : ∀ t, ∀ r ∈ (ledger p card mem call t).owed,
    (Stack.run p card mem call (t + 1)).rsp.done = true →
      (Stack.run p card mem call (t + 1)).rsp.err = r.fails ∧
      (r.we = false → r.fails = false →
        (Stack.run p card mem call (t + 1)).mem = (ledger p card mem call t).disk r.lba)
  /-- Between requests the card holds the array. -/
  stored : ∀ t, (Stack.run p card mem call t).rsp.ready = true →
    (ledger p card mem call t).owed = none →
    (Stack.run p card mem call t).slot.card.block = (ledger p card mem call t).disk

end Array

section Proof

variable {p : Params} {card : Card} {mem : BitVec 9 → Byte} {call : ℕ → Call} {t : ℕ}

/-! ## From the RESET pin to the first request -/

/-- The sequencer in the stack is a run of its own. -/
theorem Stack.run_dev (p : Params) (card : Card) (mem : BitVec 9 → Byte) (call : ℕ → Call) (t : ℕ) :
    (Stack.run p card mem call t).dev =
      Dev.run p (fun u => (Stack.run p card mem call u).input (call u)) t := by
  induction t with
  | zero => rfl
  | succ t ih =>
      rw [Dev.run_succ, ← ih]
      rfl

theorem ready_mono {u : ℕ} (later : t ≤ u)
    (ready : (Stack.run p card mem call t).rsp.ready = true) :
    (Stack.run p card mem call u).rsp.ready = true := by
  simp only [Stack.rsp, Blk.rsp, Stack.run_dev] at ready ⊢
  exact Dev.cardReady_mono later ready

/-- The count stays as it is. -/
theorem count_kept {u : ℕ} (later : t ≤ u)
    (ready : (Stack.run p card mem call t).rsp.ready = true) :
    (Stack.run p card mem call u).rsp.count = (Stack.run p card mem call t).rsp.count := by
  have kept : (Stack.run p card mem call u).dev.blk.csd = (Stack.run p card mem call t).dev.blk.csd := by
    induction u, later using Nat.le_induction with
    | base => rfl
    | succ u later ih =>
        rw [← ih]
        have placed := Dev.placed_run (p := p) (fun w => (Stack.run p card mem call w).input (call w)) u
        have up : (Stack.run p card mem call u).dev.blk.cardReady = true := ready_mono later ready
        rw [← Stack.run_dev] at placed
        have other : (Stack.run p card mem call u).dev.blk.st ≠ .csdDat := by
          intro st
          rw [placed.ready, Blk.place, st] at up
          exact Bool.false_ne_true up
        have moved : (Stack.run p card mem call (u + 1)).dev =
            (Stack.run p card mem call u).dev.next p ((Stack.run p card mem call u).input (call u)) :=
          rfl
        rw [moved]
        cases idle : (Stack.run p card mem call u).dev.idle with
        | false =>
            rw [Dev.next_of_busy idle]
            rfl
        | true =>
            rw [(Dev.next_of_idle idle _).1]
            exact (leaves_step ..).csd other
  have up : (Stack.run p card mem call t).dev.blk.cardReady = true := ready
  have still : (Stack.run p card mem call u).dev.blk.cardReady = true := ready_mono later ready
  simp only [Stack.rsp, Blk.rsp, up, still, Blk.blocks, kept]

/-- Before its last visit the sequencer is not ready. -/
theorem early_of_registered {v : View} {k : Card} (registered : Registered p k v)
    (here : At p none v (Stack.run p card mem call t)) :
    (Stack.run p card mem call t).rsp.ready = false := by
  have st : (Stack.run p card mem call t).dev.blk.st = .csdCrc :=
    (congrArg Blk.st here.blk :).trans registered.st
  have placed := (Dev.placed_run (p := p)
    (fun u => (Stack.run p card mem call u).input (call u)) t).ready
  rw [← Stack.run_dev, Blk.place, st] at placed
  exact placed

/-- The first cycle in which the sequencer is ready. -/
structure Begins (p : Params) (card : Card) (mem : BitVec 9 → Byte) (call : ℕ → Call) (t : ℕ) :
    Prop where
  early : ∀ u < t, (Stack.run p card mem call u).rsp.ready = false
  silent : ∀ u ≤ t, (Stack.run p card mem call u).rsp.done = false
  rest : Seen p none (Ready p (card.up false false 0)) (Stack.run p card mem call t)

theorem exists_begins (fits : Fits p card) (fresh : card.Fresh)
    (asks : ∀ t, (call t).start = true → (Stack.run p card mem call t).rsp.ready = true) :
    ∃ t, Begins p card mem call t := by
  -- the same run with no request in it
  let mute (u : ℕ) : Call := { call u with start := false }
  obtain ⟨n, reach⟩ := comes_up fits.period fits.high fresh fits.short fits.sized mem _ rfl mute
  obtain ⟨⟨v, registered, here⟩, passed⟩ := reach fun i _ => ⟨rfl, by simp⟩
  have here : At p none v (Stack.run p card mem mute n) := here
  have early (u : ℕ) (inside : u ≤ n) : (Stack.run p card mem mute u).rsp.ready = false := by
    by_contra ready
    have last := ready_mono inside (by simpa using ready)
    rw [early_of_registered registered here] at last
    exact Bool.false_ne_true last
  have agree (u : ℕ) (inside : u ≤ n) :
      Stack.run p card mem call u = Stack.run p card mem mute u := by
    refine Clocked.run_congr (n := n) (fun i below before => ?_) inside
    have unready : (Stack.run p card mem call i).rsp.ready = false := by
      have same : Stack.run p card mem call i = Stack.run p card mem mute i :=
        before i (Nat.le_refl i)
      rw [same]
      exact early i (Nat.le_of_lt below)
    have none : (call i).start = false := by
      by_contra start
      have ready := asks i (by simpa using start)
      simp [unready] at ready
    simp only [mute, ← none]
  rw [← agree n (Nat.le_refl n)] at here
  obtain ⟨rest, done⟩ := registered.lands (i := call n) here
  refine ⟨n + 1, fun u below => ?_, fun u inside => ?_, rest⟩
  · rw [agree u (by omega)]
    exact early u (by omega)
  · rcases Nat.eq_or_lt_of_le inside with rfl | below
    · exact done
    · rw [agree u (by omega)]
      rcases Nat.eq_zero_or_pos u with rfl | positive
      · rfl
      · exact passed u positive (by omega)

/-! ## From one request to the next -/

/-- Between requests: nothing is owed, and the card holds the array. -/
structure Between (p : Params) (card : Card) (mem : BitVec 9 → Byte) (call : ℕ → Call) (t : ℕ)
    (k : Card) : Prop where
  owed : (ledger p card mem call t).owed = none
  idles : card.Idles k
  block : k.block = (ledger p card mem call t).disk
  rest : Seen p none (Ready p k) (Stack.run p card mem call t)

/-- A request that takes until cycle `u`. -/
structure Serves (p : Params) (card : Card) (mem : BitVec 9 → Byte) (call : ℕ → Call) (t u : ℕ)
    (r : Request) : Prop where
  later : t + 1 < u
  owes : ∀ w, t < w → w < u → ledger p card mem call w =
    { disk := (ledger p card mem call t).disk, owed := some r }
  silent : ∀ w, t < w → w < u → (Stack.run p card mem call w).rsp.done = false
  done : (Stack.run p card mem call u).rsp.done = true
  err : (Stack.run p card mem call u).rsp.err = r.fails
  delivered : r.we = false → r.fails = false →
    (Stack.run p card mem call u).mem = (ledger p card mem call t).disk r.lba

/-- A stretch of cycles: one in which nothing is asked, or a whole request. -/
def Stretch (p : Params) (card : Card) (mem : BitVec 9 → Byte) (call : ℕ → Call) (t u : ℕ) : Prop :=
  (u = t + 1 ∧ (Stack.run p card mem call u).rsp.done = false) ∨
    ∃ r, Serves p card mem call t u r

theorem Begins.between (begins : Begins p card mem call t)
    (asks : ∀ t, (call t).start = true → (Stack.run p card mem call t).rsp.ready = true) :
    (∀ u ≤ t, ledger p card mem call u = { disk := card.block }) ∧
      Between p card mem call t (card.up false false 0) := by
  have unwritten : ∀ u ≤ t, ledger p card mem call u = { disk := card.block } := by
    intro u inside
    induction u with
    | zero => rfl
    | succ u ih =>
        have none : (call u).start = false := by
          by_contra start
          have ready := asks u (by simpa using start)
          simp [begins.early u (by omega)] at ready
        rw [ledger, ih (by omega), begins.silent _ inside, Ledger.accept, none]
        rfl
  refine ⟨unwritten, by rw [unwritten t (Nat.le_refl t)], ⟨⟨rfl, rfl, rfl⟩, rfl, rfl, rfl, rfl⟩, ?_,
    begins.rest⟩
  rw [unwritten t (Nat.le_refl t)]
  rfl

variable {k : Card}

theorem Between.count (between : Between p card mem call t k) :
    (Stack.run p card mem call t).rsp.count = card.blocks := by
  obtain ⟨v, ready, here⟩ := between.rest
  have up : (Stack.run p card mem call t).dev.blk.cardReady = true :=
    (congrArg Blk.cardReady here.blk :).trans ready.up
  have csd : (Stack.run p card mem call t).dev.blk.csd = v.blk.csd :=
    (congrArg Blk.csd here.blk :)
  have same : (Stack.run p card mem call t).dev.blk.blocks = v.blk.blocks := by
    rw [Blk.blocks, Blk.blocks, csd]
  simp only [Stack.rsp, Blk.rsp, up, if_true]
  exact same.trans (ready.count.trans between.idles.blocks)

theorem Between.stored (between : Between p card mem call t k) :
    (Stack.run p card mem call t).slot.card.block = (ledger p card mem call t).disk := by
  obtain ⟨v, ready, here⟩ := between.rest
  rw [here.block, ready.card, between.block]

/-- A cycle in which nothing is asked. -/
theorem Between.stays (between : Between p card mem call t k) (none : (call t).start = false) :
    Between p card mem call (t + 1) k ∧ (Stack.run p card mem call (t + 1)).rsp.done = false := by
  obtain ⟨v, ready, here⟩ := between.rest
  obtain ⟨rest, done⟩ := ready.stays here none
  have done : (Stack.run p card mem call (t + 1)).rsp.done = false := done
  have same : ledger p card mem call (t + 1) = ledger p card mem call t := by
    rw [ledger, done, Ledger.accept, none]
    rfl
  exact ⟨⟨by rw [same, between.owed], between.idles, by rw [same, between.block], rest⟩, done⟩

/-- Until the answer a request is owed. -/
theorem Orderly.owes (orderly : Orderly p card mem call) (asked : (call t).start = true) {u : ℕ}
    (low : t < u)
    (silent : ∀ w, t < w → w ≤ u → (Stack.run p card mem call w).rsp.done = false) :
    ledger p card mem call u = {
      disk := (ledger p card mem call t).disk
      owed := some ((call t).request (Stack.run p card mem call t).mem) } := by
  induction u, low using Nat.le_induction with
  | base =>
      rw [ledger, silent _ (Nat.lt_succ_self t) (Nat.le_refl _), Ledger.accept, if_pos asked]
      rfl
  | succ u low ih =>
      have before := ih fun w above below => silent w above (by omega)
      have none : (call u).start = false := by
        by_contra start
        have free := (orderly.asks u (by simpa using start)).2.1
        simp [before] at free
      rw [ledger, silent _ (by omega) (Nat.le_refl _), Ledger.accept, none, before]
      rfl

/-- A request, and the answer. -/
theorem Between.serves (between : Between p card mem call t k) (suited : Suited p card)
    (orderly : Orderly p card mem call) (asked : (call t).start = true) :
    ∃ u r, Serves p card mem call t u r ∧ Between p card mem call u (k.served r) := by
  set r := (call t).request (Stack.run p card mem call t).mem with made
  have inside : r.lba < k.blocks := by
    rw [between.idles.blocks, ← between.count]
    exact (orderly.asks t asked).2.2
  have owes (u : ℕ) (low : t < u)
      (silent : ∀ w, t < w → w ≤ u → (Stack.run p card mem call w).rsp.done = false) :
      ledger p card mem call u = { disk := (ledger p card mem call t).disk, owed := some r } :=
    orderly.owes asked low silent
  obtain ⟨u, later, silent, rest, done, err, delivered⟩ := request_answered suited between.idles
    between.rest asked made inside fun u low quiet => by
      have owed := owes u low quiet
      have waits := orderly.waits u r (by rw [owed]; rfl)
      refine ⟨?_, fun g given => Option.some.inj given ▸ waits⟩
      by_contra start
      have free := (orderly.asks u (by simpa using start)).2.1
      simp [owed] at free
  obtain ⟨w, rfl⟩ : ∃ w, u = w + 1 := ⟨u - 1, by omega⟩
  have owed := owes w (by omega) fun x low high => silent x low (by omega)
  have none : (call w).start = false := by
    by_contra start
    have free := (orderly.asks w (by simpa using start)).2.1
    simp [owed] at free
  have settled : ledger p card mem call (w + 1) =
      { disk := r.result (ledger p card mem call t).disk } := by
    rw [ledger, done, Ledger.accept, none, owed]
    rfl
  refine ⟨w + 1, r, ⟨later, fun x low high => owes x low fun y low' high' => silent y low' (by omega),
    silent, done, err, fun read good => ?_⟩, by rw [settled], between.idles.served r, ?_, rest⟩
  · rw [delivered read good, between.block]
  · rw [settled, Card.served_block, between.block]

theorem Between.advance (between : Between p card mem call t k) (suited : Suited p card)
    (orderly : Orderly p card mem call) :
    ∃ u, t < u ∧ (∃ k', Between p card mem call u k') ∧ Stretch p card mem call t u := by
  cases start : (call t).start with
  | false =>
      obtain ⟨after, done⟩ := between.stays start
      exact ⟨t + 1, Nat.lt_succ_self t, ⟨k, after⟩, .inl ⟨rfl, done⟩⟩
  | true =>
      obtain ⟨u, r, serves, after⟩ := between.serves suited orderly start
      have later := serves.later
      exact ⟨u, by omega, ⟨_, after⟩, .inr ⟨r, serves⟩⟩

/-- A cycle in which a request is owed is within its stretch. -/
theorem serves_of_owed {a b : ℕ} {r : Request} (between : ∃ k, Between p card mem call a k)
    (stretch : Stretch p card mem call a b) (low : a ≤ t) (high : t < b)
    (owed : r ∈ (ledger p card mem call t).owed) :
    a < t ∧ Serves p card mem call a b r := by
  obtain ⟨k, between⟩ := between
  have apart : a ≠ t := by
    rintro rfl
    rw [between.owed] at owed
    exact absurd owed (by simp)
  rcases stretch with ⟨rfl, -⟩ | ⟨r', serves⟩
  · omega
  · refine ⟨by omega, ?_⟩
    rw [serves.owes t (by omega) high] at owed
    obtain rfl : r' = r := Option.some.inj owed
    exact serves

end Proof

/-! ## Any request may come next -/

section Script

variable {p : Params} {card : Card} {mem : BitVec 9 → Byte} {call : ℕ → Call} {b t : ℕ} {i : Call}

/-- The owner does as before until cycle `b`, asks then, and never again. -/
def thenAsk (call : ℕ → Call) (b : ℕ) (i : Call) (t : ℕ) : Call :=
  if t < b then call t else { i with start := decide (t = b), fill := none }

theorem thenAsk_early (early : t < b) : thenAsk call b i t = call t :=
  if_pos early

theorem thenAsk_late (late : b ≤ t) :
    thenAsk call b i t = { i with start := decide (t = b), fill := none } :=
  if_neg (by omega)

theorem run_thenAsk (inside : t ≤ b) :
    Stack.run p card mem (thenAsk call b i) t = Stack.run p card mem call t :=
  Clocked.run_congr (n := b) (fun _ below _ => thenAsk_early below) inside

theorem ledger_thenAsk (inside : t ≤ b) :
    ledger p card mem (thenAsk call b i) t = ledger p card mem call t := by
  induction t with
  | zero => rfl
  | succ t ih =>
      rw [ledger, ledger, ih (by omega), thenAsk_early (by omega), run_thenAsk (by omega),
        run_thenAsk inside]

/-- The sequencer has nothing to do. -/
structure Free (p : Params) (card : Card) (mem : BitVec 9 → Byte) (call : ℕ → Call) (b : ℕ) : Prop
    where
  ready : (Stack.run p card mem call b).rsp.ready = true
  owed : (ledger p card mem call b).owed = none

theorem Ledger.owed_of_settle {l : Ledger} {done : Bool} {r : Request}
    (owed : r ∈ (l.settle done).owed) : r ∈ l.owed := by
  obtain ⟨disk, owes⟩ := l
  cases done <;> cases owes <;> simp_all [Ledger.settle]

/-- A request that is owed has been made. -/
theorem made_of_owed {r : Request} (owed : r ∈ (ledger p card mem call t).owed) :
    ∃ u < t, (call u).start = true ∧ r = (call u).request (Stack.run p card mem call u).mem := by
  induction t with
  | zero => exact absurd owed (by simp [ledger])
  | succ t ih =>
      have accepted : r ∈ ((ledger p card mem call t).accept (call t)
          (Stack.run p card mem call t).mem).owed :=
        Ledger.owed_of_settle owed
      rw [Ledger.accept] at accepted
      split_ifs at accepted with start
      · exact ⟨t, Nat.lt_succ_self t, start, (Option.some.inj accepted).symm⟩
      · obtain ⟨u, early, made⟩ := ih accepted
        exact ⟨u, by omega, made⟩

/-- Nobody asks, and nothing is owed. -/
theorem owed_of_unasked (unasked : ∀ t, (call t).start = false) (t : ℕ) :
    (ledger p card mem call t).owed = none := by
  refine Option.eq_none_iff_forall_not_mem.mpr fun r owed => ?_
  obtain ⟨u, -, start, -⟩ := made_of_owed owed
  simp [unasked u] at start

theorem orderly_of_unasked (unasked : ∀ t, (call t).start = false) : Orderly p card mem call := by
  refine ⟨fun t start => ?_, fun t r owed => ?_⟩
  · simp [unasked t] at start
  · simp [owed_of_unasked unasked t] at owed

theorem Orderly.thenAsk (orderly : Orderly p card mem call) (free : Free p card mem call b)
    (inside : i.lba < (Stack.run p card mem call b).rsp.count) :
    Orderly p card mem (thenAsk call b i) := by
  -- what is owed from then on is this request
  have faults (t : ℕ) (late : b ≤ t) :
      ∀ r ∈ (ledger p card mem (Sd.thenAsk call b i) t).owed, i.faults = r.faults := by
    induction t, late using Nat.le_induction with
    | base =>
        intro r owed
        rw [ledger_thenAsk (Nat.le_refl b), free.owed] at owed
        exact absurd owed (by simp)
    | succ t late ih =>
        intro r owed
        have before := Ledger.owed_of_settle owed
        rw [Ledger.accept, thenAsk_late late] at before
        split_ifs at before with start
        · obtain rfl := Option.some.inj before
          rfl
        · exact ih r before
  refine ⟨fun t start => ?_, fun t r owed => ?_⟩
  · rcases Nat.lt_or_ge t b with early | late
    · rw [thenAsk_early early] at start ⊢
      rw [run_thenAsk (Nat.le_of_lt early), ledger_thenAsk (Nat.le_of_lt early)]
      exact orderly.asks t start
    · rw [thenAsk_late late] at start ⊢
      obtain rfl : t = b := by simpa using start
      rw [run_thenAsk (Nat.le_refl t), ledger_thenAsk (Nat.le_refl t)]
      exact ⟨free.ready, free.owed, inside⟩
  · rcases Nat.lt_or_ge t b with early | late
    · rw [thenAsk_early early]
      rw [ledger_thenAsk (Nat.le_of_lt early)] at owed
      exact orderly.waits t r owed
    · rw [thenAsk_late late]
      exact ⟨rfl, faults t late r owed⟩

theorem Free.thenAsk (free : Free p card mem call b) (i : Call) :
    Free p card mem (thenAsk call b i) b := by
  refine ⟨?_, ?_⟩
  · rw [run_thenAsk (Nat.le_refl b)]
    exact free.ready
  · rw [ledger_thenAsk (Nat.le_refl b)]
    exact free.owed

theorem Between.thenAsk {k : Card} (between : Between p card mem call b k) (i : Call) :
    Between p card mem (thenAsk call b i) b k := by
  have same : ledger p card mem (Sd.thenAsk call b i) b = ledger p card mem call b :=
    ledger_thenAsk (Nat.le_refl b)
  refine ⟨by rw [same, between.owed], between.idles, by rw [same, between.block], ?_⟩
  rw [run_thenAsk (Nat.le_refl b)]
  exact between.rest

theorem Between.free {k : Card} (between : Between p card mem call b k) :
    Free p card mem call b := by
  obtain ⟨v, ready, here⟩ := between.rest
  exact ⟨(congrArg Blk.cardReady here.blk :).trans ready.up, between.owed⟩

/-- Once the request is answered, the sequencer is free again. -/
theorem ActsAsArray.free (acts : ActsAsArray p card mem call) (free : Free p card mem call b) :
    ∃ c, b < c ∧ Free p card mem call c := by
  have ready {c : ℕ} (later : b ≤ c) := ready_mono later free.ready
  cases owed : (ledger p card mem call (b + 1)).owed with
  | none => exact ⟨b + 1, Nat.lt_succ_self b, ready (by omega), owed⟩
  | some r =>
      obtain ⟨c, later, done, owes⟩ := acts.answered (b + 1) r owed
      obtain ⟨d, rfl⟩ : ∃ d, c = d + 1 := ⟨c - 1, by omega⟩
      refine ⟨d + 1, by omega, ready (by omega), ?_⟩
      rw [ledger, done]
      cases last : ((ledger p card mem call d).accept (call d)
          (Stack.run p card mem call d).mem).owed with
      | none => simp [Ledger.settle, last]
      | some r' => simp [Ledger.settle, last]

end Script

/-! ## The array, from the RESET pin on -/

/-- For every clock of 20 kHz or faster, every card of a size its register can say, every delay of
its answers up to sixty-two bytes and every busy time of less than 499 ms. -/
theorem acts_as_array (p : Params) (card : Card) (mem : BitVec 9 → Byte) (call : ℕ → Call)
    (suited : Suited p card) (fresh : card.Fresh) (orderly : Orderly p card mem call) :
    ActsAsArray p card mem call := by
  have asks (t : ℕ) (start : (call t).start = true) := (orderly.asks t start).1
  obtain ⟨a, begins⟩ := exists_begins suited.toFits fresh asks
  obtain ⟨unwritten, first⟩ := begins.between asks
  have ready (t : ℕ) : (Stack.run p card mem call t).rsp.ready = true ↔ a ≤ t := by
    constructor
    · intro up
      by_contra early
      rw [begins.early t (by omega)] at up
      exact Bool.false_ne_true up
    · intro later
      obtain ⟨v, rest, here⟩ := begins.rest
      exact ready_mono later ((congrArg Blk.cardReady here.blk :).trans rest.up)
  have within {t : ℕ} (later : a ≤ t) := Clocked.exists_stretch
    (P := fun t => ∃ k, Between p card mem call t k) (C := Stretch p card mem call) ⟨_, first⟩
    (fun t ⟨k, between⟩ => between.advance suited orderly) later
  have begun {t : ℕ} {r : Request} (owed : r ∈ (ledger p card mem call t).owed) : a ≤ t := by
    by_contra early
    rw [unwritten t (by omega)] at owed
    exact absurd owed (by simp)
  constructor
  · exact ⟨a, ready⟩
  · intro t up
    rw [count_kept ((ready t).mp up) ((ready a).mpr (Nat.le_refl a)), first.count]
  · intro t r owed
    obtain ⟨x, y, low, high, between, stretch⟩ := within (begun owed)
    obtain ⟨inside, serves⟩ := serves_of_owed between stretch low high owed
    refine ⟨y, high, serves.done, fun v low' high' => ?_⟩
    rw [serves.owes v (by omega) high']
  · intro t done none
    have later : a ≤ t := by
      by_contra early
      rw [begins.silent (t + 1) (by omega)] at done
      exact Bool.false_ne_true done
    obtain ⟨x, y, low, high, between, stretch⟩ := within later
    rcases stretch with ⟨rfl, silent⟩ | ⟨r, serves⟩
    · obtain rfl : x = t := by omega
      rw [silent] at done
      exact Bool.false_ne_true done
    · rcases Nat.eq_or_lt_of_le low with rfl | inside
      · rw [serves.silent _ (Nat.lt_succ_self x) serves.later] at done
        exact Bool.false_ne_true done
      · rw [serves.owes t inside high] at none
        exact absurd none (by simp)
  · intro t r owed done
    obtain ⟨x, y, low, high, between, stretch⟩ := within (begun owed)
    obtain ⟨inside, serves⟩ := serves_of_owed between stretch low high owed
    obtain rfl : y = t + 1 := by
      by_contra other
      rw [serves.silent (t + 1) (by omega) (by omega)] at done
      exact Bool.false_ne_true done
    rw [serves.owes t inside high]
    exact ⟨serves.err, serves.delivered⟩
  · intro t up none
    obtain ⟨x, y, low, high, ⟨k, between⟩, stretch⟩ := within ((ready t).mp up)
    rcases Nat.eq_or_lt_of_le low with rfl | inside
    · exact between.stored
    · rcases stretch with ⟨rfl, -⟩ | ⟨r, serves⟩
      · omega
      · rw [serves.owes t inside high] at none
        exact absurd none (by simp)

/-! ## A card of half a megabyte -/

def smallCard : Card where
  media := fun n => BitVec.ofNat 8 n
  blocks := 1024

theorem smallCard_suited : Suited {} smallCard := by
  refine ⟨⟨by decide, by decide, ?_, by decide⟩, by decide +kernel⟩
  simp [Card.Sized, smallCard]

theorem smallCard_fresh : smallCard.Fresh :=
  ⟨rfl, rfl, rfl, rfl⟩

/-- Block five is written. -/
def writeFive : Call where
  start := true
  we := true
  lba := 5

/-- Block five is read. -/
def readFive : Call where
  start := true
  lba := 5

/-- A write, a read, and a read that meets a fault. -/
theorem three_requests_served : ∃ call a b c, a < b ∧ b < c ∧ call a = writeFive ∧
    call b = readFive ∧ call c = { readFive with faults := { failRead := some 5 } } ∧
    ActsAsArray {} smallCard (fun _ => 0x5a) call := by
  have acts {call : ℕ → Call} (orderly : Orderly {} smallCard (fun _ => 0x5a) call) :=
    acts_as_array {} smallCard (fun _ => 0x5a) call smallCard_suited smallCard_fresh orderly
  -- block five may be asked for whenever the sequencer is free, and then it is free again
  have more {call : ℕ → Call} {t : ℕ} (orderly : Orderly {} smallCard (fun _ => 0x5a) call)
      (free : Free {} smallCard (fun _ => 0x5a) call t) (i : Call) (five : i.lba = 5) :
      Orderly {} smallCard (fun _ => 0x5a) (thenAsk call t i) ∧
        ∃ u, t < u ∧ Free {} smallCard (fun _ => 0x5a) (thenAsk call t i) u := by
    have inside : i.lba < (Stack.run {} smallCard (fun _ => 0x5a) call t).rsp.count := by
      rw [(acts orderly).count t free.ready, five]
      decide
    have next := orderly.thenAsk free inside
    exact ⟨next, (acts next).free (free.thenAsk i)⟩
  have idle : Orderly {} smallCard (fun _ => 0x5a) fun _ => {} :=
    orderly_of_unasked fun _ => rfl
  obtain ⟨a, ready⟩ := (acts idle).ready
  obtain ⟨first, b, ab, free⟩ :=
    more idle ⟨(ready a).mpr (Nat.le_refl a), owed_of_unasked (fun _ => rfl) a⟩ writeFive rfl
  obtain ⟨second, c, bc, free⟩ := more first free readFive rfl
  obtain ⟨third, -⟩ := more second free { readFive with faults := { failRead := some 5 } } rfl
  refine ⟨_, a, b, c, ab, bc, ?_, ?_, ?_, acts third⟩
  · rw [thenAsk_early (by omega), thenAsk_early ab, thenAsk_late (Nat.le_refl a)]
    simp [writeFive]
  · rw [thenAsk_early bc, thenAsk_late (Nat.le_refl b)]
    simp [readFive]
  · rw [thenAsk_late (Nat.le_refl c)]
    simp [readFive]

/-! ## Two cards that are too slow -/

section Slow

variable {p : Params} {card : Card} {mem : BitVec 9 → Byte} {call : ℕ → Call} {b : ℕ} {k : Card}

/-- From the request of a write to the wait. -/
def Params.writeTime (p : Params) (card : Card) : ℕ :=
  (card.ncr + 8) * p.fastLap + 2 + 518 * p.fastLap

/-- The wait of a write begins at a fixed time after the request. -/
theorem Between.busy (between : Between p card mem call b k) (fits : Fits p card)
    (orderly : Orderly p card mem call) (start : (call b).start = true) (we : (call b).we = true)
    (hush : ∀ t, b < t → Hush (some (call b).faults) (call t)) :
    Seen p (some (call b).faults) (Busy p (call b).faults k (call b).lba
        (Stack.filled (Stack.run p card mem call b).mem (call b).fill))
      (Stack.run p card mem call (b + 1 + p.writeTime card)) ∧
      ∀ u, b < u → u ≤ b + 1 + p.writeTime card → (Stack.run p card mem call u).rsp.done = false := by
  have quick : p.fastLap ≤ p.ticks :=
    Params.byteTime_le_ticks fits.period fits.high (by decide) (by decide)
  have inside : (call b).lba < k.blocks := by
    rw [between.idles.blocks, ← between.count]
    exact (orderly.asks b start).2.2
  have sized : k.Sized := by
    have size := fits.sized
    rwa [Card.Sized, ← between.idles.hc, ← between.idles.blocks] at size
  obtain ⟨v, ready, here⟩ := between.rest
  obtain ⟨⟨w, there, serving, queue, err, arg⟩, first⟩ := ready.takes here start (call b).faults
  rw [if_pos we] at serving
  have addressed : k.lbaOf w.blk.cmdArg = (call b).lba := by
    rw [arg]
    exact lbaOf_argument sized inside
  have short : k.ncr ≤ 62 := between.idles.ncr ▸ fits.short
  obtain ⟨busy, passed⟩ := leads_taken serving quick queue err between.idles.waits short addressed
    inside _ there (fun n => call (b + 1 + n)) fun n _ => hush (b + 1 + n) (by omega)
  rw [between.idles.ncr] at busy passed
  have later (n : ℕ) : Stack.run p card mem call (b + 1 + n) =
      Clocked.run (Stack.next p) ((Stack.run p card mem call b).next p (call b))
        (fun n => call (b + 1 + n)) n :=
    Clocked.run_add _ _ _ _ _
  refine ⟨?_, fun u low high => ?_⟩
  · rw [later]
    exact busy
  · obtain ⟨n, rfl⟩ : ∃ n, u = b + 1 + n := ⟨u - (b + 1), by omega⟩
    rcases Nat.eq_zero_or_pos n with rfl | positive
    · exact first
    · rw [later]
      exact passed n positive (by unfold Params.writeTime at high; omega)

/-- If the wait begins just after the end of a millisecond, the timer shows 500 while the card is
still busy with the last of its bytes, and the write has failed. -/
theorem Between.overdue (between : Between p card mem call b k) (fits : Fits p card)
    (orderly : Orderly p card mem call) (start : (call b).start = true) (we : (call b).we = true)
    (hush : ∀ t, b < t → Hush (some (call b).faults) (call t)) {e n : ℕ}
    (phase : (b + 1 + p.writeTime card) % p.ticks = e) (young : p.fastLap < e)
    (size : card.busyBytes = n + 1) (late : 500 * p.ticks ≤ e + n * p.fastLap)
    (prompt : e + n * p.fastLap < 500 * p.ticks + p.fastLap)
    (running : (e + n * p.fastLap) % p.ticks ≠ 0) :
    ∃ u, b < u ∧ (∀ w, b < w → w ≤ u → (Stack.run p card mem call w).rsp.done = false) ∧
      (Stack.run p card mem call (u + 1)).rsp.done = true ∧
      (Stack.run p card mem call (u + 1)).rsp.err = true := by
  obtain ⟨⟨v, busy, here⟩, silent⟩ := between.busy fits orderly start we hush
  obtain ⟨c, begun⟩ : ∃ c, c = b + 1 + p.writeTime card := ⟨_, rfl⟩
  rw [← begun] at here silent phase
  have lap := busy.serving.lap
  have count (t : ℕ) : (Stack.run p card mem call t).dev.blk.tickCnt = t % p.ticks := by
    rw [Stack.run_dev]
    exact Dev.tickCnt_run _ t
  have ranged (t : ℕ) : Ranged p (Stack.run p card mem call t).dev.blk := by
    rw [Stack.run_dev]
    exact (Dev.paced_run fits.period fits.high _ t).ranged
  -- the timer at the beginning of the wait
  have age : (Stack.run p card mem call c).dev.blk.elapsed p = e := by
    have most := Nat.le_trans here.aged.elapsed busy.serving.age
    have shown := (ranged c).elapsed_mod
    rw [count, phase] at shown
    have split := Nat.mod_add_div ((Stack.run p card mem call c).dev.blk.elapsed p) p.ticks
    rw [shown] at split
    rcases Nat.eq_zero_or_pos ((Stack.run p card mem call c).dev.blk.elapsed p / p.ticks) with
      none | more
    · rw [none, Nat.mul_zero, Nat.add_zero] at split
      exact split.symm
    · have far := Nat.le_mul_of_pos_right p.ticks more
      omega
  have bytes : v.rx :: v.queue = List.replicate n 0x00 ++ [0x00, 0xff] := by
    rw [busy.bytes, between.idles.busyBytes, size, List.replicate_succ', List.append_assoc]
    rfl
  have zero (j : ℕ) (inside : j ≤ n) : v.byte j = 0x00 := by
    rw [View.byte, busy.bytes, between.idles.busyBytes, size, List.getD_eq_getElem?_getD,
      List.getElem?_append_left (by simp; omega)]
    simp [Nat.lt_succ_of_le inside]
  have now := here.now
  rw [age] at now
  -- the polls until then
  have later (i : ℕ) : Stack.run p card mem call (c + i) =
      Clocked.run (Stack.next p) (Stack.run p card mem call c) (fun i => call (c + i)) i :=
    Clocked.run_add _ _ _ _ _
  have polls := leads_polled (v := { v with age := e }) (n := n) (f := (call b).faults)
    busy.serving.st busy.cs busy.serving.narrow (busy.listens between.idles.waits)
    (fun j below => zero j (Nat.le_of_lt below)) (by rw [lap]; exact prompt)
  obtain ⟨last, passed⟩ := polls _ now (fun i => call (c + i)) fun i _ => hush (c + i) (by omega)
  rw [lap] at last passed
  rw [← later] at last
  obtain ⟨d, ended⟩ : ∃ d, d = c + n * p.fastLap := ⟨_, rfl⟩
  rw [← ended] at last
  -- the timer then
  have still : (Stack.run p card mem call d).dev.blk.st = .wrBusy :=
    (congrArg Blk.st last.blk :).trans busy.serving.st
  have first : (Stack.run p card mem call c).dev.blk.st = .wrBusy :=
    (congrArg Blk.st here.blk :).trans busy.serving.st
  rw [Stack.run_dev] at still first
  have timed := Dev.elapsed_busy fits.period fits.high (show c ≤ d by omega) first still
    fun u low _ => (hush u (by omega)).1
  rw [← Stack.run_dev, ← Stack.run_dev, age, show d - c = n * p.fastLap by omega] at timed
  have quick : p.fastLap ≤ p.ticks :=
    Params.byteTime_le_ticks fits.period fits.high (by decide) (by decide)
  rw [Nat.mod_eq_of_lt (show e + n * p.fastLap < 2 ^ 16 * p.ticks by omega)] at timed
  have far : 500 * p.ticks ≤ (Stack.run p card mem call d).dev.blk.elapsed p := by
    have less := Nat.mod_le ((Stack.run p card mem call d).dev.blk.elapsed p) (2 ^ 16 * p.ticks)
    omega
  have within : (Stack.run p card mem call d).dev.blk.tickCnt ≠ 0 := by
    rw [count, ended, ← Nat.mod_add_mod, phase]
    exact running
  obtain ⟨quiet, done, err⟩ := last.times_out busy.serving.st (zero n (Nat.le_refl n))
    ((ranged d).ms_of_running within far) ((hush d (by omega)).2 _ rfl) (call (d + 1))
  refine ⟨d + 1, by omega, fun w low high => ?_, done, err⟩
  rcases Nat.lt_or_ge c w with after | before
  · rcases Nat.eq_or_lt_of_le high with rfl | sooner
    · exact quiet
    · obtain ⟨i, rfl⟩ : ∃ i, w = c + i := ⟨w - c, by omega⟩
      rw [later]
      exact passed i (by omega) (by omega)
  · exact silent w low before

end Slow

/-- Busy for 499.99982 ms. -/
def slowCard : Card :=
  { smallCard with busyBytes := 1315789 }

theorem slowCard_fits : Fits {} slowCard :=
  ⟨by decide, by decide, by simp [Card.Sized, slowCard, smallCard], by decide⟩

theorem slowCard_fresh : slowCard.Fresh :=
  ⟨rfl, rfl, rfl, rfl⟩

/-- A write without a fault ends in an error. -/
theorem write_times_out : ∃ call, Orderly {} slowCard (fun _ => 0) call ∧
    ¬ ActsAsArray {} slowCard (fun _ => 0) call := by
  obtain ⟨a, begins⟩ : ∃ a, Begins {} slowCard (fun _ => 0) (fun _ => {}) a :=
    exists_begins slowCard_fits slowCard_fresh fun _ start => absurd start (by decide)
  obtain ⟨-, first⟩ := begins.between fun _ start => absurd start (by decide)
  -- the request is made so that its wait begins thirty cycles after the end of a millisecond
  have rests (t : ℕ) (later : a ≤ t) :
      Between {} slowCard (fun _ => 0) (fun _ => {}) t (slowCard.up false false 0) := by
    induction t, later using Nat.le_induction with
    | base => exact first
    | succ t later ih => exact (ih.stays rfl).1
  obtain ⟨b, chosen⟩ : ∃ b, b = 50000 * a + 39995 := ⟨_, rfl⟩
  have between := rests b (by omega)
  have orderly := (orderly_of_unasked fun _ => rfl).thenAsk (i := writeFive) between.free
    (by rw [between.count]; decide)
  have asks : thenAsk (fun _ => {}) b writeFive b = writeFive := by
    rw [thenAsk_late (Nat.le_refl b)]
    simp [writeFive]
  have hush (t : ℕ) (later : b < t) : Hush (some (thenAsk (fun _ => {}) b writeFive b).faults)
      (thenAsk (fun _ => {}) b writeFive t) := by
    rw [asks, thenAsk_late (Nat.le_of_lt later)]
    simp [Hush, writeFive, Nat.ne_of_gt later]
  have phase : (b + 1 + Params.writeTime {} slowCard) % Params.ticks {} = 30 := by
    have time : Params.writeTime {} slowCard = 10034 := by decide
    have ticks : Params.ticks {} = 50000 := by decide
    rw [time, ticks, chosen]
    omega
  refine ⟨_, orderly, fun acts => ?_⟩
  obtain ⟨u, later, silent, done, err⟩ := (between.thenAsk writeFive).overdue slowCard_fits orderly
    (by rw [asks]; rfl) (by rw [asks]; rfl) hush phase (by decide) (n := 1315788) rfl (by decide)
    (by decide) (by decide)
  have owed := orderly.owes (by rw [asks]; rfl) later silent
  have outcome := (acts.outcome u _ (by rw [owed]; rfl) done).1
  rw [err, asks] at outcome
  exact Bool.false_ne_true outcome.symm

/-- A clock of 1 kHz: a millisecond is one cycle. -/
def Params.crawl : Params where
  clkPeriodPs := 1000000000

set_option maxRecDepth 10000 in
/-- The sequencer gives up on a card before it has told it three times to start. -/
theorem gives_up :
    (Stack.run .crawl smallCard (fun _ => 0) (fun _ => {}) 1815).dev.blk.st = .dead := by
  decide +kernel

theorem never_ready : ¬ ActsAsArray .crawl smallCard (fun _ => 0) fun _ => {} := by
  intro acts
  obtain ⟨t, ready⟩ := acts.ready
  have up := (ready (max t 1815)).mpr (Nat.le_max_left t 1815)
  have given := gives_up
  rw [Stack.run_dev] at given
  have unready := Dev.unready_of_dead (Dev.dead_run (Nat.le_max_right t 1815) given)
  rw [← Stack.run_dev] at unready
  exact Bool.false_ne_true (unready.symm.trans up)

/-- Neither a busy time of less than 500 ms nor any clock will do. -/
theorem too_slow_for_array :
    (slowCard.Sized ∧ slowCard.Fresh ∧ slowCard.ncr ≤ 62 ∧
      slowCard.busyBytes * Params.fastLap {} < 500 * Params.ticks {} ∧
      ∃ call, Orderly {} slowCard (fun _ => 0) call ∧ ¬ ActsAsArray {} slowCard (fun _ => 0) call) ∧
    smallCard.Sized ∧ smallCard.Fresh ∧ smallCard.ncr ≤ 62 ∧
      smallCard.busyBytes * Params.fastLap .crawl < 500 * Params.ticks .crawl ∧
      Orderly .crawl smallCard (fun _ => 0) (fun _ => {}) ∧
      ¬ ActsAsArray .crawl smallCard (fun _ => 0) fun _ => {} := by
  have busy : slowCard.busyBytes * Params.fastLap {} < 500 * Params.ticks {} := by decide +kernel
  have prompt : smallCard.busyBytes * Params.fastLap .crawl < 500 * Params.ticks .crawl := by
    decide +kernel
  exact ⟨⟨slowCard_fits.sized, slowCard_fresh, slowCard_fits.short, busy, write_times_out⟩,
    smallCard_suited.sized, smallCard_fresh, smallCard_suited.short, prompt,
    orderly_of_unasked fun _ => rfl, never_ready⟩

end Wish5380.Sd
