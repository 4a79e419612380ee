import Wish5380.Crc.Errors
import Wish5380.Sd.Addressing
import Wish5380.Sd.Exchange
import Wish5380.Sd.Progress

/-!
# Errors on the way from the card

From the start token of a read on, the sequencer takes 514 bytes, whatever they are, and
answers.  The answer is without error only if they leave the check register empty, and a block
and its check do not once a few bits, an odd number of bits, or bits close to one another have
been turned over.
-/

namespace Wish5380.Sd

/-! ## Patterns -/

/-- The bytes as they arrive, with the bits of `flips` turned over. -/
def corrupted (bytes flips : List Byte) : List Byte :=
  List.zipWith (· ^^^ ·) bytes flips

theorem bits_xor (a b : Byte) : Crc.bits (a ^^^ b) = List.zipWith xor (Crc.bits a) (Crc.bits b) := by
  apply List.ext_getElem
  · simp
  · intro i _ _
    simp [Crc.bits]

theorem bits_corrupted {bytes flips : List Byte} (same : bytes.length = flips.length) :
    (corrupted bytes flips).flatMap Crc.bits =
      List.zipWith xor (bytes.flatMap Crc.bits) (flips.flatMap Crc.bits) := by
  induction bytes generalizing flips with
  | nil => rfl
  | cons a bytes ih =>
      cases flips with
      | nil => simp at same
      | cons b flips =>
          have rest : (corrupted bytes flips).flatMap Crc.bits = _ := ih (by simpa using same)
          rw [corrupted] at rest
          rw [corrupted, List.zipWith_cons_cons, List.flatMap_cons, rest, bits_xor, List.flatMap_cons,
            List.flatMap_cons, List.zipWith_append (by simp)]

theorem length_flips (flips : List Byte) : (flips.flatMap Crc.bits).length = 8 * flips.length := by
  induction flips with
  | nil => rfl
  | cons b flips ih =>
      rw [List.flatMap_cons, List.length_append, ih, Crc.length_bits, List.length_cons]
      omega

theorem crc16_corrupted {bytes flips : List Byte} (same : bytes.length = flips.length) :
    crc16 (corrupted bytes flips) = crc16 bytes ^^^ crc16 flips := by
  have lengths : (bytes.flatMap Crc.bits).length = (flips.flatMap Crc.bits).length := by
    rw [length_flips, length_flips, same]
  have linear := Crc.feed_xor (0x1021 : BitVec 16) 0 0 lengths
  rw [BitVec.xor_self] at linear
  rw [crc16, crc16, crc16, foldl_crc16Byte, foldl_crc16Byte, foldl_crc16Byte, bits_corrupted same]
  exact linear

/-- The patterns that are always caught: one, two or three bits, an odd number of bits, or bits
within sixteen places of one another. -/
def Catchable (flips : List Byte) : Prop :=
  let errors := flips.flatMap Crc.bits
  errors.count true = 1 ∨ errors.count true = 2 ∨ errors.count true = 3 ∨ Odd (errors.count true) ∨
    true ∈ errors ∧ ∃ i, ∀ j, errors[j]? = some true → i ≤ j ∧ j < i + 16

/-- The generator's order is larger than a block with its check is long. -/
theorem order_long :
    Crc.clearOf (0x1021 : BitVec 16) 0x8000 (Crc.bit 0x1021 0 true) 4111 = true := by
  decide +kernel

theorem root_one : (Crc.generator (0x1021 : BitVec 16)).eval 1 = 0 := by
  rw [generator_crc16]
  simp only [Polynomial.eval_add, Polynomial.eval_pow, Polynomial.eval_X, Polynomial.eval_one, one_pow]
  decide

theorem crc16_ne_zero_of_catchable {flips : List Byte} (full : flips.length = 514)
    (caught : Catchable flips) : crc16 flips ≠ 0 := by
  have long := length_flips flips
  rw [full] at long
  rw [crc16, foldl_crc16Byte]
  have odd (weight : Odd ((flips.flatMap Crc.bits).count true)) :
      Crc.feed (0x1021 : BitVec 16) 0 (flips.flatMap Crc.bits) ≠ 0 := by
    intro empty
    exact Nat.not_even_iff_odd.mpr weight (Crc.even_of_feed_eq_zero root_one empty)
  rcases caught with one | two | three | many | ⟨some, i, within⟩
  · exact odd (by rw [one]; decide)
  · exact Crc.pair_caught rfl (by decide) order_long (by omega) two
  · exact odd (by rw [three]; decide)
  · exact odd many
  · exact Crc.burst_caught rfl (by omega) within some

/-! ## From the token to the answer -/

/-- The bytes received in a stretch of history. -/
def received (log : List Event) : List Byte :=
  log.filterMap fun
    | .got v => some v
    | _ => none

theorem received_append (log more : List Event) :
    received (log ++ more) = received log ++ received more :=
  List.filterMap_append

/-- The bytes since the token: the last of them is still to be judged, until all are in. -/
def InBlock (b : Blk) (rx : Byte) (bytes : List Byte) : Prop :=
  match b.st with
  | .rdDat => ∃ data, bytes = data ++ [rx] ∧ data.length = b.bcnt ∧ b.bcnt ≤ 511 ∧
      b.crc16 = crc16 data
  | .rdCrc => ∃ data, bytes = data ++ [rx] ∧ data.length = 512 + b.bcnt ∧ b.bcnt ≤ 1 ∧
      b.crc16 = crc16 data
  | .finish => bytes.length = 514 ∧ (b.err = false → crc16 bytes = 0)
  | _ => False

/-- The same, until there is an answer. -/
def Judging (b : Blk) (rx : Byte) (log : List Event) : Prop :=
  (∃ e, .answer e ∈ log) ∨ InBlock b rx (received log)

section Visit

variable {p : Params} {b : Blk} {req : BlkReq} {rx : Byte} {ms : ℕ} {log : List Event}

theorem kept_of_answered {e : Bool} (answered : .answer e ∈ log) : Kept p Judging b req rx ms log := by
  unfold Kept
  split
  · exact fun got => .inl ⟨e, by simp [answered]⟩
  · exact .inl ⟨e, by simp [answered]⟩

theorem judging_rdDat (quiet : Quiet b) (st : b.st = .rdDat)
    (inside : InBlock b rx (received log)) : Kept p Judging b req rx ms log := by
  simp only [InBlock, st] at inside
  obtain ⟨data, bytes, length, low, check⟩ := inside
  have register : crc16Byte b.crc16 rx = crc16 (data ++ [rx]) := by rw [crc16_snoc, check]
  have more (got : Byte) : received (log ++ [Event.store (BitVec.ofNat 9 b.bcnt) rx, .start 0xff,
      .got got]) = data ++ [rx] ++ [got] := by
    rw [received_append, bytes]
    rfl
  rw [kept_rdDat quiet st]
  constructor
  · intro last got
    refine .inr ⟨data ++ [rx], more got, ?_, Nat.zero_le _, register⟩
    simp [length, last, Blk.send]
  · intro early got
    have next : (b.bcnt + 1) % 2 ^ 10 = b.bcnt + 1 := Nat.mod_eq_of_lt (by omega)
    refine .inr ?_
    simp only [InBlock, Blk.send, Blk.count, Blk.taken, st, next]
    exact ⟨data ++ [rx], more got, by simp [length], by omega, register⟩

theorem judging_rdCrc (quiet : Quiet b) (st : b.st = .rdCrc)
    (inside : InBlock b rx (received log)) : Kept p Judging b req rx ms log := by
  simp only [InBlock, st] at inside
  obtain ⟨data, bytes, length, low, check⟩ := inside
  have register : crc16Byte b.crc16 rx = crc16 (data ++ [rx]) := by rw [crc16_snoc, check]
  rw [kept_rdCrc quiet st]
  refine ⟨fun last clean => .inr ?_, fun last wrong => .inr ?_, fun early got => .inr ?_⟩
  · refine ⟨by simp [bytes, length, last], fun _ => ?_⟩
    rw [bytes, ← register]
    exact clean
  · exact ⟨by simp [bytes, length, last], fun good => by simp [Blk.fail] at good⟩
  · have first : b.bcnt = 0 := by omega
    simp only [InBlock, Blk.send, Blk.count, st, first]
    refine ⟨data ++ [rx], ?_, by simp [length, first], Nat.le_refl 1, register⟩
    rw [received_append, bytes]
    rfl

theorem judging_visit (quiet : Quiet b) (judging : Judging b rx log) :
    Kept p Judging b req rx ms log := by
  rcases judging with ⟨e, answered⟩ | inside
  · exact kept_of_answered answered
  · cases st : b.st
    case rdDat => exact judging_rdDat quiet st inside
    case rdCrc => exact judging_rdCrc quiet st inside
    case finish =>
      rw [kept_finish quiet st]
      exact .inl ⟨b.err, by simp⟩
    all_goals simp [InBlock, st] at inside

end Visit

namespace Dev

variable {p : Params} {input : ℕ → Input} {s t : ℕ}

/-- The start token of a read is taken in cycle `s`. -/
structure TokenTaken (p : Params) (input : ℕ → Input) (s : ℕ) : Prop where
  idle : (run p input s).idle = true
  st : (run p input s).blk.st = .rdTok
  token : (run p input s).spi.shRx = 0xfe

/-- What happens after it. -/
def since (p : Params) (input : ℕ → Input) (s t : ℕ) : List Event :=
  Clocked.trace (fun u => (run p input u).emit p (input u)) (s + 1) t

theorem story_since (taken : TokenTaken p input s) (later : s + 1 ≤ t) :
    Story Judging (run p input t) (since p input s t) := by
  induction t, later using Nat.le_induction with
  | base =>
      obtain ⟨moved, stopped, ended⟩ := next_of_idle (p := p) taken.idle (input s)
      have begun : (run p input (s + 1)).blk =
          { (run p input s).blk.tickMs p with
            bcnt := 0, crc16 := 0, bufAddr := 0, st := .rdDat }.send 0xff := by
        rw [run_succ, moved]
        simp [Blk.step, Blk.tickMs, taken.st, taken.token, Blk.stepRdTok]
      refine ⟨fun _ => ⟨stopped, ended⟩, fun on => ?_, fun _ rx => .inr ?_, fun off => ?_⟩
      · exact absurd on (by rw [run_succ, stopped]; decide)
      · rw [begun, since, Clocked.trace_self]
        exact ⟨[], rfl, rfl, Nat.zero_le _, rfl⟩
      · rw [begun] at off
        exact absurd off (by simp [Blk.send])
  | succ t later ih =>
      rw [run_succ, since, Clocked.trace_succ _ later]
      exact ih.next (fun _ _ _ judging => judging)
        (fun _ _ _ _ _ quiet judging => judging_visit quiet judging) (input t)

theorem done_of_answer {d : Dev} {i : Input} {e : Bool} (told : .answer e ∈ d.emit p i) :
    (d.next p i).blk.done = true := by
  cases idle : d.idle with
  | false => simp [emit, idle] at told
  | true =>
      obtain ⟨moved, -, ended⟩ := next_of_idle (p := p) idle i
      rw [moved]
      rw [emit, ended] at told
      simp only [idle, if_true, Blk.events, Blk.pulses, List.mem_append] at told
      cases done : ((d.blk.tickMs p).step p (d.req i) d.spi.shRx d.blk.ms).done with
      | true => rfl
      | false =>
          simp only [done] at told
          cases st : d.blk.st <;> simp [Blk.told, Blk.tickMs, st] at told
          all_goals split_ifs at told <;> simp at told

theorem silent_since (silent : ∀ u, s + 1 < u → u ≤ t → (run p input u).blk.done = false) (e : Bool) :
    .answer e ∉ since p input s t := by
  intro member
  obtain ⟨u, low, high, told⟩ := Clocked.mem_trace.mp member
  have done := done_of_answer told
  rw [← run_succ, silent (u + 1) (by omega) (by omega)] at done
  exact Bool.false_ne_true done

/-- As long as there is no answer, the block is being taken. -/
theorem inBlock_since (taken : TokenTaken p input s) (later : s + 1 ≤ t)
    (silent : ∀ u, s + 1 < u → u ≤ t → (run p input u).blk.done = false) :
    (∃ rx bytes, InBlock (run p input t).blk rx bytes) ∧
      ((run p input t).idle = true →
        InBlock (run p input t).blk (run p input t).spi.shRx (received (since p input s t))) := by
  have story := story_since taken later
  have unanswered := silent_since silent
  have rest (go : (run p input t).blk.go = false) (stopped : (run p input t).spi.run = false) :
      InBlock (run p input t).blk (run p input t).spi.shRx (received (since p input s t)) :=
    (story.rest go stopped).resolve_left fun ⟨e, member⟩ => unanswered e member
  constructor
  · by_cases busy : (run p input t).blk.go = true ∨ (run p input t).spi.run = true
    · refine ⟨0, _, (story.busy busy 0).resolve_left ?_⟩
      rintro ⟨e, member⟩
      exact unanswered e (by simpa using member)
    · simp only [not_or, Bool.not_eq_true] at busy
      exact ⟨_, _, rest busy.1 busy.2⟩
  · intro idle
    obtain ⟨go, stopped, -⟩ := idle_iff.mp idle
    exact rest go stopped

/-- The visits until the answer. -/
def blockLeft (b : Blk) : ℕ :=
  match b.st with
  | .rdDat => 515 - b.bcnt
  | .rdCrc => 3 - b.bcnt
  | _ => 1

/-- A visit brings the answer nearer, or gives it. -/
theorem blockLeft_step {b : Blk} {req : BlkReq} {rx other : Byte} {ms : ℕ} {bytes : List Byte}
    (inside : InBlock b other bytes) (silent : (b.step p req rx ms).done = false) :
    blockLeft (b.step p req rx ms) < blockLeft b := by
  cases st : b.st
  case rdDat =>
    simp only [InBlock, st] at inside
    obtain ⟨-, -, -, low, -⟩ := inside
    have small : (b.bcnt + 1) % 2 ^ 10 = b.bcnt + 1 := Nat.mod_eq_of_lt (by omega)
    by_cases last : b.bcnt = 511
    · simp [blockLeft, Blk.step, st, Blk.stepRdDat, last]
    · simp only [blockLeft, Blk.step, st, Blk.stepRdDat, last, if_false, Blk.send, Blk.count, small]
      omega
  case rdCrc =>
    simp only [InBlock, st] at inside
    obtain ⟨-, -, -, low, -⟩ := inside
    have small : (b.bcnt + 1) % 2 ^ 10 = b.bcnt + 1 := Nat.mod_eq_of_lt (by omega)
    by_cases last : b.bcnt = 1
    · by_cases clean : crc16Byte b.crc16 rx = 0#16 <;>
        simp [blockLeft, Blk.step, st, Blk.stepRdCrc, last, clean, Blk.fail]
    · simp only [blockLeft, Blk.step, st, Blk.stepRdCrc, last, if_false, Blk.send, Blk.count, small]
      omega
  case finish => simp [Blk.step, st] at silent
  all_goals simp [InBlock, st] at inside

def blockRank (d : Dev) : ℕ :=
  blockLeft d.blk * 2 ^ 21 + d.wait

theorem blockRank_next {d : Dev} {i : Input} {rx : Byte} {bytes : List Byte} (linked : Linked d)
    (inside : InBlock d.blk rx bytes) (silent : (d.next p i).blk.done = false) :
    blockRank (d.next p i) < blockRank d := by
  have after := (linked.next (p := p) i).wait_lt
  cases idle : d.idle with
  | false =>
      have left : blockLeft (d.next p i).blk = blockLeft d.blk := by
        rw [next_of_busy idle]
        rfl
      have nearer := (linked.busy_next (p := p) idle i).2
      rw [blockRank, blockRank, left]
      omega
  | true =>
      have moved := (next_of_idle (p := p) idle i).1
      have here : InBlock (d.blk.tickMs p) rx bytes := inside
      rw [moved] at silent
      have fewer : blockLeft (d.next p i).blk < blockLeft d.blk := by
        rw [moved]
        exact blockLeft_step here silent
      have visits := Nat.mul_le_mul_right (2 ^ 21) fewer
      rw [Nat.succ_mul] at visits
      unfold blockRank
      omega

/-- The read is answered. -/
theorem block_answered (taken : TokenTaken p input s) :
    ∃ t, s + 1 < t ∧ (run p input t).blk.done = true := by
  by_contra none
  push Not at none
  have silent : ∀ u, s + 1 < u → (run p input u).blk.done = false := by
    intro u later
    simpa using none u later
  have falls : ∀ t, s + 1 ≤ t → t < s + 1 + (blockRank (run p input (s + 1)) + 1) →
      blockRank (run p input (t + 1)) < blockRank (run p input t) := by
    intro t later _
    obtain ⟨rx, bytes, inside⟩ := (inBlock_since taken later fun u low _ => silent u low).1
    rw [run_succ]
    refine blockRank_next (linked_run p input t) inside ?_
    rw [← run_succ]
    exact silent (t + 1) (by omega)
  have down := @Clocked.rank_add_le (fun t => blockRank (run p input t)) _ _ falls
  omega

/-- Errors on the line are caught: whatever the clock and the waveform, if the bytes after the
start token of a read are a block and its check with the bits of a catchable pattern turned over,
the read is answered with an error. -/
theorem line_errors_caught (p : Params) (input : ℕ → Input) (s : ℕ) (taken : TokenTaken p input s)
    (data flips : List Byte) (full : data.length = 512) (pattern : flips.length = 514)
    (caught : Catchable flips)
    (arrives : ∀ t, s < t →
      let sent := data ++ [(crc16 data).extractLsb' 8 8, (crc16 data).extractLsb' 0 8]
      received (since p input s t) <+: corrupted sent flips ∨
        corrupted sent flips <+: received (since p input s t)) :
    ∃ t, s < t ∧ (run p input t).blk.done = true ∧ (run p input t).blk.err = true ∧
      ∀ u, s < u → u < t → (run p input u).blk.done = false := by
  obtain ⟨t, later, done, early⟩ := Clocked.exists_first (block_answered taken)
  have first : (run p input (s + 1)).blk.done = false := by
    have moved := (next_of_idle (p := p) taken.idle (input s)).1
    rw [run_succ, moved]
    simp [Blk.step, Blk.tickMs, taken.st, taken.token, Blk.stepRdTok, Blk.send]
  have silent : ∀ u, s < u → u < t → (run p input u).blk.done = false := by
    intro u low high
    rcases Nat.lt_or_ge (s + 1) u with after | same
    · simpa using early u after high
    · obtain rfl : u = s + 1 := by omega
      exact first
  obtain ⟨u, rfl⟩ : ∃ u, t = u + 1 := ⟨t - 1, by omega⟩
  refine ⟨u + 1, by omega, done, ?_, silent⟩
  have inside := inBlock_since taken (t := u) (by omega) fun v low high => silent v (by omega) (by omega)
  obtain ⟨idle, finish | ⟨dead, -⟩⟩ := done_next done
  · have judged := inside.2 idle
    simp only [InBlock, finish] at judged
    obtain ⟨length, clean⟩ := judged
    have kept : (run p input (u + 1)).blk.err = (run p input u).blk.err := by
      rw [run_succ, (next_of_idle idle (input u)).1]
      simp [Blk.step, Blk.tickMs, finish]
    have size : (corrupted (data ++ [(crc16 data).extractLsb' 8 8, (crc16 data).extractLsb' 0 8])
        flips).length = 514 := by
      simp [corrupted, full, pattern]
    have exact : received (since p input s u) = corrupted
        (data ++ [(crc16 data).extractLsb' 8 8, (crc16 data).extractLsb' 0 8]) flips := by
      rcases arrives u (by omega) with short | long
      · exact short.eq_of_length (length.trans size.symm)
      · exact (long.eq_of_length (size.trans length.symm)).symm
    rw [kept]
    by_contra good
    have zero := clean (by simpa using good)
    have right : crc16 (data ++ [(crc16 data).extractLsb' 8 8, (crc16 data).extractLsb' 0 8]) = 0 :=
      (crc16_residue_iff data _ _).mpr ⟨rfl, rfl⟩
    rw [exact, crc16_corrupted (by simp [full, pattern]), right] at zero
    refine crc16_ne_zero_of_catchable pattern caught ?_
    rwa [show (0 : BitVec 16) ^^^ crc16 flips = crc16 flips from BitVec.zero_xor] at zero
  · obtain ⟨rx, bytes, taking⟩ := inside.1
    simp [InBlock, dead] at taking

/-! ## A card pulled out -/

/-- The bits sampled so far are ones. -/
def Ones (s : Spi) : Prop :=
  s.run = true → ∀ i < 8, i < s.bitCnt + s.sclk.toNat → s.shRx.getLsbD i = true

theorem ones_next {s : Spi} {miso : Bool} (ones : Ones s) (high : miso = true) (div : ℕ) (go : Bool)
    (tx : Byte) :
    Ones (s.next div go tx miso) ∧
      ((s.next div go tx miso).done = true → (s.next div go tx miso).shRx = 0xff) := by
  subst high
  cases run : s.run with
  | false =>
      obtain ⟨running, done, -⟩ := Spi.next_of_rest run div go tx true
      refine ⟨fun on i inside counted => ?_, fun ends => absurd ends (by simp [done])⟩
      have begun : go = true := running.symm.trans on
      simp [Spi.next, run, begun] at counted
  | true =>
      have now := ones run
      simp only [Spi.next, run, Bool.not_true, Bool.false_eq_true, if_false]
      split_ifs with early low last
      · exact ⟨fun _ => now, by simp⟩
      · refine ⟨fun _ i inside counted => ?_, by simp⟩
        have off : s.sclk = false := by simpa using low
        rw [getLsbD_shift _ _ i inside]
        split_ifs with first
        · rfl
        · refine now (i - 1) (by omega) ?_
          simp only [Bool.toNat_true] at counted
          rw [off, Bool.toNat_false]
          omega
      · have on : s.sclk = true := by simpa using low
        refine ⟨fun stopped => by simp at stopped, fun _ => ?_⟩
        refine BitVec.eq_of_getLsbD_eq fun i inside => ?_
        refine (now i inside ?_).trans (SdCard.ones_getLsbD inside).symm
        rw [last, on, Bool.toNat_true]
        omega
      · have on : s.sclk = true := by simpa using low
        refine ⟨fun _ i inside counted => now i inside ?_, by simp⟩
        have most := Nat.mod_le (s.bitCnt + 1) (2 ^ 3)
        simp only [Bool.toNat_false] at counted
        rw [on, Bool.toNat_true]
        omega

/-- A byte received is the one the transceiver has just completed. -/
theorem got_of_emit {d : Dev} {i : Input} {v : Byte} (told : .got v ∈ d.emit p i) :
    (d.next p i).spi.done = true ∧ (d.next p i).spi.shRx = v := by
  have pulses (b : Blk) : .got v ∉ b.pulses := by
    simp only [Blk.pulses]
    split_ifs <;> simp
  have visit (b : Blk) (req : BlkReq) (rx : Byte) : .got v ∉ b.told req rx := by
    unfold Blk.told
    split <;> (try split_ifs) <;> simp
  cases done : (d.next p i).spi.done with
  | true =>
      simp only [emit, done, if_true, List.mem_append] at told
      rcases told with now | later
      · have same : v = (d.next p i).spi.shRx := by simpa using now
        exact ⟨rfl, same.symm⟩
      · split_ifs at later
        · simp only [Blk.events, List.mem_append] at later
          exact absurd later (not_or.mpr ⟨visit _ _ _, pulses _⟩)
        · simp at later
  | false =>
      simp only [emit, done, Bool.false_eq_true, if_false, List.nil_append] at told
      split_ifs at told
      · simp only [Blk.events, List.mem_append] at told
        exact absurd told (not_or.mpr ⟨visit _ _ _, pulses _⟩)
      · simp at told

/-- With MISO high since the token, only bytes of ones are received. -/
theorem received_ones (taken : TokenTaken p input s) (high : ∀ u, s < u → (input u).miso = true)
    (later : s + 1 ≤ t) :
    Ones (run p input t).spi ∧ ∀ v ∈ received (since p input s t), v = 0xff := by
  induction t, later using Nat.le_induction with
  | base =>
      have stopped := (next_of_idle (p := p) taken.idle (input s)).2.1
      refine ⟨fun on => absurd on (by rw [run_succ, stopped]; decide), ?_⟩
      simp [since, received]
  | succ t later ih =>
      have step := ones_next ih.1 (high t (by omega)) (run p input t).blk.div
        (run p input t).blk.go (run p input t).blk.tx
      refine ⟨step.1, ?_⟩
      rw [since, Clocked.trace_succ _ later, received_append]
      intro v member
      rcases List.mem_append.mp member with before | now
      · exact ih.2 v before
      · have told : .got v ∈ (run p input t).emit p (input t) := by
          simp only [received, List.mem_filterMap] at now
          obtain ⟨e, inside, shape⟩ := now
          cases e <;> simp_all
        obtain ⟨done, rfl⟩ := got_of_emit told
        exact step.2 done

/-- A card that comes up, grants the read of its first block, sends the start token, and is
pulled out. -/
def pulledOut (t : ℕ) : Input where
  start := decide (t = 1722)
  miso := decide (1877 ≤ t) || (scripted [(510, 0x01), (703, 0x01), (722, 0xaa), (1149, 0x40),
    (1362, 0xfe), (1860, 0xfe)] t).miso

set_option maxRecDepth 10000 in
theorem pulledOut_token : TokenTaken .slow pulledOut 1877 := by
  have state : (run .slow pulledOut 1877).idle = true ∧ (run .slow pulledOut 1877).blk.st = .rdTok ∧
      (run .slow pulledOut 1877).spi.shRx = 0xfe := by
    decide +kernel
  exact ⟨state.1, state.2.1, state.2.2⟩

/-- A wrong check is a burst at the end of the pattern. -/
theorem catchable_check {hi lo : Byte} (wrong : true ∈ [hi, lo].flatMap Crc.bits) :
    Catchable (List.replicate 512 0x00 ++ [hi, lo]) := by
  have clear : true ∉ (List.replicate 512 (0x00 : Byte)).flatMap Crc.bits := by
    intro member
    obtain ⟨v, inside, found⟩ := List.mem_flatMap.mp member
    rw [List.eq_of_mem_replicate inside] at found
    exact absurd found (by decide)
  refine .inr (.inr (.inr (.inr ⟨?_, 4096, fun j here => ?_⟩)))
  · rw [List.flatMap_append]
    exact List.mem_append_right _ wrong
  · have before := length_flips (List.replicate 512 (0x00 : Byte))
    have inside := length_flips (List.replicate 512 (0x00 : Byte) ++ [hi, lo])
    rw [List.length_replicate] at before
    rw [List.length_append, List.length_replicate] at inside
    have below := (List.getElem?_eq_some_iff.mp here).1
    rw [inside] at below
    refine ⟨?_, by simpa using below⟩
    by_contra early
    rw [List.flatMap_append, List.getElem?_append_left (by omega)] at here
    exact clear (List.mem_of_getElem? here)

set_option maxRecDepth 10000 in
theorem corrupted_ones :
    corrupted (List.replicate 512 0xff ++ [0x7f, 0xa1]) (List.replicate 512 0x00 ++ [0x80, 0x5e]) =
      List.replicate 514 0xff := by
  decide +kernel

theorem replicate_prefix_of_le {n k : ℕ} (v : Byte) (le : n ≤ k) :
    List.replicate n v <+: List.replicate k v := by
  refine ⟨List.replicate (k - n) v, ?_⟩
  rw [← List.replicate_add, Nat.add_sub_cancel' le]

set_option maxRecDepth 10000 in
theorem crc16_ones : crc16 (List.replicate 512 0xff) = 0x7fa1 := by
  decide +kernel

/-- The line then floats high: a block of ones whose check is wrong within its sixteen bits. -/
theorem pulledOut_noticed :
    ∃ t, 1877 < t ∧ (run .slow pulledOut t).blk.done = true ∧
      (run .slow pulledOut t).blk.err = true ∧
      ∀ u, 1877 < u → u < t → (run .slow pulledOut u).blk.done = false := by
  refine line_errors_caught .slow pulledOut 1877 pulledOut_token (List.replicate 512 0xff)
    (List.replicate 512 0x00 ++ [0x80, 0x5e]) List.length_replicate
    (by rw [List.length_append, List.length_replicate]; rfl) (catchable_check (by decide))
    fun t later => ?_
  have high (u : ℕ) (after : 1877 < u) : (pulledOut u).miso = true := by
    simp [pulledOut, Nat.le_of_lt after]
  have ones := (received_ones pulledOut_token high later).2
  rw [crc16_ones]
  dsimp only
  rw [show ((0x7fa1 : BitVec 16).extractLsb' 8 8) = 0x7f by decide,
    show ((0x7fa1 : BitVec 16).extractLsb' 0 8) = 0xa1 by decide, corrupted_ones,
    List.eq_replicate_of_mem ones]
  rcases Nat.le_total (received (since .slow pulledOut 1877 t)).length 514 with short | long
  · exact .inl (replicate_prefix_of_le _ short)
  · exact .inr (replicate_prefix_of_le _ long)

end Dev

end Wish5380.Sd
