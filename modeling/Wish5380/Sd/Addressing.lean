import Wish5380.Sd.Fresh

/-!
# The addressing mode

A card of version 2 is addressed in the unit that bit 30 of its OCR declares, provided
that CMD58 was answered: the state that reads the bit does not look at R1, and the
helper may come back to it without one, with the four bytes of an earlier answer in the
register.
-/

namespace Wish5380.Sd

open Clocked

/-! ## What a card has declared -/

/-- The last command is CMD58, and only bytes have gone since. -/
def AskedOcr (log : List Event) : Prop :=
  ∃ before arg polls, log = before ++ Event.command 58 arg :: polls ∧ ∀ e ∈ polls, e.traffic = true

/-- CMD58 was answered with an R1 that has no error bit set. -/
def OcrGranted (log : List Event) : Prop :=
  ∃ before v, log = before ++ [Event.got v, .r1 v] ∧ AskedOcr before ∧ v &&& 0xfe = 0x00

/-- And the four bytes of the OCR came next. -/
def OcrRead (log : List Event) (ocr : BitVec 32) : Prop :=
  ∃ before a b c d, log = before ++ poll [a, b, c, d] ∧ OcrGranted before ∧
    ocr = a ++ b ++ c ++ d

/-- The OCR last read has the bit `ccs`. -/
def Declared (log : List Event) (ccs : Bool) : Prop :=
  ∃ before after ocr, log = before ++ after ∧ OcrRead before ocr ∧ ccs = ocr.getLsbD 30 ∧
    ∀ e ∈ after, ∀ arg, e ≠ .command 58 arg

/-- The argument of CMD17 or CMD24 is the block asked for last, in the unit of the card. -/
def Addressed (ccs : Bool) (log : List Event) : Event → Prop
  | .command idx arg => idx = 17 ∨ idx = 24 → ∃ before we, ∃ lba : BitVec 32, ∃ between,
      log = before ++ Event.accept we lba :: between ∧ (∀ e ∈ between, e.traffic = true) ∧
        idx = (if we then 24 else 17) ∧ arg = if ccs then lba else lba <<< 9
  | _ => True

/-- CMD58 is never given up, and never answered with an error. -/
def Honest (log : List Event) : Event → Prop
  | .r1 v => AskedOcr log → v &&& 0xfe = 0x00
  | .noR1 => ¬ AskedOcr log
  | _ => True

/-! ## The invariant -/

/-- The address of the request just taken is in the command register. -/
def Holds (we : Bool) (b : Blk) (log : List Event) : Prop :=
  ∃ before, ∃ lba : BitVec 32, ∃ between, log = before ++ Event.accept we lba :: between ∧
    (∀ e ∈ between, e.traffic = true) ∧ b.cmdArg = if b.ccs then lba else lba <<< 9

/-- Neither CMD17 nor CMD24. -/
def Event.setup : Event → Bool
  | .command idx _ => !decide (idx = 17 ∨ idx = 24)
  | _ => true

/-- What lasts: the mode a card of version 2 has declared, and the addresses sent in it. -/
structure Lasting (b : Blk) (log : List Event) : Prop where
  known : b.v2 = true → b.place.sized = true → Declared log b.ccs
  early : b.cardReady = false → ∀ e ∈ log, e.setup = true
  addressed : Justified (Addressed b.ccs) log

/-- What a state has just seen. -/
structure Lately (b : Blk) (rx : Byte) (log : List Event) : Prop where
  wait : b.st = .cR1 → ∃ before, log = before ++ [Event.got rx] ∧ (b.ret = .cmd58R → AskedOcr before)
  tail : b.st = .cExtra → b.ret = .cmd58R → ∃ before xs r, log = before ++ poll (xs ++ [rx]) ∧
    OcrGranted before ∧ xs.length = b.bcnt ∧ b.bcnt ≤ 3 ∧
    b.rExtra = xs.foldl (fun r v => r.extractLsb' 0 24 ++ v) r
  back : b.st = .cmd58R → OcrRead log b.rExtra
  request : ∀ we, b.st = (if we then .wrCmd else .rdCmd) → Holds we b log
  send : b.st = .cSend → ∀ we, b.ret = St.asked we → Holds we b log

/-- As long as CMD58 is answered. -/
def Declares (b : Blk) (rx : Byte) (log : List Event) : Prop :=
  Justified Honest log → Lately b rx log

theorem Lasting.tickMs {p : Params} {b : Blk} {log : List Event} (lasting : Lasting b log) :
    Lasting (b.tickMs p) log :=
  ⟨lasting.known, lasting.early, lasting.addressed⟩

theorem Lately.tickMs {p : Params} {b : Blk} {rx : Byte} {log : List Event}
    (lately : Lately b rx log) : Lately (b.tickMs p) rx log :=
  ⟨lately.wait, lately.tail, lately.back, lately.request, lately.send⟩

theorem traffic_append {between more : List Event} (traffic : ∀ e ∈ between, e.traffic = true)
    (fine : ∀ e ∈ more, e.traffic = true) : ∀ e ∈ between ++ more, e.traffic = true := by
  intro e member
  rcases List.mem_append.mp member with earlier | later
  · exact traffic e earlier
  · exact fine e later

theorem AskedOcr.append {log more : List Event} (asked : AskedOcr log)
    (fine : ∀ e ∈ more, e.traffic = true) : AskedOcr (log ++ more) := by
  obtain ⟨before, arg, polls, rfl, traffic⟩ := asked
  exact ⟨before, arg, polls ++ more, by simp, traffic_append traffic fine⟩

theorem Holds.append {we : Bool} {b c : Blk} {log more : List Event} (holds : Holds we b log)
    (fine : ∀ e ∈ more, e.traffic = true) (arg : c.cmdArg = b.cmdArg) (ccs : c.ccs = b.ccs) :
    Holds we c (log ++ more) := by
  obtain ⟨before, lba, between, rfl, traffic, address⟩ := holds
  exact ⟨before, lba, between ++ more, by simp, traffic_append traffic fine, by rw [arg, ccs, address]⟩

theorem Declared.append {log more : List Event} {ccs : Bool} (declared : Declared log ccs)
    (others : ∀ e ∈ more, ∀ arg, e ≠ .command 58 arg) : Declared (log ++ more) ccs := by
  obtain ⟨before, after, ocr, rfl, read, bit, clean⟩ := declared
  refine ⟨before, after ++ more, ocr, by simp, read, bit, fun e member => ?_⟩
  rcases List.mem_append.mp member with earlier | later
  · exact clean e earlier
  · exact others e later

/-- Before any request nothing was addressed. -/
theorem addressed_of_setup {log : List Event} (setup : ∀ e ∈ log, e.setup = true) (ccs : Bool) :
    Justified (Addressed ccs) log := by
  intro before e after split
  have fine := setup e (by simp [split])
  cases e with
  | command idx arg =>
      intro asked
      simp only [Event.setup, asked, decide_true, Bool.not_true, Bool.false_eq_true] at fine
  | _ => exact trivial

/-- Events that are not commands leave it as it is. -/
theorem Lasting.append {b c : Blk} {log more : List Event} (lasting : Lasting b log)
    (v2 : c.v2 = b.v2) (ccs : c.ccs = b.ccs)
    (sized : c.v2 = true → c.place.sized = true → b.place.sized = true)
    (ready : c.cardReady = false → b.cardReady = false)
    (others : ∀ e ∈ more, ¬ e.isCommand) : Lasting c (log ++ more) where
  known second later := by
    rw [ccs]
    exact (lasting.known (v2 ▸ second) (sized second later)).append
      fun e member arg same => others e member ⟨58, arg, same⟩
  early unready e member := by
    rcases List.mem_append.mp member with earlier | later
    · exact lasting.early (ready unready) e earlier
    · have other := others e later
      cases e with
      | command idx arg => exact absurd ⟨idx, arg, rfl⟩ other
      | _ => rfl
  addressed := by
    rw [ccs]
    refine lasting.addressed.append fun e member before => ?_
    have other := others e member
    cases e with
    | command idx arg => exact absurd ⟨idx, arg, rfl⟩ other
    | _ => exact trivial

/-! ## Every visit keeps it -/

section Visit

variable {p : Params} {b : Blk} {req : BlkReq} {rx : Byte} {ms : ℕ} {log : List Event}

theorem Lately.of_state {c : Blk} (out : c.st.helper = false)
    (free : c.st ≠ .cmd58R ∧ c.st ≠ .rdCmd ∧ c.st ≠ .wrCmd) : Lately c rx log where
  wait here := by simp [here, St.helper] at out
  tail here := by simp [here, St.helper] at out
  back here := absurd here free.1
  request we here := by cases we <;> simp_all
  send here := by simp [here, St.helper] at out

/-- Back from the helper, which was not sent for the OCR. -/
theorem Lately.of_return {c : Blk} {j : BitVec 6 × Bool} (job : c.st.job = some j)
    (other : c.st ≠ .cmd58R) : Lately c rx log := by
  refine .of_state (helper_of_job job) ⟨other, ?_, ?_⟩ <;>
    (intro here; simp [here, St.job] at job)

theorem job_ne_ocr {s : St} {idx : BitVec 6} {extra : Bool} (job : s.job = some (idx, extra))
    (sized : s.sized = true) : idx ≠ 58 := by
  cases s <;> simp_all [St.job, St.sized, St.up] <;> simp [← job.1]

theorem job_setup {s : St} {idx : BitVec 6} {extra : Bool} (job : s.job = some (idx, extra))
    (early : s.up = false) : ¬ (idx = 17 ∨ idx = 24) := by
  cases s <;> simp_all [St.job, St.up] <;> simp [← job.1]

theorem job_asked {s : St} {idx : BitVec 6} {extra : Bool} (job : s.job = some (idx, extra))
    (asks : idx = 17 ∨ idx = 24) : ∃ we, s = St.asked we ∧ idx = if we then 24 else 17 := by
  cases s <;> simp_all [St.job, St.asked] <;> simp [← job.1] at asks ⊢

/-- The command itself. -/
theorem Lasting.command (lasting : Lasting b log) (placed : Placed b) (inside : b.st.helper = true)
    (holds : ∀ we, b.ret = St.asked we → Holds we b log) :
    Lasting b (log ++ [Event.command b.cmdIdx b.cmdArg]) where
  known second later := by
    refine (lasting.known second later).append fun e member arg same => ?_
    rw [Blk.place_of_helper inside] at later
    rw [List.mem_singleton.mp member] at same
    exact job_ne_ocr (placed.job inside) later (Event.command.inj same).1
  early unready e member := by
    rcases List.mem_append.mp member with earlier | later
    · exact lasting.early unready e earlier
    · rw [placed.ready, Blk.place_of_helper inside] at unready
      rw [List.mem_singleton.mp later]
      simpa [Event.setup] using job_setup (placed.job inside) unready
  addressed := by
    refine lasting.addressed.snoc fun asks => ?_
    obtain ⟨we, back, idx⟩ := job_asked (placed.job inside) asks
    obtain ⟨before, lba, between, shape, traffic, address⟩ := holds we back
    exact ⟨before, we, lba, between, shape, traffic, idx, address⟩

theorem lasting_cSend (quiet : Quiet b) (placed : Placed b) (st : b.st = .cSend)
    (lasting : Lasting b log) (lately : Lately b rx log) :
    Lasting (b.step p req rx ms) (log ++ b.events p req rx ms) := by
  have inside : b.st.helper = true := by simp [st, St.helper]
  have sized : (b.step p req rx ms).place.sized = true → b.place.sized = true :=
    sized_step placed (by simp [st]) (by simp [st])
  have commanded := lasting.command placed inside (lately.send st)
  have still (before : List Event) (held : Lasting b before) :
      Lasting (b.step p req rx ms) (before ++ [Event.start b.cmdByte]) :=
    held.append ((leaves_step ..).v2 (by simp [st])) ((leaves_step ..).ccs (by simp [st]))
      (fun _ => sized)
      (ready_step placed) (by simp [Event.isCommand])
  by_cases last : b.bcnt = 6
  · have told : b.events p req rx ms = [Event.command b.cmdIdx b.cmdArg] ++ [Event.start b.cmdByte] := by
      simp [Blk.events, Blk.told, Blk.pulses, Blk.step, st, Blk.stepCSend, Blk.send, last,
        quiet.bufWe, quiet.done]
    rw [told, ← List.append_assoc]
    exact still _ commanded
  · have told : b.events p req rx ms = [Event.start b.cmdByte] := by
      simp [Blk.events, Blk.told, Blk.pulses, Blk.step, st, Blk.stepCSend, Blk.send, Blk.count, last,
        quiet.bufWe, quiet.done]
    rw [told]
    exact still _ lasting

/-- The states that decide the version and the mode leave no event. -/
theorem events_deciding (quiet : Quiet b) (st : b.st ∈ [.cmd8R, .acmd41R, .cmd58R]) :
    b.events p req rx ms = [] := by
  simp only [List.mem_cons, List.not_mem_nil, or_false] at st
  rcases st with st | st | st <;>
    simp only [Blk.events, Blk.told, Blk.pulses, Blk.step, st, Blk.stepCmd8R, Blk.stepAcmd41R,
      Blk.stepCmd58R] <;>
    split_ifs <;> simp_all [quiet.go, quiet.bufWe, quiet.done]

theorem lasting_visit (quiet : Quiet b) (placed : Placed b) (lasting : Lasting b log)
    (lately : Lately b rx log) :
    Lasting (b.step p req rx ms) (log ++ b.events p req rx ms) := by
  by_cases send : b.st = .cSend
  · exact lasting_cSend quiet placed send lasting lately
  by_cases deciding : b.st ∈ [.cmd8R, .acmd41R, .cmd58R]
  · rw [events_deciding quiet deciding, List.append_nil]
    have unready : b.cardReady = false := by
      rw [placed.ready]
      simp only [List.mem_cons, List.not_mem_nil, or_false] at deciding
      rcases deciding with st | st | st <;> simp [Blk.place, st, St.helper, St.up]
    refine ⟨?_, fun _ => lasting.early unready, addressed_of_setup (lasting.early unready) _⟩
    simp only [List.mem_cons, List.not_mem_nil, or_false] at deciding
    rcases deciding with st | st | st
    · simp only [Blk.step, st, Blk.stepCmd8R]
      split_ifs <;> simp [Blk.place, St.helper, St.sized, St.up]
    · simp only [Blk.step, st, Blk.stepAcmd41R]
      split_ifs <;> simp_all [Blk.place, St.helper, St.sized, St.up]
    · simp only [Blk.step, st, Blk.stepCmd58R]
      exact fun _ _ => ⟨log, [], b.rExtra, by simp, lately.back st, rfl, by simp⟩
  · simp only [List.mem_cons, List.not_mem_nil, or_false, not_or] at deciding
    obtain ⟨version, op, ocr⟩ := deciding
    have left := leaves_step p b req rx ms
    refine lasting.append (left.v2 version) (left.ccs ocr) (fun _ => sized_step placed op ocr)
      (ready_step placed) ?_
    rintro e member ⟨idx, arg, rfl⟩
    exact send (command_of_events member)

theorem declares_cSend (quiet : Quiet b) (placed : Placed b) (st : b.st = .cSend)
    (declares : Declares b rx log) : Kept p Declares b req rx ms log := by
  have job := placed.job (by simp [st, St.helper])
  rw [kept_cSend quiet st]
  constructor
  · intro last got honest
    refine ⟨fun _ => ⟨log ++ [Event.command b.cmdIdx b.cmdArg, .start b.cmdByte], by simp, ?_⟩, ?_, ?_,
      fun we here => ?_, ?_⟩
    · intro back
      replace back : b.ret = .cmd58R := back
      obtain ⟨idx, -⟩ : 58 = b.cmdIdx ∧ true = b.cmdExtra := by simpa [back, St.job] using job
      exact ⟨log, b.cmdArg, [Event.start b.cmdByte], by simp [← idx], by simp [Event.traffic]⟩
    · simp [Blk.send]
    · simp [Blk.send]
    · cases we <;> simp [Blk.send] at here
    · simp [Blk.send]
  · intro more got honest
    have send := (declares honest.of_append).send st
    refine ⟨?_, ?_, ?_, ?_, fun _ we back => (send we back).append ?_ rfl rfl⟩
    all_goals simp [Blk.send, Blk.count, st, Event.traffic]

theorem declares_cR1 (quiet : Quiet b) (placed : Placed b) (st : b.st = .cR1)
    (declares : Declares b rx log) : Kept p Declares b req rx ms log := by
  have job := placed.job (by simp [st, St.helper])
  rw [kept_cR1 quiet st]
  refine ⟨fun low extra got honest => ?_, fun low extra honest => ?_, fun high late honest => ?_,
    fun high more got honest => ?_⟩
  all_goals
    obtain ⟨before, shape, asked⟩ := (declares honest.of_append).wait st
    have waited (back : b.ret = .cmd58R) : AskedOcr log :=
      shape ▸ (asked back).append (by simp [Event.traffic])
  · refine ⟨by simp [Blk.send], fun _ back => ?_, by simp [Blk.send],
      fun we here => by cases we <;> simp [Blk.send] at here, by simp [Blk.send]⟩
    have good := honest log (.r1 rx) [Event.start 0xff, .got got] rfl (waited back)
    refine ⟨log ++ [Event.r1 rx], [], b.rExtra, by simp [poll], ?_, rfl, Nat.zero_le _, rfl⟩
    exact ⟨before, rx, by simp [shape], asked back, good⟩
  · refine .of_return job fun here => ?_
    simp [show b.ret = .cmd58R from here, St.job, extra] at job
  · exact .of_return job fun here => honest log .noR1 [] rfl (waited here)
  · refine ⟨fun _ => ⟨log ++ [Event.start 0xff], by simp, fun back => ?_⟩, ?_, ?_, fun we here => ?_, ?_⟩
    · exact (waited back).append (by simp [Event.traffic])
    · simp [Blk.send, Blk.count, st]
    · simp [Blk.send, Blk.count, st]
    · cases we <;> simp [Blk.send, Blk.count, st] at here
    · simp [Blk.send, Blk.count, st]

theorem getLsbD_shifted (r : BitVec 32) (v : Byte) (i : ℕ) :
    BitVec.getLsbD (BitVec.extractLsb' 0 24 r ++ v : BitVec (24 + 8)) i =
      if i < 8 then v.getLsbD i else decide (i < 32) && r.getLsbD (i - 8) := by
  rw [BitVec.getLsbD_append, BitVec.getLsbD_extractLsb', Nat.zero_add]
  split
  · rfl
  · congr 2
    exact propext (by omega)

/-- Four bytes shifted in are the whole register. -/
theorem shift_four (r : BitVec 32) (x y z v : Byte) :
    [x, y, z, v].foldl (fun r v => BitVec.extractLsb' 0 24 r ++ v) r = x ++ y ++ z ++ v := by
  apply BitVec.eq_of_getLsbD_eq
  intro i inside
  simp only [List.foldl]
  rw [getLsbD_shifted, getLsbD_shifted, getLsbD_shifted, getLsbD_shifted]
  simp only [BitVec.getLsbD_append]
  grind

theorem declares_cExtra (quiet : Quiet b) (placed : Placed b) (st : b.st = .cExtra)
    (declares : Declares b rx log) : Kept p Declares b req rx ms log := by
  have job := placed.job (by simp [st, St.helper])
  rw [kept_cExtra quiet st]
  constructor
  · intro last honest
    by_cases back : b.ret = .cmd58R
    · obtain ⟨before, xs, r, shape, granted, length, -, register⟩ := (declares honest).tail st back
      obtain ⟨x, y, z, rfl⟩ := List.length_eq_three.mp (length.trans last)
      refine ⟨?_, ?_, fun _ => ⟨before, x, y, z, rx, shape, granted, ?_⟩, fun we here => ?_, ?_⟩
      · simp [back]
      · simp [back]
      · rw [← shift_four r x y z rx, register]
        rfl
      · replace here : b.ret = if we then .wrCmd else .rdCmd := here
        cases we <;> simp [back] at here
      · simp [back]
    · exact .of_return job back
  · intro more got honest
    refine ⟨?_, fun _ back => ?_, ?_, fun we here => ?_, ?_⟩
    · simp [Blk.send, Blk.count, st]
    · obtain ⟨before, xs, r, shape, granted, length, bound, register⟩ :=
        (declares honest.of_append).tail st back
      have next : (b.bcnt + 1) % 2 ^ 10 = b.bcnt + 1 := Nat.mod_eq_of_lt (by omega)
      refine ⟨before, xs ++ [rx], r, by simp [shape, poll], granted, ?_, ?_, ?_⟩
      · show (xs ++ [rx]).length = (b.bcnt + 1) % 2 ^ 10
        rw [next]
        simp [length]
      · simp only [Blk.send, Blk.count, next]
        omega
      · simp [Blk.send, Blk.count, register]
    · simp [Blk.send, Blk.count, st]
    · cases we <;> simp [Blk.send, Blk.count, st] at here
    · simp [Blk.send, Blk.count, st]

theorem declares_ready (quiet : Quiet b) (st : b.st = .ready) :
    Kept p Declares b req rx ms log := by
  rw [kept_ready quiet st]
  constructor
  · intro none honest
    refine .of_state ?_ ?_ <;> simp [st, St.helper]
  · intro start honest
    have moved : b.stepReady req =
        { b with err := false, cmdArg := if b.ccs then req.lba else req.lba <<< 9, ms := 0,
                 st := if req.we then .wrCmd else .rdCmd } := by
      simp [Blk.stepReady, start]
    rw [moved]
    refine ⟨?_, ?_, ?_, fun we here => ⟨log, req.lba, [], ?_, by simp, rfl⟩, ?_⟩
    · cases req.we <;> simp
    · cases req.we <;> simp
    · cases req.we <;> simp
    · cases write : req.we <;> cases we <;> simp_all
    · cases req.we <;> simp

theorem declares_request (quiet : Quiet b) (we : Bool)
    (st : b.st = if we then .wrCmd else .rdCmd) (declares : Declares b rx log) :
    Kept p Declares b req rx ms log := by
  have moved : Kept p Declares b req rx ms log ↔
      Declares (b.command (if we then 24 else 17) b.cmdArg false (St.asked we)) rx log := by
    cases we with
    | false => exact kept_rdCmd quiet st
    | true => exact kept_wrCmd quiet st
  rw [moved]
  intro honest
  refine ⟨?_, ?_, ?_, fun other here => ?_, fun _ other back => ?_⟩
  · simp [Blk.command]
  · simp [Blk.command]
  · simp [Blk.command]
  · cases other <;> simp [Blk.command] at here
  · obtain rfl : we = other := by
      cases we <;> cases other <;> simp_all [Blk.command, St.asked]
    exact (declares honest).request we st

theorem declares_visit (quiet : Quiet b) (placed : Placed b) (declares : Declares b rx log) :
    Kept p Declares b req rx ms log := by
  by_cases special : b.st ∈ [.ready, .rdCmd, .wrCmd, .cSend, .cR1, .cExtra]
  · simp only [List.mem_cons, List.not_mem_nil, or_false] at special
    rcases special with st | st | st | st | st | st
    · exact declares_ready quiet st
    · exact declares_request quiet false st declares
    · exact declares_request quiet true st declares
    · exact declares_cSend quiet placed st declares
    · exact declares_cR1 quiet placed st declares
    · exact declares_cExtra quiet placed st declares
  · have lately (got : Byte) (more : List Event) : Lately (b.step p req rx ms) got more := by
      obtain ⟨away, idle⟩ := st_step (p := p) special
      simp only [List.mem_cons, List.not_mem_nil, or_false, not_or] at away
      refine ⟨fun here => absurd here away.2.2.1, fun here => absurd here away.2.2.2.1,
        fun here => absurd here away.2.2.2.2, fun we here => ?_, fun here we back => ?_⟩
      · cases we <;> simp_all
      · cases we <;> simp_all [St.asked]
    unfold Kept
    split
    · exact fun got _ => lately _ _
    · exact fun _ => lately _ _

end Visit

namespace Dev

theorem lasting_run (p : Params) (input : ℕ → Input) (t : ℕ)
    (honest : Justified Honest (history p input t)) :
    Lasting (run p input t).blk (history p input t) := by
  have begin : Lately (Blk.reset p) 0 [] :=
    .of_state rfl (by simp [Blk.reset])
  have stories (t : ℕ) : Story Declares (run p input t) (history p input t) :=
    story (fun _ => begin) (fun _ _ _ declares honest => (declares honest).tickMs)
      (fun _ _ _ _ _ quiet placed declares => declares_visit quiet placed declares) input t
  refine steady (J := fun b log => Justified Honest log → Lasting b log) stories
    (fun _ _ _ declares honest => (declares honest).tickMs) (fun _ => ?_)
    (fun _ _ lasting honest => (lasting honest).tickMs) (fun b rx log lasting honest => ?_)
    (fun b req rx ms log quiet placed declares lasting honest => ?_) t honest
  · exact ⟨by simp [Blk.reset], by simp, .nil⟩
  · exact (lasting honest.of_append).append rfl rfl (fun _ => id) id (by simp [Event.isCommand])
  · exact lasting_visit quiet placed (lasting honest.of_append) (declares honest.of_append)

/-- In every run in which CMD58 is never given up and never answered with an error, a card
of version 2 that is ready has declared the mode it is addressed in. -/
theorem addressing_declared (p : Params) (input : ℕ → Input) (t : ℕ)
    (honest : Justified Honest (history p input t))
    (ready : (run p input t).blk.cardReady = true) (second : (run p input t).blk.v2 = true) :
    Declared (history p input t) (run p input t).blk.ccs ∧
      Justified (Addressed (run p input t).blk.ccs) (history p input t) := by
  have lasting := lasting_run p input t honest
  have sized : (run p input t).blk.place.sized = true := by
    rw [St.sized, ← (placed_run input t).ready, ready]
    rfl
  exact ⟨lasting.known second sized, lasting.addressed⟩

/-- What is left of a history without its bytes. -/
def milestones (log : List Event) : List Event :=
  log.filter fun e => !e.traffic

theorem milestones_traffic {log : List Event} (traffic : ∀ e ∈ log, e.traffic = true) :
    milestones log = [] := by
  simpa [milestones] using traffic

theorem milestones_append (log more : List Event) :
    milestones (log ++ more) = milestones log ++ milestones more :=
  List.filter_append ..

/-- The event after CMD58 and its bytes stands beside it. -/
theorem infix_of_asked {before : List Event} {e : Event} (asked : AskedOcr before)
    (other : e.traffic = false) (after : List Event) :
    ∃ arg, [Event.command 58 arg, e] <:+: milestones (before ++ e :: after) := by
  obtain ⟨earlier, arg, polls, rfl, traffic⟩ := asked
  refine ⟨arg, milestones earlier, milestones after, ?_⟩
  rw [show earlier ++ Event.command 58 arg :: polls ++ e :: after =
      earlier ++ [Event.command 58 arg] ++ polls ++ [e] ++ after by simp]
  have itself : milestones [e] = [e] := by simp [milestones, other]
  have command : milestones [Event.command 58 arg] = [Event.command 58 arg] := rfl
  simp only [milestones_append, milestones_traffic traffic, itself, command]
  simp

/-- A card by script: the bytes it sends, by the cycle of their first bit, and zeros. -/
def scripted (script : List (ℕ × Byte)) (t : ℕ) : Input where
  miso := match script.find? fun e => decide (e.1 ≤ t ∧ t < e.1 + 16) with
    | some e => e.2.getMsbD ((t - e.1) / 2)
    | none => false

/-- A card of version 2 that answers CMD58 with `r1`, and with bit 30 set after it. -/
def ocrCard (r1 : Byte) : ℕ → Input :=
  scripted [(510, 0x01), (703, 0x01), (722, 0xaa), (1130, r1), (1149, 0x40), (1362, 0xfe)]

set_option maxRecDepth 10000 in
/-- A card that answers every command is ready, and addressed as it declared. -/
theorem granted_ocr_declared :
    Declared (history .slow (ocrCard 0x00) 1722) true := by
  have state : (run .slow (ocrCard 0x00) 1722).blk.cardReady = true ∧
      (run .slow (ocrCard 0x00) 1722).blk.v2 = true ∧
      (run .slow (ocrCard 0x00) 1722).blk.ccs = true ∧
      milestones (history .slow (ocrCard 0x00) 1722) =
        [Event.command 0 0, .r1 1, .command 8 0x1aa, .r1 0, .command 55 0, .r1 0,
          .command 41 0x40000000, .r1 0, .command 58 0, .r1 0, .command 9 0, .r1 0] := by
    decide +kernel
  obtain ⟨ready, second, ccs, told⟩ := state
  rw [← ccs]
  refine (addressing_declared .slow (ocrCard 0x00) 1722 ?_ ready second).1
  intro before e after split
  cases e with
  | r1 v =>
      intro asked
      obtain ⟨arg, inside⟩ := infix_of_asked (e := .r1 v) asked rfl after
      rw [← split, told] at inside
      simp [List.infix_cons_iff] at inside
      simp [inside]
  | noR1 =>
      intro asked
      obtain ⟨arg, inside⟩ := infix_of_asked (e := .noR1) asked rfl after
      rw [← split, told] at inside
      simp [List.infix_cons_iff] at inside
  | _ => exact trivial

set_option maxRecDepth 10000 in
/-- So is a card that refuses CMD58. -/
theorem refused_ocr_guessed :
    (run .slow (ocrCard 0x04) 1722).blk.cardReady = true ∧
      (run .slow (ocrCard 0x04) 1722).blk.v2 = true ∧
      ∀ ccs, ¬ Declared (history .slow (ocrCard 0x04) 1722) ccs := by
  have state : (run .slow (ocrCard 0x04) 1722).blk.cardReady = true ∧
      (run .slow (ocrCard 0x04) 1722).blk.v2 = true ∧
      milestones (history .slow (ocrCard 0x04) 1722) =
        [Event.command 0 0, .r1 1, .command 8 0x1aa, .r1 0, .command 55 0, .r1 0,
          .command 41 0x40000000, .r1 0, .command 58 0, .r1 4, .command 9 0, .r1 0] := by
    decide +kernel
  obtain ⟨ready, second, told⟩ := state
  refine ⟨ready, second, ?_⟩
  rintro ccs ⟨_, after, -, split, ⟨_, x, y, z, w, rfl, ⟨before, v, rfl, asked, good⟩, -⟩, -⟩
  have waited : AskedOcr (before ++ [Event.got v]) := asked.append (by simp [Event.traffic])
  obtain ⟨arg, inside⟩ := infix_of_asked (e := .r1 v) waited rfl (poll [x, y, z, w] ++ after)
  rw [show before ++ [Event.got v] ++ Event.r1 v :: (poll [x, y, z, w] ++ after) =
      before ++ [Event.got v, .r1 v] ++ poll [x, y, z, w] ++ after by simp, ← split, told] at inside
  simp [List.infix_cons_iff] at inside
  simp [inside] at good

end Dev

end Wish5380.Sd
