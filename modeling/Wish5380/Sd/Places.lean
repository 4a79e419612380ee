import Wish5380.Sd.Visits

/-!
# Where the sequencer is

Three facts about the registers alone: the command helper holds the command that the
state it goes back to has asked for, it collects a longer answer only when that was
asked for too, and the card is ready exactly from the end of initialisation on.  With
them, which state does what.
-/

namespace Wish5380.Sd

variable {p : Params} {I : Blk → Byte → List Event → Prop} {b : Blk} {req : BlkReq} {rx : Byte}
  {ms : ℕ} {log : List Event}

/-- The command helper. -/
def St.helper : St → Bool
  | .cSend => true
  | .cR1 => true
  | .cExtra => true
  | _ => false

/-- The command a state waits for, and whether its answer has four more bytes. -/
def St.job : St → Option (BitVec 6 × Bool)
  | .cmd0R => some (0, false)
  | .cmd8R => some (8, true)
  | .cmd55R => some (55, false)
  | .acmd41R => some (41, false)
  | .cmd58R => some (58, true)
  | .cmd16R => some (16, false)
  | .cmd9R => some (9, false)
  | .rdCmdR => some (17, false)
  | .wrCmdR => some (24, false)
  | _ => none

/-- Past initialisation. -/
def St.up : St → Bool
  | .ready => true
  | .rdCmd => true
  | .rdCmdR => true
  | .rdTok => true
  | .rdDat => true
  | .rdCrc => true
  | .wrCmd => true
  | .wrCmdR => true
  | .wrPre => true
  | .wrTok => true
  | .wrDat => true
  | .wrCrc => true
  | .wrResp => true
  | .wrBusy => true
  | .finish => true
  | _ => false

/-- The state, or the one the helper works for. -/
def Blk.place (b : Blk) : St :=
  if b.st.helper then b.ret else b.st

theorem Blk.place_of_helper {b : Blk} (inside : b.st.helper = true) : b.place = b.ret :=
  if_pos inside

theorem Blk.place_of_state {b : Blk} (out : b.st.helper = false) : b.place = b.st :=
  if_neg (by simp [out])

theorem Blk.place_return {b c : Blk} (inside : b.st.helper = true) (back : c.st = b.ret)
    (out : b.ret.helper = false) : c.place = b.place := by
  rw [place_of_helper inside, place_of_state (back ▸ out), back]

structure Placed (b : Blk) : Prop where
  job : b.st.helper = true → b.ret.job = some (b.cmdIdx, b.cmdExtra)
  extra : b.st = .cExtra → b.cmdExtra = true
  ready : b.cardReady = b.place.up

theorem placed_reset (p : Params) : Placed (Blk.reset p) :=
  ⟨by simp [Blk.reset, St.helper], by simp [Blk.reset], rfl⟩

theorem Blk.spiIdle_iff {b : Blk} {s : Spi} :
    b.spiIdle s = true ↔ b.go = false ∧ s.run = false ∧ s.done = false := by
  simp [Blk.spiIdle, and_assoc]

theorem Placed.of_state {c : Blk} (out : c.st.helper = false) (ready : c.cardReady = c.st.up) :
    Placed c where
  job inside := absurd inside (by simp [out])
  extra inside := by simp [inside, St.helper] at out
  ready := by simpa [Blk.place, out] using ready

theorem placed_command {idx : BitVec 6} {arg : BitVec 32} {extra : Bool} {ret : St}
    (job : ret.job = some (idx, extra)) (ready : b.cardReady = ret.up) :
    Placed (b.command idx arg extra ret) where
  job _ := job
  extra inside := by simp [Blk.command] at inside
  ready := ready

/-- The helper goes back to a state that is not its own. -/
theorem helper_of_job {s : St} {j : BitVec 6 × Bool} (job : s.job = some j) : s.helper = false := by
  cases s <;> simp_all [St.job, St.helper]

theorem Placed.tickMs (placed : Placed b) : Placed (b.tickMs p) :=
  ⟨placed.job, placed.extra, placed.ready⟩

theorem placed_step (placed : Placed b) : Placed (b.step p req rx ms) := by
  have ready := placed.ready
  cases st : b.st
  case cSend =>
    simp only [Blk.place, st, St.helper, if_true] at ready
    have job := placed.job (by simp [st, St.helper])
    simp only [Blk.step, st, Blk.stepCSend, Blk.send, Blk.count]
    split <;> exact ⟨fun _ => job, by simp, ready⟩
  case cR1 =>
    simp only [Blk.place, st, St.helper, if_true] at ready
    have job := placed.job (by simp [st, St.helper])
    have out := helper_of_job job
    simp only [Blk.step, st, Blk.stepCR1, Blk.send, Blk.count]
    split_ifs with low extra late
    · exact ⟨fun _ => job, fun _ => extra, ready⟩
    · exact .of_state out ready
    · exact .of_state out ready
    · exact ⟨fun _ => job, by simp, ready⟩
  case cExtra =>
    simp only [Blk.place, st, St.helper, if_true] at ready
    have job := placed.job (by simp [st, St.helper])
    simp only [Blk.step, st, Blk.stepCExtra, Blk.send, Blk.count]
    split
    · exact .of_state (helper_of_job job) ready
    · exact ⟨fun _ => job, fun _ => placed.extra st, ready⟩
  all_goals
    simp only [Blk.place, st, St.helper, Bool.false_eq_true, if_false] at ready
    simp only [Blk.step, st]
  case cmd0 | cmd8 | cmd55 | acmd41 | cmd58 | cmd16 | cmd9 | rdCmd | wrCmd =>
    exact placed_command rfl ready
  case cmd55R | wrPre | wrTok | finish =>
    exact .of_state rfl ready
  case cmd16R =>
    split_ifs <;> exact .of_state rfl ready
  case csdCrc =>
    unfold Blk.stepCsdCrc
    split
    · exact .of_state rfl rfl
    · exact .of_state (by simp [Blk.send, Blk.count, st, St.helper])
        (by simp [Blk.send, Blk.count, st, ready])
  case dead =>
    unfold Blk.stepDead
    split <;> exact .of_state (by simp [st, St.helper]) (by simp [st, St.up])
  case power | dummy | cmd0R | cmd8R | acmd41R | cmd58R | cmd9R | csdTok | csdDat | ready |
      rdCmdR | rdTok | rdDat | rdCrc | wrCmdR | wrDat | wrCrc | wrResp | wrBusy =>
    simp only [Blk.stepPower, Blk.stepDummy, Blk.stepCmd0R, Blk.stepCmd8R, Blk.stepAcmd41R,
      Blk.stepCmd58R, Blk.stepCmd9R, Blk.stepCsdTok, Blk.stepCsdDat, Blk.stepReady, Blk.stepRdCmdR,
      Blk.stepRdTok, Blk.stepRdDat, Blk.stepRdCrc, Blk.stepWrCmdR, Blk.stepWrDat, Blk.stepWrCrc,
      Blk.stepWrResp, Blk.stepWrBusy, Blk.send, Blk.count, Blk.fail]
    split_ifs <;> exact .of_state (by simp [st, St.helper]) (by simp [ready, st, St.up])

theorem Story.mono {J : Blk → Byte → List Event → Prop} {d : Dev} {history : List Event}
    (story : Story I d history) (weaker : ∀ b rx log, I b rx log → J b rx log) :
    Story J d history where
  go_rest := story.go_rest
  run_rest := story.run_rest
  busy working rx := weaker _ _ _ (story.busy working rx)
  rest still stopped := weaker _ _ _ (story.rest still stopped)

/-- The rule again, with these facts at hand. -/
theorem Dev.story (init : I (Blk.reset p) 0 [])
    (tick : ∀ b rx log, I b rx log → I (b.tickMs p) rx log)
    (visit : ∀ b req rx ms log, Quiet b → Placed b → I b rx log → Kept p I b req rx ms log)
    (input : ℕ → Input) (t : ℕ) : Story I (run p input t) (history p input t) := by
  have both := story_run (p := p) (I := fun b rx log => Placed b ∧ I b rx log)
    ⟨placed_reset p, init⟩
    (fun b rx log holds => ⟨holds.1.tickMs, tick b rx log holds.2⟩)
    (fun b req rx ms log quiet holds => by
      have placed : Placed (b.step p req rx ms) := placed_step holds.1
      have kept := visit b req rx ms log quiet holds.1 holds.2
      unfold Kept at kept ⊢
      split
      · rename_i go
        rw [if_pos go] at kept
        exact fun got => ⟨placed, kept got⟩
      · rename_i go
        rw [if_neg go] at kept
        exact ⟨placed, kept⟩) input t
  exact both.mono fun _ _ _ holds => holds.2

/-- Every state of a run is placed. -/
theorem Dev.placed_run (input : ℕ → Input) (t : ℕ) : Placed (run p input t).blk := by
  induction t with
  | zero => exact placed_reset p
  | succ t ih =>
      rw [run_succ]
      simp only [next, Blk.next]
      split
      · exact placed_step ih.tickMs
      · exact ih.tickMs

/-- The rule for what holds in every cycle, given what the visits find: it has to outlast a
byte received, and a visit. -/
theorem Dev.steady {J : Blk → List Event → Prop} {input : ℕ → Input}
    (story : ∀ t, Story I (run p input t) (history p input t))
    (found : ∀ b rx log, I b rx log → I (b.tickMs p) rx log) (init : J (Blk.reset p) [])
    (tick : ∀ b log, J b log → J (b.tickMs p) log)
    (byte : ∀ b rx log, J b log → J b (log ++ [Event.got rx]))
    (visit : ∀ b req rx ms log, Quiet b → Placed b → I b rx log → J b log →
      J (b.step p req rx ms) (log ++ b.events p req rx ms)) (t : ℕ) :
    J (run p input t).blk (history p input t) := by
  induction t with
  | zero => exact init
  | succ t ih =>
      rw [run_succ, history_succ]
      cases idle : (run p input t).idle with
      | true =>
          have visits : (run p input t).blk.spiIdle (run p input t).spi = true := idle
          obtain ⟨go, run', -⟩ := Blk.spiIdle_iff.mp visits
          have silent := (Spi.next_of_rest run' (run p input t).blk.div (run p input t).blk.go
            (run p input t).blk.tx (input t).miso).2.1
          have moved := visit _ ((run p input t).req (input t)) _ (run p input t).blk.ms _
            ((run p input t).blk.quiet_tickMs p) (placed_run input t).tickMs
            (found _ _ _ ((story t).rest go run')) (tick _ _ ih)
          simpa [next, emit, Blk.next, visits, idle, silent] using moved
      | false =>
          have waits : (run p input t).blk.spiIdle (run p input t).spi = false := idle
          have same : ((run p input t).next p (input t)).blk = (run p input t).blk.tickMs p := by
            simp [next, Blk.next, waits]
          rw [same]
          by_cases ended : ((run p input t).next p (input t)).spi.done = true
          · simpa [emit, ended, idle] using byte _ _ _ (tick _ _ ih)
          · simpa [emit, ended, idle] using tick _ _ ih

/-! ## Which state does what -/

section Frames

attribute [local simp] Blk.stepPower Blk.stepDummy Blk.stepCmd0R Blk.stepCmd8R Blk.stepAcmd41R
  Blk.stepCmd58R Blk.stepCmd9R Blk.stepCsdTok Blk.stepCsdDat Blk.stepCsdCrc Blk.stepReady
  Blk.stepRdCmdR Blk.stepRdTok Blk.stepRdDat Blk.stepRdCrc Blk.stepWrCmdR Blk.stepWrPre
  Blk.stepWrTok Blk.stepWrDat Blk.stepWrCrc Blk.stepWrResp Blk.stepWrBusy Blk.stepDead
  Blk.stepCSend Blk.stepCR1 Blk.stepCExtra Blk.send Blk.count Blk.fail Blk.command

/-- What a visit leaves alone, but for the states that are there to change it. -/
structure Leaves (p : Params) (b c : Blk) : Prop where
  done : b.st ≠ .finish → b.st ≠ .dead → c.done = b.done
  bufWe : b.st ≠ .rdDat → c.bufWe = b.bufWe
  csd : b.st ≠ .csdDat → c.csd = b.csd
  v2 : b.st ≠ .cmd8R → c.v2 = b.v2
  ccs : b.st ≠ .cmd58R → c.ccs = b.ccs
  /-- Only the end of initialisation makes the card ready. -/
  cardReady : b.st ≠ .csdCrc → b.cardReady = false → c.cardReady = false
  tickCnt : c.tickCnt = b.tickCnt
  msPulse : c.msPulse = b.msPulse
  /-- The timer is cleared or left. -/
  ms : c.ms = b.ms ∨ c.ms = 0
  /-- The divider changes only as the card becomes ready. -/
  div : c.div = b.div ∨ c.div = p.divFast ∧ c.cardReady = true

theorem leaves_step (p : Params) (b : Blk) (req : BlkReq) (rx : Byte) (ms : ℕ) :
    Leaves p b (b.step p req rx ms) := by
  cases st : b.st
  all_goals
    simp only [Blk.step, st, Blk.stepPower, Blk.stepDummy, Blk.stepCmd0R, Blk.stepCmd8R,
      Blk.stepAcmd41R, Blk.stepCmd58R, Blk.stepCmd9R, Blk.stepCsdTok, Blk.stepCsdDat,
      Blk.stepCsdCrc, Blk.stepReady, Blk.stepRdCmdR, Blk.stepRdTok, Blk.stepRdDat, Blk.stepRdCrc,
      Blk.stepWrCmdR, Blk.stepWrPre, Blk.stepWrTok, Blk.stepWrDat, Blk.stepWrCrc, Blk.stepWrResp,
      Blk.stepWrBusy, Blk.stepDead, Blk.stepCSend, Blk.stepCR1, Blk.stepCExtra, Blk.send,
      Blk.count, Blk.fail, Blk.command]
    try split_ifs
  all_goals constructor <;> simp [st]

/-- The states that take a byte from the buffer are entered with a byte on its way. -/
theorem go_step (placed : Placed b)
    (fetching : (b.step p req rx ms).st = .wrTok ∨ (b.step p req rx ms).st = .wrDat) :
    (b.step p req rx ms).go = true := by
  cases st : b.st
  case cR1 | cExtra =>
    have job := placed.job (by simp [st, St.helper])
    have other : ¬ (b.ret = .wrTok ∨ b.ret = .wrDat) := by
      rintro (back | back) <;> simp [back, St.job] at job
    simp only [Blk.step, st, Blk.stepCR1, Blk.stepCExtra] at fetching ⊢
    split_ifs at fetching ⊢ <;> first | rfl | exact absurd fetching other
  all_goals simp [Blk.step, st] at fetching ⊢
  all_goals split_ifs at fetching ⊢ <;> simp_all

/-- The waits for an answer are entered from one state each. -/
theorem wait_step (placed : Placed b) :
    ((b.step p req rx ms).st = .cR1 → b.st = .cSend ∨ b.st = .cR1) ∧
      ((b.step p req rx ms).st = .wrResp → b.st = .wrCrc ∨ b.st = .wrResp) := by
  cases st : b.st
  case cR1 | cExtra =>
    have job := placed.job (by simp [st, St.helper])
    have other : b.ret ≠ .cR1 ∧ b.ret ≠ .wrResp := by
      constructor <;> (intro back; simp [back, St.job] at job)
    simp only [Blk.step, st, Blk.stepCR1, Blk.stepCExtra]
    split_ifs <;> simp_all
  all_goals simp [Blk.step, st]
  all_goals split_ifs <;> simp_all

/-- Nothing makes it not ready again. -/
theorem ready_step (placed : Placed b) (after : (b.step p req rx ms).cardReady = false) :
    b.cardReady = false := by
  cases st : b.st
  case dead => simp [placed.ready, Blk.place, st, St.helper, St.up]
  all_goals simp [Blk.step, st] at after
  all_goals try split_ifs at after
  all_goals simp_all

/-- The addressing mode has been decided. -/
def St.sized (s : St) : Bool :=
  s.up || decide (s ∈ [.cmd16, .cmd16R, .cmd9, .cmd9R, .csdTok, .csdDat, .csdCrc])

theorem sized_step (placed : Placed b) (op : b.st ≠ .acmd41R) (ocr : b.st ≠ .cmd58R)
    (after : (b.step p req rx ms).place.sized = true) : b.place.sized = true := by
  cases st : b.st
  case acmd41R => exact absurd st op
  case cmd58R => exact absurd st ocr
  case cSend | cR1 | cExtra =>
    have out := helper_of_job (placed.job (by simp [st, St.helper]))
    simp only [Blk.step, st, Blk.stepCSend, Blk.stepCR1, Blk.stepCExtra] at after
    split_ifs at after <;> simp_all [Blk.place, St.helper]
  all_goals simp [Blk.step, st] at after
  all_goals try split_ifs at after
  all_goals simp_all [Blk.place, St.helper, St.sized, St.up]

/-- Where no state leads but those that take a request or run a command. -/
theorem st_step (other : b.st ∉ [.ready, .rdCmd, .wrCmd, .cSend, .cR1, .cExtra]) :
    (b.step p req rx ms).st ∉ [.rdCmd, .wrCmd, .cR1, .cExtra, .cmd58R] ∧
      ((b.step p req rx ms).st = .cSend →
        (b.step p req rx ms).ret ≠ .rdCmdR ∧ (b.step p req rx ms).ret ≠ .wrCmdR) := by
  cases st : b.st
  case ready | rdCmd | wrCmd | cSend | cR1 | cExtra => simp [st] at other
  all_goals simp [Blk.step, st]
  all_goals split_ifs <;> simp_all

theorem bcnt_step (small : b.bcnt < 2 ^ 10) : (b.step p req rx ms).bcnt < 2 ^ 10 := by
  have counted : (b.bcnt + 1) % 2 ^ 10 < 2 ^ 10 := Nat.mod_lt _ (by decide)
  cases st : b.st
  all_goals simp only [Blk.step, st]
  case cmd0 | cmd8 | cmd55 | acmd41 | cmd58 | cmd16 | cmd9 | rdCmd | wrCmd =>
    exact Nat.two_pow_pos 10
  case cmd55R | cmd16R | finish => exact small
  all_goals
    simp
    try split_ifs
  all_goals first | exact small | exact counted | exact Nat.two_pow_pos 10

/-- The sequencer comes to rest on a visit that sends nothing. -/
theorem ready_entered (quiet : Quiet b) (placed : Placed b)
    (rest : (b.step p req rx ms).st = .ready) :
    (b.step p req rx ms).go = false ∧ (b.st = .csdCrc ∨ b.st = .finish ∨ b.st = .ready) := by
  have still := quiet.go
  cases st : b.st
  case cR1 | cExtra =>
    have job := placed.job (by simp [st, St.helper])
    have other : b.ret ≠ .ready := by
      intro back
      simp [back, St.job] at job
    simp only [Blk.step, st, Blk.stepCR1, Blk.stepCExtra] at rest
    split_ifs at rest <;> simp_all
  case finish => simp [Blk.step, st, still]
  all_goals simp [Blk.step, st] at rest ⊢
  all_goals split_ifs at rest ⊢ <;> simp_all

/-- Only the helper puts a command out. -/
theorem command_of_events {idx : BitVec 6} {arg : BitVec 32}
    (inside : .command idx arg ∈ b.events p req rx ms) : b.st = .cSend := by
  simp only [Blk.events, Blk.pulses, List.mem_append] at inside
  rcases inside with told | ((pulse | pulse) | pulse)
  · cases st : b.st <;> simp [Blk.told, st] at told <;> first | rfl | skip
    all_goals split_ifs at told <;> simp at told
  all_goals split_ifs at pulse <;> simp at pulse

end Frames

end Wish5380.Sd
