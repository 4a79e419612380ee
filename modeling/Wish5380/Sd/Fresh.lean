import Wish5380.Sd.Answers

/-!
# Which byte is taken as an answer

Every visit looks at the byte received with the one sent before.  So the first visit of
the wait for an R1 looks at the byte received while the last byte of the command was
still going out, and the first visit of the wait for a data response at the one received
with the second check byte.  When these two are not answers themselves, every answer
taken came in a byte that began after the command or the block had been sent whole.
-/

namespace Wish5380.Sd

open Clocked

/-- An answer came in a byte that began after the last byte it answers had ended. -/
def Fresh (log : List Event) : Event → Prop
  | .r1 v => ∃ before idx arg x y between,
      log = before ++ [Event.command idx arg, .start x, .got y] ++ between ++ [Event.start 0xff, .got v] ∧
        ∀ e ∈ between, e.traffic = true
  | .response v => ∃ before x y between,
      log = before ++ [Event.packet, .start x, .got y] ++ between ++ [Event.start 0xff, .got v] ∧
        ∀ e ∈ between, e.traffic = true
  | _ => True

/-- The byte that comes in with the last byte of a command has its top bit set, and the one
that comes in with the last byte of a block is no data response. -/
def Clean (log : List Event) : Event → Prop
  | .got y =>
      (∀ before idx arg x, log = before ++ [Event.command idx arg, .start x] → y.getLsbD 7 = true) ∧
        ∀ before x, log = before ++ [Event.packet, .start x] → y &&& 0x11 ≠ 0x01
  | _ => True

/-- The byte received is the one that came with the last byte of what `last` announces, or
a later one. -/
def Awaits (last : Event → Prop) (rx : Byte) (log : List Event) : Prop :=
  ∃ before e x, last e ∧
    (log = before ++ [e, .start x, .got rx] ∨
      ∃ y between, log = before ++ [e, .start x, .got y] ++ between ++ [Event.start 0xff, .got rx] ∧
        ∀ e ∈ between, e.traffic = true)

def Event.isCommand (e : Event) : Prop :=
  ∃ idx arg, e = .command idx arg

/-- What the two waits have behind them. -/
def Waiting (b : Blk) (rx : Byte) (log : List Event) : Prop :=
  (b.st = .cR1 → Awaits Event.isCommand rx log) ∧
    (b.st = .wrResp → Awaits (· = .packet) rx log)

/-- The invariant: as long as the condition has held, every answer was fresh. -/
def Prompt (b : Blk) (rx : Byte) (log : List Event) : Prop :=
  Justified Clean log → Justified Fresh log ∧ Waiting b rx log

/-! ## The waits -/

/-- One more idle byte. -/
theorem Awaits.poll {last : Event → Prop} {rx : Byte} {log : List Event}
    (awaits : Awaits last rx log) (got : Byte) :
    Awaits last got (log ++ [Event.start 0xff, .got got]) := by
  obtain ⟨before, e, x, announced, rfl | ⟨y, between, rfl, traffic⟩⟩ := awaits
  · exact ⟨before, e, x, announced, .inr ⟨rx, [], by simp, by simp⟩⟩
  · refine ⟨before, e, x, announced, .inr ⟨y, between ++ [Event.start 0xff, .got rx], by simp, ?_⟩⟩
    intro e member
    rcases List.mem_append.mp member with earlier | later
    · exact traffic e earlier
    · revert later
      simp only [List.mem_cons, List.not_mem_nil, or_false]
      rintro (rfl | rfl) <;> rfl

/-- A byte that the condition does not let through as the first one is a later one. -/
theorem Awaits.late {last : Event → Prop} {rx : Byte} {log : List Event}
    (awaits : Awaits last rx log)
    (first : ∀ before e x, last e → log ≠ before ++ [e, .start x, .got rx]) :
    ∃ before e x y between, last e ∧
      log = before ++ [e, .start x, .got y] ++ between ++ [Event.start 0xff, .got rx] ∧
        ∀ e ∈ between, e.traffic = true := by
  obtain ⟨before, e, x, announced, early | ⟨y, between, shape, traffic⟩⟩ := awaits
  · exact absurd early (first before e x announced)
  · exact ⟨before, e, x, y, between, announced, shape, traffic⟩

theorem fresh_r1 {rx : Byte} {log : List Event} (clean : Justified Clean log)
    (awaits : Awaits Event.isCommand rx log) (low : rx.getLsbD 7 = false) :
    Fresh log (.r1 rx) := by
  obtain ⟨before, e, x, y, between, ⟨idx, arg, rfl⟩, shape, traffic⟩ := awaits.late (by
    rintro before e x ⟨idx, arg, rfl⟩ early
    have high := (clean (before ++ [Event.command idx arg, .start x]) (.got rx) []
      (by simp [early])).1 before idx arg x rfl
    rw [low] at high
    exact Bool.false_ne_true high)
  exact ⟨before, idx, arg, x, y, between, shape, traffic⟩

theorem fresh_response {rx : Byte} {log : List Event} (clean : Justified Clean log)
    (awaits : Awaits (· = .packet) rx log) (response : rx &&& 0x11 = 0x01) :
    Fresh log (.response rx) := by
  obtain ⟨before, e, x, y, between, rfl, shape, traffic⟩ := awaits.late (by
    rintro before e x rfl early
    exact (clean (before ++ [Event.packet, .start x]) (.got rx) [] (by simp [early])).2 before x rfl
      response)
  exact ⟨before, x, y, between, shape, traffic⟩

/-! ## Every visit keeps it -/

/-- Not an answer. -/
def Event.asks : Event → Bool
  | .r1 _ => false
  | .response _ => false
  | _ => true

theorem fresh_append {log more : List Event} (fresh : Justified Fresh log)
    (asks : ∀ e ∈ more, e.asks = true) : Justified Fresh (log ++ more) := by
  refine fresh.append fun e member before => ?_
  have none := asks e member
  cases e <;> simp_all [Fresh, Event.asks]

section Visit

variable {p : Params} {b : Blk} {req : BlkReq} {rx : Byte} {ms : ℕ} {log : List Event}

/-- Only the two waits take answers. -/
theorem asks_events (command : b.st ≠ .cR1) (packet : b.st ≠ .wrResp) :
    ∀ e ∈ b.events p req rx ms, e.asks = true := by
  intro e member
  simp only [Blk.events, Blk.pulses, List.mem_append] at member
  rcases member with told | ((pulse | pulse) | pulse)
  · unfold Blk.told at told
    split at told
    all_goals first | contradiction | skip
    all_goals try split_ifs at told
    all_goals simp_all [Event.asks]
  all_goals
    split_ifs at pulse
    · simp_all [Event.asks]
    · simp at pulse

theorem prompt_cSend (quiet : Quiet b) (st : b.st = .cSend) (prompt : Prompt b rx log) :
    Kept p Prompt b req rx ms log := by
  rw [kept_cSend quiet st]
  constructor
  · intro last got clean
    obtain ⟨fresh, -⟩ := prompt clean.of_append
    refine ⟨fresh_append fresh (by simp [Event.asks]), fun _ => ?_, by simp [Blk.send]⟩
    exact ⟨log, _, b.cmdByte, ⟨b.cmdIdx, b.cmdArg, rfl⟩, .inl rfl⟩
  · intro more got clean
    obtain ⟨fresh, -⟩ := prompt clean.of_append
    refine ⟨fresh_append fresh (by simp [Event.asks]), ?_, ?_⟩ <;> simp [Blk.send, Blk.count, st]

theorem prompt_wrCrc (quiet : Quiet b) (st : b.st = .wrCrc) (prompt : Prompt b rx log) :
    Kept p Prompt b req rx ms log := by
  rw [kept_wrCrc quiet st]
  constructor
  · intro first got clean
    obtain ⟨fresh, -⟩ := prompt clean.of_append
    refine ⟨fresh_append fresh (by simp [Event.asks]), ?_, ?_⟩ <;> simp [Blk.send, Blk.count, st]
  · intro second got clean
    obtain ⟨fresh, -⟩ := prompt clean.of_append
    refine ⟨fresh_append fresh (by simp [Event.asks]), by simp [Blk.send], fun _ => ?_⟩
    exact ⟨log, _, b.crc16.extractLsb' 0 8, rfl, .inl rfl⟩

theorem prompt_cR1 (quiet : Quiet b) (placed : Placed b) (st : b.st = .cR1)
    (prompt : Prompt b rx log) : Kept p Prompt b req rx ms log := by
  have job := placed.job (by simp [st, St.helper])
  have back : b.ret ≠ .cR1 ∧ b.ret ≠ .wrResp := by
    constructor <;> (intro back; simp [back, St.job] at job)
  rw [kept_cR1 quiet st]
  refine ⟨fun low extra got clean => ?_, fun low extra clean => ?_, fun high late clean => ?_,
    fun high more got clean => ?_⟩
  all_goals obtain ⟨fresh, awaits, -⟩ := prompt clean.of_append
  · have taken := fresh.snoc (fresh_r1 clean.of_append (awaits st) low)
    have rest : ∀ e ∈ [Event.start 0xff, .got got], e.asks = true := by simp [Event.asks]
    refine ⟨by simpa using fresh_append taken rest, ?_, ?_⟩ <;> simp [Blk.send]
  · exact ⟨fresh.snoc (fresh_r1 clean.of_append (awaits st) low), fun wait => absurd wait back.1,
      fun wait => absurd wait back.2⟩
  · exact ⟨fresh_append fresh (by simp [Event.asks]), fun wait => absurd wait back.1,
      fun wait => absurd wait back.2⟩
  · exact ⟨fresh_append fresh (by simp [Event.asks]), fun _ => (awaits st).poll got,
      by simp [Blk.send, Blk.count, st]⟩

theorem prompt_wrResp (quiet : Quiet b) (st : b.st = .wrResp) (prompt : Prompt b rx log) :
    Kept p Prompt b req rx ms log := by
  rw [kept_wrResp quiet st]
  refine ⟨fun response got clean => ?_, fun _ late got clean => ?_, fun _ more got clean => ?_⟩
  all_goals obtain ⟨fresh, -, awaits⟩ := prompt clean.of_append
  · have taken := fresh.snoc (fresh_response clean.of_append (awaits st) response)
    have rest : ∀ e ∈ [Event.start 0xff, .got got], e.asks = true := by simp [Event.asks]
    refine ⟨by simpa using fresh_append taken rest, ?_, ?_⟩ <;> simp [Blk.send]
  · refine ⟨fresh_append fresh (by simp [Event.asks]), ?_, ?_⟩ <;> simp [Blk.send, Blk.fail]
  · exact ⟨fresh_append fresh (by simp [Event.asks]), by simp [Blk.send, st],
      fun _ => (awaits st).poll got⟩

theorem prompt_visit (quiet : Quiet b) (placed : Placed b) (prompt : Prompt b rx log) :
    Kept p Prompt b req rx ms log := by
  by_cases ends : b.st = .cSend ∨ b.st = .cR1 ∨ b.st = .wrCrc ∨ b.st = .wrResp
  · rcases ends with st | st | st | st
    · exact prompt_cSend quiet st prompt
    · exact prompt_cR1 quiet placed st prompt
    · exact prompt_wrCrc quiet st prompt
    · exact prompt_wrResp quiet st prompt
  · simp only [not_or] at ends
    obtain ⟨command, r1, packet, response⟩ := ends
    have asks : ∀ e ∈ b.events p req rx ms, e.asks = true := asks_events r1 response
    have away (got : Byte) (more : List Event) : Waiting (b.step p req rx ms) got more :=
      ⟨fun wait => absurd ((wait_step placed).1 wait) (by simp [command, r1]),
        fun wait => absurd ((wait_step placed).2 wait) (by simp [packet, response])⟩
    unfold Kept
    split
    · intro got clean
      have fresh := (prompt clean.of_append.of_append).1
      have rest : ∀ e ∈ [Event.got got], e.asks = true := by simp [Event.asks]
      exact ⟨fresh_append (fresh_append fresh asks) rest, away _ _⟩
    · intro clean
      exact ⟨fresh_append (prompt clean.of_append).1 asks, away _ _⟩

end Visit

/-- A byte of ones, if any. -/
def Event.ones : Event → Bool
  | .got y => y == 0xff
  | _ => true

/-- An idle line breaks no condition. -/
theorem clean_of_ones {log : List Event} (ones : ∀ e ∈ log, e.ones = true) :
    Justified Clean log := by
  intro before e after split
  have one := ones e (by simp [split])
  cases e with
  | got y =>
      obtain rfl : y = 0xff := by simpa [Event.ones] using one
      exact ⟨fun _ _ _ _ _ => by decide, fun _ _ _ => by decide⟩
  | _ => exact trivial

namespace Dev

/-- The line at one level up to cycle `a`, and at the other from then on. -/
def lineFrom (first : Bool) (a : ℕ) (t : ℕ) : Input where
  miso := first ^^ decide (a ≤ t)

/-- In every run in which no byte received with the last byte of a command or a block looks
like an answer, every answer taken belongs to what it answers. -/
theorem answers_fresh (p : Params) (input : ℕ → Input) (t : ℕ)
    (clean : Justified Clean (history p input t)) : Justified Fresh (history p input t) := by
  have story : Story Prompt (run p input t) (history p input t) :=
    story (fun _ => ⟨.nil, by simp [Waiting, Blk.reset]⟩) (fun _ _ _ prompt => prompt)
      (fun _ _ _ _ _ quiet placed prompt => prompt_visit quiet placed prompt) input t
  have idle : Justified Clean (history p input t ++ [Event.got 0xff]) :=
    clean.snoc ⟨fun _ _ _ _ _ => by decide, fun _ _ _ => by decide⟩
  cases go : (run p input t).blk.go with
  | true => exact (story.busy (.inl go) 0xff idle).1.of_append
  | false =>
      cases busy : (run p input t).spi.run with
      | true => exact (story.busy (.inr busy) 0xff idle).1.of_append
      | false => exact (story.rest go busy clean).1

/-- A line that goes low after CMD0 has been sent is its R1, and rightly so. -/
theorem late_low_is_fresh :
    .r1 0x00 ∈ history .slow (lineFrom true 526) 547 ∧
      Justified Fresh (history .slow (lineFrom true 526) 547) := by
  have ones : ∀ e ∈ history .slow (lineFrom true 526) 525, e.ones = true := by decide +kernel
  have told : Clocked.trace (fun u => (run .slow (lineFrom true 526) u).emit .slow
      (lineFrom true 526 u)) 525 547 = [Event.got 0xff, .start 0xff, .got 0x00, .r1 0x00] := by
    decide +kernel
  have whole : history .slow (lineFrom true 526) 547 =
      history .slow (lineFrom true 526) 525 ++ [Event.got 0xff, .start 0xff] ++ [Event.got 0x00] ++
        [Event.r1 0x00] := by
    rw [history, Clocked.trace_append _ (Nat.zero_le 525) (by decide), told]
    simp [history]
  refine ⟨by rw [whole]; simp, answers_fresh .slow (lineFrom true 526) 547 ?_⟩
  have sent : Justified Clean
      (history .slow (lineFrom true 526) 525 ++ [Event.got 0xff, .start 0xff]) := by
    refine clean_of_ones fun e member => ?_
    rcases List.mem_append.mp member with earlier | later
    · exact ones e earlier
    · revert later
      simp only [List.mem_cons, List.not_mem_nil, or_false]
      rintro (rfl | rfl) <;> rfl
  have later : Clean (history .slow (lineFrom true 526) 525 ++ [Event.got 0xff, .start 0xff])
      (.got 0x00) := by
    constructor
    · intro before idx arg x shape
      simpa using (List.append_inj' shape rfl).2
    · intro before x shape
      decide
  rw [whole]
  exact (sent.snoc later).snoc trivial

/-- A card that holds the line low: the byte received with the last byte of CMD0 is taken
as its R1. -/
theorem held_low_taken :
    ¬ Justified Fresh (history .slow (lineFrom false 1000) 528) := by
  have told : Clocked.trace (fun u => (run .slow (lineFrom false 1000) u).emit .slow
      (lineFrom false 1000 u)) 508 528 =
      [Event.command 0 0, .start 0x95, .got 0x00, .r1 0x00] := by
    decide +kernel
  have whole : history .slow (lineFrom false 1000) 528 =
      history .slow (lineFrom false 1000) 508 ++ [Event.command 0 0] ++ [Event.start 0x95, .got 0x00] ++
        [Event.r1 0x00] := by
    rw [history, Clocked.trace_append _ (Nat.zero_le 508) (by decide), told]
    simp [history]
  intro fresh
  rw [whole] at fresh
  obtain ⟨before, idx, arg, x, y, between, shape, -⟩ := (Justified.snoc_iff.mp fresh).2
  have ends := (List.append_inj' shape rfl).2
  simp at ends

end Dev

end Wish5380.Sd
