import Wish5380.Sd.Exchange
import Wish5380.Sd.Progress

/-!
# What the card sees

Whatever comes in on MISO, the wires to the card carry eighty clocks and more before the card is
selected, and then one command after another: a byte of ones deselected, the six bytes of the
command, and bytes of the conversation about it, all of these selected.  Chip select moves only
between two bytes, while the card clock is low.
-/

namespace Wish5380.Sd

/-! ## Legal traffic -/

/-- What a state of the sequencer contributes: the issue of a command, and a byte that goes out
with the card selected or not. -/
inductive Wire where
  | issue (idx : BitVec 6) (arg : BitVec 32)
  | byte (cs : Bool) (tx : Byte)
  deriving DecidableEq, Repr

/-- The first five bytes of a command. -/
def commandBody (idx : BitVec 6) (arg : BitVec 32) : List Byte :=
  [0x40 ||| idx.setWidth 8, arg.extractLsb' 24 8, arg.extractLsb' 16 8, arg.extractLsb' 8 8,
    arg.extractLsb' 0 8]

/-- All six, the last with the CRC7 of the others in its upper bits. -/
def commandFrame (idx : BitVec 6) (arg : BitVec 32) : List Byte :=
  commandBody idx arg ++ [((commandBody idx arg).foldl crc7Byte 0).setWidth 8 * 2 + 1]

/-- The bytes a command goes out with. -/
def opening (idx : BitVec 6) (arg : BitVec 32) : List Wire :=
  .byte false 0xff :: (commandFrame idx arg).map (.byte true)

/-- A command, and the bytes exchanged until the next. -/
structure Talk where
  idx : BitVec 6
  arg : BitVec 32
  bytes : List Byte

def Talk.wires (s : Talk) : List Wire :=
  .issue s.idx s.arg :: (opening s.idx s.arg ++ s.bytes.map (.byte true))

/-- The clocks the card needs to wake up. -/
def wakeUp : List Wire :=
  List.replicate 10 (.byte false 0xff)

/-- One command after another, each whole. -/
def Talking (log : List Wire) : Prop :=
  ∃ talks last, log = wakeUp ++ (talks ++ [last]).flatMap Talk.wires

/-- The same, or no command yet. -/
def Complete (log : List Wire) : Prop :=
  log = wakeUp ∨ Talking log

theorem Talking.byte {log : List Wire} (talking : Talking log) (v : Byte) :
    Talking (log ++ [Wire.byte true v]) := by
  obtain ⟨talks, last, rfl⟩ := talking
  refine ⟨talks, { last with bytes := last.bytes ++ [v] }, ?_⟩
  simp [Talk.wires]

theorem Complete.command {log : List Wire} (complete : Complete log) (idx : BitVec 6)
    (arg : BitVec 32) : Talking (log ++ .issue idx arg :: opening idx arg) := by
  rcases complete with rfl | ⟨talks, last, rfl⟩
  · exact ⟨[], ⟨idx, arg, []⟩, by simp [Talk.wires]⟩
  · exact ⟨talks ++ [last], ⟨idx, arg, []⟩, by simp [Talk.wires]⟩

/-- Legal so far: whole commands, and perhaps a part of one. -/
def Legal (log : List Wire) : Prop :=
  ∃ talks : List Talk, log <+: wakeUp ++ talks.flatMap Talk.wires

theorem Talking.legal {log : List Wire} (talking : Talking log) : Legal log := by
  obtain ⟨talks, last, rfl⟩ := talking
  exact ⟨_, List.prefix_rfl⟩

/-! ## The sequencer keeps to it -/

/-- The states that issue a command. -/
def St.issues : St → Bool
  | .cmd0 => true
  | .cmd8 => true
  | .cmd55 => true
  | .acmd41 => true
  | .cmd58 => true
  | .cmd16 => true
  | .cmd9 => true
  | .rdCmd => true
  | .wrCmd => true
  | _ => false

/-- What a visit from `b` to `c` puts on the wires. -/
def Blk.wired (b c : Blk) : List Wire :=
  (if b.st.issues then [Wire.issue c.cmdIdx c.cmdArg] else []) ++
    if c.go then [Wire.byte c.cs c.tx] else []

/-- What has gone over the wires, by the state. -/
def Carries (b : Blk) (log : List Wire) : Prop :=
  match b.st with
  | .power => log = [] ∧ b.cs = false
  | .dummy => log = List.replicate b.bcnt (.byte false 0xff) ∧ b.bcnt ≤ 10 ∧ b.cs = false
  | .cmd0 => Complete log ∧ b.cs = true
  | .cSend => b.bcnt ≤ 6 ∧ ∃ before, Complete before ∧
      log = before ++ .issue b.cmdIdx b.cmdArg :: (opening b.cmdIdx b.cmdArg).take b.bcnt
  | _ => Talking log ∧ b.cs = true

section Visit

variable {p : Params} {b : Blk} {req : BlkReq} {rx : Byte} {ms : ℕ} {log : List Wire}

theorem Carries.legal (carries : Carries b log) : Legal log := by
  have whole (complete : Complete log) : Legal log := by
    rcases complete with rfl | talking
    · exact ⟨[], by simp⟩
    · exact talking.legal
  cases st : b.st
  case power =>
    simp only [Carries, st] at carries
    exact ⟨[], by simp [carries.1]⟩
  case dummy =>
    simp only [Carries, st] at carries
    refine ⟨[], List.replicate (10 - b.bcnt) (.byte false 0xff), ?_⟩
    rw [carries.1, ← List.replicate_add, Nat.add_sub_cancel' carries.2.1]
    simp [wakeUp]
  case cmd0 =>
    simp only [Carries, st] at carries
    exact whole carries.1
  case cSend =>
    simp only [Carries, st] at carries
    obtain ⟨-, before, complete, rfl⟩ := carries
    obtain ⟨talks, last, shape⟩ := complete.command b.cmdIdx b.cmdArg
    refine ⟨talks ++ [last], ?_⟩
    rw [← shape, List.prefix_append_right_inj, List.cons_prefix_cons]
    exact ⟨rfl, List.take_prefix _ _⟩
  all_goals
    simp only [Carries, st] at carries
    exact carries.1.legal

/-- A state that issues a command sets it up, and sends nothing yet. -/
theorem step_of_issues (issues : b.st.issues = true) :
    ∃ idx arg extra ret, b.step p req rx ms = b.command idx arg extra ret := by
  cases st : b.st <;> simp [St.issues, st] at issues <;> simp only [Blk.step, st] <;>
    exact ⟨_, _, _, _, rfl⟩

section Steps

attribute [local simp] Blk.step Blk.send Blk.count Blk.fail Blk.stepCmd0R Blk.stepCmd8R
  Blk.stepAcmd41R Blk.stepCmd58R Blk.stepCmd9R Blk.stepCsdTok Blk.stepCsdDat Blk.stepCsdCrc
  Blk.stepReady Blk.stepRdCmdR Blk.stepRdTok Blk.stepRdDat Blk.stepRdCrc Blk.stepWrCmdR
  Blk.stepWrPre Blk.stepWrTok Blk.stepWrDat Blk.stepWrCrc Blk.stepWrResp Blk.stepWrBusy
  Blk.stepDead

/-- Any other state leaves chip select alone, and does not go back to the beginning. -/
theorem step_of_talking (placed : Placed b) (other : b.st.issues = false) (power : b.st ≠ .power)
    (dummy : b.st ≠ .dummy) (send : b.st ≠ .cSend) :
    (b.step p req rx ms).cs = b.cs ∧ (b.step p req rx ms).st ≠ .power ∧
      (b.step p req rx ms).st ≠ .dummy ∧ (b.step p req rx ms).st ≠ .cSend := by
  have back (inside : b.st.helper = true) : b.ret ≠ .power ∧ b.ret ≠ .dummy ∧ b.ret ≠ .cSend := by
    have job := placed.job inside
    refine ⟨?_, ?_, ?_⟩ <;> (intro same; simp [same, St.job] at job)
  cases st : b.st
  case power => exact absurd st power
  case dummy => exact absurd st dummy
  case cSend => exact absurd st send
  case cR1 =>
    have ret := back (by simp [st, St.helper])
    simp only [Blk.step, st, Blk.stepCR1, Blk.send, Blk.count]
    split_ifs <;> simp [ret]
  case cExtra =>
    have ret := back (by simp [st, St.helper])
    simp only [Blk.step, st, Blk.stepCExtra, Blk.send, Blk.count]
    split_ifs <;> simp [ret]
  case cmd0 | cmd8 | cmd55 | acmd41 | cmd58 | cmd16 | cmd9 | rdCmd | wrCmd =>
    simp [St.issues, st] at other
  all_goals simp [st]
  all_goals split_ifs <;> simp

end Steps

theorem carries_of_talking {c : Blk} (power : c.st ≠ .power) (dummy : c.st ≠ .dummy)
    (send : c.st ≠ .cSend) (talking : Talking log) (cs : c.cs = true) : Carries c log := by
  cases st : c.st
  case power => exact absurd st power
  case dummy => exact absurd st dummy
  case cSend => exact absurd st send
  case cmd0 =>
    simp only [Carries, st]
    exact ⟨.inr talking, cs⟩
  all_goals
    simp only [Carries, st]
    exact ⟨talking, cs⟩

theorem Carries.talking (carries : Carries b log) (power : b.st ≠ .power) (dummy : b.st ≠ .dummy)
    (send : b.st ≠ .cSend) (first : b.st ≠ .cmd0) : Talking log ∧ b.cs = true := by
  cases st : b.st
  case power => exact absurd st power
  case dummy => exact absurd st dummy
  case cSend => exact absurd st send
  case cmd0 => exact absurd st first
  all_goals simpa only [Carries, st] using carries

theorem Carries.complete (carries : Carries b log) (issues : b.st.issues = true) : Complete log := by
  by_cases first : b.st = .cmd0
  · simp only [Carries, first] at carries
    exact carries.1
  · refine .inr (carries.talking ?_ ?_ ?_ first).1 <;> (intro same; simp [same, St.issues] at issues)

theorem first_byte (idx : BitVec 6) : (0b01#2 ++ idx : Byte) = 0x40 ||| idx.setWidth 8 := by
  revert idx
  decide

theorem last_byte (r : BitVec 7) : (r ++ 1#1 : Byte) = r.setWidth 8 * 2 + 1 := by
  revert r
  decide +kernel

/-- The byte of a command at its place. -/
theorem opening_getElem (b : Blk) (low : b.bcnt ≤ 6) :
    (opening b.cmdIdx b.cmdArg)[b.bcnt]? = some (.byte (decide (b.bcnt ≠ 0)) b.cmdByte) := by
  have place : b.bcnt = 0 ∨ b.bcnt = 1 ∨ b.bcnt = 2 ∨ b.bcnt = 3 ∨ b.bcnt = 4 ∨ b.bcnt = 5 ∨
      b.bcnt = 6 := by
    omega
  rcases place with at0 | at1 | at2 | at3 | at4 | at5 | at6
  case inr.inr.inr.inr.inr.inr =>
    have check : (b.cmdCrc7 ++ 1#1 : Byte) =
        ((commandBody b.cmdIdx b.cmdArg).foldl crc7Byte 0).setWidth 8 * 2 + 1 := by
      rw [last_byte, Blk.cmdCrc7, first_byte]
      rfl
    simp [opening, commandFrame, commandBody, Blk.cmdByte, at6, check]
  all_goals simp [opening, commandFrame, commandBody, Blk.cmdByte, first_byte, *]

theorem length_opening (idx : BitVec 6) (arg : BitVec 32) : (opening idx arg).length = 7 :=
  rfl

theorem carries_cSend (st : b.st = .cSend) (carries : Carries b log) :
    Carries (b.step p req rx ms) (log ++ b.wired (b.step p req rx ms)) := by
  simp only [Carries, st] at carries
  obtain ⟨low, before, complete, rfl⟩ := carries
  have sent := opening_getElem b low
  have longer : (opening b.cmdIdx b.cmdArg).take (b.bcnt + 1) =
      (opening b.cmdIdx b.cmdArg).take b.bcnt ++ [Wire.byte (decide (b.bcnt ≠ 0)) b.cmdByte] := by
    rw [List.take_add_one, sent]
    rfl
  have told : b.wired (b.step p req rx ms) = [Wire.byte (decide (b.bcnt ≠ 0)) b.cmdByte] := by
    by_cases last : b.bcnt = 6 <;>
      simp [Blk.wired, St.issues, st, Blk.step, Blk.stepCSend, last, Blk.send, Blk.count]
  rw [told]
  by_cases last : b.bcnt = 6
  · have talking := complete.command b.cmdIdx b.cmdArg
    have whole : opening b.cmdIdx b.cmdArg =
        (opening b.cmdIdx b.cmdArg).take b.bcnt ++ [Wire.byte (decide (b.bcnt ≠ 0)) b.cmdByte] := by
      rw [← longer, last, List.take_of_length_le (by rw [length_opening])]
    rw [whole] at talking
    have moved : (b.step p req rx ms).st = .cR1 ∧ (b.step p req rx ms).cs = true := by
      simp [Blk.step, st, Blk.stepCSend, last, Blk.send]
    refine carries_of_talking ?_ ?_ ?_ ?_ moved.2
    · simp [moved.1]
    · simp [moved.1]
    · simp [moved.1]
    · simpa using talking
  · have small : (b.bcnt + 1) % 2 ^ 10 = b.bcnt + 1 := Nat.mod_eq_of_lt (by omega)
    simp only [Carries, Blk.step, st, Blk.stepCSend, if_neg last, Blk.send, Blk.count, small]
    refine ⟨by omega, before, complete, ?_⟩
    rw [longer]
    simp

theorem carries_dummy (st : b.st = .dummy) (quiet : Quiet b) (carries : Carries b log) :
    Carries (b.step p req rx ms) (log ++ b.wired (b.step p req rx ms)) := by
  simp only [Carries, st] at carries
  obtain ⟨rfl, low, cs⟩ := carries
  by_cases last : b.bcnt = 10
  · have moved : b.step p req rx ms = { b with cs := true, ms := 0, st := .cmd0 } := by
      simp only [Blk.step, st, Blk.stepDummy, if_pos last]
    rw [moved]
    refine ⟨.inl ?_, rfl⟩
    simp [Blk.wired, St.issues, st, quiet.go, last, wakeUp]
  · have small : (b.bcnt + 1) % 2 ^ 10 = b.bcnt + 1 := Nat.mod_eq_of_lt (by omega)
    have moved : b.step p req rx ms = { b with bcnt := b.bcnt + 1, tx := 0xff, go := true } := by
      simp only [Blk.step, st, Blk.stepDummy, if_neg last, Blk.count, Blk.send, small]
    rw [moved]
    simp only [Carries, st]
    refine ⟨?_, by omega, cs⟩
    simp [Blk.wired, St.issues, st, cs, List.replicate_succ']

/-- Every visit keeps to it. -/
theorem carries_visit (placed : Placed b) (quiet : Quiet b) (carries : Carries b log) :
    Carries (b.step p req rx ms) (log ++ b.wired (b.step p req rx ms)) := by
  by_cases send : b.st = .cSend
  · exact carries_cSend send carries
  cases issues : b.st.issues with
  | true =>
      have complete := carries.complete issues
      obtain ⟨idx, arg, extra, ret, moved⟩ := @step_of_issues p b req rx ms issues
      rw [moved]
      refine ⟨Nat.zero_le _, log, complete, ?_⟩
      simp [Blk.wired, issues, Blk.command, quiet.go]
  | false =>
      by_cases power : b.st = .power
      · simp only [Carries, power] at carries
        simp only [Blk.wired, Blk.step, power, Blk.stepPower]
        split_ifs <;> simp_all [Carries, quiet.go]
      by_cases dummy : b.st = .dummy
      · exact carries_dummy dummy quiet carries
      have first : b.st ≠ .cmd0 := by
        intro same
        simp [same, St.issues] at issues
      obtain ⟨talking, selected⟩ := carries.talking power dummy send first
      obtain ⟨cs, power', dummy', send'⟩ :=
        @step_of_talking p b req rx ms placed issues power dummy send
      refine carries_of_talking power' dummy' send' ?_ (cs.trans selected)
      simp only [Blk.wired, issues, cs, selected, Bool.false_eq_true, if_false, List.nil_append]
      split_ifs
      · exact talking.byte _
      · simpa using talking

end Visit

/-! ## Bytes on the wire -/

/-- The bytes among what goes over the wires. -/
def bytesOf (log : List Wire) : List (Bool × Byte) :=
  log.filterMap fun
    | .byte cs tx => some (cs, tx)
    | .issue .. => none

theorem bytesOf_append (log more : List Wire) : bytesOf (log ++ more) = bytesOf log ++ bytesOf more :=
  List.filterMap_append

/-- Chip select and MOSI at the eight pulses of the card clock that carry a byte. -/
def wireBits (b : Bool × Byte) : List (Bool × Bool) :=
  (List.range 8).map fun i => (b.1, b.2.getLsbD (7 - i))

theorem take_wireBits_succ (cs : Bool) (tx : Byte) {k : ℕ} (below : k < 8) :
    (wireBits (cs, tx)).take (k + 1) = (wireBits (cs, tx)).take k ++ [(cs, tx.getLsbD (7 - k))] := by
  have here : (wireBits (cs, tx))[k]? = some (cs, tx.getLsbD (7 - k)) := by
    simp [wireBits, below]
  rw [List.take_add_one, here]
  rfl

theorem take_wireBits_all (b : Bool × Byte) : (wireBits b).take 8 = wireBits b :=
  List.take_of_length_le (by simp [wireBits])

namespace Dev

variable {p : Params} {d : Dev} {i : Input}

/-- What an edge puts on the wires. -/
def wire (p : Params) (d : Dev) (i : Input) : List Wire :=
  if d.idle then d.blk.wired (d.next p i).blk else []

/-- What the card samples when its clock goes up: chip select, and MOSI. -/
def sample (p : Params) (d : Dev) (i : Input) : List (Bool × Bool) :=
  if !d.spi.sclk && (d.next p i).spi.sclk then [((d.next p i).blk.cs, (d.next p i).spi.mosi)] else []

/-- The samples taken are the bytes that have gone out, and the part of the one that is going
out. -/
structure Sampled (d : Dev) (bytes : List (Bool × Byte)) (samples : List (Bool × Bool)) : Prop where
  low : d.spi.run = false → d.spi.sclk = false
  waiting : d.blk.go = true → ∃ prior, bytes = prior ++ [(d.blk.cs, d.blk.tx)] ∧
    samples = prior.flatMap wireBits
  moving : d.spi.run = true → ∃ prior tx, bytes = prior ++ [(d.blk.cs, tx)] ∧
    d.spi.shTx = window tx 0xff d.spi.bitCnt ∧
    samples = prior.flatMap wireBits ++
      (wireBits (d.blk.cs, tx)).take (d.spi.bitCnt + d.spi.sclk.toNat)
  idle : d.blk.go = false → d.spi.run = false → samples = bytes.flatMap wireBits

section Step

variable {bytes : List (Bool × Byte)} {samples : List (Bool × Bool)}

/-- In a cycle without a byte under way. -/
theorem Sampled.of_still {e : Dev} (stopped : e.spi.run = false) (clock : e.spi.sclk = false)
    (same : samples = bytes.flatMap wireBits) :
    Sampled e (bytes ++ if e.blk.go then [(e.blk.cs, e.blk.tx)] else []) samples where
  low _ := clock
  waiting go := ⟨bytes, by rw [if_pos go], same⟩
  moving on := by simp [stopped] at on
  idle go _ := by simpa [go] using same

/-- In a cycle with one. -/
theorem Sampled.of_moving {e : Dev} {prior : List (Bool × Byte)} {tx : Byte}
    (still : e.blk.go = false) (run : e.spi.run = true)
    (shTx : e.spi.shTx = window tx 0xff e.spi.bitCnt)
    (taken : samples = prior.flatMap wireBits ++
      (wireBits (e.blk.cs, tx)).take (e.spi.bitCnt + e.spi.sclk.toNat)) :
    Sampled e (prior ++ [(e.blk.cs, tx)]) samples where
  low off := by simp [run] at off
  waiting go := by simp [still] at go
  moving _ := ⟨prior, tx, rfl, shTx, taken⟩
  idle _ off := by simp [run] at off

theorem bytesOf_wired (b c : Blk) :
    bytesOf (b.wired c) = if c.go then [(c.cs, c.tx)] else [] := by
  unfold Blk.wired
  split_ifs <;> rfl

/-- The clock does not start by itself. -/
theorem sclk_of_rest (rest : d.spi.run = false) : (d.next p i).spi.sclk = false := by
  cases go : d.blk.go <;> simp [next, Spi.next, rest, go]

theorem sampled_idle (idle : d.idle = true) (sampled : Sampled d bytes samples) :
    Sampled (d.next p i) (bytes ++ bytesOf (d.wire p i)) (samples ++ d.sample p i) := by
  obtain ⟨go, rest, -⟩ := idle_iff.mp idle
  have clock := sclk_of_rest (p := p) (i := i) rest
  have none : d.sample p i = [] := by simp [sample, clock]
  rw [wire, if_pos idle, bytesOf_wired, none, List.append_nil]
  exact Sampled.of_still (next_of_idle idle i).2.1 clock (sampled.idle go rest)

/-- A byte that is going out, for one edge. -/
theorem sampled_moving (linked : Linked d) (run : d.spi.run = true) (sampled : Sampled d bytes samples) :
    Sampled (d.next p i) bytes (samples ++ d.sample p i) := by
  obtain ⟨prior, tx, rfl, shTx, taken⟩ := sampled.moving run
  have bit := (linked.run_paced run).bit
  have busy : d.idle = false := by simp [idle, Blk.spiIdle, run]
  have same := next_of_busy (p := p) busy i
  have still : (d.next p i).blk.go = false := by rw [same]; rfl
  have cs : (d.next p i).blk.cs = d.blk.cs := by rw [same]; rfl
  have spi : (d.next p i).spi = d.spi.next d.blk.div d.blk.go d.blk.tx i.miso := rfl
  simp only [Spi.next, run, Bool.not_true, Bool.false_eq_true, if_false] at spi
  split_ifs at spi with early low last
  · have none : d.sample p i = [] := by simp [sample, spi]
    rw [none, List.append_nil, ← cs]
    refine .of_moving still (by rw [spi]) ?_ ?_
    · rw [spi]
      exact shTx
    · rw [taken, cs, spi]
  · have off : d.spi.sclk = false := by simpa using low
    have shown : d.sample p i = [(d.blk.cs, tx.getLsbD (7 - d.spi.bitCnt))] := by
      rw [← window_top tx 0xff bit, ← shTx]
      simp [sample, spi, off, cs, Spi.mosi]
    rw [off, Bool.toNat_false, Nat.add_zero] at taken
    rw [← cs]
    refine .of_moving still (by rw [spi]) ?_ ?_
    · rw [spi]
      exact shTx
    · rw [taken, shown, cs, spi, Bool.toNat_true, take_wireBits_succ _ _ bit, List.append_assoc]
  · have on : d.spi.sclk = true := by simpa using low
    have none : d.sample p i = [] := by simp [sample, spi]
    rw [on, last, Bool.toNat_true, take_wireBits_all] at taken
    have whole : Sampled (d.next p i) (prior ++ [(d.blk.cs, tx)] ++
        if (d.next p i).blk.go then [((d.next p i).blk.cs, (d.next p i).blk.tx)] else []) samples :=
      .of_still (by rw [spi]) (by rw [spi]) (by rw [taken]; simp)
    rw [none, List.append_nil]
    simpa [still] using whole
  · have on : d.spi.sclk = true := by simpa using low
    have none : d.sample p i = [] := by simp [sample, spi]
    have small : (d.spi.bitCnt + 1) % 2 ^ 3 = d.spi.bitCnt + 1 := Nat.mod_eq_of_lt (by omega)
    rw [on, Bool.toNat_true] at taken
    rw [none, List.append_nil, ← cs]
    refine .of_moving still (by rw [spi]) ?_ ?_
    · rw [spi]
      simp only [small]
      rw [shTx, shift_ones tx bit]
    · rw [taken, cs, spi]
      simp only [small, Bool.toNat_false, Nat.add_zero]

theorem sampled_next (linked : Linked d) (sampled : Sampled d bytes samples) :
    Sampled (d.next p i) (bytes ++ bytesOf (d.wire p i)) (samples ++ d.sample p i) := by
  cases idle : d.idle with
  | true => exact sampled_idle idle sampled
  | false =>
      have silent : bytesOf (d.wire p i) = [] := by simp [wire, idle, bytesOf]
      have same := next_of_busy (p := p) idle i
      have still : (d.next p i).blk.go = false := by rw [same]; rfl
      have cs : (d.next p i).blk.cs = d.blk.cs := by rw [same]; rfl
      rw [silent, List.append_nil]
      cases run : d.spi.run with
      | true => exact sampled_moving linked run sampled
      | false =>
          have clock := sclk_of_rest (p := p) (i := i) run
          have none : d.sample p i = [] := by simp [sample, clock]
          rw [none, List.append_nil]
          cases go : d.blk.go with
          | true =>
              obtain ⟨prior, rfl, taken⟩ := sampled.waiting go
              have begun : (d.next p i).spi.run = true ∧ (d.next p i).spi.shTx = d.blk.tx ∧
                  (d.next p i).spi.bitCnt = 0 := by
                simp [next, Spi.next, run, go]
              rw [← cs]
              refine .of_moving still begun.1 ?_ ?_
              · rw [begun.2.1, begun.2.2, window_zero]
              · rw [begun.2.2, clock, taken]
                simp
          | false =>
              have stopped : (d.next p i).spi.run = false :=
                (Spi.next_of_rest run d.blk.div d.blk.go d.blk.tx i.miso).1.trans go
              have whole : Sampled (d.next p i) (bytes ++
                  if (d.next p i).blk.go then [((d.next p i).blk.cs, (d.next p i).blk.tx)] else [])
                  samples := .of_still stopped clock (sampled.idle go run)
              simpa [still] using whole

/-- In any case no bit is sampled that is not of a byte sent. -/
theorem Sampled.bits_within (sampled : Sampled d bytes samples) :
    samples <+: bytes.flatMap wireBits := by
  cases go : d.blk.go with
  | true =>
      obtain ⟨prior, rfl, taken⟩ := sampled.waiting go
      rw [taken, List.flatMap_append]
      exact List.prefix_append _ _
  | false =>
      cases run : d.spi.run with
      | true =>
          obtain ⟨prior, tx, rfl, -, taken⟩ := sampled.moving run
          rw [taken, List.flatMap_append, List.flatMap_singleton, List.prefix_append_right_inj]
          exact List.take_prefix _ _
      | false => rw [sampled.idle go run]

end Step

/-! ## Runs -/

section Run

variable (p : Params) (input : ℕ → Input)

/-- What has gone over the wires before cycle `t`. -/
def wires (t : ℕ) : List Wire :=
  Clocked.trace (fun u => (run p input u).wire p (input u)) 0 t

/-- What the card has sampled before cycle `t`. -/
def samples (t : ℕ) : List (Bool × Bool) :=
  Clocked.trace (fun u => (run p input u).sample p (input u)) 0 t

theorem carries_run (t : ℕ) : Carries (run p input t).blk (wires p input t) := by
  induction t with
  | zero => exact ⟨rfl, rfl⟩
  | succ t ih =>
      rw [run_succ, wires, Clocked.trace_succ _ (Nat.zero_le t)]
      cases idle : (run p input t).idle with
      | false =>
          have silent : (run p input t).wire p (input t) = [] := by simp [wire, idle]
          rw [next_of_busy idle, silent, List.append_nil]
          exact ih
      | true =>
          rw [wire, idle, if_pos rfl, (next_of_idle idle (input t)).1]
          exact carries_visit (placed_run input t).tickMs ((run p input t).blk.quiet_tickMs p) ih

theorem sampled_run (t : ℕ) :
    Sampled (run p input t) (bytesOf (wires p input t)) (samples p input t) := by
  induction t with
  | zero =>
      refine ⟨fun _ => rfl, ?_, ?_, fun _ _ => rfl⟩ <;> simp [run, reset, Blk.reset]
  | succ t ih =>
      rw [run_succ, wires, samples, Clocked.trace_succ _ (Nat.zero_le t),
        Clocked.trace_succ _ (Nat.zero_le t), bytesOf_append]
      exact sampled_next (linked_run p input t) ih

end Run

/-- The wires to the card in every run. -/
structure Framed (p : Params) (input : ℕ → Input) : Prop where
  /-- Ten bytes of ones deselected; then each command one byte of ones deselected, its six bytes
  selected, with index and argument as the issuing state has set them, and bytes selected until the
  next; the last command may be under way. -/
  legal : ∀ t, Legal (wires p input t)
  /-- The card samples the bits of those bytes, the most significant first, and no others. -/
  sampled : ∀ t, samples p input t <+: (bytesOf (wires p input t)).flatMap wireBits ∧
    ((run p input t).idle = true →
      samples p input t = (bytesOf (wires p input t)).flatMap wireBits)
  /-- Eighty pulses deselected, MOSI high, come before any pulse selected. -/
  woken : ∀ t before mosi after, samples p input t = before ++ (true, mosi) :: after →
    80 ≤ before.count (false, true)
  /-- Chip select moves only while no byte is under way and the clock is low. -/
  steady : ∀ t, (run p input (t + 1)).blk.cs ≠ (run p input t).blk.cs →
    (run p input t).blk.go = false ∧ (run p input t).spi.run = false ∧
      (run p input t).spi.sclk = false ∧ (run p input (t + 1)).spi.sclk = false

theorem woken_of_prefix {samples rest before after : List (Bool × Bool)} {mosi : Bool}
    (within : samples <+: List.replicate 80 (false, true) ++ rest)
    (split : samples = before ++ (true, mosi) :: after) : 80 ≤ before.count (false, true) := by
  have long : 80 ≤ before.length := by
    by_contra short
    obtain ⟨more, whole⟩ := within
    have there : (List.replicate 80 (false, true) ++ rest)[before.length]? = some (true, mosi) := by
      rw [← whole, split]
      simp
    rw [List.getElem?_append_left (by simpa using short), List.getElem?_replicate_of_lt (by omega)]
      at there
    simp at there
  have opens : List.replicate 80 (false, true) <+: before := by
    refine List.prefix_of_prefix_length_le (List.prefix_append _ rest) ?_ (by simpa using long)
    refine List.IsPrefix.trans ?_ within
    rw [split]
    exact List.prefix_append _ _
  have counted := opens.sublist.count_le (false, true)
  rwa [List.count_replicate_self] at counted

theorem framed_legally (p : Params) (input : ℕ → Input) : Framed p input where
  legal t := (carries_run p input t).legal
  sampled t := by
    refine ⟨(sampled_run p input t).bits_within, fun idle => ?_⟩
    obtain ⟨go, rest, -⟩ := idle_iff.mp idle
    exact (sampled_run p input t).idle go rest
  woken t before mosi after split := by
    obtain ⟨talks, within⟩ := (carries_run p input t).legal
    have first : (bytesOf wakeUp).flatMap wireBits = List.replicate 80 (false, true) := by decide
    have bytes : bytesOf (wires p input t) <+: bytesOf wakeUp ++ bytesOf (talks.flatMap Talk.wires) := by
      rw [← bytesOf_append]
      exact within.filterMap _
    have bits := ((sampled_run p input t).bits_within).trans (bytes.flatMap wireBits)
    rw [List.flatMap_append, first] at bits
    exact woken_of_prefix bits split
  steady t moved := by
    cases idle : (run p input t).idle with
    | false =>
        rw [run_succ, next_of_busy idle] at moved
        exact absurd rfl moved
    | true =>
        obtain ⟨go, rest, -⟩ := idle_iff.mp idle
        exact ⟨go, rest, (sampled_run p input t).low rest, sclk_of_rest rest⟩

end Dev

end Wish5380.Sd
