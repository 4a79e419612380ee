import Wish5380.Sd.Checks
import Wish5380.Sd.Places

/-!
# What a successful answer rests on

Against an arbitrary card, `done` without `err` is given only on evidence: for a read
a response, a token, 512 bytes that went to the buffer in order and the two check bytes
that belong to them; for a write a response, the block of the buffer sent, its
acceptance and the end of the card's busy time.
-/

namespace Wish5380.Sd

open Polynomial

/-! ## Pieces of a history -/

/-- Neither takes nor answers a request. -/
def Event.inside : Event → Bool
  | .accept .. => false
  | .answer _ => false
  | _ => true

/-- Nor writes to the buffer. -/
def Event.plain : Event → Bool
  | .accept .. => false
  | .answer _ => false
  | .store .. => false
  | _ => true

/-- A byte going one way or the other. -/
def Event.traffic : Event → Bool
  | .start _ => true
  | .got _ => true
  | _ => false

/-- Idle bytes sent, and what came back. -/
def poll (xs : List Byte) : List Event :=
  xs.flatMap fun v => [Event.start 0xff, .got v]

/-- A block received, each byte written to the buffer in its place. -/
def stored (data : List Byte) : List Event :=
  data.zipIdx.flatMap fun e => [Event.start 0xff, .got e.1, .store (BitVec.ofNat 9 e.2) e.1]

/-- A block sent, each byte loaded from its place in the buffer; the second of a pair is
what came back. -/
def sent (data : List (Byte × Byte)) : List Event :=
  data.zipIdx.flatMap fun e => [Event.load (BitVec.ofNat 9 e.2) e.1.1, .start e.1.1, .got e.1.2]

/-- A request in the direction `we` has been taken, and since then only `ok` events seen. -/
def Under (we : Bool) (ok : Event → Bool) (log : List Event) : Prop :=
  ∃ before lba since, log = before ++ Event.accept we lba :: since ∧ ∀ e ∈ since, ok e = true

/-- Its command was answered with an R1 of zero. -/
def Granted (we : Bool) (log : List Event) : Prop :=
  ∃ before, log = before ++ [Event.got 0x00, .r1 0x00] ∧ Under we Event.plain before

/-- After that a start token came. -/
def Token (log : List Event) : Prop :=
  ∃ before xs, log = before ++ poll (xs ++ [0xfe]) ∧ Granted false before

/-- A read that has all it needs. -/
def ReadDone (log : List Event) : Prop :=
  ∃ before data hi lo, log = before ++ stored data ++ poll [hi, lo] ∧ Token before ∧
    data.length = 512 ∧ hi ++ lo = crc16 data

/-- After an R1 of zero, an idle byte and the start token went out. -/
def Begun (log : List Event) : Prop :=
  ∃ before x y, log = before ++ poll [x] ++ [Event.start 0xfe, .got y] ∧ Granted true before

/-- And then the buffer with its check bytes, the second on its way. -/
def Carried (log : List Event) : Prop :=
  ∃ before data hi x lo, log = before ++ sent data ++ [Event.start hi, .got x, .packet, .start lo] ∧
    Begun before ∧ data.length = 512 ∧ hi ++ lo = crc16 (data.map Prod.fst)

/-- A write that has all it needs: the block accepted, and the busy time over. -/
def WriteDone (log : List Event) : Prop :=
  ∃ before waits v n w,
    log = before ++ waits ++ [Event.got v, .response v] ++ poll (List.replicate n 0x00 ++ [w]) ∧
    Carried before ∧ (∀ e ∈ waits, e.traffic = true) ∧ v &&& 0x1f = 0x05 ∧ w ≠ 0x00

/-- When an answer without error, and a write to the buffer, is due. -/
def Due (log : List Event) : Event → Prop
  | .answer false => ReadDone log ∨ WriteDone log
  | .store .. => Under false Event.inside log
  | _ => True

/-! ## The invariant -/

/-- Where the command helper goes back to on behalf of a request. -/
def St.asked (we : Bool) : St :=
  if we then .wrCmdR else .rdCmdR

/-- What each state of a request has behind it. -/
def Behind (b : Blk) (rx : Byte) (log : List Event) : Prop :=
  match b.st with
  | .rdCmd => Under false Event.plain log
  | .wrCmd => Under true Event.plain log
  | .cSend => ∀ we, b.ret = St.asked we → Under we Event.plain log
  | .cR1 => ∀ we, b.ret = St.asked we →
      ∃ before, log = before ++ [Event.got rx] ∧ Under we Event.plain before
  | .rdCmdR => b.r1 = 0x00 → Granted false log
  | .wrCmdR => b.r1 = 0x00 → Granted true log
  | .rdTok => ∃ before xs, log = before ++ poll (xs ++ [rx]) ∧ Granted false before
  | .rdDat => ∃ before data, log = before ++ stored data ++ poll [rx] ∧ Token before ∧
      data.length = b.bcnt ∧ b.bcnt ≤ 511 ∧ b.crc16 = crc16 data
  | .rdCrc => ∃ before data check, log = before ++ stored data ++ poll (check ++ [rx]) ∧
      Token before ∧ data.length = 512 ∧ check.length = b.bcnt ∧ b.bcnt ≤ 1 ∧
      b.crc16 = crc16 (data ++ check)
  | .wrPre => (∃ before, log = before ++ poll [rx] ∧ Granted true before) ∧ b.bufAddr = 0
  | .wrTok => Begun log ∧ b.bufAddr = 0 ∧ b.bcnt = 0 ∧ b.crc16 = 0
  | .wrDat => ∃ before data, log = before ++ sent data ∧ Begun before ∧
      data.length = b.bcnt + 1 ∧ b.bcnt ≤ 510 ∧ b.bufAddr = BitVec.ofNat 9 (b.bcnt + 1) ∧
      b.crc16 = crc16 (data.map Prod.fst)
  | .wrCrc => ∃ before data check, log = before ++ sent data ++ check ∧ Begun before ∧
      data.length = 512 ∧ b.crc16 = crc16 (data.map Prod.fst) ∧
      (b.bcnt = 0 ∧ check = [] ∨
        b.bcnt = 1 ∧ ∃ x, check = [Event.start (b.crc16.extractLsb' 8 8), .got x])
  | .wrResp => ∃ before waits, log = before ++ waits ++ [Event.got rx] ∧ Carried before ∧
      ∀ e ∈ waits, e.traffic = true
  | .wrBusy => b.err = false → ∃ before waits v n,
      log = before ++ waits ++ [Event.got v, .response v] ++ poll (List.replicate n 0x00 ++ [rx]) ∧
      Carried before ∧ (∀ e ∈ waits, e.traffic = true) ∧ v &&& 0x1f = 0x05
  | .finish => b.err = false → ReadDone log ∨ WriteDone log
  | _ => True

/-- The whole invariant. -/
def Sound (b : Blk) (rx : Byte) (log : List Event) : Prop :=
  Clocked.Justified Due log ∧ Behind b rx log

/-! ## Building up a history -/

theorem poll_append (xs ys : List Byte) : poll (xs ++ ys) = poll xs ++ poll ys :=
  List.flatMap_append

theorem stored_snoc (data : List Byte) (v : Byte) :
    stored (data ++ [v]) =
      stored data ++ [Event.start 0xff, .got v, .store (BitVec.ofNat 9 data.length) v] := by
  simp [stored, List.zipIdx_append]

theorem sent_snoc (data : List (Byte × Byte)) (v x : Byte) :
    sent (data ++ [(v, x)]) =
      sent data ++ [Event.load (BitVec.ofNat 9 data.length) v, .start v, .got x] := by
  simp [sent, List.zipIdx_append]

theorem inside_poll {xs : List Byte} {e : Event} (member : e ∈ poll xs) : e.inside = true := by
  simp only [poll, List.mem_flatMap] at member
  obtain ⟨v, -, same⟩ := member
  aesop

theorem inside_stored {data : List Byte} {e : Event} (member : e ∈ stored data) :
    e.inside = true := by
  simp only [stored, List.mem_flatMap] at member
  obtain ⟨v, -, same⟩ := member
  aesop

theorem inside_sent {data : List (Byte × Byte)} {e : Event} (member : e ∈ sent data) :
    e.inside = true := by
  simp only [sent, List.mem_flatMap] at member
  obtain ⟨v, -, same⟩ := member
  aesop

theorem Under.append {we : Bool} {ok : Event → Bool} {log more : List Event}
    (under : Under we ok log) (fine : ∀ e ∈ more, ok e = true) : Under we ok (log ++ more) := by
  obtain ⟨before, lba, since, rfl, clean⟩ := under
  refine ⟨before, lba, since ++ more, by simp, fun e member => ?_⟩
  rcases List.mem_append.mp member with earlier | later
  · exact clean e earlier
  · exact fine e later

theorem Under.inside {we : Bool} {log : List Event} (under : Under we Event.plain log) :
    Under we Event.inside log := by
  obtain ⟨before, lba, since, rfl, clean⟩ := under
  refine ⟨before, lba, since, rfl, fun e member => ?_⟩
  have plain := clean e member
  cases e <;> simp_all [Event.plain, Event.inside]

theorem Granted.inside {we : Bool} {log : List Event} (granted : Granted we log) :
    Under we Event.inside log := by
  obtain ⟨before, rfl, under⟩ := granted
  exact under.inside.append (by simp [Event.inside])

theorem Token.inside {log : List Event} (token : Token log) : Under false Event.inside log := by
  obtain ⟨before, xs, rfl, granted⟩ := token
  exact granted.inside.append fun e member => inside_poll member

theorem Begun.inside {log : List Event} (begun : Begun log) : Under true Event.inside log := by
  obtain ⟨before, x, y, rfl, granted⟩ := begun
  refine (granted.inside.append fun e member => inside_poll member).append ?_
  simp [Event.inside]

theorem justified_plain {log more : List Event} (justified : Clocked.Justified Due log)
    (plain : ∀ e ∈ more, e.plain = true) : Clocked.Justified Due (log ++ more) := by
  refine justified.append fun e member before => ?_
  have easy := plain e member
  cases e <;> simp_all [Due, Event.plain]

/-! ## Every visit keeps it -/

section Visit

variable {p : Params} {b : Blk} {req : BlkReq} {rx : Byte} {ms : ℕ} {log : List Event}

theorem sound_rdCmdR (quiet : Quiet b) (st : b.st = .rdCmdR) (sound : Sound b rx log) :
    Kept p Sound b req rx ms log := by
  obtain ⟨justified, behind⟩ := sound
  simp only [Behind, st] at behind
  rw [kept_rdCmdR quiet st]
  constructor
  · intro granted got
    exact ⟨justified_plain justified (by simp [Event.plain]), log, [], rfl, behind granted⟩
  · intro refused got
    exact ⟨justified_plain justified (by simp [Event.plain]), by simp [Behind, Blk.fail, Blk.send]⟩

theorem sound_rdTok (quiet : Quiet b) (st : b.st = .rdTok) (sound : Sound b rx log) :
    Kept p Sound b req rx ms log := by
  obtain ⟨justified, behind⟩ := sound
  simp only [Behind, st] at behind
  obtain ⟨before, xs, rfl, granted⟩ := behind
  rw [kept_rdTok quiet st]
  refine ⟨?_, fun _ _ => ⟨justified, by simp [Behind, Blk.fail]⟩, fun _ _ got => ⟨?_, ?_⟩⟩
  · rintro rfl got
    refine ⟨justified_plain justified (by simp [Event.plain]), ?_⟩
    exact ⟨_, [], by simp [stored, poll], ⟨before, xs, rfl, granted⟩, rfl, Nat.zero_le _, rfl⟩
  · exact justified_plain justified (by simp [Event.plain])
  · simp only [Behind, Blk.send, st]
    exact ⟨before, xs ++ [rx], by simp [poll], granted⟩

theorem sound_rdDat (quiet : Quiet b) (st : b.st = .rdDat) (sound : Sound b rx log) :
    Kept p Sound b req rx ms log := by
  obtain ⟨justified, behind⟩ := sound
  simp only [Behind, st] at behind
  obtain ⟨before, data, rfl, token, length, bound, check⟩ := behind
  rw [kept_rdDat quiet st]
  have due : Due (before ++ stored data ++ poll [rx]) (.store (BitVec.ofNat 9 b.bcnt) rx) :=
    (token.inside.append fun _ member => inside_stored member).append
      fun _ member => inside_poll member
  have justified' (got : Byte) : Clocked.Justified Due (before ++ stored data ++ poll [rx] ++
      [Event.store (BitVec.ofNat 9 b.bcnt) rx, .start 0xff, .got got]) := by
    have rest : ∀ e ∈ [Event.start 0xff, .got got], e.plain = true := by simp [Event.plain]
    simpa using justified_plain (justified.snoc due) rest
  have shape (got : Byte) : before ++ stored data ++ poll [rx] ++
      [Event.store (BitVec.ofNat 9 b.bcnt) rx, .start 0xff, .got got] =
      before ++ stored (data ++ [rx]) ++ poll [got] := by
    simp [stored_snoc, poll, length]
  have register : crc16Byte b.crc16 rx = crc16 (data ++ [rx]) := by rw [crc16_snoc, check]
  constructor
  · intro last got
    refine ⟨justified' got, before, data ++ [rx], [], shape got, token, ?_, rfl, Nat.zero_le _, ?_⟩
    · simp [length, last]
    · rw [List.append_nil]
      exact register
  · intro more got
    have next : (b.bcnt + 1) % 2 ^ 10 = b.bcnt + 1 := Nat.mod_eq_of_lt (by omega)
    refine ⟨justified' got, ?_⟩
    simp only [Behind, Blk.send, Blk.count, Blk.taken, st, next]
    exact ⟨before, data ++ [rx], shape got, token, by simp [length], by omega, register⟩

theorem sound_rdCrc (quiet : Quiet b) (st : b.st = .rdCrc) (sound : Sound b rx log) :
    Kept p Sound b req rx ms log := by
  obtain ⟨justified, behind⟩ := sound
  simp only [Behind, st] at behind
  obtain ⟨before, data, check, rfl, token, length, one, bound, register⟩ := behind
  rw [kept_rdCrc quiet st]
  refine ⟨fun last clean => ⟨justified, fun _ => .inl ?_⟩,
    fun last bad => ⟨justified, by simp [Behind, Blk.fail]⟩, fun more got => ⟨?_, ?_⟩⟩
  · obtain ⟨hi, rfl⟩ := List.length_eq_one_iff.mp (one.trans last)
    refine ⟨before, data, hi, rx, rfl, token, length, ?_⟩
    rw [← crc16_check_iff, show data ++ [hi, rx] = data ++ [hi] ++ [rx] by simp, crc16_snoc,
      ← register]
    exact clean
  · exact justified_plain justified (by simp [Event.plain])
  · obtain rfl : check = [] := List.eq_nil_of_length_eq_zero (by omega)
    have first : b.bcnt = 0 := one.symm
    simp only [Behind, Blk.send, Blk.count, st, first]
    exact ⟨before, data, [rx], by simp [poll], token, length, rfl, Nat.le_refl 1,
      by rw [crc16_snoc, register, List.append_nil]⟩

theorem sound_wrCmdR (quiet : Quiet b) (st : b.st = .wrCmdR) (sound : Sound b rx log) :
    Kept p Sound b req rx ms log := by
  obtain ⟨justified, behind⟩ := sound
  simp only [Behind, st] at behind
  rw [kept_wrCmdR quiet st]
  constructor
  · intro granted got
    exact ⟨justified_plain justified (by simp [Event.plain]), ⟨log, rfl, behind granted⟩, rfl⟩
  · intro refused
    exact ⟨justified, by simp [Behind, Blk.fail]⟩

theorem sound_wrPre (quiet : Quiet b) (st : b.st = .wrPre) (sound : Sound b rx log) :
    Kept p Sound b req rx ms log := by
  obtain ⟨justified, behind⟩ := sound
  simp only [Behind, st] at behind
  obtain ⟨⟨before, rfl, granted⟩, address⟩ := behind
  rw [kept_wrPre quiet st]
  intro got
  exact ⟨justified_plain justified (by simp [Event.plain]), ⟨before, rx, got, rfl, granted⟩,
    address, rfl, rfl⟩

theorem sound_wrTok (quiet : Quiet b) (st : b.st = .wrTok) (sound : Sound b rx log) :
    Kept p Sound b req rx ms log := by
  obtain ⟨justified, behind⟩ := sound
  simp only [Behind, st] at behind
  obtain ⟨begun, address, first, empty⟩ := behind
  rw [kept_wrTok quiet st]
  intro got
  refine ⟨justified_plain justified (by simp [Event.plain]), ?_⟩
  simp only [Blk.stepWrTok, Blk.send, Behind, first, empty, address]
  exact ⟨log, [(req.bufRdata, got)], by simp [sent], begun, rfl, by omega, rfl, by simp [crc16]⟩

theorem sound_wrDat (quiet : Quiet b) (st : b.st = .wrDat) (sound : Sound b rx log) :
    Kept p Sound b req rx ms log := by
  obtain ⟨justified, behind⟩ := sound
  simp only [Behind, st] at behind
  obtain ⟨before, data, rfl, begun, length, bound, address, check⟩ := behind
  rw [kept_wrDat quiet st]
  have shape (got : Byte) : before ++ sent data ++
      [Event.load b.bufAddr req.bufRdata, .start req.bufRdata, .got got] =
      before ++ sent (data ++ [(req.bufRdata, got)]) := by
    simp [sent_snoc, length, address]
  have register (got : Byte) : crc16Byte b.crc16 req.bufRdata =
      crc16 ((data ++ [(req.bufRdata, got)]).map Prod.fst) := by
    rw [List.map_append, List.map_singleton, crc16_snoc, check]
  constructor
  · intro last got
    refine ⟨justified_plain justified (by simp [Event.plain]), before, data ++ [(req.bufRdata, got)],
      [], ?_, begun, ?_, register got, .inl ⟨rfl, rfl⟩⟩
    · rw [shape, List.append_nil]
    · simp [length, last]
  · intro more got
    have next : (b.bcnt + 1) % 2 ^ 10 = b.bcnt + 1 := Nat.mod_eq_of_lt (by omega)
    refine ⟨justified_plain justified (by simp [Event.plain]), ?_⟩
    simp only [Behind, Blk.send, Blk.count, Blk.given, st, next]
    refine ⟨before, data ++ [(req.bufRdata, got)], shape got, begun, by simp [length], by omega, ?_,
      register got⟩
    rw [address]
    exact (BitVec.ofNat_add (b.bcnt + 1) 1).symm

theorem sound_wrCrc (quiet : Quiet b) (st : b.st = .wrCrc) (sound : Sound b rx log) :
    Kept p Sound b req rx ms log := by
  obtain ⟨justified, behind⟩ := sound
  simp only [Behind, st] at behind
  obtain ⟨before, data, check, rfl, begun, length, register, place⟩ := behind
  rw [kept_wrCrc quiet st]
  constructor
  · intro first got
    have empty : check = [] := by
      rcases place with ⟨-, empty⟩ | ⟨second, -⟩
      · exact empty
      · omega
    refine ⟨justified_plain justified (by simp [Event.plain]), ?_⟩
    simp only [Behind, Blk.send, Blk.count, st]
    exact ⟨before, data, [Event.start (b.crc16.extractLsb' 8 8), .got got], by simp [empty], begun, length,
      register, .inr ⟨by simp [first], got, rfl⟩⟩
  · intro second got
    obtain ⟨x, rfl⟩ : ∃ x, check = [Event.start (b.crc16.extractLsb' 8 8), .got x] := by
      rcases place with ⟨first, -⟩ | ⟨-, known⟩
      · exact absurd first second
      · exact known
    refine ⟨justified_plain justified (by simp [Event.plain]), ?_⟩
    refine ⟨before ++ sent data ++ [Event.start (b.crc16.extractLsb' 8 8), .got x, .packet,
      .start (b.crc16.extractLsb' 0 8)], [], by simp, ⟨before, data, _, x, _, rfl, begun, length, ?_⟩,
      by simp⟩
    rw [← register]
    exact BitVec.extractLsb'_append_extractLsb'

/-- The two tests of the data response are one. -/
theorem accepted_iff {v : Byte} : v &&& 0x11 = 0x01 ∧ v &&& 0x0e = 0x04 ↔ v &&& 0x1f = 0x05 := by
  revert v
  decide

theorem sound_wrResp (quiet : Quiet b) (st : b.st = .wrResp) (sound : Sound b rx log) :
    Kept p Sound b req rx ms log := by
  obtain ⟨justified, behind⟩ := sound
  simp only [Behind, st] at behind
  obtain ⟨before, waits, rfl, carried, traffic⟩ := behind
  rw [kept_wrResp quiet st]
  refine ⟨fun response got => ?_, fun _ late got => ?_, fun _ more got => ?_⟩
  · refine ⟨justified_plain justified (by simp [Event.plain]), fun accepted => ?_⟩
    refine ⟨before, waits, rx, 0, by simp [poll], carried, traffic, ?_⟩
    have taken : rx &&& 0x0e = 0x04 ∧ b.err = false := by simpa [Blk.send] using accepted
    exact accepted_iff.mp ⟨response, taken.1⟩
  · exact ⟨justified_plain justified (by simp [Event.plain]), by simp [Behind, Blk.fail, Blk.send]⟩
  · refine ⟨justified_plain justified (by simp [Event.plain]), ?_⟩
    simp only [Behind, Blk.send, st]
    refine ⟨before, waits ++ [Event.got rx, .start 0xff], by simp, carried, fun e member => ?_⟩
    rcases List.mem_append.mp member with earlier | later
    · exact traffic e earlier
    · revert later
      simp only [List.mem_cons, List.not_mem_nil, or_false]
      rintro (rfl | rfl) <;> rfl

theorem sound_wrBusy (quiet : Quiet b) (st : b.st = .wrBusy) (sound : Sound b rx log) :
    Kept p Sound b req rx ms log := by
  obtain ⟨justified, behind⟩ := sound
  simp only [Behind, st] at behind
  rw [kept_wrBusy quiet st]
  refine ⟨fun free => ⟨justified, fun good => .inr ?_⟩,
    fun _ late => ⟨justified, by simp [Behind, Blk.fail]⟩, fun low more got => ⟨?_, ?_⟩⟩
  · obtain ⟨before, waits, v, n, shape, carried, traffic, accepted⟩ := behind good
    exact ⟨before, waits, v, n, rx, shape, carried, traffic, accepted, free⟩
  · exact justified_plain justified (by simp [Event.plain])
  · simp only [Behind, Blk.send, st]
    intro good
    obtain ⟨before, waits, v, n, rfl, carried, traffic, accepted⟩ := behind good
    refine ⟨before, waits, v, n + 1, ?_, carried, traffic, accepted⟩
    rw [low, List.replicate_succ', poll_append _ [got]]
    simp [poll]

/-- Back from the helper, which has to have seen an R1 of zero if one is in the register. -/
theorem behind_return {c : Blk} {j : BitVec 6 × Bool} (job : c.st.job = some j)
    (granted : ∀ we, c.st = St.asked we → c.r1 = 0x00 → Granted we log) : Behind c rx log := by
  cases st : c.st
  case rdCmdR =>
    simp only [Behind, st]
    exact granted false (by simp [st, St.asked])
  case wrCmdR =>
    simp only [Behind, st]
    exact granted true (by simp [st, St.asked])
  case cmd0R | cmd8R | cmd55R | acmd41R | cmd58R | cmd16R | cmd9R =>
    simp [Behind, st]
  all_goals simp [st, St.job] at job

theorem sound_cSend (quiet : Quiet b) (st : b.st = .cSend) (sound : Sound b rx log) :
    Kept p Sound b req rx ms log := by
  obtain ⟨justified, behind⟩ := sound
  simp only [Behind, st] at behind
  rw [kept_cSend quiet st]
  constructor
  · intro last got
    refine ⟨justified_plain justified (by simp [Event.plain]), fun we back => ?_⟩
    refine ⟨log ++ [Event.command b.cmdIdx b.cmdArg, .start b.cmdByte], by simp, ?_⟩
    exact (behind we back).append (by simp [Event.plain])
  · intro more got
    refine ⟨justified_plain justified (by simp [Event.plain]), ?_⟩
    simp only [Behind, Blk.send, Blk.count, st]
    exact fun we back => (behind we back).append (by simp [Event.plain])

theorem sound_cR1 (quiet : Quiet b) (placed : Placed b) (st : b.st = .cR1)
    (sound : Sound b rx log) : Kept p Sound b req rx ms log := by
  obtain ⟨justified, behind⟩ := sound
  simp only [Behind, st] at behind
  have job := placed.job (by simp [st, St.helper])
  rw [kept_cR1 quiet st]
  refine ⟨fun low extra got => ⟨?_, trivial⟩, fun low extra => ⟨?_, ?_⟩,
    fun high late => ⟨?_, ?_⟩, fun high more got => ⟨?_, ?_⟩⟩
  · exact justified_plain justified (by simp [Event.plain])
  · exact justified_plain justified (by simp [Event.plain])
  · refine behind_return job fun we back zero => ?_
    obtain ⟨before, rfl, under⟩ := behind we back
    replace zero : rx = 0x00 := zero
    exact ⟨before, by simp [zero], under⟩
  · exact justified_plain justified (by simp [Event.plain])
  · exact behind_return job fun we back (zero : (0xff : Byte) = 0x00) =>
      absurd zero (by decide)
  · exact justified_plain justified (by simp [Event.plain])
  · simp only [Behind, Blk.send, Blk.count, st]
    intro we back
    obtain ⟨before, rfl, under⟩ := behind we back
    refine ⟨before ++ [Event.got rx, .start 0xff], by simp, ?_⟩
    exact under.append (by simp [Event.plain])

theorem sound_cExtra (quiet : Quiet b) (placed : Placed b) (st : b.st = .cExtra)
    (sound : Sound b rx log) : Kept p Sound b req rx ms log := by
  obtain ⟨justified, -⟩ := sound
  have job := placed.job (by simp [st, St.helper])
  rw [placed.extra st] at job
  rw [kept_cExtra quiet st]
  refine ⟨fun last => ⟨justified, ?_⟩, fun more got => ⟨?_, ?_⟩⟩
  · refine behind_return job fun we back => ?_
    replace back : b.ret = St.asked we := back
    cases we <;> simp [back, St.asked, St.job] at job
  · exact justified_plain justified (by simp [Event.plain])
  · simp [Behind, Blk.send, Blk.count, st]

theorem sound_ready (quiet : Quiet b) (st : b.st = .ready) (sound : Sound b rx log) :
    Kept p Sound b req rx ms log := by
  obtain ⟨justified, -⟩ := sound
  rw [kept_ready quiet st]
  refine ⟨fun _ => ⟨justified, by simp [Behind, st]⟩, fun start => ⟨?_, ?_⟩⟩
  · exact justified.snoc trivial
  · cases write : req.we <;> simp only [Blk.stepReady, start, write, Behind] <;>
      exact ⟨log, req.lba, [], rfl, by simp⟩

theorem sound_finish (quiet : Quiet b) (st : b.st = .finish) (sound : Sound b rx log) :
    Kept p Sound b req rx ms log := by
  obtain ⟨justified, behind⟩ := sound
  simp only [Behind, st] at behind
  rw [kept_finish quiet st]
  refine ⟨justified.snoc ?_, by simp [Behind]⟩
  cases err : b.err with
  | true => exact trivial
  | false => exact behind err

/-- Outside a request there is nothing to have behind. -/
theorem sound_initial (quiet : Quiet b) (early : b.st.up = false) (out : b.st.helper = false)
    (sound : Sound b rx log) : Kept p Sound b req rx ms log := by
  obtain ⟨justified, -⟩ := sound
  have plain (got : Byte) : Clocked.Justified Due (log ++ [Event.start 0xff, .got got]) :=
    justified_plain justified (by simp [Event.plain])
  cases st : b.st
  case power =>
    rw [kept_power quiet st, Blk.stepPower]
    split <;> exact ⟨justified, by simp [Behind, st]⟩
  case dummy =>
    rw [kept_dummy quiet st]
    exact ⟨fun _ => ⟨justified, trivial⟩,
      fun _ got => ⟨plain got, by simp [Behind, Blk.send, Blk.count, st]⟩⟩
  case cmd0 =>
    rw [kept_cmd0 quiet st]
    exact ⟨justified, by simp [Behind, Blk.command, St.asked]⟩
  case cmd0R =>
    rw [kept_cmd0R quiet st, Blk.stepCmd0R]
    split_ifs <;> exact ⟨justified, trivial⟩
  case cmd8 =>
    rw [kept_cmd8 quiet st]
    exact ⟨justified, by simp [Behind, Blk.command, St.asked]⟩
  case cmd8R =>
    rw [kept_cmd8R quiet st, Blk.stepCmd8R]
    split_ifs <;> exact ⟨justified, trivial⟩
  case cmd55 =>
    rw [kept_cmd55 quiet st]
    exact ⟨justified, by simp [Behind, Blk.command, St.asked]⟩
  case cmd55R =>
    rw [kept_cmd55R quiet st]
    exact ⟨justified, trivial⟩
  case acmd41 =>
    rw [kept_acmd41 quiet st]
    exact ⟨justified, by simp [Behind, Blk.command, St.asked]⟩
  case acmd41R =>
    rw [kept_acmd41R quiet st, Blk.stepAcmd41R]
    split_ifs <;> exact ⟨justified, trivial⟩
  case cmd58 =>
    rw [kept_cmd58 quiet st]
    exact ⟨justified, by simp [Behind, Blk.command, St.asked]⟩
  case cmd58R =>
    rw [kept_cmd58R quiet st, Blk.stepCmd58R]
    split_ifs <;> exact ⟨justified, trivial⟩
  case cmd16 =>
    rw [kept_cmd16 quiet st]
    exact ⟨justified, by simp [Behind, Blk.command, St.asked]⟩
  case cmd16R =>
    rw [kept_cmd16R quiet st]
    split_ifs <;> exact ⟨justified, trivial⟩
  case cmd9 =>
    rw [kept_cmd9 quiet st]
    exact ⟨justified, by simp [Behind, Blk.command, St.asked]⟩
  case cmd9R =>
    rw [kept_cmd9R quiet st, Blk.stepCmd9R]
    split_ifs <;> exact fun got => ⟨plain got, trivial⟩
  case csdTok =>
    rw [kept_csdTok quiet st, Blk.stepCsdTok]
    split_ifs <;> exact fun got => ⟨plain got, by simp [Behind, Blk.send, st]⟩
  case csdDat =>
    rw [kept_csdDat quiet st, Blk.stepCsdDat]
    split_ifs <;> exact fun got => ⟨plain got, by simp [Behind, Blk.send, Blk.count, st]⟩
  case csdCrc =>
    rw [kept_csdCrc quiet st]
    exact ⟨fun _ => ⟨justified, trivial⟩,
      fun _ got => ⟨plain got, by simp [Behind, Blk.send, Blk.count, st]⟩⟩
  case dead =>
    rw [kept_dead quiet st]
    refine ⟨fun _ => ⟨justified, by simp [Behind, st]⟩, fun start => ⟨justified.snoc trivial, ?_⟩⟩
    simp [Behind, Blk.stepDead, start, st]
  case cSend | cR1 | cExtra =>
    simp [st, St.helper] at out
  all_goals simp [st, St.up] at early

theorem sound_visit (quiet : Quiet b) (placed : Placed b) (sound : Sound b rx log) :
    Kept p Sound b req rx ms log := by
  cases st : b.st
  case ready => exact sound_ready quiet st sound
  case finish => exact sound_finish quiet st sound
  case cSend => exact sound_cSend quiet st sound
  case cR1 => exact sound_cR1 quiet placed st sound
  case cExtra => exact sound_cExtra quiet placed st sound
  case rdCmd =>
    have behind := sound.2
    simp only [Behind, st] at behind
    rw [kept_rdCmd quiet st]
    exact ⟨sound.1, fun we back => by cases we <;> simp_all [Blk.command, St.asked]⟩
  case wrCmd =>
    have behind := sound.2
    simp only [Behind, st] at behind
    rw [kept_wrCmd quiet st]
    exact ⟨sound.1, fun we back => by cases we <;> simp_all [Blk.command, St.asked]⟩
  case rdCmdR => exact sound_rdCmdR quiet st sound
  case rdTok => exact sound_rdTok quiet st sound
  case rdDat => exact sound_rdDat quiet st sound
  case rdCrc => exact sound_rdCrc quiet st sound
  case wrCmdR => exact sound_wrCmdR quiet st sound
  case wrPre => exact sound_wrPre quiet st sound
  case wrTok => exact sound_wrTok quiet st sound
  case wrDat => exact sound_wrDat quiet st sound
  case wrCrc => exact sound_wrCrc quiet st sound
  case wrResp => exact sound_wrResp quiet st sound
  case wrBusy => exact sound_wrBusy quiet st sound
  all_goals exact sound_initial quiet (by simp [st, St.up]) (by simp [st, St.helper]) sound

end Visit

/-! ## Every run -/

namespace Dev

variable (p : Params) (input : ℕ → Input) (t : ℕ)

theorem sound_story : Story Sound (run p input t) (history p input t) :=
  story ⟨.nil, trivial⟩ (fun _ _ _ sound => sound)
    (fun _ _ _ _ _ quiet placed sound => sound_visit quiet placed sound) input t

/-- In every run, every answer without error and every write to the buffer was due. -/
theorem justified_history : Clocked.Justified Due (history p input t) := by
  have story := sound_story p input t
  cases go : (run p input t).blk.go with
  | true => exact (story.busy (.inl go) 0).1.of_append
  | false =>
      cases run : (run p input t).spi.run with
      | true => exact (story.busy (.inr run) 0).1.of_append
      | false => exact (story.rest go run).1

variable {p input t}

theorem idle_of_pulse {d : Dev} {i : Input}
    (pulse : (d.next p i).blk.done = true ∨ (d.next p i).blk.bufWe = true) :
    (d.next p i).blk = (d.blk.tickMs p).step p (d.req i) d.spi.shRx d.blk.ms ∧
      d.emit p i = (d.blk.tickMs p).events p (d.req i) d.spi.shRx d.blk.ms := by
  cases idle : d.idle with
  | false =>
      have waits : d.blk.spiIdle d.spi = false := idle
      simp [next, Blk.next, waits, Blk.tickMs] at pulse
  | true =>
      have visits : d.blk.spiIdle d.spi = true := idle
      obtain ⟨-, stopped, -⟩ := Blk.spiIdle_iff.mp visits
      have silent := (Spi.next_of_rest stopped d.blk.div d.blk.go d.blk.tx i.miso).2.1
      exact ⟨by simp [next, Blk.next, visits], by simp [emit, next, silent, idle]⟩

/-- `done` is the latest event. -/
theorem history_done (done : (run p input t).blk.done = true) :
    ∃ log, history p input t = log ++ [Event.answer (run p input t).blk.err] := by
  cases t with
  | zero => simp [run, reset, Blk.reset] at done
  | succ t =>
      rw [run_succ] at done ⊢
      obtain ⟨moved, told⟩ := idle_of_pulse (.inl done)
      have quiet := (run p input t).blk.quiet_tickMs p
      refine ⟨history p input t, ?_⟩
      rw [history_succ, told]
      rw [moved] at done ⊢
      cases st : ((run p input t).blk.tickMs p).st
      case finish =>
        simp [Blk.events, Blk.told, Blk.pulses, Blk.step, st, quiet.go, quiet.bufWe]
      case dead =>
        cases start : ((run p input t).req (input t)).start <;>
          simp_all [Blk.events, Blk.told, Blk.pulses, Blk.step, Blk.stepDead, quiet.go, quiet.bufWe,
            quiet.done]
      all_goals
        rw [(leaves_step ..).done (by simp [st]) (by simp [st]), quiet.done] at done
        simp at done

/-- A write to the buffer is the latest event, but for the byte that is sent with it. -/
theorem history_bufWe (we : (run p input t).blk.bufWe = true) :
    ∃ log, history p input t =
      log ++ [Event.store (run p input t).blk.bufAddr (run p input t).blk.bufWdata, .start 0xff] := by
  cases t with
  | zero => simp [run, reset, Blk.reset] at we
  | succ t =>
      rw [run_succ] at we ⊢
      obtain ⟨moved, told⟩ := idle_of_pulse (.inr we)
      have quiet := (run p input t).blk.quiet_tickMs p
      refine ⟨history p input t, ?_⟩
      rw [history_succ, told]
      rw [moved] at we ⊢
      by_cases st : ((run p input t).blk.tickMs p).st = .rdDat
      · simp only [Blk.events, Blk.told, Blk.step, st, Blk.stepRdDat, Blk.send, Blk.count]
        split <;> simp [Blk.pulses, quiet.done]
      · rw [(leaves_step ..).bufWe st, quiet.bufWe] at we
        simp at we

theorem load_of_emit {d : Dev} {i : Input} {k : BitVec 9} {v : Byte}
    (inside : .load k v ∈ d.emit p i) :
    d.idle = true ∧ (d.blk.st = .wrTok ∨ d.blk.st = .wrDat) ∧ d.blk.bufAddr = k ∧ d.rdata = v := by
  have loads : .load k v ∈ (d.blk.tickMs p).told (d.req i) d.spi.shRx ∧ d.idle = true := by
    simp only [emit, Blk.events, Blk.pulses, List.mem_append] at inside
    cases idle : d.idle <;> simp_all
  obtain ⟨told, idle⟩ := loads
  refine ⟨idle, ?_⟩
  cases st : d.blk.st <;> simp [Blk.told, Blk.tickMs, st] at told
  case wrTok | wrDat =>
    exact ⟨by simp, told.1.symm, told.2.symm⟩
  all_goals split_ifs at told <;> simp at told

/-- A byte that is loaded was read from the buffer, at its address, in the cycle before. -/
theorem load_fetched {k : BitVec 9} {v : Byte}
    (member : .load k v ∈ (run p input t).emit p (input t)) :
    ∃ u, t = u + 1 ∧ (run p input u).blk.bufAddr = k ∧ (input u).buffer k = v := by
  obtain ⟨idle, fetching, rfl, rfl⟩ := load_of_emit member
  cases t with
  | zero => simp [run, reset, Blk.reset] at fetching
  | succ u =>
      refine ⟨u, rfl, ?_⟩
      have waits : (run p input u).blk.spiIdle (run p input u).spi = false := by
        by_contra visits
        have moved : (run p input (u + 1)).blk =
            ((run p input u).blk.tickMs p).step p ((run p input u).req (input u))
              (run p input u).spi.shRx (run p input u).blk.ms := by
          simp [run_succ, next, Blk.next, Bool.not_eq_false _ ▸ visits]
        have going := go_step (placed_run input u).tickMs (moved ▸ fetching)
        rw [← moved, (Blk.spiIdle_iff.mp idle).1] at going
        exact Bool.false_ne_true going
      have same : (run p input (u + 1)).blk.bufAddr = (run p input u).blk.bufAddr := by
        simp [run_succ, next, Blk.next, waits, Blk.tickMs]
      rw [same]
      exact ⟨rfl, rfl⟩

/-- And it is loaded for a write that has been taken and not been answered yet. -/
theorem load_under {k : BitVec 9} {v : Byte}
    (member : .load k v ∈ (run p input t).emit p (input t)) :
    Under true Event.inside (history p input t) := by
  obtain ⟨idle, fetching, -⟩ := load_of_emit member
  obtain ⟨go, stopped, -⟩ := Blk.spiIdle_iff.mp idle
  have behind := ((sound_story p input t).rest go stopped).2
  rcases fetching with st | st
  · simp only [Behind, st] at behind
    exact behind.1.inside
  · simp only [Behind, st] at behind
    obtain ⟨before, data, shape, begun, -⟩ := behind
    rw [shape]
    exact begun.inside.append fun e member => inside_sent member

/-- An answer without error ends a history that holds the evidence for it, and the buffer
is written only between the taking of a read and its answer.  Each byte of a block sent was
fetched from the buffer in the cycle before, after its write had been taken, and the check of a
block is its remainder by `X ^ 16 + X ^ 12 + X ^ 5 + 1`. -/
theorem answers_sound (p : Params) (input : ℕ → Input) (t : ℕ) :
    ((run p input t).blk.done = true → (run p input t).blk.err = false →
      ∃ log, history p input t = log ++ [Event.answer false] ∧ (ReadDone log ∨ WriteDone log)) ∧
    ((run p input t).blk.bufWe = true →
      ∃ log, history p input t = log ++
          [Event.store (run p input t).blk.bufAddr (run p input t).blk.bufWdata, .start 0xff] ∧
        Under false Event.inside log) ∧
    (∀ k v, .load k v ∈ (run p input t).emit p (input t) →
      Under true Event.inside (history p input t) ∧
        ∃ u, t = u + 1 ∧ (run p input u).blk.bufAddr = k ∧ (input u).buffer k = v) ∧
    ∀ data, Crc.toPoly (crc16 data) =
      (Crc.ofBits (data.flatMap Crc.bits) * X ^ 16) %ₘ (X ^ 16 + X ^ 12 + X ^ 5 + 1) := by
  have justified := justified_history p input t
  refine ⟨fun done good => ?_, fun we => ?_, fun k v member => ?_, toPoly_crc16⟩
  · obtain ⟨log, shape⟩ := history_done done
    rw [good] at shape
    exact ⟨log, shape, justified log (.answer false) [] shape⟩
  · obtain ⟨log, shape⟩ := history_bufWe we
    exact ⟨log, shape, justified log (.store _ _) [Event.start 0xff] shape⟩
  · exact ⟨load_under member, load_fetched member⟩

end Dev

end Wish5380.Sd
