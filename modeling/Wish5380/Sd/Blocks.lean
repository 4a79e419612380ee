import Wish5380.Sd.Answers
import Wish5380.Sd.StartUp

/-!
# A block read and a block written

A request against a card that is between commands, from the cycle after `start` to the
visit that answers it.  The card may refuse a read, send a wrong check with it, or refuse
a write; the medium changes when a write is accepted, and only in that block.
-/

namespace Wish5380.Sd

/-! ## In service -/

section Service

variable {p : Params} {h : Option Faults} {v : View} {k : Card} {m : BitVec 9 → Byte} {st : St}
  {age : ℕ}

/-- Between commands, and not expecting an application command. -/
structure Card.Waits (k : Card) : Prop where
  mode : k.mode = .cmd
  cmd : k.cmd = []
  acmd : k.acmd = false

theorem Card.Waits.listens (waits : k.Waits) : k.Listens :=
  .inl ⟨waits.mode, waits.cmd⟩

/-- The sequencer at work on a request: the state, the fast card clock, the card, the buffer,
and what it has learnt of the card. -/
structure Serving (p : Params) (st : St) (k : Card) (m : BitVec 9 → Byte) (age : ℕ) (v : View) :
    Prop where
  st : v.blk.st = st
  div : v.blk.div = p.divFast
  card : v.card = k
  mem : v.mem = m
  ccs : v.blk.ccs = k.hc
  up : v.blk.cardReady = true
  count : v.blk.blocks = k.blocks
  age : v.age ≤ age

/-- The cycles of a byte at the fast clock. -/
def Params.fastLap (p : Params) : ℕ :=
  Params.byteTime p.divFast

theorem Serving.lap (serving : Serving p st k m age v) : v.blk.lap = p.fastLap := by
  rw [Blk.lap, serving.div]
  rfl

theorem Serving.narrow (serving : Serving p st k m age v) : v.blk.div < 2 ^ 16 := by
  rw [serving.div]
  exact Nat.mod_lt _ (by decide)

/-- A command of a request, up to its answer. -/
theorem leads_served {idx : BitVec 6} {ret : St} {k' : Card} {r1 : Byte} {rest : List Byte}
    (calls : ∀ (b : Blk) (req : BlkReq) (rx : Byte) (ms : ℕ), b.st = st →
      b.step p req rx ms = b.command idx b.cmdArg false ret)
    (serving : Serving p st k m age v) (queue : v.queue = []) (waits : k.Waits) (short : k.ncr ≤ 62)
    (acts : ∀ f, (∀ g ∈ h, f = g) →
      { k with tx := [] }.execute f false idx v.blk.cmdArg =
        { k' with tx := List.replicate k.ncr 0xff ++ r1 :: rest })
    (listens : k'.Listens) (low : r1.getLsbD 7 = false) (hc : k'.hc = k.hc)
    (size : k'.blocks = k.blocks) :
    LeadsIn p h ((k.ncr + 8) * p.fastLap + 2) (At p h v)
      (Seen p h fun w =>
        Serving p ret k' m (age + (k.ncr + 10) * p.fastLap) w ∧ w.queue = rest ∧ w.blk.r1 = r1 ∧
          w.blk.cs = true ∧ w.blk.err = v.blk.err) := by
  have call : LeadsIn p h 1 (At p h v)
      (At p h { v with
        blk := v.blk.command idx v.blk.cmdArg false ret, fresh := false, age := v.age + 1 }) :=
    LeadsIn.still (b := v.blk.calm.command idx v.blk.cmdArg false ret) _ _
      (fun req ms _ _ => calls v.blk.calm req v.rx ms serving.st) rfl rfl rfl rfl
      (Nat.le_of_eq (Blk.after_running rfl))
  have asked : Asked h
      { v with blk := v.blk.command idx v.blk.cmdArg false ret, fresh := false, age := v.age + 1 } k'
      k.ncr r1 rest := by
    refine ⟨rfl, rfl, serving.narrow, ?_, ?_, queue, fun f given => ?_, short, listens, low⟩
    · dsimp only
      rw [serving.card, waits.mode]
    · dsimp only
      rw [serving.card, waits.cmd]
    · dsimp only
      rw [serving.card, waits.acmd, ← acts f given]
      have same : { k with tx := [], cmd := [], acmd := false } = { k with tx := [] } := by
        rw [← waits.cmd, ← waits.acmd]
      rw [same]
      rfl
  have lap : (v.blk.command idx v.blk.cmdArg false ret).lap = p.fastLap := serving.lap
  refine Clocked.LeadsIn.cast (call.trans ((asked.leads_short rfl).mono fun s here => ?_))
    (show 1 + ((k.ncr + 8) * (v.blk.command idx v.blk.cmdArg false ret).lap + 1) = _ by
      rw [lap]
      omega)
  refine here.seen ⟨⟨rfl, serving.div, rfl, serving.mem, serving.ccs.trans hc.symm, serving.up,
    serving.count.trans size.symm, ?_⟩, rfl, rfl, rfl, rfl⟩
  have aged := serving.age
  have positive : 0 < p.fastLap := Nat.succ_pos _
  dsimp only
  rw [lap, Nat.succ_mul (k.ncr + 9)]
  omega

end Service

/-! ## Reading -/

section Read

variable {p : Params} {h : Option Faults} {v : View} {data : List Byte} {hi lo : Byte}

/-- The buffer after `n` bytes of a block. -/
def filledTo (m : BitVec 9 → Byte) (data : List Byte) (n : ℕ) : BitVec 9 → Byte :=
  fun a => if a.toNat < n then data.getD a.toNat 0 else m a

theorem filledTo_succ (m : BitVec 9 → Byte) (data : List Byte) {n : ℕ} (below : n < 512) :
    Function.update (filledTo m data n) (BitVec.ofNat 9 n) (data.getD n 0) =
      filledTo m data (n + 1) := by
  funext a
  have small : n % 2 ^ 9 = n := Nat.mod_eq_of_lt below
  by_cases same : a = BitVec.ofNat 9 n
  · rw [same, Function.update_self, filledTo, BitVec.toNat_ofNat, small, if_pos (Nat.lt_succ_self n)]
  · have other : a.toNat ≠ n := by
      intro equal
      refine same (BitVec.eq_of_toNat_eq ?_)
      rw [BitVec.toNat_ofNat, small, equal]
    rw [Function.update_of_ne same, filledTo, filledTo]
    by_cases early : a.toNat < n
    · rw [if_pos early, if_pos (by omega)]
    · rw [if_neg early, if_neg (by omega)]

/-- The block itself. -/
theorem leads_data (st : v.blk.st = .rdDat) (first : v.blk.bcnt = 0) (crc : v.blk.crc16 = 0)
    (addr : v.blk.bufAddr = 0) (cs : v.blk.cs = true) (div : v.blk.div < 2 ^ 16)
    (listens : v.card.Listens) (bytes : v.rx :: v.queue = data ++ [hi, lo])
    (full : data.length = 512) :
    Leads p h (At p h v)
      (At p h (v.reading 512
        { v.blk with
          st := .rdCrc, bcnt := 0, crc16 := crc16 data, bufAddr := 511, bufWdata := data.getD 511 0 }
        (filledTo v.mem data 512))) := by
  let blk (k : ℕ) : Blk :=
    { v.blk with
      st := if k < 512 then .rdDat else .rdCrc
      bcnt := k % 512
      crc16 := crc16 (data.take k)
      bufAddr := BitVec.ofNat 9 (k - 1)
      bufWdata := if k = 0 then v.blk.bufWdata else data.getD (k - 1) 0 }
  have found (k : ℕ) (below : k < 512) : v.byte k = data.getD k 0 := by
    have inside : k < data.length := by omega
    rw [View.byte, bytes, List.getD_eq_getElem?_getD, List.getElem?_append_left inside,
      List.getD_eq_getElem?_getD, List.getElem?_eq_getElem inside]
    rfl
  have taken := LeadsIn.stream (p := p) (h := h) (v := v) blk (filledTo v.mem data) 512 listens div
    (fun k below => ?_)
  · have begun : blk 0 = v.blk := by
      simp only [blk, Nat.zero_lt_succ, if_true, Nat.zero_mod, List.take_zero]
      rw [show BitVec.ofNat 9 (0 - 1) = v.blk.bufAddr from addr.symm,
        show crc16 [] = v.blk.crc16 from crc.symm, ← st, ← first]
    have none : filledTo v.mem data 0 = v.mem := by
      funext a
      simp [filledTo]
    have done : blk 512 = { v.blk with
        st := .rdCrc, bcnt := 0, crc16 := crc16 data, bufAddr := 511,
        bufWdata := data.getD 511 0 } := by
      have whole : data.take 512 = data := List.take_of_length_le (by omega)
      simp [blk, whole]
    rw [begun, none, done] at taken
    exact Clocked.Leads.from_imp (fun s here => here.reading) taken.leads
  · have inside : k < data.length := by omega
    have more : crc16 (data.take (k + 1)) = crc16Byte (crc16 (data.take k)) (data.getD k 0) := by
      rw [List.take_add_one, List.getElem?_eq_getElem inside, Option.toList_some, crc16_snoc,
        List.getD_eq_getElem?_getD, List.getElem?_eq_getElem inside]
      rfl
    have here : (blk k).calm.st = .rdDat := if_pos below
    have counted : (blk k).calm.bcnt = k := Nat.mod_eq_of_lt below
    refine ⟨{ (blk (k + 1)).calm with bufWe := true, tx := 0xff, go := true }, ⟨rfl, rfl, cs, rfl, rfl,
      rfl, rfl⟩, ?_, fun req ms _ _ => ?_⟩
    · rw [← filledTo_succ v.mem data below]
      rfl
    · rw [found k below]
      simp only [Blk.step, here, Blk.stepRdDat, counted, Blk.send]
      by_cases last : k = 511
      · subst last
        simp only [if_true, blk, Blk.calm, more]
        rfl
      · have small : (k + 1) % 2 ^ 10 = k + 1 := Nat.mod_eq_of_lt (by omega)
        have within : (k + 1) % 512 = k + 1 := Nat.mod_eq_of_lt (by omega)
        simp only [if_neg last, blk, Blk.calm, more, Blk.count, small, within,
          if_pos (show k + 1 < 512 by omega), if_pos below, Nat.mod_eq_of_lt below]
        rfl

/-- Its check. -/
theorem leads_check (st : v.blk.st = .rdCrc) (first : v.blk.bcnt = 0)
    (crc : v.blk.crc16 = crc16 data) (cs : v.blk.cs = true) (div : v.blk.div < 2 ^ 16)
    (listens : v.card.Listens) (rx : v.rx = hi) (queue : v.queue = [lo]) :
    Leads p h (At p h v)
      (Seen p h fun w =>
        w.blk.calm = { v.blk.calm with
          st := .finish, bcnt := 2, crc16 := crc16 (data ++ [hi, lo])
          err := if hi ++ lo ≠ crc16 data then true else v.blk.err } ∧
        w.queue = [] ∧ w.card = v.card ∧ w.mem = v.mem) := by
  have both : crc16Byte (crc16Byte (crc16 data) hi) lo = crc16 (data ++ [hi, lo]) := by
    rw [← crc16_snoc, ← crc16_snoc, List.append_assoc]
    rfl
  refine Clocked.LeadsIn.before (LeadsIn.poll (b := { v.blk.calm with
    bcnt := 1, crc16 := crc16Byte (crc16 data) hi, tx := 0xff, go := true })
    { v.blk with bcnt := 1, crc16 := crc16Byte (crc16 data) hi } (v.age + v.blk.lap)
    (fun req ms _ _ => ?_) rfl rfl rfl div cs rfl listens rfl ?_) ?_
  · have here : v.blk.calm.st = .rdCrc := st
    have counted : v.blk.calm.bcnt = 0 := first
    have sum : v.blk.calm.crc16 = crc16 data := crc
    simp [Blk.step, here, Blk.stepRdCrc, counted, sum, rx, Blk.send, Blk.count]
  · rw [Blk.after_running rfl]
    simp only [Blk.lap, Blk.calm]
    omega
  · refine Clocked.LeadsIn.lands (LeadsIn.still (b := { v.blk.calm with
      st := .finish, bcnt := 2, crc16 := crc16 (data ++ [hi, lo])
      err := if hi ++ lo ≠ crc16 data then true else v.blk.err })
      { v.blk with
        st := .finish, bcnt := 2, crc16 := crc16 (data ++ [hi, lo])
        err := if hi ++ lo ≠ crc16 data then true else v.blk.err } (v.age + v.blk.lap + 1)
      (fun req ms _ _ => ?_) rfl rfl rfl rfl ?_) fun s here => here.seen ⟨rfl, ?_, rfl, rfl⟩
    · simp only [Blk.step, Blk.calm, st, Blk.stepRdCrc, queue, List.headD_cons, Blk.count, if_true,
        both, ne_eq, ← crc16_check_iff data hi lo]
      split_ifs <;> rfl
    · rw [Blk.after_running rfl]
    · rw [queue]
      rfl

variable {k : Card} {m : BitVec 9 → Byte} {f : Faults} {lba : BitVec 32} {age : ℕ}

/-- The answer is about to be given: the card, the buffer, and whether it is a failure. -/
def Finishing (p : Params) (k : Card) (m : BitVec 9 → Byte) (fails : Bool) (v : View) : Prop :=
  (∃ age, Serving p .finish k m age v) ∧ v.queue = [] ∧ v.blk.err = fails

/-- The token of a block, or of an error, after the answer to CMD17. -/
theorem leads_answered {token : Byte} {rest : List Byte} (serving : Serving p .rdCmdR k m age v)
    (quick : p.fastLap ≤ p.ticks) (listens : k.Listens)
    (queue : v.queue = 0xff :: 0xff :: token :: rest) (r1 : v.blk.r1 = 0x00) (cs : v.blk.cs = true) :
    Leads p h (At p h v)
      (At p h { v with
        blk := { v.blk with st := .rdTok }, rx := token, queue := rest, fresh := false,
        age := p.ticks + v.blk.lap + 2 * v.blk.lap }) := by
  refine leads_token (fun req ms => ?_) (fun req ms early => ?_) cs serving.narrow
    (serving.lap ▸ quick) queue (serving.card ▸ listens)
  · have here : v.blk.calm.st = .rdCmdR := serving.st
    have granted : v.blk.calm.r1 = 0x00 := r1
    simp [Blk.step, here, Blk.stepRdCmdR, granted, Blk.send]
  · simp [Blk.step, Blk.stepRdTok, Blk.send, Nat.not_le.mpr early]

/-- A read the card refuses. -/
theorem leads_refused (serving : Serving p .rdCmdR k m age v) (quick : p.fastLap ≤ p.ticks)
    (listens : k.Listens) (queue : v.queue = [0xff, 0xff, 0x08]) (r1 : v.blk.r1 = 0x00)
    (cs : v.blk.cs = true) :
    Leads p h (At p h v) (Seen p h (Finishing p k m true)) := by
  refine (leads_answered serving quick listens queue r1 cs).trans (Clocked.LeadsIn.lands (LeadsIn.still
    (b := { v.blk.calm with st := .finish, err := true }) { v.blk with st := .finish, err := true }
    (p.ticks + v.blk.lap + 2 * v.blk.lap + 1) (fun req ms _ _ => ?_) rfl rfl rfl rfl ?_)
    fun s here => here.seen ⟨⟨_, rfl, serving.div, serving.card, serving.mem, serving.ccs, serving.up,
      serving.count, Nat.le_refl _⟩, rfl, rfl⟩)
  · simp [Blk.step, Blk.calm, Blk.stepRdTok, Blk.fail]
  · rw [Blk.after_running rfl]

/-- A block the card sends. -/
theorem leads_block (serving : Serving p .rdCmdR k m age v) (quick : p.fastLap ≤ p.ticks)
    (listens : k.Listens) (queue : v.queue = 0xff :: 0xff :: 0xfe :: (data ++ [hi, lo]))
    (full : data.length = 512) (r1 : v.blk.r1 = 0x00) (cs : v.blk.cs = true)
    (err : v.blk.err = false) :
    Leads p h (At p h v)
      (Seen p h (Finishing p k (filledTo m data 512) (decide (hi ++ lo ≠ crc16 data)))) := by
  have bytes : (data ++ [hi, lo]).headD 0xff :: (data ++ [hi, lo]).tail = data ++ [hi, lo] := by
    cases data with
    | nil => rfl
    | cons a rest => rfl
  have listens' : v.card.Listens := serving.card ▸ listens
  refine (leads_answered serving quick listens queue r1 cs).trans ?_
  refine Clocked.LeadsIn.before (LeadsIn.poll (b := { v.blk.calm with
    st := .rdDat, bcnt := 0, crc16 := 0, bufAddr := 0, tx := 0xff, go := true })
    { v.blk with st := .rdDat, bcnt := 0, crc16 := 0, bufAddr := 0 }
    (p.ticks + v.blk.lap + 2 * v.blk.lap + v.blk.lap) (fun req ms _ _ => rfl) rfl rfl rfl
    serving.narrow cs rfl listens' rfl ?_) ?_
  · rw [Blk.after_running rfl]
    simp only [Blk.lap, Blk.calm]
    omega
  refine Clocked.Leads.trans (leads_data rfl rfl rfl rfl cs serving.narrow listens' bytes full) ?_
  have hi' : View.byte { v with
      blk := { v.blk with st := .rdDat, bcnt := 0, crc16 := 0, bufAddr := 0 }
      rx := (data ++ [hi, lo]).headD 0xff, queue := (data ++ [hi, lo]).tail, fresh := true
      age := p.ticks + v.blk.lap + 2 * v.blk.lap + v.blk.lap } 512 = hi := by
    rw [View.byte, bytes]
    simp [← full]
  have lo' : (data ++ [hi, lo]).tail.drop 512 = [lo] := by
    rw [List.drop_tail, ← List.drop_drop, List.drop_left' full]
    rfl
  refine Clocked.Leads.mono (leads_check rfl rfl rfl cs serving.narrow listens' hi' lo') ?_
  rintro s ⟨w, ⟨blk, queue', card, mem⟩, here⟩
  have st : w.blk.st = .finish := congrArg Blk.st blk
  have div : w.blk.div = v.blk.div := (congrArg Blk.div blk :)
  have ccs : w.blk.ccs = v.blk.ccs := (congrArg Blk.ccs blk :)
  have up : w.blk.cardReady = v.blk.cardReady := (congrArg Blk.cardReady blk :)
  have csd : w.blk.csd = v.blk.csd := (congrArg Blk.csd blk :)
  have count : w.blk.blocks = v.blk.blocks := by rw [Blk.blocks, Blk.blocks, csd]
  have failed : w.blk.err = if hi ++ lo ≠ crc16 data then true else v.blk.err :=
    (congrArg Blk.err blk :)
  refine here.seen ⟨⟨w.age, st, div.trans serving.div, card.trans serving.card, ?_,
    ccs.trans serving.ccs, up.trans serving.up, count.trans serving.count, Nat.le_refl _⟩, queue', ?_⟩
  · rw [mem, ← serving.mem]
    rfl
  · rw [failed, err]
    by_cases wrong : hi ++ lo = crc16 data <;> simp [wrong]

/-- What the card is to pretend strikes this request. -/
def Faults.strikes (f : Faults) (we : Bool) (lba : BitVec 32) : Bool :=
  if we then decide (f.failWrite = some lba)
  else decide (f.failRead = some lba) || decide (f.corruptRead = some lba)

/-- A block of the medium. -/
def Card.block (k : Card) (lba : BitVec 32) : BitVec 9 → Byte :=
  fun a => k.media (lba.toNat * 512 + a.toNat)

theorem Card.length_readBlock (inside : lba < k.blocks) : (k.readBlock lba).length = 512 := by
  simp [Card.readBlock, BitVec.not_le.mpr inside]

theorem filledTo_readBlock (inside : lba < k.blocks) :
    filledTo m (k.readBlock lba) 512 = k.block lba := by
  funext a
  have small : a.toNat < 512 := a.isLt
  simp [filledTo, Card.readBlock, BitVec.not_le.mpr inside, small, Card.block]

theorem xor_one_ne (x : BitVec 16) : x ^^^ 1 ≠ x := by
  intro same
  have bit := congrArg (BitVec.getLsbD · 0) same
  simp at bit

/-- The check the card sends with a block. -/
def Card.checkSent (k : Card) (f : Faults) (lba : BitVec 32) : BitVec 16 :=
  if f.corruptRead = some lba then sdCrc16 (k.readBlock lba) ^^^ 1 else sdCrc16 (k.readBlock lba)

theorem checkSent_wrong (accepted : f.failRead ≠ some lba) :
    decide (k.checkSent f lba ≠ crc16 (k.readBlock lba)) = f.strikes false lba := by
  rw [Card.checkSent, sdCrc16_eq]
  by_cases wrong : f.corruptRead = some lba
  · have strikes : f.strikes false lba = true := by simp [Faults.strikes, wrong]
    rw [strikes, if_pos wrong]
    exact decide_eq_true (xor_one_ne (crc16 (k.readBlock lba)))
  · simp [Faults.strikes, wrong, accepted]

/-- A read, from the command to the answer. -/
theorem leads_read (serving : Serving p .rdCmd k m age v) (quick : p.fastLap ≤ p.ticks)
    (queue : v.queue = []) (err : v.blk.err = false) (waits : k.Waits) (short : k.ncr ≤ 62)
    (addressed : k.lbaOf v.blk.cmdArg = lba) (inside : lba < k.blocks) :
    Leads p (some f) (At p (some f) v)
      (Seen p (some f) fun w => ∃ m', Finishing p k m' (f.strikes false lba) w ∧
        (f.strikes false lba = false → m' = k.block lba)) := by
  have calls (b : Blk) (req : BlkReq) (rx : Byte) (ms : ℕ) (st : b.st = .rdCmd) :
      b.step p req rx ms = b.command 17 b.cmdArg false .rdCmdR := by
    simp only [Blk.step, st]
  have known : ¬ k.blocks ≤ lba := BitVec.not_le.mpr inside
  by_cases refused : f.failRead = some lba
  · have acts (g : Faults) (given : ∀ g' ∈ some f, g = g') :
        { k with tx := [] }.execute g false 17 v.blk.cmdArg =
          { k with tx := List.replicate k.ncr 0xff ++ 0x00 :: [0xff, 0xff, 0x08] } := by
      obtain rfl := given f rfl
      have same : ({ k with tx := [] } : Card).lbaOf v.blk.cmdArg = lba := addressed
      simp [Card.execute, Card.readSingleBlock, same, known, refused, Card.pushR1, Card.push]
    refine (leads_served calls serving queue waits short acts waits.listens rfl rfl rfl).before
      (Leads.seen fun w => ?_)
    rintro ⟨served, rest, r1, cs, -⟩
    refine (leads_refused served quick waits.listens rest r1 cs).mono ?_
    rintro s ⟨x, finishing, here⟩
    have strikes : f.strikes false lba = true := by simp [Faults.strikes, refused]
    rw [strikes]
    exact here.seen ⟨m, finishing, by simp⟩
  · have acts (g : Faults) (given : ∀ g' ∈ some f, g = g') :
        { k with tx := [] }.execute g false 17 v.blk.cmdArg =
          { k with
            tx := List.replicate k.ncr 0xff ++
              0x00 :: Card.packet (k.readBlock lba) (k.checkSent f lba) } := by
      obtain rfl := given f rfl
      have same : ({ k with tx := [] } : Card).lbaOf v.blk.cmdArg = lba := addressed
      have block : ({ k with tx := [] } : Card).readBlock lba = k.readBlock lba := rfl
      simp [Card.execute, Card.readSingleBlock, same, known, refused, Card.pushR1, Card.push,
        Card.pushBlock, block, Card.checkSent]
    refine (leads_served calls serving queue waits short acts waits.listens rfl rfl rfl).before
      (Leads.seen fun w => ?_)
    rintro ⟨served, rest, r1, cs, err'⟩
    have rest : w.queue = 0xff :: 0xff :: 0xfe :: (k.readBlock lba ++
      [(k.checkSent f lba).extractLsb' 8 8, (k.checkSent f lba).extractLsb' 0 8]) := rest
    refine (leads_block served quick waits.listens rest (Card.length_readBlock inside) r1 cs
      (err'.trans err)).mono ?_
    rintro s ⟨x, finishing, here⟩
    rw [check_split, filledTo_readBlock inside] at finishing
    rw [checkSent_wrong refused] at finishing
    exact here.seen ⟨k.block lba, finishing, fun _ => rfl⟩

end Read

/-! ## Writing -/

section Write

variable {p : Params} {f : Faults} {v : View} {k : Card} {m : BitVec 9 → Byte} {lba : BitVec 32}
  {age : ℕ}

/-- The card with `n` bytes of a block in. -/
def Card.takes (k : Card) (lba : BitVec 32) (m : BitVec 9 → Byte) (n : ℕ) : Card :=
  { k with
    wrLba := lba
    mode := .wrData
    wrGot := n
    wrBuf := (List.range 512).map fun i => if i < n then m (BitVec.ofNat 9 i) else 0 }

theorem takes_onByte (q : List Byte) {n : ℕ} (below : n < 512) :
    { k.takes lba m n with tx := q }.onByte f (m (BitVec.ofNat 9 n)) =
      { k.takes lba m (n + 1) with tx := q } := by
  have grown : (((List.range 512).map fun i => if i < n then m (BitVec.ofNat 9 i) else 0).set n
      (m (BitVec.ofNat 9 n))) = (List.range 512).map fun i =>
        if i < n + 1 then m (BitVec.ofNat 9 i) else 0 := by
    refine List.ext_getElem (by simp) fun i here there => ?_
    rw [List.getElem_set]
    by_cases same : n = i
    · subst same
      simp
    · have either : i < n ↔ i < n + 1 := by omega
      simp [same, either]
  simp only [Card.onByte, Card.takes, if_pos below, if_neg (show n + 1 ≠ 514 by omega), grown]

/-- `n` bytes of the block are out. -/
def View.writing (v : View) (lba : BitVec 32) (n : ℕ) : View :=
  { v with
    blk := { v.blk with
      st := if n < 512 then .wrDat else .wrCrc
      bcnt := (n - 1) % 511
      crc16 := crc16 (sentTo v.mem n)
      bufAddr := BitVec.ofNat 9 n }
    rx := 0xff
    card := v.card.takes lba v.mem n
    queue := []
    fresh := true
    age := v.age + n * v.blk.lap }

theorem leads_writing (cs : v.blk.cs = true) (div : v.blk.div < 2 ^ 16) {n : ℕ} (low : 0 < n)
    (high : n < 512) :
    LeadsIn p (some f) v.blk.lap (At p (some f) (v.writing lba n))
      (At p (some f) (v.writing lba (n + 1))) := by
  have counted : (v.writing lba n).blk.calm.bcnt = n - 1 := Nat.mod_eq_of_lt (by omega)
  have here : (v.writing lba n).blk.calm.st = .wrDat := if_pos high
  have path := LeadsIn.tell (p := p) (h := some f) (v := v.writing lba n)
    (k := v.card.takes lba v.mem (n + 1)) (q := [])
    (b := { (v.writing lba (n + 1)).blk.calm with tx := v.mem (BitVec.ofNat 9 n), go := true })
    (v.writing lba (n + 1)).blk (v.age + (n + 1) * v.blk.lap) (fun req ms _ fresh _ => ?_) rfl rfl rfl
    div cs (fun g _ => takes_onByte [] high) rfl ?_
  · exact path
  · have given : req.bufRdata = v.mem (BitVec.ofNat 9 n) := fresh rfl f rfl
    have next : BitVec.ofNat 9 (n + 1) = BitVec.ofNat 9 n + 1 := BitVec.ofNat_add n 1
    simp only [Blk.step, here, Blk.stepWrDat, counted, Blk.send, given]
    by_cases last : n = 511
    · subst last
      simp [View.writing, Blk.calm, crc16_sentTo v.mem 511, next]
    · have small : (n - 1 + 1) % 2 ^ 10 = n := by
        rw [Nat.sub_add_cancel low]
        exact Nat.mod_eq_of_lt (by omega)
      have within : (n + 1 - 1) % 511 = n := by
        rw [Nat.add_sub_cancel]
        exact Nat.mod_eq_of_lt (by omega)
      simp only [if_neg (show n - 1 ≠ 510 by omega), Blk.count, View.writing, Blk.calm,
        crc16_sentTo v.mem n, next, small, within, if_pos (show n + 1 < 512 by omega), if_pos high]
  · rw [Blk.after_running rfl, Nat.succ_mul]
    simp only [View.writing, Blk.lap, Blk.calm]
    omega

/-- The block goes out, its first byte with a visit of its own. -/
theorem leads_written (lba : BitVec 32) (st : v.blk.st = .wrTok) (first : v.blk.bcnt = 0)
    (crc : v.blk.crc16 = 0)
    (addr : v.blk.bufAddr = 0) (cs : v.blk.cs = true) (div : v.blk.div < 2 ^ 16)
    (fresh : v.fresh = true) (queue : v.queue = []) (card : v.card = k.takes lba v.mem 0) :
    LeadsIn p (some f) (512 * v.blk.lap) (At p (some f) v)
      (At p (some f) (v.writing lba 512)) := by
  have begun : LeadsIn p (some f) v.blk.lap (At p (some f) v)
      (At p (some f) (v.writing lba 1)) := by
    have path := LeadsIn.tell (p := p) (h := some f) (v := v) (k := v.card.takes lba v.mem 1) (q := [])
      (b := { (v.writing lba 1).blk.calm with tx := v.mem 0, go := true }) (v.writing lba 1).blk
      (v.age + 1 * v.blk.lap) (fun req ms _ given _ => ?_) rfl rfl rfl div cs (fun g _ => ?_) rfl ?_
    · rw [queue] at path
      exact path
    · have given : req.bufRdata = v.mem 0 := addr ▸ given fresh f rfl
      have one : crc16 (sentTo v.mem 1) = crc16Byte 0 (v.mem 0) := crc16_sentTo v.mem 0
      simp [Blk.step, Blk.calm, st, Blk.stepWrTok, given, crc, first, Blk.send, View.writing, one]
    · rw [queue, card]
      exact takes_onByte [] (by decide)
    · rw [Blk.after_running rfl]
      simp only [View.writing, Blk.lap, Blk.calm]
      omega
  have rest : LeadsIn p (some f) (511 * v.blk.lap) (At p (some f) (v.writing lba 1))
      (At p (some f) (v.writing lba 512)) :=
    Clocked.LeadsIn.stages (P := fun n => At p (some f) (v.writing lba (n + 1))) (n := 511)
      fun n below => leads_writing cs div (Nat.succ_pos n) (by omega)
  exact (begun.trans rest).cast (by omega)

/-- The card once the block and its check are in. -/
def Card.ended (k : Card) (f : Faults) (lba : BitVec 32) (m : BitVec 9 → Byte) : Card :=
  let d := { k.takes lba m 512 with mode := .cmd, wrGot := 514 }
  if f.failWrite = some lba then d else d.writeMedia lba d.wrBuf

/-- The card between the two bytes of the check. -/
def Card.halfway (k : Card) (lba : BitVec 32) (m : BitVec 9 → Byte) : Card :=
  { k.takes lba m 512 with wrGot := 513 }

theorem full_onByte (q : List Byte) (rx : Byte) :
    { k.takes lba m 512 with tx := q }.onByte f rx = { k.halfway lba m with tx := q } := by
  simp [Card.onByte, Card.takes, Card.halfway]

theorem ended_onByte (inside : lba < k.blocks) (rx : Byte) :
    { k.halfway lba m with tx := [] }.onByte f rx =
      { k.ended f lba m with
        tx := (if f.failWrite = some lba then 0x0d else 0x05) ::
          (List.replicate k.busyBytes 0x00 ++ [0xff]) } := by
  by_cases bad : f.failWrite = some lba
  · simp [Card.onByte, Card.halfway, Card.takes, Card.endBlock, Card.ended, Card.push, bad]
  · simp [Card.onByte, Card.halfway, Card.takes, Card.endBlock, Card.ended, Card.push,
      Card.writeMedia, bad, inside]

theorem Card.ended_facts (k : Card) (f : Faults) (lba : BitVec 32) (m : BitVec 9 → Byte) :
    (k.ended f lba m).mode = .cmd ∧ (k.ended f lba m).cmd = k.cmd ∧
      (k.ended f lba m).acmd = k.acmd ∧ (k.ended f lba m).hc = k.hc ∧
      (k.ended f lba m).blocks = k.blocks ∧ (k.ended f lba m).ncr = k.ncr ∧
      (k.ended f lba m).busyBytes = k.busyBytes := by
  by_cases bad : f.failWrite = some lba <;>
    simp [Card.ended, Card.takes, Card.writeMedia, bad]

/-- The check goes out, and the card answers. -/
theorem leads_response (full ended : Card) (r : Byte) (rest : List Byte) (st : v.blk.st = .wrCrc)
    (first : v.blk.bcnt = 0) (cs : v.blk.cs = true) (div : v.blk.div < 2 ^ 16)
    (quick : v.blk.lap ≤ p.ticks) (queue : v.queue = [])
    (high : ∀ rx, { v.card with tx := [] }.onByte f rx = { full with tx := [] })
    (low : ∀ rx, { full with tx := [] }.onByte f rx = { ended with tx := r :: rest })
    (listens : ended.Listens) (answer : r &&& 0x11 = 0x01) :
    LeadsIn p (some f) (4 * v.blk.lap) (At p (some f) v)
      (At p (some f) { v with
        blk := { v.blk with
          st := .wrBusy, bcnt := 2, err := if r &&& 0x0e ≠ 0x04 then true else v.blk.err }
        rx := rest.headD 0xff
        card := ended
        queue := rest.tail
        fresh := true
        age := p.ticks + v.blk.lap }) := by
  have upper : LeadsIn p (some f) v.blk.lap (At p (some f) v) (At p (some f) { v with
      blk := { v.blk with bcnt := 1 }, rx := 0xff, card := full, queue := [], fresh := true
      age := v.age + v.blk.lap }) := by
    have path := LeadsIn.tell (p := p) (h := some f) (v := v) (k := full) (q := [])
      (b := { v.blk.calm with bcnt := 1, tx := v.blk.crc16.extractLsb' 8 8, go := true })
      { v.blk with bcnt := 1 } (v.age + v.blk.lap) (fun req ms _ _ _ => ?_) rfl rfl rfl div cs
      (fun g given => ?_) rfl ?_
    · rw [queue] at path
      exact path
    · simp [Blk.step, Blk.calm, st, Blk.stepWrCrc, first, Blk.send, Blk.count]
    · obtain rfl := given f rfl
      rw [queue]
      exact high _
    · rw [Blk.after_running rfl]
      simp only [Blk.lap, Blk.calm]
      omega
  refine Clocked.LeadsIn.cast (upper.trans (m := 3 * v.blk.lap) ?_) (by omega)
  refine Clocked.LeadsIn.cast (Clocked.LeadsIn.trans (m := 2 * v.blk.lap) (LeadsIn.tell
    (k := ended) (q := r :: rest) (b := { v.blk.calm with
      bcnt := 2, st := .wrResp, ms := 0, tx := v.blk.crc16.extractLsb' 0 8, go := true })
    { v.blk with bcnt := 2, st := .wrResp } (p.ticks + v.blk.lap) (fun req ms _ _ _ => ?_) rfl rfl
    rfl div cs (fun g given => ?_) rfl ?_) ?_)
    (show v.blk.lap + 2 * v.blk.lap = 3 * v.blk.lap by omega)
  · simp [Blk.step, Blk.calm, st, Blk.stepWrCrc, Blk.send, Blk.count]
  · obtain rfl := given f rfl
    exact low _
  · rw [Blk.after_cleared rfl]
    exact Nat.le_succ _
  refine Clocked.LeadsIn.cast (Clocked.LeadsIn.trans (m := v.blk.lap) (LeadsIn.poll (b := { v.blk.calm with
      bcnt := 2, st := .wrResp, tx := 0xff, go := true }) { v.blk with bcnt := 2, st := .wrResp }
    (p.ticks + v.blk.lap + v.blk.lap) (fun req ms _ timely => ?_) rfl rfl rfl div cs rfl listens rfl
    ?_) ?_) (show v.blk.lap + v.blk.lap = 2 * v.blk.lap by omega)
  · have early : ¬ 200 ≤ ms := by
      intro late
      have lower := Nat.mul_le_mul_right p.ticks late
      dsimp only at timely
      have positive : 0 < p.ticks := Nat.succ_pos _
      omega
    simp [Blk.step, Blk.calm, Blk.stepWrResp, Blk.send, early]
  · rw [Blk.after_running rfl]
    simp only [Blk.lap, Blk.calm]
    omega
  refine Clocked.LeadsIn.mono (LeadsIn.poll (b := { v.blk.calm with
      bcnt := 2, st := .wrBusy, err := if r &&& 0x0e ≠ 0x04 then true else v.blk.err, ms := 0
      tx := 0xff, go := true })
    { v.blk with bcnt := 2, st := .wrBusy, err := if r &&& 0x0e ≠ 0x04 then true else v.blk.err }
    (p.ticks + v.blk.lap) (fun req ms _ _ => ?_) rfl rfl rfl div cs rfl listens rfl ?_)
    fun s here => here
  · have given : (r :: rest).headD 0xff &&& 0x11 = 0x01 := answer
    simp only [Blk.step, Blk.stepWrResp, if_pos given]
    rfl
  · rw [Blk.after_cleared rfl]
    exact Nat.le_succ _

/-- While the card is busy, and the timer has not run out, the polls go on. -/
theorem leads_polled (st : v.blk.st = .wrBusy) (cs : v.blk.cs = true) (div : v.blk.div < 2 ^ 16)
    (listens : v.card.Listens) {n : ℕ} (low : ∀ j < n, v.byte j = 0x00)
    (timely : v.age + n * v.blk.lap < 500 * p.ticks + v.blk.lap) :
    LeadsIn p (some f) (n * v.blk.lap) (At p (some f) v)
      (At p (some f) (v.reading n v.blk v.mem)) := by
  have wait := LeadsIn.stream (p := p) (h := some f) (v := v) (fun _ => v.blk) (fun _ => v.mem) n
    listens div (fun j below => ?_)
  · exact Clocked.LeadsIn.from_imp (fun s here => here.reading) wait
  · refine ⟨{ v.blk.calm with tx := 0xff, go := true }, ⟨rfl, rfl, cs, rfl, rfl, rfl, rfl⟩, rfl,
      fun req ms _ aged => ?_⟩
    have early : ¬ 500 ≤ ms := by
      intro late
      have lower := Nat.mul_le_mul_right p.ticks late
      have upper : (j + 1) * v.blk.lap ≤ n * v.blk.lap := Nat.mul_le_mul_right _ below
      rw [Nat.succ_mul] at upper
      omega
    rw [low j below]
    simp [Blk.step, Blk.calm, st, Blk.stepWrBusy, Blk.send, early]

/-- The card is busy, and then it is not. -/
theorem leads_idle_again (st : v.blk.st = .wrBusy) (cs : v.blk.cs = true) (div : v.blk.div < 2 ^ 16)
    (listens : v.card.Listens) {n : ℕ} (bytes : v.rx :: v.queue = List.replicate n 0x00 ++ [0xff])
    (timely : v.age + n * v.blk.lap < 500 * p.ticks + v.blk.lap) :
    Leads p (some f) (At p (some f) v)
      (At p (some f) { v with
        blk := { v.blk with st := .finish }, rx := 0xff, queue := [], fresh := false,
        age := v.age + n * v.blk.lap + 1 }) := by
  have low : ∀ j < n, v.byte j = 0x00 := by
    intro j below
    rw [View.byte, bytes, List.getD_eq_getElem?_getD, List.getElem?_append_left (by simpa)]
    simp [below]
  refine (leads_polled st cs div listens low timely).before ?_
  have last : v.byte n = 0xff := by
    rw [View.byte, bytes]
    simp
  have rest : v.queue.drop n = [] := by
    change (v.rx :: v.queue).drop (n + 1) = []
    rw [bytes]
    exact List.drop_of_length_le (by simp)
  have path := LeadsIn.still (p := p) (h := some f) (v := v.reading n v.blk v.mem)
    (b := { v.blk.calm with st := .finish }) { v.blk with st := .finish }
    (v.age + n * v.blk.lap + 1) (fun req ms _ _ => ?_) rfl rfl rfl rfl ?_
  · simp only [View.reading, last, rest] at path ⊢
    exact path.leads
  · have here : (v.reading n v.blk v.mem).blk.calm.st = .wrBusy := st
    have ones : (v.reading n v.blk v.mem).rx = 0xff := last
    simp only [Blk.step, here, ones, Blk.stepWrBusy]
    rfl
  · rw [Blk.after_running rfl]
    rfl

theorem Card.ended_waits (waits : k.Waits) : (k.ended f lba m).Waits :=
  ⟨(k.ended_facts f lba m).1, (k.ended_facts f lba m).2.1.trans waits.cmd,
    (k.ended_facts f lba m).2.2.1.trans waits.acmd⟩

/-- The start token opens the block. -/
theorem token_onByte (q : List Byte) :
    { { k with wrLba := lba, mode := .wrToken } with tx := q }.onByte f 0xfe =
      { k.takes lba m 0 with tx := q } := by
  have empty : List.replicate 512 (0 : Byte) =
      (List.range 512).map fun i => if i < 0 then m (BitVec.ofNat 9 i) else 0 := by
    refine List.ext_getElem ?_ fun i here there => ?_
    · rw [List.length_replicate, List.length_map, List.length_range]
    · rw [List.getElem_replicate, List.getElem_map, if_neg (Nat.not_lt_zero _)]
  simp only [Card.onByte, Card.takes, if_true, empty]

/-- The card is busy with a block: what it still has to send, and what it made of the block. -/
structure Busy (p : Params) (f : Faults) (k : Card) (lba : BitVec 32) (m : BitVec 9 → Byte)
    (v : View) : Prop where
  serving : Serving p .wrBusy (k.ended f lba m) m (p.ticks + p.fastLap) v
  bytes : v.rx :: v.queue = List.replicate k.busyBytes 0x00 ++ [0xff]
  cs : v.blk.cs = true
  err : v.blk.err = f.strikes true lba

/-- Once CMD24 is accepted, the block goes out and the card is busy. -/
theorem leads_busy (serving : Serving p .wrCmdR { k with wrLba := lba, mode := .wrToken } m age v)
    (quick : p.fastLap ≤ p.ticks) (queue : v.queue = []) (r1 : v.blk.r1 = 0x00)
    (cs : v.blk.cs = true) (err : v.blk.err = false) (waits : k.Waits) (inside : lba < k.blocks) :
    LeadsIn p (some f) (518 * p.fastLap) (At p (some f) v) (Seen p (some f) (Busy p f k lba m)) := by
  have facts := k.ended_facts f lba m
  have lap := serving.lap
  have listens : v.card.Listens := by
    rw [serving.card]
    exact .inr rfl
  have gap : LeadsIn p (some f) v.blk.lap (At p (some f) v) (At p (some f) { v with
      blk := { v.blk with bufAddr := 0, st := .wrPre }, rx := v.queue.headD 0xff
      queue := v.queue.tail, fresh := true, age := v.age + v.blk.lap }) := by
    refine LeadsIn.poll (b := { v.blk.calm with bufAddr := 0, st := .wrPre, tx := 0xff, go := true })
      _ _ (fun req ms _ _ => ?_) rfl rfl rfl serving.narrow cs rfl listens rfl ?_
    · simp [Blk.step, Blk.calm, serving.st, Blk.stepWrCmdR, r1, Blk.send]
    · rw [Blk.after_running rfl]
      simp only [Blk.lap, Blk.calm]
      omega
  have token : LeadsIn p (some f) v.blk.lap (At p (some f) { v with
      blk := { v.blk with bufAddr := 0, st := .wrPre }, rx := v.queue.headD 0xff
      queue := v.queue.tail, fresh := true, age := v.age + v.blk.lap })
      (At p (some f) { v with
        blk := { v.blk with bufAddr := 0, bcnt := 0, crc16 := 0, st := .wrTok }, rx := 0xff
        card := k.takes lba v.mem 0, queue := [], fresh := true, age := v.age + 2 * v.blk.lap }) := by
    have path := LeadsIn.tell (p := p) (h := some f) (v := { v with
      blk := { v.blk with bufAddr := 0, st := .wrPre }, rx := v.queue.headD 0xff
      queue := v.queue.tail, fresh := true, age := v.age + v.blk.lap }) (k := k.takes lba v.mem 0)
      (q := []) (b := { v.blk.calm with
        bufAddr := 0, bcnt := 0, crc16 := 0, st := .wrTok, tx := 0xfe, go := true })
      { v.blk with bufAddr := 0, bcnt := 0, crc16 := 0, st := .wrTok } (v.age + 2 * v.blk.lap)
      (fun req ms _ _ _ => rfl) rfl rfl rfl serving.narrow cs (fun g _ => ?_) rfl ?_
    · simp only [queue, List.tail_nil, List.headD_nil] at path ⊢
      exact path
    · dsimp only
      rw [serving.card, queue]
      exact token_onByte []
    · rw [Blk.after_running rfl]
      simp only [Blk.lap, Blk.calm]
      omega
  refine Clocked.LeadsIn.cast (gap.trans (token.trans (m := 516 * v.blk.lap) ?_))
    (show v.blk.lap + (v.blk.lap + 516 * v.blk.lap) = 518 * p.fastLap by
      rw [lap]
      omega)
  refine Clocked.LeadsIn.cast (Clocked.LeadsIn.trans (m := 4 * v.blk.lap) (leads_written lba (k := k)
    rfl rfl rfl rfl cs serving.narrow rfl rfl rfl) ?_)
    (show 512 * v.blk.lap + 4 * v.blk.lap = 516 * v.blk.lap by omega)
  refine Clocked.LeadsIn.mono (leads_response (k.halfway lba m) (k.ended f lba m)
    (if f.failWrite = some lba then 0x0d else 0x05) (List.replicate k.busyBytes 0x00 ++ [0xff]) rfl
    rfl cs serving.narrow (lap ▸ quick) rfl (fun rx => ?_) (fun rx => ended_onByte inside rx)
    (Card.ended_waits waits).listens ?_) fun s here => here.seen ?_
  · rw [← serving.mem]
    exact full_onByte [] rx
  · by_cases bad : f.failWrite = some lba <;> simp [bad]
  · refine ⟨⟨rfl, serving.div, rfl, serving.mem, serving.ccs.trans facts.2.2.2.1.symm, serving.up,
      serving.count.trans facts.2.2.2.2.1.symm, ?_⟩, ?_, cs, ?_⟩
    · exact Nat.le_of_eq (congrArg (p.ticks + ·) lap)
    · cases k.busyBytes <;> rfl
    · by_cases bad : f.failWrite = some lba
      · simp [Faults.strikes, bad]
      · simp [Faults.strikes, bad, View.writing, err]

/-- A write, from the command to the wait. -/
theorem leads_taken (serving : Serving p .wrCmd k m age v) (quick : p.fastLap ≤ p.ticks)
    (queue : v.queue = []) (err : v.blk.err = false) (waits : k.Waits) (short : k.ncr ≤ 62)
    (addressed : k.lbaOf v.blk.cmdArg = lba) (inside : lba < k.blocks) :
    LeadsIn p (some f) ((k.ncr + 8) * p.fastLap + 2 + 518 * p.fastLap) (At p (some f) v)
      (Seen p (some f) (Busy p f k lba m)) := by
  have calls (b : Blk) (req : BlkReq) (rx : Byte) (ms : ℕ) (st : b.st = .wrCmd) :
      b.step p req rx ms = b.command 24 b.cmdArg false .wrCmdR := by
    simp only [Blk.step, st]
  have acts (g : Faults) (_ : ∀ g' ∈ some f, g = g') :
      { k with tx := [] }.execute g false 24 v.blk.cmdArg =
        { { k with wrLba := lba, mode := .wrToken } with
          tx := List.replicate k.ncr 0xff ++ 0x00 :: [] } := by
    have same : ({ k with tx := [] } : Card).lbaOf v.blk.cmdArg = lba := addressed
    simp [Card.execute, Card.writeBlock, same, BitVec.not_le.mpr inside, Card.pushR1, Card.push]
  refine (leads_served calls serving queue waits short acts (.inr rfl) rfl rfl rfl).trans
    (LeadsIn.seen fun w => ?_)
  rintro ⟨served, rest, r1, cs, err'⟩
  exact leads_busy served quick rest r1 cs (err'.trans err) waits inside

theorem Busy.listens (busy : Busy p f k lba m v) (waits : k.Waits) : v.card.Listens := by
  rw [busy.serving.card]
  exact (Card.ended_waits waits).listens

/-- The wait of a card that is busy for less than the timeout. -/
theorem Busy.leads (busy : Busy p f k lba m v) (waits : k.Waits)
    (prompt : k.busyBytes * p.fastLap < 499 * p.ticks) :
    Leads p (some f) (At p (some f) v)
      (Seen p (some f) (Finishing p (k.ended f lba m) m (f.strikes true lba))) := by
  obtain ⟨serving, bytes, cs, err⟩ := id busy
  refine (leads_idle_again serving.st cs serving.narrow (busy.listens waits) bytes ?_).mono
    fun s here => here.seen ⟨⟨_, rfl, serving.div, serving.card, serving.mem, serving.ccs, serving.up,
      serving.count, Nat.le_refl _⟩, rfl, err⟩
  have age := serving.age
  rw [serving.lap]
  omega

/-- A write, from the command to the answer. -/
theorem leads_write (serving : Serving p .wrCmd k m age v) (quick : p.fastLap ≤ p.ticks)
    (queue : v.queue = []) (err : v.blk.err = false) (waits : k.Waits) (short : k.ncr ≤ 62)
    (addressed : k.lbaOf v.blk.cmdArg = lba) (inside : lba < k.blocks)
    (prompt : k.busyBytes * p.fastLap < 499 * p.ticks) :
    Leads p (some f) (At p (some f) v)
      (Seen p (some f) (Finishing p (k.ended f lba m) m (f.strikes true lba))) :=
  (leads_taken serving quick queue err waits short addressed inside).before
    (Leads.seen fun _ busy => busy.leads waits prompt)

end Write

end Wish5380.Sd
