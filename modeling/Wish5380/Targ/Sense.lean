import Wish5380.Targ.Responses

/-!
# Status and sense

Every command but REQUEST SENSE starts by clearing the sense, and leaves one behind exactly
when it ends in CHECK CONDITION.  From then on nothing touches it until the next command is
carried out, whatever is selected, aborted or reset in between.
-/

namespace Wish5380.Targ

namespace Seq

variable {p : Params} {s t : Seq} {c : Cycle}

/-- CHECK CONDITION with a sense key, or GOOD without. -/
def Agrees (s : Seq) : Prop :=
  s.status = if s.senseKey = skNoSense then stGood else stCheck

/-- Status and sense of a command other than REQUEST SENSE: in order while its data move, in
agreement once it ends. -/
structure Accounts (s : Seq) : Prop where
  moving : s.st = .datain ∨ s.st = .dataout ∨ s.st = .rdwait ∨ s.st = .wrwait →
    s.op ≠ cRequestSense → s.status = stGood ∧ s.senseKey = skNoSense
  ending : s.st = .status ∨ s.st = .msgin → s.op ≠ cRequestSense → s.Agrees

theorem reset_accounts : Seq.reset.Accounts :=
  ⟨fun moving => by simp [Seq.reset] at moving, fun ending => by simp [Seq.reset] at ending⟩

theorem execDefaults_senseKey (other : s.op ≠ cRequestSense) :
    s.execDefaults.senseKey = skNoSense := by
  unfold execDefaults
  rw [if_neg other]
  rfl

theorem agrees_of_clear (clear : s.status = stGood ∧ s.senseKey = skNoSense) : s.Agrees := by
  rw [Agrees, clear.1, clear.2]
  rfl

theorem accounts_of_clear
    (clear : s.op ≠ cRequestSense → s.status = stGood ∧ s.senseKey = skNoSense) : s.Accounts :=
  ⟨fun _ other => clear other, fun _ other => agrees_of_clear (clear other)⟩

theorem Decides.accounts {blk : BlkRsp} (decides : Decides s blk t) : t.Accounts := by
  have clear : s.op ≠ cRequestSense →
      s.execDefaults.status = stGood ∧ s.execDefaults.senseKey = skNoSense :=
    fun other => ⟨execDefaults_status s, execDefaults_senseKey other⟩
  have same := execDefaults_op s
  cases decides with
  | refuse key asc lba known =>
      refine ⟨by simp, fun _ _ => ?_⟩
      rw [Agrees, if_neg known]
  | _ => exact accounts_of_clear fun other => clear (same ▸ other)

theorem Edge.accounts (edge : Edge p s c t) (accounts : s.Accounts) : t.Accounts := by
  obtain ⟨moving, ending⟩ := accounts
  cases edge with
  | pin => exact reset_accounts
  | decide _ _ _ decides => exact decides.accounts
  | fault => exact ⟨by simp, fun _ _ => rfl⟩
  | raise => exact ⟨moving, ending⟩
  | keep => exact ⟨moving, ending⟩
  | hand => exact ⟨moving, ending⟩
  | pend => exact ⟨moving, ending⟩
  | filled _ _ st => exact accounts_of_clear (moving (.inr (.inr (.inl st))))
  | drained _ _ st => exact accounts_of_clear (moving (.inr (.inr (.inr st))))
  | written _ _ st => exact accounts_of_clear (moving (.inr (.inr (.inr st))))
  | fetch _ _ st => exact accounts_of_clear (moving (.inl st))
  | store _ _ st => exact accounts_of_clear (moving (.inr (.inl st)))
  | moved _ _ moves =>
      refine accounts_of_clear (moving ?_)
      rcases moves with st | st
      · exact .inl st
      · exact .inr (.inl st)
  | more _ _ moves =>
      rcases moves with st | st | st
      · exact ⟨by simp [st], by simp [st]⟩
      · exact accounts_of_clear (moving (.inl st))
      · exact accounts_of_clear (moving (.inr (.inl st)))
  | status _ _ st => exact ⟨by simp, fun _ => ending (.inl st)⟩
  | _ => exact ⟨by simp_all, by simp_all⟩

/-! ## What keeps the sense -/

/-- The cycle in which a command is carried out. -/
def Executes (s : Seq) (c : Cycle) : Prop :=
  s.st = .exec ∧ c.bus.rst = false

/-- No command is on its way through its data, and the one that ends is not REQUEST SENSE. -/
structure Between (s : Seq) : Prop where
  still : s.st ≠ .datain ∧ s.st ≠ .dataout ∧ s.st ≠ .rdwait ∧ s.st ≠ .wrwait
  other : s.st = .status ∨ s.st = .msgin → s.op ≠ cRequestSense

theorem Edge.between (edge : Edge p s c t) (pin : c.rst = false) (between : s.Between)
    (idle : ¬ s.Executes c) : t.Between ∧ t.sense = s.sense := by
  obtain ⟨⟨notIn, notOut, notRead, notWrite⟩, other⟩ := between
  cases edge with
  | pin rst => simp [pin] at rst
  | decide _ rst st => exact absurd ⟨st, rst⟩ idle
  | raise => exact ⟨⟨⟨notIn, notOut, notRead, notWrite⟩, other⟩, rfl⟩
  | keep => exact ⟨⟨⟨notIn, notOut, notRead, notWrite⟩, other⟩, rfl⟩
  | hand => exact ⟨⟨⟨notIn, notOut, notRead, notWrite⟩, other⟩, rfl⟩
  | status _ _ st => exact ⟨⟨by simp, fun _ => other (.inl st)⟩, rfl⟩
  | consume _ _ st _ _ op => exact absurd op (other (.inr st))
  | pend _ _ st => rcases st with st | st <;> contradiction
  | fault _ _ st => rcases st with st | st <;> contradiction
  | moved _ _ st => rcases st with st | st <;> contradiction
  | more _ _ moves =>
      rcases moves with st | st | st
      · exact ⟨⟨by simp [st], by simp [st]⟩, rfl⟩
      · exact absurd st notIn
      · exact absurd st notOut
  | filled _ _ st => exact absurd st notRead
  | fetch _ _ st => exact absurd st notIn
  | _ => exact ⟨⟨by simp_all, by simp_all⟩, rfl⟩

end Seq

section Run

variable {p : Params} {b : Buf} {s : State} {input : ℕ → Cycle}

theorem run_accounts (p : Params) (b : Buf) (input : ℕ → Cycle) (t : ℕ) :
    (run p (start b) input t).seq.Accounts := by
  induction t with
  | zero => exact Seq.reset_accounts
  | succ t ih => exact (Seq.clock_edge p _ (input t)).accounts ih

/-- In cycle `e` the next command after cycle `a` is carried out. -/
structure NextExecuted (x : ℕ → State) (input : ℕ → Cycle) (a e : ℕ) : Prop where
  after : a < e
  executes : (x e).seq.Executes (input e)
  first : ∀ v, a ≤ v → v < e → ¬ (x v).seq.Executes (input v)

/-- The sense lasts until the next command is carried out. -/
theorem sense_kept (pin : ∀ t, (input t).rst = false) {a u : ℕ}
    (between : (run p s input a).seq.Between) (later : a ≤ u)
    (none : ∀ v, a ≤ v → v < u → ¬ (run p s input v).seq.Executes (input v)) :
    (run p s input u).seq.Between ∧ (run p s input u).seq.sense = (run p s input a).seq.sense := by
  induction u, later using Nat.le_induction with
  | base => exact ⟨between, rfl⟩
  | succ u later ih =>
      obtain ⟨here, same⟩ := ih fun v low high => none v low (by omega)
      have edge := Seq.clock_edge p (run p s input u).seq (input u)
      obtain ⟨next, kept⟩ := edge.between (pin u) here (none u later (Nat.lt_succ_self u))
      exact ⟨next, kept.trans same⟩

/-- The STATUS phase puts the status register on the bus. -/
theorem out_status {x : ℕ → State} {t : ℕ} (st : (x t).seq.st = .status) :
    (out p x input t).data = (x t).seq.status := by
  have up : (x t).seq.connected = true := by simp [Seq.connected, st]
  have phase : (x t).seq.phase = phStatus := by simp [Seq.phase, st]
  simp [out, drive, Seq.driveBus, up, phase, dataOut, st]

end Run

/-- The bytes of DATA IN for the REQUEST SENSE carried out in cycle `e`: for as long as no reset
comes, those of the sense data in order; all of them up to the allocation length by the time it
goes to STATUS, which it does if the initiator completes every handshake. -/
structure Reports (p : Params) (x : ℕ → State) (input : ℕ → Cycle) (e : ℕ) (sense : Sense) :
    Prop where
  safe : ∀ u, e < u → (∀ v, e ≤ v → v < u → (input v).bus.rst = false) →
    (∀ v, e < v → v < u → (x v).seq.st = .datain) →
    (Clocked.trace (received p x input) (e + 1) u <+:
        (senseData sense).take (cdbByte (x e).seq.cdb 4).toNat) ∧
      ((x u).seq.st = .status → Clocked.trace (received p x input) (e + 1) u =
        (senseData sense).take (cdbByte (x e).seq.cdb 4).toNat)
  live : Patient x input e →
    Delivers p x input e ((senseData sense).take (cdbByte (x e).seq.cdb 4).toNat)

theorem take_senseData (sense : Sense) (n : ℕ) :
    (senseData sense).take (min n 18) = (senseData sense).take n := by
  rw [List.take_eq_take_iff]
  show min (min n 18) 18 = min n 18
  omega

section Request

variable {p : Params} {s : State} {input : ℕ → Cycle} {e : ℕ}

/-- The edge that turns a REQUEST SENSE into its response: what is sent, and how much of it. -/
structure Requested (p : Params) (x : ℕ → State) (e : ℕ) : Prop where
  responds : Seq.Responds (x e).seq (x (e + 1)).seq
  kind : (x (e + 1)).seq.respKind = .sense
  length : (x (e + 1)).seq.xferLen.toNat = min (cdbByte (x e).seq.cdb 4).toNat 18
  bytes : ∀ n ≤ 18, (List.range n).map (byteAt p (x (e + 1)).seq 0) =
    (senseData (x e).seq.sense).take n

theorem requested (pin : (input e).rst = false) (rst : (input e).bus.rst = false)
    (exec : (run p s input e).seq.st = .exec) (op : (run p s input e).seq.op = cRequestSense) :
    Requested p (run p s input) e := by
  have generates : Seq.Generates (run p s input e).seq.endPulse .sense 18 := .sense op
  have here : (run p s input e).seq.endPulse.st = .exec := exec
  have next : (run p s input (e + 1)).seq =
      (run p s input e).seq.endPulse.execDefaults.respond .sense 18 := by
    have calm : (run p s input (e + 1)).seq =
        (run p s input e).seq.endPulse.step p (input e).bus (input e).blk :=
      Seq.clock_calm p _ pin rst
    rw [calm, ← Seq.stepExec_generates generates (input e).blk]
    simp only [Seq.step, here]
  have responds : Seq.Responds (run p s input e).seq (run p s input (e + 1)).seq := by
    have fresh := generates.responds rfl
    rw [next]
    exact ⟨fresh.hs, fresh.idx, fresh.quiet, fresh.good, fresh.kind, fresh.place, fresh.lun,
      fresh.sense⟩
  have kind : (run p s input (e + 1)).seq.respKind = .sense := by
    rw [next]
    rfl
  refine ⟨responds, kind, ?_, fun n short => ?_⟩
  · have byte := (cdbByte (run p s input e).seq.cdb 4).isLt
    rw [next, Seq.respond_xferLen]
    simp only [Seq.allocLen, BitVec.toNat_setWidth]
    show min ((cdbByte (run p s input e).seq.cdb 4).toNat % 2 ^ 10) 18 = _
    omega
  · rw [← responds.sense kind]
    exact Seq.byteAt_take p 0 (byteAt_sense p kind 0) short

/-- A REQUEST SENSE with room for something. -/
theorem Requested.some_bytes {u : ℕ} (pin : ∀ t, (input t).rst = false)
    (requested : Requested p (run p s input) e) (after : e < u)
    (calm : ∀ v, e ≤ v → v < u → (input v).bus.rst = false)
    (datain : ∀ v, e < v → v < u → (run p s input v).seq.st = .datain)
    (st : (run p s input (e + 1)).seq.st = .datain)
    (some : 0 < (run p s input (e + 1)).seq.xferLen) :
    (Clocked.trace (received p (run p s input) input) (e + 1) u <+:
        (senseData (run p s input e).seq.sense).take (cdbByte (run p s input e).seq.cdb 4).toNat) ∧
      ((run p s input u).seq.st = .status →
        Clocked.trace (received p (run p s input) input) (e + 1) u =
          (senseData (run p s input e).seq.sense).take
            (cdbByte (run p s input e).seq.cdb 4).toNat) := by
  obtain ⟨responds, kind, length, bytes⟩ := requested
  have underway : Underway p (run p s input) input (run p s input (e + 1)).seq 0 (e + 1)
      (e + 1) := responds.underway st some
  have on := underway.forward responds.quiet responds.kind (u - (e + 1)) (by
    intro v low high
    exact ⟨pin v, calm v (by omega) (by omega), byteAt_count (by simp [kind]) _ _⟩)
  rw [show e + 1 + (u - (e + 1)) = u by omega] at on
  rcases on with on | ⟨w, low, high, done⟩
  · have inside : (run p s input u).seq.idx.toNat <
        (run p s input (e + 1)).seq.xferLen.toNat := on.answering.inside
    have few : (run p s input u).seq.handed ≤
        min (cdbByte (run p s input e).seq.cdb 4).toNat 18 := by
      unfold Seq.handed
      split_ifs <;> omega
    rw [on.bytes, bytes _ (by omega)]
    refine ⟨List.take_prefix_take_left (by omega), fun status => ?_⟩
    simp [on.answering.st] at status
  · have last : w = u := by
      by_contra early
      have place := datain w (by omega) (by omega)
      rw [show (run p s input w).seq = _ from done.after] at place
      cases place
    subst last
    rw [done.bytes, length, bytes _ (by omega), take_senseData]
    exact ⟨List.prefix_refl _, fun _ => rfl⟩

/-- REQUEST SENSE reports what is stored when it is carried out. -/
theorem reports_stored (pin : ∀ t, (input t).rst = false)
    (exec : (run p s input e).seq.st = .exec) (op : (run p s input e).seq.op = cRequestSense) :
    Reports p (run p s input) input e (run p s input e).seq.sense := by
  constructor
  case live =>
    intro patient
    have which : Seq.Generates (run p s input e).seq .sense 18 := .sense op
    have delivers : Delivers p (run p s input) input e ((response p .sense
        (run p s input e).seq.lun (run p s input e).seq.sense 0).take _) :=
      delivers_generated patient (fun other => by cases other) exec which
    rw [← take_senseData]
    exact delivers
  case safe =>
    intro u after calm datain
    have asked := requested (pin e) (calm e (Nat.le_refl e) after) exec op
    rcases asked.responds.place with ⟨st, some⟩ | ⟨st, none⟩
    · exact asked.some_bytes pin after calm datain st some
    · have last : u = e + 1 := by
        by_contra late
        have place := datain (e + 1) (by omega) (by omega)
        simp [st] at place
      subst last
      have empty : (cdbByte (run p s input e).seq.cdb 4).toNat = 0 := by
        have length := asked.length
        rw [none] at length
        simp at length
        omega
      rw [Clocked.trace_self, empty]
      exact ⟨List.prefix_refl _, fun _ => rfl⟩

end Request

/-- The fields a driver reads, in any answer of at least fourteen bytes. -/
structure Fields (bytes : List Byte) (sense : Sense) : Prop where
  key : bytes[2]? = some (sense.key.setWidth 8)
  info : bytes[3]? = some (msbByte sense.info 4 0) ∧ bytes[4]? = some (msbByte sense.info 4 1) ∧
    bytes[5]? = some (msbByte sense.info 4 2) ∧ bytes[6]? = some (msbByte sense.info 4 3)
  asc : bytes[12]? = some sense.asc
  ascq : bytes[13]? = some sense.ascq

theorem fields_take (sense : Sense) {n : ℕ} (enough : 14 ≤ n) :
    Fields ((senseData sense).take n) sense := by
  have at_ : ∀ k < 14, ((senseData sense).take n)[k]? = (senseData sense)[k]? := by
    intro k below
    exact List.getElem?_take_of_lt (by omega)
  refine ⟨?_, ⟨?_, ?_, ?_, ?_⟩, ?_, ?_⟩ <;> rw [at_ _ (by decide)] <;> rfl

/-- The message of a REQUEST SENSE takes the sense with it. -/
theorem sense_consumed {p : Params} {s t : Seq} {c : Cycle} (edge : Seq.Edge p s c t)
    (msgin : s.st = .msgin) (op : s.op = cRequestSense) (free : t.st = .free) :
    t.sense = noSense ∧ t.Between := by
  cases edge with
  | consume => exact ⟨rfl, ⟨by simp, by simp⟩⟩
  | message _ _ _ _ _ other => exact absurd op other
  | pin => cases free
  | decide _ _ st => simp [st] at msgin
  | _ => simp_all

/-- Status and sense over every sequence of commands: the status byte of a command tells
whether there is sense, the next REQUEST SENSE reports that sense, and the one after a
completed one reports none. -/
theorem status_tells_sense (p : Params) (b : Buf) (input : ℕ → Cycle)
    (pin : ∀ t, (input t).rst = false) :
    (∀ t, (run p (start b) input t).seq.st = .status →
      (run p (start b) input t).seq.op ≠ cRequestSense →
      (out p (run p (start b) input) input t).data =
        if (run p (start b) input t).seq.senseKey = skNoSense then stGood else stCheck) ∧
    (∀ a e, (run p (start b) input a).seq.st = .status →
      (run p (start b) input a).seq.op ≠ cRequestSense →
      NextExecuted (run p (start b) input) input a e →
      (run p (start b) input e).seq.op = cRequestSense →
      Reports p (run p (start b) input) input e (run p (start b) input a).seq.sense) ∧
    (∀ m e, (run p (start b) input m).seq.st = .msgin →
      (run p (start b) input m).seq.op = cRequestSense →
      (run p (start b) input (m + 1)).seq.st = .free →
      NextExecuted (run p (start b) input) input m e →
      (run p (start b) input e).seq.op = cRequestSense →
      Reports p (run p (start b) input) input e noSense) ∧
    ∀ sense n, 14 ≤ n → Fields ((senseData sense).take n) sense := by
  refine ⟨?_, ?_, ?_, fun sense n => fields_take sense⟩
  · intro t st other
    rw [out_status st]
    exact (run_accounts p b input t).ending (.inl st) other
  · intro a e st other next op
    have between : (run p (start b) input a).seq.Between := ⟨by simp [st], fun _ => other⟩
    have kept := (sense_kept pin between (Nat.le_of_lt next.after) next.first).2
    have reports := reports_stored pin next.executes.1 op
    rwa [kept] at reports
  · intro m e msgin op free next request
    have edge := Seq.clock_edge p (run p (start b) input m).seq (input m)
    obtain ⟨none, gone⟩ := sense_consumed edge msgin op free
    have between : (run p (start b) input (m + 1)).seq.Between := gone
    have later : m + 1 ≤ e := next.after
    have kept := (sense_kept pin between later fun v low high =>
      next.first v (by omega) high).2
    have reports := reports_stored pin next.executes.1 request
    rwa [kept, show (run p (start b) input (m + 1)).seq.sense = noSense from none] at reports

/-- A READ(10) past the end of the medium ends in CHECK CONDITION. -/
theorem read_past_end_checks :
    (out {} (run {} (start .blank) (readCycles 4000 1)) (readCycles 4000 1) 53).data = stCheck := by
  have facts : (Clocked.run (Seq.clock {}) Seq.reset (readCycles 4000 1) 53).st = .status ∧
      (Clocked.run (Seq.clock {}) Seq.reset (readCycles 4000 1) 53).op ≠ cRequestSense ∧
      (Clocked.run (Seq.clock {}) Seq.reset (readCycles 4000 1) 53).senseKey ≠ skNoSense := by
    decide +kernel
  have seq := run_seq {} (start .blank) (readCycles 4000 1) 53
  have tells := (status_tells_sense {} .blank (readCycles 4000 1) (fun _ => rfl)).1 53
    (by rw [seq]; exact facts.1) (by rw [seq]; exact facts.2.1)
  rw [tells, if_neg]
  rw [seq]
  exact facts.2.2

end Wish5380.Targ
