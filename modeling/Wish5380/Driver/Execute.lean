import Wish5380.Driver.Select

/-!
# A whole command

`execute` gives the target what it asks for until the bus goes free.  What it reports is told by
what changed hands on the bus, phase by phase: nothing of it is lost, doubled or made up, whatever
the order of the phases and wherever the target or a timeout breaks off.
-/

namespace Wish5380.Driver

open Clocked

/-- What has changed hands in the phase loop, beside `out_pos` and what the driver reports. -/
inductive Story (c : Command) : Moved → ℕ → Result → Prop where
  | begun : Story c [] 0 {}
  | message_out {h : Moved} {pos : ℕ} {res : Result} (past : Story c h pos res) :
      Story c (h ++ [(phMsgOut, c.identify)]) pos res
  | command {h : Moved} {pos : ℕ} {res : Result} (past : Story c h pos res) :
      Story c (h ++ c.cdb.map (phCommand, ·)) pos res
  | data_out {h : Moved} {pos : ℕ} {res : Result} (past : Story c h pos res) (n : ℕ)
      (inside : pos + n ≤ c.dataOut.length) :
      Story c (h ++ ((c.dataOut.drop pos).take n).map (phDataOut, ·)) (pos + n) res
  | data_in {h : Moved} {pos : ℕ} {res : Result} (past : Story c h pos res) (got : List Byte)
      (inside : res.data.length + got.length ≤ c.maxIn) :
      Story c (h ++ got.map (phDataIn, ·)) pos { res with data := res.data ++ got }
  | status {h : Moved} {pos : ℕ} {res : Result} (past : Story c h pos res) (v : Byte) :
      Story c (h ++ [(phStatus, v)]) pos { res with status := v }
  | message_in {h : Moved} {pos : ℕ} {res : Result} (past : Story c h pos res) (v : Byte) :
      Story c (h ++ [(phMsgIn, v)]) pos { res with message := v }

/-- The bytes that changed hands in `phase`. -/
def during (phase : BitVec 3) (h : Moved) : List Byte :=
  (h.filter (·.1 == phase)).map Prod.snd

@[simp] theorem during_nil (phase : BitVec 3) : during phase [] = [] := rfl

@[simp] theorem during_append (phase : BitVec 3) (h h' : Moved) :
    during phase (h ++ h') = during phase h ++ during phase h' := by
  simp [during]

theorem during_map (phase other : BitVec 3) (bytes : List Byte) :
    during phase (bytes.map (other, ·)) = if other = phase then bytes else [] := by
  induction bytes with
  | nil => simp [during]
  | cons v bytes ih =>
      rw [List.map_cons, ← List.singleton_append, during_append, ih]
      by_cases same : other = phase
      · simp [during, same]
      · simp [during, same]

@[simp] theorem during_singleton (phase other : BitVec 3) (v : Byte) :
    during phase [(other, v)] = if other = phase then [v] else [] :=
  during_map phase other [v]

namespace Story

variable {c : Command} {h : Moved} {pos : ℕ} {res : Result}

theorem ok (story : Story c h pos res) : res.ok = false := by
  induction story with
  | begun => rfl
  | message_out past ih => exact ih
  | command past ih => exact ih
  | data_out past n inside ih => exact ih
  | data_in past got inside ih => exact ih
  | status past v ih => exact ih
  | message_in past v ih => exact ih

theorem inside (story : Story c h pos res) :
    pos ≤ c.dataOut.length ∧ res.data.length ≤ c.maxIn := by
  induction story with
  | begun => exact ⟨Nat.zero_le _, Nat.zero_le _⟩
  | message_out past ih => exact ih
  | command past ih => exact ih
  | data_out past n inside ih => exact ⟨inside, ih.2⟩
  | data_in past got inside ih => exact ⟨ih.1, by rw [List.length_append]; exact inside⟩
  | status past v ih => exact ih
  | message_in past v ih => exact ih

/-- What the driver reports is what changed hands. -/
theorem told (story : Story c h pos res) :
    during phDataIn h = res.data ∧ during phDataOut h = c.dataOut.take pos ∧
      (during phStatus h).getLast?.getD 0xff = res.status ∧
      (during phMsgIn h).getLast?.getD 0xff = res.message ∧
      (∃ n, during phCommand h = (List.replicate n c.cdb).flatten) ∧
      (∀ v ∈ during phMsgOut h, v = c.identify) := by
  induction story with
  | begun => exact ⟨rfl, by simp, rfl, rfl, ⟨0, rfl⟩, by simp⟩
  | message_out past ih =>
      obtain ⟨dataIn, dataOut, status, message, command, identify⟩ := ih
      refine ⟨by simpa using dataIn, by simpa using dataOut, by simpa using status,
        by simpa using message, by simpa using command, ?_⟩
      simpa [or_imp, forall_and] using identify
  | command past ih =>
      obtain ⟨dataIn, dataOut, status, message, ⟨n, command⟩, identify⟩ := ih
      refine ⟨by simpa [during_map] using dataIn, by simpa [during_map] using dataOut,
        by simpa [during_map] using status, by simpa [during_map] using message, ⟨n + 1, ?_⟩,
        by simpa [during_map] using identify⟩
      rw [during_append, command, during_map, if_pos rfl, List.replicate_succ', List.flatten_append,
        List.flatten_singleton]
  | @data_out h pos res past n inside ih =>
      obtain ⟨dataIn, dataOut, status, message, command, identify⟩ := ih
      have sent : c.dataOut.take (pos + n) = c.dataOut.take pos ++ (c.dataOut.drop pos).take n :=
        List.take_add
      generalize (c.dataOut.drop pos).take n = bytes at sent ⊢
      refine ⟨by simpa [during_map] using dataIn, ?_, by simpa [during_map] using status,
        by simpa [during_map] using message, by simpa [during_map] using command,
        by simpa [during_map] using identify⟩
      rw [during_append, dataOut, during_map, if_pos rfl, sent]
  | data_in past got inside ih =>
      obtain ⟨dataIn, dataOut, status, message, command, identify⟩ := ih
      exact ⟨by rw [during_append, dataIn, during_map, if_pos rfl], by simpa [during_map] using dataOut,
        by simpa [during_map] using status, by simpa [during_map] using message,
        by simpa [during_map] using command, by simpa [during_map] using identify⟩
  | status past v ih =>
      obtain ⟨dataIn, dataOut, status, message, command, identify⟩ := ih
      exact ⟨by simpa using dataIn, by simpa using dataOut, by simp, by simpa using message,
        by simpa using command, by simpa using identify⟩
  | message_in past v ih =>
      obtain ⟨dataIn, dataOut, status, message, command, identify⟩ := ih
      exact ⟨by simpa using dataIn, by simpa using dataOut, by simpa using status, by simp,
        by simpa using command, by simpa using identify⟩

end Story

/-! ## The phase loop -/

/-- Between two rounds of the loop. -/
def Along (c : Command) (pos : ℕ) (res : Result) (y : Moved × Dma.System) : Prop :=
  Story c y.1 pos res ∧ Poised y.2

/-- What is known once the loop has ended: only a command that was cut short may be missing from
the story, and after COMMAND COMPLETE nothing is. -/
structure Told (c : Command) (res : Result) (y : Moved × Dma.System) : Prop where
  story : ∃ past pos sent, Story c past pos { res with ok := false } ∧ sent <+: c.cdb ∧
    y.1 = past ++ sent.map (phCommand, ·) ∧ (res.ok = true → sent = [])
  poised : Poised y.2
  complete : res.ok = true →
    y.1.getLast? = some (phMsgIn, 0x00) ∧ res.message = 0x00 ∧ y.2.targ.seq.connected = false

section Loop

variable {pc : Chip.Params} {pt : Targ.Params} {count : BitVec 32} {c : Command} {pos : ℕ}
  {res : Result} {y : Moved × Dma.System} {blk : BlkRsp}

theorem Along.told (along : Along c pos res y) : Told c res y := by
  have ok := along.1.ok
  have same : { res with ok := false } = res := by rw [← ok]
  refine ⟨⟨y.1, pos, [], ?_, List.nil_prefix, by simp, fun _ => rfl⟩, along.2, fun done => ?_⟩
  · rw [same]
    exact along.1
  · rw [ok] at done
    cases done

theorem PioDone.along {phase : BitVec 3} {out : List Byte} {n : ℕ} {h : Moved} {pos' : ℕ}
    {res' : Result} {done : ℕ × List Byte} (after : PioDone phase out n h done y)
    (story : Story c (h ++ reported phase out done.1 done.2) pos' res') : Along c pos' res' y := by
  obtain ⟨⟨past, poised, -⟩, -⟩ := after
  exact ⟨past ▸ story, poised⟩

theorem along_keeps : Keeps pc pt count (Along c pos res) := by
  rintro y blk behaves ⟨story, poised⟩
  refine ⟨?_, poised.next behaves poised.quiet id⟩
  rw [next_recorded, poised.handed, List.append_nil]
  exact story

theorem Along.read (along : Along c pos res y) (behaves : Behaves count y.2 blk) (reg : BitVec 3) :
    Along c pos res ((recorded pc pt).next y blk (some (.read reg))) := by
  refine ⟨?_, along.2.next behaves along.2.quiet id⟩
  rw [next_recorded, along.2.handed, List.append_nil]
  exact along.1

/-- Off the bus the target stays off it. -/
theorem Poised.stays_off {y : Dma.System} {a : Option Access} (poised : Poised y)
    (off : y.targ.seq.connected = false) :
    ((machine pc pt).next y blk a).targ.seq.connected = false := by
  by_contra up
  have match_ := (connects (targ_edge pc pt y blk a) off (by simpa using up)).1
  simp [Targ.selMatch, bus_sel pt _ poised.quiet] at match_

theorem told_keeps : Keeps pc pt count (Told c res) := by
  rintro y blk behaves ⟨story, poised, complete⟩
  have same : ((recorded pc pt).next y blk none).1 = y.1 := by
    rw [next_recorded, poised.handed, List.append_nil]
  refine ⟨?_, poised.next behaves poised.quiet id, fun done => ?_⟩
  · rw [same]
    exact story
  · rw [same]
    exact ⟨(complete done).1, (complete done).2.1, poised.stays_off (complete done).2.2⟩

/-! ### One round -/

/-- What an arm of the loop leaves. -/
def After (c : Command) (turned : Turned) (y : Moved × Dma.System) : Prop :=
  if turned.onward then Along c turned.pos turned.res y else Told c turned.res y

theorem After.onward {turned : Turned} (along : Along c turned.pos turned.res y) :
    After c turned y := by
  unfold After
  split
  · exact along
  · exact along.told

theorem giveMessage_spec (along : Along c pos res y) :
    (recorded pc pt).wp (fun y blk => Behaves count y.2 blk) (giveMessage c pos res) (After c) y := by
  refine Machine.wp_bind (Machine.wp_mono (fun done y after => Machine.wp_pure ?_)
    (pio_spec (fun _ => Nat.le_refl 1) rfl along.2))
  refine .onward (after.along ?_)
  obtain ⟨moved, got⟩ := done
  have within : moved ≤ 1 := after.2.1
  rcases Nat.le_one_iff_eq_zero_or_eq_one.mp within with rfl | rfl
  · simpa [reported] using along.1
  · exact along.1.message_out

theorem giveCommand_spec (along : Along c pos res y) :
    (recorded pc pt).wp (fun y blk => Behaves count y.2 blk) (giveCommand c pos res) (After c) y := by
  refine Machine.wp_bind (Machine.wp_mono (fun done y' after => Machine.wp_pure ?_)
    (pio_spec (fun _ => Nat.le_refl _) rfl along.2))
  obtain ⟨moved, got⟩ := done
  have ok := along.1.ok
  have same : { res with ok := false } = res := by rw [← ok]
  have reports : reported phCommand c.cdb moved got = (c.cdb.take moved).map (phCommand, ·) := rfl
  by_cases all : moved = c.cdb.length
  · refine .onward (after.along ?_)
    rw [reports, all, List.take_length]
    exact along.1.command
  · rw [After, if_neg (by simpa using all)]
    obtain ⟨⟨past, poised, -⟩, -⟩ := after
    refine ⟨⟨y.1, pos, c.cdb.take moved, ?_, List.take_prefix _ _, past, fun done => ?_⟩, poised,
      fun done => ?_⟩
    · rw [same]
      exact along.1
    · rw [ok] at done
      cases done
    · rw [ok] at done
      cases done

theorem giveData_spec (plain : c.usePdma = false) (along : Along c pos res y) :
    (recorded pc pt).wp (fun y blk => Behaves count y.2 blk) (giveData c pos res) (After c) y := by
  unfold giveData
  simp only [move_plain plain]
  split
  · exact Machine.wp_pure (.onward along)
  · refine Machine.wp_bind (Machine.wp_mono (fun done y' after => Machine.wp_pure ?_)
      (pio_spec (fun _ => by rw [List.length_drop]) rfl along.2))
    refine .onward (after.along ?_)
    have within : done.1 ≤ c.dataOut.length - pos := after.2.1
    exact along.1.data_out done.1 (by have := along.1.inside; omega)

theorem takeData_spec (plain : c.usePdma = false) (along : Along c pos res y) :
    (recorded pc pt).wp (fun y blk => Behaves count y.2 blk) (takeData c pos res) (After c) y := by
  unfold takeData
  simp only [move_plain plain]
  split
  · exact Machine.wp_pure (.onward along)
  · refine Machine.wp_bind (Machine.wp_mono (fun done y' after => Machine.wp_pure ?_)
      (pio_spec (fun away => absurd away (by decide)) rfl along.2))
    refine .onward (after.along ?_)
    have within : done.1 ≤ c.maxIn - res.data.length := after.2.1
    have length : done.2.length = done.1 := after.2.2 rfl
    exact along.1.data_in done.2 (by have := along.1.inside; omega)

/-- A single byte that comes in: none, or the one that is read off. -/
theorem PioDone.single {phase : BitVec 3} {h : Moved} {done : ℕ × List Byte}
    (towards : phase.getLsbD 0 = true) (after : PioDone phase [] 1 h done y) :
    done.1 = 1 ∧ reported phase [] done.1 done.2 = [(phase, done.2.getD 0 0)] ∨
      done.1 ≠ 1 ∧ reported phase [] done.1 done.2 = [] := by
  obtain ⟨moved, got⟩ := done
  have within : moved ≤ 1 := after.2.1
  have length : got.length = moved := after.2.2 towards
  rcases Nat.le_one_iff_eq_zero_or_eq_one.mp within with rfl | rfl
  · obtain rfl := List.length_eq_zero_iff.mp length
    exact .inr ⟨by decide, by simp [reported]⟩
  · obtain ⟨v, rfl⟩ := List.length_eq_one_iff.mp length
    exact .inl ⟨rfl, by rw [reported, if_pos towards]; rfl⟩

theorem takeStatus_spec (along : Along c pos res y) :
    (recorded pc pt).wp (fun y blk => Behaves count y.2 blk) (takeStatus pos res) (After c) y := by
  refine Machine.wp_bind (Machine.wp_mono (fun done y' after => ?_)
    (pio_spec (fun away => absurd away (by decide)) rfl along.2))
  obtain ⟨moved, got⟩ := done
  rcases after.single rfl with ⟨one, reports⟩ | ⟨none, reports⟩
  · simp only [if_pos one]
    refine Machine.wp_pure (.onward (after.along ?_))
    rw [reports]
    exact along.1.status _
  · simp only [if_neg none]
    refine Machine.wp_pure (.onward (after.along ?_))
    rw [reports, List.append_nil]
    exact along.1

/-- The message is in; the bus goes free after COMMAND COMPLETE, or does not. -/
theorem takeMessage_spec (along : Along c pos res y) :
    (recorded pc pt).wp (fun y blk => Behaves count y.2 blk) (takeMessage pos res) (After c) y := by
  refine Machine.wp_bind (Machine.wp_mono (fun done y' after => ?_)
    (pio_spec (fun away => absurd away (by decide)) rfl along.2))
  obtain ⟨moved, got⟩ := done
  rcases after.single rfl with ⟨one, reports⟩ | ⟨none, reports⟩
  · simp only [if_pos one]
    have heard : Along c pos { res with message := got.getD 0 0 } y' := by
      refine after.along ?_
      rw [reports]
      exact along.1.message_in _
    have last : y'.1.getLast? = some (phMsgIn, got.getD 0 0) := by
      obtain ⟨⟨past, -⟩, -⟩ := after
      rw [past, reports, List.getLast?_append]
      rfl
    by_cases complete : got.getD 0 0 = 0x00
    · simp only [if_pos complete]
      have ended : ∀ z : Moved × Dma.System, z.1 = y'.1 → Poised z.2 → ∀ free : Bool,
          (free = true → z.2.targ.seq.connected = false) →
          Told c { res with message := got.getD 0 0, ok := free } z := by
        intro z past poised free off
        have ok := along.1.ok
        refine ⟨⟨z.1, pos, [], ?_, List.nil_prefix, by simp, fun _ => rfl⟩, poised, fun freed => ?_⟩
        · rw [past]
          have story := heard.1
          rwa [show ({ res with message := got.getD 0 0 } : Result) =
            { res with message := got.getD 0 0, ok := false } by rw [← ok]] at story
        · rw [past]
          exact ⟨complete ▸ last, complete, off freed⟩
      refine Machine.wp_bind (Machine.wp_mono (fun free z told => Machine.wp_pure told)
        (wp_poll (P := fun z => z.1 = y'.1 ∧ Poised z.2)
          (Q := fun free z => Told c { res with message := got.getD 0 0, ok := free } z)
          (R := fun z => z.1 = y'.1 ∧ Poised z.2) ?_ ⟨rfl, after.1.2.1⟩ ?_
          (fun _ here => here)
          (fun z here => ended z here.1 here.2 false fun free => absurd free (by decide))))
      · rintro z blk behaves ⟨past, poised⟩
        refine ⟨?_, poised.next behaves poised.quiet id⟩
        rw [next_recorded, poised.handed, List.append_nil, past]
      · rintro z blk behaves ⟨past, poised⟩
        have stays : ((recorded pc pt).next z blk (some (.read rCsb))).1 = y'.1 := by
          rw [next_recorded, poised.handed, List.append_nil, past]
        have poised' : Poised ((recorded pc pt).next z blk (some (.read rCsb))).2 :=
          poised.next behaves poised.quiet id
        rw [answer_csb, (csb_bits _).2.2.2.2.1, bus_bsy pt _ poised.quiet]
        cases on : z.2.targ.seq.connected with
        | true => exact ⟨stays, poised'⟩
        | false => exact ended _ stays poised' true fun _ => poised.stays_off on
    · simp only [if_neg complete]
      exact Machine.wp_pure (.onward heard)
  · simp only [if_neg none]
    refine Machine.wp_pure (.onward (after.along ?_))
    rw [reports, List.append_nil]
    exact along.1

theorem answer_spec (phase : BitVec 3) (plain : c.usePdma = false) (along : Along c pos res y) :
    (recorded pc pt).wp (fun y blk => Behaves count y.2 blk) (answer c phase pos res) (After c)
      y := by
  unfold answer
  split_ifs
  · exact giveMessage_spec along
  · exact giveCommand_spec along
  · exact giveData_spec plain along
  · exact takeData_spec plain along
  · exact takeStatus_spec along
  · exact takeMessage_spec along
  · exact Machine.wp_pure (.onward along)

theorem along_polls {mask val : Byte} (along : Along c pos res y) :
    (recorded pc pt).wp (fun y blk => Behaves count y.2 blk) (poll rCsb mask val)
      (fun _ => Along c pos res) y := by
  refine wp_poll along_keeps along (R := Along c pos res) (fun y blk behaves along => ?_)
    (fun _ along => along) (fun _ along => along)
  split
  · exact along.read behaves rCsb
  · exact along.read behaves rCsb

/-- The loop, by induction on the rounds to go. -/
theorem transfer_spec (guard : ℕ) (plain : c.usePdma = false) (along : Along c pos res y) :
    (recorded pc pt).wp (fun y blk => Behaves count y.2 blk) (transfer c guard pos res) (Told c)
      y := by
  induction guard generalizing pos res y with
  | zero => exact Machine.wp_pure along.told
  | succ guard ih =>
      refine Machine.wp_bind (Machine.wp_mono (fun asked y along => ?_) (along_polls along))
      refine Machine.wp_bind (wp_r along_keeps along fun y blk behaves along => ?_)
      have along : Along c pos res ((recorded pc pt).next y blk (some (.read rCsb))) :=
        along.read behaves rCsb
      split
      · refine Machine.wp_bind (Machine.wp_mono (fun turned y after => ?_) (answer_spec _ plain along))
        cases onward : turned.onward with
        | true =>
            rw [After, if_pos onward] at after
            exact ih after
        | false =>
            rw [After, onward, if_neg Bool.false_ne_true] at after
            exact Machine.wp_pure after
      · exact Machine.wp_pure along.told

theorem execute_spec {host : ℕ} {was : Byte} (plain : c.usePdma = false)
    (still : Still (Ready was) [] y) :
    (recorded pc pt).wp (fun y blk => Behaves count y.2 blk) (execute host c) (Told c) y := by
  refine Machine.wp_bind (Machine.wp_mono (fun connected y still => ?_) (select_spec still))
  have begun : Poised y.2 → Along c 0 {} y := fun poised => ⟨still.1 ▸ .begun, poised⟩
  cases connected with
  | true =>
      have attends : Attends y.2 := still.2.1
      exact transfer_spec 4096 plain (begun attends.toPoised)
  | false =>
      have givenUp : GivenUp was y.2 := still.2
      exact Machine.wp_pure (begun givenUp.1).told

end Loop

/-! ## Runs -/

section Run

variable {pc : Chip.Params} {pt : Targ.Params} {count : BitVec 32} {c : Command} {res : Result}
  {y : Moved × Dma.System}

/-- What a command reports, told by phase. -/
theorem Told.reports (told : Told c res y) :
    during phDataIn y.1 = res.data ∧ during phDataOut y.1 <+: c.dataOut ∧
      (during phStatus y.1).getLast?.getD 0xff = res.status ∧
      (during phMsgIn y.1).getLast?.getD 0xff = res.message ∧
      (∃ n sent, sent <+: c.cdb ∧
        during phCommand y.1 = (List.replicate n c.cdb).flatten ++ sent ∧
        (res.ok = true → sent = [])) ∧
      (∀ v ∈ during phMsgOut y.1, v = c.identify) := by
  obtain ⟨past, pos, sent, story, short, all, whole⟩ := told.story
  obtain ⟨dataIn, dataOut, status, message, ⟨n, command⟩, identify⟩ := story.told
  have other (phase : BitVec 3) (apart : phase ≠ phCommand) :
      during phase y.1 = during phase past := by
    rw [all, during_append, during_map, if_neg (Ne.symm apart), List.append_nil]
  rw [other phDataIn (by decide), other phDataOut (by decide), other phStatus (by decide),
    other phMsgIn (by decide), other phMsgOut (by decide)]
  refine ⟨dataIn, dataOut ▸ List.take_prefix _ _, status, message, ⟨n, sent, short, ?_, whole⟩,
    identify⟩
  rw [all, during_append, during_map, if_pos rfl, command]

end Run

/-! ### A bench -/

/-- A chip and a target just out of reset. -/
def fresh : Dma.System where
  chip := {}
  targ := Targ.start .blank

/-- A driver that moves in every cycle, and a medium that is not there. -/
def prompt (_ : ℕ) : Turn BlkRsp :=
  { moves := true, pick := 40, world := {} }

/-- INQUIRY for four bytes. -/
def inquiry : Command where
  target := 0
  cdb := [0x12, 0x00, 0x00, 0x00, 0x04, 0x00]
  maxIn := 4

theorem fresh_returns :
    ((machine {} {}).exec (select 7 0) fresh prompt 53).1.result? = some true ∧
    ((machine {} {}).exec (execute 7 inquiry) fresh prompt 200).1.result? =
      some { ok := true, status := 0x00, message := 0x00, data := [0x00, 0x00, 0x02, 0x02] } := by
  decide +kernel

/-- Nothing answers at ID 3. -/
theorem absent_returns :
    ((machine {} {}).exec (select 7 3) fresh prompt 74).1.result? = some false := by
  decide +kernel

theorem fresh_poised : Poised fresh :=
  ⟨⟨rfl, rfl⟩, Targ.Seq.reset_orderly, fun begun => absurd rfl begun,
    fun up => absurd up (by decide)⟩

/-- `select` returns true with a target that was called, is on the bus, saw ATN and has not yet
been told anything; and false with nothing moved, and nothing of its own left on the bus. -/
theorem select_answers (pc : Chip.Params) (pt : Targ.Params) (count : BitVec 32) (host target : ℕ)
    (y : Dma.System) (turns : ℕ → Turn BlkRsp) (poised : Poised y)
    (low : y.chip.regs.icrAck = false)
    (behaves : BehavesOver pc pt count (select host target) y turns) :
    ((∀ t, ∃ u, t ≤ u ∧ (turns u).moves = true) →
      ∃ t selected, ((machine pc pt).exec (select host target) y turns t).1.result? =
        some selected) ∧
    ∀ t selected, ((machine pc pt).exec (select host target) y turns t).1.result? = some selected →
      transcript pc pt (select host target) y turns t = [] ∧
        Outcome pt (called host target) y.chip.regs.icr selected
          ((machine pc pt).exec (select host target) y turns t).2 := by
  refine ⟨Machine.exec_returns, fun t selected returned => ?_⟩
  exact run_returned outcome_keeps (select_spec ⟨rfl, poised, low, rfl⟩) (fun u _ => behaves u)
    returned

theorem present_target_selected :
    (transcript {} {} (select 7 0) fresh prompt 53 = [] ∧
      Outcome {} (called 7 0) 0 true ((machine {} {}).exec (select 7 0) fresh prompt 53).2) ∧
    transcript {} {} (select 7 3) fresh prompt 74 = [] ∧
      Outcome {} (called 7 3) 0 false ((machine {} {}).exec (select 7 3) fresh prompt 74).2 :=
  ⟨(select_answers {} {} 0 7 0 fresh prompt fresh_poised rfl fun _ => ⟨rfl, fun _ => rfl⟩).2 53 true
      fresh_returns.1,
    (select_answers {} {} 0 7 3 fresh prompt fresh_poised rfl fun _ => ⟨rfl, fun _ => rfl⟩).2 74 false
      absent_returns⟩

/-- Without the window a driver that moves again and again gets back from `execute`; and whenever it
does, what it reports is what changed hands on the bus. -/
theorem execute_reports (pc : Chip.Params) (pt : Targ.Params) (count : BitVec 32) (host : ℕ)
    (c : Command) (y : Dma.System) (turns : ℕ → Turn BlkRsp) (plain : c.usePdma = false)
    (poised : Poised y) (low : y.chip.regs.icrAck = false)
    (behaves : BehavesOver pc pt count (execute host c) y turns) :
    ((∀ t, ∃ u, t ≤ u ∧ (turns u).moves = true) →
      ∃ t res, ((machine pc pt).exec (execute host c) y turns t).1.result? = some res) ∧
    ∀ t res, ((machine pc pt).exec (execute host c) y turns t).1.result? = some res →
      let h := transcript pc pt (execute host c) y turns t
      during phDataIn h = res.data ∧ during phDataOut h <+: c.dataOut ∧
        (during phStatus h).getLast?.getD 0xff = res.status ∧
        (during phMsgIn h).getLast?.getD 0xff = res.message ∧
        (∃ n sent, sent <+: c.cdb ∧
          during phCommand h = (List.replicate n c.cdb).flatten ++ sent ∧
          (res.ok = true → sent = [])) ∧
        (∀ v ∈ during phMsgOut h, v = c.identify) ∧
        (res.ok = true → h.getLast? = some (phMsgIn, 0x00) ∧
          ((machine pc pt).exec (execute host c) y turns t).2.targ.seq.connected = false) := by
  refine ⟨Machine.exec_returns, fun t res returned => ?_⟩
  have told : Told c res (_, _) := run_returned (fun _ => told_keeps)
    (execute_spec plain ⟨rfl, poised, low, rfl⟩) (fun u _ => behaves u) returned
  obtain ⟨dataIn, dataOut, status, message, command, identify⟩ := told.reports
  exact ⟨dataIn, dataOut, status, message, command, identify, fun ok =>
    ⟨(told.complete ok).1, (told.complete ok).2.2⟩⟩

theorem inquiry_reported :
    during phDataIn (transcript {} {} (execute 7 inquiry) fresh prompt 200) =
      [0x00, 0x00, 0x02, 0x02] ∧
    (transcript {} {} (execute 7 inquiry) fresh prompt 200).getLast? = some (phMsgIn, 0x00) := by
  obtain ⟨dataIn, -, -, -, -, -, complete⟩ := (execute_reports {} {} 0 7 inquiry fresh prompt
    rfl fresh_poised rfl fun _ => ⟨rfl, fun _ => rfl⟩).2 200 _ fresh_returns.2
  exact ⟨dataIn, (complete rfl).1⟩

end Wish5380.Driver
