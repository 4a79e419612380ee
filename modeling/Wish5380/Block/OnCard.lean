import Wish5380.Block.Card
import Wish5380.Block.Write

/-!
# What is written is on the card

The bytes that an initiator hands over in DATA OUT are on the medium of the card once the command
has ended.
-/

namespace Wish5380.Block

open Targ

/-! ## A write to a small card -/

/-- Where the sequencer does not look at the back end. -/
theorem clock_blk {p : Params} {s : Seq} (exec : s.st ≠ .exec) (read : s.st ≠ .rdwait)
    (write : s.st ≠ .wrwait) (bus : Scsi) (blk blk' : BlkRsp) :
    s.clock p { bus := bus, blk := blk } = s.clock p { bus := bus, blk := blk' } := by
  have same : s.endPulse.st = s.st := rfl
  simp only [Seq.clock, Seq.next, Seq.step, same]
  cases st : s.st with
  | exec => exact absurd st exec
  | rdwait => exact absurd st read
  | wrwait => exact absurd st write
  | _ => rfl

/-- A command that is decided on is none that comes in. -/
theorem Away.decided {p : Params} {s : Seq} {c : Cycle} (exec : s.st = .exec) (rst : c.bus.rst = false)
    (pin : c.rst = false) : Away (s.clock p c) := by
  have edge := Seq.clock_edge p s c
  generalize s.clock p c = t at edge
  cases edge with
  | pin pin' => simp [pin] at pin'
  | busReset _ rst' => simp [rst] at rst'
  | decide _ _ _ decides => cases decides <;> constructor <;> simp
  | _ => simp_all [Seq.Transfers]

namespace Drive

/-- Nothing until cycle `a`, then a write of one block, and every REQ is answered at once. -/
def answer (a t : ℕ) (d : Drive) : Scsi :=
  if t < a then {}
  else if t < a + 53 then (command {} (tenBytes cWrite10 5 1)).getD (t - a) {}
  else {
    bsy := d.targ.seq.connected
    req := d.targ.seq.req
    ack := d.targ.seq.req
    data := d.targ.seq.idx.setWidth 8 }

def bench (a : ℕ) : ℕ → Drive
  | 0 => reset {} .blank Sd.smallCard
  | t + 1 => (bench a t).next {} {} (answer a t (bench a t))

def benchBus (a t : ℕ) : Scsi :=
  answer a t (bench a t)

section Bench

variable {a : ℕ}

theorem run_bench : run {} {} .blank Sd.smallCard (benchBus a) = bench a := by
  funext t
  induction t with
  | zero => rfl
  | succ t ih => exact congrArg (fun d => Drive.next {} {} d (benchBus a t)) ih

theorem target_bench (t : ℕ) : target {} {} .blank Sd.smallCard (benchBus a) t = (bench a t).targ := by
  rw [← run_targ, run_bench]

theorem bench_seq (t : ℕ) :
    (bench a (t + 1)).targ.seq =
      (bench a t).targ.seq.clock {} { bus := benchBus a t, blk := (bench a t).blk.rsp } :=
  rfl

theorem benchBus_rst (t : ℕ) : (benchBus a t).rst = false := by
  unfold benchBus answer
  split_ifs with early sends
  · rfl
  · exact benches.2.2.calm (t - a) (by omega)
  · rfl

theorem bench_waits {t : ℕ} (early : t ≤ a) : (bench a t).targ.seq = Seq.reset := by
  induction t with
  | zero => rfl
  | succ t ih =>
      have silent : benchBus a t = {} := if_pos (by omega)
      rw [bench_seq, ih (by omega), silent]
      rfl

/-- The command comes in as it does where the disk is in software. -/
theorem bench_command {i : ℕ} (inside : i ≤ 52) :
    (bench a (a + i)).targ.seq = (Rig.bench cWrite10 1 i).targ.seq := by
  induction i with
  | zero => exact bench_waits (Nat.le_refl a)
  | succ i ih =>
      have sent : benchBus a (a + i) = (Rig.benchStim cWrite10 1 i).bus := by
        rw [benchBus, answer, if_neg (by omega), if_pos (by omega), Nat.add_sub_cancel_left,
          Rig.benchStim, Rig.closedStim, Rig.answer, if_pos (by omega)]
      have moves := (benches.2.2.before i inside).1
      have read : (Rig.bench cWrite10 1 i).targ.seq.st ≠ .rdwait :=
        fun st => moves (by rw [st]; decide)
      have write : (Rig.bench cWrite10 1 i).targ.seq.st ≠ .wrwait :=
        fun st => moves (by rw [st]; decide)
      rw [← Nat.add_assoc, bench_seq, ih (by omega), sent,
        clock_blk (benches.2.2.only i inside) read write _ _ (Rig.bench cWrite10 1 i).ticked.pins]
      rfl

theorem bench_late {t : ℕ} (late : a + 53 ≤ t) : Away (bench a t).targ.seq := by
  induction t, late using Nat.le_induction with
  | base =>
      have exec : (bench a (a + 52)).targ.seq.st = .exec := by
        rw [bench_command (Nat.le_refl 52)]
        exact benches.2.2.exec.1
      rw [bench_seq]
      exact .decided exec (benchBus_rst _) rfl
  | succ t late ih =>
      have unnamed : selMatch {} (benchBus a t) = false := by
        rw [benchBus, answer, if_neg (by omega), if_neg (by omega)]
        rfl
      rw [bench_seq]
      exact ih.clock unnamed

theorem bench_proper : Proper {} {} .blank Sd.smallCard (benchBus a) := by
  refine ⟨Sd.smallCard_suited, Sd.smallCard_fresh, fun t u _ cut => ?_, fun t takes => ?_⟩
  · have reset : false = true ∨ (benchBus a t).rst = true := cut.reset
    rw [benchBus_rst] at reset
    simp at reset
  · have exec := takes.exec
    rw [target_bench] at exec ⊢
    rcases Nat.lt_or_ge t a with before | started
    · rw [bench_waits (Nat.le_of_lt before)] at exec
      cases exec
    · obtain ⟨i, rfl⟩ : ∃ i, t = a + i := ⟨t - a, by omega⟩
      rcases Nat.lt_trichotomy i 52 with early | rfl | late
      · rw [bench_command (Nat.le_of_lt early)] at exec
        exact absurd exec (benches.2.2.only i early)
      · rw [bench_command (Nat.le_refl 52), Seq.Exact, benches.2.2.lba, benches.2.2.count]
        decide
      · exact absurd exec (bench_late (by omega)).exec

theorem silent_seq (t : ℕ) :
    (target {} {} .blank Sd.smallCard (fun _ => {}) t).seq = Seq.reset := by
  induction t with
  | zero => rfl
  | succ t ih =>
      rw [target, Targ.run_succ, ← target, clock, ih]
      rfl

theorem silent_proper : Proper {} {} .blank Sd.smallCard fun _ => {} := by
  refine ⟨Sd.smallCard_suited, Sd.smallCard_fresh, fun t u _ cut => ?_, fun t takes => ?_⟩
  · have reset : false = true ∨ ({} : Scsi).rst = true := cut.reset
    simp at reset
  · have exec := takes.exec
    rw [silent_seq] at exec
    cases exec

/-- For some `a` the card is ready as the command is taken on. -/
theorem exists_ready :
    ∃ a, (seen {} {} .blank Sd.smallCard (benchBus a) (a + 52)).blk.ready = true := by
  obtain ⟨a, begins⟩ := silent_proper.begins
  obtain ⟨v, rest, here⟩ := begins.rest
  have up : (stack {} {} .blank Sd.smallCard (fun _ => {}) a).rsp.ready = true :=
    (congrArg Sd.Blk.cardReady here.blk :).trans rest.up
  have agree : run {} {} .blank Sd.smallCard (benchBus a) a =
      run {} {} .blank Sd.smallCard (fun _ => {}) a :=
    Clocked.run_congr (n := a) (fun i below _ => if_pos below) (Nat.le_refl a)
  have ready : (stack {} {} .blank Sd.smallCard (benchBus a) a).rsp.ready = true := by
    rw [← seen_blk, seen, cycle, agree]
    rw [← seen_blk, seen, cycle] at up
    exact up
  refine ⟨a, ?_⟩
  rw [seen_blk]
  exact Sd.ready_mono (Nat.le_add_right a 52) ready

theorem bench_takes (ready : (seen {} {} .blank Sd.smallCard (benchBus a) (a + 52)).blk.ready = true) :
    Takes (target {} {} .blank Sd.smallCard (benchBus a)) (seen {} {} .blank Sd.smallCard (benchBus a))
      (a + 52) := by
  have count : (seen {} {} .blank Sd.smallCard (benchBus a) (a + 52)).blk.count = 1024 := by
    rw [seen_blk] at ready ⊢
    exact bench_proper.count ready
  have same : (target {} {} .blank Sd.smallCard (benchBus a) (a + 52)).seq =
      (Rig.bench cWrite10 1 52).targ.seq := by
    rw [target_bench, bench_command (Nat.le_refl 52)]
  refine ⟨by rw [same]; exact benches.2.2.exec.1, benchBus_rst _, ?_⟩
  rw [same, Seq.accepts, Seq.outOfRange, ready, count, benches.2.2.lba, benches.2.2.count,
    benches.2.2.lun, Seq.cdbIsRead, Seq.cdbIsWrite, benches.2.2.op_eq]
  decide

theorem bench_patient :
    Patient (target {} {} .blank Sd.smallCard (benchBus a)) (seen {} {} .blank Sd.smallCard (benchBus a))
      (a + 52) := by
  have ack {t : ℕ} (later : a + 52 ≤ t) : (benchBus a t).ack = (bench a t).targ.seq.req := by
    rcases Nat.eq_or_lt_of_le later with rfl | late
    · rw [bench_command (Nat.le_refl 52), benches.2.2.exec.2, benchBus, answer, if_neg (by omega),
        if_pos (by omega), Nat.add_sub_cancel_left]
      exact benches.2.2.free
    · rw [benchBus, answer, if_neg (by omega), if_neg (by omega)]
  refine ⟨fun _ _ => rfl, fun t _ => benchBus_rst t, fun t later asks => ?_, fun t later rests => ?_⟩
  all_goals
    refine ⟨t, Nat.le_refl t, (ack later).trans ?_⟩
    rwa [target_bench] at *

end Bench

end Drive

/-! ## What the card holds -/

/-- In every run of a drive that is reset with a new card in its slot, the back end serves the block
interface, beginning with the blocks of the card; while nothing is asked the card holds what the
contract says. -/
theorem card_serves (p : Params) (f : Sd.Faults) (b : Buf) (card : Sd.Card) (bus : ℕ → Scsi)
    (proper : Drive.Proper p f b card bus) :
    ∃ blocks, Device f.strikes blocks (Drive.target p f b card bus) (Drive.seen p f b card bus) ∧
      blocks 0 = card.block ∧
      ∀ t, (Drive.seen p f b card bus t).blk.ready = true →
        Rests (Drive.target p f b card bus) (Drive.seen p f b card bus) t →
          (Drive.run p f b card bus t).slot.card.block = blocks t :=
  ⟨_, proper.device, rfl, fun _ => proper.stored⟩

/-- One block is written. -/
theorem a_card_serves :
    ∃ a, Takes (Drive.target {} {} .blank Sd.smallCard (Drive.benchBus a))
        (Drive.seen {} {} .blank Sd.smallCard (Drive.benchBus a)) (a + 52) ∧
      ∃ blocks, Device ({} : Sd.Faults).strikes blocks
          (Drive.target {} {} .blank Sd.smallCard (Drive.benchBus a))
          (Drive.seen {} {} .blank Sd.smallCard (Drive.benchBus a)) ∧
        blocks 0 = Sd.smallCard.block := by
  obtain ⟨a, ready⟩ := Drive.exists_ready
  obtain ⟨blocks, device, first, -⟩ := card_serves {} {} .blank Sd.smallCard (Drive.benchBus a)
    Drive.bench_proper
  exact ⟨a, Drive.bench_takes ready, blocks, device, first⟩

/-- In every run of a drive that is reset with a new card in its slot, an exact WRITE that is taken
on ends with its bytes in the blocks of the card, up to the first block that fails, and with every
other block of the card as it was. -/
theorem written_to_card (p : Params) (f : Sd.Faults) (b : Buf) (card : Sd.Card) (bus : ℕ → Scsi)
    (t : ℕ) (proper : Drive.Proper p f b card bus)
    (patient : Patient (Drive.target p f b card bus) (Drive.seen p f b card bus) t)
    (takes : Takes (Drive.target p f b card bus) (Drive.seen p f b card bus) t)
    (write : (Drive.target p f b card bus t).seq.cdbIsWrite = true) :
    let lba := (Drive.target p f b card bus t).seq.cmdLba
    let n := (Drive.target p f b card bus t).seq.cmdBlocks.toNat
    let stopped := verdict (stop (f.strikes true) lba n)
    ∃ u w bytes, Clocked.Stretch (handed p (Drive.target p f b card bus) (Drive.seen p f b card bus))
        (fun v => (Drive.target p f b card bus v).seq.connected = true) (t + 1) u bytes ∧
      bytes.length = 512 * asked (f.strikes true) lba n ∧
      Clocked.Stretch (shows p (Drive.target p f b card bus) (Drive.seen p f b card bus))
        (fun v => (Drive.target p f b card bus v).seq.connected = true) u w
        [.status stopped.1, .message mCommandComplete] ∧
      (Drive.target p f b card bus w).seq.st = .free ∧
      (Drive.target p f b card bus w).seq.sense = stopped.2 ∧
      ∀ k, stop (f.strikes true) lba n ≠ some k →
        (Drive.run p f b card bus w).slot.card.block k =
          writeIn (f.strikes true) bytes (Drive.run p f b card bus (t + 1)).slot.card.block lba n k := by
  intro lba n stopped
  have quiet := quiet_of_write patient takes write
  have rests := rests_of_takes p b _ proper.answers takes quiet
  have exact' := proper.exactly t takes
  obtain ⟨u, w, bytes, shown, length, told, free, sense, after, held⟩ :=
    proper.device.write_command patient takes.exec rests
      (addressed_of_accepts takes.accepted exact') write exact'.1 rfl rfl
  have ready : (Drive.stack p f b card bus t).rsp.ready = true := by
    rw [← Drive.seen_blk]
    exact Seq.accepts_ready takes.accepted
  have still {v : ℕ} (later : t ≤ v) : (Drive.seen p f b card bus v).blk.ready = true := by
    rw [Drive.seen_blk]
    exact Sd.ready_mono later ready
  have le := shown.le
  have le' := told.le
  refine ⟨u, w, bytes, shown, length, told, free, sense, fun k good => ?_⟩
  rw [proper.stored (still (by omega)) after, proper.stored (still (Nat.le_succ t)) rests]
  exact held k good

theorem a_block_on_the_card : ∃ a u w bytes, Clocked.Stretch
      (handed {} (Drive.target {} {} .blank Sd.smallCard (Drive.benchBus a))
        (Drive.seen {} {} .blank Sd.smallCard (Drive.benchBus a)))
      (fun v => (Drive.target {} {} .blank Sd.smallCard (Drive.benchBus a) v).seq.connected = true)
      (a + 53) u bytes ∧
    bytes.length = 512 ∧
    (Drive.run {} {} .blank Sd.smallCard (Drive.benchBus a) w).slot.card.block 5 = ofBytes bytes := by
  obtain ⟨a, ready⟩ := Drive.exists_ready
  have same : (Drive.target {} {} .blank Sd.smallCard (Drive.benchBus a) (a + 52)).seq =
      (Rig.bench cWrite10 1 52).targ.seq := by
    rw [Drive.target_bench, Drive.bench_command (Nat.le_refl 52)]
  obtain ⟨u, w, bytes, shown, length, -, -, -, held⟩ := written_to_card {} {} .blank Sd.smallCard
    (Drive.benchBus a) (a + 52) Drive.bench_proper Drive.bench_patient (Drive.bench_takes ready) (by
      rw [same, Seq.cdbIsWrite, benches.2.2.op_eq]
      rfl)
  rw [same, benches.2.2.lba, benches.2.2.count] at length held
  have five := held 5 (by decide)
  exact ⟨a, u, w, bytes, shown, length, five⟩

end Wish5380.Block
