import Wish5380.Targ.Transfer

/-!
# A target in a closed loop

An initiator that acknowledges every byte at once, and a back end that serves a
fixed medium one byte of the sector buffer a clock.  The two make the
assumptions about the other side of a transfer come true.
-/

namespace Wish5380.Targ

/-- A back end at work on a block, or idle. -/
structure Filler where
  busy : Bool := false
  we : Bool := false
  lba : ℕ := 0
  k : ℕ := 0

namespace Filler

/-- What it shows the target: the next byte of a block it reads, and `done` with the last. -/
def rsp (disk : ℕ → BitVec 9 → Byte) (f : Filler) : BlkRsp where
  done := f.busy && f.k == 511
  ready := true
  count := 2048
  bufWe := f.busy && !f.we
  bufAddr := BitVec.ofNat 9 f.k
  bufWdata := disk f.lba (BitVec.ofNat 9 f.k)

def next (f : Filler) (req : BlkReq) : Filler :=
  if f.busy then
    if f.k = 511 then { f with busy := false } else { f with k := f.k + 1 }
  else if req.start then { busy := true, we := req.we, lba := req.lba.toNat, k := 0 }
  else f

end Filler

/-- The target and its back end. -/
structure Bench where
  targ : State
  filler : Filler

namespace Bench

/-- The initiator puts `d` on the bus, and acknowledges when it is asked. -/
def cycle (disk : ℕ → BitVec 9 → Byte) (d : Byte) (b : Bench) : Cycle where
  bus := { bsy := b.targ.seq.connected, req := b.targ.seq.req, ack := b.targ.seq.req, data := d }
  blk := b.filler.rsp disk

def next (p : Params) (b : Bench) (c : Cycle) : Bench :=
  ⟨clock p b.targ c, b.filler.next (blkReq b.targ)⟩

/-- The inputs of the target when it starts from `s` with an idle back end. -/
def input (disk : ℕ → BitVec 9 → Byte) (d : Byte) (s : State) (t : ℕ) : Cycle :=
  cycle disk d (Clocked.loop (next {}) (cycle disk d) ⟨s, {}⟩ t)

/-- The back end at cycle `t`. -/
def fillerAt (disk : ℕ → BitVec 9 → Byte) (d : Byte) (s : State) (t : ℕ) : Filler :=
  (Clocked.loop (next {}) (cycle disk d) ⟨s, {}⟩ t).filler

end Bench

section Loop

variable {disk : ℕ → BitVec 9 → Byte} {d : Byte} {s : State} {t : ℕ}

theorem bench_targ (disk : ℕ → BitVec 9 → Byte) (d : Byte) (s : State) (t : ℕ) :
    (Clocked.loop (Bench.next {}) (Bench.cycle disk d) ⟨s, {}⟩ t).targ =
      run {} s (Bench.input disk d s) t := by
  rw [← Clocked.run_loop]
  exact Clocked.run_map (fun _ _ => rfl) _ _ t

theorem bench_ack :
    (Bench.input disk d s t).bus.ack = (run {} s (Bench.input disk d s) t).seq.req := by
  rw [← bench_targ]
  rfl

theorem bench_filler_succ :
    Bench.fillerAt disk d s (t + 1) =
      (Bench.fillerAt disk d s t).next (blkReq (run {} s (Bench.input disk d s) t)) := by
  rw [← bench_targ]
  rfl

/-- The back end is at work exactly while the target waits for it. -/
structure InStep (x : State) (f : Filler) : Prop where
  asks : x.seq.blkStart = true → f.busy = false ∧ (x.seq.st = .rdwait ∨ x.seq.st = .wrwait)
  works : f.busy = true → x.seq.blkStart = false ∧ (x.seq.st = .rdwait ∨ x.seq.st = .wrwait)

theorem inStep_next {x : State} {c : Cycle} {f : Filler} (inStep : InStep x f)
    (pin : c.rst = false) (rst : c.bus.rst = false) (blk : c.blk = f.rsp disk) :
    InStep (clock {} x c) (f.next (blkReq x)) := by
  have stays : x.seq.st = .rdwait ∨ x.seq.st = .wrwait → c.blk.done = false →
      (clock {} x c).seq = x.seq.endPulse := fun waits pending =>
    Seq.clock_wait waits pin rst pending
  have done : c.blk.done = (f.busy && f.k == 511) := by rw [blk]; rfl
  constructor
  · intro start
    rcases Seq.clock_onward {} x.seq c with ⟨⟨edge, _⟩, _⟩ | ⟨_, quiet⟩
    · have before : ¬ (x.seq.st = .rdwait ∨ x.seq.st = .wrwait) ∧
          ((clock {} x c).seq.st = .rdwait ∨ (clock {} x c).seq.st = .wrwait) := by
        cases edge with
        | read exec _ st => exact ⟨by simp [exec], .inl st⟩
        | fetch _ moves _ st => exact ⟨by simp [moves], .inl st⟩
        | store _ moves st => exact ⟨by simp [moves], .inr st⟩
        | write _ _ _ quiet => exact absurd (start.symm.trans quiet) (by decide)
        | wait _ _ _ _ quiet => exact absurd (start.symm.trans quiet) (by decide)
        | filled _ _ _ _ quiet => exact absurd (start.symm.trans quiet) (by decide)
        | drained _ _ _ _ _ quiet => exact absurd (start.symm.trans quiet) (by decide)
        | byte _ _ _ quiet => exact absurd (start.symm.trans quiet) (by decide)
      have idle : f.busy = false := by
        cases busy : f.busy with
        | false => rfl
        | true => exact absurd (inStep.works busy).2 before.1
      have silent : (blkReq x).start = false := by
        cases asked : (blkReq x).start with
        | false => rfl
        | true => exact absurd (inStep.asks asked).2 before.1
      refine ⟨?_, before.2⟩
      simp [Filler.next, idle, silent]
    · exact absurd (start.symm.trans quiet) (by decide)
  · intro busy
    cases now : f.busy with
    | false =>
        have asked : x.seq.blkStart = true := by
          by_contra silent
          have quiet : (blkReq x).start = false := by simpa [blkReq] using silent
          simp [Filler.next, now, quiet] at busy
        have waits := (inStep.asks asked).2
        rw [stays waits (by rw [done, now]; rfl)]
        exact ⟨rfl, waits⟩
    | true =>
        have waits := (inStep.works now).2
        have more : f.k ≠ 511 := by
          intro last
          simp [Filler.next, now, last] at busy
        rw [stays waits (by rw [done, now]; simp [more])]
        exact ⟨rfl, waits⟩

theorem bench_inStep (quiet : s.seq.blkStart = false) (t : ℕ) :
    InStep (run {} s (Bench.input disk d s) t) (Bench.fillerAt disk d s t) := by
  induction t with
  | zero =>
      refine ⟨fun start => ?_, fun busy => ?_⟩
      · exact absurd (start.symm.trans quiet) (by decide)
      · exact absurd busy Bool.false_ne_true
  | succ t ih =>
      rw [bench_filler_succ]
      exact inStep_next ih rfl rfl rfl

/-- From a request on, the back end goes through the block, a byte a clock. -/
theorem filler_serves (quiet : s.seq.blkStart = false)
    (start : (blkReq (run {} s (Bench.input disk d s) t)).start = true) {k : ℕ} (below : k < 512) :
    Bench.fillerAt disk d s (t + 1 + k) =
      { busy := true, we := (blkReq (run {} s (Bench.input disk d s) t)).we,
        lba := (blkReq (run {} s (Bench.input disk d s) t)).lba.toNat, k := k } := by
  induction k with
  | zero =>
      have idle : (Bench.fillerAt disk d s t).busy = false := ((bench_inStep quiet t).asks start).1
      rw [Nat.add_zero, bench_filler_succ, Filler.next, idle, start]
      rfl
  | succ k ih =>
      rw [← Nat.add_assoc, bench_filler_succ, ih (by omega)]
      have more : k ≠ 511 := by omega
      simp [Filler.next, more]

theorem bench_done (t : ℕ) :
    (Bench.input disk d s t).blk.done =
      ((Bench.fillerAt disk d s t).busy && (Bench.fillerAt disk d s t).k == 511) :=
  rfl

theorem bench_fair (quiet : s.seq.blkStart = false) :
    Fair (run {} s (Bench.input disk d s)) (Bench.input disk d s) 0 := by
  refine ⟨fun _ _ => rfl, fun _ _ => rfl, ?_, ?_, ?_, fun _ _ _ => rfl⟩
  · intro t _ asks
    exact ⟨t, Nat.le_refl t, bench_ack.trans asks⟩
  · intro t _ rests
    exact ⟨t, Nat.le_refl t, bench_ack.trans rests⟩
  · intro t _ start
    refine ⟨t + 1 + 511, by omega, ?_⟩
    rw [bench_done, filler_serves quiet start (by decide)]
    rfl

end Loop

end Wish5380.Targ
