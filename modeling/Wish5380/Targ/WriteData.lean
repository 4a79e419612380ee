import Wish5380.Targ.ReadData

/-!
# The bytes of a WRITE

A byte is captured in the first cycle its acknowledgement is seen, at the index
it was asked for, and nowhere else in the handshake.  When the last byte of a
block has been released the buffer holds the block, and it is left alone until
the back end has drained it.
-/

namespace Wish5380.Targ

/-! ## What a WRITE shows -/

/-- The cycle, when REQ goes true in it in DATA OUT. -/
def dataOutReqs (p : Params) (x : ℕ → State) (input : ℕ → Cycle) (t : ℕ) : List ℕ :=
  let out := drive p (x t) (input t).blk.count
  if reqRises x t && out.bsy && out.phase == phDataOut then [t] else []

/-- How many bytes DATA OUT has asked for after cycle `since` and before cycle `t`. -/
def askedOut (p : Params) (x : ℕ → State) (input : ℕ → Cycle) (since t : ℕ) : ℕ :=
  (Clocked.trace (dataOutReqs p x input) (since + 1) t).length

/-- Byte `k` is on the data lines while ACK answers request `k` of DATA OUT. -/
def Presents (bytes : ℕ → Byte) (p : Params) (x : ℕ → State) (input : ℕ → Cycle)
    (since : ℕ) : Prop :=
  ∀ t k, since < t → (x t).seq.st = .dataout → (x t).seq.req = true →
    (input t).bus.ack = true → askedOut p x input since (t + 1) = k + 1 →
    (input t).bus.data = bytes k

/-- Bytes `512 * i` and on of a sequence, as the buffer holds them. -/
def blockOf (bytes : ℕ → Byte) (i : ℕ) (a : BitVec 9) : Byte :=
  bytes (512 * i + a.toNat)

/-- A request to the back end, with what the buffer holds when it is raised. -/
def stores (x : ℕ → State) (t : ℕ) : List (Bool × ℕ × (BitVec 9 → Byte)) :=
  if (blkReq (x t)).start then [((blkReq (x t)).we, (blkReq (x t)).lba.toNat, (x t).buf.mem)]
  else []

/-- The bus is held, and a request raised now finds the buffer as it is until it
is answered. -/
structure KeepsBuffer (x : ℕ → State) (input : ℕ → Cycle) (t : ℕ) : Prop where
  up : (x t).seq.connected = true
  kept : (blkReq (x t)).start = true → ∀ v, t ≤ v →
    (∀ u, t ≤ u → u < v → (input u).blk.done = false) → (x v).buf.mem = (x t).buf.mem

theorem askedOut_succ {p : Params} {x : ℕ → State} {input : ℕ → Cycle} {since t : ℕ}
    (later : since < t) :
    askedOut p x input since (t + 1) =
      askedOut p x input since t + (dataOutReqs p x input t).length := by
  rw [askedOut, Clocked.trace_succ _ later, List.length_append, askedOut]

/-- Cycles in which REQ does not rise ask for nothing. -/
theorem askedOut_steady {p : Params} {x : ℕ → State} {input : ℕ → Cycle} {since t u : ℕ}
    (later : since < t) (le : t ≤ u)
    (steady : ∀ v, t ≤ v → v < u → dataOutReqs p x input v = []) :
    askedOut p x input since u = askedOut p x input since t := by
  rw [askedOut, Clocked.trace_append _ later le, Clocked.trace_eq_nil steady, List.append_nil,
    askedOut]

theorem dataOutReqs_of_steady {p : Params} {x : ℕ → State} {input : ℕ → Cycle} {t : ℕ}
    (steady : reqRises x t = false) : dataOutReqs p x input t = [] := by
  simp [dataOutReqs, steady]

theorem dataOutReqs_of_rise {p : Params} {x : ℕ → State} {input : ℕ → Cycle} {t : ℕ}
    (rises : reqRises x t = true) (st : (x t).seq.st = .dataout) :
    dataOutReqs p x input t = [t] := by
  have up : (x t).seq.connected = true := by simp [Seq.connected, st]
  have phase : (x t).seq.phase = phDataOut := by simp [Seq.phase, st]
  have bsy : (drive p (x t) (input t).blk.count).bsy = true := up
  simp [dataOutReqs, rises, drive_phase _ up, phase, bsy]

section Write

variable {p : Params} {s : State} {input : ℕ → Cycle} {since t : ℕ} {lba : BitVec 32} {left : ℕ}
  {bytes : ℕ → Byte} {base : ℕ}

/-- Byte `k` of a block is about to be set up, and the bytes before it are in the buffer. -/
structure Storing (bytes : ℕ → Byte) (p : Params) (x : ℕ → State) (input : ℕ → Cycle)
    (since base : ℕ) (lba : BitVec 32) (left k t : ℕ) : Prop where
  later : since < t
  moving : (x t).seq.Moving .dataout lba left k
  counted : askedOut p x input since t = base + k
  held : ∀ a : BitVec 9, a.toNat < k → (x t).buf.mem a = bytes (base + a.toNat)

/-- In the cycle of the acknowledgement the byte goes into the buffer. -/
theorem mem_captured (untouched : ∀ v, since < v → (input v).blk.bufWe = false) {k a r : ℕ}
    (storing : Storing bytes p (run p s input) input since base lba left k t)
    (moved : ByteMoved (run p s input) input (run p s input t).seq t a r) :
    (run p s input (r + 1)).buf.mem =
      Function.update (run p s input t).buf.mem (BitVec.ofNat 9 k) (input a).bus.data := by
  have asked := moved.asked
  have freed := moved.freed
  have later := storing.later
  have quiet : ∀ v, t ≤ v → v ≤ r → v ≠ a →
      (run p s input (v + 1)).buf.mem = (run p s input v).buf.mem := by
    intro v low high other
    have silent : (run p s input v).seq.aWe (input v).bus = false := by
      obtain ⟨h, is, silent⟩ := moved.seq_eq low high
      rw [is]
      cases h with
      | req => simp [Seq.aWe, silent other rfl]
      | setup => simp [Seq.aWe]
      | rel => simp [Seq.aWe]
      | h3 => simp [Seq.aWe]
    rw [run_mem_succ silent, untouched v (by omega)]
    rfl
  have before : ∀ v, t ≤ v → v ≤ a → (run p s input v).buf.mem = (run p s input t).buf.mem := by
    intro v low high
    induction v, low using Nat.le_induction with
    | base => rfl
    | succ v low ih => rw [quiet v low (by omega) (by omega), ih (by omega)]
  have capture : (run p s input (a + 1)).buf.mem =
      Function.update (run p s input t).buf.mem (BitVec.ofNat 9 k) (input a).bus.data := by
    have asking := moved.asks a asked (Nat.le_refl a)
    have writes : (run p s input a).seq.aWe (input a).bus = true := by
      rw [asking]
      simp [Seq.aWe, moved.acked, storing.moving.st_eq, storing.moving.media]
    have addr : (run p s input a).seq.aAddr = BitVec.ofNat 9 k := by
      rw [asking, Seq.aAddr, storing.moving.idx_eq, low_idx]
    rw [← before a (by omega) (Nat.le_refl a), run_succ]
    simp [clock, Buf.next, writes, addr, untouched a (by omega)]
  have after : ∀ v, a + 1 ≤ v → v ≤ r + 1 →
      (run p s input v).buf.mem = (run p s input (a + 1)).buf.mem := by
    intro v low high
    induction v, low using Nat.le_induction with
    | base => rfl
    | succ v low ih => rw [quiet v (by omega) (by omega) (by omega), ih (by omega)]
  rw [after (r + 1) (by omega) (Nat.le_refl _), capture]

/-- The request for byte `k` is the only one in its handshake. -/
theorem asked_over_byte {k a r : ℕ}
    (storing : Storing bytes p (run p s input) input since base lba left k t)
    (moved : ByteMoved (run p s input) input (run p s input t).seq t a r) {v : ℕ} (low : t + 2 ≤ v)
    (high : v ≤ r + 1) : askedOut p (run p s input) input since v = base + k + 1 := by
  have asked := moved.asked
  have freed := moved.freed
  have later := storing.later
  have moves := storing.moving.movesByte (.inr rfl)
  have rise : dataOutReqs p (run p s input) input (t + 1) = [t + 1] := by
    refine dataOutReqs_of_rise ?_ ?_
    · rw [moved.reqRises_eq moves (by omega) (by omega)]
      simp
    · exact (moved.st_eq (by omega) (by omega)).trans storing.moving.st_eq
  have steady : ∀ u, t ≤ u → u ≤ r → u ≠ t + 1 → dataOutReqs p (run p s input) input u = [] := by
    intro u above below other
    refine dataOutReqs_of_steady ?_
    rw [moved.reqRises_eq moves above below]
    simpa using other
  rw [askedOut_steady (by omega) low (fun u above below => steady u (by omega) (by omega) (by omega)),
    askedOut_succ (t := t + 1) (by omega), rise,
    askedOut_steady later (Nat.le_succ t)
      (fun u above below => steady u above (by omega) (by omega)), storing.counted]
  rfl

/-- One byte of DATA OUT: captured once, where it belongs. -/
theorem byte_stored (untouched : ∀ v, since < v → (input v).blk.bufWe = false)
    (presents : Presents bytes p (run p s input) input since) {k a r : ℕ} (below : k < 512)
    (storing : Storing bytes p (run p s input) input since base lba left k t)
    (moved : ByteMoved (run p s input) input (run p s input t).seq t a r) :
    (∀ b : BitVec 9, b.toNat < k + 1 →
      (run p s input (r + 1)).buf.mem b = bytes (base + b.toNat)) ∧
      Clocked.Stretch (stores (run p s input)) (KeepsBuffer (run p s input) input) t (r + 1) [] := by
  have asked := moved.asked
  have freed := moved.freed
  have later := storing.later
  have moves := storing.moving.movesByte (.inr rfl)
  have data : (input a).bus.data = bytes (base + k) := by
    refine presents a (base + k) (by omega) ?_ ?_ moved.acked ?_
    · exact (moved.st_eq (by omega) (by omega)).trans storing.moving.st_eq
    · rw [moved.asks a asked (Nat.le_refl a)]
      simpa [Seq.req, Seq.connected] using Seq.connected_of_movesByte moves
    · exact asked_over_byte storing moved (by omega) (by omega)
  refine ⟨fun b lower => ?_, by omega, Clocked.trace_eq_nil fun v low high => ?_,
    fun v low high => ⟨?_, fun start => ?_⟩⟩
  · rw [mem_captured untouched storing moved]
    rcases Nat.lt_or_eq_of_le (Nat.lt_succ_iff.mp lower) with earlier | here
    · have other : b ≠ BitVec.ofNat 9 k := by
        rintro rfl
        rw [BitVec.toNat_ofNat, Nat.mod_eq_of_lt (by omega)] at earlier
        omega
      rw [Function.update_of_ne other]
      exact storing.held b earlier
    · have same : b = BitVec.ofNat 9 k := by
        rw [← here]
        simp
      rw [same, Function.update_self, data, BitVec.toNat_ofNat, Nat.mod_eq_of_lt (by omega)]
  · have quiet := (moved.blkStart_eq low (by omega)).trans storing.moving.quiet
    simp [stores, blkReq, quiet]
  · obtain ⟨h, is, _⟩ := moved.seq_eq low (Nat.lt_succ_iff.mp high)
    rw [is]
    simpa [Seq.connected] using Seq.connected_of_movesByte moves
  · have quiet := (moved.blkStart_eq low (by omega)).trans storing.moving.quiet
    simp [blkReq, quiet] at start

/-- The 512 bytes of a block lead to its request, with the block in the buffer. -/
theorem block_bytes_stored (fair : Fair (run p s input) input since)
    (untouched : ∀ v, since < v → (input v).blk.bufWe = false)
    (presents : Presents bytes p (run p s input) input since) (later : since < t)
    (moving : (run p s input t).seq.Moving .dataout lba left 0)
    (counted : askedOut p (run p s input) input since t = base) :
    ∃ u, since < u ∧ (run p s input u).seq.Asking .wrwait true lba left ∧
      askedOut p (run p s input) input since u = base + 512 ∧
      ((run p s input u).buf.mem = fun a => bytes (base + a.toNat)) ∧
      Clocked.Stretch (stores (run p s input)) (KeepsBuffer (run p s input) input) t u [] := by
  have advance : ∀ k < 511, ∀ v,
      Storing bytes p (run p s input) input since base lba left k v →
      ∃ u, Storing bytes p (run p s input) input since base lba left (k + 1) u ∧
        Clocked.Stretch (stores (run p s input)) (KeepsBuffer (run p s input) input) v u [] := by
    intro k below v storing
    have after := storing.later
    obtain ⟨a, r, moved⟩ := byteMoved fair.patient (by omega) (storing.moving.movesByte (.inr rfl))
      storing.moving.quiet storing.moving.hs_eq
    have asked := moved.asked
    have freed := moved.freed
    obtain ⟨held, shown⟩ := byte_stored untouched presents (by omega) storing moved
    refine ⟨r + 1, ⟨by omega, ?_, ?_, held⟩, shown⟩
    · rw [moved.after]
      exact storing.moving.byte below (.inr rfl)
    · rw [asked_over_byte storing moved (by omega) (Nat.le_refl _)]
      rfl
  have first : Storing bytes p (run p s input) input since base lba left 0 t :=
    ⟨later, moving, counted, fun a below => absurd below (Nat.not_lt_zero _)⟩
  obtain ⟨u, last, quietly⟩ := Clocked.Stretch.stages advance first
  rw [List.flatMap_eq_nil_iff.mpr fun _ _ => rfl] at quietly
  have after := last.later
  obtain ⟨a, r, moved⟩ := byteMoved fair.patient (by omega) (last.moving.movesByte (.inr rfl))
    last.moving.quiet last.moving.hs_eq
  have asked := moved.asked
  have freed := moved.freed
  obtain ⟨held, shown⟩ := byte_stored untouched presents (by omega) last moved
  refine ⟨r + 1, by omega, ?_, ?_, ?_, by simpa using quietly.trans shown⟩
  · rw [moved.after]
    exact last.moving.store
  · rw [asked_over_byte last moved (by omega) (Nat.le_refl _)]
  · funext b
    exact held b b.isLt

/-- While the back end drains the block nothing touches the buffer. -/
theorem block_kept (untouched : ∀ v, since < v → (input v).blk.bufWe = false) (later : since < t)
    {d : ℕ} (asking : (run p s input t).seq.Asking .wrwait true lba left)
    (moved : BlockMoved (run p s input) input (run p s input t).seq t d) :
    Clocked.Stretch (stores (run p s input)) (KeepsBuffer (run p s input) input) t (d + 1)
      [(true, lba.toNat, (run p s input t).buf.mem)] ∧
    askedOut p (run p s input) input since (d + 1) = askedOut p (run p s input) input since t := by
  have le := moved.le
  have place : ∀ v, t ≤ v → v ≤ d →
      (run p s input v).seq.st = .wrwait ∧ (run p s input v).seq.hs = .setup := by
    intro v low high
    rcases Nat.lt_or_eq_of_le low with after | rfl
    · rw [moved.waits v after high]
      exact ⟨asking.st_eq, asking.hs_eq⟩
    · exact ⟨asking.st_eq, asking.hs_eq⟩
  have quiet : ∀ v, t < v → v ≤ d → (blkReq (run p s input v)).start = false := by
    intro v low high
    rw [blkReq, moved.waits v low high]
    rfl
  refine ⟨⟨by omega, ?_, fun v low high => ⟨?_, fun start => ?_⟩⟩, ?_⟩
  · rw [Clocked.trace_eq_single (c := t) (Nat.le_refl t) (by omega)]
    · simp [stores, blkReq, asking.start, asking.we_eq, asking.asked]
    · intro v low high other
      simp [stores, quiet v (by omega) (by omega)]
  · simp [Seq.connected, (place v low (by omega)).1]
  · have here : v = t := by
      by_contra other
      simp [quiet v (by omega) (by omega)] at start
    subst here
    intro u after pending
    have inside : u ≤ d := by
      by_contra beyond
      have answered := pending d le (by omega)
      rw [moved.done] at answered
      cases answered
    funext a
    refine run_mem_keeps after (fun w above below => ?_) (fun w above below writes => ?_)
    · exact aWe_of_st _ (by simp [(place w above (by omega)).1])
    · rw [untouched w (by omega)] at writes
      cases writes
  · refine askedOut_steady later (by omega) fun v low high => ?_
    exact dataOutReqs_of_steady (reqRises_of_hs (by simp [(place v low (by omega)).2]))

/-- Where a WRITE of `n` blocks from `first` on stands between two of them. -/
structure StoreStage (p : Params) (x : ℕ → State) (input : ℕ → Cycle) (since first n : ℕ)
    (lba : BitVec 32) (left t : ℕ) : Prop where
  stage : WriteStage x (since + 1) lba left t
  counted : askedOut p x input since t = 512 * (n - left)
  within : left ≤ n
  place : lba.toNat + left = first + n

theorem block_stored {first n : ℕ} (fair : Fair (run p s input) input since)
    (untouched : ∀ v, since < v → (input v).blk.bufWe = false)
    (presents : Presents bytes p (run p s input) input since) (inside : first + n < 2 ^ 32)
    (fits : left + 1 < 2 ^ 24)
    (stage : StoreStage p (run p s input) input since first n lba (left + 1) t) :
    ∃ u, StoreStage p (run p s input) input since first n (lba + 1) left u ∧
      Clocked.Stretch (stores (run p s input)) (KeepsBuffer (run p s input) input) t u
        [(true, lba.toNat, blockOf bytes (lba.toNat - first))] := by
  obtain ⟨⟨later, moving⟩, counted, within, place⟩ := stage
  rw [if_neg (Nat.succ_ne_zero left)] at moving
  have which : n - (left + 1) = lba.toNat - first := by omega
  rw [which] at counted
  obtain ⟨u, reached, asking, total, mem, bytesMoved⟩ :=
    block_bytes_stored fair untouched presents later moving counted
  obtain ⟨d, moved, stage⟩ := write_drains (fair.later (Nat.le_succ since)) reached fits asking
  obtain ⟨kept, same⟩ := block_kept (p := p) untouched reached asking moved
  refine ⟨d + 1, ⟨stage, ?_, by omega, ?_⟩, ?_⟩
  · rw [same, total]
    omega
  · rw [BitVec.toNat_add]
    have one : (1 : BitVec 32).toNat = 1 := rfl
    omega
  · rw [mem] at kept
    exact bytesMoved.trans kept

end Write

/-- In every WRITE of at least one existing block, with a fair initiator that
presents `bytes` and a fair back end that leaves the buffer alone, each request
finds its 512 bytes in the buffer and keeps them until it is answered, and
`512 * n` bytes are asked for in all. -/
theorem write_data (p : Params) (s : State) (input : ℕ → Cycle) (t : ℕ) (bytes : ℕ → Byte)
    (fair : Fair (run p s input) input t)
    (untouched : ∀ v, t < v → (input v).blk.bufWe = false)
    (presents : Presents bytes p (run p s input) input t)
    (exec : (run p s input t).seq.st = .exec)
    (addressed : (run p s input t).seq.Addressed (input t).blk)
    (write : (run p s input t).seq.cdbIsWrite = true)
    (some_ : (run p s input t).seq.cmdBlocks ≠ 0) :
    ∃ u, (run p s input u).seq.st = .free ∧
      Clocked.Stretch (stores (run p s input)) (KeepsBuffer (run p s input) input) (t + 1) u
        ((List.range (run p s input t).seq.cmdBlocks.toNat).map fun i =>
          (true, (run p s input t).seq.cmdLba.toNat + i, blockOf bytes i)) ∧
      askedOut p (run p s input) input t u = 512 * (run p s input t).seq.cmdBlocks.toNat := by
  have positive : (run p s input t).seq.cmdBlocks.toNat ≠ 0 := fun zero =>
    some_ (BitVec.eq_of_toNat_eq zero)
  have fits := (run p s input t).seq.cmdBlocks.isLt
  have inside := addressed.inside
  have small := (input t).blk.count.isLt
  have notRead : (run p s input t).seq.cdbIsRead = false := by
    cases read : (run p s input t).seq.cdbIsRead with
    | false => rfl
    | true =>
        rw [Seq.cdbIsWrite_of_read read] at write
        cases write
  generalize blocks : (run p s input t).seq.cmdBlocks.toNat = n at *
  generalize address : (run p s input t).seq.cmdLba = lba at *
  have stage : StoreStage p (run p s input) input t lba.toNat n lba n (t + 1) := by
    refine ⟨⟨Nat.le_refl _, ?_⟩, ?_, Nat.le_refl n, rfl⟩
    · rw [if_neg positive, ← blocks, ← address]
      exact write_taken fair exec addressed notRead
    · simp [askedOut]
  obtain ⟨u, last, shown⟩ := blocks_moved (StoreStage p (run p s input) input t lba.toNat n)
    (fun b => [(true, b, blockOf bytes (b - lba.toNat))])
    (fun _ _ _ bound there => block_stored fair untouched presents (by omega) bound there) fits
    (by omega) stage
  obtain ⟨⟨reached, ending⟩, counted, _⟩ := last
  rw [if_pos rfl] at ending
  obtain ⟨w, free, places, finish⟩ := command_ends fair.patient (by omega) ending
  have le := finish.le
  have idle : ∀ v, u ≤ v → v < w → (blkReq (run p s input v)).start = false := by
    intro v low high
    exact (places v low high).2
  refine ⟨w, free, ?_, ?_⟩
  · have tail : Clocked.Stretch (stores (run p s input)) (KeepsBuffer (run p s input) input)
        u w [] := by
      refine ⟨le, Clocked.trace_eq_nil fun v low high => ?_, fun v low high => ⟨?_, ?_⟩⟩
      · simp [stores, idle v low high]
      · exact finish.within v low high
      · intro start
        simp [idle v low high] at start
    have whole := shown.trans tail
    simpa [List.map_eq_flatMap] using whole
  · rw [askedOut_steady (by omega) le, counted, Nat.sub_zero]
    intro v low high
    have up := finish.within v low high
    rcases (places v low high).1 with is | is
    · simp [dataOutReqs, drive_phase _ up, Seq.phase, is]
    · simp [dataOutReqs, drive_phase _ up, Seq.phase, is]

/-! ## An initiator that counts -/

/-- The target, REQ as it was a cycle ago, and how many bytes DATA OUT has asked for until then. -/
structure Counter where
  targ : State
  was : Bool
  n : ℕ

namespace Counter

/-- How many it has asked for by now. -/
def seen (c : Counter) : ℕ :=
  let out := drive {} c.targ 2048
  if c.targ.seq.req && !c.was && out.bsy && out.phase == phDataOut then c.n + 1 else c.n

/-- The byte that is asked for and its acknowledgement, both at once. -/
def cycle (bytes : ℕ → Byte) (c : Counter) : Cycle where
  bus := {
    bsy := c.targ.seq.connected
    req := c.targ.seq.req
    ack := c.targ.seq.req
    data := bytes (c.seen - 1) }
  blk := { ready := true, count := 2048, done := c.targ.seq.blkStart }

def next (c : Counter) (i : Cycle) : Counter :=
  ⟨clock {} c.targ i, c.targ.seq.req, c.seen⟩

def runs (bytes : ℕ → Byte) (s : State) : ℕ → Counter :=
  Clocked.loop next (cycle bytes) ⟨s, s.seq.req, 0⟩

def input (bytes : ℕ → Byte) (s : State) (t : ℕ) : Cycle :=
  cycle bytes (runs bytes s t)

section Loop

variable {bytes : ℕ → Byte} {s : State}

theorem runs_targ (t : ℕ) : (runs bytes s t).targ = run {} s (input bytes s) t := by
  rw [runs, ← Clocked.run_loop]
  exact Clocked.run_map (f := Counter.targ) (fun _ _ => rfl) _ _ t

theorem fair : Fair (run {} s (input bytes s)) (input bytes s) 0 := by
  refine ⟨fun _ _ => rfl, fun _ _ => rfl, fun t _ asks => ?_, fun t _ rests => ?_,
    fun t _ start => ?_, fun _ _ _ => rfl⟩
  all_goals
    rw [← runs_targ] at *
    exact ⟨t, Nat.le_refl t, by assumption⟩

theorem seen_eq {t : ℕ} (was : (runs bytes s t).was = (run {} s (input bytes s) (t - 1)).seq.req) :
    (runs bytes s t).seen = (runs bytes s t).n +
      (dataOutReqs {} (run {} s (input bytes s)) (input bytes s) t).length := by
  have rises : reqRises (run {} s (input bytes s)) t =
      ((runs bytes s t).targ.seq.req && !(runs bytes s t).was) := by
    rw [reqRises, was, runs_targ]
  rw [seen, dataOutReqs, rises, ← runs_targ]
  have count : (input bytes s t).blk.count = 2048 := rfl
  rw [count]
  split_ifs <;> rfl

/-- The count is the one the target is judged by. -/
theorem counted (t : ℕ) :
    (runs bytes s (t + 1)).was = (run {} s (input bytes s) t).seq.req ∧
      (runs bytes s (t + 1)).n = askedOut {} (run {} s (input bytes s)) (input bytes s) 0 (t + 1) := by
  have was : (runs bytes s (t + 1)).was = (run {} s (input bytes s) t).seq.req := by
    rw [← runs_targ]
    rfl
  have next : (runs bytes s (t + 1)).n = (runs bytes s t).seen := rfl
  refine ⟨was, ?_⟩
  induction t with
  | zero =>
      rw [next, seen_eq (t := 0) rfl, dataOutReqs_of_steady (by simp [reqRises])]
      rfl
  | succ t ih =>
      have before : (runs bytes s (t + 1)).was = (run {} s (input bytes s) t).seq.req := by
        rw [← runs_targ]
        rfl
      rw [next, seen_eq before, ih before rfl, askedOut_succ (Nat.succ_pos t)]

theorem presents : Presents bytes {} (run {} s (input bytes s)) (input bytes s) 0 := by
  intro t k later _ _ _ asked
  obtain ⟨u, rfl⟩ : ∃ u, t = u + 1 := ⟨t - 1, by omega⟩
  obtain ⟨was, n⟩ := @counted bytes s u
  have now : (runs bytes s (u + 1)).seen = k + 1 := by
    rw [seen_eq was, n, ← askedOut_succ later, asked]
  show bytes ((runs bytes s (u + 1)).seen - 1) = bytes k
  rw [now, Nat.add_sub_cancel]

end Loop

end Counter

/-- Bytes that tell where they are. -/
def placed (k : ℕ) : Byte :=
  BitVec.ofNat 8 (k % 251)

/-- Two blocks, written at address 5. -/
theorem two_blocks_written :
    ∃ u, (run {} (atExec cWrite10 2) (Counter.input placed (atExec cWrite10 2)) u).seq.st = .free ∧
      Clocked.Stretch (stores (run {} (atExec cWrite10 2) (Counter.input placed (atExec cWrite10 2))))
        (KeepsBuffer (run {} (atExec cWrite10 2) (Counter.input placed (atExec cWrite10 2)))
          (Counter.input placed (atExec cWrite10 2))) 1 u
        [(true, 5, blockOf placed 0), (true, 6, blockOf placed 1)] ∧
      askedOut {} (run {} (atExec cWrite10 2) (Counter.input placed (atExec cWrite10 2)))
        (Counter.input placed (atExec cWrite10 2)) 0 u = 1024 := by
  have facts := atExec_exec (.inr (rfl : cWrite10 = _)) (.inr (rfl : (2 : BitVec 16) = _))
  obtain ⟨exec, _, is, lba, count, _⟩ := facts
  have write : (atExec cWrite10 2).seq.cdbIsWrite = true := by
    rw [Seq.cdbIsWrite, is]
    rfl
  obtain ⟨u, free, shown, asked⟩ := write_data {} (atExec cWrite10 2)
    (Counter.input placed (atExec cWrite10 2)) 0 placed Counter.fair (fun _ _ => rfl)
    Counter.presents exec (atExec_addressed (.inr rfl) (.inr rfl) rfl rfl) write
    (fun none => absurd (count.symm.trans none) (by decide))
  have blocks : (run {} (atExec cWrite10 2)
      (Counter.input placed (atExec cWrite10 2)) 0).seq.cmdBlocks.toNat = 2 :=
    congrArg BitVec.toNat count
  have address : (run {} (atExec cWrite10 2)
      (Counter.input placed (atExec cWrite10 2)) 0).seq.cmdLba.toNat = 5 :=
    congrArg BitVec.toNat lba
  rw [blocks, address] at shown
  rw [blocks] at asked
  exact ⟨u, free, shown, asked⟩

end Wish5380.Targ
