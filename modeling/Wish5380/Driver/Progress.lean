import Wish5380.Driver.OnDisk

/-!
# A driver that polls long enough

Behind the driver nothing takes longer than the disk with a block.  Where every poll lasts that
long none of them gives up, and the phase loop takes a READ or WRITE of good blocks from its data
phase to the end.
-/

namespace Wish5380.Driver

open Clocked Targ

/-- The chip, the target and the disk. -/
abbrev Site : Type :=
  Dma.System × Block.Disk

/-- What leaves the registers as they are. -/
def Looks (a : Option Access) : Prop :=
  ∀ regs bsy, wrote regs bsy a = regs

/-- The chip is quiet, with ACK as `ack` says, and the disk is `d` but for what it holds and does. -/
structure Steady (d : Block.Disk) (ack : Bool) (b : Site) : Prop where
  quiet : Quiet b.1.chip.regs
  ack_eq : b.1.chip.regs.icrAck = ack
  same : Block.Disk.Same d b.2

/-- A byte of `s` is under way, and the disk is at rest. -/
structure Moves (d : Block.Disk) (s : Seq) (h : Hs) (ack : Bool) (b : Site) : Prop
    extends Steady d ack b where
  bytes : s.MovesByte
  silent : s.blkStart = false
  seq : b.1.targ.seq = { s with hs := h }
  rests : b.2.st = .idle

section Step

variable {pc : Chip.Params} {pt : Params} {d : Block.Disk} {s : Seq} {h : Hs} {ack ack' : Bool}
  {b : Site} {a : Option Access}

theorem Steady.regs_eq (steady : Steady d ack b) (a : Option Access) :
    ((onDisk pc pt).next b () a).1.chip.regs =
      wrote b.1.chip.regs b.1.targ.seq.connected a := by
  change ((machine pc pt).next b.1 _ a).chip.regs = _
  rw [next_regs pc pt b.1 _ a (bus_rst pt _ steady.quiet) steady.quiet.monitorBsy,
    bus_bsy pt _ steady.quiet]

theorem Steady.next (steady : Steady d ack b)
    (quiet : Quiet (wrote b.1.chip.regs b.1.targ.seq.connected a))
    (ack_eq : (wrote b.1.chip.regs b.1.targ.seq.connected a).icrAck = ack') :
    Steady d ack' ((onDisk pc pt).next b () a) := by
  have regs : ((onDisk pc pt).next b () a).1.chip.regs = _ := steady.regs_eq a
  exact ⟨regs ▸ quiet, (congrArg Chip.Regs.icrAck regs).trans ack_eq,
    steady.same.trans (Block.Disk.tick_same _ _)⟩

theorem Steady.looks (steady : Steady d ack b) (looks : Looks a) :
    Steady d ack ((onDisk pc pt).next b () a) :=
  steady.next (by rw [looks]; exact steady.quiet) (by rw [looks]; exact steady.ack_eq)

/-- A write of Initiator Command. -/
theorem Steady.writes (steady : Steady d ack b) {v : Byte} (keeps : v &&& 0xcc = 0)
    (bit : v.getLsbD 4 = ack') :
    Steady d ack' ((onDisk pc pt).next b () (some (.write rIcr v))) :=
  steady.next ⟨steady.quiet.mr, keeps⟩ bit

/-- What the target sees. -/
theorem Steady.seq_eq (pc : Chip.Params) (pt : Params) (steady : Steady d ack b)
    (a : Option Access) :
    ∃ bus : Scsi, bus.rst = false ∧ bus.sel = false ∧ bus.ack = ack ∧
      ((onDisk pc pt).next b () a).1.targ.seq = b.1.targ.seq.clock pt
        { bus := bus, blk := (ticked b.1 b.2).pins } :=
  ⟨_, bus_rst pt _ steady.quiet, bus_sel pt _ steady.quiet,
    (bus_ack pt _ steady.quiet).trans steady.ack_eq, rfl⟩

/-! ## One byte -/

theorem Moves.step (moves : Moves d s h ack b) (a : Option Access) :
    (((onDisk pc pt).next b () a).1.targ.seq = match h, ack with
      | .setup, _ => { s with hs := .req }
      | .req, true => { s with hs := .rel }
      | .req, false => { s with hs := .req }
      | _, true => { s with hs := h }
      | _, false => Seq.released { s with hs := h }) ∧
      ((onDisk pc pt).next b () a).2.st = .idle := by
  obtain ⟨bus, rst, -, seen, seq⟩ := moves.seq_eq pc pt a
  have bytes : Seq.MovesByte { s with hs := h } := moves.bytes
  refine ⟨?_, ?_⟩
  · rw [seq, Seq.clock_calm pt _ rfl rst, moves.seq,
      Seq.endPulse_of_quiet (show ({ s with hs := h } : Seq).blkStart = false from moves.silent),
      Seq.step_handshake pt _ _ bytes, Seq.handshake, seen]
    cases h <;> cases ack <;> rfl
  · change (ticked b.1 b.2).st = .idle
    have none : (blkReq b.1.targ).start = false := by
      change b.1.targ.seq.blkStart = false
      rw [moves.seq]
      exact moves.silent
    rw [ticked, Block.Disk.tick, moves.rests]
    simp only [Block.Disk.stepIdle, none]
    exact moves.rests

/-- REQ goes up, whatever ACK does meanwhile. -/
theorem Moves.raises (moves : Moves d s .setup ack b)
    (steady : Steady d ack' ((onDisk pc pt).next b () a)) :
    Moves d s .req ack' ((onDisk pc pt).next b () a) :=
  ⟨steady, moves.bytes, moves.silent, (moves.step a).1, (moves.step a).2⟩

/-- It stays up without ACK. -/
theorem Moves.asks (moves : Moves d s .req false b)
    (steady : Steady d ack' ((onDisk pc pt).next b () a)) :
    Moves d s .req ack' ((onDisk pc pt).next b () a) :=
  ⟨steady, moves.bytes, moves.silent, (moves.step a).1, (moves.step a).2⟩

/-- With ACK it falls. -/
theorem Moves.takes (moves : Moves d s .req true b)
    (steady : Steady d ack' ((onDisk pc pt).next b () a)) :
    Moves d s .rel ack' ((onDisk pc pt).next b () a) :=
  ⟨steady, moves.bytes, moves.silent, (moves.step a).1, (moves.step a).2⟩

/-- And stays down until ACK has fallen. -/
theorem Moves.holds (moves : Moves d s .rel true b)
    (steady : Steady d ack' ((onDisk pc pt).next b () a)) :
    Moves d s .rel ack' ((onDisk pc pt).next b () a) :=
  ⟨steady, moves.bytes, moves.silent, (moves.step a).1, (moves.step a).2⟩

theorem Moves.lets (pc : Chip.Params) (pt : Params) (moves : Moves d s .rel false b)
    (a : Option Access) :
    ((onDisk pc pt).next b () a).1.targ.seq = Seq.released { s with hs := .rel } ∧
      ((onDisk pc pt).next b () a).2.st = .idle :=
  moves.step a

theorem Moves.up (moves : Moves d s h ack b) : b.1.targ.seq.connected = true := by
  have bytes : Seq.MovesByte { s with hs := h } := moves.bytes
  rw [moves.seq]
  exact Seq.connected_of_movesByte bytes

theorem Moves.csb_phase (moves : Moves d s h ack b) :
    csbToPhase ((onDisk pc pt).answer b () (.read rCsb)).byte = s.phase := by
  have phase : b.1.targ.seq.phase = s.phase := by
    rw [moves.seq]
    rfl
  change csbToPhase (Chip.State.csb (b.1.bus pt _)) = s.phase
  rw [(csb_bits _).2.2.2.2.2, bus_phase pt _ moves.quiet moves.up, phase]

/-! ## A byte to come -/

/-- Within `k` cycles the target asks for the byte of `s`, as long as the driver only looks on. -/
def Coming (pc : Chip.Params) (pt : Params) (d : Block.Disk) (s : Seq) : ℕ → Site → Prop
  | 0, b => Moves d s .req false b
  | k + 1, b => Moves d s .req false b ∨
      Steady d false b ∧ b.1.targ.seq.req = false ∧
        ∀ a, Looks a → Coming pc pt d s k ((onDisk pc pt).next b () a)

variable {k j : ℕ}

theorem Coming.now (moves : Moves d s .req false b) : Coming pc pt d s k b := by
  cases k with
  | zero => exact moves
  | succ k => exact .inl moves

theorem Coming.later (coming : Coming pc pt d s k b) : Coming pc pt d s (k + 1) b := by
  induction k generalizing b with
  | zero => exact .inl coming
  | succ k ih =>
      rcases coming with moves | ⟨steady, low, next⟩
      · exact .inl moves
      · exact .inr ⟨steady, low, fun a looks => ih (next a looks)⟩

theorem Coming.mono (coming : Coming pc pt d s j b) (le : j ≤ k) : Coming pc pt d s k b := by
  induction k, le using Nat.le_induction with
  | base => exact coming
  | succ k le ih => exact ih.later

theorem Coming.looks (coming : Coming pc pt d s k b) (looks : Looks a) :
    Coming pc pt d s k ((onDisk pc pt).next b () a) := by
  cases k with
  | zero => exact Moves.asks coming (coming.toSteady.looks looks)
  | succ k =>
      rcases coming with moves | ⟨-, -, next⟩
      · exact .now (moves.asks (moves.toSteady.looks looks))
      · exact (next a looks).later

/-- What holds of the chip, the target and the disk for a program to return into `Q`. -/
abbrev holds {ρ : Type} (pc : Chip.Params) (pt : Params) (p : Code ρ) (Q : ρ → Site → Prop) :
    Site → Prop :=
  (onDisk pc pt).wp (fun _ _ => True) p Q

theorem Coming.keeps : (onDisk pc pt).Stable (fun _ _ => True) (Coming pc pt d s k) :=
  fun _ _ _ coming => coming.looks fun _ _ => rfl

theorem Moves.keeps_req : (onDisk pc pt).Stable (fun _ _ => True) (Moves d s .req false) :=
  fun _ _ _ moves => moves.asks (moves.toSteady.looks fun _ _ => rfl)

theorem Moves.keeps_rel : (onDisk pc pt).Stable (fun _ _ => True) (Moves d s .rel true) :=
  fun _ _ _ moves => moves.holds (moves.toSteady.looks fun _ _ => rfl)

/-- A poll for REQ that is long enough. -/
theorem ask_within {mask : Byte} {least : ℕ} (either : mask = csbReq ∨ mask = csbReq ||| csbBsy)
    (coming : Coming pc pt d s k b) (enough : k ≤ least) :
    holds pc pt ((poll rCsb mask mask).atLeast least)
      (fun asked b => asked = true ∧ Moves d s .req false b) b := by
  have asks (bus : Scsi) (up : bus.bsy = true) :
      (Chip.State.csb bus &&& mask == mask) = bus.req := by
    rcases either with rfl | rfl
    · exact (csb_bits bus).2.1
    · rw [(csb_bits bus).1, up, Bool.and_true]
  have silent (bus : Scsi) (low : bus.req = false) :
      (Chip.State.csb bus &&& mask == mask) = false := by
    rcases either with rfl | rfl
    · rw [(csb_bits bus).2.1, low]
    · rw [(csb_bits bus).1, low, Bool.false_and]
  refine wp_poll_within (P := Coming pc pt d s) (fun k => Coming.keeps) coming
    (fun j b _ _ here => ?_) enough
  have asked (moves : Moves d s .req false b) : (Chip.State.csb
      (b.1.bus pt { port := port (some (.read rCsb)), blk := (ticked b.1 b.2).pins }) &&& mask ==
        mask) = true := by
    have req : b.1.targ.seq.req = true := by
      rw [Seq.req, moves.up, moves.seq]
      rfl
    rw [asks _ ((bus_bsy pt _ moves.quiet).trans moves.up), bus_req pt _ moves.quiet, req]
  change if (Chip.State.csb
      (b.1.bus pt { port := port (some (.read rCsb)), blk := (ticked b.1 b.2).pins }) &&& mask ==
        mask) = true then _ else _
  have reads : Looks (some (.read rCsb)) := fun _ _ => rfl
  cases j with
  | zero =>
      rw [if_pos (asked here)]
      exact ⟨rfl, Moves.asks here (here.toSteady.looks reads)⟩
  | succ j =>
      rcases here with moves | ⟨steady, low, next⟩
      · rw [if_pos (asked moves)]
        exact ⟨rfl, moves.asks (moves.toSteady.looks reads)⟩
      · rw [silent _ ((bus_req pt _ steady.quiet).trans low), if_neg Bool.false_ne_true]
        exact ⟨j, Nat.lt_succ_self j, next _ reads⟩

theorem hand_atLeast {phase : BitVec 3} {keep out : Byte} {least : ℕ} :
    (hand phase keep out).atLeast least = hand phase keep out := by
  unfold hand
  split <;> rfl

/-- A message byte on the lines is the one that is to be told. -/
theorem Moves.tells (moves : Moves d s .req false b) (st : s.st = .msgin) (i : Dma.Input) :
    (b.1.bus pt i).data = s.msgIn := by
  have place : b.1.targ.seq.st = .msgin := by
    rw [moves.seq]
    exact st
  rw [bus_data_in pt i moves.quiet moves.up (by rw [Seq.phase, place]; rfl), dataOut, place,
    moves.seq]

/-- The byte goes over. -/
theorem hand_within {keep out : Byte} (keeps : keep = 0 ∨ keep = icrAtn)
    (moves : Moves d s .req false b) :
    holds pc pt (hand s.phase keep out) (fun v b => (s.st = .msgin → v = s.msgIn) ∧
      (Moves d s .req true b ∨ Moves d s .rel true b)) b := by
  have bits : (keep ||| icrAck) &&& 0xcc = 0 ∧ (keep ||| icrAck).getLsbD 4 = true ∧
      (keep ||| icrData) &&& 0xcc = 0 ∧ (keep ||| icrData).getLsbD 4 = false ∧
      (keep ||| icrData ||| icrAck) &&& 0xcc = 0 ∧
      (keep ||| icrData ||| icrAck).getLsbD 4 = true := by
    rcases keeps with rfl | rfl <;> decide
  obtain ⟨inKeeps, inAck, dataKeeps, dataAck, outKeeps, outAck⟩ := bits
  unfold hand
  cases towards : s.phase.getLsbD 0 with
  | true =>
      rw [if_pos rfl]
      refine Machine.wp_bind (wp_r Moves.keeps_req moves fun b _ _ moves => ?_)
      have told : s.st = .msgin →
          ((onDisk pc pt).answer b () (.read rCsd)).byte = s.msgIn := fun st => moves.tells st _
      have moves : Moves d s .req false ((onDisk pc pt).next b () (some (.read rCsd))) :=
        moves.asks (moves.toSteady.looks fun _ _ => rfl)
      refine Machine.wp_bind (wp_w Moves.keeps_req moves fun b _ _ moves => ?_)
      exact Machine.wp_pure ⟨told, .inl (moves.asks (moves.toSteady.writes inKeeps inAck))⟩
  | false =>
      rw [if_neg Bool.false_ne_true]
      have away : s.st ≠ .msgin := fun st => by
        rw [Seq.phase, st] at towards
        exact absurd towards (by decide)
      refine Machine.wp_bind (wp_w Moves.keeps_req moves fun b _ _ moves => ?_)
      have loaded : Moves d s .req false ((onDisk pc pt).next b () (some (.write rOdr out))) :=
        moves.asks (moves.toSteady.next ⟨moves.quiet.mr, moves.quiet.icr⟩ moves.ack_eq)
      refine Machine.wp_bind (wp_w Moves.keeps_req loaded fun b _ _ moves => ?_)
      have driven : Moves d s .req false
          ((onDisk pc pt).next b () (some (.write rIcr (keep ||| icrData)))) :=
        moves.asks (moves.toSteady.writes dataKeeps dataAck)
      refine Machine.wp_bind (wp_w Moves.keeps_req driven fun b _ _ moves => ?_)
      exact Machine.wp_pure ⟨fun st => absurd st away,
        .inl (moves.asks (moves.toSteady.writes outKeeps outAck))⟩

/-- ACK is up: over the byte for another cycle at most, or after it. -/
def Taking (d : Block.Disk) (s : Seq) (k : ℕ) (b : Site) : Prop :=
  0 < k ∧ Moves d s .req true b ∨ Moves d s .rel true b

theorem Taking.looks (taking : Taking d s k b) (looks : Looks a) :
    Moves d s .rel true ((onDisk pc pt).next b () a) := by
  rcases taking with ⟨-, moves⟩ | moves
  · exact moves.takes (moves.toSteady.looks looks)
  · exact moves.holds (moves.toSteady.looks looks)

theorem Taking.keeps : (onDisk pc pt).Stable (fun _ _ => True) (Taking d s k) :=
  fun _ _ _ taking => .inr (taking.looks fun _ _ => rfl)

theorem release_within {least : ℕ} (taking : Taking d s 1 b) (enough : 1 ≤ least) :
    holds pc pt ((poll rCsb csbReq 0).atLeast least)
      (fun released b => released = true ∧ Moves d s .rel true b) b := by
  refine wp_poll_within (P := Taking d s) (fun k => Taking.keeps) taking
    (fun j b _ _ here => ?_) enough
  change if (Chip.State.csb
      (b.1.bus pt { port := port (some (.read rCsb)), blk := (ticked b.1 b.2).pins }) &&& csbReq ==
        0) = true then _ else _
  have down : Moves d s .rel true ((onDisk pc pt).next b () (some (.read rCsb))) :=
    here.looks fun _ _ => rfl
  rw [(csb_bits _).2.2.1]
  split
  · exact ⟨rfl, down⟩
  · rename_i high
    rcases here with ⟨more, -⟩ | moves
    · exact ⟨0, more, .inr down⟩
    · refine absurd ?_ high
      rw [bus_req pt _ moves.quiet, Seq.req, moves.seq]
      simp

/-- One byte of the loop. -/
theorem pioFrom_byte {phase : BitVec 3} {out : List Byte} {n left i : ℕ} {got : List Byte}
    {least : ℕ} {Q : ℕ × List Byte → Site → Prop} (coming : Coming pc pt d s k b)
    (enough : k ≤ least) (some_ : 1 ≤ least) (shows_ : s.phase = phase)
    (rest : ∀ v b, (s.st = .msgin → v = s.msgIn) → Moves d s .rel false b →
      holds pc pt ((pioFrom phase out n left (i + 1)
        (if phase.getLsbD 0 then got ++ [v] else got)).atLeast least) Q b) :
    holds pc pt ((pioFrom phase out n (left + 1) i got).atLeast least) Q b := by
  subst shows_
  rw [pioFrom, Program.atLeast_bind]
  refine Machine.wp_bind (Machine.wp_mono ?_ (ask_within (.inr rfl) coming enough))
  rintro asked b ⟨rfl, moves⟩
  rw [if_pos rfl, Program.atLeast_bind]
  refine Machine.wp_bind (wp_r Moves.keeps_req moves fun b _ _ moves => ?_)
  have shown : csbToPhase ((onDisk pc pt).answer b () (.read rCsb)).byte = s.phase := moves.csb_phase
  have moves : Moves d s .req false ((onDisk pc pt).next b () (some (.read rCsb))) :=
    moves.asks (moves.toSteady.looks fun _ _ => rfl)
  rw [if_neg (not_not.mpr shown)]
  generalize keeps : (if s.phase = phMsgOut ∧ i + 1 < n then icrAtn else 0) = keep
  have masks : keep = 0 ∨ keep = icrAtn := by
    rw [← keeps]
    split
    · exact .inr rfl
    · exact .inl rfl
  have clear : keep &&& 0xcc = 0 ∧ keep.getLsbD 4 = false := by
    rcases masks with rfl | rfl <;> decide
  rw [Program.atLeast_bind, hand_atLeast]
  refine Machine.wp_bind (Machine.wp_mono ?_ (hand_within masks moves))
  rintro v b ⟨told, raised⟩
  rw [Program.atLeast_bind]
  have taking : Taking d s 1 b := raised.imp_left fun moves => ⟨Nat.one_pos, moves⟩
  refine Machine.wp_bind (Machine.wp_mono ?_ (release_within taking some_))
  rintro released b ⟨rfl, moves⟩
  rw [if_pos rfl, Program.atLeast_bind]
  refine Machine.wp_bind (wp_w Moves.keeps_rel moves fun b _ _ moves => ?_)
  exact rest v _ told (moves.holds (moves.toSteady.writes clear.1 clear.2))

/-! ## From one byte to the next -/

theorem Coming.setup (moves : Moves d s .setup false b) : Coming pc pt d s 1 b := by
  refine .inr ⟨moves.toSteady, ?_, fun a looks => moves.raises (moves.toSteady.looks looks)⟩
  rw [Seq.req, moves.seq]
  simp

/-- What the target does once its block is done. -/
def served (s : Seq) : Seq :=
  if s.st = .rdwait then s.stepRdwait { done := true } else s.stepWrwait { done := true }

theorem clock_served {p : Params} {c : Cycle} (st : s.st = .rdwait ∨ s.st = .wrwait)
    (silent : s.blkStart = false) (rst : c.bus.rst = false) (pin : c.rst = false)
    (done : c.blk.done = true) (clean : c.blk.err = false) : s.clock p c = served s := by
  rw [Seq.clock_calm p s pin rst, Seq.endPulse_of_quiet silent]
  rcases st with st | st <;>
    simp [Seq.step, served, st, Seq.stepRdwait, Seq.stepWrwait, mediaFault, done, clean]

/-- The target waits for the disk, which is `k` clocks from its answer. -/
structure Waits (d : Block.Disk) (s : Seq) (k : ℕ) (b : Site) : Prop extends Steady d false b where
  st : s.st = .rdwait ∨ s.st = .wrwait
  hs : s.hs = .setup
  silent : s.blkStart = false
  seq : b.1.targ.seq = s
  busy : Block.Disk.Busy s.blkLba k b.2

theorem Waits.low (waits : Waits d s k b) : b.1.targ.seq.req = false := by
  rw [Seq.req, waits.seq, waits.hs]
  simp

theorem Waits.next (waits : Waits d s (k + 1) b) (looks : Looks a) :
    Waits d s k ((onDisk pc pt).next b () a) := by
  obtain ⟨bus, rst, -, -, seq⟩ := waits.seq_eq pc pt a
  have pending : (ticked b.1 b.2).pins.done = false := by
    rw [ticked, Block.Disk.tick_done]
    exact decide_eq_false waits.busy.works
  refine ⟨waits.toSteady.looks looks, waits.st, waits.hs, waits.silent, ?_, waits.busy.tick _⟩
  rw [seq, waits.seq, Seq.clock_wait waits.st rfl rst pending, Seq.endPulse_of_quiet waits.silent]

theorem Waits.ends {s' : Seq} (waits : Waits d s 0 b) (good : d.fails s.blkLba = false)
    (bytes : s'.MovesByte) (silent : s'.blkStart = false)
    (next : served s = { s' with hs := .setup }) (looks : Looks a) :
    Moves d s' .setup false ((onDisk pc pt).next b () a) := by
  obtain ⟨bus, rst, -, -, seq⟩ := waits.seq_eq pc pt a
  obtain ⟨done, named⟩ := waits.busy.answers
  have ticks : ticked b.1 b.2 = b.2.settle.stepDone := by rw [ticked, Block.Disk.tick, done]
  have clean : b.2.settle.fails b.2.settle.lba = false := by
    change b.2.fails b.2.lba = false
    rw [waits.same.fails, named, good]
  refine ⟨waits.toSteady.looks looks, bytes, silent, ?_, congrArg Block.Disk.st ticks⟩
  rw [seq, ticks, waits.seq, clock_served waits.st waits.silent rst rfl rfl clean, next]

theorem Coming.waits {s' : Seq} (waits : Waits d s k b) (good : d.fails s.blkLba = false)
    (bytes : s'.MovesByte) (silent : s'.blkStart = false)
    (next : served s = { s' with hs := .setup }) : Coming pc pt d s' (k + 2) b := by
  induction k generalizing b with
  | zero => exact .inr ⟨waits.toSteady, waits.low,
      fun a looks => .setup (waits.ends good bytes silent next looks)⟩
  | succ k ih => exact .inr ⟨waits.toSteady, waits.low, fun a looks => ih (waits.next looks)⟩

/-- A request goes out, for a good block, and after it comes the byte of `s'`. -/
structure Requests (d : Block.Disk) (s s' : Seq) : Prop where
  st : s.st = .rdwait ∨ s.st = .wrwait
  hs : s.hs = .setup
  start : s.blkStart = true
  good : d.fails s.blkLba = false
  next : served s.endPulse = { s' with hs := .setup }

/-- How long a poll has to be. -/
def patience (d : Block.Disk) : ℕ :=
  d.latency.toNat + 518

theorem one_le_patience : 1 ≤ patience d := by
  rw [patience]
  omega

theorem Coming.requests {s' : Seq} (steady : Steady d false b) (seq_eq : b.1.targ.seq = s)
    (idle : b.2.st = .idle) (requests : Requests d s s') (bytes : s'.MovesByte)
    (silent : s'.blkStart = false) : Coming pc pt d s' (d.latency.toNat + 517) b := by
  have asked : (blkReq b.1.targ).start = true := by
    change b.1.targ.seq.blkStart = true
    rw [seq_eq, requests.start]
  obtain ⟨k, soon, busy⟩ := Block.Disk.Busy.begins idle asked
  have lba : (blkReq b.1.targ).lba = s.endPulse.blkLba := by
    change b.1.targ.seq.blkLba = s.blkLba
    rw [seq_eq]
  rw [lba] at busy
  rw [steady.same.latency] at soon
  refine Coming.mono (j := k + 3) (.inr ⟨steady, ?_, fun a looks => ?_⟩) (by omega)
  · rw [Seq.req, seq_eq, requests.hs]
    simp
  · obtain ⟨bus, rst, -, -, seq⟩ := steady.seq_eq pc pt a
    have pending : (ticked b.1 b.2).pins.done = false := by
      rw [ticked, Block.Disk.tick_done]
      simp [idle]
    have waits : Waits d s.endPulse k ((onDisk pc pt).next b () a) := by
      refine ⟨steady.looks looks, requests.st, requests.hs, rfl, ?_, busy⟩
      rw [seq, seq_eq, Seq.clock_wait requests.st rfl rst pending]
    exact .waits waits requests.good bytes silent requests.next

/-- After the byte of `s` is over comes that of `s'`, at once or with the next block. -/
inductive Onward (d : Block.Disk) (s s' : Seq) : Prop where
  | once (next : Seq.released { s with hs := .rel } = { s' with hs := .setup })
  | block (requests : Requests d (Seq.released { s with hs := .rel }) s')

theorem Coming.after {s' : Seq} (moves : Moves d s .rel false b) (onward : Onward d s s')
    (bytes : s'.MovesByte) (silent : s'.blkStart = false) :
    Coming pc pt d s' (patience d) b := by
  have low : b.1.targ.seq.req = false := by
    rw [Seq.req, moves.seq]
    simp
  refine .inr ⟨moves.toSteady, low, fun a looks => ?_⟩
  obtain ⟨seq, idle⟩ := moves.lets pc pt a
  have steady : Steady d false ((onDisk pc pt).next b () a) := moves.toSteady.looks looks
  cases onward with
  | once next =>
      exact (Coming.setup ⟨steady, bytes, silent, seq.trans next, idle⟩).mono (by omega)
  | block requests => exact .requests steady seq idle requests bytes silent

/-! ## The bytes of a phase -/

/-- A byte in `phase`. -/
structure InPhase (phase : BitVec 3) (s : Seq) : Prop where
  bytes : s.MovesByte
  silent : s.blkStart = false
  shows_ : s.phase = phase

/-- The target asks for `n` bytes in `phase`, first that of `s` and last that of `t`. -/
inductive Offers (d : Block.Disk) (phase : BitVec 3) : ℕ → Seq → Seq → Prop where
  | last {s : Seq} (here : InPhase phase s) : Offers d phase 1 s s
  | more {n : ℕ} {s s' t : Seq} (here : InPhase phase s) (onward : Onward d s s')
      (rest : Offers d phase n s' t) : Offers d phase (n + 1) s t

variable {phase : BitVec 3} {n : ℕ} {t : Seq}

theorem Offers.here (offers : Offers d phase n s t) : InPhase phase s := by
  cases offers with
  | last here => exact here
  | more here => exact here

theorem Offers.append {m : ℕ} {s' u : Seq} (first : Offers d phase m s t) (onward : Onward d t s')
    (second : Offers d phase n s' u) : Offers d phase (m + n) s u := by
  induction first with
  | last here =>
      rw [Nat.add_comm]
      exact .more here onward second
  | @more m s r t here next rest ih =>
      rw [Nat.add_right_comm]
      exact .more here next (ih onward)

/-- The loop gets all of them. -/
theorem pioFrom_within {out got : List Byte} {all i least : ℕ} (offers : Offers d phase n s t)
    (coming : Coming pc pt d s (patience d) b) (enough : patience d ≤ least) :
    holds pc pt ((pioFrom phase out all n i got).atLeast least)
      (fun done b => done.1 = i + n ∧ Moves d t .rel false b) b := by
  have some_ : 1 ≤ least := one_le_patience.trans enough
  induction offers generalizing i got b with
  | last here =>
      refine pioFrom_byte coming enough some_ here.shows_ fun v b _ moves => ?_
      exact Machine.wp_pure ⟨rfl, moves⟩
  | more here onward rest ih =>
      refine pioFrom_byte coming enough some_ here.shows_ fun v b _ moves => ?_
      refine Machine.wp_mono (fun done b ends => ⟨?_, ends.2⟩)
        (ih (.after moves onward rest.here.bytes rest.here.silent))
      rw [ends.1]
      omega

theorem pio_within {out : List Byte} {least : ℕ} (offers : Offers d phase n s t)
    (moves : Moves d s .req false b) (enough : patience d ≤ least) :
    holds pc pt ((pio phase out n).atLeast least)
      (fun done b => done.1 = n ∧ Moves d t .rel false b) b := by
  rw [pio, Program.atLeast_bind]
  refine Machine.wp_bind (wp_w Moves.keeps_req moves fun b _ _ moves => ?_)
  refine Machine.wp_mono (fun done b ends => ⟨by rw [ends.1, Nat.zero_add], ends.2⟩)
    (pioFrom_within offers (.now ?_) enough)
  exact moves.asks (moves.toSteady.next ⟨moves.quiet.mr, moves.quiet.icr⟩ moves.ack_eq)

/-- A message comes in as it is. -/
theorem message_within {least : ℕ} (moves : Moves d s .req false b) (st : s.st = .msgin)
    (some_ : 1 ≤ least) : holds pc pt ((pio phMsgIn [] 1).atLeast least)
      (fun done b => done = (1, [s.msgIn]) ∧ Moves d s .rel false b) b := by
  rw [pio, Program.atLeast_bind]
  refine Machine.wp_bind (wp_w Moves.keeps_req moves fun b _ _ moves => ?_)
  have asks : Moves d s .req false
      ((onDisk pc pt).next b () (some (.write rTcr (phMsgIn.setWidth 8)))) :=
    moves.asks (moves.toSteady.next ⟨moves.quiet.mr, moves.quiet.icr⟩ moves.ack_eq)
  refine pioFrom_byte (k := 0) (.now asks) (Nat.zero_le _) some_ (by rw [Seq.phase, st])
    fun v b told moves => Machine.wp_pure ⟨?_, moves⟩
  rw [told st]
  rfl

/-! ## The bytes of a command's blocks -/

/-- The first byte of the first of `n` blocks to come, none of them bad. -/
structure Serves (d : Block.Disk) (n : ℕ) (s : Seq) : Prop where
  st : s.st = .datain ∨ s.st = .dataout
  media : s.respKind = .media
  size : s.xferLen = 512
  first : s.idx = 0
  silent : s.blkStart = false
  left : s.blkLeft.toNat = n
  good : ∀ i < n, d.fails (s.lba + BitVec.ofNat 32 i) = false

theorem Serves.inPhase (serves : Serves d n s) (idx : BitVec 10) :
    InPhase s.phase { s with idx := idx } :=
  ⟨serves.st.imp_right .inl, serves.silent, rfl⟩

theorem Serves.byte (serves : Serves d n s) {i : BitVec 10} (more : i + 1 ≠ 512) :
    Onward d { s with idx := i } { s with idx := i + 1 } := by
  have goes : ¬ i + 1#10 = 512#10 := more
  refine .once ?_
  rcases serves.st with st | st <;>
    simp [Seq.released, st, Seq.datainReleased, Seq.dataoutReleased, serves.size, goes]

theorem Serves.block (serves : Serves d n s) {k : ℕ} (inside : k < 512) :
    Offers d s.phase (k + 1) { s with idx := BitVec.ofNat 10 (511 - k) } { s with idx := 511 } := by
  induction k with
  | zero => exact .last (serves.inPhase 511)
  | succ k ih =>
      have next : BitVec.ofNat 10 (511 - (k + 1)) + 1 = BitVec.ofNat 10 (511 - k) := by
        apply BitVec.eq_of_toNat_eq
        simp
        omega
      have goes : BitVec.ofNat 10 (511 - k) ≠ 512 := by
        intro same
        have number := congrArg BitVec.toNat same
        simp at number
        omega
      have onward := serves.byte (i := BitVec.ofNat 10 (511 - (k + 1))) (by rw [next]; exact goes)
      rw [next] at onward
      exact .more (serves.inPhase _) onward (ih (by omega))

/-- After the last block comes the status. -/
theorem Serves.last (serves : Serves d 1 s) :
    ∃ u : Seq, Onward d { s with idx := 511 } u ∧ u.st = .status ∧ u.blkStart = false := by
  have one : s.blkLeft = 1 := BitVec.eq_of_toNat_eq serves.left
  rcases serves.st with st | st
  · refine ⟨{ s with idx := 0, st := .status }, .once ?_, rfl, serves.silent⟩
    simp [Seq.released, st, Seq.datainReleased, serves.size, one]
  · have waits : Seq.released { s with idx := 511, hs := .rel } =
        { s with hs := .setup, idx := 0, blkLba := s.lba, blkWe := true, blkStart := true,
                 st := .wrwait } := by
      simp [Seq.released, st, Seq.dataoutReleased, serves.size, serves.media]
    refine ⟨{ s with idx := 0, blkLba := s.lba, blkWe := true, st := .status }, .block ?_, rfl,
      serves.silent⟩
    rw [waits]
    refine ⟨.inr rfl, rfl, rfl, by simpa using serves.good 0 (by omega), ?_⟩
    simp [served, Seq.endPulse, Seq.stepWrwait, mediaFault, one, serves.silent]

/-- After another one comes the next. -/
theorem Serves.next (serves : Serves d (n + 2) s) : ∃ s' : Seq,
    Onward d { s with idx := 511 } s' ∧ Serves d (n + 1) s' ∧ s'.phase = s.phase := by
  have some_ : ¬ s.blkLeft = 1#24 := by
    intro one
    have left := serves.left
    rw [one] at left
    simp at left
  have fewer : (s.blkLeft - 1).toNat = n + 1 := by
    have left := serves.left
    have bound := s.blkLeft.isLt
    rw [BitVec.toNat_sub_of_le (by rw [BitVec.le_def]; simp; omega)]
    simp
    omega
  have goods : ∀ i < n + 1, d.fails (s.lba + 1 + BitVec.ofNat 32 i) = false := by
    intro i below
    have same : s.lba + 1 + BitVec.ofNat 32 i = s.lba + BitVec.ofNat 32 (i + 1) := by
      rw [BitVec.add_assoc, BitVec.ofNat_add, BitVec.add_comm 1]
      rfl
    rw [same]
    exact serves.good (i + 1) (by omega)
  rcases serves.st with st | st
  · have waits : Seq.released { s with idx := 511, hs := .rel } =
        { s with hs := .setup, idx := 0, blkLeft := s.blkLeft - 1, lba := s.lba + 1,
                 blkLba := s.lba + 1, blkWe := false, blkStart := true, st := .rdwait } := by
      simp [Seq.released, st, Seq.datainReleased, serves.size, serves.media, some_]
    refine ⟨{ s with idx := 0, blkLeft := s.blkLeft - 1, lba := s.lba + 1, blkLba := s.lba + 1,
                     blkWe := false }, .block ?_,
      ⟨.inl st, serves.media, serves.size, rfl, serves.silent, fewer, goods⟩, rfl⟩
    rw [waits]
    refine ⟨.inl rfl, rfl, rfl, by simpa using goods 0 (by omega), ?_⟩
    simp [served, Seq.endPulse, Seq.stepRdwait, mediaFault, serves.silent, st]
  · have waits : Seq.released { s with idx := 511, hs := .rel } =
        { s with hs := .setup, idx := 0, blkLba := s.lba, blkWe := true, blkStart := true,
                 st := .wrwait } := by
      simp [Seq.released, st, Seq.dataoutReleased, serves.size, serves.media]
    refine ⟨{ s with idx := 0, blkLeft := s.blkLeft - 1, lba := s.lba + 1, blkLba := s.lba,
                     blkWe := true }, .block ?_,
      ⟨.inr st, serves.media, serves.size, rfl, serves.silent, fewer, goods⟩, rfl⟩
    rw [waits]
    refine ⟨.inr rfl, rfl, rfl, by simpa using serves.good 0 (by omega), ?_⟩
    simp [served, Seq.endPulse, Seq.stepWrwait, mediaFault, some_, serves.silent, st]

theorem Serves.whole (serves : Serves d n s) :
    Offers d s.phase 512 s { s with idx := 511 } := by
  have start : ({ s with idx := 0 } : Seq) = s := by rw [← serves.first]
  have block := serves.block (k := 511) (by decide)
  rwa [show BitVec.ofNat 10 (511 - 511) = 0 from rfl, start] at block

/-- The whole data phase. -/
theorem Serves.offers (serves : Serves d (n + 1) s) : ∃ t u : Seq,
    Offers d s.phase (512 * (n + 1)) s t ∧ Onward d t u ∧ u.st = .status ∧ u.blkStart = false := by
  induction n generalizing s with
  | zero =>
      obtain ⟨u, onward, st, silent⟩ := serves.last
      exact ⟨_, u, serves.whole, onward, st, silent⟩
  | succ n ih =>
      obtain ⟨s', onward, serves', phase⟩ := serves.next
      obtain ⟨t, u, offers, rest⟩ := ih serves'
      rw [phase] at offers
      refine ⟨t, u, ?_, rest⟩
      rw [show 512 * (n + 1 + 1) = 512 + 512 * (n + 1) by omega]
      exact serves.whole.append onward offers

/-! ## The rounds of the phase loop -/

variable {c : Command} {pos least : ℕ} {res : Result}

/-- A round that is offered a byte. -/
theorem transfer_within {guard : ℕ} {Q : Result → Site → Prop} (coming : Coming pc pt d s k b)
    (enough : k ≤ least) (turn : ∀ b, Moves d s .req false b →
      holds pc pt ((answer c s.phase pos res).atLeast least) (fun turned b =>
        holds pc pt ((if turned.onward then transfer c guard turned.pos turned.res
          else pure turned.res).atLeast least) Q b) b) :
    holds pc pt ((transfer c (guard + 1) pos res).atLeast least) Q b := by
  rw [transfer, Program.atLeast_bind]
  refine Machine.wp_bind (Machine.wp_mono ?_ (ask_within (.inl rfl) coming enough))
  rintro asked b ⟨rfl, moves⟩
  rw [Program.atLeast_bind]
  refine Machine.wp_bind (wp_r Moves.keeps_req moves fun b _ _ moves => ?_)
  have shown : csbToPhase ((onDisk pc pt).answer b () (.read rCsb)).byte = s.phase := moves.csb_phase
  have busy : ((onDisk pc pt).answer b () (.read rCsb)).byte &&& csbBsy ≠ 0 := by
    change Chip.State.csb (b.1.bus pt _) &&& csbBsy ≠ 0
    intro zero
    have free := (csb_bits (b.1.bus pt
      { port := port (some (.read rCsb)), blk := (ticked b.1 b.2).pins })).2.2.2.2.1
    rw [bus_bsy pt _ moves.quiet, moves.up, zero] at free
    exact absurd free (by decide)
  rw [if_pos ⟨rfl, busy⟩, shown, Program.atLeast_bind]
  exact Machine.wp_bind (turn _ (moves.asks (moves.toSteady.looks fun _ _ => rfl)))

/-- One round of the loop. -/
def round (c : Command) (pos : ℕ) (res : Result) : Code Turned := do
  let asked ← poll rCsb csbReq csbReq
  let csb ← r rCsb
  if asked ∧ csb &&& csbBsy ≠ 0 then answer c (csbToPhase csb) pos res
  else pure ⟨false, pos, res⟩

theorem transfer_succ {guard : ℕ} : transfer c (guard + 1) pos res =
    round c pos res >>= fun turned =>
      if turned.onward then transfer c guard turned.pos turned.res else pure turned.res := by
  rw [round, Program.bind_assoc]
  refine congrArg (poll rCsb csbReq csbReq >>= ·) (funext fun asked => ?_)
  rw [Program.bind_assoc]
  refine congrArg (r rCsb >>= ·) (funext fun csb => ?_)
  split
  · rfl
  · rfl

/-! ### To the end -/

/-- Off the bus the target stays off it and forgets nothing. -/
theorem off_clock {p : Params} {s : Seq} {c : Cycle} (off : s.connected = false) (pin : c.rst = false)
    (rst : c.bus.rst = false) (sel : c.bus.sel = false) :
    (s.clock p c).connected = false ∧ (s.clock p c).sense = s.sense := by
  have unnamed : selMatch p c.bus = false := by simp [selMatch, sel]
  have still : ¬ s.Transfers := fun moves => by simp [moves.connected] at off
  have edge := Seq.clock_edge p s c
  generalize s.clock p c = t at edge ⊢
  cases edge with
  | pin reset => simp [pin] at reset
  | busReset _ reset => simp [rst] at reset
  | selected _ _ _ named => simp [unnamed] at named
  | raise _ _ moves => exact absurd moves still
  | keep _ _ moves => exact absurd moves still
  | hand _ _ moves => exact absurd (.inr (.inr moves)) still
  | decide _ _ st => simp [Seq.connected, st] at off
  | fault _ _ st => rcases st with st | st <;> simp [Seq.connected, st] at off
  | moved _ _ st => rcases st with st | st <;> simp [Seq.connected, st] at off
  | watch => exact ⟨off, rfl⟩
  | ignore => exact ⟨off, rfl⟩
  | free => exact ⟨rfl, rfl⟩
  | more => exact ⟨off, rfl⟩
  | pend => exact ⟨off, rfl⟩
  | _ => simp_all [Seq.connected]

/-- The target lets go of the bus, within a cycle at most. -/
def Leaves (d : Block.Disk) (s : Seq) (k : ℕ) (b : Site) : Prop :=
  0 < k ∧ s.st = .msgin ∧ Moves d s .rel false b ∨
    Steady d false b ∧ b.1.targ.seq.connected = false

theorem Leaves.looks (leaves : Leaves d s k b) (looks : Looks a) :
    Steady d false ((onDisk pc pt).next b () a) ∧
      ((onDisk pc pt).next b () a).1.targ.seq.connected = false := by
  rcases leaves with ⟨-, st, moves⟩ | ⟨steady, off⟩
  · refine ⟨moves.toSteady.looks looks, ?_⟩
    rw [(moves.lets pc pt a).1]
    simp only [Seq.released, st, Seq.msginReleased]
    split <;> rfl
  · obtain ⟨bus, rst, sel, -, seq⟩ := steady.seq_eq pc pt a
    refine ⟨steady.looks looks, ?_⟩
    rw [seq]
    exact (off_clock off rfl rst sel).1

theorem Leaves.keeps : (onDisk pc pt).Stable (fun _ _ => True) (Leaves d s k) :=
  fun _ _ _ leaves => .inr (leaves.looks fun _ _ => rfl)

theorem free_within (leaves : Leaves d s 1 b) (enough : 1 ≤ least) :
    holds pc pt ((poll rCsb csbBsy 0).atLeast least) (fun free _ => free = true) b := by
  refine wp_poll_within (P := Leaves d s) (fun k => Leaves.keeps) leaves
    (fun j b _ _ here => ?_) enough
  change if (Chip.State.csb
      (b.1.bus pt { port := port (some (.read rCsb)), blk := (ticked b.1 b.2).pins }) &&& csbBsy ==
        0) = true then _ else _
  rw [(csb_bits _).2.2.2.2.1]
  split
  · rfl
  · rename_i up
    have gone : Steady d false ((onDisk pc pt).next b () (some (.read rCsb))) ∧
        ((onDisk pc pt).next b () (some (.read rCsb))).1.targ.seq.connected = false :=
      here.looks fun _ _ => rfl
    rcases here with ⟨more, -⟩ | ⟨steady, off⟩
    · exact ⟨0, more, .inr gone⟩
    · refine absurd ?_ up
      rw [bus_bsy pt _ steady.quiet, off]
      rfl

/-- COMMAND COMPLETE ends the command well. -/
theorem complete_within {guard : ℕ} (coming : Coming pc pt d s k b) (enough : k ≤ least)
    (some_ : 1 ≤ least) (st : s.st = .msgin) (told : s.msgIn = mCommandComplete) :
    holds pc pt ((transfer c (guard + 1) pos res).atLeast least) (fun res _ => res.ok = true) b := by
  refine transfer_within coming enough fun b moves => ?_
  have phase : s.phase = phMsgIn := by rw [Seq.phase, st]
  have arm : answer c phMsgIn pos res = takeMessage pos res := rfl
  rw [phase, arm, takeMessage, Program.atLeast_bind]
  refine Machine.wp_bind (Machine.wp_mono ?_ (message_within moves st some_))
  rintro _ b ⟨rfl, moves⟩
  have zero : ([s.msgIn] : List Byte).getD 0 0 = 0x00 := told
  dsimp only
  rw [if_pos rfl, if_pos zero, Program.atLeast_bind]
  refine Machine.wp_bind (Machine.wp_mono ?_ (free_within (.inl ⟨Nat.one_pos, st, moves⟩) some_))
  rintro _ b rfl
  exact Machine.wp_pure (Machine.wp_pure rfl)

/-- And before it the status. -/
theorem status_within {guard : ℕ} (coming : Coming pc pt d s (patience d) b)
    (enough : patience d ≤ least) (st : s.st = .status) (silent : s.blkStart = false) :
    holds pc pt ((transfer c (guard + 2) pos res).atLeast least) (fun res _ => res.ok = true) b := by
  refine transfer_within coming enough fun b moves => ?_
  have phase : s.phase = phStatus := by rw [Seq.phase, st]
  have arm : answer c phStatus pos res = takeStatus pos res := rfl
  rw [phase, arm, takeStatus, Program.atLeast_bind]
  have offers : Offers d phStatus 1 s s := .last ⟨.inr (.inr (.inl st)), silent, phase⟩
  refine Machine.wp_bind (Machine.wp_mono ?_ (pio_within offers moves enough))
  rintro ⟨moved, got⟩ b ⟨one, moves⟩
  dsimp only at one ⊢
  rw [if_pos one]
  refine Machine.wp_pure ?_
  rw [if_pos rfl]
  have onward : Onward d s { s with msgIn := mCommandComplete, st := .msgin } := by
    refine .once ?_
    simp [Seq.released, st, Seq.statusReleased]
  exact complete_within (.after moves onward (.inr (.inr (.inr rfl))) silent) enough
    (one_le_patience.trans enough) rfl rfl

/-- Before that a data phase, which hands all its bytes over. -/
theorem data_within {guard : ℕ} {u : Seq} {out : List Byte} {turned : ℕ × List Byte → Turned}
    (moves : Moves d s .req false b) (offers : Offers d phase n s t) (onward : Onward d t u)
    (ends : u.st = .status) (silent : u.blkStart = false) (goes : ∀ done, (turned done).onward = true)
    (enough : patience d ≤ least) :
    holds pc pt ((pio phase out n >>= fun done => pure (turned done)).atLeast least) (fun turned b =>
      holds pc pt ((if turned.onward then transfer c (guard + 2) turned.pos turned.res
        else pure turned.res).atLeast least) (fun res _ => res.ok = true) b) b := by
  rw [Program.atLeast_bind]
  refine Machine.wp_bind (Machine.wp_mono ?_ (pio_within offers moves enough))
  rintro done b ⟨-, moves⟩
  refine Machine.wp_pure ?_
  rw [if_pos (goes done)]
  exact status_within (.after moves onward (.inr (.inr (.inl ends))) silent) enough ends silent

/-- A READ of good blocks, from its data phase on. -/
theorem read_within {guard : ℕ} (serves : Serves d (n + 1) s) (st : s.st = .datain)
    (coming : Coming pc pt d s (patience d) b) (enough : patience d ≤ least)
    (plain : c.usePdma = false) (room : c.maxIn = 512 * (n + 1)) (empty : res.data = []) :
    holds pc pt ((transfer c (guard + 3) pos res).atLeast least) (fun res _ => res.ok = true) b := by
  obtain ⟨t, u, offers, onward, ends, silent⟩ := serves.offers
  refine transfer_within coming enough fun b moves => ?_
  have phase : s.phase = phDataIn := by rw [Seq.phase, st]
  have arm : answer c phDataIn pos res = takeData c pos res := rfl
  rw [phase] at offers ⊢
  have left : c.maxIn - res.data.length = 512 * (n + 1) := by rw [empty, room]; rfl
  rw [arm, takeData, left, if_neg (by omega), move_plain plain]
  exact data_within moves offers onward ends silent (fun _ => rfl) enough

/-- And a WRITE. -/
theorem write_within {guard : ℕ} (serves : Serves d (n + 1) s) (st : s.st = .dataout)
    (coming : Coming pc pt d s (patience d) b) (enough : patience d ≤ least)
    (plain : c.usePdma = false) (all : c.dataOut.length - pos = 512 * (n + 1)) :
    holds pc pt ((transfer c (guard + 3) pos res).atLeast least) (fun res _ => res.ok = true) b := by
  obtain ⟨t, u, offers, onward, ends, silent⟩ := serves.offers
  refine transfer_within coming enough fun b moves => ?_
  have phase : s.phase = phDataOut := by rw [Seq.phase, st]
  have arm : answer c phDataOut pos res = giveData c pos res := rfl
  rw [phase] at offers ⊢
  rw [arm, giveData, all, if_neg (by omega), move_plain plain]
  exact data_within moves offers onward ends silent (fun _ => rfl) enough

/-- A READ that has just asked for its first block. -/
theorem read_begins {guard : ℕ} (steady : Steady d false b) (idle : b.2.st = .idle)
    (st : b.1.targ.seq.st = .rdwait) (hs : b.1.targ.seq.hs = .setup)
    (start : b.1.targ.seq.blkStart = true) (media : b.1.targ.seq.respKind = .media)
    (size : b.1.targ.seq.xferLen = 512) (first : b.1.targ.seq.blkLba = b.1.targ.seq.lba)
    (left : b.1.targ.seq.blkLeft.toNat = n + 1)
    (good : ∀ i < n + 1, d.fails (b.1.targ.seq.lba + BitVec.ofNat 32 i) = false)
    (enough : patience d ≤ least) (plain : c.usePdma = false) (room : c.maxIn = 512 * (n + 1))
    (empty : res.data = []) :
    holds pc pt ((transfer c (guard + 3) pos res).atLeast least) (fun res _ => res.ok = true) b := by
  have serves : Serves d (n + 1) { b.1.targ.seq with idx := 0, st := .datain, blkStart := false } :=
    ⟨.inl rfl, media, size, rfl, rfl, left, good⟩
  have requests : Requests d b.1.targ.seq
      { b.1.targ.seq with idx := 0, st := .datain, blkStart := false } := by
    refine ⟨.inl st, hs, start, ?_, ?_⟩
    · rw [first]
      simpa using good 0 (by omega)
    · simp [served, Seq.endPulse, Seq.stepRdwait, mediaFault, st]
  refine read_within serves rfl (Coming.mono ?_ (Nat.le_succ _)) enough plain room empty
  exact .requests steady rfl idle requests (.inl rfl) rfl

/-- A WRITE that is about to ask for its first byte. -/
theorem write_begins {guard : ℕ} (steady : Steady d false b) (idle : b.2.st = .idle)
    (serves : Serves d (n + 1) b.1.targ.seq) (st : b.1.targ.seq.st = .dataout)
    (hs : b.1.targ.seq.hs = .setup) (enough : patience d ≤ least) (plain : c.usePdma = false)
    (all : c.dataOut.length - pos = 512 * (n + 1)) :
    holds pc pt ((transfer c (guard + 3) pos res).atLeast least) (fun res _ => res.ok = true) b := by
  have moves : Moves d b.1.targ.seq .setup false b :=
    ⟨steady, .inr (.inl st), serves.silent, by rw [← hs], idle⟩
  exact write_within serves st ((Coming.setup moves).mono one_le_patience) enough plain all

end Step

/-! ## Up to the data phase -/

/-- `execute` up to its third round, with nothing to report before. -/
def opening (host : ℕ) (c : Command) : Code Turned := do
  let connected ← select host c.target
  if connected then
    let turned ← round c 0 {}
    if turned.onward then round c turned.pos turned.res else pure turned
  else pure ⟨false, 0, {}⟩

theorem execute_opening (host : ℕ) (c : Command) : execute host c =
    opening host c >>= fun turned =>
      if turned.onward then transfer c 4094 turned.pos turned.res else pure turned.res := by
  rw [opening, Program.bind_assoc]
  refine congrArg (select host c.target >>= ·) (funext fun connected => ?_)
  split
  · rw [transfer_succ, Program.bind_assoc]
    refine congrArg (round c 0 {} >>= ·) (funext fun turned => ?_)
    split
    · exact transfer_succ
    · rename_i ended
      exact (if_neg ended).symm
  · rfl

section Run

variable {pc : Chip.Params} {pt : Params} {host least b : ℕ} {c : Command} {turned : Turned}
  {y : Dma.System} {disk : Block.Disk} {pace : ℕ → Turn Unit}

/-- Where the third round is bound to end well, so is the command. -/
theorem execute_ends (moves : ∀ t, ∃ u, t ≤ u ∧ (pace u).moves = true)
    (large : ∀ t, least ≤ (pace t).pick)
    (opened : ((onDisk pc pt).exec (opening host c) (y, disk) pace b).1.result? = some turned)
    (held : ∀ u < b, ((onDisk pc pt).exec (opening host c) (y, disk) pace u).1.result? = none ∨
      (pace u).moves = false) (onward : turned.onward = true)
    (ends : holds pc pt ((transfer c 4094 turned.pos turned.res).atLeast least)
      (fun res _ => res.ok = true) ((onDisk pc pt).exec (opening host c) (y, disk) pace b).2) :
    ∃ T res, ((machine pc pt).exec (execute host c) y
      (diskTurns pc pt (execute host c) y disk pace) T).1.result? = some res ∧ res.ok = true := by
  have later (t : ℕ) : ∃ u, t ≤ u ∧ (pace (b + u)).moves = true := by
    obtain ⟨u, late, moved⟩ := moves (b + t)
    exact ⟨u - b, by omega, by rwa [Nat.add_sub_cancel' (by omega)]⟩
  obtain ⟨t, res, returned, ok⟩ : ∃ t res, ((onDisk pc pt).exec
      (transfer c 4094 turned.pos turned.res) _ (fun v => pace (b + v)) t).1.result? = some res ∧
        res.ok = true :=
    Machine.exec_ends (fun _ _ _ _ ok => ok) ends (fun t => large (b + t)) later fun _ => trivial
  refine ⟨b + t, res, ?_, ok⟩
  rw [exec_onDisk, execute_opening, Machine.exec_then opened held, if_pos onward]
  exact returned

end Run

end Wish5380.Driver
