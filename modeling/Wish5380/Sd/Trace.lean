import Wish5380.Clocked.Run
import Wish5380.Clocked.History
import Wish5380.Sd.Model

/-!
# What the back end does, as a history

The sequencer and its transceiver run against an arbitrary card, which is a waveform
on MISO, and an arbitrary owner of the sector buffer.  An edge may begin a byte, end
one, or act on one; the events of a run are listed in the order of the edges.
-/

namespace Wish5380.Sd

/-- `blk_sd` with its `sd_spi`, and the register the sector buffer reads into. -/
structure Dev where
  blk : Blk
  spi : Spi := {}
  rdata : Byte := 0
  deriving DecidableEq, Repr

/-- One cycle's inputs: the request, the sector buffer as it stands, and the card. -/
structure Input where
  start : Bool := false
  we : Bool := false
  lba : BitVec 32 := 0
  buffer : BitVec 9 → Byte := fun _ => 0
  miso : Bool := true

namespace Dev

def reset (p : Params) : Dev where
  blk := Blk.reset p

/-- `blk_i`. -/
def req (d : Dev) (i : Input) : BlkReq where
  start := i.start
  we := i.we
  lba := i.lba
  bufRdata := d.rdata

/-- `spi_idle`. -/
def idle (d : Dev) : Bool :=
  d.blk.spiIdle d.spi

/-- One edge.  The buffer is read every cycle, at the address of that cycle. -/
def next (p : Params) (d : Dev) (i : Input) : Dev where
  blk := d.blk.next p d.spi (d.req i)
  spi := d.spi.next d.blk.div d.blk.go d.blk.tx i.miso
  rdata := i.buffer d.blk.bufAddr

/-- The run from the RESET pin's release. -/
def run (p : Params) (input : ℕ → Input) : ℕ → Dev :=
  Clocked.run (next p) (reset p) input

theorem run_succ (p : Params) (input : ℕ → Input) (t : ℕ) :
    run p input (t + 1) = (run p input t).next p (input t) :=
  rfl

end Dev

/-- A clock of 100 kHz: a half period of the card's is one cycle, and a millisecond 100. -/
def Params.slow : Params where
  clkPeriodPs := 10000000

/-! ## Events -/

/-- What an edge can do.

* `accept`: the ready sequencer takes a request;
* `start`, `got`: a byte begins to go out, and the byte that came in meanwhile is complete;
* `command`, `packet`: the byte that now goes out is the last of a command's six, or the
  second check byte of a block;
* `r1`, `noR1`: a byte is stored as the answer to a command, or the wait is given up;
* `response`: a byte is taken as the answer to a block;
* `load`, `store`: a byte is taken from the sector buffer or written to it;
* `answer`: `done` is pulsed, with `err` beside it. -/
inductive Event where
  | accept (we : Bool) (lba : BitVec 32)
  | start (tx : Byte)
  | got (rx : Byte)
  | command (idx : BitVec 6) (arg : BitVec 32)
  | packet
  | r1 (v : Byte)
  | noR1
  | response (v : Byte)
  | load (addr : BitVec 9) (v : Byte)
  | store (addr : BitVec 9) (v : Byte)
  | answer (err : Bool)
  deriving DecidableEq, Repr

namespace Blk

/-- What a visit makes of the byte received and of its inputs. -/
def told (b : Blk) (req : BlkReq) (rx : Byte) : List Event :=
  match b.st with
  | .ready => if req.start then [Event.accept req.we req.lba] else []
  | .cSend => if b.bcnt = 6 then [Event.command b.cmdIdx b.cmdArg] else []
  | .cR1 => if !rx.getLsbD 7 then [Event.r1 rx] else if 63 ≤ b.bcnt then [Event.noR1] else []
  | .wrTok => [Event.load b.bufAddr req.bufRdata]
  | .wrDat => [Event.load b.bufAddr req.bufRdata]
  | .wrCrc => if b.bcnt = 0 then [] else [Event.packet]
  | .wrResp => if rx &&& 0x11 = 0x01 then [Event.response rx] else []
  | _ => []

/-- The pulses an edge leaves behind. -/
def pulses (b : Blk) : List Event :=
  (if b.bufWe then [Event.store b.bufAddr b.bufWdata] else []) ++
    (if b.done then [Event.answer b.err] else []) ++ (if b.go then [Event.start b.tx] else [])

/-- The events of a visit. -/
def events (p : Params) (b : Blk) (req : BlkReq) (rx : Byte) (ms : ℕ) : List Event :=
  b.told req rx ++ (b.step p req rx ms).pulses

end Blk

namespace Dev

/-- The events of an edge. -/
def emit (p : Params) (d : Dev) (i : Input) : List Event :=
  (if (d.next p i).spi.done then [Event.got (d.next p i).spi.shRx] else []) ++
    if d.idle then (d.blk.tickMs p).events p (d.req i) d.spi.shRx d.blk.ms else []

/-- Everything that has happened before cycle `t`. -/
def history (p : Params) (input : ℕ → Input) (t : ℕ) : List Event :=
  Clocked.trace (fun u => (run p input u).emit p (input u)) 0 t

theorem history_succ (p : Params) (input : ℕ → Input) (t : ℕ) :
    history p input (t + 1) = history p input t ++ (run p input t).emit p (input t) :=
  Clocked.trace_succ _ (Nat.zero_le t)

end Dev

/-! ## The rule for histories

A byte that is going out ends with some byte received, whatever the card does.  So a
fact that holds whenever the transceiver is at rest is kept by every edge once it is
kept by every visit: at once when the visit sends nothing, and with any byte received
when it does. -/

section Rule

variable {p : Params} {I : Blk → Byte → List Event → Prop}

/-- The fact as it stands in any cycle, and the order in which the pulses come. -/
structure Story (I : Blk → Byte → List Event → Prop) (d : Dev) (history : List Event) : Prop where
  go_rest : d.blk.go = true → d.spi.run = false ∧ d.spi.done = false
  run_rest : d.spi.run = true → d.spi.done = false
  busy : d.blk.go = true ∨ d.spi.run = true → ∀ rx, I d.blk rx (history ++ [Event.got rx])
  rest : d.blk.go = false → d.spi.run = false → I d.blk d.spi.shRx history

/-- What a visit has to keep. -/
def Kept (p : Params) (I : Blk → Byte → List Event → Prop) (b : Blk) (req : BlkReq) (rx : Byte)
    (ms : ℕ) (history : List Event) : Prop :=
  if (b.step p req rx ms).go then
    ∀ got, I (b.step p req rx ms) got (history ++ b.events p req rx ms ++ [Event.got got])
  else I (b.step p req rx ms) rx (history ++ b.events p req rx ms)

/-- The registers as a visit finds them: no pulse is left. -/
structure Quiet (b : Blk) : Prop where
  go : b.go = false
  bufWe : b.bufWe = false
  done : b.done = false

theorem Blk.quiet_tickMs (p : Params) (b : Blk) : Quiet (b.tickMs p) :=
  ⟨rfl, rfl, rfl⟩

/-- The transceiver at rest: `go` is all that moves it. -/
theorem Spi.next_of_rest {s : Spi} (rest : s.run = false) (div : ℕ) (go : Bool) (tx : Byte)
    (miso : Bool) :
    (s.next div go tx miso).run = go ∧ (s.next div go tx miso).done = false ∧
      (s.next div go tx miso).shRx = s.shRx := by
  cases go <;> simp [next, rest]

/-- The transceiver at work: it goes on, or its byte is complete. -/
theorem Spi.next_of_run {s : Spi} (busy : s.run = true) (div : ℕ) (go : Bool) (tx : Byte)
    (miso : Bool) : (s.next div go tx miso).done = !(s.next div go tx miso).run := by
  simp only [next, busy, Bool.not_true, Bool.false_eq_true, if_false]
  split
  · rfl
  · split
    · rfl
    · split <;> simp

theorem Story.next {d : Dev} {history : List Event} (story : Story I d history)
    (tick : ∀ b rx log, I b rx log → I (b.tickMs p) rx log)
    (visit : ∀ b req rx ms log, Quiet b → I b rx log → Kept p I b req rx ms log) (i : Input) :
    Story I (d.next p i) (history ++ d.emit p i) := by
  have waits (working : d.idle = false) : (d.next p i).blk = d.blk.tickMs p := by
    simp only [Dev.idle] at working
    simp [Dev.next, Blk.next, working]
  cases go : d.blk.go with
  | true =>
      obtain ⟨rest, -⟩ := story.go_rest go
      obtain ⟨run, done, -⟩ := Spi.next_of_rest rest d.blk.div d.blk.go d.blk.tx i.miso
      have working : d.idle = false := by simp [Dev.idle, Blk.spiIdle, go]
      have silent : d.emit p i = [] := by simp [Dev.emit, Dev.next, done, working]
      have same := waits working
      rw [go] at run
      refine ⟨?_, fun _ => done, fun _ rx => ?_, fun _ stopped => ?_⟩
      · simp [same, Blk.tickMs]
      · rw [silent, same, List.append_nil]
        exact tick _ _ _ (story.busy (.inl go) rx)
      · exact absurd run (by simpa [Dev.next, go] using stopped)
  | false =>
      cases run : d.spi.run with
      | true =>
          have finish := Spi.next_of_run run d.blk.div d.blk.go d.blk.tx i.miso
          have working : d.idle = false := by simp [Dev.idle, Blk.spiIdle, run]
          have same := waits working
          have going : (d.next p i).blk.go = false := by simp [same, Blk.tickMs]
          have told : d.emit p i =
              if (d.next p i).spi.run then [] else [Event.got (d.next p i).spi.shRx] := by
            have finished : (d.next p i).spi.done = !(d.next p i).spi.run := finish
            cases on : (d.next p i).spi.run <;> simp [Dev.emit, finished, on, working]
          refine ⟨by simp [going], fun on => ?_, fun on rx => ?_, fun _ off => ?_⟩
          · have finished : (d.next p i).spi.done = !(d.next p i).spi.run := finish
            rw [finished, on]
            rfl
          · rw [going] at on
            have still : (d.next p i).spi.run = true := by simpa using on
            rw [told, still, if_pos rfl, List.append_nil, same]
            exact tick _ _ _ (story.busy (.inr run) rx)
          · rw [told, off, if_neg (by simp), same]
            exact tick _ _ _ (story.busy (.inr run) _)
      | false =>
          obtain ⟨run', done', shRx⟩ := Spi.next_of_rest run d.blk.div d.blk.go d.blk.tx i.miso
          have holds := story.rest go run
          have stopped : (d.next p i).spi.run = false := by rw [← go]; exact run'
          have received : (d.next p i).spi.shRx = d.spi.shRx := shRx
          cases finished : d.spi.done with
          | true =>
              have working : d.idle = false := by simp [Dev.idle, Blk.spiIdle, finished]
              have same := waits working
              have silent : d.emit p i = [] := by simp [Dev.emit, Dev.next, done', working]
              refine ⟨by simp [same, Blk.tickMs], fun _ => done', fun on => ?_, fun _ _ => ?_⟩
              · simp [same, Blk.tickMs, stopped] at on
              · rw [silent, List.append_nil, same, received]
                exact tick _ _ _ holds
          | false =>
              have resting : d.idle = true := by simp [Dev.idle, Blk.spiIdle, go, run, finished]
              have moved : (d.next p i).blk =
                  (d.blk.tickMs p).step p (d.req i) d.spi.shRx d.blk.ms := by
                simp only [Dev.idle] at resting
                simp [Dev.next, Blk.next, resting]
              have told : d.emit p i =
                  (d.blk.tickMs p).events p (d.req i) d.spi.shRx d.blk.ms := by
                simp [Dev.emit, Dev.next, done', resting]
              have kept := visit _ (d.req i) d.spi.shRx d.blk.ms history (d.blk.quiet_tickMs p)
                (tick _ _ _ holds)
              rw [Kept] at kept
              refine ⟨fun _ => ⟨stopped, done'⟩, fun _ => done', fun on rx => ?_, fun off _ => ?_⟩
              · rw [stopped, moved] at on
                rw [told, moved]
                exact (if_pos (by simpa using on) ▸ kept) rx
              · rw [moved] at off
                rw [told, moved, received]
                rw [off] at kept
                simpa using kept

/-- The rule: holding at reset and kept by every visit, the fact holds in every cycle. -/
theorem Dev.story_run (init : I (Blk.reset p) 0 [])
    (tick : ∀ b rx log, I b rx log → I (b.tickMs p) rx log)
    (visit : ∀ b req rx ms log, Quiet b → I b rx log → Kept p I b req rx ms log)
    (input : ℕ → Input) (t : ℕ) : Story I (run p input t) (history p input t) := by
  induction t with
  | zero =>
      exact ⟨by simp [run, reset, Blk.reset], by simp [run, reset], by simp [run, reset, Blk.reset],
        fun _ _ => init⟩
  | succ t ih =>
      rw [run_succ, history_succ]
      exact ih.next tick visit (input t)

end Rule

end Wish5380.Sd
