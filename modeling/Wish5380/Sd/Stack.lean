import Wish5380.Clocked.Leads
import Wish5380.Sd.Card
import Wish5380.Sd.Places

/-!
# The back end with the card in its slot

`blk_sd` and `sd_spi` drive the pins of `SdCard`, and `SdCard` drives MISO.  The card looks
at the pins in the middle of a cycle, so that what it answers is there at the next edge.
The sector buffer has two ports: the sequencer's, and its owner's.
-/

namespace Wish5380.Sd

/-- One cycle of the world outside: the request, the owner's write to the sector buffer, and
what the card is to pretend. -/
structure Call where
  start : Bool := false
  we : Bool := false
  lba : BitVec 32 := 0
  fill : Option (BitVec 9 × Byte) := none
  faults : Faults := {}

structure Stack where
  dev : Dev
  slot : SdCard
  mem : BitVec 9 → Byte

namespace Stack

def reset (p : Params) (card : Card) (mem : BitVec 9 → Byte) : Stack where
  dev := Dev.reset p
  slot := { card := card }
  mem := mem

/-- The card's look at the pins, and what it then drives MISO with. -/
def look (s : Stack) (faults : Faults) : SdCard × Bool :=
  s.slot.tick faults s.dev.spi.sclk (!s.dev.blk.cs) s.dev.spi.mosi

/-- What the sequencer sees in a cycle. -/
def input (s : Stack) (i : Call) : Input where
  start := i.start
  we := i.we
  lba := i.lba
  buffer := s.mem
  miso := (s.look i.faults).2

/-- The owner's port. -/
def filled (mem : BitVec 9 → Byte) : Option (BitVec 9 × Byte) → BitVec 9 → Byte
  | some (addr, v) => Function.update mem addr v
  | none => mem

/-- One edge. -/
def next (p : Params) (s : Stack) (i : Call) : Stack where
  dev := s.dev.next p (s.input i)
  slot := (s.look i.faults).1
  mem :=
    if s.dev.blk.bufWe then
      Function.update (filled s.mem i.fill) s.dev.blk.bufAddr s.dev.blk.bufWdata
    else filled s.mem i.fill

/-- The run from the RESET pin's release. -/
def run (p : Params) (card : Card) (mem : BitVec 9 → Byte) (call : ℕ → Call) : ℕ → Stack :=
  Clocked.run (next p) (reset p card mem) call

/-- `blk_o`. -/
def rsp (s : Stack) : BlkRsp :=
  s.dev.blk.rsp

end Stack

/-! ## The timer

A millisecond is counted in clocks, and its end in the cycle after; together they count
cycles. -/

/-- `TICKS_PER_MS`, as the prescaler counts it. -/
def Params.ticks (p : Params) : ℕ :=
  p.lastTick + 1

namespace Blk

/-- The cycles the timer has seen since it was last cleared, and those of the millisecond
that was running then. -/
def elapsed (p : Params) (b : Blk) : ℕ :=
  b.ms * p.ticks + (if b.msPulse then p.ticks else 0) + b.tickCnt

theorem ms_le_elapsed (p : Params) (b : Blk) : b.ms * p.ticks ≤ b.elapsed p := by
  unfold elapsed
  omega

/-- The prescaler is within its range. -/
def Timed (p : Params) (b : Blk) : Prop :=
  b.tickCnt ≤ p.lastTick

theorem timed_tickMs (p : Params) (b : Blk) : Timed p (b.tickMs p) := by
  unfold Timed tickMs
  dsimp only
  split_ifs with late
  · omega
  · have := Nat.mod_le (b.tickCnt + 1) (2 ^ 32)
    omega

theorem elapsed_tickMs {p : Params} {b : Blk} (timed : Timed p b) :
    (b.tickMs p).elapsed p ≤ b.elapsed p + 1 := by
  have counted : (if b.msPulse then (b.ms + 1) % 2 ^ 16 else b.ms) * p.ticks ≤
      b.ms * p.ticks + (if b.msPulse then p.ticks else 0) := by
    split_ifs
    · calc (b.ms + 1) % 2 ^ 16 * p.ticks ≤ (b.ms + 1) * p.ticks :=
            Nat.mul_le_mul_right _ (Nat.mod_le _ _)
        _ = b.ms * p.ticks + p.ticks := Nat.succ_mul _ _
    · omega
  have ranged := Nat.mod_le (b.tickCnt + 1) (2 ^ 32)
  unfold Timed at timed
  unfold elapsed tickMs
  dsimp only
  by_cases late : p.lastTick ≤ b.tickCnt
  · have full : b.tickCnt = p.lastTick := le_antisymm timed late
    simp only [if_pos late, decide_eq_true late, if_true]
    simp only [Params.ticks] at counted ⊢
    omega
  · simp only [if_neg late, decide_eq_false late, Bool.false_eq_true, if_false]
    omega

/-- Cleared, the timer holds the millisecond that is running at most. -/
theorem elapsed_of_cleared {p : Params} {b : Blk} (cleared : b.ms = 0)
    (pulse : b.msPulse = true → b.tickCnt = 0) (timed : Timed p b) : b.elapsed p ≤ p.ticks := by
  unfold Timed at timed
  unfold elapsed Params.ticks
  rw [cleared]
  split_ifs with on
  · rw [pulse on]
    omega
  · omega

end Blk

end Wish5380.Sd
