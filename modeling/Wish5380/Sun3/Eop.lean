import Wish5380.Sun3.Alone
import Wish5380.Sun3.Pump

/-!
# EOP between transfers

The pump raises EOP for the last byte of a transfer and drops it after.  It forgets to when memory
refuses that byte, and then only; then EOP stays up until a hard reset or the last byte of another
transfer.
-/

namespace Wish5380.Sun3

open Callback (Activity)

variable {σ ι α : Type} {chip : Chip σ ι}

/-! ## EOP -/

/-- As long as no call of the pump has stranded on its last byte, or EOP was down at every return,
both are so, the pump is not on the stack, and EOP is down. -/
def Down (chip : Chip σ ι) (x : Traced σ) : Prop :=
  ((∀ p ∈ x.pumps, ¬ Strands chip p.1) ∨ ∀ p ∈ x.pumps, chip.eop p.2.core = false) →
    x.board.pumping = false ∧ chip.eop x.board.core = false ∧
      ∀ p ∈ x.pumps, ¬ Strands chip p.1 ∧ chip.eop p.2.core = false

theorem down_modify {x : Traced σ} {f : Board σ → Board σ} (here : Down chip x)
    (core : (f x.board).core = x.board.core) (pumping : (f x.board).pumping = x.board.pumping) :
    Down chip (x.modify f) := by
  intro sound
  obtain ⟨outside, low, before⟩ := here sound
  exact ⟨pumping.trans outside, (congrArg chip.eop core).trans low, before⟩

theorem down_pump {x : Traced σ} (here : Down chip x) : Down chip (x.pump chip) := by
  unfold Traced.pump
  split_ifs with inside
  · exact here
  · intro sound
    have last : (x.board, Sun3.pump chip x.board) ∈
        x.pumps ++ [(x.board, Sun3.pump chip x.board)] :=
      List.mem_append_right _ (List.mem_singleton_self _)
    have earlier : (∀ p ∈ x.pumps, ¬ Strands chip p.1) ∨ ∀ p ∈ x.pumps, chip.eop p.2.core = false :=
      sound.imp (fun all p member => all p (List.mem_append_left _ member))
        (fun all p member => all p (List.mem_append_left _ member))
    obtain ⟨outside, low, before⟩ := here earlier
    have returns := pump_eop outside low
    have now : ¬ Strands chip x.board ∧ chip.eop (Sun3.pump chip x.board).core = false := by
      rcases sound with all | all
      · have strands := all _ last
        exact ⟨strands, by simpa using returns.not.mpr strands⟩
      · have down := all _ last
        exact ⟨returns.not.mp (by simpa using down), down⟩
    refine ⟨pump_pumping outside, now.2, fun p member => ?_⟩
    rcases List.mem_append.mp member with old | new
    · exact before p old
    · rw [List.mem_singleton.mp new]
      exact now

theorem kept_down : Kept chip (Down chip) where
  pump := down_pump
  irq here := down_modify here rfl rfl
  core here same := by
    intro sound
    obtain ⟨outside, low, before⟩ := here sound
    exact ⟨outside, same.trans low, before⟩

theorem udcWrite_frame (b : Board σ) (val : BitVec 16) :
    (udcWrite b val).core = b.core ∧ (udcWrite b val).pumping = b.pumping := by
  unfold udcWrite
  split_ifs
  all_goals first | exact startChain_frame b | exact ⟨rfl, rfl⟩

theorem boardRead_frame (addr : ℕ) (b : Board σ) :
    (boardRead chip addr b).2.core = b.core ∧ (boardRead chip addr b).2.pumping = b.pumping := by
  unfold boardRead
  split_ifs <;> exact ⟨rfl, rfl⟩

theorem csrWrite_frame (val : BitVec 16) (b : Board σ) :
    (csrWrite val b).core = b.core ∧ (csrWrite val b).pumping = b.pumping := by
  unfold csrWrite
  dsimp only
  split_ifs <;> exact ⟨rfl, rfl⟩

theorem down_reset {x : Traced σ} (here : Down chip x) :
    Down chip (x.call chip (chip.hardReset x.board.core)).2 := by
  refine kept_down.call_moves _ (chip.hardReset_eop _) ?_
  intro s low sound
  obtain ⟨outside, -, before⟩ := here sound
  exact ⟨outside, low, before⟩

theorem down_writeCsr {x : Traced σ} (val : BitVec 16) (here : Down chip x) :
    Down chip (writeCsr chip val x) := by
  have csr := down_modify here (csrWrite_frame val x.board).1 (csrWrite_frame val x.board).2
  unfold writeCsr
  dsimp only
  split_ifs
  · exact csr
  · exact down_modify (down_reset csr) rfl rfl
  · exact down_modify csr rfl rfl
  · exact down_modify (down_modify (down_reset csr) rfl rfl) rfl rfl

theorem down_writeFifoCount {x : Traced σ} (val : BitVec 16) (here : Down chip x) :
    Down chip (writeFifoCount chip val x) := by
  have phase : Down chip (inDataPhase chip x).2 := kept_down.call _ (chip.regRead_eop _ _) here
  unfold writeFifoCount
  dsimp only
  split_ifs
  · exact phase
  · exact down_modify phase rfl rfl

theorem down_boardWrite {x : Traced σ} (addr : ℕ) (val : BitVec 16) (here : Down chip x) :
    Down chip (boardWrite chip addr val x) := by
  unfold boardWrite
  split_ifs
  · exact down_modify here (udcWrite_frame x.board val).1 (udcWrite_frame x.board val).2
  · exact down_modify here rfl rfl
  · exact down_writeFifoCount val here
  · exact down_writeCsr val here
  · exact down_modify here rfl rfl
  · exact here

theorem down_step {x : Traced σ} (e : Event ι) (here : Down chip x) : Down chip (step chip x e) := by
  cases e with
  | read addr wide =>
      exact kept_down.siRead (fun before => down_modify before (boardRead_frame addr _).1
        (boardRead_frame addr _).2) here
  | write addr val wide => exact kept_down.siWrite (down_boardWrite addr val) here
  | async i => exact kept_down.call _ (chip.async_eop _ _) here
  | remap mem => exact down_modify here rfl rfl

theorem down_runs (events : List (Event ι)) {x : Traced σ} (here : Down chip x) :
    Down chip (runs chip events x) := by
  induction events generalizing x with
  | nil => exact here
  | cons e events ih => exact ih (down_step e here)

/-- In every run of a board, whatever is accessed, whatever the chip does and wherever memory
refuses: EOP is down at every return of the pump exactly when no call of it stranded on the last
byte of a transfer. -/
theorem eop_down_iff (chip : Chip σ ι) (core : σ) (low : chip.eop core = false) (mem : Memory)
    (events : List (Event ι)) :
    (∀ p ∈ (runs chip events ⟨{ core := core, mem := mem }, []⟩).pumps, chip.eop p.2.core = false) ↔
      ∀ p ∈ (runs chip events ⟨{ core := core, mem := mem }, []⟩).pumps, ¬ Strands chip p.1 := by
  have start : Down chip (⟨{ core := core, mem := mem }, []⟩ : Traced σ) :=
    fun _ => ⟨rfl, low, by simp⟩
  have here := down_runs events start
  constructor
  · intro down p member
    exact ((here (.inr down)).2.2 p member).1
  · intro sound p member
    exact ((here (.inl sound)).2.2 p member).2

/-! ## One byte to send -/

/-- The chip as a target in COMMAND, a count of one, BSY and DMA MODE, the chain started, and Start
DMA Send. -/
def sendsOne : List (Event Empty) :=
  [.write 0x18 0x000b true, .write 2 0x40 false, .write 3 0x02 false, .write 0x16 1 true,
    .write 1 0x08 false, .write 2 0x42 false, .write 0x12 0x22 true, .write 0x10 0x100 true,
    .write 0x12 0x2e true, .write 0x10 0xa0 true, .write 5 0 false]

/-- With memory there, EOP goes up and down again. -/
theorem sent_byte_drops :
    0 < (runs alone sendsOne (powered 0x3000)).pumps.length ∧
      ∀ p ∈ (runs alone sendsOne (powered 0x3000)).pumps, ¬ Strands alone p.1 := by
  have down : ((runs alone sendsOne (powered 0x3000)).pumps.all fun p => !alone.eop p.2.core) =
      true := by decide +kernel
  have each : ∀ p ∈ (runs alone sendsOne (powered 0x3000)).pumps, alone.eop p.2.core = false :=
    fun p member => by simpa using List.all_eq_true.mp down p member
  exact ⟨by decide +kernel, (eop_down_iff alone { chip := Soft.State.hardReset {} }
    (by decide +kernel) (chainMemory 0x3000) sendsOne).mp each⟩

/-- With none there, it stays up. -/
theorem refused_byte_strands :
    ¬ ∀ p ∈ (runs alone sendsOne (powered 0x1000)).pumps, alone.eop p.2.core = false := by
  have up : ((runs alone sendsOne (powered 0x1000)).pumps.any fun p => alone.eop p.2.core) = true := by
    decide +kernel
  intro down
  obtain ⟨p, member, high⟩ := List.any_eq_true.mp up
  simp [down p member] at high

end Wish5380.Sun3
