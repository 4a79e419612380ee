import Wish5380.Sun3.Model

/-!
# What the pump does

Inside the pump a call of the chip moves the chip, the bit of its interrupt and the interrupt
line, and nothing else; so every byte moves the counters by one and leaves the rest alone.  What
the pump keeps, and a chip that leaves EOP alone, a whole run keeps.
-/

namespace Wish5380.Sun3

open Callback (Activity)

variable {σ ι α : Type} {chip : Chip σ ι} {b : Board σ}

/-! ## Calls from inside -/

/-- The same board but for the chip and its interrupt. -/
structure Frame (b c : Board σ) : Prop where
  rest : c = { b with core := c.core, csr := c.csr, irqLevel := c.irqLevel }
  csr : c.csr &&& ~~~csrSbcIp = b.csr &&& ~~~csrSbcIp

theorem Frame.refl (b : Board σ) : Frame b b :=
  ⟨rfl, rfl⟩

theorem Frame.trans {b c d : Board σ} (first : Frame b c) (second : Frame c d) : Frame b d := by
  refine ⟨?_, second.csr.trans first.csr⟩
  rw [second.rest, first.rest]

theorem Frame.of_core (b : Board σ) (core : σ) : Frame b { b with core := core } :=
  ⟨rfl, rfl⟩

theorem masked_refilled (r m : BitVec 16) (fill : Bool) :
    (r &&& ~~~m ||| (if fill then m else 0)) &&& ~~~m = r &&& ~~~m := by
  ext i low
  cases fill <;> cases bit : m[i] <;> simp [bit]

theorem updateIrq_frame (b : Board σ) : Frame b (updateIrq chip b) :=
  ⟨rfl, masked_refilled b.csr csrSbcIp (chip.irq b.core)⟩

/-- The other bits can be read off the masked register. -/
theorem has_of_masked {csr csr' mask : BitVec 16} (same : csr' &&& ~~~csrSbcIp = csr &&& ~~~csrSbcIp)
    (other : mask &&& ~~~csrSbcIp = mask) : has csr' mask = has csr mask := by
  have through (r : BitVec 16) : r &&& mask = r &&& ~~~csrSbcIp &&& mask := by
    rw [BitVec.and_assoc, BitVec.and_comm (~~~csrSbcIp) mask, other]
  rw [has, has, through csr', same, ← through csr]

theorem Frame.has_send {c : Board σ} (frame : Frame b c) : has c.csr csrSend = has b.csr csrSend :=
  has_of_masked frame.csr (by decide)

theorem nested_eop {act : Activity σ Pin α} {v : Bool} (steady : act.Steady chip.eop v)
    (b : Board σ) : chip.eop (nested chip act b).2.core = v := by
  refine act.run_moves (I := fun c : Board σ => chip.eop c.core = v) steady (fun s same => same)
    (fun s c here same => same.trans here) ?_
  intro pin c here
  cases pin with
  | irq => exact here
  | drq level => cases level <;> exact here

/-- With the pump on the stack, the pins call what a call from inside answers with. -/
theorem changed_pumping (pin : Pin) (x : Traced σ) (pumping : x.board.pumping = true) :
    x.changed chip pin = x.modify (changedInside chip pin) := by
  have stays : x.pump chip = x := by
    rw [Traced.pump, if_pos pumping]
  cases pin with
  | irq => rw [Traced.changed, stays]; rfl
  | drq level =>
      rw [Traced.changed, stays]
      cases level <;> rfl

theorem changedInside_frame (pin : Pin) (b : Board σ) : Frame b (changedInside chip pin b) := by
  cases pin with
  | irq => exact updateIrq_frame b
  | drq level =>
      cases level with
      | true => exact updateIrq_frame b
      | false => exact .refl b

theorem Frame.pumping {c : Board σ} (frame : Frame b c) : c.pumping = b.pumping := by
  rw [frame.rest]

theorem nested_frame (act : Activity σ Pin α) (b : Board σ) : Frame b (nested chip act b).2 := by
  induction act generalizing b with
  | ret core value => exact .of_core b core
  | calls core pin resume ih =>
      exact ((Frame.of_core b core).trans (changedInside_frame pin _)).trans (ih _ _)

/-- So a call made while the pump is on the stack is a call from inside. -/
theorem call_pumping (act : Activity σ Pin α) (x : Traced σ) (pumping : x.board.pumping = true) :
    x.call chip act =
      ((nested chip act x.board).1, { x with board := (nested chip act x.board).2 }) := by
  induction act generalizing x with
  | ret core value => rfl
  | calls core pin resume ih =>
      have here : (x.modify (Board.putCore core)).board.pumping = true := pumping
      rw [Traced.call, Activity.run, changed_pumping pin _ here]
      exact ih _ _ ((changedInside_frame pin _).pumping.trans pumping)

/-! ## A byte -/

/-- The memory refuses the byte at the address in the direction of the transfer. -/
def refuses (b : Board σ) : Bool :=
  if has b.csr csrSend then !b.mem.readOk b.dmaAddr else !b.mem.writeOk b.dmaAddr

theorem raiseEop_frame (chip : Chip σ ι) (last : Bool) (b : Board σ) :
    Frame b (raiseEop chip last b) := by
  cases last with
  | true => exact nested_frame _ b
  | false => exact .refl b

theorem dropEop_frame (chip : Chip σ ι) (last : Bool) (b : Board σ) : Frame b (dropEop chip last b) := by
  cases last with
  | true => exact nested_frame _ b
  | false => exact .refl b

theorem raiseEop_eop (last : Bool) (b : Board σ) :
    chip.eop (raiseEop chip last b).core = (last || chip.eop b.core) := by
  cases last with
  | true => exact nested_eop (chip.setEop_eop b.core true) b
  | false => rfl

theorem dropEop_eop (last : Bool) (b : Board σ) :
    chip.eop (dropEop chip last b).core = (!last && chip.eop b.core) := by
  cases last with
  | true => exact nested_eop (chip.setEop_eop b.core false) b
  | false => rfl

/-- What a byte leaves besides the chip: `byte` in the FIFO and in the notes, and the counters one
further on. -/
structure Moved (chip : Chip σ ι) (b : Board σ) (byte : Byte) (c : Board σ) : Prop where
  rest : c = { b with
    core := c.core
    csr := c.csr
    irqLevel := c.irqLevel
    sawDrq := true
    mem := if has b.csr csrSend then b.mem
      else { b.mem with byte := Function.update b.mem.byte b.dmaAddr byte }
    fifoData := byte.setWidth 16 <<< 8
    dmaAddr := b.dmaAddr + 1
    fifoCount := b.fifoCount - 1
    udcCount := if b.udcCount ≠ 0 ∧ (b.fifoCount - 1) &&& 1 = 0 then b.udcCount - 1 else b.udcCount
    dacks := b.dacks ++ [(byte, b.fifoCount == 1 || chip.eop b.core)]
    accesses := b.accesses ++ [(b.dmaAddr, byte)] }
  csr : c.csr &&& ~~~csrSbcIp = b.csr &&& ~~~csrSbcIp
  sent : has b.csr csrSend = true → byte = b.mem.byte b.dmaAddr
  eop : chip.eop c.core = (b.fifoCount != 1 && chip.eop b.core)

/-- The board when the byte is asked for, with EOP up if it is the last. -/
def asked (chip : Chip σ ι) (b : Board σ) : Board σ :=
  raiseEop chip (b.fifoCount == 1) { b with sawDrq := true }

theorem asked_frame (chip : Chip σ ι) (b : Board σ) : Frame { b with sawDrq := true } (asked chip b) :=
  raiseEop_frame chip _ _

theorem asked_eop (chip : Chip σ ι) (b : Board σ) :
    chip.eop (asked chip b).core = (b.fifoCount == 1 || chip.eop b.core) :=
  raiseEop_eop _ _

theorem asked_send (chip : Chip σ ι) (b : Board σ) : has (asked chip b).csr csrSend = has b.csr csrSend :=
  (asked_frame chip b).has_send

theorem asked_mem (chip : Chip σ ι) (b : Board σ) : (asked chip b).mem = b.mem := by
  rw [(asked_frame chip b).rest]

theorem asked_dmaAddr (chip : Chip σ ι) (b : Board σ) : (asked chip b).dmaAddr = b.dmaAddr := by
  rw [(asked_frame chip b).rest]

/-- A board with the byte noted, after the rest of the round. -/
theorem moved_of_frame {byte : Byte} {noted taken c : Board σ}
    (notes : noted = { asked chip b with
      mem := if has b.csr csrSend then b.mem
        else { b.mem with byte := Function.update b.mem.byte b.dmaAddr byte }
      dacks := b.dacks ++ [(byte, b.fifoCount == 1 || chip.eop b.core)]
      accesses := b.accesses ++ [(b.dmaAddr, byte)] })
    (frame : Frame noted taken) (eop : chip.eop taken.core = chip.eop (asked chip b).core)
    (sent : has b.csr csrSend = true → byte = b.mem.byte b.dmaAddr)
    (counts : c = countByte byte (dropEop chip (b.fifoCount == 1) taken)) :
    Moved chip b byte c := by
  have drops := dropEop_frame chip (b.fifoCount == 1) taken
  have asks := asked_frame chip b
  have whole := (frame.trans drops)
  refine ⟨?_, ?_, sent, ?_⟩
  · rw [counts, countByte, whole.rest, notes, asks.rest]
  · rw [counts]
    refine (whole.csr.trans ?_)
    rw [notes]
    exact asks.csr
  · rw [counts]
    refine (dropEop_eop (b.fifoCount == 1) taken).trans ?_
    rw [eop, asked_eop chip]
    rw [bne]
    cases b.fifoCount == 1 <;> simp

theorem Frame.noted {c : Board σ} (frame : Frame b c) (mem : Memory) (dacks : List (Byte × Bool))
    (accesses : List (BitVec 32 × Byte)) :
    Frame { b with mem := mem, dacks := dacks, accesses := accesses }
      { c with mem := mem, dacks := dacks, accesses := accesses } := by
  refine ⟨?_, frame.csr⟩
  rw [frame.rest]

theorem asked_notes (chip : Chip σ ι) (b : Board σ) :
    (asked chip b).dacks = b.dacks ∧ (asked chip b).accesses = b.accesses := by
  rw [(asked_frame chip b).rest]
  exact ⟨rfl, rfl⟩

/-- A byte that memory gives. -/
theorem moveByte_send (chip : Chip σ ι) (send : has b.csr csrSend = true)
    (ok : b.mem.readOk b.dmaAddr = true) :
    (moveByte chip b).1 = true ∧ ∃ byte, Moved chip b byte (moveByte chip b).2 := by
  have sends := asked_send chip b
  have mem := asked_mem chip b
  have addr := asked_dmaAddr chip b
  obtain ⟨dacks, accesses⟩ := asked_notes chip b
  have folds : raiseEop chip (b.fifoCount == 1) { b with sawDrq := true } = asked chip b := rfl
  unfold moveByte
  simp only [folds, sends, send, if_true, fetchByte, mem, addr, ok]
  refine ⟨trivial, b.mem.byte b.dmaAddr, moved_of_frame ?_ (nested_frame _ _)
    (nested_eop (chip.dackWrite_eop _ _) _) (fun _ => rfl) rfl⟩
  simp only [send, if_true, asked_eop chip, dacks, accesses, addr]

/-- A byte that memory takes. -/
theorem moveByte_receive (chip : Chip σ ι) (receive : has b.csr csrSend = false)
    (ok : b.mem.writeOk b.dmaAddr = true) :
    (moveByte chip b).1 = true ∧ ∃ byte, Moved chip b byte (moveByte chip b).2 := by
  have sends := asked_send chip b
  have mem := asked_mem chip b
  have addr := asked_dmaAddr chip b
  obtain ⟨dacks, accesses⟩ := asked_notes chip b
  have folds : raiseEop chip (b.fifoCount == 1) { b with sawDrq := true } = asked chip b := rfl
  let taken := nested chip (chip.dackRead (asked chip b).core) (asked chip b)
  have frame : Frame (asked chip b) taken.2 := nested_frame _ _
  have eop : chip.eop taken.2.core = chip.eop (asked chip b).core :=
    nested_eop (chip.dackRead_eop _) _
  have takenMem : taken.2.mem = b.mem := by rw [frame.rest]; exact mem
  have takenAddr : taken.2.dmaAddr = b.dmaAddr := by rw [frame.rest]; exact addr
  have takenDacks : taken.2.dacks = b.dacks := by rw [frame.rest]; exact dacks
  have takenAccesses : taken.2.accesses = b.accesses := by rw [frame.rest]; exact accesses
  unfold moveByte
  simp only [folds, sends, receive, Bool.false_eq_true, if_false, storeByte,
    show nested chip (chip.dackRead (asked chip b).core) (asked chip b) = taken from rfl,
    takenMem, takenAddr, takenDacks, takenAccesses, ok, if_true, asked_eop chip]
  have noted := frame.noted { b.mem with byte := Function.update b.mem.byte b.dmaAddr taken.1 }
    (b.dacks ++ [(taken.1, b.fifoCount == 1 || chip.eop b.core)])
    (b.accesses ++ [(b.dmaAddr, taken.1)])
  refine ⟨trivial, taken.1, moved_of_frame ?_ noted eop (by simp [receive]) ?_⟩
  · simp only [receive, Bool.false_eq_true, if_false]
  · simp only [takenAddr]

theorem moveByte_refused (chip : Chip σ ι) (refused : refuses b = true) :
    (moveByte chip b).1 = false ∧
      chip.eop (moveByte chip b).2.core = (b.fifoCount == 1 || chip.eop b.core) := by
  have sends := asked_send chip b
  have mem := asked_mem chip b
  have addr := asked_dmaAddr chip b
  have eop := asked_eop chip b
  have folds : raiseEop chip (b.fifoCount == 1) { b with sawDrq := true } = asked chip b := rfl
  unfold refuses at refused
  unfold moveByte
  cases direction : has b.csr csrSend with
  | true =>
      have bad : b.mem.readOk b.dmaAddr = false := by simpa [direction] using refused
      simp only [folds, sends, direction, if_true, fetchByte, mem, addr, bad, Bool.false_eq_true,
        if_false]
      exact ⟨trivial, eop⟩
  | false =>
      have bad : b.mem.writeOk b.dmaAddr = false := by simpa [direction] using refused
      let taken := nested chip (chip.dackRead (asked chip b).core) (asked chip b)
      have frame : Frame (asked chip b) taken.2 := nested_frame _ _
      have takenMem : taken.2.mem = b.mem := by rw [frame.rest]; exact mem
      have takenAddr : taken.2.dmaAddr = b.dmaAddr := by rw [frame.rest]; exact addr
      simp only [folds, sends, direction, Bool.false_eq_true, if_false, storeByte,
        show nested chip (chip.dackRead (asked chip b).core) (asked chip b) = taken from rfl,
        takenMem, takenAddr, bad]
      exact ⟨trivial, (nested_eop (chip.dackRead_eop _) _).trans eop⟩

theorem moveByte_moves (chip : Chip σ ι) (takes : refuses b = false) :
    (moveByte chip b).1 = true ∧ ∃ byte, Moved chip b byte (moveByte chip b).2 := by
  unfold refuses at takes
  cases direction : has b.csr csrSend with
  | true => exact moveByte_send chip direction (by simpa [direction] using takes)
  | false => exact moveByte_receive chip direction (by simpa [direction] using takes)

/-! ## The loop -/

/-- The loop, at work on the board, comes to a byte that memory refuses with `n` left. -/
inductive Faults (chip : Chip σ ι) (n : ℕ) : Board σ → Prop where
  | here {b : Board σ} (left : b.fifoCount.toNat = n) (asks : chip.drq b.core = true)
      (refused : refuses b = true) : Faults chip n b
  | later {b : Board σ} (more : b.fifoCount ≠ 0) (asks : chip.drq b.core = true)
      (takes : refuses b = false) (rest : Faults chip n (moveByte chip b).2) : Faults chip n b

theorem pumpEnd_frame (b : Board σ) :
    (pumpEnd b).core = b.core ∧ (pumpEnd b).pumping = false := by
  unfold pumpEnd
  dsimp only
  split_ifs <;> exact ⟨rfl, rfl⟩

theorem pumpIdle_eop (b : Board σ) : chip.eop (pumpIdle chip b).core = chip.eop b.core := by
  have steady := nested_eop (chip.regRead_eop b.core 5) b
  unfold pumpIdle
  dsimp only
  split_ifs <;> exact steady

theorem pumpLoop_asks {n : ℕ} (asks : chip.drq b.core = true) (takes : refuses b = false) :
    pumpLoop chip (n + 1) b = pumpLoop chip n (moveByte chip b).2 := by
  have ok := (moveByte_moves chip takes).1
  rw [pumpLoop, if_pos asks]
  revert ok
  cases moveByte chip b with
  | mk fine c =>
      intro ok
      subst ok
      rfl

theorem pumpLoop_refused {n : ℕ} (asks : chip.drq b.core = true) (refused : refuses b = true) :
    pumpLoop chip (n + 1) b = pumpEnd (moveByte chip b).2 := by
  have bad := (moveByte_refused chip refused).1
  rw [pumpLoop, if_pos asks]
  revert bad
  cases moveByte chip b with
  | mk fine c =>
      intro bad
      subst bad
      rfl

theorem pumpLoop_idle {n : ℕ} (silent : chip.drq b.core = false) :
    pumpLoop chip (n + 1) b = pumpIdle chip b := by
  rw [pumpLoop, if_neg (by simp [silent])]

theorem Moved.left {byte : Byte} {c : Board σ} {n : ℕ} (moved : Moved chip b byte c)
    (count : b.fifoCount.toNat = n + 1) : c.fifoCount.toNat = n := by
  rw [moved.rest]
  show (b.fifoCount - 1).toNat = n
  have one : (1 : BitVec 16).toNat = 1 := rfl
  rw [BitVec.toNat_sub_of_le, count, one]
  · omega
  · rw [BitVec.le_def, count, one]
    omega

theorem pumpLoop_pumping {n : ℕ} (b : Board σ) : (pumpLoop chip n b).pumping = false := by
  induction n generalizing b with
  | zero => exact (pumpEnd_frame b).2
  | succ n ih =>
      cases asks : chip.drq b.core with
      | false => rw [pumpLoop_idle asks]; rfl
      | true =>
          cases refused : refuses b with
          | true => rw [pumpLoop_refused asks refused]; exact (pumpEnd_frame _).2
          | false => rw [pumpLoop_asks asks refused]; exact ih _

/-- The loop leaves EOP up exactly when the byte that memory refuses is the last. -/
theorem pumpLoop_eop {n : ℕ} (count : b.fifoCount.toNat = n) (low : chip.eop b.core = false) :
    chip.eop (pumpLoop chip n b).core = true ↔ Faults chip 1 b := by
  induction n generalizing b with
  | zero =>
      have none : b.fifoCount = 0 := BitVec.eq_of_toNat_eq count
      rw [pumpLoop, (pumpEnd_frame b).1, low]
      constructor
      · simp
      · rintro (⟨left, -, -⟩ | ⟨more, -, -, -⟩)
        · omega
        · exact absurd none more
  | succ n ih =>
      cases asks : chip.drq b.core with
      | false =>
          rw [pumpLoop_idle asks, pumpIdle_eop, low]
          constructor
          · simp
          · rintro (⟨-, asking, -⟩ | ⟨-, asking, -, -⟩) <;> simp [asks] at asking
      | true =>
          cases refused : refuses b with
          | true =>
              rw [pumpLoop_refused asks refused, (pumpEnd_frame _).1,
                (moveByte_refused chip refused).2, low, Bool.or_false, beq_iff_eq]
              constructor
              · intro last
                exact .here (by rw [last]; rfl) asks refused
              · rintro (⟨left, -, -⟩ | ⟨-, -, takes, -⟩)
                · exact BitVec.eq_of_toNat_eq left
                · simp [refused] at takes
          | false =>
              obtain ⟨byte, moved⟩ := (moveByte_moves chip refused).2
              have down : chip.eop (moveByte chip b).2.core = false := by
                rw [moved.eop, low, Bool.and_false]
              rw [pumpLoop_asks asks refused, ih (moved.left count) down]
              constructor
              · intro rest
                refine .later ?_ asks refused rest
                intro none
                rw [none] at count
                exact absurd count (by simp)
              · rintro (⟨-, -, refused'⟩ | ⟨-, -, -, rest⟩)
                · simp [refused] at refused'
                · exact rest

/-- The pump comes to the last byte of the transfer, and memory refuses it. -/
def Strands (chip : Chip σ ι) (b : Board σ) : Prop :=
  b.dmaRunning = true ∧ Faults chip 1 { b with pumping := true }

theorem pump_eop (outside : b.pumping = false) (low : chip.eop b.core = false) :
    chip.eop (pump chip b).core = true ↔ Strands chip b := by
  unfold pump Strands
  by_cases running : b.dmaRunning = true
  · rw [if_neg (by simp [running, outside]), pumpLoop_eop (b := { b with pumping := true }) rfl low]
    exact ⟨fun faults => ⟨running, faults⟩, fun strands => strands.2⟩
  · rw [if_pos (.inl (by simpa using running)), low]
    simp [running]

theorem pump_pumping (outside : b.pumping = false) : (pump chip b).pumping = false := by
  unfold pump
  split_ifs
  · exact outside
  · exact pumpLoop_pumping _

theorem startChain_frame (b : Board σ) :
    (startChain b).2.core = b.core ∧ (startChain b).2.pumping = b.pumping := by
  unfold startChain
  dsimp only
  split
  · exact ⟨rfl, rfl⟩
  · split <;> exact ⟨rfl, rfl⟩

theorem startChain_running {b : Board σ} (started : (startChain b).1 = true) :
    (startChain b).2.dmaRunning = true := by
  revert started
  unfold startChain
  dsimp only
  split
  · simp
  · split
    · simp
    · simp

/-! ## What every part of a run keeps -/

/-- Kept by the pump, by the interrupt line, and by a chip that leaves EOP alone. -/
structure Kept (chip : Chip σ ι) (I : Traced σ → Prop) : Prop where
  pump : ∀ {x}, I x → I (x.pump chip)
  irq : ∀ {x}, I x → I (x.modify (updateIrq chip))
  core : ∀ {x} {s : σ}, I x → chip.eop s = chip.eop x.board.core → I (x.modify (Board.putCore s))

namespace Kept

variable {I : Traced σ → Prop} {x : Traced σ}

theorem settle (kept : Kept chip I) (here : I x) : I (x.settle chip) :=
  kept.irq (kept.pump here)

theorem changed (kept : Kept chip I) (pin : Pin) (here : I x) : I (x.changed chip pin) := by
  cases pin with
  | irq => exact kept.settle here
  | drq level =>
      cases level with
      | true => exact kept.settle here
      | false => exact here

/-- A call of the chip. -/
theorem call (kept : Kept chip I) (act : Activity σ Pin α)
    (steady : act.Steady chip.eop (chip.eop x.board.core)) (here : I x) : I (x.call chip act).2 :=
  act.run_steady here steady (fun _ _ before same => kept.core before same)
    (fun pin _ before => kept.changed pin before)

/-- A call of the chip that moves EOP. -/
theorem call_moves (kept : Kept chip I) (act : Activity σ Pin α) {v : Bool}
    (steady : act.Steady chip.eop v)
    (enters : ∀ s, chip.eop s = v → I (x.modify (Board.putCore s))) : I (x.call chip act).2 :=
  act.run_moves steady enters (fun _ _ before same => kept.core before same)
    (fun pin _ before => kept.changed pin before)

theorem siRead (kept : Kept chip I) {addr : ℕ} {wide : Bool}
    (board : I x → I (x.modify fun b => (boardRead chip addr b).2)) (here : I x) :
    I (siRead chip addr wide x).2 := by
  unfold Sun3.siRead
  split_ifs
  · exact kept.settle (kept.call _ (chip.regRead_eop _ _) (kept.call _ (chip.regRead_eop _ _) here))
  · exact kept.settle (kept.call _ (chip.regRead_eop _ _) here)
  · exact kept.settle (board here)

theorem siWrite (kept : Kept chip I) {addr : ℕ} {val : BitVec 16} {wide : Bool}
    (board : I x → I (boardWrite chip addr val x)) (here : I x) :
    I (siWrite chip addr val wide x) := by
  unfold Sun3.siWrite
  split_ifs
  · exact kept.settle
      (kept.call _ (chip.regWrite_eop _ _ _) (kept.call _ (chip.regWrite_eop _ _ _) here))
  · exact kept.settle (kept.call _ (chip.regWrite_eop _ _ _) here)
  · exact kept.settle (board here)

end Kept

end Wish5380.Sun3
