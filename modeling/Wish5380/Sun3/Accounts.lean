import Wish5380.Bytes.Store
import Wish5380.Sun3.Alone
import Wish5380.Sun3.Pump

/-!
# The accounts of a transfer

From the start of a chain on, the count, the address, the UDC's words, the DACK cycles and the
memory accesses stay in step, wherever the pump stops and however it is called again.
-/

namespace Wish5380.Sun3

open Callback (Activity)
open Bytes (store)

variable {σ ι α : Type} {chip : Chip σ ι}

/-! ## The books -/

/-- The DACK cycles of a transfer of `c` bytes: EOP with the last. -/
def dackNotes (c : ℕ) (bytes : List Byte) : List (Byte × Bool) :=
  bytes.mapIdx fun i byte => (byte, i + 1 == c)

/-- The memory accesses of a transfer from `a` on. -/
def accessNotes (a : BitVec 32) (bytes : List Byte) : List (BitVec 32 × Byte) :=
  bytes.mapIdx fun i byte => (a + BitVec.ofNat 32 i, byte)

/-- The bytes are in memory, or came from it. -/
def InMemory (s b : Board σ) (bytes : List Byte) : Prop :=
  if has s.csr csrSend then
    b.mem.byte = s.mem.byte ∧
      ∀ i (low : i < bytes.length), bytes[i] = s.mem.byte (s.dmaAddr + BitVec.ofNat 32 i)
  else b.mem.byte = store s.mem.byte s.dmaAddr bytes

/-- What stands on the board when `bytes` have moved since it was `s`; `still` says that nobody
else has written to the memory. -/
structure Account (still : Prop) (s b : Board σ) (bytes : List Byte) : Prop where
  count : b.fifoCount.toNat + bytes.length = s.fifoCount.toNat
  addr : b.dmaAddr = s.dmaAddr + BitVec.ofNat 32 bytes.length
  udc : s.udcCount.toNat = (s.fifoCount.toNat + 1) / 2 →
    b.udcCount.toNat = (b.fifoCount.toNat + 1) / 2
  dacks : b.dacks = s.dacks ++ dackNotes s.fifoCount.toNat bytes
  accesses : b.accesses = s.accesses ++ accessNotes s.dmaAddr bytes
  memory : still → InMemory s b bytes

/-- With the direction and EOP as they were, and no DMA ACTIVE when nothing runs. -/
structure Books (chip : Chip σ ι) (still : Prop) (s b : Board σ) (bytes : List Byte) : Prop
    extends Account still s b bytes where
  low : chip.eop b.core = false
  send : has b.csr csrSend = has s.csr csrSend
  inactive : b.dmaRunning = false → has b.csr csrDmaActive = false

section Books

variable {still : Prop} {s b c : Board σ} {bytes : List Byte} {byte : Byte}

/-- Whatever leaves the counters, the notes and two bits alone. -/
theorem Books.same (books : Books chip still s b bytes) (low : chip.eop c.core = chip.eop b.core)
    (count : c.fifoCount = b.fifoCount) (addr : c.dmaAddr = b.dmaAddr)
    (udc : c.udcCount = b.udcCount) (dacks : c.dacks = b.dacks) (accesses : c.accesses = b.accesses)
    (memory : still → c.mem.byte = b.mem.byte) (send : has c.csr csrSend = has b.csr csrSend)
    (inactive : c.dmaRunning = false → has c.csr csrDmaActive = false) :
    Books chip still s c bytes where
  count := count ▸ books.count
  addr := addr ▸ books.addr
  udc exact := by
    rw [udc, count]
    exact books.udc exact
  dacks := dacks ▸ books.dacks
  accesses := accesses ▸ books.accesses
  memory nobody := by
    have before := books.memory nobody
    unfold InMemory at before ⊢
    rw [memory nobody]
    exact before
  low := low.trans books.low
  send := send.trans books.send
  inactive := inactive

theorem has_send_eq (r : BitVec 16) : has r csrSend = r.getLsbD 3 := by
  have bit : csrSend = BitVec.twoPow 16 3 := rfl
  rw [has, bit, BitVec.and_twoPow]
  cases r.getLsbD 3 <;> decide

theorem has_active_eq (r : BitVec 16) : has r csrDmaActive = r.getLsbD 15 := by
  have bit : csrDmaActive = BitVec.twoPow 16 15 := rfl
  rw [has, bit, BitVec.and_twoPow]
  cases r.getLsbD 15 <;> decide

/-- A bit that the mask does not touch. -/
theorem has_active_of_masked {csr csr' : BitVec 16}
    (same : csr' &&& ~~~csrSbcIp = csr &&& ~~~csrSbcIp) :
    has csr' csrDmaActive = has csr csrDmaActive :=
  has_of_masked same (by decide)

theorem Books.frame (books : Books chip still s b bytes) (frame : Frame b c)
    (low : chip.eop c.core = chip.eop b.core) : Books chip still s c bytes := by
  refine books.same low ?_ ?_ ?_ ?_ ?_ ?_ frame.has_send ?_
  · rw [frame.rest]
  · rw [frame.rest]
  · rw [frame.rest]
  · rw [frame.rest]
  · rw [frame.rest]
  · intro nobody
    rw [frame.rest]
  · intro halted
    rw [has_active_of_masked frame.csr]
    exact books.inactive (by rw [frame.rest] at halted; exact halted)

/-- The UDC counts words: it goes down with every other byte. -/
theorem udc_step {u f : BitVec 16} {n : ℕ} (left : f.toNat = n + 1)
    (before : u.toNat = (n + 1 + 1) / 2) :
    (if u ≠ 0 ∧ (f - 1) &&& 1 = 0 then u - 1 else u).toNat = (n + 1) / 2 := by
  have one : (1 : BitVec 16).toNat = 1 := rfl
  have fewer : (f - 1).toNat = n := by
    rw [BitVec.toNat_sub_of_le, left, one]
    · omega
    · rw [BitVec.le_def, left, one]
      omega
  have even : (f - 1) &&& 1 = 0 ↔ n % 2 = 0 := by
    rw [← BitVec.toNat_inj, BitVec.toNat_and, fewer, one, Nat.and_one_is_mod]
    rfl
  have some : u ≠ 0 := by
    rintro rfl
    have zero : (0 : BitVec 16).toNat = 0 := rfl
    omega
  split_ifs with down
  · have parity := even.mp down.2
    rw [BitVec.toNat_sub_of_le, one]
    · omega
    · rw [BitVec.le_def, one]
      omega
  · have odd : ¬ n % 2 = 0 := fun parity => down ⟨some, even.mpr parity⟩
    omega

/-- Memory after a byte more. -/
theorem InMemory.moved (before : InMemory s b bytes) (addr : b.dmaAddr = s.dmaAddr +
    BitVec.ofNat 32 bytes.length) (send : has b.csr csrSend = has s.csr csrSend)
    (moved : Moved chip b byte c) : InMemory s c (bytes ++ [byte]) := by
  have mem : c.mem = if has b.csr csrSend then b.mem
      else { b.mem with byte := Function.update b.mem.byte b.dmaAddr byte } := by
    rw [moved.rest]
  unfold InMemory at before ⊢
  rw [send] at mem
  split_ifs at before mem ⊢ with sending
  · rw [mem]
    refine ⟨before.1, fun i low => ?_⟩
    rw [List.getElem_append]
    split_ifs with early
    · exact before.2 i early
    · have last : i = bytes.length := by
        rw [List.length_append, List.length_singleton] at low
        omega
      rw [List.getElem_singleton, moved.sent (send.trans sending), before.1, addr, last]
  · rw [mem, Bytes.store_append, ← before, ← addr]
    rfl

/-- A byte more. -/
theorem Books.moved (books : Books chip still s b bytes) (more : b.fifoCount ≠ 0)
    (moved : Moved chip b byte c) : Books chip still s c (bytes ++ [byte]) := by
  obtain ⟨n, left⟩ : ∃ n, b.fifoCount.toNat = n + 1 := by
    refine Nat.exists_eq_succ_of_ne_zero fun none => more ?_
    exact BitVec.eq_of_toNat_eq none
  have after := moved.left left
  have total := books.count
  refine ⟨⟨?_, ?_, ?_, ?_, ?_, ?_⟩, ?_, ?_, ?_⟩
  · rw [List.length_append, List.length_singleton, after]
    omega
  · rw [moved.rest]
    show b.dmaAddr + 1 = _
    rw [books.addr, List.length_append, List.length_singleton, BitVec.ofNat_add, BitVec.add_assoc]
    rfl
  · intro whole
    have before := books.udc whole
    rw [left] at before
    rw [after, moved.rest]
    exact udc_step left before
  · have last : (b.fifoCount == 1 || chip.eop b.core) = (bytes.length + 1 == s.fifoCount.toNat) := by
      have one : b.fifoCount = 1 ↔ n = 0 := by
        rw [← BitVec.toNat_inj, left]
        have one : (1 : BitVec 16).toNat = 1 := rfl
        omega
      rw [books.low, Bool.or_false, Bool.eq_iff_iff, beq_iff_eq, beq_iff_eq, one]
      omega
    rw [moved.rest]
    show b.dacks ++ [_] = _
    rw [books.dacks, dackNotes, dackNotes, List.mapIdx_concat, last, List.append_assoc]
  · rw [moved.rest]
    show b.accesses ++ [_] = _
    rw [books.accesses, accessNotes, accessNotes, List.mapIdx_concat, books.addr, List.append_assoc]
  · intro nobody
    exact (books.memory nobody).moved books.addr books.send moved
  · rw [moved.eop, books.low, Bool.and_false]
  · exact (has_of_masked moved.csr (by decide)).trans books.send
  · intro halted
    rw [has_active_of_masked moved.csr]
    exact books.inactive (by rw [moved.rest] at halted; exact halted)

/-! ## The pump -/

theorem active_cleared (r : BitVec 16) : has (r &&& ~~~csrDmaActive) csrDmaActive = false ∧
    has (r &&& ~~~csrDmaActive) csrSend = has r csrSend := by
  rw [has_active_eq, has_send_eq, has_send_eq]
  simp [csrDmaActive]

theorem dmaIp_set (r : BitVec 16) : has (r ||| csrDmaIp) csrDmaActive = has r csrDmaActive ∧
    has (r ||| csrDmaIp) csrSend = has r csrSend := by
  rw [has_active_eq, has_active_eq, has_send_eq, has_send_eq]
  simp [csrDmaIp]

theorem Books.idle (books : Books chip still s b bytes) :
    Books chip still s (pumpIdle chip b) bytes ∧ (pumpIdle chip b).fifoCount = b.fifoCount := by
  have frame : Frame b (nested chip (chip.regRead b.core 5) b).2 := nested_frame _ b
  have after := books.frame frame (nested_eop (chip.regRead_eop b.core 5) b)
  have count : (nested chip (chip.regRead b.core 5) b).2.fifoCount = b.fifoCount := by
    rw [frame.rest]
  unfold pumpIdle
  dsimp only
  split_ifs
  · obtain ⟨clear, send⟩ := active_cleared (nested chip (chip.regRead b.core 5) b).2.csr
    exact ⟨after.same rfl rfl rfl rfl rfl rfl (fun _ => rfl) send (fun _ => clear), count⟩
  · exact ⟨after.same rfl rfl rfl rfl rfl rfl (fun _ => rfl) rfl after.inactive, count⟩

theorem Books.ended (books : Books chip still s b bytes) (none : b.fifoCount = 0) :
    Books chip still s (pumpEnd b) bytes ∧ (pumpEnd b).dmaRunning = false := by
  obtain ⟨clear, send⟩ := active_cleared b.csr
  obtain ⟨stays, keeps⟩ := dmaIp_set (b.csr &&& ~~~csrDmaActive)
  unfold pumpEnd
  rw [if_pos (.inl none)]
  dsimp only
  split_ifs
  · exact ⟨books.same rfl rfl rfl rfl rfl rfl (fun _ => rfl) (keeps.trans send)
      (fun _ => stays.trans clear), rfl⟩
  · exact ⟨books.same rfl rfl rfl rfl rfl rfl (fun _ => rfl) send (fun _ => clear), rfl⟩

/-- The whole loop, when memory refuses nothing. -/
theorem Books.loop {n : ℕ} (books : Books chip still s b bytes) (count : b.fifoCount.toNat = n)
    (sound : ∀ k, ¬ Faults chip k b) :
    ∃ all, Books chip still s (pumpLoop chip n b) all ∧
      ((pumpLoop chip n b).fifoCount = 0 → (pumpLoop chip n b).dmaRunning = false) := by
  induction n generalizing b bytes with
  | zero =>
      obtain ⟨ended, halted⟩ := books.ended (BitVec.eq_of_toNat_eq count)
      exact ⟨bytes, ended, fun _ => halted⟩
  | succ n ih =>
      have more : b.fifoCount ≠ 0 := by
        intro none
        rw [none] at count
        exact absurd count (by simp)
      cases asks : chip.drq b.core with
      | false =>
          obtain ⟨idle, same⟩ := books.idle
          rw [pumpLoop_idle asks]
          refine ⟨bytes, idle, fun none => ?_⟩
          rw [same] at none
          exact absurd none more
      | true =>
          cases refused : refuses b with
          | true => exact absurd (Faults.here rfl asks refused) (sound _)
          | false =>
              obtain ⟨byte, moved⟩ := (moveByte_moves chip refused).2
              rw [pumpLoop_asks asks refused]
              exact ih (books.moved more moved) (moved.left count)
                (fun k rest => sound k (.later more asks refused rest))

end Books

/-- The pump comes to a byte that memory refuses. -/
def Breaks (chip : Chip σ ι) (b : Board σ) : Prop :=
  b.dmaRunning = true ∧ ∃ n, Faults chip n { b with pumping := true }

/-- A call of the pump that is not nested. -/
theorem Books.pump {still : Prop} {s b : Board σ} {bytes : List Byte}
    (books : Books chip still s b bytes) (outside : b.pumping = false) (sound : ¬ Breaks chip b) :
    ∃ all, Books chip still s (pump chip b) all ∧
      ((pump chip b).fifoCount = 0 → has (pump chip b).csr csrDmaActive = false) := by
  unfold Sun3.pump
  by_cases running : b.dmaRunning = true
  · rw [if_neg (by simp [running, outside])]
    have working : Books chip still s { b with pumping := true } bytes :=
      books.same rfl rfl rfl rfl rfl rfl (fun _ => rfl) rfl books.inactive
    obtain ⟨all, after, halts⟩ := working.loop rfl fun n faults => sound ⟨running, n, faults⟩
    exact ⟨all, after, fun none => after.inactive (halts none)⟩
  · have halted : b.dmaRunning = false := by simpa using running
    rw [if_pos (.inl halted)]
    exact ⟨bytes, books, fun _ => books.inactive halted⟩

/-! ## Runs -/

/-- The accounts of a transfer that began with `s` are in order, at every return of the pump and
now, as long as memory has refused nothing. -/
def InOrder (chip : Chip σ ι) (still : Prop) (s : Board σ) (x : Traced σ) : Prop :=
  (∀ p ∈ x.pumps, ¬ Breaks chip p.1) →
    x.board.pumping = false ∧ (∃ bytes, Books chip still s x.board bytes) ∧
      ∀ p ∈ x.pumps, ∃ bytes, Account still s p.2 bytes ∧
        (p.2.fifoCount = 0 → has p.2.csr csrDmaActive = false)

section Runs

variable {still : Prop} {s : Board σ} {x : Traced σ}

theorem inOrder_modify {f : Board σ → Board σ} (here : InOrder chip still s x)
    (pumping : (f x.board).pumping = x.board.pumping)
    (books : ∀ bytes, Books chip still s x.board bytes → Books chip still s (f x.board) bytes) :
    InOrder chip still s (x.modify f) := by
  intro sound
  obtain ⟨outside, ⟨bytes, now⟩, before⟩ := here sound
  exact ⟨pumping.trans outside, ⟨bytes, books bytes now⟩, before⟩

theorem inOrder_pump (here : InOrder chip still s x) : InOrder chip still s (x.pump chip) := by
  unfold Traced.pump
  split_ifs with inside
  · exact here
  · intro sound
    obtain ⟨outside, ⟨bytes, now⟩, before⟩ :=
      here fun p member => sound p (List.mem_append_left _ member)
    have last : (x.board, Sun3.pump chip x.board) ∈
        x.pumps ++ [(x.board, Sun3.pump chip x.board)] :=
      List.mem_append_right _ (List.mem_singleton_self _)
    obtain ⟨all, after, ended⟩ := now.pump outside (sound _ last)
    refine ⟨pump_pumping outside, ⟨all, after⟩, fun p member => ?_⟩
    rcases List.mem_append.mp member with old | new
    · exact before p old
    · rw [List.mem_singleton.mp new]
      exact ⟨all, after.toAccount, ended⟩

theorem kept_inOrder : Kept chip (InOrder chip still s) where
  pump := inOrder_pump
  irq here := inOrder_modify here rfl fun _ books => books.frame (updateIrq_frame _) rfl
  core here same := inOrder_modify here rfl fun _ books => books.frame (.of_core _ _) same

/-- The events of a transfer: no write of the UDC's data port or the FIFO count, no reset and no
change of direction; and if nobody else may write to the memory, nobody does. -/
def Allowed (still : Prop) (send : Bool) : Event ι → Prop
  | .read _ _ => True
  | .write addr val _ => addr ≠ 0x10 ∧ addr ≠ 0x16 ∧
      (addr = 0x18 → has val csrScsiRes = true ∧ has val csrSend = send)
  | .async _ => True
  | .remap _ => ¬ still

theorem fifo_bits (r : BitVec 16) (running : Bool) :
    has (r &&& ~~~(csrFifoFull ||| csrFifoEmpty) ||| (if running then 0 else csrFifoEmpty))
        csrDmaActive = has r csrDmaActive ∧
      has (r &&& ~~~(csrFifoFull ||| csrFifoEmpty) ||| (if running then 0 else csrFifoEmpty))
        csrSend = has r csrSend := by
  rw [has_active_eq, has_active_eq, has_send_eq, has_send_eq]
  cases running <;> simp [csrFifoFull, csrFifoEmpty]

theorem writable_bits (r val : BitVec 16) :
    has (r &&& ~~~csrWritable ||| val &&& csrWritable) csrDmaActive = has r csrDmaActive ∧
      has (r &&& ~~~csrWritable ||| val &&& csrWritable) csrSend = has val csrSend := by
  rw [has_active_eq, has_active_eq, has_send_eq, has_send_eq]
  simp [csrWritable, csrSend, csrIntrEn, csrFifoRes, csrScsiRes]

theorem inOrder_boardRead (addr : ℕ) (here : InOrder chip still s x) :
    InOrder chip still s (x.modify fun b => (boardRead chip addr b).2) := by
  refine inOrder_modify here ?_ fun bytes books => ?_
  · unfold boardRead
    split_ifs <;> rfl
  · unfold boardRead
    split_ifs
    · exact books
    · exact books
    · exact books
    · exact books
    · exact books
    · have noticed : Books chip still s (updateIrq chip x.board) bytes :=
        books.frame (updateIrq_frame _) rfl
      obtain ⟨active, send⟩ := fifo_bits (updateIrq chip x.board).csr x.board.dmaRunning
      exact noticed.same rfl rfl rfl rfl rfl rfl (fun _ => rfl) send
        fun halted => active.trans (noticed.inactive halted)
    · exact books

theorem inOrder_writeCsr {val : BitVec 16} (here : InOrder chip still s x)
    (released : has val csrScsiRes = true) (send : has val csrSend = has s.csr csrSend) :
    InOrder chip still s (writeCsr chip val x) := by
  have written : InOrder chip still s (x.modify (csrWrite val)) := by
    have only : csrWrite val x.board =
        { x.board with csr := x.board.csr &&& ~~~csrWritable ||| val &&& csrWritable } := by
      rw [csrWrite, if_pos released]
    refine inOrder_modify here (by rw [only]) fun bytes books => ?_
    obtain ⟨active, sends⟩ := writable_bits x.board.csr val
    rw [only]
    exact books.same rfl rfl rfl rfl rfl rfl (fun _ => rfl)
      (sends.trans (send.trans books.send.symm)) fun halted => active.trans (books.inactive halted)
  unfold writeCsr
  dsimp only
  rw [if_pos released]
  split_ifs
  · exact written
  · exact inOrder_modify written rfl fun bytes books =>
      books.same rfl rfl rfl rfl rfl rfl (fun _ => rfl) rfl books.inactive

theorem inOrder_boardWrite {addr : ℕ} {val : BitVec 16} {wide : Bool}
    (allowed : Allowed still (has s.csr csrSend) (Event.write addr val wide : Event ι))
    (here : InOrder chip still s x) : InOrder chip still s (boardWrite chip addr val x) := by
  obtain ⟨port, count, csr⟩ := allowed
  unfold boardWrite
  rw [if_neg port, if_neg count]
  split_ifs with pointer control
  · exact inOrder_modify here rfl fun bytes books =>
      books.same rfl rfl rfl rfl rfl rfl (fun _ => rfl) rfl books.inactive
  · exact inOrder_writeCsr here (csr control).1 (csr control).2
  · exact inOrder_modify here rfl fun bytes books =>
      books.same rfl rfl rfl rfl rfl rfl (fun _ => rfl) rfl books.inactive
  · exact here

theorem inOrder_step {e : Event ι} (allowed : Allowed still (has s.csr csrSend) e)
    (here : InOrder chip still s x) : InOrder chip still s (step chip x e) := by
  cases e with
  | read addr wide => exact kept_inOrder.siRead (inOrder_boardRead addr) here
  | write addr val wide => exact kept_inOrder.siWrite (inOrder_boardWrite allowed) here
  | async i => exact kept_inOrder.call _ (chip.async_eop _ _) here
  | remap mem =>
      exact inOrder_modify here rfl fun bytes books => books.same rfl rfl rfl rfl rfl rfl
        (fun nobody => absurd nobody allowed) rfl books.inactive

theorem inOrder_runs {events : List (Event ι)}
    (allowed : ∀ e ∈ events, Allowed still (has s.csr csrSend) e)
    (here : InOrder chip still s x) : InOrder chip still s (runs chip events x) := by
  induction events generalizing x with
  | nil => exact here
  | cons e events ih =>
      exact ih (fun e member => allowed e (List.mem_cons_of_mem _ member))
        (inOrder_step (allowed e List.mem_cons_self) here)

end Runs

/-- Where a chain that was read to its end leaves the board. -/
theorem startChain_books {b : Board σ} (still : Prop) (started : (startChain b).1 = true)
    (low : chip.eop b.core = false) :
    Books chip still (startChain b).2 (startChain b).2 [] := by
  refine ⟨⟨rfl, (BitVec.add_zero _).symm, id, (List.append_nil _).symm, (List.append_nil _).symm, ?_⟩,
    ?_, rfl, ?_⟩
  · intro nobody
    unfold InMemory
    split_ifs
    · exact ⟨rfl, by simp⟩
    · rfl
  · rw [(startChain_frame b).1]
    exact low
  · intro halted
    rw [startChain_running started] at halted
    cases halted

/-- From the start of a chain to the next, whatever accesses and activity of the chip call the
pump: at every return the counters, the DACK cycles and the memory accesses agree. -/
theorem transfer_accounts (chip : Chip σ ι) (b : Board σ) (outside : b.pumping = false)
    (low : chip.eop b.core = false) (started : (startChain b).1 = true) (still : Prop)
    (events : List (Event ι))
    (allowed : ∀ e ∈ events, Allowed still (has (startChain b).2.csr csrSend) e)
    (sound : ∀ p ∈ (runs chip events (Traced.settle chip ⟨(startChain b).2, []⟩)).pumps,
      ¬ Breaks chip p.1) :
    ∀ p ∈ (runs chip events (Traced.settle chip ⟨(startChain b).2, []⟩)).pumps,
      ∃ bytes, Account still (startChain b).2 p.2 bytes ∧
        (p.2.fifoCount = 0 → has p.2.csr csrDmaActive = false) := by
  have start : InOrder chip still (startChain b).2 ⟨(startChain b).2, []⟩ :=
    fun _ => ⟨(startChain_frame b).2.trans outside, ⟨[], startChain_books still started low⟩, by simp⟩
  exact (inOrder_runs allowed (kept_inOrder.settle start) sound).2.2

/-! ## Two bytes, one at a time -/

/-- The chip asks for a byte to send, counts of two bytes and one word stand, and the chain is where
the UDC looks. -/
def waiting : Board Pinned :=
  (runs alone [.write 0x18 0x000b true, .write 2 0x40 false, .write 3 0x02 false,
    .write 0x16 2 true, .write 1 0x08 false, .write 2 0x42 false, .write 5 0 false,
    .write 0x12 0x32 true, .write 0x10 1 true, .write 0x12 0x22 true, .write 0x10 0x100 true]
    (powered 0x3000)).board

/-- The byte is acknowledged in the other role, and the chip goes back to its own. -/
def handshake : List (Event Empty) :=
  [.write 2 0x02 false, .write 1 0x18 false, .write 1 0x08 false, .write 2 0x42 false]

def resumed : Traced Pinned :=
  runs alone handshake (Traced.settle alone ⟨(startChain waiting).2, []⟩)

/-- Memory takes the first byte, and the chip does not ask for another. -/
theorem not_breaks {b : Board σ} (takes : refuses { b with pumping := true } = false)
    (silent : chip.drq (moveByte chip { b with pumping := true }).2.core = false) :
    ¬ Breaks chip b := by
  rintro ⟨-, n, faults⟩
  cases faults with
  | here left asks refused => simp [takes] at refused
  | later more asks takes rest =>
      cases rest with
      | here left asks refused => simp [silent] at asks
      | later more asks takes rest => simp [silent] at asks

/-- The pump stops after the first byte, and the handshake calls it again. -/
theorem two_bytes_account :
    (resumed.pumps.map fun p => (p.2.fifoCount, p.2.udcCount)) =
        [(1, 1), (1, 1), (1, 1), (0, 0), (0, 0), (0, 0)] ∧
      ∀ p ∈ resumed.pumps, ∃ bytes, Account True (startChain waiting).2 p.2 bytes ∧
        (p.2.fifoCount = 0 → has p.2.csr csrDmaActive = false) := by
  refine ⟨by decide +kernel, transfer_accounts alone waiting (by decide +kernel) (by decide +kernel)
    (by decide +kernel) True handshake (fun e member => ?_) fun p member => ?_⟩
  · simp only [handshake, List.mem_cons, List.not_mem_nil, or_false] at member
    rcases member with rfl | rfl | rfl | rfl <;> exact ⟨by decide, by decide, by decide⟩
  · have checked : ∀ p ∈ resumed.pumps, refuses { p.1 with pumping := true } = false ∧
        alone.drq (moveByte alone { p.1 with pumping := true }).2.core = false := by
      decide +kernel
    exact not_breaks (checked p member).1 (checked p member).2

end Wish5380.Sun3
