import Mathlib.Data.List.GetD
import Mathlib.Tactic.Abel
import Mathlib.Tactic.SplitIfs
import Wish5380.Tt.Model

/-!
# What the packer keeps

The DMA chip writes whole longwords and leaves the rest in its residue registers.  It fills them
from the first on, so the rest is where the driver looks for it when it began at a longword: when
the transfer did, or when it got past its first boundary.
-/

namespace Wish5380.Tt

open Bytes (store)

/-! ## The registers -/

theorem longAt_setLongAt (io : BitVec 32 → BitVec 8) (a v : BitVec 32) :
    longAt (setLongAt io a v) a = v := by
  have apart (i j : BitVec 32) (other : i ≠ j) : a + i ≠ a + j :=
    fun same => other ((BitVec.add_right_inj a).mp same)
  have first (j : BitVec 32) (other : 0 ≠ j) : a ≠ a + j := by
    simpa using apart 0 j other
  have top : setLongAt io a v a = (v >>> 24).setWidth 8 := by
    rw [setLongAt, Function.update_of_ne (first 6 (by decide)),
      Function.update_of_ne (first 4 (by decide)), Function.update_of_ne (first 2 (by decide)),
      Function.update_self]
  have high : setLongAt io a v (a + 2) = (v >>> 16).setWidth 8 := by
    rw [setLongAt, Function.update_of_ne (apart 2 6 (by decide)),
      Function.update_of_ne (apart 2 4 (by decide)), Function.update_self]
  have low : setLongAt io a v (a + 4) = (v >>> 8).setWidth 8 := by
    rw [setLongAt, Function.update_of_ne (apart 4 6 (by decide)), Function.update_self]
  have last : setLongAt io a v (a + 6) = v.setWidth 8 := Function.update_self ..
  rw [longAt, top, high, low, last]
  ext i inside
  by_cases i < 8 <;> by_cases i < 16 <;> by_cases i < 24 <;>
    simp [*] <;> grind

theorem setLongAt_other {io : BitVec 32 → BitVec 8} {a v x : BitVec 32} (first : x ≠ a)
    (second : x ≠ a + 2) (third : x ≠ a + 4) (fourth : x ≠ a + 6) :
    setLongAt io a v x = io x := by
  rw [setLongAt, Function.update_of_ne fourth, Function.update_of_ne third,
    Function.update_of_ne second, Function.update_of_ne first]

variable {io : BitVec 32 → BitVec 8} {addr len : BitVec 32}

theorem dmaLen_set : dmaLen (setDmaAddrAndLen io addr len) = len :=
  longAt_setLongAt ..

theorem dmaAddr_set : dmaAddr (setDmaAddrAndLen io addr len) = addr := by
  have away (x : BitVec 32) (lower : x.toNat < 0xff8709) :
      setLongAt (setLongAt io 0xff8701 addr) 0xff8709 len x = setLongAt io 0xff8701 addr x := by
    refine setLongAt_other ?_ ?_ ?_ ?_ <;> rintro rfl <;> exact absurd lower (by decide)
  refine Eq.trans ?_ (longAt_setLongAt io 0xff8701 addr)
  rw [dmaAddr, setDmaAddrAndLen, longAt, away _ (by decide), away _ (by decide),
    away _ (by decide), away _ (by decide)]
  rfl

theorem residue_set {i : ℕ} (low : i < 4) :
    setDmaAddrAndLen io addr len (residueAt i) = io (residueAt i) := by
  unfold setDmaAddrAndLen
  rw [setLongAt_other, setLongAt_other] <;> revert i <;> decide

/-! ## The bytes -/

section Transfer

variable {σ : Type*} (c : Core σ)

/-- A byte from the core, with EOP around it if it is the last. -/
def Core.takeByte (last : Bool) (core : σ) : BitVec 8 × σ :=
  let taken := c.dackRead (if last then c.setEop core true else core)
  (taken.1, if last then c.setEop taken.2 false else taken.2)

/-- The bytes the core gives to one that asks for `left` of them. -/
def Core.received : ℕ → σ → List (BitVec 8)
  | 0, _ => []
  | left + 1, core =>
      let drq := c.waitDrq core
      if drq.1 then
        let taken := c.takeByte (left == 0) drq.2
        taken.1 :: received left taken.2
      else []

theorem Core.received_length (left : ℕ) (core : σ) : (c.received left core).length ≤ left := by
  induction left generalizing core with
  | zero => simp [Core.received]
  | succ left ih =>
      rw [Core.received]
      split_ifs
      · exact Nat.succ_le_succ (ih _)
      · exact Nat.zero_le _

@[simp] theorem Transfer.push_done (addr : BitVec 32) (x : Transfer σ) (b : BitVec 8) :
    (Transfer.push addr x b).done = x.done := by
  simp only [Transfer.push]
  split_ifs <;> rfl

theorem Transfer.push_core (addr : BitVec 32) (x : Transfer σ) (core : σ) (b : BitVec 8) :
    Transfer.push addr { x with core := core } b = { Transfer.push addr x b with core := core } := by
  simp only [Transfer.push]
  split_ifs <;> rfl

theorem Core.moveByte_receive (addr : BitVec 32) (len : ℕ) (x : Transfer σ) :
    c.moveByte addr len false x =
      { Transfer.push addr x (c.takeByte (x.done + 1 == len) x.core).1 with
        core := (c.takeByte (x.done + 1 == len) x.core).2
        done := x.done + 1 } := by
  by_cases last : x.done + 1 = len <;>
    simp [Core.moveByte, Core.takeByte, Transfer.push_core, last]

/-- Of the bytes so far some are in memory, and the others, fewer than a longword, in the packer:
all of them while the first longword is not over. -/
structure Packs (addr : BitVec 32) (ram : BitVec 32 → BitVec 8) (bytes stored : List (BitVec 8))
    (x : Transfer σ) : Prop where
  all : bytes = stored ++ x.pack
  done : x.done = bytes.length
  ram : x.ram = store ram addr stored
  place : stored = [] ∧ addr.toNat % 4 + x.pack.length < 4 ∨
    (addr.toNat + stored.length) % 4 = 0 ∧ x.pack.length < 4

variable {c} {addr : BitVec 32} {ram : BitVec 32 → BitVec 8} {bytes stored : List (BitVec 8)}
  {x : Transfer σ}

/-- The packer is never full before a byte comes. -/
theorem Packs.short (packs : Packs addr ram bytes stored x) : x.pack.length < 4 := by
  rcases packs.place with ⟨-, low⟩ | ⟨-, low⟩ <;> omega

theorem Packs.of_core (packs : Packs addr ram bytes stored x) (core : σ) :
    Packs addr ram bytes stored { x with core := core } :=
  ⟨packs.all, packs.done, packs.ram, packs.place⟩

theorem boundary_iff (addr : BitVec 32) (n : ℕ) :
    addr + BitVec.ofNat 32 n + 1 &&& 3 = 0 ↔ (addr.toNat + n + 1) % 4 = 0 := by
  have mask := Nat.and_two_pow_sub_one_eq_mod (addr + BitVec.ofNat 32 n + 1).toNat 2
  have three : (3 : BitVec 32).toNat = 2 ^ 2 - 1 := rfl
  have one : (1 : BitVec 32).toNat = 1 := rfl
  have zero : (0 : BitVec 32).toNat = 0 := rfl
  rw [← BitVec.toNat_inj, BitVec.toNat_and, three, mask, BitVec.toNat_add, BitVec.toNat_add,
    BitVec.toNat_ofNat, one, zero]
  omega

theorem Packs.push (packs : Packs addr ram bytes stored x) (core : σ) (b : BitVec 8) :
    ∃ stored', Packs addr ram (bytes ++ [b]) stored'
      { Transfer.push addr x b with core := core, done := x.done + 1 } := by
  have count : x.done = stored.length + x.pack.length := by
    rw [packs.done, packs.all, List.length_append]
  have place := packs.place
  unfold Transfer.push
  by_cases ends : addr + BitVec.ofNat 32 x.done + 1 &&& 3 = 0
  · simp only [ends, if_true]
    have aligned := (boundary_iff addr x.done).mp ends
    refine ⟨bytes ++ [b], by simp, by simp [packs.done], ?_, ?_⟩
    · have start : addr + BitVec.ofNat 32 x.done + 1 - BitVec.ofNat 32 (x.pack ++ [b]).length =
          addr + BitVec.ofNat 32 stored.length := by
        rw [count, List.length_append, List.length_singleton, BitVec.ofNat_add, BitVec.ofNat_add]
        have one : BitVec.ofNat 32 1 = 1 := rfl
        rw [one]
        abel
      show store x.ram _ _ = _
      rw [start, packs.all, List.append_assoc, Bytes.store_append ram, packs.ram]
    · refine .inr ⟨?_, Nat.zero_lt_succ 3⟩
      rw [List.length_append, ← packs.done]
      exact aligned
  · simp only [ends, if_false]
    have inside : ¬ (addr.toNat + x.done + 1) % 4 = 0 := (boundary_iff addr x.done).not.mp ends
    refine ⟨stored, by simp [packs.all], by simp [packs.done], packs.ram, ?_⟩
    rw [List.length_append, List.length_singleton]
    rcases place with ⟨rfl, low⟩ | ⟨aligned, low⟩
    · refine .inl ⟨rfl, ?_⟩
      rw [List.length_nil] at count
      omega
    · exact .inr ⟨aligned, by omega⟩

/-- The whole loop. -/
theorem Packs.transfer {len left : ℕ} (packs : Packs addr ram bytes stored x)
    (count : x.done + left = len) :
    ∃ stored', Packs addr ram (bytes ++ c.received left x.core) stored'
      (c.transfer addr len false left x) := by
  induction left generalizing x bytes stored with
  | zero =>
      rw [Core.received, Core.transfer, List.append_nil]
      exact ⟨stored, packs⟩
  | succ left ih =>
      rw [Core.received, Core.transfer]
      split_ifs with asks
      · have last : (x.done + 1 == len) = (left == 0) := by
          rw [Bool.eq_iff_iff, beq_iff_eq, beq_iff_eq]
          omega
        have moved := c.moveByte_receive addr len { x with core := (c.waitDrq x.core).2 }
        simp only [last] at moved
        obtain ⟨stored', next⟩ := (packs.of_core (c.waitDrq x.core).2).push
          (c.takeByte (left == 0) (c.waitDrq x.core).2).2
          (c.takeByte (left == 0) (c.waitDrq x.core).2).1
        rw [← moved] at next
        have done : (c.moveByte addr len false { x with core := (c.waitDrq x.core).2 }).done + left =
            len := by
          rw [moved]
          show x.done + 1 + left = len
          omega
        have rest := ih next done
        rw [List.append_assoc, moved] at rest
        rw [moved]
        exact rest
      · exact ⟨stored, by simpa using packs.of_core _⟩

/-! ## What the driver finds -/

/-- Where the bytes are after a transfer that moved `bytes`, as the driver counts on it: with `e` the
pointer in the address registers, those below the longword of `e` in memory, the others in the
residue registers of their places, and memory otherwise as it was. -/
structure Keeps (addr len : BitVec 32) (bytes : List (BitVec 8)) (ram : BitVec 32 → BitVec 8)
    (m : Machine σ) : Prop where
  pointer : dmaAddr m.io = addr + BitVec.ofNat 32 bytes.length
  count : dmaLen m.io = len - BitVec.ofNat 32 bytes.length
  stored : ∀ k (low : k < bytes.length), addr.toNat + k < (addr.toNat + bytes.length) / 4 * 4 →
    m.ram (addr + BitVec.ofNat 32 k) = bytes[k]
  residue : ∀ k (low : k < bytes.length), (addr.toNat + bytes.length) / 4 * 4 ≤ addr.toNat + k →
    m.io (residueAt ((addr.toNat + k) % 4)) = bytes[k]
  others : ∀ a, (∀ k, addr.toNat + k < (addr.toNat + bytes.length) / 4 * 4 →
    a ≠ addr + BitVec.ofNat 32 k) → m.ram a = ram a

/-- The transfer begins with a longword or reaches the end of its first; or else the residue
registers hold the right bytes by chance, each what the byte so much further on is, or what was
there before. -/
def InPlace (addr : BitVec 32) (io : BitVec 32 → BitVec 8) (bytes : List (BitVec 8)) : Prop :=
  addr.toNat % 4 = 0 ∨ 4 ≤ addr.toNat % 4 + bytes.length ∨
    ∀ k (low : k < bytes.length),
      bytes.getD (addr.toNat % 4 + k) (io (residueAt (addr.toNat % 4 + k))) = bytes[k]

theorem residue_store (io : BitVec 32 → BitVec 8) (bytes : List (BitVec 8)) {j : ℕ} (low : j < 4)
    (short : bytes.length < 4) :
    store io (residueAt 0) bytes (residueAt j) = bytes.getD j (io (residueAt j)) := by
  have place (i : ℕ) : residueAt i = residueAt 0 + BitVec.ofNat 32 i := by
    simp [residueAt]
  rw [place j]
  by_cases inside : j < bytes.length
  · rw [Bytes.store_get _ _ _ (by omega) j inside, List.getD_eq_getElem _ _ inside]
  · rw [Bytes.store_other, List.getD_eq_default _ _ (by omega)]
    intro k low'
    exact Bytes.ofNat_ne (by omega) (by omega) (by omega) _

theorem syncIrq_frame (config : Config) (m : Machine σ) :
    (syncIrq c config m).ram = m.ram ∧ (syncIrq c config m).io = m.io := by
  unfold syncIrq
  dsimp only
  split_ifs <;> exact ⟨rfl, rfl⟩

section Finish

variable {config : Config} {len : BitVec 32} {m : Machine σ}

theorem finish_ram : (finish c config addr len m x).ram = x.ram :=
  (syncIrq_frame ..).1

theorem finish_io :
    (finish c config addr len m x).io =
      setDmaAddrAndLen (store m.io (residueAt 0) x.pack) (addr + BitVec.ofNat 32 x.done)
        (len - BitVec.ofNat 32 x.done) :=
  (syncIrq_frame ..).2

theorem finish_residue (short : x.pack.length < 4) {j : ℕ} (low : j < 4) :
    (finish c config addr len m x).io (residueAt j) = x.pack.getD j (m.io (residueAt j)) := by
  rw [finish_io, residue_set low, residue_store _ _ low short]

/-- After its first boundary the packer began with a longword. -/
theorem Packs.keeps_aligned (packs : Packs addr ram bytes stored x) (fits : bytes.length ≤ 2 ^ 32)
    (aligned : (addr.toNat + stored.length) % 4 = 0) :
    Keeps addr len bytes ram (finish c config addr len m x) := by
  have short := packs.short
  have count : bytes.length = stored.length + x.pack.length := by
    rw [packs.all, List.length_append]
  have longword : (addr.toNat + bytes.length) / 4 * 4 = addr.toNat + stored.length := by omega
  refine ⟨?_, ?_, ?_, ?_, ?_⟩
  · rw [finish_io, dmaAddr_set, packs.done]
  · rw [finish_io, dmaLen_set, packs.done]
  · intro k low below
    have inside : k < stored.length := by omega
    rw [finish_ram, packs.ram, Bytes.store_get _ _ _ (by omega) k inside]
    simp only [packs.all]
    rw [List.getElem_append_left inside]
  · intro k low above
    have place : (addr.toNat + k) % 4 = k - stored.length := by omega
    rw [place, finish_residue short (by omega), List.getD_eq_getElem _ _ (by omega)]
    simp only [packs.all]
    rw [List.getElem_append_right (by omega)]
  · intro a away
    rw [finish_ram, packs.ram]
    exact Bytes.store_other _ _ _ _ fun k low => away k (by omega)

/-- Before it, all the bytes are in the packer. -/
theorem Packs.keeps_iff (packs : Packs addr ram bytes [] x)
    (inside : addr.toNat % 4 + x.pack.length < 4) :
    Keeps addr len bytes ram (finish c config addr len m x) ↔
      ∀ k (low : k < bytes.length),
        bytes.getD (addr.toNat % 4 + k) (m.io (residueAt (addr.toNat % 4 + k))) = bytes[k] := by
  have short := packs.short
  have all : x.pack = bytes := packs.all.symm
  rw [all] at inside short
  have longword : (addr.toNat + bytes.length) / 4 * 4 = addr.toNat / 4 * 4 := by omega
  have place (k : ℕ) (low : k < bytes.length) : (addr.toNat + k) % 4 = addr.toNat % 4 + k := by
    omega
  have found (k : ℕ) (low : k < bytes.length) :
      (finish c config addr len m x).io (residueAt (addr.toNat % 4 + k)) =
        bytes.getD (addr.toNat % 4 + k) (m.io (residueAt (addr.toNat % 4 + k))) := by
    rw [finish_residue (by rwa [all]) (by omega), all]
  constructor
  · intro keeps k low
    rw [← found k low, ← place k low]
    exact keeps.residue k low (by omega)
  · intro chance
    refine ⟨?_, ?_, ?_, ?_, ?_⟩
    · rw [finish_io, dmaAddr_set, packs.done]
    · rw [finish_io, dmaLen_set, packs.done]
    · intro k low below
      omega
    · intro k low above
      rw [place k low, found k low]
      exact chance k low
    · intro a away
      rw [finish_ram, packs.ram]
      rfl

theorem Packs.finish_iff (packs : Packs addr ram bytes stored x) (fits : bytes.length ≤ 2 ^ 32) :
    Keeps addr len bytes ram (finish c config addr len m x) ↔ InPlace addr m.io bytes := by
  have count : bytes.length = stored.length + x.pack.length := by
    rw [packs.all, List.length_append]
  have aligns (aligned : (addr.toNat + stored.length) % 4 = 0) :
      Keeps addr len bytes ram (finish c config addr len m x) := packs.keeps_aligned fits aligned
  rcases packs.place with ⟨rfl, inside⟩ | ⟨aligned, low⟩
  · rw [List.length_nil] at count aligns
    constructor
    · intro keeps
      exact .inr (.inr ((packs.keeps_iff inside).mp keeps))
    · rintro (start | past | chance)
      · exact aligns start
      · omega
      · exact (packs.keeps_iff inside).mpr chance
  · refine ⟨fun _ => ?_, fun _ => aligns aligned⟩
    by_cases start : addr.toNat % 4 = 0
    · exact .inl start
    · exact .inr (.inl (by omega))

end Finish

/-- Every call that receives into memory: the bytes are where the driver looks for them exactly
when the transfer is in place. -/
theorem dmaTransfer_keeps_iff (c : Core σ) (config : Config) (m : Machine σ)
    (armed : m.armed = true) (enabled : m.io 0xff8715 &&& ttDmaEnable ≠ 0)
    (receiving : (m.io 0xff8715).getLsbD 0 = false) (some : dmaLen m.io ≠ 0)
    (area : config.area (dmaAddr m.io) (dmaLen m.io) = true) :
    Keeps (dmaAddr m.io) (dmaLen m.io) (c.received (dmaLen m.io).toNat m.core) m.ram
        (dmaTransfer c config m) ↔
      InPlace (dmaAddr m.io) m.io (c.received (dmaLen m.io).toNat m.core) := by
  have start : Packs (dmaAddr m.io) m.ram [] [] (⟨m.core, m.ram, [], 0⟩ : Transfer σ) :=
    ⟨rfl, rfl, rfl, .inl ⟨rfl, Nat.mod_lt _ (by decide)⟩⟩
  obtain ⟨stored, packs⟩ := start.transfer (c := c) (Nat.zero_add (dmaLen m.io).toNat)
  have fits := (c.received_length (dmaLen m.io).toNat m.core).trans (dmaLen m.io).isLt.le
  have call : dmaTransfer c config m = finish c config (dmaAddr m.io) (dmaLen m.io)
      { m with armed := false } (c.transfer (dmaAddr m.io) (dmaLen m.io).toNat false
        (dmaLen m.io).toNat ⟨m.core, m.ram, [], 0⟩) := by
    have on : ¬ (m.armed = false ∨ m.io 0xff8715 &&& ttDmaEnable = 0) := by
      rintro (off | off)
      · simp [armed] at off
      · exact enabled off
    have inside : ¬ (dmaLen m.io = 0 ∨ config.area (dmaAddr m.io) (dmaLen m.io) = false) := by
      rintro (none | outside)
      · exact some none
      · simp [area] at outside
    simp only [dmaTransfer, if_neg on, if_neg inside, receiving]
  rw [call]
  exact packs.finish_iff fits

end Transfer

/-! ## A target that stops -/

/-- A core whose target has some bytes to give and then leaves the phase. -/
def giver : Core (List (BitVec 8)) where
  drq left := (!left.isEmpty, left)
  read left _ := (if left.isEmpty then 0 else bsrPhaseMatch, left)
  runNs left _ := left
  setEop left _ := left
  dackRead left := (left.headD 0, left.tail)
  dackWrite left _ := left
  irq left := (left.isEmpty, left)

/-- A TT with the transfer started. -/
def started (addr len : BitVec 32) (bytes : List (BitVec 8)) : Machine (List (BitVec 8)) where
  core := bytes
  irqLine := false
  armed := true
  io := setDmaAddrAndLen (Function.update (fun _ => 0) 0xff8715 ttDmaEnable) addr len
  ram := fun _ => 0
  gpip := false

/-- From an odd address past the longword, all is well. -/
theorem past_boundary_keeps :
    Keeps 0x1001 512 [1, 2, 3, 4, 5] (fun _ => 0)
      (dmaTransfer giver ⟨true, fun _ _ => true⟩ (started 0x1001 512 [1, 2, 3, 4, 5])) :=
  (dmaTransfer_keeps_iff giver ⟨true, fun _ _ => true⟩ (started 0x1001 512 [1, 2, 3, 4, 5]) rfl
    (by decide) (by decide) (by decide) rfl).mpr (.inr (.inl (by decide)))

/-- Two bytes from the same address are found one place too low. -/
theorem before_boundary_slips :
    giver.received 512 (started 0x1001 512 [0xaa, 0xbb]).core = [0xaa, 0xbb] ∧
      ¬ Keeps 0x1001 512 [0xaa, 0xbb] (fun _ => 0)
        (dmaTransfer giver ⟨true, fun _ _ => true⟩ (started 0x1001 512 [0xaa, 0xbb])) := by
  refine ⟨by decide, fun keeps => ?_⟩
  have wrong := keeps.residue 0 (by decide) (by decide)
  exact absurd wrong (by decide)

end Wish5380.Tt
