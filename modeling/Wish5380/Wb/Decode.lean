import Wish5380.Wb.Model
import Mathlib.Tactic.Common
import Mathlib.Tactic.Ring

/-!
# What the bridge is for

The windows as address ranges, and what a Wishbone cycle has to do: the accesses it
makes of the port, clock by clock, and how and when it ends.  With a legal set of
parameters the bridge's masks decode the windows.
-/

namespace Wish5380.Wb

/-- A legal set of parameters: what the source's header asks for. -/
structure Legal (p : Params) : Prop where
  stride : ∃ k, p.regStride = 2 ^ k
  size : ∃ k, 2 ≤ k ∧ p.pdmaSize = 2 ^ k
  reg_aligned : p.regSpan ∣ p.regBase
  hsk_aligned : p.pdmaSize ∣ p.hskBase
  dma_aligned : p.pdmaSize ∣ p.dmaBase
  reg_inside : p.regBase + p.regSpan ≤ 4096
  hsk_inside : p.hskBase + p.pdmaSize ≤ 4096
  dma_inside : p.dmaBase + p.pdmaSize ≤ 4096
  reg_hsk : p.regBase + p.regSpan ≤ p.hskBase ∨ p.hskBase + p.pdmaSize ≤ p.regBase
  reg_dma : p.regBase + p.regSpan ≤ p.dmaBase ∨ p.dmaBase + p.pdmaSize ≤ p.regBase
  hsk_dma : p.hskBase + p.pdmaSize ≤ p.dmaBase ∨ p.dmaBase + p.pdmaSize ≤ p.hskBase
  clock : 0 < p.clkPeriodPs
  timeout : 0 < p.drqTimeoutNs
  fits : p.drqTimeoutNs * 1000 + p.clkPeriodPs - 1 < 2 ^ 31

/-! ## The contract of one cycle -/

/-- The byte address of a lane. -/
def address (r : Req) (lane : BitVec 2) : ℕ :=
  4 * r.adr.toNat + lane.toNat

/-- The selected lanes, lowest address first. -/
def lanes (sel : BitVec 4) : List (BitVec 2) :=
  [0, 1, 2, 3].filter fun lane => sel.getLsbD lane.toNat

/-- The register at a byte address. -/
def register (p : Params) (address : ℕ) : Option ℕ :=
  (List.range 8).find? fun n => decide (address = p.regBase + n * p.regStride)

/-- An access to a register. -/
def regAccess (r : Req) (lane : BitVec 2) (n : ℕ) : Chip.Port where
  stb := true
  we := r.we
  adr := BitVec.ofNat 3 n
  dat := laneByte r.dat lane

/-- An access with DACK. -/
def dackAccess (r : Req) (lane : BitVec 2) : Chip.Port where
  stb := true
  we := r.we
  dack := true
  dat := laneByte r.dat lane

/-- How a cycle goes: its accesses, each with its clock, the clock of the answer, and
whether that is ACK or ERR. -/
structure Outcome where
  strobes : List (ℕ × Chip.Port)
  time : ℕ
  ok : Bool

/-- The first of `n + 1` clocks from `t` on in which DRQ is up. -/
def drqAfter (drq : ℕ → Bool) (t n : ℕ) : Option ℕ :=
  (List.range (n + 1)).find? fun k => drq (t + k)

/-- The lanes of a pseudo-DMA cycle from clock `t` on, one after the other: each waits for
DRQ where the window does, for as long as the timeout allows. -/
def serve (p : Params) (r : Req) (waits : Bool) (drq : ℕ → Bool) :
    List (BitVec 2) → ℕ → Outcome
  | [], t => ⟨[], t + 1, true⟩
  | lane :: rest, t =>
      match if waits then drqAfter drq t p.tDrq else some 0 with
      | some k =>
          let later := serve p r waits drq rest (t + k + 2)
          { later with strobes := (t + k + 1, dackAccess r lane) :: later.strobes }
      | none => ⟨[], t + p.tDrq + 2, false⟩

/-- An address lies in a window. -/
def Inside (base size address : ℕ) : Prop :=
  base ≤ address ∧ address < base + size

instance (base size address : ℕ) : Decidable (Inside base size address) :=
  inferInstanceAs (Decidable (_ ∧ _))

/-- The register window: one lane, and a register at its address. -/
def regOutcome (p : Params) (r : Req) (a : ℕ) : Outcome :=
  match lanes r.sel with
  | [lane] =>
      match register p (address r lane) with
      | some n => ⟨[(a + 1, regAccess r lane n)], a + 3, true⟩
      | none => ⟨[], a + 2, false⟩
  | _ => ⟨[], a + 2, false⟩

/-- What a cycle that begins in clock `a` has to do. -/
def expected (p : Params) (r : Req) (drq : ℕ → Bool) (a : ℕ) : Outcome :=
  if r.sel = 0 then ⟨[], a + 2, true⟩
  else if Inside p.regBase p.regSpan (address r 0) then regOutcome p r a
  else if Inside p.hskBase p.pdmaSize (address r 0) then serve p r true drq (lanes r.sel) (a + 1)
  else if Inside p.dmaBase p.pdmaSize (address r 0) then serve p r false drq (lanes r.sel) (a + 1)
  else ⟨[], a + 2, false⟩

/-! ## Masks -/

/-- Masking off the low bits of an address. -/
theorem mask_off (x : BitVec 12) {k : ℕ} :
    (x &&& ~~~(BitVec.ofNat 12 (2 ^ k - 1))).toNat = 2 ^ k * (x.toNat / 2 ^ k) := by
  have cleared : x &&& ~~~(BitVec.ofNat 12 (2 ^ k - 1)) = (x >>> k) <<< k := by
    apply BitVec.eq_of_getLsbD_eq
    intro i small
    simp only [BitVec.getLsbD_and, BitVec.getLsbD_not, BitVec.getLsbD_ofNat,
      Nat.testBit_two_pow_sub_one, BitVec.getLsbD_shiftLeft, BitVec.getLsbD_ushiftRight, small,
      decide_true, Bool.true_and]
    by_cases low : i < k
    · simp [low]
    · simp [low, Nat.add_sub_cancel' (Nat.not_lt.mp low)]
  have bound := x.isLt
  have below : 2 ^ k * (x.toNat / 2 ^ k) ≤ x.toNat := Nat.mul_div_le _ _
  rw [cleared, BitVec.toNat_shiftLeft, BitVec.toNat_ushiftRight, Nat.shiftLeft_eq,
    Nat.shiftRight_eq_div_pow, Nat.mul_comm]
  exact Nat.mod_eq_of_lt (by omega)

/-- Masking off everything else. -/
theorem mask_low (x : BitVec 12) {k : ℕ} (small : k ≤ 12) :
    (x &&& BitVec.ofNat 12 (2 ^ k - 1)).toNat = x.toNat % 2 ^ k := by
  have size : 2 ^ k ≤ 2 ^ 12 := Nat.pow_le_pow_right (by decide) small
  have positive := Nat.two_pow_pos k
  rw [BitVec.toNat_and, BitVec.toNat_ofNat, Nat.mod_eq_of_lt (by omega),
    Nat.and_two_pow_sub_one_eq_mod]

/-- A mask and a comparison decode an aligned window. -/
theorem window_eq {k base : ℕ} (x : BitVec 12) (aligned : 2 ^ k ∣ base)
    (inside : base + 2 ^ k ≤ 4096) :
    ((x &&& ~~~(BitVec.ofNat 12 (2 ^ k - 1))) == BitVec.ofNat 12 base) =
      decide (Inside base (2 ^ k) x.toNat) := by
  obtain ⟨m, rfl⟩ := aligned
  have positive := Nat.two_pow_pos k
  rw [Bool.eq_iff_iff, beq_iff_eq, decide_eq_true_iff, ← BitVec.toNat_inj, mask_off,
    BitVec.toNat_ofNat, Nat.mod_eq_of_lt (by omega), Inside]
  constructor
  · intro same
    have quotient : x.toNat / 2 ^ k = m := Nat.eq_of_mul_eq_mul_left positive same
    have low := Nat.mul_div_le x.toNat (2 ^ k)
    have high := Nat.lt_mul_div_succ x.toNat positive
    rw [quotient] at low high
    rw [Nat.mul_add, Nat.mul_one] at high
    exact ⟨low, high⟩
  · rintro ⟨low, high⟩
    have quotient : x.toNat / 2 ^ k = m := by
      apply Nat.div_eq_of_lt_le
      · rw [Nat.mul_comm]
        exact low
      · rw [Nat.mul_comm, Nat.mul_add, Nat.mul_one]
        exact high
    rw [quotient]

/-! ## The windows -/

section Windows

variable {p : Params} (legal : Legal p) (r : Req)

theorem badr_toNat : r.badr.toNat = 4 * (r.adr.toNat % 1024) := by
  rw [Req.badr, BitVec.toNat_append]
  simp [Nat.shiftLeft_eq, Nat.mul_comm]

theorem address_zero : address r 0 = 4 * r.adr.toNat :=
  rfl

theorem inRange_eq : r.inRange = decide (r.adr.toNat < 1024) := by
  have bound := r.adr.isLt
  rw [Req.inRange, Bool.eq_iff_iff, beq_iff_eq, decide_eq_true_iff, ← BitVec.toNat_inj]
  rw [BitVec.extractLsb'_toNat, Nat.shiftRight_eq_div_pow, show (0 : BitVec 20).toNat = 0 from rfl]
  omega

/-- The bridge's window is the range of addresses. -/
theorem window_range {k base : ℕ} (aligned : 2 ^ k ∣ base) (inside : base + 2 ^ k ≤ 4096) :
    (r.inRange && (r.badr &&& ~~~(BitVec.ofNat 12 (2 ^ k - 1))) == BitVec.ofNat 12 base) =
      decide (Inside base (2 ^ k) (address r 0)) := by
  rw [window_eq r.badr aligned inside, inRange_eq, badr_toNat, ← Bool.decide_and]
  apply decide_eq_decide.mpr
  rw [address_zero]
  simp only [Inside]
  omega

include legal

theorem inReg_eq : r.inReg p = decide (Inside p.regBase p.regSpan (address r 0)) := by
  obtain ⟨k, is⟩ := legal.stride
  have span : p.regSpan = 2 ^ (k + 3) := by
    rw [Params.regSpan, is, pow_add]
    ring
  have aligned := legal.reg_aligned
  have inside := legal.reg_inside
  rw [span] at aligned inside
  rw [Req.inReg, Params.mReg, Params.aReg, span]
  exact window_range r aligned inside

theorem inHsk_eq : r.inHsk p = decide (Inside p.hskBase p.pdmaSize (address r 0)) := by
  obtain ⟨k, _, is⟩ := legal.size
  have aligned := legal.hsk_aligned
  have inside := legal.hsk_inside
  rw [is] at aligned inside
  rw [Req.inHsk, Params.mPdma, Params.aHsk, is]
  exact window_range r aligned inside

theorem inDma_eq : r.inDma p = decide (Inside p.dmaBase p.pdmaSize (address r 0)) := by
  obtain ⟨k, _, is⟩ := legal.size
  have aligned := legal.dma_aligned
  have inside := legal.dma_inside
  rw [is] at aligned inside
  rw [Req.inDma, Params.mPdma, Params.aDma, is]
  exact window_range r aligned inside

end Windows

/-! ## The register window -/

/-- One lane is selected exactly when the list of lanes has one entry, the first lane. -/
theorem lanes_one : ∀ sel : BitVec 4,
    (if sel == 0b0001 || sel == 0b0010 || sel == 0b0100 || sel == 0b1000 then
      lanes sel = [lowestLane sel] else (lanes sel).length ≠ 1) := by
  decide

section Registers

variable {p : Params} (legal : Legal p) (r : Req)
include legal

/-- A register is found where the offset divides, and only there. -/
theorem register_eq {off : ℕ} (below : off < p.regSpan) :
    register p (p.regBase + off) =
      if off % p.regStride = 0 then some (off / p.regStride) else none := by
  obtain ⟨k, is⟩ := legal.stride
  have positive : 0 < p.regStride := by
    rw [is]
    exact Nat.two_pow_pos k
  rw [Params.regSpan] at below
  split_ifs with divides
  · have quotient : off / p.regStride < 8 := Nat.div_lt_of_lt_mul (by rwa [Nat.mul_comm] at below)
    have exact_ : off / p.regStride * p.regStride = off := Nat.div_mul_cancel
      (Nat.dvd_of_mod_eq_zero divides)
    rw [register, List.find?_range_eq_some]
    refine ⟨by simp [exact_], by simpa using quotient, fun n earlier => ?_⟩
    have differs : n * p.regStride < off := by
      calc n * p.regStride < off / p.regStride * p.regStride :=
            Nat.mul_lt_mul_of_pos_right earlier positive
        _ = off := exact_
    simp
    omega
  · rw [register, List.find?_eq_none]
    intro n _ same
    simp only [decide_eq_true_eq, Nat.add_left_cancel_iff] at same
    exact divides (by rw [same, Nat.mul_mod_left])

/-- The offset of the first lane from the register window. -/
theorem regOff_toNat (inside : Inside p.regBase p.regSpan (address r 0)) :
    p.regBase + (r.regOff p).toNat = address r r.firstLane ∧ (r.regOff p).toNat < p.regSpan := by
  obtain ⟨k, is⟩ := legal.stride
  have span : p.regSpan = 4 * (2 ^ k * 2) := by
    rw [Params.regSpan, is]
    ring
  obtain ⟨m, base⟩ := legal.reg_aligned
  have fits := legal.reg_inside
  have lane := r.firstLane.isLt
  have whole : address r r.firstLane < p.regBase + p.regSpan := by
    have low := inside.2
    rw [address_zero, base, span, Nat.mul_assoc] at low
    rw [address, base, span, Nat.mul_assoc]
    omega
  have low : p.regBase ≤ address r r.firstLane := by
    have least := inside.1
    rw [address_zero] at least
    rw [address]
    omega
  have offset : (r.regOff p).toNat = address r r.firstLane - p.regBase := by
    rw [address] at low whole ⊢
    have adr : r.adr.toNat % 1024 = r.adr.toNat := Nat.mod_eq_of_lt (by omega)
    have lane' : r.firstLane.toNat % 2 ^ 12 = r.firstLane.toNat := Nat.mod_eq_of_lt (by omega)
    have base' : p.regBase % 2 ^ 12 = p.regBase := Nat.mod_eq_of_lt (by omega)
    rw [Req.regOff, Params.aReg, BitVec.toNat_sub, BitVec.toNat_add, badr_toNat,
      BitVec.toNat_setWidth, BitVec.toNat_ofNat, adr, lane', base']
    omega
  rw [offset]
  omega

/-- The test and the part select find the register. -/
theorem regAligned_regIdx (inside : Inside p.regBase p.regSpan (address r 0)) :
    register p (address r r.firstLane) =
        (if r.regAligned p then some ((r.regOff p).toNat / p.regStride) else none) ∧
      r.regIdx p = BitVec.ofNat 3 ((r.regOff p).toNat / p.regStride) := by
  obtain ⟨k, is⟩ := legal.stride
  obtain ⟨place, below⟩ := regOff_toNat legal r inside
  have small : k ≤ 12 := by
    have fits := legal.reg_inside
    by_contra large
    have huge : 2 ^ 12 ≤ 2 ^ k := Nat.pow_le_pow_right (by decide) (by omega)
    rw [Params.regSpan, is] at fits
    omega
  constructor
  · have aligned : r.regAligned p = decide ((r.regOff p).toNat % p.regStride = 0) := by
      rw [Req.regAligned, Params.strideMask, is, Bool.eq_iff_iff, beq_iff_eq, decide_eq_true_iff,
        ← BitVec.toNat_inj, mask_low _ small]
      exact Iff.rfl
    rw [← place, register_eq legal below, aligned]
    simp only [decide_eq_true_eq]
  · have shift : p.regShift = k := by
      rw [Params.regShift, is, clog2]
      rcases Nat.eq_zero_or_pos k with rfl | positive
      · rfl
      · have large : 1 < 2 ^ k := Nat.one_lt_two_pow (by omega)
        have split : 2 ^ k = 2 * 2 ^ (k - 1) := by
          rw [← pow_succ', Nat.sub_add_cancel positive]
        have top : (2 ^ k - 1).log2 = k - 1 := by
          rw [Nat.log2_eq_iff (by omega), Nat.sub_add_cancel positive]
          omega
        rw [if_neg (by omega), top]
        omega
    rw [Req.regIdx, shift, is]
    apply BitVec.eq_of_toNat_eq
    rw [BitVec.extractLsb'_toNat, BitVec.toNat_ofNat, Nat.shiftRight_eq_div_pow]

end Registers

end Wish5380.Wb
