import Wish5380.Targ.Responses

/-!
# Three views of the size of the disk

READ CAPACITY names the last block, MODE SENSE counts the blocks, and the range check of
`S_EXEC` decides which block a READ(10) may ask for.  Each has its own width.
-/

namespace Wish5380.Targ

/-- The number a list of bytes spells, most significant first. -/
def bigEndian (bytes : List Byte) : ℕ :=
  bytes.foldl (fun n b => n * 256 + b.toNat) 0

/-- A ready back end, and three commands for unit 0 at `S_EXEC`: READ CAPACITY, MODE SENSE with
room for the block descriptor, and a READ(10) of one block. -/
structure Probes (blk : BlkRsp) (capacity mode read : Seq) : Prop where
  ready : blk.ready = true
  some : blk.count ≠ 0
  capacity_op : capacity.op = cReadCapacity
  capacity_lun : capacity.lun = 0
  mode_op : mode.op = cModeSense6
  mode_lun : mode.lun = 0
  mode_alloc : 12 ≤ (cdbByte mode.cdb 4).toNat
  read_op : read.op = cRead10
  read_lun : read.lun = 0
  read_one : read.cdbLen10 = 1

/-- `R`: bytes 0 to 3 of the response to READ CAPACITY. -/
def capacityReport (p : Params) (s : Seq) (blk : BlkRsp) : ℕ :=
  bigEndian ((List.range' 0 4).map (byteAt p (s.stepExec blk) blk.count))

/-- `M`: bytes 5 to 7 of the response to MODE SENSE. -/
def modeReport (p : Params) (s : Seq) (blk : BlkRsp) : ℕ :=
  bigEndian ((List.range' 5 3).map (byteAt p (s.stepExec blk) blk.count))

section Bytes

theorem msbByte_toNat {w : ℕ} (v : BitVec w) (n i : ℕ) :
    (msbByte v n i).toNat = v.toNat / 2 ^ (8 * (n - 1 - i)) % 256 := by
  simp [msbByte, BitVec.extractLsb'_toNat, Nat.shiftRight_eq_div_pow]

theorem bigEndian_word (v : BitVec 32) :
    bigEndian [msbByte v 4 0, msbByte v 4 1, msbByte v 4 2, msbByte v 4 3] = v.toNat := by
  have small := v.isLt
  simp only [bigEndian, List.foldl_cons, List.foldl_nil, msbByte_toNat]
  omega

theorem bigEndian_low (v : BitVec 32) :
    bigEndian [msbByte v 4 1, msbByte v 4 2, msbByte v 4 3] = v.toNat % 2 ^ 24 := by
  simp only [bigEndian, List.foldl_cons, List.foldl_nil, msbByte_toNat]
  omega

end Bytes

section Reports

variable {p : Params} {blk : BlkRsp} {capacity mode read : Seq}

theorem capacityReport_eq (probes : Probes blk capacity mode read) :
    capacityReport p capacity blk = blk.count.toNat - 1 := by
  have next := Seq.stepExec_capacity probes.capacity_op probes.capacity_lun probes.ready
  have byte : ∀ k, byteAt p (capacity.stepExec blk) blk.count k =
      respCapacity (BitVec.ofNat 10 k) blk.count := by
    intro k
    simp [byteAt, resp, next]
  have bytes : (List.range' 0 4).map (byteAt p (capacity.stepExec blk) blk.count) =
      [msbByte (lastLba blk.count) 4 0, msbByte (lastLba blk.count) 4 1,
        msbByte (lastLba blk.count) 4 2, msbByte (lastLba blk.count) 4 3] := by
    rw [List.map_congr_left fun k _ => byte k]
    rfl
  rw [capacityReport, bytes, bigEndian_word, lastLba, if_neg probes.some]
  have positive : blk.count.toNat ≠ 0 := fun zero => probes.some (BitVec.eq_of_toNat_eq zero)
  have small := blk.count.isLt
  rw [BitVec.toNat_sub]
  simp
  omega

theorem modeReport_eq (probes : Probes blk capacity mode read) :
    modeReport p mode blk = blk.count.toNat % 2 ^ 24 := by
  have next := Seq.stepExec_generates (.mode probes.mode_op probes.mode_lun) blk
  have byte : ∀ k, byteAt p (mode.stepExec blk) blk.count k =
      respMode (BitVec.ofNat 10 k) blk.count := by
    intro k
    simp [byteAt, resp, next, Seq.respond]
  have bytes : (List.range' 5 3).map (byteAt p (mode.stepExec blk) blk.count) =
      [msbByte blk.count 4 1, msbByte blk.count 4 2, msbByte blk.count 4 3] := by
    rw [List.map_congr_left fun k _ => byte k]
    rfl
  rw [modeReport, bytes, bigEndian_low]

/-- `S_EXEC` raises a request for the block of a READ. -/
def Accepted (s : Seq) (blk : BlkRsp) : Prop :=
  (s.stepExec blk).st = .rdwait ∧ (s.stepExec blk).blkStart = true

/-- `S_EXEC` ends a READ with LBA OUT OF RANGE. -/
def Refused (s : Seq) (blk : BlkRsp) : Prop :=
  (s.stepExec blk).st = .status ∧ (s.stepExec blk).status = stCheck ∧
    (s.stepExec blk).senseKey = skIllegalRequest ∧
    (s.stepExec blk).senseAsc = ascLbaOutOfRange

theorem outOfRange_eq (probes : Probes blk capacity mode read) :
    read.outOfRange blk.count =
      decide (blk.count.toNat < (read.cdbLba10.toNat + 1) % 2 ^ 32) := by
  have ten : read.cdbIsTen = true := by simp [Seq.cdbIsTen, probes.read_op]
  simp only [Seq.outOfRange, Seq.cmdBlocks, Seq.cmdLba, ten, probes.read_one, BitVec.lt_def]
  simp [BitVec.toNat_add, Nat.add_comm]

theorem accepted_iff (probes : Probes blk capacity mode read) :
    (Accepted read blk ↔ (read.cdbLba10.toNat + 1) % 2 ^ 32 ≤ blk.count.toNat) ∧
      (Refused read blk ↔ ¬ (read.cdbLba10.toNat + 1) % 2 ^ 32 ≤ blk.count.toNat) := by
  have isRead : read.cdbIsRead = true := by simp [Seq.cdbIsRead, probes.read_op]
  have range := outOfRange_eq probes
  by_cases inside : (read.cdbLba10.toNat + 1) % 2 ^ 32 ≤ blk.count.toNat
  · rw [decide_eq_false (Nat.not_lt.mpr inside)] at range
    have accepted : read.accepts blk = true := by
      simp [Seq.accepts, probes.read_lun, probes.ready, isRead, range]
    simp only [iff_true_right inside, iff_false_right (not_not_intro inside)]
    simp [Accepted, Refused, Seq.stepExec_read accepted isRead]
  · rw [decide_eq_true (Nat.lt_of_not_le inside)] at range
    obtain ⟨_, sameRead, _, _, _, sameRange⟩ := Seq.decode_congr (Seq.execDefaults_cdb read)
    have media : (read.execDefaults.cdbIsRead || read.execDefaults.cdbIsWrite) = true := by
      simp [sameRead, isRead]
    have next : read.stepExec blk = { read.execDefaults.checkCondition skIllegalRequest
        ascLbaOutOfRange with senseLba := read.execDefaults.cmdLba } := by
      unfold Seq.stepExec
      rw [if_neg (by simp [probes.read_lun]), Seq.execOp_media blk media]
      simp [Seq.execMedia, sameRead, isRead, probes.ready, sameRange, range]
    simp only [iff_false_right inside, iff_true_right inside]
    simp [Accepted, Refused, next, Seq.checkCondition]

end Reports

/-- The three views agree, address by address, exactly on a medium of fewer than 2^24 blocks and
below the last 32-bit address. -/
theorem sizes_agree_iff (p : Params) (blk : BlkRsp) (capacity mode read : Seq)
    (probes : Probes blk capacity mode read) :
    (modeReport p mode blk = capacityReport p capacity blk + 1 ∧
        (Accepted read blk ↔ read.cdbLba10.toNat ≤ capacityReport p capacity blk) ∧
        (Refused read blk ↔ ¬ read.cdbLba10.toNat ≤ capacityReport p capacity blk)) ↔
      blk.count.toNat < 2 ^ 24 ∧ read.cdbLba10 ≠ 0xffffffff := by
  have positive : blk.count.toNat ≠ 0 := fun zero => probes.some (BitVec.eq_of_toNat_eq zero)
  have small := blk.count.isLt
  have address := read.cdbLba10.isLt
  have top : read.cdbLba10 ≠ 0xffffffff ↔ read.cdbLba10.toNat ≠ 2 ^ 32 - 1 := by
    rw [not_iff_not, ← BitVec.toNat_inj]
    rfl
  obtain ⟨accepted, refused⟩ := accepted_iff probes
  rw [capacityReport_eq probes, modeReport_eq probes, accepted, refused, top]
  constructor
  · rintro ⟨count, inside, _⟩
    have low : blk.count.toNat < 2 ^ 24 := by omega
    refine ⟨low, fun last => ?_⟩
    rw [last] at inside
    omega
  · rintro ⟨low, below⟩
    have exact_ : (read.cdbLba10.toNat + 1) % 2 ^ 32 = read.cdbLba10.toNat + 1 := by omega
    rw [exact_]
    omega

/-- Commands that probe the size: READ CAPACITY, MODE SENSE for twelve bytes, and READ(10) of
one block at an address. -/
def probeCapacity : Seq :=
  { st := .exec, cdb := 0x25 }

def probeMode : Seq :=
  { st := .exec, cdb := 0x0c0000001a }

def probeRead (a b c d : Byte) : Seq :=
  { st := .exec,
    cdb := (0x01#8 ++ 0x00#8 ++ 0x00#8 ++ d ++ c ++ b ++ a ++ 0x00#8 ++ cRead10).setWidth 96 }

theorem probes_concrete (count : BitVec 32) (some : count ≠ 0) {read : Seq}
    (is : read = probeRead 0 0 0 5 ∨ read = probeRead 0xff 0xff 0xff 0xff) :
    Probes { ready := true, count := count } probeCapacity probeMode read := by
  rcases is with rfl | rfl <;>
    exact ⟨rfl, some, by decide, rfl, by decide, rfl, by decide, by decide, rfl, by decide⟩

/-- Block 5 of 2048. -/
theorem small_disk_agrees :
    modeReport {} probeMode { ready := true, count := 2048 } =
        capacityReport {} probeCapacity { ready := true, count := 2048 } + 1 ∧
      Accepted (probeRead 0 0 0 5) { ready := true, count := 2048 } := by
  have agrees := (sizes_agree_iff {} _ _ _ _
    (probes_concrete 2048 (by decide) (.inl rfl))).mpr ⟨by decide, by decide⟩
  exact ⟨agrees.1, agrees.2.1.mpr (by decide)⟩

/-- On a disk of 2048 blocks the last 32-bit address is accepted, and on one of 2^24 blocks
MODE SENSE reports none. -/
theorem sizes_disagree :
    (Accepted (probeRead 0xff 0xff 0xff 0xff) { ready := true, count := 2048 } ∧
      ¬ (probeRead 0xff 0xff 0xff 0xff).cdbLba10.toNat ≤
        capacityReport {} probeCapacity { ready := true, count := 2048 }) ∧
    modeReport {} probeMode { ready := true, count := 0x1000000 } ≠
      capacityReport {} probeCapacity { ready := true, count := 0x1000000 } + 1 := by
  refine ⟨⟨?_, ?_⟩, ?_⟩
  · unfold Accepted
    decide
  · decide
  · decide

end Wish5380.Targ
