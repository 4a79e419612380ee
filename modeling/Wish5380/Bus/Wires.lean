import Mathlib.Data.BitVec

/-!
# The internal SCSI bus and the block interface

The bundles that cross module boundaries unchanged (`wish5380_pkg.sv`), and the
wired-OR that joins the devices (`scsi_fabric.sv`).  Signals are active high, so
the open-collector bus is a plain OR of what each device drives.
-/

namespace Wish5380

abbrev Byte := BitVec 8

/-- `$clog2`: the bits it takes to count to `n`, zero not included. -/
def clog2 (n : ℕ) : ℕ :=
  if n ≤ 1 then 0 else (n - 1).log2 + 1

/-- A counter of `$clog2(n + 1)` bits holds `n` itself. -/
theorem mod_two_pow_clog2 (n : ℕ) : n % 2 ^ clog2 (n + 1) = n := by
  rcases Nat.eq_zero_or_pos n with rfl | pos
  · rfl
  · apply Nat.mod_eq_of_lt
    have bound := Nat.lt_log2_self (n := n)
    simpa [clog2, Nat.not_le.mpr pos, Nat.ne_of_gt pos] using bound

/-! Information transfer phases, in the Target Command Register's encoding. -/

abbrev phDataOut : BitVec 3 := 0b000
abbrev phDataIn : BitVec 3 := 0b001
abbrev phCommand : BitVec 3 := 0b010
abbrev phStatus : BitVec 3 := 0b011
abbrev phMsgOut : BitVec 3 := 0b110
abbrev phMsgIn : BitVec 3 := 0b111

/-- `scsi_t`: what one device drives, or what every device reads back. -/
structure Scsi where
  rst : Bool := false
  bsy : Bool := false
  sel : Bool := false
  req : Bool := false
  ack : Bool := false
  atn : Bool := false
  msg : Bool := false
  cd : Bool := false
  io : Bool := false
  data : Byte := 0
  dbp : Bool := false
  deriving DecidableEq, Repr

namespace Scsi

/-- The OR of a packed struct is the OR of its fields. -/
def or (a b : Scsi) : Scsi where
  rst := a.rst || b.rst
  bsy := a.bsy || b.bsy
  sel := a.sel || b.sel
  req := a.req || b.req
  ack := a.ack || b.ack
  atn := a.atn || b.atn
  msg := a.msg || b.msg
  cd := a.cd || b.cd
  io := a.io || b.io
  data := a.data ||| b.data
  dbp := a.dbp || b.dbp

/-- MSG, C/D and I/O from the top down: the Target Command Register's encoding. -/
def phase (bus : Scsi) : BitVec 3 :=
  BitVec.ofBool bus.msg ++ BitVec.ofBool bus.cd ++ BitVec.ofBool bus.io

theorem phase_io (bus : Scsi) : bus.phase.getLsbD 0 = bus.io := by
  rw [phase, BitVec.getLsbD_append]
  simp

end Scsi

/-- `scsi_fabric`: four ports, and everybody reads the OR of all of them. -/
def scsiFabric (a b c d : Scsi) : Scsi :=
  ((a.or b).or c).or d

/-- The reduction XOR `^d` of a byte. -/
def xorReduce (d : Byte) : Bool :=
  d.getLsbD 7 ^^ d.getLsbD 6 ^^ d.getLsbD 5 ^^ d.getLsbD 4 ^^
    d.getLsbD 3 ^^ d.getLsbD 2 ^^ d.getLsbD 1 ^^ d.getLsbD 0

/-- The parity bit a device generates beside a byte: `~(^d)`. -/
def dbpOf (d : Byte) : Bool :=
  !xorReduce d

/-- Data and parity bit together have an odd number of ones. -/
def OddParity (d : Byte) (dbp : Bool) : Prop :=
  (xorReduce d ^^ dbp) = true

instance (d : Byte) (dbp : Bool) : Decidable (OddParity d dbp) :=
  inferInstanceAs (Decidable (_ = _))

theorem oddParity_dbpOf (d : Byte) : OddParity d (dbpOf d) := by
  simp [OddParity, dbpOf]

/-- `blk_req_t`: what a target asks storage for. -/
structure BlkReq where
  start : Bool := false
  we : Bool := false
  lba : BitVec 32 := 0
  bufRdata : Byte := 0
  deriving DecidableEq, Repr

/-- `blk_rsp_t`: what the back end answers, and its port into the sector buffer. -/
structure BlkRsp where
  done : Bool := false
  err : Bool := false
  ready : Bool := false
  count : BitVec 32 := 0
  bufWe : Bool := false
  bufAddr : BitVec 9 := 0
  bufWdata : Byte := 0
  deriving DecidableEq, Repr

end Wish5380
