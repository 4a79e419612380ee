import Wish5380.Chip.Model
import Wish5380.Clocked.Run

/-!
# The Wishbone bridge

`wb_5380.sv`: a Wishbone slave in front of the chip's register port, with a window of
registers and two of pseudo-DMA, one of which waits for DRQ.
-/

namespace Wish5380.Wb

/-- The module's parameters, with the source's defaults. -/
structure Params where
  clkPeriodPs : ℕ := 20000
  regStride : ℕ := 16
  regBase : ℕ := 0x000
  hskBase : ℕ := 0x100
  dmaBase : ℕ := 0x200
  pdmaSize : ℕ := 0x100
  drqTimeoutNs : ℕ := 16000
  deriving DecidableEq, Repr

namespace Params

def regShift (p : Params) : ℕ :=
  clog2 p.regStride

def regSpan (p : Params) : ℕ :=
  8 * p.regStride

/-- `T_DRQ`: the timeout in clocks, rounded up. -/
def tDrq (p : Params) : ℕ :=
  (p.drqTimeoutNs * 1000 + p.clkPeriodPs - 1) / p.clkPeriodPs

def tcntW (p : Params) : ℕ :=
  clog2 (p.tDrq + 1)

/-- `N_DRQ`, the timeout as the counter holds it. -/
def nDrq (p : Params) : ℕ :=
  p.tDrq % 2 ^ p.tcntW

def aReg (p : Params) : BitVec 12 :=
  BitVec.ofNat 12 p.regBase

def aHsk (p : Params) : BitVec 12 :=
  BitVec.ofNat 12 p.hskBase

def aDma (p : Params) : BitVec 12 :=
  BitVec.ofNat 12 p.dmaBase

def mReg (p : Params) : BitVec 12 :=
  BitVec.ofNat 12 (p.regSpan - 1)

def mPdma (p : Params) : BitVec 12 :=
  BitVec.ofNat 12 (p.pdmaSize - 1)

def strideMask (p : Params) : BitVec 12 :=
  BitVec.ofNat 12 (p.regStride - 1)

end Params

/-- `wb_req_t`: what the master drives. -/
structure Req where
  cyc : Bool := false
  stb : Bool := false
  we : Bool := false
  sel : BitVec 4 := 0
  adr : BitVec 30 := 0
  dat : BitVec 32 := 0
  deriving DecidableEq, Repr

/-- Byte `lane` of a word. -/
def laneByte (w : BitVec 32) (lane : BitVec 2) : Byte :=
  w.extractLsb' (8 * lane.toNat) 8

/-- The word with byte `lane` replaced. -/
def setLane (w : BitVec 32) (lane : BitVec 2) (d : Byte) : BitVec 32 :=
  (w &&& ~~~(0xff#32 <<< (8 * lane.toNat))) ||| (d.setWidth 32 <<< (8 * lane.toNat))

/-- The lowest lane of a set, or the last. -/
def lowestLane (sel : BitVec 4) : BitVec 2 :=
  if sel.getLsbD 0 then 0
  else if sel.getLsbD 1 then 1
  else if sel.getLsbD 2 then 2
  else 3

/-! ## Decode -/

namespace Req

/-- A request is up. -/
def active (r : Req) : Bool :=
  r.cyc && r.stb

/-- `badr`: the byte address of lane zero. -/
def badr (r : Req) : BitVec 12 :=
  r.adr.extractLsb' 0 10 ++ 0#2

def inRange (r : Req) : Bool :=
  r.adr.extractLsb' 10 20 == 0

def anyLane (r : Req) : Bool :=
  r.sel != 0

def firstLane (r : Req) : BitVec 2 :=
  lowestLane r.sel

def oneLane (r : Req) : Bool :=
  r.sel == 0b0001 || r.sel == 0b0010 || r.sel == 0b0100 || r.sel == 0b1000

section Windows

variable (p : Params) (r : Req)

def inReg : Bool :=
  r.inRange && (r.badr &&& ~~~p.mReg) == p.aReg

def inHsk : Bool :=
  r.inRange && (r.badr &&& ~~~p.mPdma) == p.aHsk

def inDma : Bool :=
  r.inRange && (r.badr &&& ~~~p.mPdma) == p.aDma

def regOff : BitVec 12 :=
  r.badr + r.firstLane.setWidth 12 - p.aReg

def regAligned : Bool :=
  (r.regOff p &&& p.strideMask) == 0

def regIdx : BitVec 3 :=
  (r.regOff p).extractLsb' p.regShift 3

def regOk : Bool :=
  r.oneLane && r.regAligned p

end Windows

end Req

/-! ## The cycle -/

/-- `st`.  `fin` is `S_END`, which the unused encoding shares its arm with. -/
inductive St where
  | idle | reg | wait | xfer | ack | err | fin
  deriving DecidableEq, Repr

structure State where
  st : St := .idle
  lane : BitVec 2 := 0
  hsk : Bool := false
  rdata : BitVec 32 := 0
  tcnt : ℕ := 0
  wbAck : Bool := false
  wbErr : Bool := false
  deriving DecidableEq, Repr

/-- The lanes still to serve after `lane`. -/
def left (sel : BitVec 4) (lane : BitVec 2) : BitVec 4 :=
  sel &&& ~~~((1#4 <<< lane.toNat) ||| ((1#4 <<< lane.toNat) - 1))

/-- What the bridge sees in a cycle: the master, the byte the port returns, and DRQ. -/
structure Input where
  req : Req := {}
  dat : Byte := 0
  drq : Bool := false

namespace State

/-- The microprocessor port. -/
def port (p : Params) (s : State) (r : Req) : Chip.Port where
  stb := s.st == .reg || s.st == .xfer
  we := r.we
  dack := s.st == .xfer
  adr := if s.st = .xfer then 0 else r.regIdx p
  dat := laneByte r.dat s.lane

def stepIdle (p : Params) (s : State) (r : Req) : State :=
  if r.active then
    let t := { s with rdata := 0, lane := r.firstLane, tcnt := 0 }
    if !r.anyLane then { t with st := .ack }
    else if r.inReg p then { t with st := if r.regOk p then .reg else .err }
    else if r.inHsk p || r.inDma p then { t with hsk := r.inHsk p, st := .wait }
    else { t with st := .err }
  else s

def stepWait (p : Params) (s : State) (drq : Bool) : State :=
  if !s.hsk || drq then { s with st := .xfer }
  else if s.tcnt = p.nDrq then { s with st := .err }
  else { s with tcnt := (s.tcnt + 1) % 2 ^ p.tcntW }

def stepXfer (s : State) (r : Req) (dat : Byte) : State :=
  let t := { s with rdata := setLane s.rdata s.lane dat }
  if left r.sel s.lane ≠ 0 then
    { t with lane := lowestLane (left r.sel s.lane), tcnt := 0, st := .wait }
  else { t with st := .ack }

/-- One edge, with the RESET pin released. -/
def next (p : Params) (s : State) (i : Input) : State :=
  let t := { s with wbAck := false, wbErr := false }
  match s.st with
  | .idle => t.stepIdle p i.req
  | .reg => { t with rdata := setLane s.rdata s.lane i.dat, st := .ack }
  | .wait => t.stepWait p i.drq
  | .xfer => t.stepXfer i.req i.dat
  | .ack => { t with wbAck := true, st := .fin }
  | .err => { t with wbErr := true, st := .fin }
  | .fin => if !i.req.active then { t with st := .idle } else t

end State

/-- A run of the bridge from RESET. -/
def run (p : Params) (input : ℕ → Input) : ℕ → State :=
  Clocked.run (State.next p) {} input

theorem run_succ (p : Params) (input : ℕ → Input) (t : ℕ) :
    run p input (t + 1) = (run p input t).next p (input t) :=
  rfl

end Wish5380.Wb
