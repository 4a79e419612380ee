import Wish5380.Bus.Wires
import Mathlib.Tactic.Common

/-!
# The card back end

`sd_spi.sv`, which moves one byte each way, and `blk_sd.sv`, which runs a card with
it.  The sequencer acts only in the cycles in which the transceiver is idle: each of
its visits sends one byte at most, and the next one finds the answer in `rx`.
-/

namespace Wish5380.Sd

/-! ## The transceiver -/

/-- The registers of `sd_spi`. -/
structure Spi where
  cnt : ℕ := 0
  bitCnt : ℕ := 0
  shTx : Byte := 0xff
  shRx : Byte := 0
  run : Bool := false
  sclk : Bool := false
  done : Bool := false
  deriving DecidableEq, Repr

namespace Spi

/-- MOSI idles high. -/
def mosi (s : Spi) : Bool :=
  if s.run then s.shTx.getLsbD 7 else true

/-- `{sh[6:0], b}`. -/
def shift (sh : Byte) (b : Bool) : Byte :=
  (sh <<< 1) ||| (BitVec.ofBool b).setWidth 8

/-- One edge, with the RESET pin released. -/
def next (s : Spi) (div : ℕ) (go : Bool) (tx : Byte) (miso : Bool) : Spi :=
  if !s.run then
    let rest := { s with sclk := false, cnt := 0, done := false }
    if go then { rest with shTx := tx, bitCnt := 0, run := true } else rest
  else if s.cnt < div then { s with cnt := (s.cnt + 1) % 2 ^ 16, done := false }
  else if !s.sclk then
    { s with cnt := 0, sclk := true, shRx := shift s.shRx miso, done := false }
  else
    let moved := { s with cnt := 0, sclk := false, shTx := shift s.shTx true }
    if s.bitCnt = 7 then { moved with run := false, done := true }
    else { moved with bitCnt := (s.bitCnt + 1) % 2 ^ 3, done := false }

end Spi

/-! ## Parameters and checks -/

/-- `CLK_PERIOD_PS`. -/
structure Params where
  clkPeriodPs : ℕ := 20000
  deriving DecidableEq, Repr

namespace Params

/-- `DIV_SLOW`: half a period of 400 kHz in clocks, less one. -/
def divSlow (p : Params) : ℕ :=
  ((1250000 + p.clkPeriodPs - 1) / p.clkPeriodPs - 1) % 2 ^ 16

/-- `DIV_FAST`: the same of 25 MHz. -/
def divFast (p : Params) : ℕ :=
  ((20000 + p.clkPeriodPs - 1) / p.clkPeriodPs - 1) % 2 ^ 16

/-- `TICKS_PER_MS - 32'd1`. -/
def lastTick (p : Params) : ℕ :=
  (1000000000 / p.clkPeriodPs + (2 ^ 32 - 1)) % 2 ^ 32

end Params

def crc16Bit (r : BitVec 16) (d : Bool) : BitVec 16 :=
  if r.getLsbD 15 ^^ d then (r <<< 1) ^^^ 0x1021 else r <<< 1

/-- `crc16_byte`. -/
def crc16Byte (c : BitVec 16) (d : Byte) : BitVec 16 :=
  (List.range 8).foldl (fun r i => crc16Bit r (d.getLsbD (7 - i))) c

def crc7Bit (r : BitVec 7) (d : Bool) : BitVec 7 :=
  if r.getLsbD 6 ^^ d then (r <<< 1) ^^^ 0x09 else r <<< 1

/-- `crc7_byte`. -/
def crc7Byte (c : BitVec 7) (d : Byte) : BitVec 7 :=
  (List.range 8).foldl (fun r i => crc7Bit r (d.getLsbD (7 - i))) c

/-! ## The sequencer -/

/-- `st`.  The last three are the command helper. -/
inductive St where
  | power | dummy | cmd0 | cmd0R | cmd8 | cmd8R | cmd55 | cmd55R | acmd41 | acmd41R
  | cmd58 | cmd58R | cmd16 | cmd16R | cmd9 | cmd9R | csdTok | csdDat | csdCrc
  | ready
  | rdCmd | rdCmdR | rdTok | rdDat | rdCrc
  | wrCmd | wrCmdR | wrPre | wrTok | wrDat | wrCrc | wrResp | wrBusy
  | finish | dead
  | cSend | cR1 | cExtra
  deriving DecidableEq, Repr

/-- The registers of `blk_sd`. -/
structure Blk where
  st : St := .power
  ret : St := .power
  div : ℕ
  cs : Bool := false
  go : Bool := false
  tx : Byte := 0xff
  cmdIdx : BitVec 6 := 0
  cmdArg : BitVec 32 := 0
  cmdExtra : Bool := false
  r1 : Byte := 0xff
  rExtra : BitVec 32 := 0
  bcnt : ℕ := 0
  crc16 : BitVec 16 := 0
  csd : BitVec 128 := 0
  v2 : Bool := false
  ccs : Bool := false
  cardReady : Bool := false
  done : Bool := false
  err : Bool := false
  bufWe : Bool := false
  bufAddr : BitVec 9 := 0
  bufWdata : Byte := 0
  tickCnt : ℕ := 0
  ms : ℕ := 0
  msPulse : Bool := false
  deriving DecidableEq, Repr

namespace Blk

def reset (p : Params) : Blk where
  div := p.divSlow

/-! ### Capacity -/

/-- `blocks`, from the CSD of either version. -/
def blocks (b : Blk) : BitVec 32 :=
  if b.csd.extractLsb' 126 2 = 0b01 then ((b.csd.extractLsb' 48 22).setWidth 32 + 1) <<< 10
  else ((b.csd.extractLsb' 62 12).setWidth 32 + 1) <<<
    ((b.csd.extractLsb' 47 3).setWidth 32 + 2 + (b.csd.extractLsb' 80 4).setWidth 32 - 9 :
      BitVec 32)

/-- `blk_o`. -/
def rsp (b : Blk) : BlkRsp where
  done := b.done
  err := b.err
  ready := b.cardReady
  count := if b.cardReady then b.blocks else 0
  bufWe := b.bufWe
  bufAddr := b.bufAddr
  bufWdata := b.bufWdata

/-! ### The command frame -/

def cmdCrc7 (b : Blk) : BitVec 7 :=
  [(0b01#2 ++ b.cmdIdx : Byte), b.cmdArg.extractLsb' 24 8, b.cmdArg.extractLsb' 16 8,
    b.cmdArg.extractLsb' 8 8, b.cmdArg.extractLsb' 0 8].foldl crc7Byte 0

/-- `cmd_byte`: a gap, the command, its argument and its check. -/
def cmdByte (b : Blk) : Byte :=
  match b.bcnt % 8 with
  | 0 => 0xff
  | 1 => 0b01#2 ++ b.cmdIdx
  | 2 => b.cmdArg.extractLsb' 24 8
  | 3 => b.cmdArg.extractLsb' 16 8
  | 4 => b.cmdArg.extractLsb' 8 8
  | 5 => b.cmdArg.extractLsb' 0 8
  | _ => b.cmdCrc7 ++ 1#1

/-! ### The arms of the case statement

Each takes the registers after the assignments that every edge makes, and with them
`ms` as it was before. -/

/-- Have a byte sent. -/
def send (b : Blk) (v : Byte) : Blk :=
  { b with tx := v, go := true }

/-- Into the command helper, which comes back at `ret`. -/
def command (b : Blk) (idx : BitVec 6) (arg : BitVec 32) (extra : Bool) (ret : St) : Blk :=
  { b with cmdIdx := idx, cmdArg := arg, cmdExtra := extra, bcnt := 0, ret := ret, st := .cSend }

/-- One more byte of whatever is being moved. -/
def count (b : Blk) : Blk :=
  { b with bcnt := (b.bcnt + 1) % 2 ^ 10 }

def fail (b : Blk) : Blk :=
  { b with err := true, st := .finish }

def stepPower (b : Blk) (ms : ℕ) : Blk :=
  if 2 ≤ ms then { b with cs := false, ms := 0, bcnt := 0, st := .dummy } else { b with cs := false }

def stepDummy (b : Blk) : Blk :=
  if b.bcnt = 10 then { b with cs := true, ms := 0, st := .cmd0 } else b.count.send 0xff

def stepCmd0R (b : Blk) (ms : ℕ) : Blk :=
  if b.r1 = 0x01 then { b with ms := 0, st := .cmd8 }
  else if 500 ≤ ms then { b with st := .dead }
  else { b with st := .cmd0 }

def stepCmd8R (b : Blk) : Blk :=
  let c := { b with ms := 0 }
  if b.r1.getLsbD 2 then { c with v2 := false, st := .cmd55 }
  else if b.rExtra.extractLsb' 0 12 = 0x1aa then { c with v2 := true, st := .cmd55 }
  else { c with st := .dead }

def stepAcmd41R (b : Blk) (ms : ℕ) : Blk :=
  if b.r1 = 0x00 then { b with ms := 0, st := if b.v2 then .cmd58 else .cmd16 }
  else if 1000 ≤ ms then { b with st := .dead }
  else { b with st := .cmd55 }

def stepCmd58R (b : Blk) : Blk :=
  { b with ccs := b.rExtra.getLsbD 30, st := if b.rExtra.getLsbD 30 then .cmd9 else .cmd16 }

def stepCmd9R (b : Blk) : Blk :=
  { b with ms := 0, st := if b.r1 = 0x00 then .csdTok else .dead }.send 0xff

def stepCsdTok (b : Blk) (rx : Byte) (ms : ℕ) : Blk :=
  let c := b.send 0xff
  if rx = 0xfe then { c with bcnt := 0, st := .csdDat }
  else if rx.extractLsb' 4 4 = 0 then { c with st := .dead }
  else if 200 ≤ ms then { c with st := .dead }
  else c

def stepCsdDat (b : Blk) (rx : Byte) : Blk :=
  let c := { b with csd := b.csd.extractLsb' 0 120 ++ rx }.send 0xff
  if b.bcnt = 15 then { c with bcnt := 0, st := .csdCrc } else c.count

def stepCsdCrc (p : Params) (b : Blk) : Blk :=
  if b.bcnt = 1 then { b.count with cardReady := true, div := p.divFast, st := .ready }
  else b.count.send 0xff

def stepReady (b : Blk) (req : BlkReq) : Blk :=
  let c := { b with err := false }
  if req.start then
    { c with cmdArg := if b.ccs then req.lba else req.lba <<< 9, ms := 0,
             st := if req.we then .wrCmd else .rdCmd }
  else c

def stepRdCmdR (b : Blk) : Blk :=
  let c := { b with ms := 0 }.send 0xff
  if b.r1 ≠ 0x00 then c.fail else { c with st := .rdTok }

def stepRdTok (b : Blk) (rx : Byte) (ms : ℕ) : Blk :=
  if rx = 0xfe then { b with bcnt := 0, crc16 := 0, bufAddr := 0, st := .rdDat }.send 0xff
  else if rx.extractLsb' 4 4 = 0 then b.fail
  else if 200 ≤ ms then b.fail
  else b.send 0xff

def stepRdDat (b : Blk) (rx : Byte) : Blk :=
  let c := { b with
    bufAddr := BitVec.ofNat 9 b.bcnt
    bufWdata := rx
    bufWe := true
    crc16 := crc16Byte b.crc16 rx }.send 0xff
  if b.bcnt = 511 then { c with bcnt := 0, st := .rdCrc } else c.count

def stepRdCrc (b : Blk) (rx : Byte) : Blk :=
  let c := { b with crc16 := crc16Byte b.crc16 rx }.count
  if b.bcnt = 1 then
    if crc16Byte b.crc16 rx ≠ 0 then c.fail else { c with st := .finish }
  else c.send 0xff

def stepWrCmdR (b : Blk) : Blk :=
  if b.r1 ≠ 0x00 then b.fail else { b with bufAddr := 0, st := .wrPre }.send 0xff

def stepWrPre (b : Blk) : Blk :=
  { b with bcnt := 0, crc16 := 0, st := .wrTok }.send 0xfe

def stepWrTok (b : Blk) (req : BlkReq) : Blk :=
  { b with crc16 := crc16Byte b.crc16 req.bufRdata, bufAddr := 1, st := .wrDat }.send req.bufRdata

/-- The token carried byte zero out with it, so the last visit is at 510. -/
def stepWrDat (b : Blk) (req : BlkReq) : Blk :=
  let c := { b with
    crc16 := crc16Byte b.crc16 req.bufRdata
    bufAddr := b.bufAddr + 1 }.send req.bufRdata
  if b.bcnt = 510 then { c with bcnt := 0, st := .wrCrc } else c.count

def stepWrCrc (b : Blk) : Blk :=
  if b.bcnt = 0 then b.count.send (b.crc16.extractLsb' 8 8)
  else { b.count with st := .wrResp, ms := 0 }.send (b.crc16.extractLsb' 0 8)

def stepWrResp (b : Blk) (rx : Byte) (ms : ℕ) : Blk :=
  let c := b.send 0xff
  if rx &&& 0x11 = 0x01 then
    { c with err := if rx &&& 0x0e ≠ 0x04 then true else b.err, ms := 0, st := .wrBusy }
  else if 200 ≤ ms then c.fail
  else c

def stepWrBusy (b : Blk) (rx : Byte) (ms : ℕ) : Blk :=
  if rx ≠ 0x00 then { b with st := .finish }
  else if 500 ≤ ms then b.fail
  else b.send 0xff

def stepDead (b : Blk) (req : BlkReq) : Blk :=
  let c := { b with cardReady := false }
  if req.start then { c with err := true, done := true } else c

/-- The gap goes out deselected, the command selected. -/
def stepCSend (b : Blk) : Blk :=
  let c := { b with cs := decide (b.bcnt ≠ 0) }.send b.cmdByte
  if b.bcnt = 6 then { c with bcnt := 0, st := .cR1 } else c.count

def stepCR1 (b : Blk) (rx : Byte) : Blk :=
  if !rx.getLsbD 7 then
    let c := { b with r1 := rx, bcnt := 0 }
    if b.cmdExtra then { c with st := .cExtra }.send 0xff else { c with st := b.ret }
  else if 63 ≤ b.bcnt then { b with r1 := 0xff, st := b.ret }
  else b.count.send 0xff

def stepCExtra (b : Blk) (rx : Byte) : Blk :=
  let c := { b with rExtra := b.rExtra.extractLsb' 0 24 ++ rx }.count
  if b.bcnt = 3 then { c with st := b.ret } else c.send 0xff

/-- The case statement on `st`. -/
def step (p : Params) (b : Blk) (req : BlkReq) (rx : Byte) (ms : ℕ) : Blk :=
  match b.st with
  | .power => b.stepPower ms
  | .dummy => b.stepDummy
  | .cmd0 => b.command 0 0 false .cmd0R
  | .cmd0R => b.stepCmd0R ms
  | .cmd8 => b.command 8 0x000001aa true .cmd8R
  | .cmd8R => b.stepCmd8R
  | .cmd55 => b.command 55 0 false .cmd55R
  | .cmd55R => { b with st := .acmd41 }
  | .acmd41 => b.command 41 (if b.v2 then 0x40000000 else 0) false .acmd41R
  | .acmd41R => b.stepAcmd41R ms
  | .cmd58 => b.command 58 0 true .cmd58R
  | .cmd58R => b.stepCmd58R
  | .cmd16 => b.command 16 512 false .cmd16R
  | .cmd16R => { b with st := if b.r1 = 0x00 then .cmd9 else .dead }
  | .cmd9 => b.command 9 0 false .cmd9R
  | .cmd9R => b.stepCmd9R
  | .csdTok => b.stepCsdTok rx ms
  | .csdDat => b.stepCsdDat rx
  | .csdCrc => b.stepCsdCrc p
  | .ready => b.stepReady req
  | .rdCmd => b.command 17 b.cmdArg false .rdCmdR
  | .rdCmdR => b.stepRdCmdR
  | .rdTok => b.stepRdTok rx ms
  | .rdDat => b.stepRdDat rx
  | .rdCrc => b.stepRdCrc rx
  | .wrCmd => b.command 24 b.cmdArg false .wrCmdR
  | .wrCmdR => b.stepWrCmdR
  | .wrPre => b.stepWrPre
  | .wrTok => b.stepWrTok req
  | .wrDat => b.stepWrDat req
  | .wrCrc => b.stepWrCrc
  | .wrResp => b.stepWrResp rx ms
  | .wrBusy => b.stepWrBusy rx ms
  | .finish => { b with done := true, st := .ready }
  | .dead => b.stepDead req
  | .cSend => b.stepCSend
  | .cR1 => b.stepCR1 rx
  | .cExtra => b.stepCExtra rx

/-- What every edge does first: end the pulses, and count the milliseconds. -/
def tickMs (p : Params) (b : Blk) : Blk :=
  { b with
    go := false
    bufWe := false
    done := false
    tickCnt := if p.lastTick ≤ b.tickCnt then 0 else (b.tickCnt + 1) % 2 ^ 32
    msPulse := decide (p.lastTick ≤ b.tickCnt)
    ms := if b.msPulse then (b.ms + 1) % 2 ^ 16 else b.ms }

/-- `spi_idle`. -/
def spiIdle (b : Blk) (s : Spi) : Bool :=
  !b.go && !s.run && !s.done

/-- One edge, with the RESET pin released. -/
def next (p : Params) (b : Blk) (s : Spi) (req : BlkReq) : Blk :=
  if b.spiIdle s then (b.tickMs p).step p req s.shRx b.ms else b.tickMs p

end Blk

end Wish5380.Sd
