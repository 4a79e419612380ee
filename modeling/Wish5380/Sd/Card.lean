import Wish5380.Sd.Model

/-!
# The card

`SdCard` of `sd_card.cpp`: a card in SPI mode, in software.  It looks at the pins once a
cycle, finds the edges of the card clock itself, and acts on whole bytes.
-/

namespace Wish5380.Sd

/-! ## Its checks -/

/-- One bit of `sd_crc7`. -/
def sdCrc7Bit (crc : Byte) (d : Bool) : Byte :=
  let next := (crc <<< 1) &&& 0x7f
  if d ^^ crc.getLsbD 6 then next ^^^ 0x09 else next

def sdCrc7 (data : List Byte) : Byte :=
  data.foldl (fun crc d => (List.range 8).foldl (fun r i => sdCrc7Bit r (d.getLsbD (7 - i))) crc) 0

/-- One bit of `sd_crc16`. -/
def sdCrc16Bit (crc : BitVec 16) (d : Bool) : BitVec 16 :=
  if d ^^ crc.getLsbD 15 then (crc <<< 1) ^^^ 0x1021 else crc <<< 1

def sdCrc16 (data : List Byte) : BitVec 16 :=
  data.foldl (fun crc d => (List.range 8).foldl (fun r i => sdCrc16Bit r (d.getLsbD (7 - i))) crc) 0

/-! ## Its state -/

/-- `M`. -/
inductive Mode where
  | cmd | wrToken | wrData | wrBusy
  deriving DecidableEq, Repr

/-- What to pretend: the block whose read is refused, the one whose read has a wrong check,
and the one whose write is refused. -/
structure Faults where
  failRead : Option (BitVec 32) := none
  corruptRead : Option (BitVec 32) := none
  failWrite : Option (BitVec 32) := none
  deriving DecidableEq, Repr

/-- The card behind its shift register.  `media` is by byte. -/
structure Card where
  media : ℕ → Byte := fun _ => 0
  blocks : BitVec 32
  hc : Bool := true
  ncr : ℕ := 2
  busyBytes : ℕ := 4
  tx : List Byte := []
  mode : Mode := .cmd
  cmd : List Byte := []
  acmd : Bool := false
  idle : Bool := true
  acmd41Left : ℕ := 3
  wrLba : BitVec 32 := 0
  wrGot : ℕ := 0
  wrBuf : List Byte := []

namespace Card

/-- `read_block`. -/
def readBlock (c : Card) (lba : BitVec 32) : List Byte :=
  if c.blocks ≤ lba then [] else (List.range 512).map fun i => c.media (lba.toNat * 512 + i)

/-- The `memcpy` of a block into the medium. -/
def writeMedia (c : Card) (lba : BitVec 32) (data : List Byte) : Card :=
  { c with media := fun n =>
      if lba.toNat * 512 ≤ n ∧ n < lba.toNat * 512 + 512 then data.getD (n - lba.toNat * 512) 0
      else c.media n }

/-- The first fifteen bytes of `csd`. -/
def csdFields (c : Card) : List Byte :=
  if c.hc then
    let cSize := c.blocks / 1024 - 1
    [0x40, 0x0e, 0x00, 0x32, 0x5b, 0x59, 0x00, ((cSize >>> 16) &&& 0x3f).setWidth 8,
      (cSize >>> 8).setWidth 8, cSize.setWidth 8, 0x7f, 0x80, 0x0a, 0x40, 0x00]
  else
    let cSize := c.blocks / 512 - 1
    [0x00, 0x26, 0x00, 0x32, 0x5b, 0x59, 0x80 ||| ((cSize >>> 10) &&& 0x03).setWidth 8,
      (cSize >>> 2).setWidth 8, ((cSize &&& 0x03) <<< 6).setWidth 8 ||| 0x3f, 0x7f, 0xff, 0x80, 0x0a,
      0x40, 0x00]

def csd (c : Card) : List Byte :=
  c.csdFields ++ [(sdCrc7 c.csdFields <<< 1) ||| 1]

def push (c : Card) (bytes : List Byte) : Card :=
  { c with tx := c.tx ++ bytes }

/-- `push_r1`. -/
def pushR1 (c : Card) (r1 : Byte) : Card :=
  c.push (List.replicate c.ncr 0xff ++ [r1])

/-- A start token, the data and its check, after a while. -/
def packet (data : List Byte) (check : BitVec 16) : List Byte :=
  [0xff, 0xff, 0xfe] ++ data ++ [check.extractLsb' 8 8, check.extractLsb' 0 8]

/-- `push_block`. -/
def pushBlock (c : Card) (data : List Byte) (badCrc : Bool) : Card :=
  c.push (packet data (if badCrc then sdCrc16 data ^^^ 1 else sdCrc16 data))

/-- The block a command means. -/
def lbaOf (c : Card) (arg : BitVec 32) : BitVec 32 :=
  if c.hc then arg else arg >>> 9

/-- CMD17. -/
def readSingleBlock (f : Faults) (c : Card) (arg : BitVec 32) : Card :=
  let lba := c.lbaOf arg
  if c.blocks ≤ lba then c.pushR1 0x40
  else if f.failRead = some lba then (c.pushR1 0x00).push [0xff, 0xff, 0x08]
  else (c.pushR1 0x00).pushBlock (c.readBlock lba) (decide (f.corruptRead = some lba))

/-- CMD24. -/
def writeBlock (c : Card) (arg : BitVec 32) : Card :=
  let lba := c.lbaOf arg
  if c.blocks ≤ lba then c.pushR1 0x40 else { c.pushR1 0x00 with wrLba := lba, mode := .wrToken }

/-- ACMD41. -/
def sendOpCond (c : Card) : Card :=
  if 0 < c.acmd41Left then { c with acmd41Left := c.acmd41Left - 1 }.pushR1 0x01
  else { c with idle := false }.pushR1 0x00

/-- CMD8.  A card of version 1 has never heard of it. -/
def sendIfCond (c : Card) (arg : BitVec 32) : Card :=
  if c.hc then
    (c.pushR1 0x01).push [0x00, 0x00, ((arg >>> 8) &&& 0x0f).setWidth 8, arg.setWidth 8]
  else c.pushR1 0x05

/-- The switch on the command, `c` as it is after the frame has been taken. -/
def execute (f : Faults) (c : Card) (wasAcmd : Bool) (idx : BitVec 6) (arg : BitVec 32) : Card :=
  let illegal := c.pushR1 (if c.idle then 0x05 else 0x04)
  if wasAcmd then (if idx = 41 then c.sendOpCond else illegal)
  else match idx.toNat with
    | 0 => { c with idle := true, acmd41Left := 3 }.pushR1 0x01
    | 8 => c.sendIfCond arg
    | 55 => { c with acmd := true }.pushR1 (if c.idle then 0x01 else 0x00)
    | 58 => (c.pushR1 (if c.idle then 0x01 else 0x00)).push
        [if c.hc then 0xc0 else 0x80, 0xff, 0x80, 0x00]
    | 16 => c.pushR1 (if arg = 512 then 0x00 else 0x40)
    | 9 => (c.pushR1 0x00).push (packet c.csd (sdCrc16 c.csd))
    | 17 => c.readSingleBlock f arg
    | 24 => c.writeBlock arg
    | _ => illegal

/-- A whole frame of six bytes. -/
def frame (f : Faults) (c : Card) (bytes : List Byte) : Card :=
  let d := { c with cmd := [], acmd := false }
  match bytes with
  | [b0, b1, b2, b3, b4, b5] =>
    if b5 ≠ ((sdCrc7 [b0, b1, b2, b3, b4] <<< 1) ||| 1) then
      d.pushR1 (if c.idle then 0x09 else 0x08)
    else d.execute f c.acmd (b0.setWidth 6) (b1 ++ b2 ++ b3 ++ b4)
  | _ => d

/-- The end of a block written. -/
def endBlock (f : Faults) (c : Card) : Card :=
  let bad := f.failWrite = some c.wrLba
  let d := { c with mode := .cmd }.push
    ((if bad then 0x0d else 0x05) :: List.replicate c.busyBytes 0x00 ++ [0xff])
  if ¬ bad ∧ c.wrLba < c.blocks then d.writeMedia c.wrLba c.wrBuf else d

/-- `on_byte`. -/
def onByte (f : Faults) (c : Card) (rx : Byte) : Card :=
  match c.mode with
  | .wrToken =>
    if rx = 0xfe then { c with mode := .wrData, wrGot := 0, wrBuf := List.replicate 512 0 } else c
  | .wrData =>
    let d := { c with
      wrBuf := if c.wrGot < 512 then c.wrBuf.set c.wrGot rx else c.wrBuf
      wrGot := c.wrGot + 1 }
    if c.wrGot + 1 = 514 then d.endBlock f else d
  | .wrBusy => { c with mode := .cmd }
  | .cmd =>
    if c.cmd = [] ∧ rx &&& 0xc0 ≠ 0x40 then c
    else if (c.cmd ++ [rx]).length < 6 then { c with cmd := c.cmd ++ [rx] }
    else c.frame f (c.cmd ++ [rx])

end Card

/-! ## Its pins -/

/-- `SdCard`: the shift register, and whether there is a card at all. -/
structure SdCard where
  card : Card
  present : Bool := true
  prevClk : Bool := false
  bit : ℕ := 0
  shRx : Byte := 0
  curTx : Byte := 0xff

namespace SdCard

/-- `tick`, and what it drives MISO with. -/
def tick (f : Faults) (s : SdCard) (sclk csN mosi : Bool) : SdCard × Bool :=
  if !s.present then (s, true)
  else if csN then ({ s with bit := 0, prevClk := sclk }, true)
  else
    let moved :=
      if sclk && !s.prevClk then { s with shRx := Spi.shift s.shRx mosi, bit := s.bit + 1 }
      else if !sclk && s.prevClk then
        if 8 ≤ s.bit then
          let c := s.card.onByte f s.shRx
          { s with
            bit := 0
            curTx := c.tx.headD 0xff
            card := { c with tx := c.tx.tail } }
        else { s with curTx := s.curTx <<< 1 }
      else s
    ({ moved with prevClk := sclk }, moved.curTx.getLsbD 7)

end SdCard

end Wish5380.Sd
