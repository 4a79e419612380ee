import Wish5380.Bus.Wires
import Wish5380.Clocked.Run

/-!
# The SCSI target

`scsi_targ.sv`: the disk on the other end of the fabric.  The sequencer never
reads the sector buffer, so its registers and the buffer are two records that
step side by side.
-/

namespace Wish5380.Targ

/-- The module's parameters, with the source's defaults. -/
structure Params where
  clkPeriodPs : ℕ := 20000
  targetId : ℕ := 0
  vendor : BitVec 64 := 0x444f4c4245415520#64
  product : BitVec 128 := 0x57495348353338302053442043415244#128
  revision : BitVec 32 := 0x30303031#32
  deriving DecidableEq, Repr

namespace Params

/-- `T_SETTLE`: 400 ns in clocks, rounded up. -/
def tSettle (p : Params) : ℕ :=
  (400000 + p.clkPeriodPs - 1) / p.clkPeriodPs

/-- `SCNT_W`, the width of the settle counter. -/
def scntW (p : Params) : ℕ :=
  clog2 (p.tSettle + 1)

/-- `N_SETTLE`, the delay as the counter holds it. -/
def nSettle (p : Params) : ℕ :=
  p.tSettle % 2 ^ p.scntW

def idMask (p : Params) : Byte :=
  BitVec.ofNat 8 (1 <<< p.targetId)

end Params

/-! ## Opcodes, statuses, sense codes and messages -/

abbrev cTestUnitReady : Byte := 0x00
abbrev cRezero : Byte := 0x01
abbrev cRequestSense : Byte := 0x03
abbrev cFormatUnit : Byte := 0x04
abbrev cRead6 : Byte := 0x08
abbrev cWrite6 : Byte := 0x0a
abbrev cSeek6 : Byte := 0x0b
abbrev cInquiry : Byte := 0x12
abbrev cModeSelect6 : Byte := 0x15
abbrev cReserve : Byte := 0x16
abbrev cRelease : Byte := 0x17
abbrev cModeSense6 : Byte := 0x1a
abbrev cStartStop : Byte := 0x1b
abbrev cSendDiagnostic : Byte := 0x1d
abbrev cPreventAllow : Byte := 0x1e
abbrev cReadCapacity : Byte := 0x25
abbrev cRead10 : Byte := 0x28
abbrev cWrite10 : Byte := 0x2a
abbrev cSeek10 : Byte := 0x2b
abbrev cVerify10 : Byte := 0x2f

abbrev stGood : Byte := 0x00
abbrev stCheck : Byte := 0x02

abbrev skNoSense : BitVec 4 := 0x0
abbrev skNotReady : BitVec 4 := 0x2
abbrev skMediumError : BitVec 4 := 0x3
abbrev skIllegalRequest : BitVec 4 := 0x5

abbrev ascUnrecoveredRead : Byte := 0x11
abbrev ascInvalidCommand : Byte := 0x20
abbrev ascLbaOutOfRange : Byte := 0x21
abbrev ascLunNotSupported : Byte := 0x25
abbrev ascMediumNotPresent : Byte := 0x3a

abbrev mCommandComplete : Byte := 0x00
abbrev mAbort : Byte := 0x06
abbrev mBusDeviceReset : Byte := 0x0c

/-! ## State -/

/-- `st`, the phase sequencer. -/
inductive St where
  | idle | selwait | msgout | cmd | exec | rdwait | wrwait
  | datain | dataout | status | msgin | free
  deriving DecidableEq, Repr

/-- `hs`, the byte handshake.  `h3` is the encoding the source leaves unnamed;
its `default` arms treat it as `rel`. -/
inductive Hs where
  | setup | req | rel | h3
  deriving DecidableEq, Repr

/-- `resp_kind`, where DATA IN sources its bytes. -/
inductive RespKind where
  | none | media | inquiry | sense | capacity | mode
  deriving DecidableEq, Repr

/-- The registers of the sequencer, in the order the source declares them. -/
structure Seq where
  st : St := .idle
  hs : Hs := .setup
  selCnt : ℕ := 0
  idx : BitVec 10 := 0
  xferLen : BitVec 10 := 0
  cdb : BitVec 96 := 0
  cdbLen : BitVec 4 := 6
  lba : BitVec 32 := 0
  blkLeft : BitVec 24 := 0
  lun : BitVec 3 := 0
  atnSeen : Bool := false
  status : Byte := stGood
  msgIn : Byte := mCommandComplete
  msgRx : Byte := 0
  senseKey : BitVec 4 := skNoSense
  senseAsc : Byte := 0
  senseAscq : Byte := 0
  senseLba : BitVec 32 := 0
  respKind : RespKind := .none
  blkStart : Bool := false
  blkWe : Bool := false
  blkLba : BitVec 32 := 0
  deriving DecidableEq, Repr

/-- The values the RESET pin loads are the ones the record defaults to. -/
def Seq.reset : Seq := {}

/-- The sector buffer: the memory and its two registered read ports. -/
structure Buf where
  mem : BitVec 9 → Byte
  aRdata : Byte
  sbufRdata : Byte

/-- The whole module's state. -/
structure State where
  seq : Seq
  buf : Buf

/-! ## Command decode -/

/-- Byte `i` of the descriptor block, byte 0 in the low end. -/
def cdbByte (cdb : BitVec 96) (i : ℕ) : Byte :=
  cdb.extractLsb' (8 * i) 8

/-- `cdb[8*i +: 8] <= d`; a position past the register writes nothing. -/
def setCdbByte (cdb : BitVec 96) (i : ℕ) (d : Byte) : BitVec 96 :=
  (cdb &&& ~~~(0xff#96 <<< (8 * i))) ||| (d.setWidth 96 <<< (8 * i))

/-- `len_of_op`: the length of a descriptor block, from its opcode's group code. -/
def lenOfOp (op : Byte) : BitVec 4 :=
  match (op.extractLsb' 5 3).toNat with
  | 1 => 10
  | 2 => 10
  | 5 => 12
  | _ => 6

namespace Seq

def op (s : Seq) : Byte :=
  cdbByte s.cdb 0

def cdbLba6 (s : Seq) : BitVec 32 :=
  (s.cdb.extractLsb' 8 5 ++ cdbByte s.cdb 2 ++ cdbByte s.cdb 3).setWidth 32

/-- A length of zero means 256 blocks in the six-byte forms. -/
def cdbLen6 (s : Seq) : BitVec 24 :=
  if cdbByte s.cdb 4 = 0 then 256 else (cdbByte s.cdb 4).setWidth 24

def cdbLba10 (s : Seq) : BitVec 32 :=
  cdbByte s.cdb 2 ++ cdbByte s.cdb 3 ++ cdbByte s.cdb 4 ++ cdbByte s.cdb 5

def cdbLen10 (s : Seq) : BitVec 24 :=
  (cdbByte s.cdb 7 ++ cdbByte s.cdb 8).setWidth 24

def cdbIsRead (s : Seq) : Bool :=
  s.op == cRead6 || s.op == cRead10

def cdbIsWrite (s : Seq) : Bool :=
  s.op == cWrite6 || s.op == cWrite10

def cdbIsTen (s : Seq) : Bool :=
  s.op == cRead10 || s.op == cWrite10

def cmdLba (s : Seq) : BitVec 32 :=
  if s.cdbIsTen then s.cdbLba10 else s.cdbLba6

def cmdBlocks (s : Seq) : BitVec 24 :=
  if s.cdbIsTen then s.cdbLen10 else s.cdbLen6

def allocLen (s : Seq) : BitVec 10 :=
  (cdbByte s.cdb 4).setWidth 10

/-- The range check of `S_EXEC`, in the 32 bits the source computes it in. -/
def outOfRange (s : Seq) (count : BitVec 32) : Bool :=
  decide (count < s.cmdBlocks.setWidth 32 + s.cmdLba)

end Seq

/-- `sel_match`: a selection, never a reselection, that names this target. -/
def selMatch (p : Params) (bus : Scsi) : Bool :=
  bus.sel && !bus.bsy && !bus.io && (bus.data &&& p.idMask) != 0

def mediaFault (blk : BlkRsp) : Bool :=
  blk.done && blk.err

/-! ## The sequencer, one definition per arm of its case statement -/

namespace Seq

def clearSense (s : Seq) : Seq :=
  { s with senseKey := skNoSense, senseAsc := 0, senseAscq := 0, senseLba := 0 }

/-- End a command with CHECK CONDITION and a sense key and code. -/
def checkCondition (s : Seq) (key : BitVec 4) (asc : Byte) : Seq :=
  { s with senseKey := key, senseAsc := asc, senseAscq := 0, status := stCheck, st := .status }

def stepIdle (p : Params) (s : Seq) (bus : Scsi) : Seq :=
  if selMatch p bus then
    if s.selCnt = p.nSettle then
      { s with st := .selwait, atnSeen := bus.atn, lun := 0, status := stGood,
               msgIn := mCommandComplete, idx := 0 }
    else { s with selCnt := (s.selCnt + 1) % 2 ^ p.scntW }
  else { s with selCnt := 0 }

def stepSelwait (s : Seq) (bus : Scsi) : Seq :=
  let seen := if bus.atn then { s with atnSeen := true } else s
  if bus.sel then seen
  else { seen with hs := .setup, idx := 0,
                   st := if bus.atn || s.atnSeen then .msgout else .cmd }

def stepMsgout (s : Seq) (bus : Scsi) : Seq :=
  match s.hs with
  | .setup => { s with hs := .req }
  | .req =>
      if bus.ack then
        { s with hs := .rel, msgRx := bus.data,
                 lun := if bus.data.getLsbD 7 then bus.data.extractLsb' 0 3 else s.lun }
      else s
  | _ =>
      if bus.ack then s
      else if s.msgRx = mAbort ∨ s.msgRx = mBusDeviceReset then
        { s with hs := .setup, st := .free }
      else if bus.atn then { s with hs := .setup }
      else { s with hs := .setup, idx := 0, st := .cmd }

def stepCmd (s : Seq) (bus : Scsi) : Seq :=
  match s.hs with
  | .setup => { s with hs := .req }
  | .req =>
      if bus.ack then
        { s with hs := .rel,
                 cdb := setCdbByte s.cdb (s.idx.extractLsb' 0 4).toNat bus.data,
                 cdbLen := if s.idx = 0 then lenOfOp bus.data else s.cdbLen,
                 lun := if s.idx = 1 ∧ s.atnSeen = false then bus.data.extractLsb' 5 3
                        else s.lun }
      else s
  | _ =>
      if bus.ack then s
      else if s.idx + 1 = s.cdbLen.setWidth 10 then
        { s with hs := .setup, st := .exec, idx := 0 }
      else { s with hs := .setup, idx := s.idx + 1 }

/-- A generated response of at most `len` bytes, cut to the allocation length. -/
def respond (s : Seq) (kind : RespKind) (len : BitVec 10) : Seq :=
  { s with respKind := kind,
           xferLen := if s.allocLen < len then s.allocLen else len,
           st := if s.allocLen = 0 then .status else .datain }

/-- The last arm of `S_EXEC`'s case: READ, WRITE, and what nobody knows. -/
def execMedia (s : Seq) (blk : BlkRsp) : Seq :=
  if !s.cdbIsRead && !s.cdbIsWrite then s.checkCondition skIllegalRequest ascInvalidCommand
  else if !blk.ready then s.checkCondition skNotReady ascMediumNotPresent
  else if s.outOfRange blk.count then
    { s.checkCondition skIllegalRequest ascLbaOutOfRange with senseLba := s.cmdLba }
  else
    let t := { s with lba := s.cmdLba, blkLeft := s.cmdBlocks, respKind := .media, xferLen := 512 }
    if s.cdbIsRead then
      { t with blkLba := s.cmdLba, blkWe := false, blkStart := true, st := .rdwait }
    else { t with st := .dataout }

/-- The opcodes that succeed with nothing to do. -/
def isQuiet (op : Byte) : Bool :=
  [cRezero, cSeek6, cSeek10, cStartStop, cPreventAllow, cSendDiagnostic, cVerify10,
    cFormatUnit, cReserve, cRelease].contains op

/-- The case on the opcode, after the assignments every command makes. -/
def execOp (s : Seq) (blk : BlkRsp) : Seq :=
  if s.op = cInquiry then s.respond .inquiry 36
  else if s.op = cRequestSense then s.respond .sense 18
  else if s.op = cReadCapacity then
    if !blk.ready then s.checkCondition skNotReady ascMediumNotPresent
    else { s with respKind := .capacity, xferLen := 8, st := .datain }
  else if s.op = cModeSense6 then s.respond .mode 12
  else if s.op = cTestUnitReady then
    if !blk.ready then s.checkCondition skNotReady ascMediumNotPresent
    else { s with st := .status }
  else if isQuiet s.op then { s with st := .status }
  else if s.op = cModeSelect6 then
    if s.allocLen = 0 then { s with st := .status }
    else { s with xferLen := s.allocLen, st := .dataout }
  else s.execMedia blk

/-- The assignments `S_EXEC` makes before it looks at the opcode. -/
def execDefaults (s : Seq) : Seq :=
  let t := { s with hs := .setup, idx := 0, blkLeft := 0, respKind := .none, status := stGood }
  if s.op = cRequestSense then t else t.clearSense

def stepExec (s : Seq) (blk : BlkRsp) : Seq :=
  if s.lun ≠ 0 ∧ s.op ≠ cInquiry ∧ s.op ≠ cRequestSense then
    s.execDefaults.checkCondition skIllegalRequest ascLunNotSupported
  else s.execDefaults.execOp blk

/-- What both waits do with a block the back end could not move. -/
def mediumError (s : Seq) : Seq :=
  { s.checkCondition skMediumError ascUnrecoveredRead with senseLba := s.lba }

def stepRdwait (s : Seq) (blk : BlkRsp) : Seq :=
  if mediaFault blk then s.mediumError
  else if blk.done then { s with idx := 0, hs := .setup, st := .datain }
  else s

def stepWrwait (s : Seq) (blk : BlkRsp) : Seq :=
  if mediaFault blk then s.mediumError
  else if blk.done then
    if s.blkLeft = 1 then { s with st := .status }
    else { s with blkLeft := s.blkLeft - 1, lba := s.lba + 1, idx := 0, hs := .setup, st := .dataout }
  else s

/-- The byte handshake of the phases that take nothing from the bus. -/
def handshake (s released : Seq) (bus : Scsi) : Seq :=
  match s.hs with
  | .setup => { s with hs := .req }
  | .req => if bus.ack then { s with hs := .rel } else s
  | _ => if bus.ack then s else released

/-- DATA IN once the initiator has let go of a byte. -/
def datainReleased (s : Seq) : Seq :=
  if s.idx + 1 = s.xferLen then
    if s.respKind = .media ∧ s.blkLeft ≠ 1 then
      { s with hs := .setup, idx := 0, blkLeft := s.blkLeft - 1, lba := s.lba + 1,
               blkLba := s.lba + 1, blkWe := false, blkStart := true, st := .rdwait }
    else { s with hs := .setup, idx := 0, st := .status }
  else { s with hs := .setup, idx := s.idx + 1 }

/-- DATA OUT once the initiator has let go of a byte. -/
def dataoutReleased (s : Seq) : Seq :=
  if s.idx + 1 = s.xferLen then
    if s.respKind = .media then
      { s with hs := .setup, idx := 0, blkLba := s.lba, blkWe := true, blkStart := true,
               st := .wrwait }
    else { s with hs := .setup, idx := 0, st := .status }
  else { s with hs := .setup, idx := s.idx + 1 }

def statusReleased (s : Seq) : Seq :=
  { s with hs := .setup, msgIn := mCommandComplete, st := .msgin }

/-- Reading the sense data consumes it, once the command is over. -/
def msginReleased (s : Seq) : Seq :=
  let t := { s with hs := .setup, st := .free }
  if s.op = cRequestSense then t.clearSense else t

def stepFree (s : Seq) : Seq :=
  { s with hs := .setup, selCnt := 0, msgRx := 0, st := .idle }

def stepDatain (s : Seq) (bus : Scsi) : Seq :=
  s.handshake s.datainReleased bus

def stepDataout (s : Seq) (bus : Scsi) : Seq :=
  s.handshake s.dataoutReleased bus

def stepStatus (s : Seq) (bus : Scsi) : Seq :=
  s.handshake s.statusReleased bus

def stepMsgin (s : Seq) (bus : Scsi) : Seq :=
  s.handshake s.msginReleased bus

/-- The case statement on `st`. -/
def step (p : Params) (s : Seq) (bus : Scsi) (blk : BlkRsp) : Seq :=
  match s.st with
  | .idle => s.stepIdle p bus
  | .selwait => s.stepSelwait bus
  | .msgout => s.stepMsgout bus
  | .cmd => s.stepCmd bus
  | .exec => s.stepExec blk
  | .rdwait => s.stepRdwait blk
  | .wrwait => s.stepWrwait blk
  | .datain => s.stepDatain bus
  | .dataout => s.stepDataout bus
  | .status => s.stepStatus bus
  | .msgin => s.stepMsgin bus
  | .free => s.stepFree

/-- `blk_start` is a pulse: every edge clears it before anything else. -/
def endPulse (s : Seq) : Seq :=
  { s with blkStart := false }

/-- The bus reset branch: release the bus and forget the command. -/
def busReset (s : Seq) : Seq :=
  { s with st := .idle, hs := .setup, selCnt := 0 }

/-- One edge of the sequencer with the RESET pin released. -/
def next (p : Params) (s : Seq) (bus : Scsi) (blk : BlkRsp) : Seq :=
  if bus.rst then s.endPulse.busReset else s.endPulse.step p bus blk

/-! ## What the sequencer drives -/

def connected (s : Seq) : Bool :=
  s.st != .idle && s.st != .free

/-- MSG, C/D, I/O by state.  The wait for a block holds the data phase. -/
def phase (s : Seq) : BitVec 3 :=
  match s.st with
  | .msgout => 0b110
  | .cmd => 0b010
  | .datain => 0b001
  | .rdwait => 0b001
  | .status => 0b011
  | .msgin => 0b111
  | _ => 0b000

def driveBus (s : Seq) : Bool :=
  s.connected && s.phase.getLsbD 0

/-- `drive_o.req`. -/
def req (s : Seq) : Bool :=
  s.connected && s.hs == .req

/-- `a_we`: a byte of a WRITE is taken in the cycle ACK is seen. -/
def aWe (s : Seq) (bus : Scsi) : Bool :=
  s.st == .dataout && s.hs == .req && bus.ack && s.respKind == .media

/-- `a_addr`. -/
def aAddr (s : Seq) : BitVec 9 :=
  s.idx.extractLsb' 0 9

end Seq

/-! ## Generated responses -/

/-- `last_lba`: what READ CAPACITY reports. -/
def lastLba (count : BitVec 32) : BitVec 32 :=
  if count = 0 then 0 else count - 1

/-- Byte `i` of a vector, counted from the most significant of its `n` bytes. -/
def msbByte {w : ℕ} (v : BitVec w) (n i : ℕ) : Byte :=
  v.extractLsb' (8 * (n - 1 - i)) 8

def respInquiry (p : Params) (lun : BitVec 3) (idx : BitVec 10) : Byte :=
  if 32 ≤ idx then msbByte p.revision 4 (idx.toNat % 4)
  else if 16 ≤ idx then msbByte p.product 16 (idx.toNat % 16)
  else if 8 ≤ idx then msbByte p.vendor 8 (idx.toNat % 8)
  else
    match idx.toNat % 8 with
    | 0 => if lun = 0 then 0x00 else 0x7f
    | 2 => 0x02
    | 3 => 0x02
    | 4 => 31
    | _ => 0x00

def respSense (s : Seq) : Byte :=
  match s.idx.toNat % 32 with
  | 0 => 0x70
  | 2 => s.senseKey.setWidth 8
  | 3 => msbByte s.senseLba 4 0
  | 4 => msbByte s.senseLba 4 1
  | 5 => msbByte s.senseLba 4 2
  | 6 => msbByte s.senseLba 4 3
  | 7 => 10
  | 12 => s.senseAsc
  | 13 => s.senseAscq
  | _ => 0x00

def respCapacity (idx : BitVec 10) (count : BitVec 32) : Byte :=
  match idx.toNat % 8 with
  | 0 => msbByte (lastLba count) 4 0
  | 1 => msbByte (lastLba count) 4 1
  | 2 => msbByte (lastLba count) 4 2
  | 3 => msbByte (lastLba count) 4 3
  | 6 => 0x02
  | _ => 0x00

def respMode (idx : BitVec 10) (count : BitVec 32) : Byte :=
  match idx.toNat % 16 with
  | 0 => 11
  | 3 => 8
  | 5 => msbByte count 4 1
  | 6 => msbByte count 4 2
  | 7 => msbByte count 4 3
  | 10 => 0x02
  | _ => 0x00

/-- `resp`: a pure function of the byte index, staged nowhere. -/
def resp (p : Params) (s : Seq) (count : BitVec 32) : Byte :=
  match s.respKind with
  | .inquiry => respInquiry p s.lun s.idx
  | .sense => respSense s
  | .capacity => respCapacity s.idx count
  | .mode => respMode s.idx count
  | _ => 0x00

def dataOut (p : Params) (t : State) (count : BitVec 32) : Byte :=
  match t.seq.st with
  | .status => t.seq.status
  | .msgin => t.seq.msgIn
  | _ => if t.seq.respKind = .media then t.buf.aRdata else resp p t.seq count

/-- `drive_o`. -/
def drive (p : Params) (t : State) (count : BitVec 32) : Scsi where
  bsy := t.seq.connected
  msg := t.seq.connected && t.seq.phase.getLsbD 2
  cd := t.seq.connected && t.seq.phase.getLsbD 1
  io := t.seq.connected && t.seq.phase.getLsbD 0
  req := t.seq.req
  data := if t.seq.driveBus then dataOut p t count else 0
  dbp := t.seq.driveBus && dbpOf (dataOut p t count)

/-- `blk_o`. -/
def blkReq (t : State) : BlkReq where
  start := t.seq.blkStart
  we := t.seq.blkWe
  lba := t.seq.blkLba
  bufRdata := t.buf.sbufRdata

/-! ## One clock of the whole module -/

/-- Both ports of the sector buffer; each reads the byte as it was before the edge. -/
def Buf.next (b : Buf) (s : Seq) (bus : Scsi) (blk : BlkRsp) : Buf where
  mem :=
    let a := if s.aWe bus then Function.update b.mem s.aAddr bus.data else b.mem
    if blk.bufWe then Function.update a blk.bufAddr blk.bufWdata else a
  aRdata := b.mem s.aAddr
  sbufRdata := b.mem blk.bufAddr

/-- The inputs of one cycle: the RESET pin, the bus and the back end. -/
structure Cycle where
  rst : Bool := false
  bus : Scsi := {}
  blk : BlkRsp := {}
  deriving DecidableEq, Repr

def Seq.clock (p : Params) (s : Seq) (c : Cycle) : Seq :=
  if c.rst then Seq.reset else s.next p c.bus c.blk

def clock (p : Params) (t : State) (c : Cycle) : State where
  seq := t.seq.clock p c
  buf := t.buf.next t.seq c.bus c.blk

/-- The target just out of reset; the memory holds whatever it held. -/
def start (b : Buf) : State :=
  ⟨Seq.reset, b⟩

/-- A run of the target, one `Cycle` of inputs a clock. -/
def run (p : Params) (t : State) (input : ℕ → Cycle) : ℕ → State :=
  Clocked.run (clock p) t input

/-- The sequencer's own run: the buffer is never in its way. -/
theorem run_seq (p : Params) (t : State) (input : ℕ → Cycle) (n : ℕ) :
    (run p t input n).seq = Clocked.run (Seq.clock p) t.seq input n :=
  Clocked.run_map (fun _ _ => rfl) t input n

theorem run_succ (p : Params) (t : State) (input : ℕ → Cycle) (n : ℕ) :
    run p t input (n + 1) = clock p (run p t input n) (input n) :=
  rfl

end Wish5380.Targ
