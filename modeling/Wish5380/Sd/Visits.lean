import Wish5380.Sd.Trace

/-!
# Visits, state by state

What the sequencer does on one visit and which events it leaves, said once for each
state.  The facts about histories are kept by every visit, and need only look at these.
-/

namespace Wish5380.Sd

variable {p : Params} {I : Blk → Byte → List Event → Prop} {b : Blk} {req : BlkReq} {rx : Byte}
  {ms : ℕ} {log : List Event}

/-- A byte of a block taken in: written to its place, and into the check. -/
def Blk.taken (b : Blk) (v : Byte) : Blk :=
  { b with
    bufAddr := BitVec.ofNat 9 b.bcnt
    bufWdata := v
    bufWe := true
    crc16 := crc16Byte b.crc16 v }

/-- A byte of a block given out: into the check, and the next place addressed. -/
def Blk.given (b : Blk) (v : Byte) : Blk :=
  { b with crc16 := crc16Byte b.crc16 v, bufAddr := b.bufAddr + 1 }

attribute [local simp] Kept Blk.events Blk.told Blk.pulses Blk.step Blk.send Blk.count Blk.fail
  Blk.command Blk.taken Blk.given

/-! ## Initialisation -/

theorem kept_power (quiet : Quiet b) (st : b.st = .power) :
    Kept p I b req rx ms log ↔ I (b.stepPower ms) rx log := by
  obtain ⟨go, bufWe, done⟩ := quiet
  by_cases late : 2 ≤ ms <;>
    simp [st, go, bufWe, done, Blk.stepPower, late]

theorem kept_dummy (quiet : Quiet b) (st : b.st = .dummy) :
    Kept p I b req rx ms log ↔
      (b.bcnt = 10 → I { b with cs := true, ms := 0, st := .cmd0 } rx log) ∧
      (b.bcnt ≠ 10 → ∀ got, I (b.count.send 0xff) got (log ++ [Event.start 0xff, .got got])) := by
  obtain ⟨go, bufWe, done⟩ := quiet
  by_cases last : b.bcnt = 10 <;>
    simp [st, go, bufWe, done, Blk.stepDummy, last]

theorem kept_cmd0 (quiet : Quiet b) (st : b.st = .cmd0) :
    Kept p I b req rx ms log ↔ I (b.command 0 0 false .cmd0R) rx log := by
  obtain ⟨go, bufWe, done⟩ := quiet
  simp [st, go, bufWe, done]

theorem kept_cmd8 (quiet : Quiet b) (st : b.st = .cmd8) :
    Kept p I b req rx ms log ↔ I (b.command 8 0x000001aa true .cmd8R) rx log := by
  obtain ⟨go, bufWe, done⟩ := quiet
  simp [st, go, bufWe, done]

theorem kept_cmd55 (quiet : Quiet b) (st : b.st = .cmd55) :
    Kept p I b req rx ms log ↔ I (b.command 55 0 false .cmd55R) rx log := by
  obtain ⟨go, bufWe, done⟩ := quiet
  simp [st, go, bufWe, done]

theorem kept_acmd41 (quiet : Quiet b) (st : b.st = .acmd41) :
    Kept p I b req rx ms log ↔
      I (b.command 41 (if b.v2 then 0x40000000 else 0) false .acmd41R) rx log := by
  obtain ⟨go, bufWe, done⟩ := quiet
  simp [st, go, bufWe, done]

theorem kept_cmd58 (quiet : Quiet b) (st : b.st = .cmd58) :
    Kept p I b req rx ms log ↔ I (b.command 58 0 true .cmd58R) rx log := by
  obtain ⟨go, bufWe, done⟩ := quiet
  simp [st, go, bufWe, done]

theorem kept_cmd16 (quiet : Quiet b) (st : b.st = .cmd16) :
    Kept p I b req rx ms log ↔ I (b.command 16 512 false .cmd16R) rx log := by
  obtain ⟨go, bufWe, done⟩ := quiet
  simp [st, go, bufWe, done]

theorem kept_cmd9 (quiet : Quiet b) (st : b.st = .cmd9) :
    Kept p I b req rx ms log ↔ I (b.command 9 0 false .cmd9R) rx log := by
  obtain ⟨go, bufWe, done⟩ := quiet
  simp [st, go, bufWe, done]

theorem kept_cmd0R (quiet : Quiet b) (st : b.st = .cmd0R) :
    Kept p I b req rx ms log ↔ I (b.stepCmd0R ms) rx log := by
  obtain ⟨go, bufWe, done⟩ := quiet
  by_cases idle : b.r1 = 0x01#8 <;> by_cases late : 500 ≤ ms <;>
    simp [st, go, bufWe, done, Blk.stepCmd0R, idle, late]

theorem kept_cmd8R (quiet : Quiet b) (st : b.st = .cmd8R) :
    Kept p I b req rx ms log ↔ I b.stepCmd8R rx log := by
  obtain ⟨go, bufWe, done⟩ := quiet
  by_cases old : b.r1[2] = true <;> by_cases echo : b.rExtra.extractLsb' 0 12 = 0x1aa#12 <;>
    simp [st, go, bufWe, done, Blk.stepCmd8R, old, echo]

theorem kept_cmd55R (quiet : Quiet b) (st : b.st = .cmd55R) :
    Kept p I b req rx ms log ↔ I { b with st := .acmd41 } rx log := by
  obtain ⟨go, bufWe, done⟩ := quiet
  simp [st, go, bufWe, done]

theorem kept_acmd41R (quiet : Quiet b) (st : b.st = .acmd41R) :
    Kept p I b req rx ms log ↔ I (b.stepAcmd41R ms) rx log := by
  obtain ⟨go, bufWe, done⟩ := quiet
  by_cases up : b.r1 = 0x00#8 <;> by_cases late : 1000 ≤ ms <;>
    simp [st, go, bufWe, done, Blk.stepAcmd41R, up, late]

theorem kept_cmd58R (quiet : Quiet b) (st : b.st = .cmd58R) :
    Kept p I b req rx ms log ↔ I b.stepCmd58R rx log := by
  obtain ⟨go, bufWe, done⟩ := quiet
  simp [st, go, bufWe, done, Blk.stepCmd58R]

theorem kept_cmd16R (quiet : Quiet b) (st : b.st = .cmd16R) :
    Kept p I b req rx ms log ↔ I { b with st := if b.r1 = 0x00 then .cmd9 else .dead } rx log := by
  obtain ⟨go, bufWe, done⟩ := quiet
  simp [st, go, bufWe, done]

theorem kept_cmd9R (quiet : Quiet b) (st : b.st = .cmd9R) :
    Kept p I b req rx ms log ↔
      ∀ got, I b.stepCmd9R got (log ++ [Event.start 0xff, .got got]) := by
  obtain ⟨-, bufWe, done⟩ := quiet
  simp [st, bufWe, done, Blk.stepCmd9R]

theorem kept_csdTok (quiet : Quiet b) (st : b.st = .csdTok) :
    Kept p I b req rx ms log ↔
      ∀ got, I (b.stepCsdTok rx ms) got (log ++ [Event.start 0xff, .got got]) := by
  obtain ⟨-, bufWe, done⟩ := quiet
  by_cases token : rx = 0xfe#8 <;> by_cases refused : rx.extractLsb' 4 4 = 0#4 <;>
    by_cases late : 200 ≤ ms <;>
    simp [st, bufWe, done, Blk.stepCsdTok, token, refused, late]

theorem kept_csdDat (quiet : Quiet b) (st : b.st = .csdDat) :
    Kept p I b req rx ms log ↔
      ∀ got, I (b.stepCsdDat rx) got (log ++ [Event.start 0xff, .got got]) := by
  obtain ⟨-, bufWe, done⟩ := quiet
  by_cases last : b.bcnt = 15 <;>
    simp [st, bufWe, done, Blk.stepCsdDat, last]

theorem kept_csdCrc (quiet : Quiet b) (st : b.st = .csdCrc) :
    Kept p I b req rx ms log ↔
      (b.bcnt = 1 → I { b.count with cardReady := true, div := p.divFast, st := .ready } rx log) ∧
      (b.bcnt ≠ 1 → ∀ got, I (b.count.send 0xff) got (log ++ [Event.start 0xff, .got got])) := by
  obtain ⟨go, bufWe, done⟩ := quiet
  by_cases last : b.bcnt = 1 <;>
    simp [st, go, bufWe, done, Blk.stepCsdCrc, last]

/-! ## Requests -/

theorem kept_ready (quiet : Quiet b) (st : b.st = .ready) :
    Kept p I b req rx ms log ↔
      (req.start = false → I { b with err := false } rx log) ∧
      (req.start = true → I (b.stepReady req) rx (log ++ [Event.accept req.we req.lba])) := by
  obtain ⟨go, bufWe, done⟩ := quiet
  by_cases start : req.start = true <;>
    simp [st, go, bufWe, done, Blk.stepReady, start]

theorem kept_finish (quiet : Quiet b) (st : b.st = .finish) :
    Kept p I b req rx ms log ↔
      I { b with done := true, st := .ready } rx (log ++ [Event.answer b.err]) := by
  obtain ⟨go, bufWe, -⟩ := quiet
  simp [st, go, bufWe]

theorem kept_dead (quiet : Quiet b) (st : b.st = .dead) :
    Kept p I b req rx ms log ↔
      (req.start = false → I { b with cardReady := false } rx log) ∧
      (req.start = true → I (b.stepDead req) rx (log ++ [Event.answer true])) := by
  obtain ⟨go, bufWe, done⟩ := quiet
  by_cases start : req.start = true <;>
    simp [st, go, bufWe, done, Blk.stepDead, start]

/-! ## The command helper -/

theorem kept_cSend (quiet : Quiet b) (st : b.st = .cSend) :
    Kept p I b req rx ms log ↔
      (b.bcnt = 6 → ∀ got, I ({ b with cs := true, bcnt := 0, st := .cR1 }.send b.cmdByte) got
        (log ++ [Event.command b.cmdIdx b.cmdArg, .start b.cmdByte, .got got])) ∧
      (b.bcnt ≠ 6 → ∀ got, I ({ b.count with cs := decide (b.bcnt ≠ 0) }.send b.cmdByte) got
        (log ++ [Event.start b.cmdByte, .got got])) := by
  obtain ⟨-, bufWe, done⟩ := quiet
  by_cases last : b.bcnt = 6 <;>
    simp [st, bufWe, done, Blk.stepCSend, last]

theorem kept_cR1 (quiet : Quiet b) (st : b.st = .cR1) :
    Kept p I b req rx ms log ↔
      (rx.getLsbD 7 = false → b.cmdExtra = true → ∀ got,
        I ({ b with r1 := rx, bcnt := 0, st := .cExtra }.send 0xff) got
          (log ++ [Event.r1 rx, .start 0xff, .got got])) ∧
      (rx.getLsbD 7 = false → b.cmdExtra = false →
        I { b with r1 := rx, bcnt := 0, st := b.ret } rx (log ++ [Event.r1 rx])) ∧
      (rx.getLsbD 7 = true → 63 ≤ b.bcnt →
        I { b with r1 := 0xff, st := b.ret } rx (log ++ [Event.noR1])) ∧
      (rx.getLsbD 7 = true → ¬ 63 ≤ b.bcnt → ∀ got,
        I (b.count.send 0xff) got (log ++ [Event.start 0xff, .got got])) := by
  obtain ⟨go, bufWe, done⟩ := quiet
  by_cases high : rx[7] = true <;> by_cases extra : b.cmdExtra = true <;>
    by_cases late : 63 ≤ b.bcnt <;>
    simp [st, go, bufWe, done, Blk.stepCR1, high, extra, late]

theorem kept_cExtra (quiet : Quiet b) (st : b.st = .cExtra) :
    Kept p I b req rx ms log ↔
      (b.bcnt = 3 →
        I { b.count with rExtra := b.rExtra.extractLsb' 0 24 ++ rx, st := b.ret } rx log) ∧
      (b.bcnt ≠ 3 → ∀ got, I ({ b.count with rExtra := b.rExtra.extractLsb' 0 24 ++ rx }.send 0xff)
        got (log ++ [Event.start 0xff, .got got])) := by
  obtain ⟨go, bufWe, done⟩ := quiet
  by_cases last : b.bcnt = 3 <;>
    simp [st, go, bufWe, done, Blk.stepCExtra, last]

/-! ## Reading -/

theorem kept_rdCmd (quiet : Quiet b) (st : b.st = .rdCmd) :
    Kept p I b req rx ms log ↔ I (b.command 17 b.cmdArg false .rdCmdR) rx log := by
  obtain ⟨go, bufWe, done⟩ := quiet
  simp [st, go, bufWe, done]

theorem kept_rdCmdR (quiet : Quiet b) (st : b.st = .rdCmdR) :
    Kept p I b req rx ms log ↔
      (b.r1 = 0x00 → ∀ got, I ({ b with ms := 0, st := .rdTok }.send 0xff) got
        (log ++ [Event.start 0xff, .got got])) ∧
      (b.r1 ≠ 0x00 → ∀ got, I ({ b with ms := 0 }.fail.send 0xff) got
        (log ++ [Event.start 0xff, .got got])) := by
  obtain ⟨-, bufWe, done⟩ := quiet
  by_cases granted : b.r1 = 0x00#8 <;>
    simp [st, bufWe, done, Blk.stepRdCmdR, granted]

theorem kept_rdTok (quiet : Quiet b) (st : b.st = .rdTok) :
    Kept p I b req rx ms log ↔
      (rx = 0xfe → ∀ got,
        I ({ b with bcnt := 0, crc16 := 0, bufAddr := 0, st := .rdDat }.send 0xff) got
          (log ++ [Event.start 0xff, .got got])) ∧
      (rx ≠ 0xfe → rx.extractLsb' 4 4 = 0 ∨ 200 ≤ ms → I b.fail rx log) ∧
      (rx ≠ 0xfe → ¬ (rx.extractLsb' 4 4 = 0 ∨ 200 ≤ ms) → ∀ got,
        I (b.send 0xff) got (log ++ [Event.start 0xff, .got got])) := by
  obtain ⟨go, bufWe, done⟩ := quiet
  by_cases token : rx = 0xfe#8 <;> by_cases refused : rx.extractLsb' 4 4 = 0#4 <;>
    by_cases late : 200 ≤ ms <;>
    simp [st, go, bufWe, done, Blk.stepRdTok, token, refused, late]

theorem kept_rdDat (quiet : Quiet b) (st : b.st = .rdDat) :
    Kept p I b req rx ms log ↔
      (b.bcnt = 511 → ∀ got, I ({ b.taken rx with bcnt := 0, st := .rdCrc }.send 0xff) got
        (log ++ [Event.store (BitVec.ofNat 9 b.bcnt) rx, .start 0xff, .got got])) ∧
      (b.bcnt ≠ 511 → ∀ got, I ((b.taken rx).count.send 0xff) got
        (log ++ [Event.store (BitVec.ofNat 9 b.bcnt) rx, .start 0xff, .got got])) := by
  obtain ⟨-, -, done⟩ := quiet
  by_cases last : b.bcnt = 511 <;>
    simp [st, done, Blk.stepRdDat, last]

theorem kept_rdCrc (quiet : Quiet b) (st : b.st = .rdCrc) :
    Kept p I b req rx ms log ↔
      (b.bcnt = 1 → crc16Byte b.crc16 rx = 0 →
        I { b.count with crc16 := crc16Byte b.crc16 rx, st := .finish } rx log) ∧
      (b.bcnt = 1 → crc16Byte b.crc16 rx ≠ 0 →
        I { b.count with crc16 := crc16Byte b.crc16 rx }.fail rx log) ∧
      (b.bcnt ≠ 1 → ∀ got, I ({ b.count with crc16 := crc16Byte b.crc16 rx }.send 0xff) got
        (log ++ [Event.start 0xff, .got got])) := by
  obtain ⟨go, bufWe, done⟩ := quiet
  by_cases last : b.bcnt = 1 <;> by_cases clean : crc16Byte b.crc16 rx = 0#16 <;>
    simp [st, go, bufWe, done, Blk.stepRdCrc, last, clean]

/-! ## Writing -/

theorem kept_wrCmd (quiet : Quiet b) (st : b.st = .wrCmd) :
    Kept p I b req rx ms log ↔ I (b.command 24 b.cmdArg false .wrCmdR) rx log := by
  obtain ⟨go, bufWe, done⟩ := quiet
  simp [st, go, bufWe, done]

theorem kept_wrCmdR (quiet : Quiet b) (st : b.st = .wrCmdR) :
    Kept p I b req rx ms log ↔
      (b.r1 = 0x00 → ∀ got, I ({ b with bufAddr := 0, st := .wrPre }.send 0xff) got
        (log ++ [Event.start 0xff, .got got])) ∧
      (b.r1 ≠ 0x00 → I b.fail rx log) := by
  obtain ⟨go, bufWe, done⟩ := quiet
  by_cases granted : b.r1 = 0x00#8 <;>
    simp [st, go, bufWe, done, Blk.stepWrCmdR, granted]

theorem kept_wrPre (quiet : Quiet b) (st : b.st = .wrPre) :
    Kept p I b req rx ms log ↔
      ∀ got, I b.stepWrPre got (log ++ [Event.start 0xfe, .got got]) := by
  obtain ⟨-, bufWe, done⟩ := quiet
  simp [st, bufWe, done, Blk.stepWrPre]

theorem kept_wrTok (quiet : Quiet b) (st : b.st = .wrTok) :
    Kept p I b req rx ms log ↔
      ∀ got, I (b.stepWrTok req) got
        (log ++ [Event.load b.bufAddr req.bufRdata, .start req.bufRdata, .got got]) := by
  obtain ⟨-, bufWe, done⟩ := quiet
  simp [st, bufWe, done, Blk.stepWrTok]

theorem kept_wrDat (quiet : Quiet b) (st : b.st = .wrDat) :
    Kept p I b req rx ms log ↔
      (b.bcnt = 510 → ∀ got,
        I ({ b.given req.bufRdata with bcnt := 0, st := .wrCrc }.send req.bufRdata) got
          (log ++ [Event.load b.bufAddr req.bufRdata, .start req.bufRdata, .got got])) ∧
      (b.bcnt ≠ 510 → ∀ got, I ((b.given req.bufRdata).count.send req.bufRdata) got
        (log ++ [Event.load b.bufAddr req.bufRdata, .start req.bufRdata, .got got])) := by
  obtain ⟨-, bufWe, done⟩ := quiet
  by_cases last : b.bcnt = 510 <;>
    simp [st, bufWe, done, Blk.stepWrDat, last]

theorem kept_wrCrc (quiet : Quiet b) (st : b.st = .wrCrc) :
    Kept p I b req rx ms log ↔
      (b.bcnt = 0 → ∀ got, I (b.count.send (b.crc16.extractLsb' 8 8)) got
        (log ++ [Event.start (b.crc16.extractLsb' 8 8), .got got])) ∧
      (b.bcnt ≠ 0 → ∀ got,
        I ({ b.count with st := .wrResp, ms := 0 }.send (b.crc16.extractLsb' 0 8)) got
          (log ++ [Event.packet, .start (b.crc16.extractLsb' 0 8), .got got])) := by
  obtain ⟨-, bufWe, done⟩ := quiet
  by_cases first : b.bcnt = 0 <;>
    simp [st, bufWe, done, Blk.stepWrCrc, first]

theorem kept_wrResp (quiet : Quiet b) (st : b.st = .wrResp) :
    Kept p I b req rx ms log ↔
      (rx &&& 0x11 = 0x01 → ∀ got,
        I ({ b with err := if rx &&& 0x0e ≠ 0x04 then true else b.err, ms := 0, st := .wrBusy }.send
          0xff) got (log ++ [Event.response rx, .start 0xff, .got got])) ∧
      (rx &&& 0x11 ≠ 0x01 → 200 ≤ ms → ∀ got,
        I (b.fail.send 0xff) got (log ++ [Event.start 0xff, .got got])) ∧
      (rx &&& 0x11 ≠ 0x01 → ¬ 200 ≤ ms → ∀ got,
        I (b.send 0xff) got (log ++ [Event.start 0xff, .got got])) := by
  obtain ⟨-, bufWe, done⟩ := quiet
  by_cases response : rx &&& 0x11#8 = 0x01#8 <;> by_cases late : 200 ≤ ms <;>
    simp [st, bufWe, done, Blk.stepWrResp, response, late]

theorem kept_wrBusy (quiet : Quiet b) (st : b.st = .wrBusy) :
    Kept p I b req rx ms log ↔
      (rx ≠ 0x00 → I { b with st := .finish } rx log) ∧
      (rx = 0x00 → 500 ≤ ms → I b.fail rx log) ∧
      (rx = 0x00 → ¬ 500 ≤ ms → ∀ got, I (b.send 0xff) got (log ++ [Event.start 0xff, .got got])) := by
  obtain ⟨go, bufWe, done⟩ := quiet
  by_cases free : rx = 0x00#8 <;> by_cases late : 500 ≤ ms <;>
    simp [st, go, bufWe, done, Blk.stepWrBusy, free, late]

end Wish5380.Sd
