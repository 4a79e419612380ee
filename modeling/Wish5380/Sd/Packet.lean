import Wish5380.Sd.Checks
import Wish5380.Sd.Progress
import Wish5380.Sd.Transceiver
import Wish5380.Targ.Model

/-!
# A block goes out

Between two visits of the sequencer the transceiver sends one byte, and nothing that the next
visit looks at moves; the sector buffer has long answered the address by then.  From the
response to CMD24 on, the visits send an idle byte, the start token, the buffer from its first
byte to its last and the two check bytes.
-/

namespace Wish5380.Sd

/-- What stands still between two visits: all but the pulses and the timer. -/
def Blk.standing (b : Blk) : Blk :=
  { b with go := false, bufWe := false, done := false, tickCnt := 0, msPulse := false, ms := 0 }

namespace Dev

/-- The byte handed to the transceiver in a cycle. -/
def sends (d : Dev) : List Byte :=
  if d.blk.go then [d.blk.tx] else []

/-- A history of the back end, from any state. -/
def Steps (p : Params) (x : ℕ → Dev) (input : ℕ → Input) : Prop :=
  ∀ t, x (t + 1) = (x t).next p (input t)

section Lap

variable {p : Params} {x : ℕ → Dev} {input : ℕ → Input} {t : ℕ}

/-- The pins of the transceiver, as they stand while the byte handed over in cycle `t` goes out. -/
def bytePins (x : ℕ → Dev) (input : ℕ → Input) (t u : ℕ) : Spi.Pins where
  div := BitVec.ofNat 16 (x t).blk.div
  go := decide (u = 0)
  tx := (x t).blk.tx
  miso := (input (t + u)).miso

/-- The transceiver with that byte, by itself. -/
def exchange (x : ℕ → Dev) (input : ℕ → Input) (t : ℕ) : ℕ → Spi :=
  Clocked.run Spi.clock (x t).spi (bytePins x input t)

theorem exchange_exact (input : ℕ → Input) (narrow : (x t).blk.div < 2 ^ 16)
    (rest : (x t).spi.run = false) :
    Spi.Exact (exchange x input t) (bytePins x input t) 0 (x t).blk.div := by
  have held : Spi.Held (bytePins x input t) 0 (x t).blk.div := by
    refine ⟨fun _ _ => rfl, fun _ _ _ => ?_⟩
    simpa [bytePins] using Nat.mod_eq_of_lt narrow
  exact held.exact (fun _ => rfl) rest rfl

/-- While the byte goes out the sequencer waits. -/
theorem waits (steps : Steps p x input) (narrow : (x t).blk.div < 2 ^ 16)
    (go : (x t).blk.go = true) (rest : (x t).spi.run = false) (k : ℕ)
    (within : k ≤ 16 * ((x t).blk.div + 1)) :
    (x (t + 1 + k)).spi = exchange x input t (1 + k) ∧
      (x (t + 1 + k)).blk.standing = (x t).blk.standing ∧ (x (t + 1 + k)).blk.go = false := by
  have whole := exchange_exact input narrow rest
  have same : (bytePins x input t 0).div.toNat = (x t).blk.div := by
    simpa [bytePins] using Nat.mod_eq_of_lt narrow
  induction k with
  | zero =>
      have working : (x t).idle = false := by simp [idle, Blk.spiIdle, go]
      have blk : (x (t + 1)).blk = (x t).blk.tickMs p := by
        rw [steps]
        exact next_of_busy working _
      refine ⟨?_, ?_, ?_⟩
      · show (x (t + 1)).spi = ((x t).spi).clock (bytePins x input t 0)
        rw [steps, Spi.clock, same]
        simp [next, bytePins, go]
      · show (x (t + 1)).blk.standing = _
        rw [blk]
        rfl
      · show (x (t + 1)).blk.go = false
        rw [blk]
        rfl
  | succ k ih =>
      obtain ⟨spi, standing, off⟩ := ih (by omega)
      have busy := (whole.busy k (by omega)).1
      rw [Nat.zero_add, ← spi] at busy
      have working : (x (t + 1 + k)).idle = false := by simp [idle, Blk.spiIdle, busy]
      have blk : (x (t + 1 + k + 1)).blk = (x (t + 1 + k)).blk.tickMs p := by
        rw [steps]
        exact next_of_busy working _
      have div : (x (t + 1 + k)).blk.div = (x t).blk.div := (congrArg Blk.div standing :)
      have tx : (x (t + 1 + k)).blk.tx = (x t).blk.tx := (congrArg Blk.tx standing :)
      have still : (bytePins x input t (1 + k)).div.toNat = (x t).blk.div := same
      refine ⟨?_, ?_, ?_⟩
      · show (x (t + 1 + k + 1)).spi = (exchange x input t (1 + k)).clock (bytePins x input t (1 + k))
        rw [steps, Spi.clock, still, ← spi]
        simp [next, bytePins, off, div, tx, ← Nat.add_assoc]
      · show (x (t + 1 + k + 1)).blk.standing = _
        rw [blk, ← standing]
        rfl
      · show (x (t + 1 + k + 1)).blk.go = false
        rw [blk]
        rfl

/-- The sequencer is at work on something else than the card's answer to a block. -/
def Unpolled (d : Dev) : Prop :=
  d.idle = true → d.blk.st ≠ .wrResp

/-- From one visit to the next: `b` is what the first has left. -/
structure Lap (x : ℕ → Dev) (m : BitVec 9 → Byte) (b : Blk) (t u : ℕ) : Prop where
  idle : (x u).idle = true
  standing : (x u).blk.standing = b.standing
  rdata : (x u).rdata = m b.bufAddr
  shown : Clocked.Stretch (fun v => (x v).sends) (fun v => (x v).Unpolled) t u [b.tx]

theorem sends_of_still (off : (x t).blk.go = false) : (x t).sends = [] := by
  simp [sends, off]

/-- A visit that sends a byte takes a lap. -/
theorem lap_of_visit {m : BitVec 9 → Byte} {b : Blk} (steps : Steps p x input)
    (here : (x t).idle = true) (other : (x t).blk.st ≠ .wrResp)
    (visit : ((x t).blk.tickMs p).step p ((x t).req (input t)) (x t).spi.shRx (x t).blk.ms = b)
    (go : b.go = true) (narrow : b.div < 2 ^ 16)
    (buffer : ∀ u, t ≤ u → u < t + Params.byteTime b.div → (input u).buffer = m) :
    Lap x m b t (t + Params.byteTime b.div) := by
  obtain ⟨moved, rest, -⟩ := next_of_idle (p := p) here (input t)
  rw [← steps, visit] at moved
  rw [← steps] at rest
  subst moved
  have out := waits steps narrow go rest
  have whole := exchange_exact input narrow rest
  have busy := whole.busy
  obtain ⟨stopped, -, done⟩ := whole.ends
  rw [Nat.zero_add] at busy stopped done
  rw [Params.byteTime] at buffer ⊢
  generalize 16 * ((x (t + 1)).blk.div + 1) = n at out busy stopped done buffer ⊢
  have far : t + (n + 3) = t + 1 + 1 + n + 1 := by omega
  obtain ⟨last, standing, off⟩ := out n (Nat.le_refl n)
  rw [← last] at stopped done
  have working : (x (t + 1 + 1 + n)).idle = false := by simp [Dev.idle, Blk.spiIdle, done]
  have after : (x (t + (n + 3))).blk = (x (t + 1 + 1 + n)).blk.tickMs p := by
    rw [far, steps]
    exact next_of_busy working _
  obtain ⟨run', done', -⟩ := Spi.next_of_rest stopped (x (t + 1 + 1 + n)).blk.div
    (x (t + 1 + 1 + n)).blk.go (x (t + 1 + 1 + n)).blk.tx (input (t + 1 + 1 + n)).miso
  refine ⟨?_, ?_, ?_, ?_⟩
  · rw [idle_iff, after]
    refine ⟨rfl, ?_, ?_⟩
    · rw [far, steps]
      exact run'.trans off
    · rw [far, steps]
      exact done'
  · rw [after, ← standing]
    rfl
  · have address : (x (t + 1 + 1 + n)).blk.bufAddr = (x (t + 1)).blk.bufAddr :=
      (congrArg Blk.bufAddr standing :)
    rw [far, steps]
    show (input (t + 1 + 1 + n)).buffer (x (t + 1 + 1 + n)).blk.bufAddr = _
    rw [buffer _ (by omega) (by omega), address]
  · have between (v : ℕ) (low : t + 2 ≤ v) (high : v < t + (n + 3)) :
        (x v).blk.go = false ∧ (x v).idle = false := by
      obtain ⟨k, rfl⟩ := Nat.exists_eq_add_of_le low
      obtain ⟨spi, -, off⟩ := out k (by omega)
      refine ⟨off, ?_⟩
      rcases Nat.lt_or_ge k n with early | late
      · have running := (busy k early).1
        rw [← spi] at running
        simp [Dev.idle, Blk.spiIdle, running]
      · obtain rfl : k = n := by omega
        exact working
    have begun : (x (t + 1)).idle = false := by simp [Dev.idle, Blk.spiIdle, go]
    have quiet := (idle_iff.mp here).1
    refine ⟨by omega, ?_, fun v low high at_rest => ?_⟩
    · rw [Clocked.trace_eq_single (show t ≤ t + 1 by omega) (show t + 1 < t + (n + 3) by omega)]
      · simp [sends, go]
      · intro v low high other
        rcases Nat.lt_or_ge v (t + 2) with early | late
        · obtain rfl : v = t := by omega
          exact sends_of_still quiet
        · exact sends_of_still (between v late high).1
    · rcases Nat.lt_or_ge v (t + 2) with early | late
      · obtain rfl | rfl : v = t ∨ v = t + 1 := by omega
        · exact other
        · rw [begun] at at_rest
          contradiction
      · rw [(between v late high).2] at at_rest
        contradiction

end Lap

/-! ## The visits that send a block -/

/-- What a visit finds: the registers that make up the block, and the byte of the buffer that
stands at the address. -/
structure At (m : BitVec 9 → Byte) (div : ℕ) (st : St) (n : ℕ) (a : BitVec 9) (c : BitVec 16)
    (d : Dev) : Prop where
  idle : d.idle = true
  div : d.blk.div = div
  st : d.blk.st = st
  bcnt : d.blk.bcnt = n
  addr : d.blk.bufAddr = a
  crc : d.blk.crc16 = c
  rdata : d.rdata = m a

section Block

variable {p : Params} {x : ℕ → Dev} {input : ℕ → Input} {m : BitVec 9 → Byte} {div n t : ℕ}
  {st : St} {addr : BitVec 9} {crc : BitVec 16}

/-- The buffer stands still in the cycles of a visit. -/
def Stands (input : ℕ → Input) (m : BitVec 9 → Byte) (div t : ℕ) : Prop :=
  ∀ u, t ≤ u → u < t + Params.byteTime div → (input u).buffer = m

/-- What a visit shows and where it leads. -/
def Sends (x : ℕ → Dev) (t div : ℕ) (v : Byte) (there : Dev → Prop) : Prop :=
  there (x (t + Params.byteTime div)) ∧
    Clocked.Stretch (fun u => (x u).sends) (fun u => (x u).Unpolled) t (t + Params.byteTime div) [v]

section Visit

variable (steps : Steps p x input) (narrow : div < 2 ^ 16) (stands : Stands input m div t)
include steps narrow stands

theorem sends_of_visit {b : Blk} (here : (x t).idle = true) (other : (x t).blk.st ≠ .wrResp)
    (visit : ((x t).blk.tickMs p).step p ((x t).req (input t)) (x t).spi.shRx (x t).blk.ms = b)
    (go : b.go = true) (same : b.div = div) :
    Sends x t div b.tx (At m div b.st b.bcnt b.bufAddr b.crc16) := by
  subst same
  obtain ⟨idle, standing, rdata, shown⟩ := lap_of_visit steps here other visit go narrow stands
  refine ⟨⟨idle, ?_, ?_, ?_, ?_, ?_, rdata⟩, shown⟩
  · exact (congrArg Blk.div standing :)
  · exact (congrArg Blk.st standing :)
  · exact (congrArg Blk.bcnt standing :)
  · exact (congrArg Blk.bufAddr standing :)
  · exact (congrArg Blk.crc16 standing :)

/-- The idle byte after the response. -/
theorem sends_wrCmdR (here : (x t).idle = true) (st : (x t).blk.st = .wrCmdR)
    (granted : (x t).blk.r1 = 0x00) (same : (x t).blk.div = div) :
    Sends x t div 0xff (At m div .wrPre (x t).blk.bcnt 0 (x t).blk.crc16) := by
  refine sends_of_visit steps narrow stands
    (b := { (x t).blk.tickMs p with bufAddr := 0, st := .wrPre }.send 0xff) here (by simp [st]) ?_ rfl
    same
  simp [Blk.step, Blk.tickMs, Blk.stepWrCmdR, st, granted]

section At

variable {n : ℕ} {a : BitVec 9} {c : BitVec 16}

/-- The start token. -/
theorem sends_wrPre (here : At m div .wrPre n a c (x t)) :
    Sends x t div 0xfe (At m div .wrTok 0 a 0) := by
  obtain ⟨idle, same, st, -, addr, -, -⟩ := here
  have sent := sends_of_visit steps narrow stands (b := ((x t).blk.tickMs p).stepWrPre) idle
    (by simp [st]) (by simp [Blk.step, Blk.tickMs, st]) rfl same
  rw [← addr]
  exact sent

/-- The first byte of the buffer. -/
theorem sends_wrTok (here : At m div .wrTok 0 a c (x t)) :
    Sends x t div (m a) (At m div .wrDat 0 1 (crc16Byte c (m a))) := by
  obtain ⟨idle, same, st, bcnt, -, crc, rdata⟩ := here
  have sent := sends_of_visit steps narrow stands
    (b := ((x t).blk.tickMs p).stepWrTok ((x t).req (input t))) idle (by simp [st])
    (by simp [Blk.step, Blk.tickMs, st]) rfl same
  rw [← rdata, ← crc, ← bcnt]
  exact sent

/-- Another. -/
theorem sends_wrDat (here : At m div .wrDat n a c (x t)) (more : n < 510) :
    Sends x t div (m a) (At m div .wrDat (n + 1) (a + 1) (crc16Byte c (m a))) := by
  obtain ⟨idle, same, st, bcnt, addr, crc, rdata⟩ := here
  have other : ((x t).blk.tickMs p).bcnt ≠ 510 := by
    show (x t).blk.bcnt ≠ 510
    omega
  have sent := sends_of_visit steps narrow stands
    (b := ((((x t).blk.tickMs p).given (x t).rdata).send (x t).rdata).count) idle (by simp [st])
    (by
      show ((x t).blk.tickMs p).step p _ _ _ = _
      rw [Blk.step, show ((x t).blk.tickMs p).st = .wrDat from st]
      exact if_neg other) rfl same
  have counted : ((x t).blk.bcnt + 1) % 2 ^ 10 = n + 1 := by
    rw [bcnt]
    exact Nat.mod_eq_of_lt (by omega)
  rw [← rdata, ← addr, ← crc, ← counted, ← st]
  exact sent

/-- The last. -/
theorem sends_wrDat_last (here : At m div .wrDat 510 a c (x t)) :
    Sends x t div (m a) (At m div .wrCrc 0 (a + 1) (crc16Byte c (m a))) := by
  obtain ⟨idle, same, st, bcnt, addr, crc, rdata⟩ := here
  have sent := sends_of_visit steps narrow stands
    (b := { (((x t).blk.tickMs p).given (x t).rdata).send (x t).rdata with bcnt := 0, st := .wrCrc })
    idle (by simp [st])
    (by
      show ((x t).blk.tickMs p).step p _ _ _ = _
      rw [Blk.step, show ((x t).blk.tickMs p).st = .wrDat from st]
      exact if_pos bcnt) rfl same
  rw [← rdata, ← addr, ← crc]
  exact sent

/-- The two check bytes. -/
theorem sends_wrCrc (here : At m div .wrCrc 0 a c (x t)) :
    Sends x t div (c.extractLsb' 8 8) (At m div .wrCrc 1 a c) := by
  obtain ⟨idle, same, st, bcnt, addr, crc, -⟩ := here
  have sent := sends_of_visit steps narrow stands
    (b := ((x t).blk.tickMs p).count.send ((x t).blk.crc16.extractLsb' 8 8)) idle (by simp [st])
    (by simp [Blk.step, Blk.tickMs, Blk.stepWrCrc, st, bcnt]) rfl same
  have counted : ((x t).blk.bcnt + 1) % 2 ^ 10 = 1 := by simp [bcnt]
  rw [← addr, ← crc, ← counted, ← st]
  exact sent

theorem sends_wrCrc_last (here : At m div .wrCrc 1 a c (x t)) :
    Sends x t div (c.extractLsb' 0 8) (At m div .wrResp 2 a c) := by
  obtain ⟨idle, same, st, bcnt, addr, crc, -⟩ := here
  have sent := sends_of_visit steps narrow stands
    (b := { ((x t).blk.tickMs p).count with st := .wrResp, ms := 0 }.send
      ((x t).blk.crc16.extractLsb' 0 8)) idle (by simp [st])
    (by simp [Blk.step, Blk.tickMs, Blk.stepWrCrc, st, bcnt, Blk.count]) rfl same
  have counted : ((x t).blk.bcnt + 1) % 2 ^ 10 = 2 := by simp [bcnt]
  rw [← addr, ← crc, ← counted]
  exact sent

end At

end Visit

/-! ## A whole block -/

/-- A buffer is its first byte, those in between, and its last. -/
theorem sentTo_ends (m : BitVec 9 → Byte) (n : ℕ) :
    sentTo m (n + 2) = [m 0] ++ (List.range n).flatMap (fun k => [m (BitVec.ofNat 9 (k + 1))]) ++
      [m (BitVec.ofNat 9 (n + 1))] := by
  rw [sentTo, List.range_succ, List.range_succ_eq_map, ← List.map_eq_flatMap]
  simp

/-- The block as the visits send it. -/
theorem packet_eq (m : BitVec 9 → Byte) (hi lo : Byte) :
    [0xff] ++ [0xfe] ++ [m 0] ++ (List.range 510).flatMap (fun k => [m (BitVec.ofNat 9 (k + 1))]) ++
        [m (BitVec.ofNat 9 511)] ++ [hi] ++ [lo] =
      [0xff, 0xfe] ++ sentTo m 512 ++ [hi, lo] := by
  rw [sentTo_ends m 510]
  simp only [List.append_assoc, List.cons_append, List.nil_append]

theorem Sends.onward {v : Byte} {there : Dev → Prop} {k : ℕ}
    (sent : Sends x (t + k * Params.byteTime div) div v there) :
    there (x (t + (k + 1) * Params.byteTime div)) ∧
      Clocked.Stretch (fun u => (x u).sends) (fun u => (x u).Unpolled)
        (t + k * Params.byteTime div) (t + (k + 1) * Params.byteTime div) [v] := by
  rw [Nat.succ_mul, ← Nat.add_assoc]
  exact sent

/-- From the response to the first poll the visits send a byte each, `516` of them. -/
theorem sends_block (steps : Steps p x input) (narrow : div < 2 ^ 16)
    (stands : ∀ u, t ≤ u → u < t + 516 * Params.byteTime div → (input u).buffer = m)
    (here : (x t).idle = true) (st : (x t).blk.st = .wrCmdR) (granted : (x t).blk.r1 = 0x00)
    (same : (x t).blk.div = div) :
    At m div .wrResp 2 (BitVec.ofNat 9 512) (crc16 (sentTo m 512))
        (x (t + 516 * Params.byteTime div)) ∧
      Clocked.Stretch (fun u => (x u).sends) (fun u => (x u).Unpolled) t
        (t + 516 * Params.byteTime div)
        ([0xff, 0xfe] ++ sentTo m 512 ++ [(crc16 (sentTo m 512)).extractLsb' 8 8,
          (crc16 (sentTo m 512)).extractLsb' 0 8]) := by
  have visit (k : ℕ) (inside : k < 516) : Stands input m div (t + k * Params.byteTime div) := by
    intro u low high
    have whole : (k + 1) * Params.byteTime div ≤ 516 * Params.byteTime div :=
      Nat.mul_le_mul_right _ (by omega)
    rw [Nat.succ_mul] at whole
    exact stands u (by omega) (by omega)
  have data (k : ℕ) (below : k < 510) (u : ℕ)
      (at_work : u = t + (3 + k) * Params.byteTime div ∧ At m div .wrDat k (BitVec.ofNat 9 (k + 1))
        (crc16 (sentTo m (k + 1))) (x u)) :
      ∃ v, (v = t + (3 + (k + 1)) * Params.byteTime div ∧
        At m div .wrDat (k + 1) (BitVec.ofNat 9 (k + 1 + 1)) (crc16 (sentTo m (k + 1 + 1))) (x v)) ∧
        Clocked.Stretch (fun u => (x u).sends) (fun u => (x u).Unpolled) u v
          [m (BitVec.ofNat 9 (k + 1))] := by
    obtain ⟨rfl, found⟩ := at_work
    obtain ⟨there, shown⟩ :=
      (sends_wrDat steps narrow (visit (3 + k) (by omega)) found below).onward
    have next : BitVec.ofNat 9 (k + 1) + 1 = BitVec.ofNat 9 (k + 1 + 1) :=
      (BitVec.ofNat_add (k + 1) 1).symm
    rw [← crc16_sentTo, next] at there
    exact ⟨_, ⟨rfl, there⟩, shown⟩
  have start : t + 0 * Params.byteTime div = t := by simp
  obtain ⟨pre, idleByte⟩ := (sends_wrCmdR steps narrow (visit 0 (by decide)) (by rwa [start])
    (by rwa [start]) (by rwa [start]) (by rwa [start])).onward
  obtain ⟨tok, token⟩ := (sends_wrPre steps narrow (visit 1 (by decide)) pre).onward
  obtain ⟨dat, first⟩ := (sends_wrTok steps narrow (visit 2 (by decide)) tok).onward
  have one : crc16 (sentTo m 1) = crc16Byte 0 (m 0) := crc16_sentTo m 0
  rw [← one] at dat
  obtain ⟨u, ⟨rfl, more⟩, inner⟩ := Clocked.Stretch.stages data ⟨rfl, dat⟩
  obtain ⟨crc, last⟩ := (sends_wrDat_last steps narrow (visit 513 (by decide)) more).onward
  rw [← crc16_sentTo] at crc
  obtain ⟨crc', high⟩ := (sends_wrCrc steps narrow (visit 514 (by decide)) crc).onward
  obtain ⟨resp, low⟩ := (sends_wrCrc_last steps narrow (visit 515 (by decide)) crc').onward
  have whole := (((((idleByte.trans token).trans first).trans inner).trans last).trans high).trans low
  rw [start] at whole
  refine ⟨resp, ?_⟩
  rw [← packet_eq]
  exact whole

end Block

/-- The byte the sequencer looks at is the target's registered read port, if the buffer is the
target's memory. -/
theorem rdata_eq_sbufRdata {p : Params} {x : ℕ → Dev} {input : ℕ → Input} {b : ℕ → Targ.Buf}
    {s : ℕ → Targ.Seq} {bus : ℕ → Scsi} {blk : ℕ → BlkRsp} (steps : Steps p x input)
    (port : ∀ t, b (t + 1) = (b t).next (s t) (bus t) (blk t))
    (addressed : ∀ t, (blk t).bufAddr = (x t).blk.bufAddr)
    (buffer : ∀ t, (input t).buffer = (b t).mem) (t : ℕ) :
    (x (t + 1)).rdata = (b (t + 1)).sbufRdata := by
  rw [steps, port]
  show (input t).buffer (x t).blk.bufAddr = (b t).mem (blk t).bufAddr
  rw [buffer, addressed]

/-- In any history of the back end, with any divider and whatever comes in on MISO: when the
response to CMD24 is taken and is zero, and the buffer stands still for the time of 516 bytes,
then exactly these go out before the first look for a data response: an idle byte, the start
token, the buffer from first to last, and the two halves of its CRC16. -/
theorem block_goes_out_whole {p : Params} {x : ℕ → Dev} {input : ℕ → Input} {t : ℕ}
    {m : BitVec 9 → Byte} (steps : Steps p x input) (narrow : (x t).blk.div < 2 ^ 16)
    (here : (x t).idle = true) (st : (x t).blk.st = .wrCmdR) (granted : (x t).blk.r1 = 0x00)
    (stands : ∀ u, t ≤ u → u < t + 516 * Params.byteTime (x t).blk.div → (input u).buffer = m) :
    let poll := t + 516 * Params.byteTime (x t).blk.div
    Clocked.trace (fun u => (x u).sends) t poll =
        [0xff, 0xfe] ++ sentTo m 512 ++
          [(crc16 (sentTo m 512)).extractLsb' 8 8, (crc16 (sentTo m 512)).extractLsb' 0 8] ∧
      ((x poll).idle = true ∧ (x poll).blk.st = .wrResp) ∧
      ∀ u, t ≤ u → u < poll → (x u).idle = true → (x u).blk.st ≠ .wrResp := by
  obtain ⟨found, shown⟩ := sends_block steps narrow stands here st granted rfl
  exact ⟨shown.trace_eq, ⟨found.idle, found.st⟩, shown.within⟩

/-- A sequencer that has the response to CMD24, with the slowest divider there is. -/
def granted : Dev where
  blk := { div := 0xffff, st := .wrCmdR, r1 := 0x00, cs := true }

theorem granted_block_goes_out :
    let input : ℕ → Input := fun _ => { buffer := fun a => a.setWidth 8 }
    let x := Clocked.run (next {}) granted input
    Clocked.trace (fun u => (x u).sends) 0 (0 + 516 * Params.byteTime 0xffff) =
      [0xff, 0xfe] ++ sentTo (fun a => a.setWidth 8) 512 ++
        [(crc16 (sentTo (fun a => a.setWidth 8) 512)).extractLsb' 8 8,
          (crc16 (sentTo (fun a => a.setWidth 8) 512)).extractLsb' 0 8] := by
  intro input x
  have steps : Steps {} x input := fun _ => rfl
  have narrow : (x 0).blk.div < 2 ^ 16 := by decide
  have here : (x 0).idle = true := by decide
  exact (block_goes_out_whole steps narrow here rfl rfl fun _ _ _ => rfl).1

end Dev

end Wish5380.Sd
