import Wish5380.Wb.Model

/-!
# The bridge and the chip

The two together, on a bus that does as it likes.  The bridge looks at DRQ in one clock
and strobes in the next; what can take DRQ away in between is a reset of the bus or a
loss of BSY.  In the clock of the strobe itself only a reset matters, and only to a write.
-/

namespace Wish5380.Wb

/-- The bridge in front of the chip. -/
structure Host where
  bridge : State := {}
  chip : Chip.State := {}
  deriving DecidableEq, Repr

/-- The inputs of a cycle: the Wishbone master, the End of Process pin and the bus. -/
structure Host.Input where
  req : Req := {}
  eop : Bool := false
  bus : Scsi := {}

namespace Host

variable (p : Params) (pc : Chip.Params)

/-- The chip's port as the bridge drives it. -/
def port (y : Host) (i : Input) : Chip.Port :=
  { y.bridge.port p i.req with eop := i.eop }

def next (y : Host) (i : Input) : Host where
  bridge := y.bridge.next p
    { req := i.req, dat := y.chip.datO (y.port p i) i.bus, drq := y.chip.drq }
  chip := y.chip.next pc (y.port p i) i.bus

/-- A run of the two from RESET. -/
def run (input : ℕ → Input) : ℕ → Host :=
  Clocked.run (next p pc) {} input

/-- An access with DACK for the handshaking window. -/
def strobes (y : Host) : Bool :=
  y.bridge.st == .xfer && y.bridge.hsk

/-- The handshaking window finds DRQ up, and will strobe. -/
def grants (y : Host) : Bool :=
  y.bridge.st == .wait && y.bridge.hsk && y.chip.drq

section Step

variable {p pc} {y : Host} {i : Input}

/-- A strobe follows a grant, and every grant is followed by one. -/
theorem strobes_next : (y.next p pc i).strobes = y.grants := by
  obtain ⟨⟨st, lane, hsk, rdata, tcnt, ack, err⟩, chip⟩ := y
  cases st with
  | idle =>
      simp only [strobes, grants, next, State.next, State.stepIdle]
      split_ifs <;> rfl
  | wait =>
      simp only [strobes, grants, next, State.next, State.stepWait]
      cases hsk with
      | false => rfl
      | true =>
          cases chip.drq with
          | true => rfl
          | false =>
              simp only [Bool.not_true, Bool.false_or, Bool.false_eq_true, if_false]
              split_ifs <;> rfl
  | xfer =>
      simp only [strobes, grants, next, State.next, State.stepXfer]
      split_ifs <;> rfl
  | fin =>
      simp only [strobes, grants, next, State.next]
      split_ifs <;> rfl
  | _ => rfl

/-- A pseudo-DMA strobe stores the byte in the chip's latch in its lane. -/
theorem rdata_next (xfer : y.bridge.st = .xfer) :
    (y.next p pc i).bridge.rdata =
      setLane y.bridge.rdata y.bridge.lane y.chip.eng.idrQ := by
  have byte : y.chip.datO (y.port p i) i.bus = y.chip.eng.idrQ := by
    simp [Chip.State.datO, port, State.port, xfer]
  simp only [next, State.next, xfer, State.stepXfer, byte]
  split_ifs <;> rfl

/-- What keeps DRQ up for a clock without an access. -/
theorem drq_next {s : Chip.State} {a : Chip.Port} {bus : Scsi} (quiet : a.stb = false)
    (up : s.drq = true) :
    (s.next pc a bus).drq = (!s.sclr bus && !s.busyLost pc bus) := by
  rw [Chip.State.drq, Bool.and_eq_true] at up
  have cleared : ∀ r : Chip.Regs, r.busyClear.dmaMode = false := by
    intro r
    simp [Chip.Regs.busyClear, Chip.Regs.dmaMode]
  have reset : s.regs.scsiClear.dmaMode = false := by
    simp [Chip.Regs.scsiClear, Chip.Regs.dmaMode]
  have mode : (s.next pc a bus).regs.dmaMode = (!s.sclr bus && !s.busyLost pc bus) := by
    show (s.regs.next a bus.bsy (s.sclr bus) (s.busyLost pc bus)).dmaMode = _
    simp only [Chip.Regs.next, quiet, Bool.false_and, Bool.false_eq_true, if_false]
    cases s.sclr bus <;> cases s.busyLost pc bus <;> simp [cleared, reset, up.2]
  rw [Chip.State.drq, mode]
  cases rises : s.sclr bus with
  | true => simp
  | false =>
      have kept : (s.next pc a bus).eng.drqQ = true := by
        show (s.nextDma a bus).drqQ = true
        rw [Chip.State.nextDma, rises, up.2, if_neg Bool.false_ne_true]
        simp only [Bool.not_true, Bool.false_eq_true, if_false, Chip.State.dmaStep,
          Chip.Port.dackRd, Chip.Port.dackWr, quiet, Bool.false_and]
        cases s.eng.dmaSt <;> dsimp only <;> (try split_ifs) <;> simp [up.1]
      rw [kept, Bool.true_and]

/-- While DRQ is up the chip waits for a byte from the host, or has one for it. -/
def Asking (s : Chip.State) : Prop :=
  s.eng.drqQ = true → s.eng.dmaSt = .sWant ∨ s.eng.dmaSt = .rHave

theorem Asking.next {s : Chip.State} (a : Chip.Port) (bus : Scsi) (asking : Asking s) :
    Asking (s.next pc a bus) := by
  show (s.nextDma a bus).drqQ = true →
    (s.nextDma a bus).dmaSt = .sWant ∨ (s.nextDma a bus).dmaSt = .rHave
  intro up
  rw [Chip.State.nextDma] at up ⊢
  by_cases rises : s.sclr bus = true
  · simp [rises] at up
  · by_cases on : s.regs.dmaMode = true
    · rw [Asking] at asking
      simp only [rises, on, Bool.not_true, Bool.false_eq_true, if_false, Chip.State.dmaStep] at up ⊢
      cases st : s.eng.dmaSt <;> simp only [st] at up ⊢ <;> split_ifs at up ⊢ <;> simp_all
    · simp [rises, on] at up

/-- A clock without an access leaves the transfer where it is while DRQ is up. -/
theorem dmaSt_next {s : Chip.State} {a : Chip.Port} {bus : Scsi} (asking : Asking s)
    (quiet : a.stb = false) (up : s.drq = true) (calm : s.sclr bus = false) :
    (s.next pc a bus).eng.dmaSt = s.eng.dmaSt := by
  rw [Chip.State.drq, Bool.and_eq_true] at up
  show (s.nextDma a bus).dmaSt = s.eng.dmaSt
  rcases asking up.1 with st | st
  · simp [Chip.State.nextDma, Chip.State.dmaStep, Chip.Port.dackWr, calm, up.2, st, quiet]
  · simp [Chip.State.nextDma, Chip.State.dmaStep, Chip.Port.dackRd, calm, up.2, st, quiet]

/-- A DACK read takes the request with it, whatever else happens in its clock. -/
theorem read_next {s : Chip.State} {a : Chip.Port} {bus : Scsi} (st : s.eng.dmaSt = .rHave)
    (rd : a.dackRd = true) : (s.next pc a bus).drq = false := by
  have dropped : (s.nextDma a bus).drqQ = false := by
    rw [Chip.State.nextDma]
    split_ifs
    · rfl
    · rfl
    · simp [Chip.State.dmaStep, st, rd]
  rw [Chip.State.drq, Bool.and_eq_false_iff]
  exact .inl dropped

/-- A DACK write fills the Output Data Register and is taken on, unless the bus is reset in
its clock. -/
theorem write_next {s : Chip.State} {a : Chip.Port} {bus : Scsi} (st : s.eng.dmaSt = .sWant)
    (up : s.drq = true) (wr : a.dackWr = true) (calm : s.sclr bus = false) :
    (s.next pc a bus).drq = false ∧ (s.next pc a bus).eng.dmaSt = .sHave ∧
      (s.next pc a bus).regs.odr = a.dat := by
  rw [Chip.State.drq, Bool.and_eq_true] at up
  have taken : (s.nextDma a bus).drqQ = false ∧ (s.nextDma a bus).dmaSt = .sHave := by
    simp [Chip.State.nextDma, Chip.State.dmaStep, calm, up.2, st, wr]
  simp only [Chip.Port.dackWr, Bool.and_eq_true] at wr
  refine ⟨?_, taken.2, ?_⟩
  · rw [Chip.State.drq, Bool.and_eq_false_iff]
    exact .inl taken.1
  · show (s.regs.next a bus.bsy (s.sclr bus) (s.busyLost pc bus)).odr = a.dat
    simp only [Chip.Regs.next, calm, wr.1.1, wr.1.2, Bool.false_eq_true, if_false, Bool.and_self,
      if_true, Chip.Regs.write, wr.2]
    split_ifs <;> rfl

/-- A write under a reset of the bus is lost. -/
theorem write_lost {s : Chip.State} {a : Chip.Port} {bus : Scsi} (reset : s.sclr bus = true) :
    (s.next pc a bus).eng.dmaSt = .idle := by
  show (s.nextDma a bus).dmaSt = .idle
  simp [Chip.State.nextDma, reset]

end Step

theorem run_asking (input : ℕ → Input) (t : ℕ) : Asking (run p pc input t).chip := by
  induction t with
  | zero =>
      intro up
      cases up
  | succ t ih => exact ih.next _ _

/-! ## The byte in the latch -/

/-- The chip latched the byte of clock `u` and has kept it for the host up to clock `t`: no
DACK read has been made in between. -/
structure Latched (y : ℕ → Host) (input : ℕ → Input) (u t : ℕ) : Prop where
  before : u < t
  latch : (y u).chip.recvLatch (input u).bus = true
  byte : (y t).chip.eng.idrQ = (input u).bus.data
  unread : ∀ v, u < v → v < t → ((y v).port p (input v)).dackRd = false

theorem Latched.succ {input : ℕ → Input} {u t : ℕ}
    (latched : Latched p (run p pc input) input u t)
    (unread : ((run p pc input t).port p (input t)).dackRd = false)
    (kept : (run p pc input (t + 1)).chip.eng.idrQ = (run p pc input t).chip.eng.idrQ) :
    Latched p (run p pc input) input u (t + 1) where
  before := Nat.lt_succ_of_lt latched.before
  latch := latched.latch
  byte := kept.trans latched.byte
  unread := by
    intro v after within
    rcases Nat.lt_or_eq_of_le (Nat.le_of_lt_succ within) with earlier | rfl
    · exact latched.unread v after earlier
    · exact unread

/-- A byte the chip has for the host came off the bus, and has not been read before. -/
theorem run_latched (input : ℕ → Input) (t : ℕ)
    (has : (run p pc input t).chip.eng.dmaSt = .rHave) :
    ∃ u, Latched p (run p pc input) input u t := by
  induction t with
  | zero => cases has
  | succ t ih =>
      have dma : (run p pc input (t + 1)).chip.eng.dmaSt = ((run p pc input t).chip.nextDma
          ((run p pc input t).port p (input t)) (input t).bus).dmaSt := rfl
      have byte : (run p pc input (t + 1)).chip.eng.idrQ = ((run p pc input t).chip.nextDma
          ((run p pc input t).port p (input t)) (input t).bus).idrQ := rfl
      rw [dma] at has
      unfold Chip.State.nextDma at has byte
      split_ifs at has byte
      · -- inside DMA MODE the byte is latched now or was there before
        unfold Chip.State.dmaStep at has byte
        cases st : (run p pc input t).chip.eng.dmaSt with
        | rWant =>
            simp only [st] at has byte
            split_ifs at has byte with latch
            · exact ⟨t, Nat.lt_succ_self t, latch, byte, fun v after within => by omega⟩
            · cases st.symm.trans has
        | rHave =>
            simp only [st] at has byte
            split_ifs at has byte with reads
            obtain ⟨u, latched⟩ := ih st
            exact ⟨u, latched.succ p pc (by simpa using reads) byte⟩
        | _ =>
            simp only [st] at has
            split_ifs at has <;> simp_all

/-- A strobe of the handshaking window that finds DRQ up, and the one byte it moves. -/
structure Served (y : ℕ → Host) (input : ℕ → Input) (t : ℕ) : Prop where
  drq : (y t).chip.drq = true
  taken : (y (t + 1)).chip.drq = false
  given : (input t).req.we = true →
    (y t).chip.eng.dmaSt = .sWant ∧ (y (t + 1)).chip.eng.dmaSt = .sHave ∧
      (y (t + 1)).chip.regs.odr = laneByte (input t).req.dat (y t).bridge.lane
  returned : (input t).req.we = false →
    (y t).chip.eng.dmaSt = .rHave ∧ ∃ u, Latched p y input u t ∧
      (y (t + 1)).bridge.rdata =
        setLane (y t).bridge.rdata (y t).bridge.lane (input u).bus.data

/-- In clock `t` the window finds DRQ up, and nothing comes between it and its byte: no reset
and no loss of BSY in this clock, an access that goes the way of the transfer, and no reset
in the clock of a strobe that writes. -/
structure Undisturbed (y : ℕ → Host) (input : ℕ → Input) (t : ℕ) : Prop where
  reset : (y t).chip.sclr (input t).bus = false
  loss : (y t).chip.busyLost pc (input t).bus = false
  way : (input (t + 1)).req.we = decide ((y t).chip.eng.dmaSt = .sWant)
  write : (input (t + 1)).req.we = true → (y (t + 1)).chip.sclr (input (t + 1)).bus = false

/-- Every access for the handshaking window meets a request of its own, takes it with it and
moves its byte, exactly when every clock in which the window finds DRQ up is undisturbed. -/
theorem served_iff (input : ℕ → Input) :
    (∀ t, (run p pc input t).strobes = true → Served p (run p pc input) input t) ↔
      ∀ t, (run p pc input t).grants = true → Undisturbed pc (run p pc input) input t := by
  have quiet : ∀ t, (run p pc input t).grants = true →
      ((run p pc input t).port p (input t)).stb = false := by
    intro t grants
    simp only [Host.grants, Bool.and_eq_true, beq_iff_eq] at grants
    simp only [port, State.port, grants.1.1]
    rfl
  have up : ∀ t, (run p pc input t).grants = true → (run p pc input t).chip.drq = true := by
    intro t grants
    simp only [Host.grants, Bool.and_eq_true] at grants
    exact grants.2
  have granted : ∀ t, (run p pc input t).grants = true →
      (run p pc input (t + 1)).chip.drq =
        (!(run p pc input t).chip.sclr (input t).bus &&
          !(run p pc input t).chip.busyLost pc (input t).bus) :=
    fun t grants => drq_next (quiet t grants) (up t grants)
  have stays : ∀ t, (run p pc input t).grants = true →
      (run p pc input t).chip.sclr (input t).bus = false →
      (run p pc input (t + 1)).chip.eng.dmaSt = (run p pc input t).chip.eng.dmaSt :=
    fun t grants calm => dmaSt_next (run_asking p pc input t) (quiet t grants) (up t grants) calm
  constructor
  · intro served t grants
    have strobes : (run p pc input (t + 1)).strobes = true := strobes_next.trans grants
    obtain ⟨drq, _, given, returned⟩ := served (t + 1) strobes
    rw [granted t grants, Bool.and_eq_true, Bool.not_eq_true', Bool.not_eq_true'] at drq
    refine ⟨drq.1, drq.2, ?_, fun we => ?_⟩
    · rw [← stays t grants drq.1]
      cases we : (input (t + 1)).req.we with
      | true => simp [(given we).1]
      | false => simp [(returned we).1]
    · by_contra reset
      rw [Bool.not_eq_false] at reset
      have lost : (run p pc input (t + 1 + 1)).chip.eng.dmaSt = .idle := write_lost reset
      have taken := (given we).2.1
      rw [lost] at taken
      cases taken
  · intro calm t strobes
    cases t with
    | zero => cases strobes
    | succ t =>
        have grants : (run p pc input t).grants = true := strobes_next.symm.trans strobes
        obtain ⟨reset, loss, way, write⟩ := calm t grants
        have drq : (run p pc input (t + 1)).chip.drq = true := by
          rw [granted t grants, reset, loss]
          rfl
        have raw : (run p pc input (t + 1)).chip.eng.drqQ = true := by
          rw [Chip.State.drq, Bool.and_eq_true] at drq
          exact drq.1
        have asks := run_asking p pc input (t + 1) raw
        rw [← stays t grants reset] at way
        simp only [Host.strobes, Bool.and_eq_true, beq_iff_eq] at strobes
        cases we : (input (t + 1)).req.we with
        | true =>
            have st : (run p pc input (t + 1)).chip.eng.dmaSt = .sWant := by simpa [we] using way
            have wr : ((run p pc input (t + 1)).port p (input (t + 1))).dackWr = true := by
              simp [port, State.port, Chip.Port.dackWr, strobes.1, we]
            obtain ⟨taken, has, odr⟩ := @write_next pc _ _ _ st drq wr (write we)
            exact ⟨drq, taken, fun _ => ⟨st, has, odr⟩, fun reads => by simp [we] at reads⟩
        | false =>
            have st : (run p pc input (t + 1)).chip.eng.dmaSt = .rHave := by
              rcases asks with st | st
              · simp [we, st] at way
              · exact st
            have rd : ((run p pc input (t + 1)).port p (input (t + 1))).dackRd = true := by
              simp [port, State.port, Chip.Port.dackRd, strobes.1, we]
            obtain ⟨u, latched⟩ := run_latched p pc input (t + 1) st
            refine ⟨drq, read_next st rd, fun writes => by simp [we] at writes,
              fun _ => ⟨st, u, latched, ?_⟩⟩
            rw [← latched.byte]
            exact rdata_next strobes.1

/-! ## A reset between the look and the strobe -/

/-- A write of a register, held for as long as the bridge needs. -/
def writes (reg : BitVec 30) (val : BitVec 32) : List Req :=
  List.replicate 3 { cyc := true, stb := true, we := true, sel := 1, adr := 4 * reg, dat := val } ++
    [({} : Req)]

/-- A DMA receive is set up, and one byte of it read through the handshaking window. -/
def receives : List Req :=
  writes 3 0x01 ++ writes 2 0x02 ++ writes 7 0x00 ++
    List.replicate 4 { cyc := true, stb := true, sel := 1, adr := 0x40 }

/-- A target that offers a byte in DATA IN, on a bus that is reset in clock 13. -/
def resetUnderRead (t : ℕ) : Input where
  req := receives.getD t {}
  bus := { rst := decide (13 ≤ t), bsy := true, req := true, io := true, data := 0x5a,
           dbp := dbpOf 0x5a }

/-- The window finds DRQ up and strobes a chip whose DRQ is down, and the master gets its
ACK. -/
theorem reset_strobes_without_drq :
    (run {} {} resetUnderRead 13).grants = true ∧
      (run {} {} resetUnderRead 14).strobes = true ∧
      (run {} {} resetUnderRead 14).chip.drq = false ∧
      (run {} {} resetUnderRead 16).bridge.wbAck = true := by
  decide +kernel

end Host

end Wish5380.Wb
