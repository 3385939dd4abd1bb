import Zyndra.EnableRestart
import Zyndra.Peripheral
import Zyndra.ReceiveSession
import Zyndra.RxMemory
import Zyndra.TxRegisters

/-!
# From the samples to the client

The receive path and the receive session, joined. What the session finds in memory is
what the engine's slave has put there, the offset the driver reads is the one the engine
shows, and the engine's ports are the registers as ENABLE has left them. What the client
gets is then samples: those that raised no drop, in order, in whole blocks, with nothing
between two blocks but what the driver has reported lost.

The session may be any in the life of the engine. Its stream starts behind the words
that the sessions before it have stored.
-/

namespace Zyndra.RxChain

open Runs CyclicRing Driver Ad936xAxi AxiMasterWr Ad9361Txrx

/-! ## Bytes of the words in memory -/

/-- A byte of a word, the lowest first. -/
def byteOf {w : Nat} (word : BitVec w) (k : Nat) : BitVec 8 := word.extractLsb' (8 * k) 8

/-- The bytes of words of `n` bytes each. -/
def bytesOf {w : Nat} (n : Nat) (words : List (BitVec w)) (position : Nat) : BitVec 8 :=
  byteOf (words.getD (position / n) 0) (position % n)

/-- The ring as the processor maps it, in the memory behind the port. -/
def ringBytes (phys : BitVec 32) (memory : Nat → BitVec 64) (place : Nat) : BitVec 8 :=
  byteOf (memory ((phys.toNat + place) / 8)) ((phys.toNat + place) % 8)

/-- The bytes of a beat are those of its two words. -/
theorem byteOf_halves (word : BitVec 64) {k : Nat} (below : k < 8) :
    byteOf word k = byteOf ((halves word).getD (k / 4) 0) (k % 4) := by
  apply BitVec.eq_of_getLsbD_eq
  intro bit inside
  rcases Nat.lt_or_ge k 4 with low | high
  · have half : k / 4 = 0 := Nat.div_eq_of_lt low
    have byte : k % 4 = k := Nat.mod_eq_of_lt low
    simp only [byteOf, halves, half, byte, List.getD_cons_zero, BitVec.getLsbD_extractLsb']
    rw [decide_eq_true (show 8 * k + bit < 32 by omega), Nat.zero_add, Bool.true_and]
  · have half : k / 4 = 1 := by omega
    have byte : 32 + (8 * (k % 4) + bit) = 8 * k + bit := by omega
    simp only [byteOf, halves, half, List.getD_cons_succ, List.getD_cons_zero,
      BitVec.getLsbD_extractLsb', byte]
    rw [decide_eq_true (show 8 * (k % 4) + bit < 32 by omega), Bool.true_and]

/-- The bytes of the beats are those of the words they carry. -/
theorem bytesOf_beats {beats : List (BitVec 64)} {words : List (BitVec 32)}
    (stream : beats.flatMap halves <+: words) {position : Nat}
    (inside : position < 8 * beats.length) :
    bytesOf 8 beats position = bytesOf 4 words position := by
  have pair := beat_words stream (show position / 8 < beats.length by omega)
  have index : 2 * (position / 8) + position % 8 / 4 = position / 4 := by omega
  have byte : position % 8 % 4 = position % 4 := by omega
  have second : position % 8 / 4 < 2 := by omega
  unfold bytesOf
  rw [byteOf_halves _ (Nat.mod_lt _ (by decide)), pair, byte]
  simp only [List.getD_eq_getElem?_getD, List.getElem?_take, second, if_true, List.getElem?_drop,
    index]

/-- Words that lie round the ring show their bytes round the ring. -/
theorem holds_bytes {size words first committed : Nat} {phys : BitVec 32}
    {memory : Nat → BitVec 64} {taken : List (BitVec 64)} (whole : size = 8 * words)
    (base : phys.toNat = 8 * first)
    (held : ∀ p < committed, committed ≤ p + words →
      memory (first + p % words) = taken.getD p 0) :
    Holds size (bytesOf 8 taken) (ringBytes phys memory) (8 * committed) := by
  intro position before within
  have word := held (position / 8) (by omega) (by omega)
  have place : (phys.toNat + position % size) / 8 = first + position / 8 % words := by
    rw [base, whole, Nat.mul_add_div (by decide), Nat.mod_mul_right_div_self]
  have byte : (phys.toNat + position % size) % 8 = position % 8 := by
    rw [base, whole, Nat.mul_add_mod, Nat.mod_mul_right_mod]
  unfold ringBytes
  rw [place, byte, word]
  rfl

/-- What lies behind the first words of a stream of beats are the other beats. -/
theorem beats_behind {earlier taken : List (BitVec 64)} {words : List (BitVec 32)}
    (stream : (earlier ++ taken).flatMap halves <+: words) :
    taken.flatMap halves <+: words.drop (2 * earlier.length) := by
  have behind := stream.drop (2 * earlier.length)
  have length : (earlier.flatMap halves).length = 2 * earlier.length := by
    simp [halves, List.length_flatMap, Nat.mul_comm]
  rwa [List.flatMap_append, List.drop_left' length] at behind

/-! ## The parts joined -/

structure Chain where
  session : ReceiveSession
  regs : AxiLite.Registers
  receiver : Receiver

/-- `report` is the driver's read of the engine's offset. -/
inductive ChainEvent where
  | software (e : ReceiveEvent)
  | report
  | iqClock (ports : RxPorts) (full : Bool)
  | aclk (i : PeripheralInputs) (empty : Bool) (commits : Nat)

section Chain

variable (blockSize rxBufSize : BitVec 32) (depth : Nat)

/-- How far the engine's offset is ahead of the one the driver has read. -/
def Chain.unseen (c : Chain) : BitVec 32 :=
  cyclicDistance c.session.bench.dev.priv.rxbufSize c.session.bench.dev.regs.rxBufWr
    c.receiver.path.engine.dut.regs.sWrPtr

/-- The receiver after a clock of the engine, whose ports are the slave's registers. -/
def Chain.clocked (c : Chain) (i : PeripheralInputs) (empty : Bool) (commits : Nat) : Receiver :=
  c.receiver.step .ad936xAxi (.aclk (axiMasterWrInst c.regs i) empty commits)

def Chain.step (c : Chain) : ChainEvent → Chain
  | .software e =>
    { c with
      session :=
        receiveSession blockSize rxBufSize (bytesOf 8 c.receiver.memory.taken) c.session e }
  | .report => { c with session :=
      { c.session with bench := observe blockSize c.session.bench (.hardware c.unseen.toNat) } }
  | .iqClock ports full => { c with receiver := c.receiver.step .ad936xAxi (.iqClock ports full) }
  | .aclk i empty commits =>
    let receiver := c.clocked i empty commits
    { c with
      receiver := receiver
      session :=
        { c.session with
          ring := { c.session.ring with
            memory := ringBytes c.session.bench.dev.priv.rxbufPhys
              receiver.memory.slave.port.memory }
          stored := 8 * receiver.memory.committed } }

/-- The events that are not the hardware's. -/
def OfSoftware : ReceiveEvent → Prop
  | .store _ => False
  | .report _ => False
  | _ => True

instance : (e : ReceiveEvent) → Decidable (OfSoftware e)
  | .thread => isTrue trivial
  | .sent _ => isTrue trivial
  | .sendInterrupted => isTrue trivial
  | .sendFailed => isTrue trivial
  | .close => isTrue trivial
  | .tick => isTrue trivial
  | .load _ => isTrue trivial
  | .store _ => isFalse id
  | .report _ => isFalse id

/-- The conditions of the parts; and the memory does not come round the block that is
being sent. -/
def ChainRule (c : Chain) : ChainEvent → Prop
  | .software e => OfSoftware e ∧ ReceiveRule blockSize c.session e
  | .report => True
  | .iqClock ports full => ReceiverRule .ad936xAxi depth c.receiver (.iqClock ports full)
  | .aclk i empty commits =>
    ReceiverRule .ad936xAxi depth c.receiver (.aclk (axiMasterWrInst c.regs i) empty commits) ∧
      (c.session.pc.sends = true → ∀ h ∈ c.session.bench.handed.head?,
        8 * (c.clocked i empty commits).memory.committed ≤ h.start + c.session.bench.size)

instance (c : Chain) : (e : ChainEvent) → Decidable (ChainRule blockSize depth c e)
  | .software _ => inferInstanceAs (Decidable (_ ∧ _))
  | .report => isTrue trivial
  | .iqClock _ _ => inferInstanceAs (Decidable (ReceiverRule .ad936xAxi depth _ _))
  | .aclk _ _ _ =>
    inferInstanceAs (Decidable (_ ∧ (_ → ∀ h ∈ c.session.bench.handed.head?, _)))

/-- The device when ENABLE has returned. -/
def enabled (d : Device) : Device := ((fun p => enableStep p.1 p.2)^[6] (.chooseCtrl, d)).2

/-- The session on return from ENABLE, as the engine leaves STANDBY. -/
def chainStart (d : Device) (view : Nat → BitVec 8) (r : Receiver) (i : PeripheralInputs)
    (empty : Bool) (commits : Nat) : Chain :=
  let regs := TxChain.mirror (enabled d).regs
  let receiver := r.step .ad936xAxi (.aclk (axiMasterWrInst regs i) empty commits)
  { session := receiveStarted blockSize (enabled d)
      ⟨view, ringBytes d.priv.rxbufPhys receiver.memory.slave.port.memory⟩
    regs := regs
    receiver := receiver }

end Chain

/-! ## What every step keeps -/

section Invariant

variable {blockSize rxBufSize : BitVec 32} {depth : Nat} {s : ReceiveSession}

/-- A step of software leaves the registers, the mapping, and what the hardware has
stored and shown. -/
structure Frame (s next : ReceiveSession) : Prop where
  regs : next.bench.dev.regs = s.bench.dev.regs
  phys : next.bench.dev.priv.rxbufPhys = s.bench.dev.priv.rxbufPhys
  size : next.bench.dev.priv.rxbufSize = s.bench.dev.priv.rxbufSize
  written : next.bench.written = s.bench.written
  stored : next.stored = s.stored

theorem Frame.reader {next : ReceiveSession}
    (bench : next.bench = observeReader blockSize s.bench) (stored : next.stored = s.stored) :
    Frame s next := by
  have device : (observeReader blockSize s.bench).dev =
      (readStep blockSize success s.bench.pc s.bench.dev).device := by
    unfold observeReader
    split <;> rfl
  have written : (observeReader blockSize s.bench).written = s.bench.written := by
    unfold observeReader
    split <;> rfl
  obtain ⟨overrun, rd, blocks, total, prev, peak, count, synced, changed, -⟩ :=
    readStep_device blockSize success s.bench.pc s.bench.dev
  rw [changed] at device
  constructor
  · rw [bench, device]
  · rw [bench, device]
  · rw [bench, device]
  · rw [bench, written]
  · exact stored

theorem frame_software (stream : Nat → BitVec 8) (e : ReceiveEvent) (software : OfSoftware e) :
    Frame s (receiveSession blockSize rxBufSize stream s e) := by
  have same : Frame s s := ⟨rfl, rfl, rfl, rfl, rfl⟩
  have sent : ∀ outcome, Frame s (sendOut blockSize outcome s) := by
    intro outcome
    unfold sendOut
    split
    · exact { same with }
    · exact same
  cases e with
  | thread =>
    change Frame s (receiveThread blockSize rxBufSize s)
    unfold receiveThread
    split
    case h_2 drops at_ =>
      apply Frame.reader <;> (unfold getStep; dsimp only; split <;> rfl)
    all_goals exact { same with }
  | sent bytes => exact sent _
  | sendInterrupted => exact sent _
  | sendFailed => exact sent _
  | close => exact { same with }
  | load place => exact { same with }
  | tick =>
    obtain ⟨regs, size, -, -⟩ := timer_frame blockSize s.bench.dev
    exact ⟨regs, (timer_issues s.bench.dev).1.1, size, rfl, rfl⟩
  | store bytes => exact software.elim
  | report bytes => exact software.elim

/-- What the parts keep, and what ties them: the session's memory is that of the slave,
the driver has read no offset that the engine has not shown, and the engine is enabled
on the ring that is mapped. `earlier` are the beats of the sessions before. -/
structure Delivers (blockSize : BitVec 32) (depth : Nat)
    (engine : AxiMasterWr.Bench (List (BitVec 64))) (earlier : List (BitVec 64)) (c : Chain) :
    Prop where
  receives : Receives .ad936xAxi depth engine c.receiver
  forwards : Forwards blockSize (bytesOf 8 c.receiver.memory.taken) c.session
  stored : c.session.stored = 8 * c.receiver.memory.committed
  seen : c.session.bench.written ≤
    Generics.ad936xAxi.burst * c.receiver.memory.bench.tally.answered
  within : Within c.receiver.memory.bench.tally.base c.receiver.memory.bench.tally.size
    c.receiver.memory.bench.dut.regs.sm
  begun : 0 < c.receiver.memory.bench.tally.sessions
  base : c.receiver.memory.bench.tally.base = c.session.bench.dev.priv.rxbufPhys
  size : c.receiver.memory.bench.tally.size = c.session.bench.dev.priv.rxbufSize
  earlier : c.receiver.memory.earlier = earlier
  mirrored : c.regs = TxChain.mirror c.session.bench.dev.regs
  enabled : c.regs.sRxEn = true

variable {engine : AxiMasterWr.Bench (List (BitVec 64))} {earlier : List (BitVec 64)} {c : Chain}

/-- What the memory shows of the session's beats, byte by byte. -/
theorem shows_beats {size phys : BitVec 32} {r : Receiver}
    (receives : Receives .ad936xAxi depth engine r)
    (within : Within r.memory.bench.tally.base r.memory.bench.tally.size
      r.memory.bench.dut.regs.sm)
    (base : r.memory.bench.tally.base = phys) (sized : r.memory.bench.tally.size = size) :
    Holds size.toNat (bytesOf 8 r.memory.taken) (ringBytes phys r.memory.slave.port.memory)
      (8 * r.memory.committed) := by
  have remembers := receives.remembers
  obtain ⟨-, bursts⟩ := remembers.agreement.latched.whole within.1.1
  obtain ⟨first, aligned⟩ := remembers.whole within.1.1
  obtain ⟨words, whole⟩ : 8 ∣ size.toNat := by
    rw [← sized]
    exact Nat.dvd_trans (Nat.dvd_mul_left 8 16) bursts
  have held := remembers.fills.held
  have count : r.memory.bench.tally.words = words := by
    rw [Tally.words, sized, whole, Nat.mul_div_cancel_left _ (by decide)]
  have start : r.memory.bench.tally.firstWord = first := by
    rw [Tally.firstWord, aligned, Nat.mul_div_cancel_left _ (by decide)]
  rw [count, start] at held
  exact holds_bytes whole (by rw [← base, aligned]) held

/-- A step of software moves the session alone. -/
theorem Delivers.software (held : Delivers blockSize depth engine earlier c)
    (e : ReceiveEvent) (rule : ChainRule blockSize depth c (.software e)) :
    Delivers blockSize depth engine earlier (c.step blockSize rxBufSize (.software e)) := by
  obtain ⟨software, receive⟩ := rule
  have frame : Frame c.session (receiveSession blockSize rxBufSize
      (bytesOf 8 c.receiver.memory.taken) c.session e) := frame_software _ e software
  exact
    { receives := held.receives
      forwards := held.forwards.step e receive
      stored := frame.stored.trans held.stored
      seen := Nat.le_trans (Nat.le_of_eq frame.written) held.seen
      within := held.within
      begun := held.begun
      base := held.base.trans frame.phys.symm
      size := held.size.trans frame.size.symm
      earlier := held.earlier
      mirrored := held.mirrored.trans (congrArg TxChain.mirror frame.regs.symm)
      enabled := held.enabled }

/-- A clock of the samples moves the path alone. -/
theorem Delivers.iqClock (held : Delivers blockSize depth engine earlier c) {ports : RxPorts}
    {full : Bool} (rule : ChainRule blockSize depth c (.iqClock ports full)) :
    Delivers blockSize depth engine earlier (c.step blockSize rxBufSize (.iqClock ports full)) :=
  { held with receives := held.receives.step rule }

/-- The offset the engine shows covers beats that are in memory. -/
theorem Delivers.report (held : Delivers blockSize depth engine earlier c) :
    Delivers blockSize depth engine earlier (c.step blockSize rxBufSize .report) := by
  have books := held.forwards.ledger.books
  have pointer : c.receiver.path.engine.dut.regs.sWrPtr.toNat =
      Generics.ad936xAxi.burst * c.receiver.memory.bench.tally.answered %
        c.session.bench.size := by
    have offset := held.receives.remembers.agreement.pointer held.begun
    rw [held.size] at offset
    rw [← held.receives.memoryEngine]
    exact offset
  have distance : c.unseen.toNat =
      (Generics.ad936xAxi.burst * c.receiver.memory.bench.tally.answered -
        c.session.bench.written) % c.session.bench.size :=
    cyclicDistance_positions books.ring.positive held.seen books.hardwareAt pointer
  have reduced := Nat.mod_le
    (Generics.ad936xAxi.burst * c.receiver.memory.bench.tally.answered - c.session.bench.written)
    c.session.bench.size
  have seen := held.seen
  have shown : c.session.bench.written + c.unseen.toNat ≤
      Generics.ad936xAxi.burst * c.receiver.memory.bench.tally.answered := by omega
  have backed : Generics.ad936xAxi.burst * c.receiver.memory.bench.tally.answered ≤
      c.session.stored := by
    rw [held.stored, Generics.burst_beats]
    exact Nat.mul_le_mul_left 8 held.receives.remembers.answered
  exact { held with
    forwards := held.forwards.report (Nat.le_trans shown backed)
    seen := shown
    mirrored := held.mirrored }

/-- A clock of the engine, enabled and out of reset, goes on with the session. -/
theorem Delivers.aclk (held : Delivers blockSize depth engine earlier c) {i : PeripheralInputs}
    {empty : Bool} {commits : Nat} (rule : ChainRule blockSize depth c (.aclk i empty commits)) :
    Delivers blockSize depth engine earlier
      (c.step blockSize rxBufSize (.aclk i empty commits)) := by
  obtain ⟨clock, ahead⟩ := rule
  have receives : Receives .ad936xAxi depth engine (c.clocked i empty commits) :=
    held.receives.step clock
  have goesOn : c.receiver.memory.Continues (c.clocked i empty commits).memory :=
    held.receives.remembers.continues _ _ held.within.1.1
  have within : Within c.receiver.memory.bench.tally.base c.receiver.memory.bench.tally.size
      (c.clocked i empty commits).memory.bench.dut.regs.sm :=
    (procSm_moves .ad936xAxi _ _ _ _ clock.2.1.1.1.1).within held.enabled held.within
  rw [← goesOn.base, ← goesOn.size] at within
  have base := goesOn.base.trans held.base
  have size := goesOn.size.trans held.size
  obtain ⟨beats, taken⟩ := goesOn.taken
  have stored := held.stored
  have ordered := held.receives.remembers.fills.ordered
  have same : ∀ position < c.session.stored,
      bytesOf 8 (c.clocked i empty commits).memory.taken position =
        bytesOf 8 c.receiver.memory.taken position := by
    intro position before
    unfold bytesOf
    rw [taken, List.getD_append _ _ _ _ (by omega)]
  have more : c.session.stored ≤ 8 * (c.clocked i empty commits).memory.committed := by
    rw [stored]
    exact Nat.mul_le_mul_left 8 goesOn.committed
  exact
    { receives := receives
      forwards := held.forwards.fill same more (shows_beats receives within base size) ahead
      stored := rfl
      seen := Nat.le_trans held.seen (Nat.mul_le_mul_left _ goesOn.answered)
      within := within
      begun := goesOn.sessions ▸ held.begun
      base := base
      size := size
      earlier := goesOn.earlier.trans held.earlier
      mirrored := held.mirrored
      enabled := held.enabled }

theorem Delivers.step (held : Delivers blockSize depth engine earlier c) {e : ChainEvent}
    (rule : ChainRule blockSize depth c e) :
    Delivers blockSize depth engine earlier (c.step blockSize rxBufSize e) := by
  cases e with
  | software e => exact held.software e rule
  | report => exact held.report
  | iqClock ports full => exact held.iqClock rule
  | aclk i empty commits => exact held.aclk rule

/-- Leaving STANDBY the writer takes the ring at its ports. -/
theorem begins_within {g : Generics} {progFull : Bool} {pending : BitVec 4} {ports : Inputs}
    {sm : SmRegisters} (running : ports.iAresetn = true) (enabled : ports.iEnable = true)
    (standby : sm.sState = .standby) :
    Within ports.iBaseAddr ports.iBufSize (procSm g sm pending ports progFull) := by
  simp [Within, procSm, running, enabled, standby]

/-- ENABLE sets the receive bit when the receive ring has been mapped. -/
theorem enabled_receives {d : Device} (positive : 0 < d.priv.rxbufSize.toNat) :
    (TxChain.mirror (enabled d).regs).sRxEn = true := by
  change (enableCtrl d).getLsbD AxiLite.cCtrlRxEnable = true
  have mapped : 0 < d.priv.rxbufSize := by
    rw [BitVec.lt_def]
    exact positive
  rw [enableCtrl, if_pos mapped, BitVec.getLsbD_or]
  rfl

theorem enabled_ring (d : Device) :
    (enabled d).priv.rxbufPhys = d.priv.rxbufPhys ∧
      (enabled d).priv.rxbufSize = d.priv.rxbufSize := ⟨rfl, rfl⟩

theorem delivers_start {d : Device} {view : Nat → BitVec 8} {r : Receiver}
    {i : PeripheralInputs} {empty : Bool} {commits : Nat}
    (receives : Receives .ad936xAxi depth engine r)
    (resting : r.memory.bench.dut.regs.sm.sState = .standby)
    (rule : ReceiverRule .ad936xAxi depth r
      (.aclk (axiMasterWrInst (TxChain.mirror (enabled d).regs) i) empty commits))
    (ring : BlockRing blockSize d.priv.rxbufSize)
    (based : d.regs.rxBufBase = d.priv.rxbufPhys) (sized : d.regs.rxBufSize = d.priv.rxbufSize) :
    Delivers blockSize depth engine (r.memory.earlier ++ r.memory.taken)
      (chainStart blockSize d view r i empty commits) := by
  have on := enabled_receives ring.positive
  have running := rule.2.1.1.1.1
  have begun : begins r.memory.bench.dut.regs.sm
      (r.driven (axiMasterWrInst (TxChain.mirror (enabled d).regs) i) empty) = true := by
    simp [begins, resting, Receiver.driven, streamed, axiMasterWrInst, on]
  have restarts : r.memory.Restarts (chainStart blockSize d view r i empty commits).receiver.memory
      (r.driven (axiMasterWrInst (TxChain.mirror (enabled d).regs) i) empty) :=
    remember_restarts _ begun
  have entered : Within d.regs.rxBufBase d.regs.rxBufSize
      (chainStart blockSize d view r i empty commits).receiver.memory.bench.dut.regs.sm :=
    begins_within running on resting
  have base := restarts.base
  have size := restarts.size
  obtain ⟨phys, mapped⟩ := enabled_ring d
  exact
    { receives := receives.step rule
      forwards := forwards_started (enabled d) ring _
      stored := congrArg (8 * ·) restarts.committed.symm
      seen := Nat.zero_le _
      within := by
        rw [base, size]
        exact entered
      begun := by
        rw [restarts.sessions]
        exact Nat.succ_pos _
      base := by
        rw [base]
        change d.regs.rxBufBase = (enabled d).priv.rxbufPhys
        rw [based, phys]
      size := by
        rw [size]
        change d.regs.rxBufSize = (enabled d).priv.rxbufSize
        rw [sized, mapped]
      earlier := restarts.earlier
      mirrored := rfl
      enabled := on }

end Invariant

/-! ## Whole runs -/

/-- What `mmap` accepts as a receive ring is a ring of whole blocks, of the size asked
for, on the memory set aside. -/
theorem mmap_receive_ring {blockSize : BitVec 32} {call : MmapCall} {opened mapped : Device}
    (page : call.vmPgoff = 0) (accepted : mmap blockSize call opened = .ok mapped) :
    blockSize.toNat ∣ call.size.toNat ∧ mapped.priv.rxbufSize = call.size ∧
      mapped.regs.rxBufSize = call.size ∧ mapped.regs.rxBufBase = opened.regs.rxBufBase ∧
      mapped.priv.rxbufPhys = opened.priv.rxbufPhys := by
  obtain ⟨checked, rfl⟩ := mmap_ok accepted
  obtain ⟨whole, -⟩ := mmapCheck_ok checked
  refine ⟨whole, ?_⟩
  simp [mmapRegister, mmapSize, page]

/-- A clock of the engine, with what the slave accepts on it. -/
def slavePorts (iAwready iWready iBvalid : Bool) : PeripheralInputs where
  lite := ⟨true, false, 0, false, 0, false, false, 0, false, 0, 0, 0, 0⟩
  iAwready := iAwready
  iWready := iWready
  iBvalid := iBvalid
  iArready := false
  iRdata := 0
  iRlast := false
  iRvalid := false
  sAxisData := 0
  sAxisValid := false
  sTxAxisReady := false

/-- A ring of four blocks of sixteen samples, in two bursts. -/
def smallMap : MmapCall := ⟨256, 0, false⟩

def smallRing : Device := mmapRegister smallMap (mmapSize smallMap (reserved 0x08000000))

/-- Thirty-two samples, each handed to the engine at once. -/
def samplesReceived : List ChainEvent :=
  (List.range 32).flatMap fun k =>
    [.iqClock ⟨BitVec.ofNat 12 k, 0, true⟩ false, .iqClock ⟨0, 0, false⟩ false,
      .aclk (slavePorts false false false) false 1]

/-- The burst they fill. -/
def burstStored : List ChainEvent :=
  .aclk (slavePorts false false false) true 1 :: .aclk (slavePorts true false false) true 1 ::
    List.replicate 17 (.aclk (slavePorts false true false) true 1)

/-- The first of its two blocks is handed to a thread that drops it. -/
def blockDropped : List ChainEvent :=
  samplesReceived ++ burstStored ++
    [.aclk (slavePorts false false true) true 1, .report, .software .tick] ++
    List.replicate 7 (.software .thread)

end Zyndra.RxChain
