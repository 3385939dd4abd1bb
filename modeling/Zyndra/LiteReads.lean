import Zyndra.AxiLite
import Zyndra.Runs

/-!
# Register reads, each answered once

The master keeps an address until it is accepted, as the bus demands of it, and
may offer the next one in the clock after. The slave accepts an address in the
clock in which it decodes it. The scoreboard keeps the value each accepted
address had when it was decoded, and the values taken by the master.

The response register is reloaded without a look at `rready`. A run answers every
read exactly when no decoded value arrives over a response that is not taken in
that clock.
-/

namespace Zyndra.AxiLite

open Runs

/-! ## The observer -/

/-- The slave with the reads accepted and answered since the reset. -/
structure ReadBench where
  slave : Slave
  /-- The address offered on the last clock and not accepted by then. -/
  offered : Option (BitVec 32)
  /-- What the addressed register held as each address was accepted. -/
  decoded : List (BitVec 32)
  /-- The values taken by the master. -/
  answers : List (BitVec 32)
  /-- No response offered and not taken has been withdrawn or changed. -/
  stable : Bool
  deriving DecidableEq

/-- One clock of the slave, with the scoreboard brought up to date. -/
def ReadBench.observe (b : ReadBench) (i : Inputs) : ReadBench :=
  let next := clock b.slave i
  { slave := next
    offered := if i.arvalid && !b.slave.read.arready then some i.araddr else none
    decoded := b.decoded ++
      held (i.arvalid && b.slave.read.arready) (b.slave.regs.decode i (i.araddr.setWidth 8))
    answers := b.answers ++ held (b.slave.read.rvalid && i.rready) b.slave.read.rdata
    stable := b.stable && (!(b.slave.read.rvalid && !i.rready) ||
      next.read.rvalid && decide (next.read.rdata = b.slave.read.rdata)) }

/-- No request and no response anywhere. -/
def ReadChannel.Idle (c : ReadChannel) : Prop :=
  c.arready = false ∧ c.sRen = false ∧ c.sRack = false ∧ c.rvalid = false

/-- The bench as the slave leaves its reset. -/
def readReleased (slave : Slave) : ReadBench := ⟨slave, none, [], [], true⟩

/-- No reset, and an address not yet accepted stays as it is. -/
def HoldsAddress (b : ReadBench) (i : Inputs) : Prop :=
  i.aresetn = true ∧ ∀ araddr ∈ b.offered, i.arvalid = true ∧ i.araddr = araddr

/-- A value that arrives finds the response register free, or taken from. -/
def Taken (b : ReadBench) (i : Inputs) : Prop :=
  b.slave.read.sRack = true → b.slave.read.rvalid = true → i.rready = true

/-- The reads are answered exactly once. In order, the values decoded are those
taken, the one offered and the one on its way, and what is offered stays until it
is taken. -/
structure ReadsAnswered (b : ReadBench) : Prop where
  inOrder : b.answers ++ held b.slave.read.rvalid b.slave.read.rdata ++
    held b.slave.read.sRack b.slave.read.sRdata = b.decoded
  stable : b.stable = true

instance idleReadDecidable (c : ReadChannel) : Decidable c.Idle :=
  inferInstanceAs (Decidable (_ ∧ _ ∧ _ ∧ _))

instance (b : ReadBench) (i : Inputs) : Decidable (HoldsAddress b i) :=
  @instDecidableAnd _ _ inferInstance (Option.decidableForallMem b.offered)

instance (b : ReadBench) (i : Inputs) : Decidable (Taken b i) :=
  inferInstanceAs (Decidable (_ → _ → _))

/-- Two clocks in reset, with no address offered, leave nothing in the channels. -/
theorem reset_read_idle (s : Slave) (i j : Inputs) (reset : i.aresetn = false ∧ j.aresetn = false)
    (silent : i.arvalid = false ∧ j.arvalid = false) : (clock (clock s i) j).read.Idle := by
  obtain ⟨_, unrequested, _, _⟩ := readClock_reset s.regs s.read reset.1 silent.1
  obtain ⟨unready, noRequest, sameRack, unanswered⟩ :=
    readClock_reset (clock s i).regs (clock s i).read reset.2 silent.2
  exact ⟨unready, noRequest, sameRack.trans unrequested, unanswered⟩

/-! ## Steps and runs -/

/-- The request register holds the address offered, and exactly then the slave is
ready. -/
structure Requested (b : ReadBench) : Prop where
  requested : b.slave.read.sRen = b.slave.read.arready
  ready : b.offered.isSome = b.slave.read.arready
  address : ∀ araddr ∈ b.offered, b.slave.read.sRaddr = araddr.setWidth 8

section Steps

variable {b : ReadBench} {i : Inputs}

/-- The request register follows the address offered. -/
theorem Requested.observe (holds : HoldsAddress b i) : Requested (b.observe i) := by
  have channel := readClock_running b.slave.regs b.slave.read holds.1
  constructor <;> simp only [ReadBench.observe, clock, channel]
  · cases i.arvalid && !b.slave.read.arready <;> rfl
  · intro araddr found
    cases accepted : i.arvalid && !b.slave.read.arready <;> simp_all

/-- An address is accepted in the clock in which the slave decodes it, with the
value that is decoded. -/
theorem Requested.accepts (requested : Requested b) (holds : HoldsAddress b i) :
    held (i.arvalid && b.slave.read.arready) (b.slave.regs.decode i (i.araddr.setWidth 8)) =
      held b.slave.read.sRen (readClock b.slave.regs b.slave.read i).sRdata := by
  have channel := readClock_running b.slave.regs b.slave.read holds.1
  have ready := requested.ready
  have sameFlag := requested.requested
  cases waitingAddress : b.offered with
  | none =>
    have unready : b.slave.read.arready = false := by simpa [waitingAddress] using ready.symm
    simp [sameFlag, unready, held]
  | some araddr =>
    have nowReady : b.slave.read.arready = true := by simpa [waitingAddress] using ready.symm
    obtain ⟨valid, same⟩ := holds.2 araddr (by simp [waitingAddress])
    have address := requested.address araddr (by simp [waitingAddress])
    simp [channel, sameFlag, nowReady, valid, same, address, held]

/-- Out of the responses taken and offered, the one taken or replaced on this
clock stays in the account exactly when a value that arrives finds it taken. -/
theorem response_kept (answers : List (BitVec 32)) (c : ReadChannel) (rready : Bool) :
    answers ++ held (c.rvalid && rready) c.rdata ++
        held (c.sRack || (c.rvalid && !rready)) (if c.sRack then c.sRdata else c.rdata) =
      answers ++ held c.rvalid c.rdata ++ held c.sRack c.sRdata ↔
      (c.sRack = true → c.rvalid = true → rready = true) := by
  cases c.sRack <;> cases c.rvalid <;> cases rready <;> simp [held]

/-- The reads stay answered exactly when a value that arrives finds room. -/
theorem ReadsAnswered.observe_iff (answered : ReadsAnswered b) (requested : Requested b)
    (holds : HoldsAddress b i) : ReadsAnswered (b.observe i) ↔ Taken b i := by
  have channel := readClock_running b.slave.regs b.slave.read holds.1
  have accepted := requested.accepts holds
  have response := response_kept b.answers b.slave.read i.rready
  have account : (b.observe i).answers ++
        held (b.observe i).slave.read.rvalid (b.observe i).slave.read.rdata ++
        held (b.observe i).slave.read.sRack (b.observe i).slave.read.sRdata =
      (b.observe i).decoded ↔ Taken b i := by
    simp only [ReadBench.observe, clock, accepted, ← answered.inOrder]
    simp only [channel, List.append_cancel_right_eq]
    exact response
  constructor
  · intro later
    exact account.mp later.inOrder
  · intro taken
    refine ⟨account.mpr taken, ?_⟩
    simp only [ReadBench.observe, clock, channel, answered.stable]
    cases arriving : b.slave.read.sRack with
    | false => cases b.slave.read.rvalid <;> cases i.rready <;> simp
    | true =>
      cases offered : b.slave.read.rvalid with
      | false => simp
      | true => simp [taken arriving offered]

/-- Nothing accepted, nothing to answer. -/
theorem readReleased_answered {slave : Slave} (idle : slave.read.Idle) :
    ReadsAnswered (readReleased slave) ∧ Requested (readReleased slave) := by
  obtain ⟨unready, unrequested, undecoded, unanswered⟩ := idle
  constructor
  · constructor <;> simp [readReleased, held, undecoded, unanswered]
  · constructor <;> simp [readReleased, unready, unrequested]

end Steps

/-- Along every run of the slave out of its reset, under a master that keeps an
address until it is accepted, every read is answered once, in order and with the
value decoded for it, and the response stable until it is taken, exactly when no
value arrives over a response not taken. -/
theorem reads_answered_iff (slave : Slave) (idle : slave.read.Idle) (inputs : List Inputs)
    (holds : Follows HoldsAddress ReadBench.observe (readReleased slave) inputs) :
    Always ReadsAnswered ReadBench.observe (readReleased slave) inputs ↔
      Follows Taken ReadBench.observe (readReleased slave) inputs := by
  obtain ⟨begins, requested⟩ := readReleased_answered idle
  have decides (b : ReadBench) (i : Inputs) (inv : Requested b ∧ ReadsAnswered b)
      (held : HoldsAddress b i) : ReadsAnswered (b.observe i) ↔ Taken b i :=
    inv.2.observe_iff inv.1 held
  have preserved (b : ReadBench) (i : Inputs) (inv : Requested b ∧ ReadsAnswered b)
      (held : HoldsAddress b i) (taken : Taken b i) :
      Requested (b.observe i) ∧ ReadsAnswered (b.observe i) :=
    ⟨Requested.observe held, (inv.2.observe_iff inv.1 held).mpr taken⟩
  exact always_iff_follows decides preserved ⟨requested, begins⟩ begins inputs holds

/-- The rule of a master that offers no new address before the answer to the one
before. -/
def ReadsSequentially (b : ReadBench) (i : Inputs) : Prop :=
  HoldsAddress b i ∧
    (i.arvalid = true → b.offered = none → b.decoded.length = b.answers.length)

/-- The reads are answered, at most one value is ahead of the answers, and none
while an address is offered. -/
structure ReadAhead (b : ReadBench) : Prop where
  requested : Requested b
  answered : ReadsAnswered b
  ahead : b.decoded.length ≤ b.answers.length + 1
  level : b.offered.isSome = true → b.decoded.length = b.answers.length

section Sequential

variable {b : ReadBench} {i : Inputs}

/-- With one value ahead of the answers at most, none arrives over another. -/
theorem ReadAhead.taken (inOrder : ReadAhead b) : Taken b i := by
  intro arriving responding
  have ahead := inOrder.ahead
  have count := congrArg List.length inOrder.answered.inOrder
  simp only [List.length_append, length_held, arriving, responding, Bool.toNat_true] at count
  omega

theorem ReadAhead.observe (inOrder : ReadAhead b) (rule : ReadsSequentially b i) :
    ReadAhead (b.observe i) := by
  have answered := (inOrder.answered.observe_iff inOrder.requested rule.1).mpr inOrder.taken
  have count := congrArg List.length answered.inOrder
  obtain ⟨requested, _, ahead, level⟩ := inOrder
  refine ⟨Requested.observe rule.1, answered, ?_, ?_⟩
  · rw [requested.ready] at level
    simp only [ReadBench.observe, List.length_append, length_held]
    cases ready : b.slave.read.arready with
    | false =>
      rw [Bool.and_false, Bool.toNat_false]
      omega
    | true =>
      have levelNow := level ready
      have atMost := (i.arvalid && true).toNat_le
      omega
  · intro offering
    have unready : b.slave.read.arready = false ∧ i.arvalid = true := by
      revert offering
      simp only [ReadBench.observe]
      cases i.arvalid <;> cases b.slave.read.arready <;> simp
    have fresh : b.offered = none := by
      have ready := requested.ready
      rw [unready.1] at ready
      simpa using ready
    have levelNow := rule.2 unready.2 fresh
    have unmoved : (b.observe i).decoded = b.decoded := by
      simp [ReadBench.observe, held, unready.1]
    have grown : b.answers.length ≤ (b.observe i).answers.length := by
      simp [ReadBench.observe]
    simp only [List.length_append] at count
    rw [unmoved] at count ⊢
    omega

end Sequential

/-- Such a master has every read answered, however long it leaves a response. -/
theorem sequential_reads_answered (slave : Slave) (idle : slave.read.Idle) (inputs : List Inputs)
    (sequential : Follows ReadsSequentially ReadBench.observe (readReleased slave) inputs) :
    ReadsAnswered (run ReadBench.observe (readReleased slave) inputs) := by
  obtain ⟨answered, requested⟩ := readReleased_answered idle
  have begins : ReadAhead (readReleased slave) :=
    ⟨requested, answered, by simp [readReleased], by simp [readReleased]⟩
  have preserved : ∀ b i, ReadAhead b → ReadsSequentially b i → ReadAhead (b.observe i) :=
    fun _ _ inOrder rule => inOrder.observe rule
  exact (invariant preserved begins inputs sequential).answered

/-! ## Two reads against back-pressure -/

/-- An address offered, with the response taken or not. -/
def offerRead (araddr : BitVec 32) (rready : Bool) : Inputs :=
  { quietBus with arvalid := true, araddr := araddr, rready := rready }

/-- Two addresses, each kept until accepted, while no response is taken. -/
def readsUnderPressure : List Inputs :=
  [offerRead 0x00 false, offerRead 0x00 false, offerRead 0x04 false, offerRead 0x04 false,
    { quietBus with rready := false }, quietBus]

/-- The value of the second address replaces that of the first. -/
theorem first_read_unanswered :
    quietSlave.read.Idle ∧
      Follows HoldsAddress ReadBench.observe (readReleased quietSlave) readsUnderPressure ∧
      ¬ Always ReadsAnswered ReadBench.observe (readReleased quietSlave) readsUnderPressure := by
  have holds :
      Follows HoldsAddress ReadBench.observe (readReleased quietSlave) readsUnderPressure := by
    decide +kernel
  refine ⟨by decide, holds, ?_⟩
  intro always
  have inOrder := always.last.inOrder
  revert inOrder
  decide +kernel

/-- The same reads with every response taken as it is offered. -/
def readsTaken : List Inputs :=
  [offerRead 0x00 true, offerRead 0x00 true, offerRead 0x04 true, offerRead 0x04 true,
    quietBus, quietBus]

/-- Taken at once, both are answered. -/
theorem reads_answered_taken :
    Always ReadsAnswered ReadBench.observe (readReleased quietSlave) readsTaken :=
  (reads_answered_iff quietSlave (by decide) readsTaken (by decide +kernel)).mpr
    (by decide +kernel)

end Zyndra.AxiLite
