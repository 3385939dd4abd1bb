import Zyndra.LiteWrites
import Zyndra.Peripheral
import Zyndra.ReadReset
import Zyndra.WriteReset

/-!
# Soft resets and the memory port

Software writes the control register at any moment, and the reset it asserts
reaches both engines and not the memory port. The dues of both engines are
counted along the run.

Neither engine has a path that finishes a burst before it obeys the reset, as
each has for a session that is disabled. All dues are honoured throughout a run
exactly when every reset falls between bursts and every session of the writer
begins with a pending count that the last reset has not falsified. Software that
resets only when nothing is under way meets this.
-/

namespace Zyndra.Ad936xAxi

open Runs

/-- The peripheral with the dues of its engines on the memory port. -/
structure PortBench (RxFifo TxFifo : Type) where
  dut : Peripheral RxFifo TxFifo
  writes : AxiMasterWr.Dues
  reads : AxiMasterRd.Dues

section Bench

variable {RxFifo TxFifo : Type} (rxFifo : XpmFifoSync (BitVec 64) RxFifo)
  (txFifo : XpmFifoSync (BitVec 64) TxFifo)

/-- The ports of the engines on this clock. -/
def PortBench.wr (b : PortBench RxFifo TxFifo) (i : PeripheralInputs) : AxiMasterWr.Inputs :=
  axiMasterWrInst b.dut.slave.regs i

def PortBench.rd (b : PortBench RxFifo TxFifo) (i : PeripheralInputs) : AxiMasterRd.Inputs :=
  axiMasterRdInst b.dut.slave.regs i

/-- One clock of the peripheral, with the dues brought up to date. -/
def PortBench.observe (b : PortBench RxFifo TxFifo) (i : PeripheralInputs) :
    PortBench RxFifo TxFifo where
  dut := b.dut.clock rxFifo txFifo i
  writes := b.writes.count .ad936xAxi b.dut.writer.regs (b.wr i)
  reads := b.reads.count .ad936xAxi b.dut.reader.regs (b.rd i)

/-- Both engines out of their reset, whatever the registers and the FIFOs hold. -/
def portStart (slave : AxiLite.Slave) (sWrPtr sPrevTdata : BitVec 32) (rx : RxFifo) (tx : TxFifo) :
    PortBench RxFifo TxFifo where
  dut :=
    { slave := slave
      writer := ⟨AxiMasterWr.resetRegisters sWrPtr sPrevTdata, rx⟩
      reader := ⟨AxiMasterRd.resetRegisters, tx⟩ }
  writes := AxiMasterWr.noDues
  reads := AxiMasterRd.noDues

/-- The bus is not reset, and the slave answers and returns what it was asked for. -/
def MemoryRule (b : PortBench RxFifo TxFifo) (i : PeripheralInputs) : Prop :=
  i.lite.aresetn = true ∧ AxiMasterWr.Answers b.writes (b.wr i) ∧
    AxiMasterRd.Returns b.reads (b.rd i)

/-- Both engines honour their dues. -/
def BurstsHonoured (b : PortBench RxFifo TxFifo) : Prop :=
  AxiMasterWr.Honoured .ad936xAxi b.dut.writer.regs b.writes ∧
    AxiMasterRd.Honoured .ad936xAxi b.dut.reader.regs b.reads

/-- The clock spares the bursts of both engines. -/
def BurstsSpared (b : PortBench RxFifo TxFifo) (i : PeripheralInputs) : Prop :=
  AxiMasterWr.Spared .ad936xAxi b.writes b.dut.writer.regs (b.wr i) ∧
    AxiMasterRd.Spared b.dut.reader.regs (b.rd i)

/-- The records of both engines are in step. -/
def RecordsInStep (b : PortBench RxFifo TxFifo) : Prop :=
  AxiMasterWr.InStep .ad936xAxi b.dut.writer.regs b.writes ∧
    AxiMasterRd.InStep .ad936xAxi b.dut.reader.regs b.reads

instance (b : PortBench RxFifo TxFifo) (i : PeripheralInputs) : Decidable (MemoryRule b i) :=
  inferInstanceAs (Decidable (_ ∧ _ ∧ _))

instance (b : PortBench RxFifo TxFifo) (i : PeripheralInputs) : Decidable (BurstsSpared b i) :=
  inferInstanceAs (Decidable (_ ∧ _))

/-- The reset that reaches the engines is the one in the control register. -/
theorem engines_reset (b : PortBench RxFifo TxFifo) (i : PeripheralInputs)
    (running : i.lite.aresetn = true) :
    (b.wr i).iAresetn = !b.dut.slave.regs.sReset ∧
      (b.rd i).iAresetn = !b.dut.slave.regs.sReset := by
  simp [PortBench.wr, PortBench.rd, axiMasterWrInst, axiMasterRdInst, running]

theorem start_honoured (slave : AxiLite.Slave) (sWrPtr sPrevTdata : BitVec 32) (rx : RxFifo)
    (tx : TxFifo) :
    BurstsHonoured (portStart slave sWrPtr sPrevTdata rx tx) ∧
      RecordsInStep (portStart slave sWrPtr sPrevTdata rx tx) := by
  obtain ⟨written, writerInStep⟩ :=
    AxiMasterWr.honoured_reset (g := .ad936xAxi) sWrPtr sPrevTdata
  obtain ⟨read, readerInStep⟩ := AxiMasterRd.honoured_reset (g := .ad936xAxi)
  exact ⟨⟨written, read⟩, writerInStep, readerInStep⟩

/-- A clock honours the dues of both engines exactly when it spares the bursts of both. -/
theorem observe_honoured_iff {b : PortBench RxFifo TxFifo} {i : PeripheralInputs}
    (honoured : BurstsHonoured b) (inStep : RecordsInStep b) (rule : MemoryRule b i) :
    BurstsHonoured (b.observe rxFifo txFifo i) ↔ BurstsSpared b i :=
  and_congr (honoured.1.clock_iff rxFifo inStep.1 rule.2.1)
    (honoured.2.clock_iff txFifo inStep.2 rule.2.2)

theorem observe_inStep {b : PortBench RxFifo TxFifo} {i : PeripheralInputs}
    (honoured : BurstsHonoured b) (inStep : RecordsInStep b) (rule : MemoryRule b i) :
    RecordsInStep (b.observe rxFifo txFifo i) :=
  ⟨inStep.1.clock rxFifo honoured.1 rule.2.1, inStep.2.clock txFifo honoured.2 rule.2.2⟩

/-- Along every run with the bus out of reset, whatever software writes and when,
the dues of both engines are honoured exactly when every clock spares their
bursts. -/
theorem bursts_honoured_iff (slave : AxiLite.Slave) (sWrPtr sPrevTdata : BitVec 32) (rx : RxFifo)
    (tx : TxFifo) (inputs : List PeripheralInputs)
    (follows : Follows MemoryRule (PortBench.observe rxFifo txFifo)
      (portStart slave sWrPtr sPrevTdata rx tx) inputs) :
    Always BurstsHonoured (PortBench.observe rxFifo txFifo)
        (portStart slave sWrPtr sPrevTdata rx tx) inputs ↔
      Follows BurstsSpared (PortBench.observe rxFifo txFifo)
        (portStart slave sWrPtr sPrevTdata rx tx) inputs := by
  obtain ⟨begins, recorded⟩ := start_honoured slave sWrPtr sPrevTdata rx tx
  have decides (b : PortBench RxFifo TxFifo) (i : PeripheralInputs)
      (kept : BurstsHonoured b ∧ RecordsInStep b) (rule : MemoryRule b i) :
      BurstsHonoured (b.observe rxFifo txFifo i) ↔ BurstsSpared b i :=
    observe_honoured_iff rxFifo txFifo kept.1 kept.2 rule
  have preserved (b : PortBench RxFifo TxFifo) (i : PeripheralInputs)
      (kept : BurstsHonoured b ∧ RecordsInStep b) (rule : MemoryRule b i)
      (spared : BurstsSpared b i) :
      BurstsHonoured (b.observe rxFifo txFifo i) ∧ RecordsInStep (b.observe rxFifo txFifo i) :=
    ⟨(decides b i kept rule).mpr spared, observe_inStep rxFifo txFifo kept.1 kept.2 rule⟩
  exact always_iff_follows decides preserved ⟨begins, recorded⟩ begins inputs follows

/-- Software resets when neither engine is at a burst and every burst is answered,
and the slave holds at most fifteen. -/
def QuietRule (b : PortBench RxFifo TxFifo) (i : PeripheralInputs) : Prop :=
  MemoryRule b i ∧
    (b.dut.slave.regs.sReset = true →
      AxiMasterWr.oAwvalid b.dut.writer.regs.sm = false ∧
        AxiMasterWr.oWvalid b.dut.writer.regs.sm = false ∧ b.writes.outstanding = 0 ∧
        AxiMasterRd.oArvalid b.dut.reader.regs = false ∧
        AxiMasterRd.oRready b.dut.reader.regs = false) ∧
    b.writes.answer b.dut.writer.regs.sm (b.wr i) ≤ 15

/-- Nothing is forgotten, and the pending count tells the bursts outstanding apart. -/
def Remembered (b : PortBench RxFifo TxFifo) : Prop :=
  b.writes.forgotten = 0 ∧ b.writes.outstanding < 16

/-- A quiet reset forgets no burst. -/
theorem Remembered.observe {b : PortBench RxFifo TxFifo} {i : PeripheralInputs}
    (remembered : Remembered b) (rule : QuietRule b i) :
    Remembered (b.observe rxFifo txFifo i) := by
  obtain ⟨⟨running, _⟩, quiet, room⟩ := rule
  obtain ⟨wired, _⟩ := engines_reset b i running
  refine ⟨?_, Nat.lt_succ_of_le room⟩
  change (if (b.wr i).iAresetn then b.writes.forgotten
    else b.writes.answer b.dut.writer.regs.sm (b.wr i)) = 0
  rw [wired]
  cases resetting : b.dut.slave.regs.sReset with
  | false => exact remembered.1
  | true =>
    obtain ⟨noAddress, _, none, _⟩ := quiet resetting
    simp [AxiMasterWr.Dues.answer, AxiMasterWr.awHandshake, noAddress, none]

/-- A quiet reset spares every burst. -/
theorem Remembered.spared {b : PortBench RxFifo TxFifo} {i : PeripheralInputs}
    (remembered : Remembered b) (rule : QuietRule b i) : BurstsSpared b i := by
  obtain ⟨⟨running, _⟩, quiet, _⟩ := rule
  obtain ⟨writerWired, readerWired⟩ := engines_reset b i running
  refine ⟨⟨?_, ?_⟩, ?_⟩
  · intro reset
    have resetting : b.dut.slave.regs.sReset = true := by simpa [writerWired] using reset
    obtain ⟨noAddress, noBeat, _⟩ := quiet resetting
    have idle : b.dut.writer.regs.sm.sState ≠ .wSend := of_decide_eq_false noBeat
    exact ⟨of_decide_eq_false noAddress, fun sending => absurd sending idle⟩
  · intro _
    exact ⟨remembered.2, remembered.1 ▸ Nat.dvd_zero 16⟩
  · intro reset
    have resetting : b.dut.slave.regs.sReset = true := by simpa [readerWired] using reset
    obtain ⟨_, _, _, noAddress, noData⟩ := quiet resetting
    have idle : b.dut.reader.regs.sState ≠ .rRecv := of_decide_eq_false noData
    exact ⟨of_decide_eq_false noAddress, fun receiving => absurd receiving idle⟩

/-- The dues honoured, the records in step, and nothing forgotten. -/
structure Undisturbed (b : PortBench RxFifo TxFifo) : Prop where
  honoured : BurstsHonoured b
  inStep : RecordsInStep b
  remembered : Remembered b

theorem Undisturbed.observe {b : PortBench RxFifo TxFifo} {i : PeripheralInputs}
    (undisturbed : Undisturbed b) (rule : QuietRule b i) :
    Undisturbed (b.observe rxFifo txFifo i) := by
  obtain ⟨honoured, inStep, remembered⟩ := undisturbed
  have spared := remembered.spared rule
  exact ⟨(observe_honoured_iff rxFifo txFifo honoured inStep rule.1).mpr spared,
    observe_inStep rxFifo txFifo honoured inStep rule.1, remembered.observe rxFifo txFifo rule⟩

/-- Software that resets only while nothing is under way has every burst honoured. -/
theorem quiet_resets_honoured (slave : AxiLite.Slave) (sWrPtr sPrevTdata : BitVec 32) (rx : RxFifo)
    (tx : TxFifo) (inputs : List PeripheralInputs)
    (quiet : Follows QuietRule (PortBench.observe rxFifo txFifo)
      (portStart slave sWrPtr sPrevTdata rx tx) inputs) :
    BurstsHonoured (run (PortBench.observe rxFifo txFifo)
      (portStart slave sWrPtr sPrevTdata rx tx) inputs) := by
  obtain ⟨honoured, inStep⟩ := start_honoured slave sWrPtr sPrevTdata rx tx
  have begins : Undisturbed (portStart slave sWrPtr sPrevTdata rx tx) :=
    ⟨honoured, inStep, rfl, Nat.succ_pos 15⟩
  have preserved (b : PortBench RxFifo TxFifo) (i : PeripheralInputs) (undisturbed : Undisturbed b)
      (rule : QuietRule b i) : Undisturbed (b.observe rxFifo txFifo i) :=
    undisturbed.observe rxFifo txFifo rule
  exact (invariant preserved begins inputs quiet).honoured

end Bench

/-! ## A reset while an address is offered -/

/-- Nothing on any bus. -/
def quietPorts : PeripheralInputs where
  lite := AxiLite.quietBus
  iAwready := false
  iWready := false
  iBvalid := false
  iArready := false
  iRdata := 0
  iRlast := false
  iRvalid := false
  sAxisData := 0
  sAxisValid := false
  sTxAxisReady := true

/-- A register written, and the clock on which the write is executed. -/
def writes (address data : BitVec 32) : List PeripheralInputs :=
  [{ quietPorts with lite := AxiLite.offerWrite address data }, quietPorts]

/-- A transmit ring of 256 bytes with one burst published, and the reader enabled. -/
def transmitOn : List PeripheralInputs := writes 0x24 256 ++ writes 0x2C 128 ++ writes 0x04 4

/-- Software resets while the reader offers its first address. -/
def resetWhileOffered : List PeripheralInputs :=
  transmitOn ++ [quietPorts, quietPorts] ++ writes 0x04 1 ++ [quietPorts]

/-- The start of a run with everything empty. -/
def emptyStart : PortBench (List (BitVec 64)) (List (BitVec 64)) :=
  portStart AxiLite.quietSlave 0 0 [] []

/-- One clock with the FIFOs of the engines ideal. -/
def idealObserve : PortBench (List (BitVec 64)) (List (BitVec 64)) → PeripheralInputs →
    PortBench (List (BitVec 64)) (List (BitVec 64)) :=
  PortBench.observe (AxiMasterWr.idealFifo .ad936xAxi) (AxiMasterRd.idealFifo .ad936xAxi)

/-- The address is withdrawn without having been accepted. -/
theorem offered_address_withdrawn :
    Follows MemoryRule idealObserve emptyStart resetWhileOffered ∧
      ¬ Always BurstsHonoured idealObserve emptyStart resetWhileOffered := by
  have follows : Follows MemoryRule idealObserve emptyStart resetWhileOffered := by
    decide +kernel
  refine ⟨follows, ?_⟩
  intro always
  have offered := always.last.2.offered
  revert offered
  decide +kernel

/-- One beat returned, on a clock on which software may do something. -/
def returnBeat (lite : AxiLite.Inputs) (last : Bool) : PeripheralInputs :=
  { quietPorts with lite := lite, iRvalid := true, iRlast := last }

/-- Software resets while a burst is received, so that the reset arrives with the
last beat, and enables the reader again. -/
def resetWithLastBeat : List PeripheralInputs :=
  transmitOn ++ [quietPorts, quietPorts, { quietPorts with iArready := true }] ++
    List.replicate 13 (returnBeat AxiLite.quietBus false) ++
    [returnBeat (AxiLite.offerWrite 0x04 1) false, returnBeat AxiLite.quietBus false,
      returnBeat AxiLite.quietBus true] ++
    writes 0x04 4 ++ [quietPorts, quietPorts]

/-- Such a reset abandons nothing. -/
theorem bursts_honoured_last_beat :
    Always BurstsHonoured (PortBench.observe (AxiMasterWr.idealFifo .ad936xAxi)
      (AxiMasterRd.idealFifo .ad936xAxi)) emptyStart resetWithLastBeat :=
  (bursts_honoured_iff _ _ AxiLite.quietSlave 0 0 [] [] resetWithLastBeat
    (by decide +kernel)).mpr (by decide +kernel)

end Zyndra.Ad936xAxi
