import Zyndra.Ad936xEmu
import Zyndra.LastWrite
import Zyndra.LiteWrites
import Zyndra.Peripheral

/-!
# The register file under QEMU and in the FPGA

The guest's accesses reach the emulated peripheral as offsets and the slave of the FPGA
as addresses of one byte. A history of register writes, with ticks in between that
only the emulation knows, leads each of them from its reset state to a register file.

In the FPGA the reset bit of the control word reaches the engines and not the
registers. In the emulation it clears every other register. The write pointer restarts
in the FPGA with the session, and in the emulation only with that reset.
-/

namespace Zyndra.Ad936xEmu

open AxiLite LastWrite Runs

/-- A register write of the guest, or a tick of the timer. -/
inductive Access where
  | write (addr : TRegaddr) (val : BitVec 32)
  | tick
  deriving DecidableEq, Repr

section History

variable (tone : BitVec 32 → BitVec 16 × BitVec 16)

def emulate (s : State) : Access → State
  | .write addr val => ad936xWrite s (addr.setWidth 64) (val.setWidth 64)
  | .tick => (ad936xTick tone s).1

/-- The emulated peripheral after a history. -/
def emulated (history : List Access) : State := history.foldl (emulate tone) State.new

def assignAccess (r : Registers) : Access → Registers
  | .write addr val => r.assign addr val
  | .tick => r

/-- The registers of the FPGA after a history. -/
def registers (history : List Access) : Registers := history.foldl assignAccess resetRegisters

/-- The registers beside the control word that software writes. -/
inductive BufRegister where
  | rxBufBase
  | rxBufSize
  | txBufBase
  | txBufSize
  | txBufWr
  deriving DecidableEq, Repr

namespace BufRegister

def addr : BufRegister → TRegaddr
  | rxBufBase => cRegRxBufBase
  | rxBufSize => cRegRxBufSize
  | txBufBase => cRegTxBufBase
  | txBufSize => cRegTxBufSize
  | txBufWr => cRegTxBufWr

/-- What the emulation holds in the register, and what the FPGA does. -/
def emulatedValue : BufRegister → State → BitVec 32
  | rxBufBase, s => s.rxBufBase
  | rxBufSize, s => s.rxBufSize
  | txBufBase, s => s.txBufBase
  | txBufSize, s => s.txBufSize
  | txBufWr, s => s.txBufWr

def value : BufRegister → Registers → BitVec 32
  | rxBufBase, r => r.sRxBufBase
  | rxBufSize, r => r.sRxBufSize
  | txBufBase, r => r.sTxBufBase
  | txBufSize, r => r.sTxBufSize
  | txBufWr, r => r.sTxBufWr

/-- The word an access writes to the register. -/
def written (reg : BufRegister) : Access → Option (BitVec 32)
  | .write addr val => if addr = reg.addr then some val else none
  | .tick => none

end BufRegister

/-- A write of the control word with the reset bit. -/
def softReset : Access → Bool
  | .write addr val => addr == cRegCtrl && val.getLsbD cCtrlReset
  | .tick => false

/-- The control word and the registers software writes read the same. -/
def SameReads (history : List Access) : Prop :=
  ∀ addr ∈ [cRegCtrl, cRegRxBufBase, cRegRxBufSize, cRegTxBufBase, cRegTxBufSize, cRegTxBufWr],
    ∀ i, ad936xRead (emulated tone history) (addr.setWidth 64) =
      ((registers history).decode i addr).setWidth 64

/-- Every address is that of the control word, of another register software writes, or
of none. -/
theorem addr_cases (addr : TRegaddr) :
    addr = cRegCtrl ∨ (∃ reg : BufRegister, addr = reg.addr) ∨
      addr ≠ cRegCtrl ∧ ∀ reg : BufRegister, addr ≠ reg.addr := by
  by_cases control : addr = cRegCtrl
  · exact .inl control
  · by_cases register : ∃ reg : BufRegister, addr = reg.addr
    · exact .inr (.inl register)
    · exact .inr (.inr ⟨control, fun reg same => register ⟨reg, same⟩⟩)

/-- An offset is the address of the FPGA in a wider word. -/
theorem offset_eq_iff (addr constant : TRegaddr) :
    addr.setWidth 64 = constant.setWidth 64 ↔ addr = constant := by
  constructor
  · intro same
    have back := congrArg (BitVec.setWidth 8) same
    simpa using back
  · intro same
    rw [same]

/-! ## One access -/

/-- The slave leaves the registers on an address that is none of theirs. -/
theorem assign_other (r : Registers) {addr : TRegaddr} (val : BitVec 32) (control : addr ≠ cRegCtrl)
    (others : ∀ reg : BufRegister, addr ≠ reg.addr) : r.assign addr val = r := by
  have rxBase : addr ≠ cRegRxBufBase := others .rxBufBase
  have rxSize : addr ≠ cRegRxBufSize := others .rxBufSize
  have txBase : addr ≠ cRegTxBufBase := others .txBufBase
  have txSize : addr ≠ cRegTxBufSize := others .txBufSize
  have txWr : addr ≠ cRegTxBufWr := others .txBufWr
  simp only [Registers.assign, control, rxBase, rxSize, txBase, txSize, txWr, if_false]

theorem ad936xWrite_other (s : State) {addr : TRegaddr} (val : BitVec 64)
    (control : addr ≠ cRegCtrl) (others : ∀ reg : BufRegister, addr ≠ reg.addr) :
    ad936xWrite s (addr.setWidth 64) val = s := by
  have missed (constant : TRegaddr) (apart : addr ≠ constant) :
      addr.setWidth 64 ≠ constant.setWidth 64 := mt (offset_eq_iff addr constant).mp apart
  have control : addr.setWidth 64 ≠ regCtrl := missed cRegCtrl control
  have rxBase : addr.setWidth 64 ≠ regRxBufBase := missed cRegRxBufBase (others .rxBufBase)
  have rxSize : addr.setWidth 64 ≠ regRxBufSize := missed cRegRxBufSize (others .rxBufSize)
  have txBase : addr.setWidth 64 ≠ regTxBufBase := missed cRegTxBufBase (others .txBufBase)
  have txSize : addr.setWidth 64 ≠ regTxBufSize := missed cRegTxBufSize (others .txBufSize)
  have txWr : addr.setWidth 64 ≠ regTxBufWr := missed cRegTxBufWr (others .txBufWr)
  simp only [ad936xWrite, control, rxBase, rxSize, txBase, txSize, txWr, if_false]

/-- In the FPGA a register keeps what was written to it. -/
theorem value_assignAccess (reg : BufRegister) (r : Registers) (access : Access) :
    reg.value (assignAccess r access) = kept reg.written (reg.value r) access := by
  cases access with
  | tick => rfl
  | write addr val =>
    rcases addr_cases addr with rfl | ⟨other, rfl⟩ | ⟨control, others⟩
    · have apart : cRegCtrl ≠ reg.addr := by cases reg <;> decide
      simp only [kept, BufRegister.written, apart, if_false, Option.getD_none]
      cases reg <;> rfl
    · cases reg <;> cases other <;> rfl
    · have silent : reg.written (.write addr val) = none := if_neg (others reg)
      rw [kept, silent, assignAccess, assign_other r val control others, Option.getD_none]

/-- The bit tested in the emulation is the one the slave takes. -/
theorem reset_bit (val : BitVec 32) :
    (val &&& (ctrlReset ||| ctrlRxEnable ||| ctrlTxEnable)) &&& ctrlReset ≠ 0 ↔
      val.getLsbD cCtrlReset = true := by
  have mask : (ctrlReset ||| ctrlRxEnable ||| ctrlTxEnable) &&& ctrlReset = 1#32 := by decide
  have bit : val &&& 1#32 = BitVec.setWidth 32 (BitVec.ofBool (val.getLsbD 0)) :=
    BitVec.and_one_eq_setWidth_ofBool_getLsbD
  rw [BitVec.and_assoc, mask, bit, cCtrlReset]
  cases val.getLsbD 0 <;> decide

/-- In the emulation the reset bit clears it. -/
theorem emulatedValue_emulate (reg : BufRegister) (s : State) (access : Access) :
    reg.emulatedValue (emulate tone s access) =
      cleared reg.written softReset 0 (reg.emulatedValue s) access := by
  cases access with
  | tick =>
    obtain ⟨rxBufWr, phase, same⟩ := ad936xTick_state tone s
    rw [emulate, same]
    cases reg <;> rfl
  | write addr val =>
    rcases addr_cases addr with rfl | ⟨other, rfl⟩ | ⟨control, others⟩
    · have apart : cRegCtrl ≠ reg.addr := by cases reg <;> decide
      have narrow : (val.setWidth 64).setWidth 32 = val := by simp
      have written : emulate tone s (.write cRegCtrl val) = writeCtrl s (val.setWidth 64) := rfl
      simp only [cleared, softReset, BufRegister.written, apart, if_false, Option.getD_none,
        beq_self_eq_true, Bool.true_and, written, writeCtrl, narrow, reset_bit]
      split
      · cases reg <;> rfl
      · cases reg <;> rfl
    · have apart : other.addr ≠ cRegCtrl := by cases other <;> decide
      have noReset : softReset (.write other.addr val) = false := by simp [softReset, apart]
      have narrow : (val.setWidth 64).setWidth 32 = val := by simp
      rw [cleared, noReset]
      cases reg <;> cases other <;> first | exact narrow | rfl
    · have silent : reg.written (.write addr val) = none := if_neg (others reg)
      have noReset : softReset (.write addr val) = false := by simp [softReset, control]
      rw [cleared, silent, noReset, emulate, ad936xWrite_other s _ control others]
      rfl

/-- The three bits of a control word, as the slave puts them together and as the
emulation masks them. -/
theorem ctrl_bits (val : BitVec 32) :
    val &&& (ctrlReset ||| ctrlRxEnable ||| ctrlTxEnable) =
      assignBit cCtrlReset (val.getLsbD cCtrlReset) |||
        assignBit cCtrlRxEnable (val.getLsbD cCtrlRxEnable) |||
        assignBit cCtrlTxEnable (val.getLsbD cCtrlTxEnable) := by
  have bit (position : Nat) :
      val &&& 1#32 <<< position = assignBit position (val.getLsbD position) := by
    have masked : val &&& BitVec.twoPow 32 position =
        if val.getLsbD position then BitVec.twoPow 32 position else 0#32 :=
      BitVec.and_twoPow val position
    exact masked
  rw [← bit, ← bit, ← bit, ← BitVec.and_or_distrib_left, ← BitVec.and_or_distrib_left]
  rfl

/-- The control word after an access is the one before or the one written. -/
theorem ctrl_emulate (s : State) (r : Registers) (i : Inputs)
    (same : s.ctrl = r.decode i cRegCtrl) (access : Access) :
    (emulate tone s access).ctrl = (assignAccess r access).decode i cRegCtrl := by
  cases access with
  | tick =>
    obtain ⟨rxBufWr, phase, ticked⟩ := ad936xTick_state tone s
    rw [emulate, ticked]
    exact same
  | write addr val =>
    rcases addr_cases addr with rfl | ⟨other, rfl⟩ | ⟨control, others⟩
    · have narrow : (val.setWidth 64).setWidth 32 = val := by simp
      have written : emulate tone s (.write cRegCtrl val) = writeCtrl s (val.setWidth 64) := rfl
      have masked : (writeCtrl s (val.setWidth 64)).ctrl =
          val &&& (ctrlReset ||| ctrlRxEnable ||| ctrlTxEnable) := by
        simp only [writeCtrl, narrow]
        split <;> rfl
      rw [written, masked]
      exact ctrl_bits val
    · cases other <;> exact same
    · rw [emulate, ad936xWrite_other s _ control others, assignAccess,
        assign_other r val control others]
      exact same

/-! ## A history -/

theorem registers_value (reg : BufRegister) (history : List Access) :
    reg.value (registers history) = history.foldl (kept reg.written) 0 := by
  induction history using List.reverseRecOn with
  | nil => cases reg <;> rfl
  | append_singleton history access inductionHypothesis =>
    simp only [registers, List.foldl_append, List.foldl_cons, List.foldl_nil] at *
    rw [value_assignAccess, inductionHypothesis]

theorem emulated_value (reg : BufRegister) (history : List Access) :
    reg.emulatedValue (emulated tone history) =
      history.foldl (cleared reg.written softReset 0) 0 := by
  induction history using List.reverseRecOn with
  | nil => cases reg <;> rfl
  | append_singleton history access inductionHypothesis =>
    simp only [emulated, List.foldl_append, List.foldl_cons, List.foldl_nil] at *
    rw [emulatedValue_emulate, inductionHypothesis]

theorem emulated_ctrl (history : List Access) (i : Inputs) :
    (emulated tone history).ctrl = (registers history).decode i cRegCtrl := by
  induction history using List.reverseRecOn with
  | nil => rfl
  | append_singleton history access inductionHypothesis =>
    simp only [emulated, registers, List.foldl_append, List.foldl_cons, List.foldl_nil] at *
    exact ctrl_emulate tone _ _ i inductionHypothesis access

theorem ad936xRead_register (reg : BufRegister) (s : State) :
    ad936xRead s (reg.addr.setWidth 64) = (reg.emulatedValue s).setWidth 64 := by
  cases reg <;> rfl

theorem decode_register (reg : BufRegister) (r : Registers) (i : Inputs) :
    r.decode i reg.addr = reg.value r := by
  cases reg <;> rfl

/-- A reset writes none of these registers. -/
theorem softReset_silent (reg : BufRegister) (access : Access) (reset : softReset access = true) :
    reg.written access = none := by
  cases access with
  | tick => rfl
  | write addr val =>
    have control : addr = cRegCtrl := by
      simp only [softReset, Bool.and_eq_true, beq_iff_eq] at reset
      exact reset.1
    have apart : cRegCtrl ≠ reg.addr := by cases reg <;> decide
    rw [control]
    exact if_neg apart

/-- All reads are the same exactly when for each register its last write, where a reset
follows it, wrote zero. -/
theorem sameReads_iff (history : List Access) :
    SameReads tone history ↔ ∀ reg : BufRegister, Survives reg.written softReset 0 history := by
  have values (reg : BufRegister) :
      reg.emulatedValue (emulated tone history) = reg.value (registers history) ↔
        Survives reg.written softReset 0 history := by
    rw [registers_value, emulated_value]
    exact cleared_eq_kept_iff (softReset_silent reg) history
  constructor
  · intro same reg
    have member : reg.addr ∈ [cRegCtrl, cRegRxBufBase, cRegRxBufSize, cRegTxBufBase,
        cRegTxBufSize, cRegTxBufWr] := by cases reg <;> decide
    have read := same reg.addr member quietBus
    rw [ad936xRead_register, decode_register] at read
    exact (values reg).mp (by simpa using congrArg (BitVec.setWidth 32) read)
  · intro survives addr member i
    have documented : addr = cRegCtrl ∨ ∃ reg : BufRegister, addr = reg.addr := by
      simp only [List.mem_cons, List.not_mem_nil, or_false] at member
      rcases member with control | rxBase | rxSize | txBase | txSize | txWr
      · exact .inl control
      · exact .inr ⟨.rxBufBase, rxBase⟩
      · exact .inr ⟨.rxBufSize, rxSize⟩
      · exact .inr ⟨.txBufBase, txBase⟩
      · exact .inr ⟨.txBufSize, txSize⟩
      · exact .inr ⟨.txBufWr, txWr⟩
    rcases documented with rfl | ⟨reg, rfl⟩
    · exact congrArg (BitVec.setWidth 64) (emulated_ctrl tone history i)
    · rw [ad936xRead_register, decode_register, (values reg).mpr (survives reg)]

/-! ## A session begins -/

section Session

variable {RxFifo TxFifo : Type} (rxFifo : XpmFifoSync (BitVec 64) RxFifo)
  (txFifo : XpmFifoSync (BitVec 64) TxFifo)

/-- After the history the slave executes a write of the control word on this clock
which takes the receiver's enable from 0 to 1 with the reset clear, while the engine
is idle. The bus is out of reset on this clock and the next. -/
structure Enables (history : List Access) (word : BitVec 32)
    (p : Ad936xAxi.Peripheral RxFifo TxFifo) (i j : Ad936xAxi.PeripheralInputs) : Prop where
  registers : p.slave.regs = registers history
  completes : p.slave.write.complete = true
  address : p.slave.write.sWaddr = cRegCtrl
  written : p.slave.write.sWdata = word
  disabled : p.slave.regs.sRxEn = false
  enables : word.getLsbD cCtrlRxEnable = true
  released : word.getLsbD cCtrlReset = false
  idle : p.writer.regs.sm.sState = .standby
  running : i.lite.aresetn = true ∧ j.lite.aresetn = true

/-- The write pointer reads 0 after the write in the emulation, and in the FPGA once
the engine has seen the enable. -/
structure RestartsBoth (history : List Access) (word : BitVec 32)
    (p : Ad936xAxi.Peripheral RxFifo TxFifo) (i j k : Ad936xAxi.PeripheralInputs) : Prop where
  emulated : ad936xRead (emulated tone (history ++ [.write cRegCtrl word]))
    (cRegRxBufWr.setWidth 64) = 0
  fpga :
    let started := (p.clock rxFifo txFifo i).clock rxFifo txFifo j
    started.slave.regs.decode (started.liteInputs k) cRegRxBufWr = 0

/-- The write sets the enable that the engine sees on the next clock. -/
theorem Enables.enabled {history : List Access} {word : BitVec 32}
    {p : Ad936xAxi.Peripheral RxFifo TxFifo} {i j : Ad936xAxi.PeripheralInputs}
    (enables : Enables history word p i j) :
    (p.clock rxFifo txFifo i).slave.regs.sRxEn = true := by
  have executed : (p.clock rxFifo txFifo i).slave.regs = p.slave.regs.assign cRegCtrl word := by
    have running : (p.liteInputs i).aresetn = true := enables.running.1
    rw [← enables.address, ← enables.written]
    exact (procRegWrite_running _ _ running).trans (if_pos enables.completes)
  rw [executed]
  exact enables.enables

/-- On the clock of the write the engine stays where it is. -/
theorem Enables.waiting {history : List Access} {word : BitVec 32}
    {p : Ad936xAxi.Peripheral RxFifo TxFifo} {i j : Ad936xAxi.PeripheralInputs}
    (enables : Enables history word p i j) :
    (p.clock rxFifo txFifo i).writer.regs.sm.sState = .standby := by
  have idle := enables.idle
  have disabled : (Ad936xAxi.axiMasterWrInst p.slave.regs i).iEnable = false := enables.disabled
  show (AxiMasterWr.procSm _ p.writer.regs.sm _ _ _).sState = .standby
  unfold AxiMasterWr.procSm
  simp only [idle, disabled, Bool.false_eq_true, if_false]
  split
  · rfl
  · exact idle

/-- In the FPGA the write pointer restarts with the session. -/
theorem Enables.fpga_restarts {history : List Access} {word : BitVec 32}
    {p : Ad936xAxi.Peripheral RxFifo TxFifo} {i j : Ad936xAxi.PeripheralInputs}
    (enables : Enables history word p i j) :
    ((p.clock rxFifo txFifo i).clock rxFifo txFifo j).writer.regs.sWrPtr = 0 :=
  if_pos ⟨enables.waiting rxFifo txFifo, enables.enabled rxFifo txFifo⟩

/-- In the emulation it is left where it is. -/
theorem emulated_enable (history : List Access) {word : BitVec 32}
    (released : word.getLsbD cCtrlReset = false) :
    (emulated tone (history ++ [.write cRegCtrl word])).rxBufWr =
      (emulated tone history).rxBufWr := by
  have narrow : (word.setWidth 64).setWidth 32 = word := by simp
  have noReset : ¬ (word &&& (ctrlReset ||| ctrlRxEnable ||| ctrlTxEnable)) &&& ctrlReset ≠ 0 := by
    rw [reset_bit, released]
    exact Bool.false_ne_true
  have written : emulate tone (emulated tone history) (.write cRegCtrl word) =
      writeCtrl (emulated tone history) (word.setWidth 64) := rfl
  have appended : emulated tone (history ++ [.write cRegCtrl word]) =
      writeCtrl (emulated tone history) (word.setWidth 64) := by
    rw [← written]
    exact List.foldl_append
  rw [appended]
  simp only [writeCtrl, narrow, noReset, if_false]

/-- Where the receiver is enabled, both restart exactly when the emulation's write
pointer is 0 already. -/
theorem Enables.restarts_iff {history : List Access} {word : BitVec 32}
    {p : Ad936xAxi.Peripheral RxFifo TxFifo} {i j : Ad936xAxi.PeripheralInputs}
    (enables : Enables history word p i j) (k : Ad936xAxi.PeripheralInputs) :
    RestartsBoth tone rxFifo txFifo history word p i j k ↔
      (emulated tone history).rxBufWr = 0 := by
  have same := emulated_enable tone history enables.released
  constructor
  · intro restarts
    have read : ((emulated tone history).rxBufWr.setWidth 64 : BitVec 64) = 0 := by
      rw [← same]
      exact restarts.emulated
    simpa using congrArg (BitVec.setWidth 32) read
  · intro zero
    refine ⟨?_, enables.fpga_restarts rxFifo txFifo⟩
    show (emulated tone (history ++ [.write cRegCtrl word])).rxBufWr.setWidth 64 = 0
    rw [same, zero]
    rfl

/-- The register files agree, and both restart the write pointer with the session,
exactly when for each register its last write, where a reset follows it, wrote zero,
and the emulation's write pointer is 0 before the session. -/
theorem register_files_agree_iff (history : List Access) (word : BitVec 32)
    (p : Ad936xAxi.Peripheral RxFifo TxFifo) (i j k : Ad936xAxi.PeripheralInputs) :
    (SameReads tone history ∧
        (Enables history word p i j → RestartsBoth tone rxFifo txFifo history word p i j k)) ↔
      (∀ reg : BufRegister, Survives reg.written softReset 0 history) ∧
        (Enables history word p i j → (emulated tone history).rxBufWr = 0) := by
  refine and_congr (sameReads_iff tone history) ?_
  exact forall_congr' fun enables => enables.restarts_iff tone rxFifo txFifo k

end Session

end History

/-- What the slave has executed for a master that completes each write before the next
is a history of its registers. -/
theorem sequential_registers (slave : Slave) (idle : slave.write.Idle)
    (reset : slave.regs = resetRegisters) (inputs : List Inputs)
    (sequential : Follows Sequential WriteBench.observe (AxiLite.released slave) inputs) :
    (run WriteBench.observe (AxiLite.released slave) inputs).slave.regs =
      registers ((run WriteBench.observe (AxiLite.released slave) inputs).executed.map
        fun write => .write write.1 write.2) := by
  have effect := (sequential_writes_kept slave idle inputs sequential).effect
  rw [effect, reset, registers, List.foldl_map]
  rfl

/-! ## Where they differ -/

/-- A ring of one page, a session of one tick, and the control word cleared. -/
def endedSession : List Access :=
  [.write cRegCtrl 0, .write cRegRxBufBase 0x10000000, .write cRegRxBufSize 0x1000,
    .write cRegCtrl 2, .tick, .write cRegCtrl 0]

/-- The peripheral after that, about to execute the write that enables the receiver. -/
def enabling : Ad936xAxi.Peripheral (List (BitVec 64)) (List (BitVec 64)) where
  slave := { quietSlave with
    regs := registers endedSession
    write := ⟨true, true, cRegCtrl, 2, false⟩ }
  writer := ⟨AxiMasterWr.resetRegisters 0 0, []⟩
  reader := ⟨AxiMasterRd.resetRegisters, []⟩

/-- Nothing on either bus and nothing on the streams. -/
def quietInputs : Ad936xAxi.PeripheralInputs where
  lite := quietBus
  iAwready := false
  iWready := false
  iBvalid := false
  iArready := false
  iRdata := 0
  iRlast := false
  iRvalid := false
  sAxisData := 0
  sAxisValid := false
  sTxAxisReady := false

/-- The base reads differently after a reset, and the emulation continues the session
that has ended. -/
theorem register_files_differ :
    ¬ SameReads (fun _ => (0, 0)) [.write cRegRxBufBase 0x10000000, .write cRegCtrl 1] ∧
      Enables endedSession 2 enabling quietInputs quietInputs ∧
      ¬ RestartsBoth (fun _ => (0, 0)) (AxiMasterWr.idealFifo .ad936xAxi)
        (AxiMasterRd.idealFifo .ad936xAxi) endedSession 2 enabling quietInputs quietInputs
        quietInputs := by
  refine ⟨?_, ⟨rfl, rfl, rfl, rfl, by decide, by decide, by decide, rfl, rfl, rfl⟩, ?_⟩
  · intro same
    exact absurd (same cRegRxBufBase (by decide) quietBus) (by decide)
  · intro restarts
    exact absurd restarts.emulated (by decide +kernel)

end Zyndra.Ad936xEmu
