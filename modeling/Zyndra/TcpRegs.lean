import Zyndra.AxiLite

/-!
# The register layout of the streaming driver

`ad936x-tcp.c` declares the registers as a C structure of its own, with two control
bits. A write of the driver reaches the register file of the FPGA as the offset of
a field and a word, which the slave decodes. In the driver's structure the control
word has the offset the FPGA gives to a counter that is only read.
-/

namespace Zyndra.Ad936xTcp

open AxiLite

/-- The fields of `struct ad936x_axi_regs`, each a `u32`. -/
inductive Field where
  | info
  | fifo
  | ctrl
  | dropCnt
  | rxBufBase
  | rxBufSize
  | reserved
  | rxBufWr
  deriving DecidableEq, Repr

/-- The fields in the order of their declaration. -/
def ad936xAxiRegs : List Field :=
  [.info, .fifo, .ctrl, .dropCnt, .rxBufBase, .rxBufSize, .reserved, .rxBufWr]

/-- The byte offset of a field. -/
def Field.offset (field : Field) : BitVec 32 := BitVec.ofNat 32 (4 * ad936xAxiRegs.idxOf field)

def ctrlEnable : BitVec 32 := 1 <<< 0
def ctrlReset : BitVec 32 := 1 <<< 1

/-- What the driver keeps about the receive ring. -/
structure Priv where
  rxbufPhys : BitVec 32
  rxbufSize : BitVec 32
  rdPtr : BitVec 32

/-- `writel`: a field and the word written to it. -/
abbrev Writel := Field × BitVec 32

/-- `fpga_reset_and_enable`: its writes, and the driver's data afterwards. -/
def fpgaResetAndEnable (priv : Priv) : List Writel × Priv :=
  ([(.ctrl, ctrlReset), (.ctrl, 0), (.rxBufBase, priv.rxbufPhys), (.rxBufSize, priv.rxbufSize),
    (.ctrl, ctrlEnable)], { priv with rdPtr := 0 })

/-- `fpga_disable`. -/
def fpgaDisable : List Writel := [(.ctrl, 0)]

/-- The registers after the writes have been decoded one after the other. -/
def decodeAll (r : Registers) (writes : List Writel) : Registers :=
  writes.foldl (fun r write => r.assign (write.1.offset.setWidth 8) write.2) r

/-- The FPGA has been reset on the way, and in the end it receives into the driver's
ring and does not transmit. -/
structure Restarted (r : Registers) (priv : Priv) : Prop where
  reset : ∃ n, (decodeAll r ((fpgaResetAndEnable priv).1.take n)).sReset = true
  released : (decodeAll r (fpgaResetAndEnable priv).1).sReset = false
  rxEnabled : (decodeAll r (fpgaResetAndEnable priv).1).sRxEn = true
  txDisabled : (decodeAll r (fpgaResetAndEnable priv).1).sTxEn = false
  base : (decodeAll r (fpgaResetAndEnable priv).1).sRxBufBase = priv.rxbufPhys
  size : (decodeAll r (fpgaResetAndEnable priv).1).sRxBufSize = priv.rxbufSize

/-- A field of the driver that is not its legacy FIFO leaves the control bits. -/
theorem assign_control (r : Registers) (field : Field) (word : BitVec 32) (other : field ≠ .fifo) :
    (r.assign (field.offset.setWidth 8) word).sReset = r.sReset ∧
      (r.assign (field.offset.setWidth 8) word).sRxEn = r.sRxEn ∧
      (r.assign (field.offset.setWidth 8) word).sTxEn = r.sTxEn := by
  cases field with
  | fifo => exact absurd rfl other
  | _ => exact ⟨rfl, rfl, rfl⟩

/-- Writes that avoid that field leave the control bits. -/
theorem decodeAll_control (r : Registers) {writes : List Writel}
    (others : ∀ write ∈ writes, write.1 ≠ .fifo) :
    (decodeAll r writes).sReset = r.sReset ∧ (decodeAll r writes).sRxEn = r.sRxEn ∧
      (decodeAll r writes).sTxEn = r.sTxEn := by
  induction writes generalizing r with
  | nil => exact ⟨rfl, rfl, rfl⟩
  | cons write rest inductionHypothesis =>
    have later := inductionHypothesis (r.assign (write.1.offset.setWidth 8) write.2)
      fun next member => others next (List.mem_cons_of_mem write member)
    have first := assign_control r write.1 write.2 (others write List.mem_cons_self)
    exact ⟨later.1.trans first.1, later.2.1.trans first.2.1, later.2.2.trans first.2.2⟩

theorem restart_avoids_fifo (priv : Priv) :
    ∀ write ∈ (fpgaResetAndEnable priv).1, write.1 ≠ .fifo := by
  simp [fpgaResetAndEnable]

/-- The driver never restarts the FPGA: the reset it would have to pass through is
one it would have to leave, and its writes change no control bit. It disables the
receiver only where that is disabled already. -/
theorem register_maps_differ (r : Registers) (priv : Priv) :
    ¬ Restarted r priv ∧ ((decodeAll r fpgaDisable).sRxEn = false ↔ r.sRxEn = false) := by
  have avoids := restart_avoids_fifo priv
  constructor
  · intro restarted
    obtain ⟨n, reset⟩ := restarted.reset
    have early := decodeAll_control r
      fun write (member : write ∈ (fpgaResetAndEnable priv).1.take n) =>
        avoids write (List.mem_of_mem_take member)
    have late := decodeAll_control r avoids
    have contradictory : r.sReset = false := late.1.symm.trans restarted.released
    rw [early.1, contradictory] at reset
    cases reset
  · have kept : (decodeAll r fpgaDisable).sRxEn = r.sRxEn :=
      (decodeAll_control r (by simp [fpgaDisable])).2.1
    rw [kept]

/-- From the registers after a reset of the bus, and from a running receiver. -/
theorem restart_ignored :
    ¬ Restarted resetRegisters ⟨0x10000000, 0x08000000, 0⟩ ∧
      (decodeAll { resetRegisters with sReset := false, sRxEn := true } fpgaDisable).sRxEn =
        true := by
  refine ⟨?_, rfl⟩
  intro restarted
  exact absurd restarted.rxEnabled (by decide)

end Zyndra.Ad936xTcp
