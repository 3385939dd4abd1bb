import Zyndra.AxiLite
import Zyndra.AxiMasterRd
import Zyndra.AxiMasterWr

/-!
# The register slave and both engines

The instances of `axi_master_wr` and `axi_master_rd` in `ad936x_axi.vhd`, wired
to the register slave. Both engines are reset by `aresetn and not s_reset`, so
software resets them through the control register while the memory port runs on.
What lies beyond the two streams, the asynchronous FIFOs, is an input.
-/

namespace Zyndra.Ad936xAxi

/-- The inputs of one rising edge of `aclk`. Of those of the register slave, the
two pointers are driven by the engines. -/
structure PeripheralInputs where
  lite : AxiLite.Inputs
  iAwready : Bool
  iWready : Bool
  iBvalid : Bool
  iArready : Bool
  iRdata : BitVec 64
  iRlast : Bool
  iRvalid : Bool
  sAxisData : BitVec 32
  sAxisValid : Bool
  sTxAxisReady : Bool

structure Peripheral (RxFifo TxFifo : Type) where
  slave : AxiLite.Slave
  writer : AxiMasterWr.Entity RxFifo
  reader : AxiMasterRd.Entity TxFifo

/-- The port map of `axi_master_wr_inst`. -/
def axiMasterWrInst (regs : AxiLite.Registers) (i : PeripheralInputs) : AxiMasterWr.Inputs where
  iAresetn := i.lite.aresetn && !regs.sReset
  iEnable := regs.sRxEn
  iBaseAddr := regs.sRxBufBase
  iBufSize := regs.sRxBufSize
  iAwready := i.iAwready
  iWready := i.iWready
  iBvalid := i.iBvalid
  iTdata := i.sAxisData
  iTvalid := i.sAxisValid

/-- The port map of `axi_master_rd_inst`. -/
def axiMasterRdInst (regs : AxiLite.Registers) (i : PeripheralInputs) : AxiMasterRd.Inputs where
  iAresetn := i.lite.aresetn && !regs.sReset
  iEnable := regs.sTxEn
  iBaseAddr := regs.sTxBufBase
  iBufSize := regs.sTxBufSize
  iWrPtr := regs.sTxBufWr
  iArready := i.iArready
  iRdata := i.iRdata
  iRlast := i.iRlast
  iRvalid := i.iRvalid
  iTready := i.sTxAxisReady

section Clock

variable {RxFifo TxFifo : Type} (rxFifo : XpmFifoSync (BitVec 64) RxFifo)
  (txFifo : XpmFifoSync (BitVec 64) TxFifo)

/-- The register slave's inputs, with the pointers the engines report. -/
def Peripheral.liteInputs (p : Peripheral RxFifo TxFifo) (i : PeripheralInputs) : AxiLite.Inputs :=
  { i.lite with sRxBufWr := p.writer.regs.sWrPtr, sTxBufRd := p.reader.regs.sRdPtr }

/-- One rising edge of `aclk`. -/
def Peripheral.clock (p : Peripheral RxFifo TxFifo) (i : PeripheralInputs) :
    Peripheral RxFifo TxFifo where
  slave := AxiLite.clock p.slave (p.liteInputs i)
  writer := AxiMasterWr.clock .ad936xAxi rxFifo p.writer (axiMasterWrInst p.slave.regs i)
  reader := AxiMasterRd.clock .ad936xAxi txFifo p.reader (axiMasterRdInst p.slave.regs i)

end Clock

end Zyndra.Ad936xAxi
