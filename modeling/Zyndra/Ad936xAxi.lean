import Mathlib.Data.BitVec

/-!
# The sample side of the AXI peripheral

Between the serial interface and the engines `ad936x_axi.vhd` has an asynchronous
FIFO in each direction. The transmit side is combinational: it pops the head word
and offers its sample in the same clock. The receive side registers a write and
the word to be written, so the FIFO takes it one clock after the full flag was
tested. Each side of a FIFO is seen through the flags it shows.
-/

namespace Zyndra.Ad936xAxi

/-- What the read side of a first-word-fall-through FIFO shows. -/
structure FifoReadSide where
  empty : Bool
  rdRstBusy : Bool
  dout : BitVec 32

/-- What the write side of a FIFO shows. -/
structure FifoWriteSide where
  full : Bool
  wrRstBusy : Bool

/-! ## Transmitting -/

/-- `s_tx_fifo_rd`. It does not look at the enable. -/
def sTxFifoRd (iTxIqRdy : Bool) (fifo : FifoReadSide) : Bool :=
  iTxIqRdy && !fifo.empty && !fifo.rdRstBusy

/-- `o_tx_iq_valid`. A disabled transmitter feeds valid zeros. -/
def oTxIqValid (sTxEnable : Bool) (fifo : FifoReadSide) : Bool :=
  if sTxEnable then !fifo.empty && !fifo.rdRstBusy else true

def oTxIqI (sTxEnable : Bool) (fifo : FifoReadSide) : BitVec 12 :=
  if sTxEnable then fifo.dout.extractLsb' 4 12 else 0

def oTxIqQ (sTxEnable : Bool) (fifo : FifoReadSide) : BitVec 12 :=
  if sTxEnable then fifo.dout.extractLsb' 20 12 else 0

/-! ## Receiving -/

/-- The registers of the writer process. -/
structure WriterRegs where
  sFifoWr : Bool
  sSampleDrop : Bool
  sWrData : BitVec 32
  deriving DecidableEq, Repr

/-- The sample ports of the receiver. -/
structure RxPorts where
  iRxIqI : BitVec 12
  iRxIqQ : BitVec 12
  iRxIqValid : Bool
  deriving DecidableEq, Repr

/-- The word a sample is stored as. -/
def rxWord (i q : BitVec 12) : BitVec 32 := q ++ (0 : BitVec 4) ++ i ++ (0 : BitVec 4)

/-- The writer process. -/
def writerProcess (sRxEnable sIqRst : Bool) (ports : RxPorts) (fifo : FifoWriteSide)
    (w : WriterRegs) : WriterRegs :=
  if sRxEnable && !sIqRst && ports.iRxIqValid then
    if fifo.full || fifo.wrRstBusy then { w with sFifoWr := false, sSampleDrop := true }
    else
      { sFifoWr := true, sSampleDrop := false
        sWrData := rxWord ports.iRxIqI ports.iRxIqQ }
  else { w with sFifoWr := false, sSampleDrop := false }

/-- `s_fifo_rd`. -/
def sFifoRd (sAxisReady : Bool) (fifo : FifoReadSide) : Bool :=
  sAxisReady && !fifo.empty && !fifo.rdRstBusy

/-- `s_axis_valid`. -/
def sAxisValid (fifo : FifoReadSide) : Bool := !fifo.empty && !fifo.rdRstBusy

end Zyndra.Ad936xAxi
