import Mathlib.Data.BitVec

/-!
# The serial interface, clock by clock

`ad936x_txrx.vhd` carries a 12-bit I/Q pair in two clocks of a double-data-rate
link with six data bits and a frame bit. Its two processes are next-state
functions of their registers; registers and ports keep their names. A double-data-rate
register passes a pair of halves each clock, the one of the rising edge first.
-/

namespace Zyndra.Ad936xTxrx

/-- A sample of both channels. -/
structure Sample where
  i : BitVec 12
  q : BitVec 12
  deriving DecidableEq, Repr

/-- A bit of type `std_logic`. The registers of the frame bit have no initial value, and
the deserializer tells '0' and '1' from all the others. -/
inductive StdLogic where
  | zero
  | one
  | other
  deriving DecidableEq, Repr

/-- Half a clock of the link: the frame bit and the data bits. -/
structure Half where
  frame : StdLogic
  data : BitVec 6
  deriving DecidableEq, Repr

/-- Bits 11 down to 6. -/
def msb (word : BitVec 12) : BitVec 6 := word.extractLsb' 6 6

/-- Bits 5 down to 0. -/
def lsb (word : BitVec 12) : BitVec 6 := word.extractLsb' 0 6

/-- Assignment to bits 11 down to 6. -/
def setMsb (word : BitVec 12) (data : BitVec 6) : BitVec 12 := data ++ lsb word

/-- Assignment to bits 5 down to 0. -/
def setLsb (word : BitVec 12) (data : BitVec 6) : BitVec 12 := msb word ++ data

@[simp] theorem msb_setMsb (word : BitVec 12) (data : BitVec 6) : msb (setMsb word data) = data :=
  BitVec.extractLsb'_append_eq_left

@[simp] theorem lsb_setMsb (word : BitVec 12) (data : BitVec 6) :
    lsb (setMsb word data) = lsb word :=
  BitVec.extractLsb'_append_eq_right

@[simp] theorem msb_setLsb (word : BitVec 12) (data : BitVec 6) :
    msb (setLsb word data) = msb word :=
  BitVec.extractLsb'_append_eq_left

@[simp] theorem lsb_setLsb (word : BitVec 12) (data : BitVec 6) : lsb (setLsb word data) = data :=
  BitVec.extractLsb'_append_eq_right

/-- A word is given by its upper and its lower bits. -/
theorem word_eq {word other : BitVec 12} (high : msb word = msb other)
    (low : lsb word = lsb other) : word = other := by
  have split : ∀ whole : BitVec (6 + 6), msb whole ++ lsb whole = whole :=
    fun _ => BitVec.extractLsb'_append_extractLsb'
  rw [← split word, high, low, split other]

/-! ## Receiving -/

/-- The registers of the deserializer. -/
structure RxRegs where
  oRxValid : Bool
  oRxI : BitVec 12
  oRxQ : BitVec 12
  sRxIMsb : BitVec 6
  deriving DecidableEq, Repr

/-- The deserializer process. Frame bits 11 and 00 come with the link aligned to
the clock; shifted by half a clock they come as 10 and 01, and the upper bits of
the next I travel through `sRxIMsb`. -/
def deserializer (rise fall : Half) (r : RxRegs) : RxRegs :=
  match rise.frame, fall.frame with
  | .one, .one =>
    { r with
      oRxValid := false, oRxI := setMsb r.oRxI rise.data, oRxQ := setMsb r.oRxQ fall.data }
  | .zero, .zero =>
    { r with
      oRxValid := true, oRxI := setLsb r.oRxI rise.data, oRxQ := setLsb r.oRxQ fall.data }
  | .one, .zero =>
    { r with
      oRxValid := false
      oRxQ := setMsb r.oRxQ rise.data
      oRxI := setLsb (setMsb r.oRxI r.sRxIMsb) fall.data }
  | .zero, .one =>
    { r with oRxValid := true, oRxQ := setLsb r.oRxQ rise.data, sRxIMsb := fall.data }
  | _, _ => { r with oRxValid := false }

/-! ## Transmitting -/

/-- The sample ports of the transmitter. -/
structure TxPorts where
  iTxI : BitVec 12
  iTxQ : BitVec 12
  iTxValid : Bool
  deriving DecidableEq, Repr

/-- The registers of the serializer. -/
structure TxRegs where
  sTxIqFlag : Bool
  oTxUnderrun : Bool
  sTxDataRise : BitVec 6
  sTxDataFall : BitVec 6
  sTxFrameRise : StdLogic
  sTxFrameFall : StdLogic
  sTxILat : BitVec 12
  sTxQLat : BitVec 12
  deriving DecidableEq, Repr

/-- `o_tx_rdy`, high in an MSB phase. -/
def TxRegs.oTxRdy (t : TxRegs) : Bool := !t.sTxIqFlag

/-- The serializer process. -/
def serializer (ports : TxPorts) (t : TxRegs) : TxRegs :=
  if t.sTxIqFlag = false then
    if ports.iTxValid then
      { sTxIqFlag := true, oTxUnderrun := false
        sTxDataRise := msb ports.iTxI, sTxDataFall := msb ports.iTxQ
        sTxFrameRise := .one, sTxFrameFall := .one
        sTxILat := ports.iTxI, sTxQLat := ports.iTxQ }
    else
      { t with
        sTxIqFlag := true, oTxUnderrun := true
        sTxDataRise := msb t.sTxILat, sTxDataFall := msb t.sTxQLat
        sTxFrameRise := .one, sTxFrameFall := .one }
  else
    { t with
      sTxIqFlag := false, oTxUnderrun := false
      sTxDataRise := lsb t.sTxILat, sTxDataFall := lsb t.sTxQLat
      sTxFrameRise := .zero, sTxFrameFall := .zero }

/-- What the output registers hand to the link: a half for each edge. -/
def TxRegs.rise (t : TxRegs) : Half := ⟨t.sTxFrameRise, t.sTxDataRise⟩
def TxRegs.fall (t : TxRegs) : Half := ⟨t.sTxFrameFall, t.sTxDataFall⟩

/-- The latched sample. -/
def TxRegs.latched (t : TxRegs) : Sample := ⟨t.sTxILat, t.sTxQLat⟩

/-- The serializer after configuration. The registers that have no initial value in the
source are arbitrary. -/
def configuredTx (underrun : Bool) (dataRise dataFall : BitVec 6)
    (frameRise frameFall : StdLogic) : TxRegs where
  sTxIqFlag := false
  oTxUnderrun := underrun
  sTxDataRise := dataRise
  sTxDataFall := dataFall
  sTxFrameRise := frameRise
  sTxFrameFall := frameFall
  sTxILat := 0
  sTxQLat := 0

/-! ## Transmit slots

An MSB phase opens a slot. The slot carries the sample accepted then, and without
one the sample of the slot before it. -/

structure Slot where
  sample : Sample
  repeated : Bool
  deriving DecidableEq, Repr

/-- The sample of the last slot; before the first one the latches hold zero. -/
def lastSample (slots : List Slot) : Sample :=
  match slots.getLast? with
  | some slot => slot.sample
  | none => ⟨0, 0⟩

/-- The slot opened by an MSB phase. -/
def openSlot (slots : List Slot) (ports : TxPorts) : Slot :=
  if ports.iTxValid then ⟨⟨ports.iTxI, ports.iTxQ⟩, false⟩ else ⟨lastSample slots, true⟩

/-- The halves in which a sample crosses the link. -/
def slotHalves (sample : Sample) : List Half :=
  [⟨.one, msb sample.i⟩, ⟨.one, msb sample.q⟩, ⟨.zero, lsb sample.i⟩, ⟨.zero, lsb sample.q⟩]

@[simp] theorem lastSample_append (slots : List Slot) (slot : Slot) :
    lastSample (slots ++ [slot]) = slot.sample := by
  simp [lastSample]

section Serializer

variable {t : TxRegs} {slots : List Slot}

/-- An MSB phase latches the sample of its slot and outputs the upper bits. It
raises the underrun exactly when the slot repeats the one before it. -/
theorem serializer_msb (ports : TxPorts) (phase : t.sTxIqFlag = false)
    (latched : t.latched = lastSample slots) :
    (serializer ports t).sTxIqFlag = true ∧
      (serializer ports t).latched = (openSlot slots ports).sample ∧
      (serializer ports t).rise = ⟨.one, msb (openSlot slots ports).sample.i⟩ ∧
      (serializer ports t).fall = ⟨.one, msb (openSlot slots ports).sample.q⟩ ∧
      (serializer ports t).oTxUnderrun = (openSlot slots ports).repeated := by
  cases valid : ports.iTxValid with
  | true => simp [serializer, openSlot, phase, valid, TxRegs.latched, TxRegs.rise, TxRegs.fall]
  | false =>
    simp [serializer, openSlot, phase, valid, ← latched, TxRegs.latched, TxRegs.rise, TxRegs.fall]

/-- An LSB phase keeps the latches, outputs the lower bits and raises nothing. -/
theorem serializer_lsb (ports : TxPorts) (phase : t.sTxIqFlag = true) :
    (serializer ports t).sTxIqFlag = false ∧ (serializer ports t).latched = t.latched ∧
      (serializer ports t).rise = ⟨.zero, lsb t.latched.i⟩ ∧
      (serializer ports t).fall = ⟨.zero, lsb t.latched.q⟩ ∧
      (serializer ports t).oTxUnderrun = false := by
  simp [serializer, phase, TxRegs.latched, TxRegs.rise, TxRegs.fall]

end Serializer

end Zyndra.Ad936xTxrx
