import Mathlib.Data.BitVec

/-!
# The emulated peripheral

`ad936x-emu/src/lib.rs` stands in for the FPGA under QEMU. Register accesses of the
guest arrive as reads and writes with an offset, and a timer tick writes a tone into
the receive ring of the guest's memory. The values of the tone are computed with
floating-point numbers from the phase and are a parameter here.

Sums of words wrap, as in a release build.
-/

namespace Zyndra.Ad936xEmu

/-! ## Register offsets -/

def regInfo : BitVec 64 := 0x00
def regCtrl : BitVec 64 := 0x04
def regTxUnderrun : BitVec 64 := 0x08
def regRxOverflow : BitVec 64 := 0x0C
def regRxBufBase : BitVec 64 := 0x10
def regRxBufSize : BitVec 64 := 0x14
def regRxBufWr : BitVec 64 := 0x1C
def regTxBufBase : BitVec 64 := 0x20
def regTxBufSize : BitVec 64 := 0x24
def regTxBufRd : BitVec 64 := 0x28
def regTxBufWr : BitVec 64 := 0x2C

def ctrlReset : BitVec 32 := 1 <<< 0
def ctrlRxEnable : BitVec 32 := 1 <<< 1
def ctrlTxEnable : BitVec 32 := 1 <<< 2

def samplesPerTick : Nat := 256

/-! ## Peripheral state -/

structure State where
  ctrl : BitVec 32
  rxOverflow : BitVec 32
  txUnderrun : BitVec 32
  rxBufBase : BitVec 32
  rxBufSize : BitVec 32
  rxBufWr : BitVec 32
  txBufBase : BitVec 32
  txBufSize : BitVec 32
  txBufRd : BitVec 32
  txBufWr : BitVec 32
  phase : BitVec 32
  deriving DecidableEq, Repr

def State.new : State where
  ctrl := ctrlReset
  rxOverflow := 0
  txUnderrun := 0
  rxBufBase := 0
  rxBufSize := 0
  rxBufWr := 0
  txBufBase := 0
  txBufSize := 0
  txBufRd := 0
  txBufWr := 0
  phase := 0

/-! ## Accesses of the guest -/

/-- `ad936x_read`. -/
def ad936xRead (s : State) (addr : BitVec 64) : BitVec 64 :=
  if addr = regInfo then 0xAD930001
  else if addr = regCtrl then s.ctrl.setWidth 64
  else if addr = regTxUnderrun then s.txUnderrun.setWidth 64
  else if addr = regRxOverflow then s.rxOverflow.setWidth 64
  else if addr = regRxBufBase then s.rxBufBase.setWidth 64
  else if addr = regRxBufSize then s.rxBufSize.setWidth 64
  else if addr = regRxBufWr then s.rxBufWr.setWidth 64
  else if addr = regTxBufBase then s.txBufBase.setWidth 64
  else if addr = regTxBufSize then s.txBufSize.setWidth 64
  else if addr = regTxBufRd then s.txBufRd.setWidth 64
  else if addr = regTxBufWr then s.txBufWr.setWidth 64
  else 0xDEADBEEF

/-- The write of the control word. Its reset bit clears everything else. -/
def writeCtrl (s : State) (val : BitVec 64) : State :=
  let s := { s with ctrl := val.setWidth 32 &&& (ctrlReset ||| ctrlRxEnable ||| ctrlTxEnable) }
  if s.ctrl &&& ctrlReset ≠ 0 then
    { s with
      rxOverflow := 0
      txUnderrun := 0
      rxBufWr := 0
      rxBufBase := 0
      rxBufSize := 0
      txBufBase := 0
      txBufSize := 0
      txBufWr := 0
      txBufRd := 0
      phase := 0 }
  else s

/-- `ad936x_write`. -/
def ad936xWrite (s : State) (addr val : BitVec 64) : State :=
  if addr = regCtrl then writeCtrl s val
  else if addr = regRxBufBase then { s with rxBufBase := val.setWidth 32 }
  else if addr = regRxBufSize then { s with rxBufSize := val.setWidth 32 }
  else if addr = regTxBufBase then { s with txBufBase := val.setWidth 32 }
  else if addr = regTxBufSize then { s with txBufSize := val.setWidth 32 }
  else if addr = regTxBufWr then { s with txBufWr := val.setWidth 32 }
  else s

/-! ## The tick -/

/-- A call of `dma_write`. -/
structure DmaWrite where
  addr : BitVec 64
  buf : List (BitVec 8)
  deriving DecidableEq, Repr

def packIq (iVal qVal : BitVec 16) : BitVec 32 :=
  let i12 := (iVal.signExtend 32 &&& 0xFFF) <<< 4
  let q12 := (qVal.signExtend 32 &&& 0xFFF) <<< 20
  q12 ||| i12

/-- `to_le_bytes`. -/
def toLeBytes (word : BitVec 32) : List (BitVec 8) :=
  (List.range 4).map fun k => word.extractLsb' (8 * k) 8

section Tick

variable (tone : BitVec 32 → BitVec 16 × BitVec 16)

/-- One sample of a tick. -/
def sampleStep (s : State) : State × DmaWrite :=
  let sample := packIq (tone s.phase).1 (tone s.phase).2
  ({ s with rxBufWr := (s.rxBufWr + 4) % s.rxBufSize, phase := s.phase + 1 },
    ⟨s.rxBufBase.setWidth 64 + s.rxBufWr.setWidth 64, toLeBytes sample⟩)

def sampleSteps : Nat → State → State × List DmaWrite
  | 0, s => (s, [])
  | count + 1, s =>
    let first := sampleStep tone s
    let rest := sampleSteps count first.1
    (rest.1, first.2 :: rest.2)

/-- `ad936x_tick`. -/
def ad936xTick (s : State) : State × List DmaWrite :=
  if s.ctrl &&& ctrlRxEnable = 0 ∨ s.ctrl &&& ctrlReset ≠ 0 ∨ s.rxBufSize = 0 then (s, [])
  else sampleSteps tone samplesPerTick s

/-- A tick moves the write pointer and the phase and nothing else. -/
theorem sampleSteps_state (count : Nat) (s : State) :
    ∃ rxBufWr phase,
      (sampleSteps tone count s).1 = { s with rxBufWr := rxBufWr, phase := phase } := by
  induction count generalizing s with
  | zero => exact ⟨s.rxBufWr, s.phase, rfl⟩
  | succ count inductionHypothesis =>
    obtain ⟨rxBufWr, phase, rest⟩ := inductionHypothesis (sampleStep tone s).1
    exact ⟨rxBufWr, phase, by rw [sampleSteps, rest]; rfl⟩

theorem ad936xTick_state (s : State) :
    ∃ rxBufWr phase, (ad936xTick tone s).1 = { s with rxBufWr := rxBufWr, phase := phase } := by
  unfold ad936xTick
  split
  · exact ⟨s.rxBufWr, s.phase, rfl⟩
  · exact sampleSteps_state tone samplesPerTick s

end Tick

end Zyndra.Ad936xEmu
