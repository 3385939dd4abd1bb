import Zyndra.Driver

/-!
# The receive ring between the hardware, the timer and one reader

The bench interleaves hardware progress, timer ticks and the steps of successful
`read` calls. It follows three stream positions that the driver only knows
modulo the ring: how far the hardware has written, how far the timer has announced
blocks, and where the driver's own account puts the next block to be handed out.
The account is exact by definition: it grows by one block for each block handed
out and by the lost bytes reported.

A snap may skip more than it reports, since lost bytes are counted modulo the ring. The position
the reader really stands for is therefore kept apart from the account.
-/

namespace Zyndra.Driver

open CyclicRing

/-- What is noted about a block when the response for it is made up. -/
structure Handout where
  /-- Stream position of the latest copy of the block that is complete in memory. -/
  place : Nat
  /-- Stream position the reader took the block for. -/
  start : Nat
  /-- How far the hardware had written. -/
  written : Nat
  /-- The lost bytes reported, and whether the overrun branch was taken. -/
  lost : Nat
  overrun : Bool
  /-- Blocks ready when the call returned. -/
  ready : Int

structure RxBench where
  dev : Device
  pc : ReadPc
  /-- Bytes written since ENABLE, and since the last tick. -/
  written : Nat
  sinceTick : Nat
  /-- Position behind `timer_wr_ptr`. -/
  announced : Nat
  /-- Position behind `rd_ptr` by the driver's account, and the one it really
  stands for. They differ when a snap skips more than it reports. -/
  accounted : Nat
  start : Nat
  /-- Where the hardware stood at the snap of the call in progress. -/
  snapAt : Option Nat
  /-- The blocks handed out, newest first. -/
  handed : List Handout

inductive RxEvent where
  | hardware (bytes : Nat)
  | tick
  | reader
  deriving DecidableEq, Repr

/-- The call is about to sample the register for its response. -/
def ReadPc.responds : ReadPc → Bool
  | .responding _ => true
  | _ => false

theorem ReadPc.responds_at {pc : ReadPc} (responds : pc.responds = true) :
    ∃ lost, pc = .responding lost := by
  cases pc with
  | responding lost => exact ⟨lost, rfl⟩
  | _ => cases responds

def RxBench.size (b : RxBench) : Nat := b.dev.priv.rxbufSize.toNat

def RxBench.ready (b : RxBench) : Nat := b.dev.priv.blocksReady.toNat

section Bench

variable (rxBlockSize : BitVec 32)

/-- The place half a ring behind a position, rounded down to a block. -/
def snapTarget (size written : Nat) : Nat :=
  (written - size / 2) / rxBlockSize.toNat * rxBlockSize.toNat

/-- A successful call: long enough, with a buffer that can be written. -/
def success : ReadCall := ⟨12, false⟩

def RxBench.handout (b : RxBench) (lost : BitVec 32) : Handout where
  place := latestCopy b.size rxBlockSize.toNat b.dev.priv.rdPtr.toNat b.written
  start := b.start
  written := b.written
  lost := lost.toNat
  overrun := b.snapAt.isSome
  ready := b.dev.priv.blocksReady.toInt

/-- One step of the reader, with the positions brought up to date. -/
def observeReader (b : RxBench) : RxBench :=
  let taken := readStep rxBlockSize success b.pc b.dev
  let moved := { b with dev := taken.device, pc := taken.pc }
  match b.pc with
  | .snapping =>
    { moved with
      accounted := b.accounted + (lostBytes rxBlockSize b.dev).toNat
      start := snapTarget rxBlockSize b.size b.written
      snapAt := some b.written }
  | .responding lost =>
    { moved with
      accounted := b.accounted + rxBlockSize.toNat
      start := b.start + rxBlockSize.toNat
      snapAt := none
      handed := b.handout rxBlockSize lost :: b.handed }
  | _ => moved

def observe (b : RxBench) : RxEvent → RxBench
  | .hardware bytes =>
    { b with
      dev := { b.dev with regs :=
        { b.dev.regs with rxBufWr := BitVec.ofNat 32 ((b.written + bytes) % b.size) } }
      written := b.written + bytes
      sinceTick := b.sinceTick + bytes }
  | .tick =>
    { b with
      dev := timer rxBlockSize b.dev
      announced := b.announced + (newBlocks rxBlockSize b.dev).toNat * rxBlockSize.toNat
      sinceTick := 0 }
  | .reader => observeReader rxBlockSize b

/-- The bench on return from ENABLE, with the engine started and the write pointer at
zero, on a device whose ring has been mapped. -/
def enabledBench (d : Device) : RxBench where
  dev :=
    { d with
      regs := { d.regs with rxBufWr := 0 }
      priv := { d.priv with rdPtr := 0, timerWrPtr := 0, blocksReady := 0, closing := false } }
  pc := .outside
  written := 0
  sinceTick := 0
  announced := 0
  accounted := 0
  start := 0
  snapAt := none
  handed := []

/-- The hardware writes less than a ring between two ticks. -/
def LapRule (b : RxBench) : RxEvent → Prop
  | .hardware bytes => b.sinceTick + bytes < b.size
  | _ => True

/-- No tick overflows the signed count of ready blocks, nor the 32-bit sum of its
pointer and the advance. -/
def TickFits (b : RxBench) : RxEvent → Prop
  | .tick => b.ready + (newBlocks rxBlockSize b.dev).toNat < 2 ^ 31 ∧
      b.dev.priv.timerWrPtr.toNat +
        (newBlocks rxBlockSize b.dev).toNat * rxBlockSize.toNat < 2 ^ 32
  | _ => True

instance (b : RxBench) : (e : RxEvent) → Decidable (LapRule b e)
  | .hardware _ => inferInstanceAs (Decidable (_ < _))
  | .tick => isTrue trivial
  | .reader => isTrue trivial

instance (b : RxBench) : (e : RxEvent) → Decidable (TickFits rxBlockSize b e)
  | .hardware _ => isTrue trivial
  | .tick => inferInstanceAs (Decidable (_ ∧ _))
  | .reader => isTrue trivial

/-- A ring of whole blocks, fewer of them than a signed 32-bit number can count. -/
structure BlockRing (size : BitVec 32) : Prop where
  block : 0 < rxBlockSize.toNat
  positive : 0 < size.toNat
  whole : rxBlockSize.toNat ∣ size.toNat
  countable : size.toNat / rxBlockSize.toNat < 2 ^ 31

variable {rxBlockSize}

/-- Such a ring is its blocks. -/
theorem BlockRing.blocks_size {size : BitVec 32} (ring : BlockRing rxBlockSize size) :
    size.toNat / rxBlockSize.toNat * rxBlockSize.toNat = size.toNat :=
  Nat.div_mul_cancel ring.whole

/-- A tick leaves the ring. -/
theorem tick_size (b : RxBench) : (observe rxBlockSize b .tick).size = b.size :=
  congrArg BitVec.toNat (timer_frame rxBlockSize b.dev).2.1

/-- A step of the reader that makes up no response hands out no block. -/
theorem observeReader_silent {b : RxBench} (silent : b.pc.responds = false) :
    (observeReader rxBlockSize b).handed = b.handed := by
  unfold observeReader
  cases at_ : b.pc with
  | responding lost => simp [at_, ReadPc.responds] at silent
  | _ => rfl

/-- The response hands out one block. -/
theorem observeReader_response {b : RxBench} {lost : BitVec 32} (at_ : b.pc = .responding lost) :
    (observeReader rxBlockSize b).handed = b.handout rxBlockSize lost :: b.handed := by
  unfold observeReader
  rw [at_]

end Bench

/-- A device with a mapped receive ring, for runs on fixed inputs. -/
def mapped (size : BitVec 32) : Device :=
  mmapRegister ⟨size, 0, false⟩ (mmapSize ⟨size, 0, false⟩ (reserved size))

end Zyndra.Driver
