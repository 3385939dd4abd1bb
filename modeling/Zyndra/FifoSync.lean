import Zyndra.BoundedQueue

/-!
# The synchronous FIFO between an engine and its stream

Both AXI engines buffer bursts in a vendor macro, `xpm_fifo_sync`, whose source is not part
of the design. Its ports are a parameter of the engines: any component with these flags, a
head word and a clock can stand in. Addressing and flow control are proved for
every such component; stream integrity is proved for the ideal one, whose flags
reflect the current occupancy exactly.
-/

namespace Zyndra

universe u v

/-- The ports of the FIFO macro that the engines connect, as functions of its
state before the clock. -/
structure XpmFifoSync (Word : Type u) (Fifo : Type v) where
  full : Fifo → Bool
  progFull : Fifo → Bool
  empty : Fifo → Bool
  wrRstBusy : Fifo → Bool
  dout : Fifo → Word
  clock : Fifo → (rst wrEn : Bool) → (din : Word) → (rdEn : Bool) → Fifo

namespace XpmFifoSync

variable {Word : Type u}

/-- First-word-fall-through FIFO of a given depth and programmable-full
threshold: the head word is visible before it is read, and the flags compare
the current occupancy. With nothing stored the output shows the reset value. -/
def ideal (fifoWriteDepth progFullThresh : Nat) (doutResetValue : Word) :
    XpmFifoSync Word (List Word) where
  full contents := decide (fifoWriteDepth ≤ contents.length)
  progFull contents := decide (progFullThresh ≤ contents.length)
  empty contents := contents.isEmpty
  wrRstBusy _ := false
  dout contents := contents.headD doutResetValue
  clock contents rst wrEn din rdEn :=
    if rst then [] else BoundedQueue.clock fifoWriteDepth contents wrEn din rdEn

section Ideal

variable (fifoWriteDepth progFullThresh : Nat) (doutResetValue : Word) (contents : List Word)

@[simp] theorem ideal_full :
    (ideal fifoWriteDepth progFullThresh doutResetValue).full contents =
      decide (fifoWriteDepth ≤ contents.length) := rfl

@[simp] theorem ideal_progFull :
    (ideal fifoWriteDepth progFullThresh doutResetValue).progFull contents =
      decide (progFullThresh ≤ contents.length) := rfl

@[simp] theorem ideal_empty :
    (ideal fifoWriteDepth progFullThresh doutResetValue).empty contents = contents.isEmpty := rfl

@[simp] theorem ideal_wrRstBusy :
    (ideal fifoWriteDepth progFullThresh doutResetValue).wrRstBusy contents = false := rfl

@[simp] theorem ideal_clock (wrEn : Bool) (din : Word) (rdEn : Bool) :
    (ideal fifoWriteDepth progFullThresh doutResetValue).clock contents false wrEn din rdEn =
      BoundedQueue.clock fifoWriteDepth contents wrEn din rdEn := rfl

end Ideal

end XpmFifoSync

/-- A 64-bit word as two words of the stream: the low half is the earlier one. -/
def halves (word : BitVec 64) : List (BitVec 32) := [word.extractLsb' 0 32, word.extractLsb' 32 32]

/-- Two words of the stream packed as the writer packs them come apart again. -/
theorem halves_pack (earlier later : BitVec 32) : halves (later ++ earlier) = [earlier, later] := by
  rw [halves, BitVec.extractLsb'_append_eq_right, BitVec.extractLsb'_append_eq_left]

/-- The generic of both engines: burst length in beats, a VHDL `positive`. -/
structure Generics where
  gBurstLen : Nat
  positive : 0 < gBurstLen

namespace Generics

/-- A burst in bytes. -/
def burst (g : Generics) : Nat := g.gBurstLen * 8

/-- Bursts in bytes are their beats, eight bytes each. -/
theorem burst_beats (g : Generics) (count : Nat) :
    g.burst * count = 8 * (g.gBurstLen * count) := by
  rw [burst, Nat.mul_comm g.gBurstLen 8, Nat.mul_assoc]

/-- Burst size in bytes, as the 32-bit constant the engines add and compare. -/
def cBurstBytes (g : Generics) : BitVec 32 := BitVec.ofNat 32 g.burst

/-- Both engines hold up to four bursts. -/
def cFifoDepth (g : Generics) : Nat := 4 * g.gBurstLen

/-- A burst that divides a 32-bit size is represented exactly by its constant. -/
theorem burst_bytes_exact (g : Generics) {size : BitVec 32} (positive : 0 < size.toNat)
    (whole : g.burst ∣ size.toNat) : g.cBurstBytes.toNat = g.burst := by
  have bounded : g.burst ≤ size.toNat := Nat.le_of_dvd positive whole
  have width : size.toNat < 2 ^ 32 := size.isLt
  rw [cBurstBytes, BitVec.toNat_ofNat, Nat.mod_eq_of_lt (by omega)]

/-- The lengths the engines are documented for: the powers of two from 8 to 256,
which are the divisors of 256 from 8 on. -/
def Documented (g : Generics) : Prop := 8 ≤ g.gBurstLen ∧ g.gBurstLen ∣ 256

/-- A burst of a documented length divides a 4 KiB page. -/
theorem Documented.divides_page {g : Generics} (documented : g.Documented) : g.burst ∣ 4096 := by
  have half : g.burst ∣ 256 * 8 := Nat.mul_dvd_mul_right documented.2 8
  exact Nat.dvd_trans half (by decide)

/-- The burst length `ad936x_axi` instantiates both engines with. -/
def ad936xAxi : Generics := ⟨16, by decide⟩

end Generics

end Zyndra
