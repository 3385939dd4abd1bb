import Mathlib.Data.Nat.ModEq
import Mathlib.Logic.Function.Basic
import Mathlib.Tactic.Ring

/-!
# Offsets into a ring of bytes

A ring of `size` bytes carries an endless stream: the byte at stream position
`p` lies at offset `p % size`. Two actors exchange offsets only. The laws here
say what can be recovered from offsets about the positions behind them: the
forward distance between two offsets is the distance of the positions reduced
modulo the ring, so a whole ring and an empty one look alike.

Machine offsets are words of any width. The forward distance is computed with a
comparison and wrapping arithmetic, and an offset is advanced with a comparison
against the size; both are exact for offsets below the size, at every size the
word can hold.

A memory into which the stream is stored round the ring holds its last `size`
elements.
-/

namespace Zyndra.CyclicRing

/-- The one value below the size that leads, modulo the size, from one stream
position to a later one is their distance modulo the size. -/
theorem distance_unique {size earlier later value : Nat} (ordered : earlier ≤ later)
    (below : value < size) (leads : (earlier + value) % size = later % size) :
    (later - earlier) % size = value := by
  have split : earlier + (later - earlier) = later := Nat.add_sub_cancel' ordered
  have congruent : earlier + (later - earlier) ≡ earlier + value [MOD size] := by
    rw [split]
    exact leads.symm
  have same : (later - earlier) % size = value % size :=
    Nat.ModEq.add_left_cancel' earlier congruent
  rw [same, Nat.mod_eq_of_lt below]

/-- Two multiples of a step that differ as offsets of a ring of whole steps lie
at least one step apart, so a proper offset leaves room for one more step. -/
theorem step_fits {size step offset : Nat} (whole : step ∣ size) (aligned : step ∣ offset)
    (below : offset < size) : offset + step ≤ size := by
  obtain ⟨count, rfl⟩ := whole
  obtain ⟨index, rfl⟩ := aligned
  have smaller : index < count := Nat.lt_of_mul_lt_mul_left below
  calc step * index + step = step * (index + 1) := by ring
    _ ≤ step * count := Nat.mul_le_mul_left step smaller

/-- The offset of a multiple of the step is again one, in a ring of whole steps. -/
theorem offset_aligned {size step position : Nat} (whole : step ∣ size)
    (aligned : step ∣ position) : step ∣ position % size :=
  (Nat.dvd_mod_iff whole).mpr aligned

/-- Rounding down to whole steps commutes with taking the offset. -/
theorem floor_offset {size step : Nat} (position : Nat) (whole : step ∣ size) :
    position % size / step * step = position / step * step % size := by
  obtain ⟨count, rfl⟩ := whole
  rw [Nat.mod_mul_right_div_self, Nat.mul_comm (position / step) step, Nat.mul_mod_mul_left,
    Nat.mul_comm]

/-- Taking whole steps off a distance takes them off its remainder, as long as the
remainder has them. -/
theorem remainder_sub {size distance part : Nat} (within : part ≤ distance % size) :
    (distance - part) % size = distance % size - part := by
  rcases Nat.eq_zero_or_pos size with rfl | positive
  · simp
  have split := Nat.div_add_mod distance size
  have below : distance % size < size := Nat.mod_lt _ positive
  have regrouped : distance - part = size * (distance / size) + (distance % size - part) := by omega
  rw [regrouped, Nat.mul_add_mod, Nat.mod_eq_of_lt (by omega)]

/-- The position of the latest copy of a block at an offset that is complete once
the stream has been written up to a position. -/
def latestCopy (size block offset written : Nat) : Nat :=
  offset + (written - (offset + block)) / size * size

/-- The latest complete copy of a block is a given complete one exactly until the
next copy, a ring further on, is complete as well. -/
theorem latestCopy_eq_iff {size block offset position written : Nat} (positive : 0 < size)
    (held : offset = position % size) (complete : position + block ≤ written) :
    latestCopy size block offset written = position ↔ written < position + size + block := by
  have split : offset + position / size * size = position := by
    rw [held, Nat.mul_comm]
    exact Nat.mod_add_div position size
  have laps : latestCopy size block offset written = position ↔
      (written - (offset + block)) / size = position / size := by
    constructor
    · intro same
      unfold latestCopy at same
      exact Nat.eq_of_mul_eq_mul_right positive (by omega)
    · intro same
      rw [latestCopy, same, split]
  rw [laps, Nat.div_eq_iff positive]
  omega

/-- Bytes from one offset forward to another, as a number. -/
def forward (size start stop : Nat) : Nat :=
  if start ≤ stop then stop - start else size - start + stop

/-- Without passing the end the distance is a difference, and past it what remains
of the ring plus the offset. -/
theorem forward_cases (size start stop : Nat) :
    start ≤ stop ∧ forward size start stop = stop - start ∨
      stop < start ∧ forward size start stop = size - start + stop := by
  unfold forward
  split <;> omega

/-- An offset lies in the interval from one offset up to another when it is met
before the end is. -/
def Between (size start stop offset : Nat) : Prop :=
  forward size start offset < forward size start stop

instance (size start stop offset : Nat) : Decidable (Between size start stop offset) :=
  inferInstanceAs (Decidable (_ < _))

section Intervals

variable {size start stop offset : Nat}

/-- An offset moved within two laps is reduced by one subtraction at most. -/
theorem offset_moved {step : Nat} (fits : offset + step < 2 * size) :
    size ≤ offset + step ∧ (offset + step) % size = offset + step - size ∨
      offset + step < size ∧ (offset + step) % size = offset + step := by
  by_cases wraps : size ≤ offset + step
  · rw [Nat.mod_eq_sub_mod wraps, Nat.mod_eq_of_lt (by omega)]
    omega
  · rw [Nat.mod_eq_of_lt (by omega)]
    omega

/-- Moving the start of an interval forward inside it shortens it by as much. -/
theorem forward_later {bytes : Nat} (startBelow : start < size) (stopBelow : stop < size)
    (within : bytes ≤ forward size start stop) :
    forward size ((start + bytes) % size) stop = forward size start stop - bytes := by
  have later := forward_cases size ((start + bytes) % size) stop
  obtain ⟨ordered, whole⟩ | ⟨passed, whole⟩ := forward_cases size start stop
  · have inside : (start + bytes) % size = start + bytes := Nat.mod_eq_of_lt (by omega)
    omega
  · have moved : size ≤ start + bytes ∧ (start + bytes) % size = start + bytes - size ∨
        start + bytes < size ∧ (start + bytes) % size = start + bytes := offset_moved (by omega)
    omega

/-- The forward distance as one remainder. -/
theorem forward_mod (startBelow : start < size) (stopBelow : stop < size) :
    forward size start stop = (size - start + stop) % size := by
  obtain ⟨ordered, distance⟩ | ⟨passed, distance⟩ := forward_cases size start stop
  · have around : size - start + stop = size + (stop - start) := by omega
    rw [distance, around, Nat.add_mod_left, Nat.mod_eq_of_lt (by omega)]
  · rw [distance, Nat.mod_eq_of_lt (by omega)]

/-- Moving the end of an interval forward lengthens it by as much, modulo the ring. -/
theorem forward_further {step : Nat} (startBelow : start < size) (stopBelow : stop < size) :
    forward size start ((stop + step) % size) = (forward size start stop + step) % size := by
  have movedBelow : (stop + step) % size < size := Nat.mod_lt _ (by omega)
  rw [forward_mod startBelow movedBelow, forward_mod startBelow stopBelow, Nat.add_mod_mod,
    Nat.mod_add_mod, Nat.add_assoc]

/-- The forward distance leads from one offset to the other. -/
theorem forward_reaches (startBelow : start < size) (stopBelow : stop < size) :
    (start + forward size start stop) % size = stop := by
  obtain ⟨ordered, distance⟩ | ⟨passed, distance⟩ := forward_cases size start stop
  · rw [distance, Nat.add_sub_cancel' ordered, Nat.mod_eq_of_lt stopBelow]
  · have around : start + (size - start + stop) = size + stop := by omega
    rw [distance, around, Nat.add_mod_left, Nat.mod_eq_of_lt stopBelow]

/-- Moving the start of an interval forward inside it leaves a part of it. An
offset beyond the end would stay beyond it. -/
theorem between_of_later {bytes : Nat} (startBelow : start < size) (stopBelow : stop < size)
    (offsetBelow : offset < size) (within : bytes ≤ forward size start stop)
    (between : Between size ((start + bytes) % size) stop offset) :
    Between size start stop offset := by
  unfold Between at *
  by_contra beyond
  have reached : bytes ≤ forward size start offset := by omega
  rw [forward_later startBelow stopBelow within,
    forward_later startBelow offsetBelow reached] at between
  omega

/-- Moving the end of an interval forward adds the bytes passed, and no others. -/
theorem between_extended {next : Nat} (startBelow : start < size) (stopBelow : stop < size)
    (nextBelow : next < size) (offsetBelow : offset < size)
    (between : Between size start next offset) :
    Between size start stop offset ∨ Between size stop next offset := by
  unfold Between at *
  by_cases inside : forward size start offset < forward size start stop
  · exact Or.inl inside
  · have reached : forward size start stop ≤ forward size start offset := by omega
    have further : forward size start stop ≤ forward size start next := by omega
    have fromOffset := forward_later startBelow offsetBelow reached
    have fromNext := forward_later startBelow nextBelow further
    rw [forward_reaches startBelow stopBelow] at fromOffset fromNext
    omega

/-- One step on from an offset of a ring of whole steps is a step away, or back at
the same offset when the ring has only one. -/
theorem forward_step {step : Nat} (fits : start + step ≤ size) (positive : 0 < step) :
    forward size start ((start + step) % size) ≤ step := by
  have below : start < size := by omega
  have none : forward size start start = 0 := by simp [forward]
  rw [forward_further below below, none, Nat.zero_add]
  exact Nat.mod_le step size

end Intervals

section Contents

variable {α : Type*} {size : Nat} {stream memory : Nat → α} {written : Nat}

/-- The memory when the elements of the stream from position `written` on have been
stored. -/
def store (size : Nat) (stream memory : Nat → α) (written : Nat) : Nat → Nat → α
  | 0 => memory
  | count + 1 =>
    Function.update (store size stream memory written count) ((written + count) % size)
      (stream (written + count))

/-- The memory holds the last elements of the stream, a ring of them. -/
def Holds (size : Nat) (stream memory : Nat → α) (written : Nat) : Prop :=
  ∀ position < written, written ≤ position + size → memory (position % size) = stream position

/-- The element stored last is held, and of the others those less than a ring before
it, whose places differ from its own. -/
theorem Holds.store_one (held : Holds size stream memory written) :
    Holds size stream (Function.update memory (written % size) (stream written))
      (written + 1) := by
  intro position before within
  by_cases last : position = written
  · rw [last, Function.update_self]
  · have apart : position % size ≠ written % size := by
      intro same
      have whole : size ∣ written - position :=
        (Nat.modEq_iff_dvd' (by omega)).mp same
      have further : size ≤ written - position := Nat.le_of_dvd (by omega) whole
      omega
    rw [Function.update_of_ne apart]
    exact held position (by omega) (by omega)

theorem Holds.store (held : Holds size stream memory written) (count : Nat) :
    Holds size stream (store size stream memory written count) (written + count) := by
  induction count with
  | zero => exact held
  | succ count inductionHypothesis => exact inductionHypothesis.store_one

/-- A range inside the ring shows the elements from a position on, as long as they
have been stored and none of them overwritten. -/
theorem Holds.range {start position count : Nat} (held : Holds size stream memory written)
    (place : start = position % size) (inside : start + count ≤ size)
    (stored : position + count ≤ written) (kept : written ≤ position + size) :
    (List.range count).map (fun k => memory (start + k)) =
      (List.range count).map fun k => stream (position + k) := by
  apply List.map_congr_left
  intro k member
  have below : k < count := List.mem_range.mp member
  have moved : start + k = (position + k) % size := by
    rw [← Nat.mod_add_mod, ← place, Nat.mod_eq_of_lt (by omega)]
  rw [moved]
  exact held (position + k) (by omega) (by omega)

end Contents

section Words

variable {w : Nat}

/-- Bytes from one offset forward to another, wrapping at the end of the ring. -/
def cyclicDistance (size start stop : BitVec w) : BitVec w :=
  if start ≤ stop then stop - start else size - start + stop

/-- One step forward; an offset that reaches the size becomes zero. -/
def wrapNext (size offset step : BitVec w) : BitVec w :=
  if size ≤ offset + step then 0 else offset + step

/-- Rounding a word down to whole steps does not overflow. -/
theorem floor_toNat (value step : BitVec w) :
    (value / step * step).toNat = value.toNat / step.toNat * step.toNat := by
  have bound : value.toNat / step.toNat * step.toNat < 2 ^ w :=
    Nat.lt_of_le_of_lt (Nat.div_mul_le_self _ _) value.isLt
  rw [BitVec.toNat_mul_of_lt (by rwa [BitVec.toNat_udiv]), BitVec.toNat_udiv]

/-- Without wrapping the distance is a difference, and past the end of the ring
it is what remains of the ring plus the bytes from its start. No intermediate
value overflows while both offsets lie below the size. -/
theorem cyclicDistance_toNat {size start stop : BitVec w} (startBelow : start < size)
    (stopBelow : stop < size) :
    (cyclicDistance size start stop).toNat =
      if start.toNat ≤ stop.toNat then stop.toNat - start.toNat
      else size.toNat - start.toNat + stop.toNat := by
  have startBound : start.toNat < size.toNat := startBelow
  have stopBound : stop.toNat < size.toNat := stopBelow
  have width : size.toNat < 2 ^ w := size.isLt
  unfold cyclicDistance
  by_cases ordered : start ≤ stop
  · have orderedNat : start.toNat ≤ stop.toNat := ordered
    simp only [ordered, orderedNat, if_true]
    exact BitVec.toNat_sub_of_le ordered
  · have passed : ¬ start.toNat ≤ stop.toNat := ordered
    have remaining : (size - start).toNat = size.toNat - start.toNat :=
      BitVec.toNat_sub_of_le (Nat.le_of_lt startBound)
    simp only [ordered, passed, if_false]
    rw [BitVec.toNat_add, remaining, Nat.mod_eq_of_lt (by omega)]

/-- Below the size, the word arithmetic computes the forward distance. -/
theorem cyclicDistance_forward {size start stop : BitVec w} (startBelow : start < size)
    (stopBelow : stop < size) :
    (cyclicDistance size start stop).toNat = forward size.toNat start.toNat stop.toNat :=
  cyclicDistance_toNat startBelow stopBelow

/-- Distances between offsets below the size are themselves below the size. -/
theorem cyclicDistance_lt {size start stop : BitVec w} (startBelow : start < size)
    (stopBelow : stop < size) : (cyclicDistance size start stop).toNat < size.toNat := by
  rw [cyclicDistance_toNat startBelow stopBelow]
  have startBound : start.toNat < size.toNat := startBelow
  have stopBound : stop.toNat < size.toNat := stopBelow
  split <;> omega

/-- The distance of two offsets is the distance of the stream positions behind
them, modulo the ring. A distance of a whole ring therefore reads as zero. -/
theorem cyclicDistance_positions {size start stop : BitVec w} {earlier later : Nat}
    (positive : 0 < size.toNat) (ordered : earlier ≤ later)
    (startOffset : start.toNat = earlier % size.toNat)
    (stopOffset : stop.toNat = later % size.toNat) :
    (cyclicDistance size start stop).toNat = (later - earlier) % size.toNat := by
  have startBelow : start < size := by
    rw [BitVec.lt_def, startOffset]
    exact Nat.mod_lt _ positive
  have stopBelow : stop < size := by
    rw [BitVec.lt_def, stopOffset]
    exact Nat.mod_lt _ positive
  refine (distance_unique ordered (cyclicDistance_lt startBelow stopBelow) ?_).symm
  rw [← Nat.mod_add_mod, ← startOffset, cyclicDistance_toNat startBelow stopBelow, stopOffset]
  have startBound : start.toNat < size.toNat := startBelow
  by_cases direct : start.toNat ≤ later % size.toNat
  · simp only [direct, if_true, Nat.add_sub_cancel' direct]
    exact Nat.mod_mod _ _
  · simp only [direct, if_false]
    have around : start.toNat + (size.toNat - start.toNat + later % size.toNat) =
        size.toNat + later % size.toNat := by omega
    rw [around, Nat.add_mod_left, Nat.mod_mod]

/-- Measured to an offset below the size, a distance stays within the ring exactly when
its start lies no further beyond the end of the ring than the offset from its start. -/
theorem cyclicDistance_within_iff {size start stop : BitVec w} (below : stop < size) :
    (cyclicDistance size start stop).toNat ≤ size.toNat ↔
      start.toNat ≤ size.toNat + stop.toNat := by
  have belowNat : stop.toNat < size.toNat := below
  have width := start.isLt
  unfold cyclicDistance
  by_cases ordered : start ≤ stop
  · have orderedNat : start.toNat ≤ stop.toNat := ordered
    rw [if_pos ordered, BitVec.toNat_sub_of_le ordered]
    omega
  · have passed : stop.toNat < start.toNat := Nat.lt_of_not_le ordered
    have wide := size.isLt
    have wrapped : (size - start + stop).toNat =
        (2 ^ w - start.toNat + (size.toNat + stop.toNat)) % 2 ^ w := by
      rw [BitVec.toNat_add, BitVec.toNat_sub, Nat.mod_add_mod, Nat.add_assoc]
    rw [if_neg ordered, wrapped]
    by_cases reaches : start.toNat ≤ size.toNat + stop.toNat
    · have once : 2 ^ w - start.toNat + (size.toNat + stop.toNat) =
          2 ^ w + (size.toNat + stop.toNat - start.toNat) := by omega
      rw [once, Nat.add_mod_left, Nat.mod_eq_of_lt (by omega)]
      omega
    · rw [Nat.mod_eq_of_lt (by omega)]
      omega

/-- Measured from an offset below the size, a distance stays within the ring exactly
when its end lies no further beyond the end of the ring than that. -/
theorem cyclicDistance_from_within_iff {size start stop : BitVec w} (below : start < size) :
    (cyclicDistance size start stop).toNat ≤ size.toNat ↔
      stop.toNat ≤ size.toNat + start.toNat := by
  have belowNat : start.toNat < size.toNat := below
  by_cases inside : stop < size
  · have insideNat : stop.toNat < size.toNat := inside
    have distance := cyclicDistance_lt below inside
    omega
  · have beyond : size.toNat ≤ stop.toNat := Nat.le_of_not_lt inside
    have ordered : start ≤ stop := BitVec.le_def.mpr (by omega)
    rw [cyclicDistance, if_pos ordered, BitVec.toNat_sub_of_le ordered]
    omega

/-- An offset is its own distance from zero and from the size, and from no other
word. -/
theorem cyclicDistance_self_iff {size start stop : BitVec w} (below : stop < size) :
    cyclicDistance size start stop = stop ↔ start = 0#w ∨ start = size := by
  unfold cyclicDistance
  by_cases ordered : start ≤ stop
  · have apart : start ≠ size := by
      rintro rfl
      exact BitVec.not_lt.mpr ordered below
    rw [if_pos ordered, or_iff_left apart, BitVec.sub_eq_iff_eq_add, eq_comm,
      BitVec.add_right_eq_self]
  · have positive : start ≠ 0#w := by
      rintro rfl
      exact ordered (by simp [BitVec.le_def])
    rw [if_neg ordered, or_iff_right positive, BitVec.add_left_eq_self, BitVec.sub_eq_iff_eq_add,
      BitVec.zero_add, eq_comm]

/-- Advancing an offset that leaves room for the step is advancing the position
behind it, in machine arithmetic without overflow. -/
theorem wrapNext_position {size offset step : BitVec w} {position : Nat}
    (held : offset.toNat = position % size.toNat)
    (fits : offset.toNat + step.toNat ≤ size.toNat) :
    (wrapNext size offset step).toNat = (position + step.toNat) % size.toNat := by
  have width : size.toNat < 2 ^ w := size.isLt
  have sum : (offset + step).toNat = offset.toNat + step.toNat := by
    rw [BitVec.toNat_add, Nat.mod_eq_of_lt (by omega)]
  rw [← Nat.mod_add_mod, ← held]
  unfold wrapNext
  by_cases wraps : size ≤ offset + step
  · have reached : size.toNat ≤ offset.toNat + step.toNat := sum ▸ BitVec.le_def.mp wraps
    have exact : offset.toNat + step.toNat = size.toNat := by omega
    simp [wraps, exact]
  · have inside : offset.toNat + step.toNat < size.toNat := by
      simpa only [BitVec.le_def, sum, Nat.not_le] using wraps
    simp only [wraps, if_false, sum, Nat.mod_eq_of_lt inside]

end Words

end Zyndra.CyclicRing
