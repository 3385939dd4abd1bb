import Zyndra.SlotRing

/-!
# A ring behind a write-back cache

One actor fills a ring through its cache, the other reads the memory behind the
cache. An element stored shows in memory once its place has been cleaned, and a
cache may write any place back of its own accord at any time. Four positions of
the stream stand behind such a ring: what the reader has given back, what it has
read, what it has been shown and what has been stored.

In the other direction the memory is filled and the cache read. An invalidated place
is loaded again, and a cache may load any place at any time. A block seen through
the cache is the one in memory once its places have been loaded, for as long as
memory does not change under it.
-/

namespace Zyndra.CachedRing

open SlotRing CyclicRing

variable {α : Type*}

/-- The memory, and what the actor in front of the cache sees in its place. -/
structure Cached (α : Type*) where
  view : Nat → α
  memory : Nat → α

/-- Stores at consecutive places. -/
def Cached.lay (c : Cached α) (start count : Nat) (source : Nat → α) : Cached α :=
  { c with view := fun place =>
      if start ≤ place ∧ place < start + count then source (place - start) else c.view place }

/-- The marked places are written back. -/
def Cached.clean (c : Cached α) (marked : Nat → Bool) : Cached α :=
  { c with memory := fun place => if marked place then c.view place else c.memory place }

/-- The marked places are loaded from memory. -/
def Cached.load (c : Cached α) (marked : Nat → Bool) : Cached α :=
  { c with view := fun place => if marked place then c.memory place else c.view place }

/-- The cache shows all that has not been given back, and the memory all that has
been shown and not read. -/
structure Carries (size : Nat) (stream : Nat → α) (c : Cached α) (freed read shown stored : Nat) :
    Prop where
  view : Keeps size stream c.view freed stored
  memory : Keeps size stream c.memory read shown
  given : freed ≤ read
  behind : read ≤ shown
  backed : shown ≤ stored

theorem Cached.lay_none (c : Cached α) (start : Nat) (source : Nat → α) :
    c.lay start 0 source = c := by
  unfold Cached.lay
  congr 1
  funext place
  rw [if_neg (by omega)]

section Operations

variable {size : Nat} {stream : Nat → α} {c : Cached α} {freed read shown stored : Nat}

theorem carries_nothing (size : Nat) (stream : Nat → α) (c : Cached α) :
    Carries size stream c 0 0 0 0 :=
  ⟨Keeps.none _ _ _ _, Keeps.none _ _ _ _, Nat.le_refl 0, Nat.le_refl 0, Nat.le_refl 0⟩

/-- Within a lap a later position lies as far ahead in the ring as in the stream. -/
theorem place_ahead {position ahead : Nat} (fits : position % size + ahead < size) :
    (position + ahead) % size = position % size + ahead := by
  rw [Nat.add_mod, Nat.mod_eq_of_lt (show ahead < size by omega), Nat.mod_eq_of_lt fits]

/-- A memory that takes the next elements at their places, without passing the end of the
ring, and changes no other place keeps them as well. -/
theorem keeps_piece {memory later : Nat → α} {first written count : Nat}
    (keeps : Keeps size stream memory first written) (fits : written % size + count ≤ size)
    (room : written + count ≤ first + size)
    (put : ∀ k < count, later (written % size + k) = stream (written + k))
    (kept : ∀ offset, offset < written % size ∨ written % size + count ≤ offset →
      offset < size → later offset = memory offset) :
    Keeps size stream later first (written + count) := by
  intro position after before
  by_cases earlier : position < written
  · have below : position % size < size := Nat.mod_lt _ (by omega)
    rw [kept _ _ below, keeps position after earlier]
    by_contra inside
    -- A place in the piece is that of a position stored now, less than a lap later.
    have ahead : (written + (position % size - written % size)) % size =
        written % size + (position % size - written % size) := place_ahead (by omega)
    have differ : position % size ≠ (written + (position % size - written % size)) % size :=
      places_differ (by omega) (by omega)
    omega
  · obtain ⟨k, rfl⟩ := Nat.exists_eq_add_of_le (Nat.le_of_not_lt earlier)
    have ahead : (written + k) % size = written % size + k := place_ahead (by omega)
    rw [ahead]
    exact put k (by omega)

/-- The same for a ring of the last elements. -/
theorem holds_piece {memory later : Nat → α} {written count : Nat}
    (held : Holds size stream memory written) (fits : written % size + count ≤ size)
    (put : ∀ k < count, later (written % size + k) = stream (written + k))
    (kept : ∀ offset, offset < written % size ∨ written % size + count ≤ offset →
      offset < size → later offset = memory offset) :
    Holds size stream later (written + count) := by
  intro position before within
  have keeps : Keeps size stream memory (written + count - size) written :=
    keeps_of_holds held (by omega)
  exact keeps_piece keeps fits (by omega) put kept position (by omega) before

/-- Elements stored at the next places, without passing the end of the ring. -/
theorem Carries.lay (carried : Carries size stream c freed read shown stored) {count : Nat}
    {source : Nat → α} (fits : stored % size + count ≤ size)
    (room : stored + count ≤ freed + size) (next : ∀ k < count, source k = stream (stored + k)) :
    Carries size stream (c.lay (stored % size) count source) freed read shown (stored + count) := by
  refine { carried with
    view := keeps_piece carried.view fits room ?_ ?_
    backed := Nat.le_trans carried.backed (Nat.le_add_right _ _) }
  · intro k inside
    change (if _ then _ else _) = _
    rw [if_pos (by omega), Nat.add_sub_cancel_left]
    exact next k inside
  · intro offset apart _
    change (if _ then _ else _) = _
    rw [if_neg (by omega)]

/-- Writing back disturbs nothing, whatever it covers. -/
theorem Carries.clean (carried : Carries size stream c freed read shown stored)
    (marked : Nat → Bool) : Carries size stream (c.clean marked) freed read shown stored := by
  refine { carried with memory := ?_ }
  intro position after before
  change (if _ then _ else _) = _
  split
  · exact carried.view position (Nat.le_trans carried.given after)
      (Nat.lt_of_lt_of_le before carried.backed)
  · exact carried.memory position after before

/-- What has been stored and then written back can be shown. -/
theorem Carries.expose (carried : Carries size stream c freed read shown stored)
    {marked : Nat → Bool} {next : Nat} (further : shown ≤ next) (within : next ≤ stored)
    (covered : ∀ position, shown ≤ position → position < next → marked (position % size) = true) :
    Carries size stream (c.clean marked) freed read next stored := by
  refine { carried with
    memory := ?_, behind := Nat.le_trans carried.behind further, backed := within }
  intro position after before
  by_cases earlier : position < shown
  · exact (carried.clean marked).memory position after earlier
  · change (if _ then _ else _) = _
    rw [if_pos (covered position (Nat.le_of_not_lt earlier) before)]
    exact carried.view position (Nat.le_trans carried.given after)
      (Nat.lt_of_lt_of_le before within)

/-- The reader finds the next element, and leaves it behind. -/
theorem Carries.read_one (carried : Carries size stream c freed read shown stored)
    (some : read < shown) :
    c.memory (read % size) = stream read ∧
      Carries size stream c freed (read + 1) shown stored :=
  ⟨carried.memory read (Nat.le_refl _) some,
    { carried with
      memory := carried.memory.release (Nat.le_succ _)
      given := Nat.le_succ_of_le carried.given
      behind := some }⟩

/-- Places that have been read are given back. -/
theorem Carries.give (carried : Carries size stream c freed read shown stored) {next : Nat}
    (further : freed ≤ next) (within : next ≤ read) :
    Carries size stream c next read shown stored :=
  { carried with view := carried.view.release further, given := within }

/-- The stream may still change behind what has been stored. -/
theorem Carries.congr (carried : Carries size stream c freed read shown stored)
    {later : Nat → α} (same : ∀ position < stored, later position = stream position) :
    Carries size later c freed read shown stored :=
  { carried with
    view := carried.view.congr same
    memory := carried.memory.congr fun position before =>
      same position (Nat.lt_of_lt_of_le before carried.backed) }

end Operations

section Loads

variable {size : Nat} {stream : Nat → α} {c : Cached α} {first last stored : Nat}

/-- A block whose places have all been loaded shows what memory holds. -/
theorem loaded (held : Holds size stream c.memory stored) (complete : last ≤ stored)
    (inside : stored ≤ first + size) {marked : Nat → Bool}
    (covered : ∀ position, first ≤ position → position < last → marked (position % size) = true) :
    Keeps size stream (c.load marked).view first last := by
  intro position after before
  change (if _ then _ else _) = _
  rw [if_pos (covered position after before)]
  exact keeps_of_holds held inside position after (Nat.lt_of_lt_of_le before complete)

/-- Further loads do not disturb it. -/
theorem loaded_again (held : Holds size stream c.memory stored) (complete : last ≤ stored)
    (inside : stored ≤ first + size) (shown : Keeps size stream c.view first last)
    (marked : Nat → Bool) : Keeps size stream (c.load marked).view first last := by
  intro position after before
  change (if _ then _ else _) = _
  split
  · exact keeps_of_holds held inside position after (Nat.lt_of_lt_of_le before complete)
  · exact shown position after before

end Loads

end Zyndra.CachedRing
