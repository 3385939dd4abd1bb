import Zyndra.CyclicRing

/-!
# A ring of slots handed over by two counting semaphores

A producer fills the slots of a ring in order and a consumer gives them back in
the same order. One semaphore counts the slots that wait for the consumer and the
other those that are free. Each side follows its own pointer; nothing but the two
counts keeps it off the other's slots.

Three totals stand behind the counts: the slots passed on, those taken and those
given back. What has not been given back stays in the ring.
-/

namespace Zyndra.SlotRing

section Contents

variable {α : Type*} {size : Nat} {stream memory : Nat → α} {first written : Nat}

/-- The ring holds the elements of the stream from one position up to another. -/
def Keeps (size : Nat) (stream memory : Nat → α) (first written : Nat) : Prop :=
  ∀ position, first ≤ position → position < written → memory (position % size) = stream position

/-- Nothing is kept between a position and itself. -/
theorem Keeps.none (size : Nat) (stream memory : Nat → α) (position : Nat) :
    Keeps size stream memory position position :=
  fun _ later before => absurd later (Nat.not_le.mpr before)

/-- Two positions less than a ring apart have places of their own. -/
theorem places_differ {earlier later : Nat} (before : earlier < later)
    (within : later < earlier + size) : earlier % size ≠ later % size := by
  intro same
  have whole : size ∣ later - earlier := (Nat.modEq_iff_dvd' (by omega)).mp same
  have further : size ≤ later - earlier := Nat.le_of_dvd (by omega) whole
  omega

/-- The next element goes where none that is kept has its place. -/
theorem Keeps.store_one (kept : Keeps size stream memory first written)
    (room : written < first + size) :
    Keeps size stream (Function.update memory (written % size) (stream written)) first
      (written + 1) := by
  intro position later before
  rcases Nat.lt_succ_iff_lt_or_eq.mp before with earlier | rfl
  · rw [Function.update_of_ne (places_differ earlier (by omega))]
    exact kept position later earlier
  · rw [Function.update_self]

/-- Fewer elements are kept when the first ones are given up. -/
theorem Keeps.release {next : Nat} (kept : Keeps size stream memory first written)
    (later : first ≤ next) : Keeps size stream memory next written :=
  fun position after before => kept position (Nat.le_trans later after) before

/-- Only the elements kept matter. -/
theorem Keeps.congr {stream' : Nat → α} (kept : Keeps size stream memory first written)
    (same : ∀ position < written, stream' position = stream position) :
    Keeps size stream' memory first written :=
  fun position after before => (kept position after before).trans (same position before).symm

/-- A ring that holds the last elements keeps any stretch of them. -/
theorem keeps_of_holds (held : CyclicRing.Holds size stream memory written)
    (within : written ≤ first + size) : Keeps size stream memory first written :=
  fun position after before => held position before (Nat.le_trans within (by omega))

end Contents

section Blocks

variable {α : Type*} {count block : Nat}

/-- Element `k` of a block has its place in the slot of that block. -/
theorem slot_place {index k : Nat} (inside : k < block) :
    (index * block + k) % (count * block) = index % count * block + k := by
  have positive : 0 < block := by omega
  rw [Nat.mul_comm count, Nat.mod_mul, Nat.mul_add_mod', Nat.mod_eq_of_lt inside,
    Nat.mul_comm index, Nat.mul_add_div positive, Nat.div_eq_of_lt inside, Nat.add_zero,
    Nat.add_comm, Nat.mul_comm]

/-- A slot read in full shows the block it was filled with. -/
theorem Keeps.slot {stream memory : Nat → α} {first written index : Nat}
    (kept : Keeps (count * block) stream memory (first * block) (written * block))
    (after : first ≤ index) (before : index < written) {k : Nat} (inside : k < block) :
    memory (index % count * block + k) = stream (index * block + k) := by
  rw [← slot_place inside]
  have start : first * block ≤ index * block := Nat.mul_le_mul_right block after
  have stop : index * block + block ≤ written * block := by
    rw [← Nat.succ_mul]
    exact Nat.mul_le_mul_right block before
  exact kept _ (by omega) (by omega)

end Blocks

/-- The totals behind two semaphores. The producer may hold one free slot that it
has not passed on yet. -/
structure Permits (count passed taken freed used free held : Nat) : Prop where
  used : used + taken = passed
  free : free + held + passed = count + freed
  given : freed ≤ taken

namespace Permits

variable {count passed taken freed used free : Nat}

/-- Nothing has happened: all slots are free. -/
theorem initial (count : Nat) : Permits count 0 0 0 0 count 0 := ⟨rfl, by simp, Nat.le_refl 0⟩

/-- The producer takes a free slot. -/
theorem reserve (permits : Permits count passed taken freed used free 0) (some : 0 < free) :
    Permits count passed taken freed used (free - 1) 1 :=
  ⟨permits.used, by have := permits.free; omega, permits.given⟩

/-- The producer passes its slot on. -/
theorem pass (permits : Permits count passed taken freed used free 1) :
    Permits count (passed + 1) taken freed (used + 1) free 0 :=
  ⟨by have := permits.used; omega, by have := permits.free; omega, permits.given⟩

variable {held : Nat}

/-- The consumer takes a slot that waits. -/
theorem take (permits : Permits count passed taken freed used free held) (some : 0 < used) :
    Permits count passed (taken + 1) freed (used - 1) free held :=
  ⟨by have := permits.used; omega, permits.free, by have := permits.given; omega⟩

/-- The consumer gives back a slot it has taken. -/
theorem give (permits : Permits count passed taken freed used free held)
    (holding : freed < taken) : Permits count passed taken (freed + 1) used (free + 1) held :=
  ⟨permits.used, by have := permits.free; omega, holding⟩

/-- What is taken has been passed on. -/
theorem taken_le (permits : Permits count passed taken freed used free held) : taken ≤ passed := by
  have := permits.used
  omega

/-- A slot that waits is one that has not been taken. -/
theorem waiting (permits : Permits count passed taken freed used free held) (some : 0 < used) :
    taken < passed := by
  have := permits.used
  omega

/-- The slot the producer holds is none of those not given back. -/
theorem room (permits : Permits count passed taken freed used free 1) :
    passed < freed + count := by
  have := permits.free
  omega

/-- All slots not given back have places of their own. -/
theorem within (permits : Permits count passed taken freed used free held) :
    passed ≤ freed + count := by
  have := permits.free
  omega

end Permits

end Zyndra.SlotRing
