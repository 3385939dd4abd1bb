import Zyndra.CyclicRing

/-!
# Posted writes to a ring in memory

A port accepts writes and carries them out later, in the order in which they were
accepted. A stream whose elements are written round a ring through such a port is
in memory up to the writes carried out; the rest of it waits in the port, each
element with the place it goes to. Nothing outside the ring is touched.
-/

namespace Zyndra.PostedWrites

open CyclicRing

/-- The memory, and the writes accepted and not carried out yet, oldest first. -/
structure MemoryPort (α : Type*) where
  memory : Nat → α
  pending : List (Nat × α)

/-- The address of an element of a block, in elements: the place of its position. Blocks
are laid round a ring that starts at a whole element and holds whole blocks. -/
theorem element_place {width length base size block element : Nat} (wide : 0 < width)
    (whole : width * length ∣ size) (positive : 0 < size) (aligned : width ∣ base)
    (below : element < length) :
    (base + width * length * block % size + width * element) / width =
      base / width + (length * block + element) % (size / width) := by
  obtain ⟨count, rfl⟩ := whole
  obtain ⟨first, rfl⟩ := aligned
  have some : 0 < length * count := by
    rw [Nat.mul_assoc] at positive
    exact Nat.pos_of_mul_pos_left positive
  have room : length * block % (length * count) + length ≤ length * count :=
    step_fits (Nat.dvd_mul_right _ _)
      (offset_aligned (Nat.dvd_mul_right _ _) (Nat.dvd_mul_right _ _)) (Nat.mod_lt _ some)
  have offset : (length * block + element) % (length * count) =
      length * block % (length * count) + element := by
    rw [← Nat.mod_add_mod, Nat.mod_eq_of_lt (by omega)]
  have factored : width * first + width * length * block % (width * length * count) +
      width * element = width * (first + (length * block % (length * count) + element)) := by
    rw [Nat.mul_assoc width length block, Nat.mul_assoc width length count, Nat.mul_mod_mul_left,
      Nat.mul_add, Nat.mul_add, Nat.add_assoc]
  rw [factored, Nat.mul_div_cancel_left _ wide, Nat.mul_div_cancel_left _ wide,
    Nat.mul_assoc width length count, Nat.mul_div_cancel_left _ wide, offset]

section MemoryPort

variable {α : Type*}

def MemoryPort.accept (p : MemoryPort α) (address : Nat) (value : α) : MemoryPort α :=
  { p with pending := p.pending ++ [(address, value)] }

/-- The oldest write is carried out, when there is one. -/
def MemoryPort.commitOne (p : MemoryPort α) : MemoryPort α :=
  match p.pending with
  | [] => p
  | (address, value) :: others => ⟨Function.update p.memory address value, others⟩

/-- So many writes are carried out. -/
def MemoryPort.commit (p : MemoryPort α) : Nat → MemoryPort α
  | 0 => p
  | count + 1 => (p.commitOne).commit count

/-- The writes of the elements from one position up to another. -/
def writes (size base : Nat) (stream : Nat → α) (first count : Nat) : List (Nat × α) :=
  (List.range count).map fun k => (base + (first + k) % size, stream (first + k))

/-- The elements up to one position have been written and those up to another have
been accepted. Outside the ring the memory is what it was. -/
structure Fills (size base : Nat) (stream before : Nat → α) (p : MemoryPort α)
    (committed accepted : Nat) : Prop where
  ordered : committed ≤ accepted
  queued : p.pending = writes size base stream committed (accepted - committed)
  held : Holds size stream (fun offset => p.memory (base + offset)) committed
  outside : ∀ address, (address < base ∨ base + size ≤ address) →
    p.memory address = before address

variable {size base : Nat} {stream before : Nat → α} {p : MemoryPort α} {committed accepted : Nat}

/-- Nothing has been written yet. -/
theorem Fills.nothing (size base : Nat) (stream : Nat → α) (p : MemoryPort α)
    (empty : p.pending = []) :
    Fills size base stream p.memory p 0 0 where
  ordered := Nat.le_refl 0
  queued := empty
  held _ impossible := absurd impossible (Nat.not_lt_zero _)
  outside _ _ := rfl

/-- Only the elements accepted matter. -/
theorem Fills.congr {stream' : Nat → α} (fills : Fills size base stream before p committed accepted)
    (same : ∀ position < accepted, stream' position = stream position) :
    Fills size base stream' before p committed accepted where
  ordered := fills.ordered
  queued := by
    rw [fills.queued]
    apply List.map_congr_left
    intro k member
    have below : k < accepted - committed := List.mem_range.mp member
    rw [same (committed + k) (by omega)]
  held position written within := by
    rw [same position (Nat.lt_of_lt_of_le written fills.ordered)]
    exact fills.held position written within
  outside := fills.outside

/-- The next element is accepted for the next place. -/
theorem Fills.accept (fills : Fills size base stream before p committed accepted) :
    Fills size base stream before (p.accept (base + accepted % size) (stream accepted)) committed
      (accepted + 1) where
  ordered := Nat.le_succ_of_le fills.ordered
  queued := by
    have ordered := fills.ordered
    have next : accepted + 1 - committed = accepted - committed + 1 := by omega
    have last : committed + (accepted - committed) = accepted := Nat.add_sub_cancel' ordered
    rw [MemoryPort.accept, fills.queued, next, writes, writes, List.range_succ, List.map_append,
      List.map_singleton, last]
  held := fills.held
  outside := fills.outside

/-- Carrying out the oldest write stores the next element of the stream. -/
theorem Fills.commitOne (fills : Fills size base stream before p committed accepted)
    (positive : 0 < size) (waiting : committed < accepted) :
    Fills size base stream before p.commitOne (committed + 1) accepted := by
  have more : accepted - committed = accepted - (committed + 1) + 1 := by omega
  have split : p.pending = (base + committed % size, stream committed) ::
      writes size base stream (committed + 1) (accepted - (committed + 1)) := by
    rw [fills.queued, more, writes, List.range_succ_eq_map, List.map_cons, List.map_map]
    simp only [writes, Function.comp_def, Nat.add_zero, Nat.succ_eq_add_one, Nat.add_assoc,
      Nat.add_comm 1]
  have written : p.commitOne = ⟨Function.update p.memory (base + committed % size)
      (stream committed), writes size base stream (committed + 1)
        (accepted - (committed + 1))⟩ := by
    rw [MemoryPort.commitOne, split]
  rw [written]
  refine ⟨waiting, rfl, ?_, ?_⟩
  · have moved : (fun offset => Function.update p.memory (base + committed % size)
        (stream committed) (base + offset)) =
        Function.update (fun offset => p.memory (base + offset)) (committed % size)
          (stream committed) := by
      funext offset
      by_cases same : offset = committed % size
      · rw [same, Function.update_self, Function.update_self]
      · rw [Function.update_of_ne same, Function.update_of_ne (by omega)]
    rw [moved]
    exact fills.held.store_one
  · intro address out
    have inside : committed % size < size := Nat.mod_lt _ positive
    dsimp only
    rw [Function.update_of_ne (by omega)]
    exact fills.outside address out

/-- With nothing waiting nothing is carried out. -/
theorem MemoryPort.commit_empty (empty : p.pending = []) (count : Nat) : p.commit count = p := by
  induction count with
  | zero => rfl
  | succ count inductionHypothesis =>
    have one : p.commitOne = p := by rw [MemoryPort.commitOne, empty]
    rw [MemoryPort.commit, one, inductionHypothesis]

/-- As many writes are carried out as asked for and waiting. -/
theorem Fills.commit (fills : Fills size base stream before p committed accepted)
    (positive : 0 < size) (count : Nat) :
    Fills size base stream before (p.commit count) (min (committed + count) accepted)
      accepted := by
  induction count generalizing p committed with
  | zero => rwa [Nat.add_zero, Nat.min_eq_left fills.ordered]
  | succ count inductionHypothesis =>
    rcases Nat.lt_or_ge committed accepted with waiting | all
    · have later := inductionHypothesis (fills.commitOne positive waiting)
      rwa [Nat.add_assoc, Nat.add_comm 1] at later
    · have none : p.pending = [] := by
        rw [fills.queued, Nat.sub_eq_zero_of_le all]
        rfl
      have done : committed = accepted := Nat.le_antisymm fills.ordered all
      rw [MemoryPort.commit_empty none, Nat.min_eq_right (by omega), ← done]
      rwa [← done] at fills

end MemoryPort

end Zyndra.PostedWrites
