import Mathlib.Data.List.Basic

/-!
# A table read round and round

A table of a fixed size is read in slices, each inside the table, from a position
that starts again at zero behind the last entry. What is read is a stretch of the
table repeated for ever: stretches are joined end to end, and a slice is the
stretch of its length.
-/

namespace Zyndra.CyclicTable

universe u
variable {α : Type u}

/-- The entries from `start` on, if the table has as many. -/
def slice (table : List α) (start count : Nat) : Option (List α) :=
  if start + count ≤ table.length then some ((table.drop start).take count) else none

/-- `count` entries of the repeated table, from position `start` on. -/
def stretch (entry : Nat → α) (size start count : Nat) : List α :=
  (List.range count).map fun k => entry ((start + k) % size)

/-- The table holds these entries. -/
structure Tabulates (table : List α) (entry : Nat → α) (size : Nat) : Prop where
  length : table.length = size
  entries : ∀ k, k < size → table[k]? = some (entry k)

variable {entry : Nat → α} {size : Nat}

theorem stretch_length (entry : Nat → α) (size start count : Nat) :
    (stretch entry size start count).length = count := by
  rw [stretch, List.length_map, List.length_range]

theorem stretch_getElem? {start count k : Nat} (bounded : k < count) :
    (stretch entry size start count)[k]? = some (entry ((start + k) % size)) := by
  rw [stretch, List.getElem?_map, List.getElem?_range bounded]
  rfl

/-- The place a stretch starts at counts modulo the size. -/
theorem stretch_mod (entry : Nat → α) (size start count : Nat) :
    stretch entry size (start % size) count = stretch entry size start count := by
  apply List.map_congr_left
  intro k _
  rw [Nat.mod_add_mod]

/-- A stretch is a first part and what follows it. -/
theorem stretch_add (entry : Nat → α) (size start first later : Nat) :
    stretch entry size start (first + later) =
      stretch entry size start first ++ stretch entry size (start + first) later := by
  rw [stretch, List.range_add, List.map_append, List.map_map]
  congr 1
  apply List.map_congr_left
  intro k _
  rw [Function.comp_apply, Nat.add_assoc]

/-- A slice is a stretch that does not reach behind the table. -/
theorem slice_eq {table : List α} (tabulates : Tabulates table entry size) {start count : Nat}
    (inside : start + count ≤ size) :
    slice table start count = some (stretch entry size start count) := by
  have fits : start + count ≤ table.length := by
    rw [tabulates.length]
    exact inside
  rw [slice, if_pos fits]
  congr 1
  apply List.ext_getElem?
  intro k
  by_cases bounded : k < count
  · have below : start + k < size := by omega
    rw [List.getElem?_take_of_lt bounded, List.getElem?_drop, tabulates.entries _ below,
      stretch_getElem? bounded, Nat.mod_eq_of_lt below]
  · have none : (stretch entry size start count)[k]? = none := by
      apply List.getElem?_eq_none
      rw [stretch_length]
      omega
    rw [List.getElem?_take_eq_none (by omega), none]

end Zyndra.CyclicTable
