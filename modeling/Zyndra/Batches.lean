import Mathlib.Data.List.Basic

/-!
# Cutting a list into pieces of one size

Pieces are cut from the front while a whole one is left and there is room for
it. What is cut off and what is left are the list again, whatever the room; the
rest is shorter than a piece exactly when the room was enough.
-/

namespace Zyndra.Batches

universe u
variable {α : Type u}

/-- The pieces cut from the front, at most as many as there is room for, and the
rest of the list. -/
def batch (size : Nat) : Nat → List α → List (List α) × List α
  | 0, data => ([], data)
  | room + 1, data =>
    if size ≤ data.length then
      (data.take size :: (batch size room (data.drop size)).1, (batch size room (data.drop size)).2)
    else ([], data)

/-- Pieces of one length, laid end to end. -/
theorem flatten_length {pieces : List (List α)} {size : Nat}
    (uniform : ∀ piece ∈ pieces, piece.length = size) :
    pieces.flatten.length = pieces.length * size := by
  induction pieces with
  | nil => simp
  | cons piece others inductionHypothesis =>
    have first : piece.length = size := uniform piece List.mem_cons_self
    have later := inductionHypothesis fun other member =>
      uniform other (List.mem_cons_of_mem _ member)
    rw [List.flatten_cons, List.length_append, first, later, List.length_cons, Nat.succ_mul]
    exact Nat.add_comm _ _

section Batch

variable (size room : Nat) (data : List α)

/-- Cutting loses, repeats and reorders nothing. -/
theorem batch_conserves : (batch size room data).1.flatten ++ (batch size room data).2 = data := by
  induction room generalizing data with
  | zero => rfl
  | succ room inductionHypothesis =>
    unfold batch
    split
    · rw [List.flatten_cons, List.append_assoc, inductionHypothesis, List.take_append_drop]
    · rfl

/-- Every piece has the size asked for. -/
theorem batch_size : ∀ piece ∈ (batch size room data).1, piece.length = size := by
  induction room generalizing data with
  | zero => simp [batch]
  | succ room inductionHypothesis =>
    unfold batch
    split
    · rename_i whole
      intro piece member
      rcases List.mem_cons.mp member with rfl | later
      · rw [List.length_take, Nat.min_eq_left whole]
      · exact inductionHypothesis _ piece later
    · simp

/-- There is room for every piece. -/
theorem batch_room : (batch size room data).1.length ≤ room := by
  induction room generalizing data with
  | zero => simp [batch]
  | succ room inductionHypothesis =>
    unfold batch
    split
    · simpa using inductionHypothesis (data.drop size)
    · simp

/-- The rest is shorter than a piece exactly when the list has no more whole ones
than there is room for. -/
theorem batch_rest : (batch size room data).2.length < size ↔ data.length < size * (room + 1) := by
  induction room generalizing data with
  | zero => simp [batch]
  | succ room inductionHypothesis =>
    have spread : size * (room + 1 + 1) = size * (room + 1) + size := Nat.mul_succ _ _
    unfold batch
    split
    · rename_i whole
      rw [inductionHypothesis, List.length_drop]
      omega
    · rename_i short
      have less : data.length < size := Nat.lt_of_not_le short
      exact iff_of_true less (by omega)

/-- A list with a whole piece gives it first. -/
theorem batch_first (whole : size ≤ data.length) :
    batch size (room + 1) data =
      (data.take size :: (batch size room (data.drop size)).1,
        (batch size room (data.drop size)).2) := by
  rw [batch, if_pos whole]

end Batch

end Zyndra.Batches
