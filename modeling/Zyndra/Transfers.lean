import Zyndra.Runs

/-!
# Moving a buffer in as many calls as it takes

A loop asks a peer to move the rest of a buffer until nothing is left. Each call
moves some bytes, is interrupted and repeated, or ends the loop: an error does, and
so does a call that moves nothing. The loop succeeds only after the whole buffer.
-/

namespace Zyndra.Transfers

open Runs

/-- What one call returns. -/
inductive Outcome where
  | moved (bytes : Nat)
  | interrupted
  | failed
  deriving DecidableEq, Repr

/-- The loop at its next call, with what has been moved, or after its return. -/
inductive Progress where
  | running (done : Nat)
  | returned (success : Bool)
  deriving DecidableEq, Repr

/-- The loop before its first call. An empty buffer needs none. -/
def begin (length : Nat) : Progress := if 0 < length then .running 0 else .returned true

/-- What the loop does with the outcome of a call. -/
def advance (length : Nat) : Progress → Outcome → Progress
  | .running _, .moved 0 => .returned false
  | .running done, .moved (more + 1) =>
    if 0 < length - done - (more + 1) then .running (done + (more + 1)) else .returned true
  | .running done, .interrupted => .running done
  | .running _, .failed => .returned false
  | .returned success, _ => .returned success

/-- A call moves no more than is left. -/
def Admits (length : Nat) : Progress → Outcome → Prop
  | .running done, .moved bytes => bytes ≤ length - done
  | _, _ => True

instance (length : Nat) : (p : Progress) → (o : Outcome) → Decidable (Admits length p o)
  | .running _, .moved _ => inferInstanceAs (Decidable (_ ≤ _))
  | .running _, .interrupted => isTrue trivial
  | .running _, .failed => isTrue trivial
  | .returned _, .moved _ => isTrue trivial
  | .returned _, .interrupted => isTrue trivial
  | .returned _, .failed => isTrue trivial

/-- Bytes a call moves. -/
def Outcome.bytes : Outcome → Nat
  | .moved bytes => bytes
  | _ => 0

/-- The outcome of a call that is offered no more than `left` bytes. -/
def Outcome.upTo (left : Nat) : Outcome → Outcome
  | .moved bytes => .moved (min bytes left)
  | .interrupted => .interrupted
  | .failed => .failed

theorem admits_upTo (length done : Nat) (o : Outcome) :
    Admits length (.running done) (o.upTo (length - done)) := by
  cases o with
  | moved bytes => exact Nat.min_le_right _ _
  | interrupted => trivial
  | failed => trivial

/-- A running loop has bytes left. -/
def Progress.Inside (length : Nat) : Progress → Prop
  | .running done => done < length
  | .returned _ => True

/-- A running loop goes on behind what the call moved, succeeds with the whole buffer
moved, or fails at a call that moved nothing. -/
theorem advance_running {length done : Nat} {o : Outcome} (inside : done < length)
    (admits : Admits length (.running done) o) :
    (advance length (.running done) o = .running (done + o.bytes) ∧ done + o.bytes < length) ∨
    (advance length (.running done) o = .returned true ∧ done + o.bytes = length) ∨
    (advance length (.running done) o = .returned false ∧ o.bytes = 0) := by
  cases o with
  | moved bytes =>
    have within : bytes ≤ length - done := admits
    cases bytes with
    | zero => exact Or.inr (Or.inr ⟨rfl, rfl⟩)
    | succ more =>
      by_cases left : 0 < length - done - (more + 1)
      · exact Or.inl ⟨if_pos left, by dsimp only [Outcome.bytes]; omega⟩
      · exact Or.inr (Or.inl ⟨if_neg left, by dsimp only [Outcome.bytes]; omega⟩)
  | interrupted => exact Or.inl ⟨rfl, inside⟩
  | failed => exact Or.inr (Or.inr ⟨rfl, rfl⟩)

theorem begin_inside (length : Nat) : (begin length).Inside length := by
  unfold begin
  split
  · assumption
  · trivial

theorem Progress.Inside.advance {length : Nat} {p : Progress} {o : Outcome}
    (inside : p.Inside length) (admits : Admits length p o) :
    (advance length p o).Inside length := by
  cases p with
  | running done =>
    obtain ⟨next, below⟩ | ⟨next, whole⟩ | ⟨next, none⟩ := advance_running inside admits
    · rw [next]
      exact below
    · rw [next]
      trivial
    · rw [next]
      trivial
  | returned success => trivial

end Zyndra.Transfers
