import Mathlib.Data.List.Basic

/-!
# A bounded queue clocked with one push and one pop

On every clock a queue may be asked to take one word at its back and to give up
the one at its front, both judged against the contents before the clock. A push
into a full queue is lost and a pop of an empty one yields nothing: these are
behaviours of the queue, not assumptions about its users. The conservation law
holds when neither happens, and then nothing is lost, repeated or reordered.
-/

namespace Zyndra.BoundedQueue

universe u
variable {Word : Type u}

/-- The contents after a clock. A push needs a free slot before the clock; a
simultaneous pop does not make one in time. -/
def clock (depth : Nat) (contents : List Word) (push : Bool) (word : Word) (pop : Bool) :
    List Word :=
  (if pop then contents.tail else contents) ++
    (if push && decide (contents.length < depth) then [word] else [])

/-- The word a clock brings in, when it is asked to. -/
def offered (push : Bool) (word : Word) : List Word := if push then [word] else []

/-- The word a clock takes out, when it is asked to and there is one. -/
def taken (contents : List Word) (pop : Bool) : List Word :=
  if pop then contents.take 1 else []

/-- Without a push into a full queue the offered word is always taken in. -/
theorem clock_room (depth : Nat) (contents : List Word) (push : Bool) (word : Word) (pop : Bool)
    (room : push = true → contents.length < depth) :
    clock depth contents push word pop =
      (if pop then contents.tail else contents) ++ offered push word := by
  cases push with
  | false => rfl
  | true => simp [clock, offered, room rfl]

/-- Under the same condition, what was inside followed by what comes in is what
goes out followed by what remains. -/
theorem clock_conserves (depth : Nat) (contents : List Word) (push : Bool) (word : Word)
    (pop : Bool) (room : push = true → contents.length < depth) :
    taken contents pop ++ clock depth contents push word pop = contents ++ offered push word := by
  rw [clock_room depth contents push word pop room, ← List.append_assoc]
  cases pop <;> cases contents <;> simp [taken]

/-- Under the same condition the occupancy changes by the push and by the pop of
a word that is there. -/
theorem clock_length (depth : Nat) (contents : List Word) (push : Bool) (word : Word)
    (pop : Bool) (room : push = true → contents.length < depth)
    (present : pop = true → contents ≠ []) :
    (clock depth contents push word pop).length + pop.toNat = contents.length + push.toNat := by
  have conserved := congrArg List.length (clock_conserves depth contents push word pop room)
  cases pop with
  | false => cases push <;> simp_all [taken, offered]
  | true =>
    have occupied : 0 < contents.length := List.length_pos_iff.mpr (present rfl)
    cases push <;> simp_all [taken, offered] <;> omega

end Zyndra.BoundedQueue
