import Mathlib.Data.List.Basic
import Mathlib.Data.List.Induction

/-!
# A register and what resets it

A register keeps the value of the last write to it. Two designs of the same register
differ in whether a reset, which is a step of its own, also returns it to its initial
value. Their values after a history are the same exactly when the last write, where a
reset follows it, wrote the initial value.

What a step writes and whether it resets are functions of the step, so that one
history drives any number of registers.
-/

namespace Zyndra.LastWrite

universe u v
variable {Step : Type u} {Value : Type v} (writes : Step → Option Value) (resets : Step → Bool)
  (initial : Value)

/-- A register that resets leave alone. -/
def kept (value : Value) (step : Step) : Value := (writes step).getD value

/-- A register that resets clear. -/
def cleared (value : Value) (step : Step) : Value :=
  if resets step then initial else (writes step).getD value

/-- The last write, where a reset follows it, wrote the initial value. -/
def Survives (history : List Step) : Prop :=
  ∀ earlier write later value, history = earlier ++ write :: later → writes write = some value →
    (∀ step ∈ later, writes step = none) → (∃ step ∈ later, resets step = true) → value = initial

variable {writes resets initial}

/-- Steps that do not write leave the value. -/
theorem kept_silent {steps : List Step} (silent : ∀ step ∈ steps, writes step = none)
    (value : Value) : steps.foldl (kept writes) value = value := by
  induction steps with
  | nil => rfl
  | cons step rest inductionHypothesis =>
    have first : kept writes value step = value := by simp [kept, silent step]
    rw [List.foldl_cons, first]
    exact inductionHypothesis fun other member => silent other (List.mem_cons_of_mem step member)

/-- The value kept is the last one written, or the initial one if there is none. -/
theorem kept_last (history : List Step) :
    (∃ earlier write later, history = earlier ++ write :: later ∧
        writes write = some (history.foldl (kept writes) initial) ∧
        ∀ step ∈ later, writes step = none) ∨
      history.foldl (kept writes) initial = initial ∧ ∀ step ∈ history, writes step = none := by
  induction history using List.reverseRecOn with
  | nil => exact .inr ⟨rfl, by simp⟩
  | append_singleton history step inductionHypothesis =>
    cases written : writes step with
    | some value =>
      refine .inl ⟨history, step, [], rfl, ?_, by simp⟩
      simp [kept, written]
    | none =>
      have same : (history ++ [step]).foldl (kept writes) initial =
          history.foldl (kept writes) initial := by simp [kept, written]
      rw [same]
      rcases inductionHypothesis with ⟨earlier, write, later, split, last, silent⟩ | ⟨never, silent⟩
      · refine .inl ⟨earlier, write, later ++ [step], by simp [split], last, ?_⟩
        intro other member
        rcases List.mem_append.mp member with before | now
        · exact silent other before
        · rw [List.mem_singleton.mp now, written]
      · refine .inr ⟨never, ?_⟩
        intro other member
        rcases List.mem_append.mp member with before | now
        · exact silent other before
        · rw [List.mem_singleton.mp now, written]

/-- A history split at one of its steps, by whether that is the last one. -/
theorem split_at_last {history earlier later : List Step} {step write : Step}
    (split : history ++ [step] = earlier ++ write :: later) :
    later = [] ∧ write = step ∨
      ∃ middle, later = middle ++ [step] ∧ history = earlier ++ write :: middle := by
  rcases List.eq_nil_or_concat' later with rfl | ⟨middle, last, rfl⟩
  · exact .inl ⟨rfl, (List.append_inj' split rfl).2 |> List.cons.inj |>.1.symm⟩
  · have regrouped : history ++ [step] = (earlier ++ write :: middle) ++ [last] := by
      rw [split]
      simp
    obtain ⟨before, same⟩ := List.append_inj' regrouped rfl
    rw [(List.cons.inj same).1]
    exact .inr ⟨middle, rfl, before⟩

/-- A step that writes is the last write, and nothing follows it. -/
theorem survives_write {history : List Step} {step : Step} {value : Value}
    (written : writes step = some value) :
    Survives writes resets initial (history ++ [step]) := by
  intro earlier write later _ split _ silent reset
  rcases split_at_last split with ⟨rfl, _⟩ | ⟨middle, rfl, _⟩
  · simp at reset
  · rw [silent step (by simp)] at written
    cases written

/-- A step that neither writes nor resets changes nothing. -/
theorem survives_other {history : List Step} {step : Step} (silent : writes step = none)
    (noReset : resets step = false) :
    Survives writes resets initial (history ++ [step]) ↔
      Survives writes resets initial history := by
  constructor
  · intro survives earlier write later value split written none_later reset
    obtain ⟨resetting, member, resetsThere⟩ := reset
    exact survives earlier write (later ++ [step]) value (by simp [split]) written
      (List.forall_mem_append.mpr ⟨none_later, by simpa using silent⟩)
      ⟨resetting, List.mem_append_left _ member, resetsThere⟩
  · intro survives earlier write later value split written none_later reset
    obtain ⟨resetting, member, resetsThere⟩ := reset
    rcases split_at_last split with ⟨rfl, _⟩ | ⟨middle, rfl, before⟩
    · simp at member
    · have inside : resetting ∈ middle := by
        rcases List.mem_append.mp member with before | now
        · exact before
        · rw [List.mem_singleton.mp now, noReset] at resetsThere
          cases resetsThere
      exact survives earlier write middle value before written
        (fun other within => none_later other (List.mem_append_left _ within))
        ⟨resetting, inside, resetsThere⟩

/-- After a reset the last write must have written the initial value. -/
theorem survives_reset {history : List Step} {step : Step} (silent : writes step = none)
    (reset : resets step = true) :
    Survives writes resets initial (history ++ [step]) ↔
      history.foldl (kept writes) initial = initial := by
  constructor
  · intro survives
    rcases @kept_last _ _ writes initial history with
      ⟨earlier, write, later, split, last, none_later⟩ | ⟨never, _⟩
    · exact survives earlier write (later ++ [step]) _ (by simp [split]) last
        (List.forall_mem_append.mpr ⟨none_later, by simpa using silent⟩) ⟨step, by simp, reset⟩
    · exact never
  · intro same earlier write later value split written none_later _
    rcases split_at_last split with ⟨rfl, rfl⟩ | ⟨middle, rfl, before⟩
    · rw [silent] at written
      cases written
    · have none_between : ∀ other ∈ middle, writes other = none :=
        fun other within => none_later other (List.mem_append_left _ within)
      rw [before, List.foldl_append, List.foldl_cons, kept_silent none_between] at same
      simpa only [kept, written, Option.getD_some] using same

/-- The two registers agree after a history exactly when its last write survives. -/
theorem cleared_eq_kept_iff (apart : ∀ step, resets step = true → writes step = none)
    (history : List Step) :
    history.foldl (cleared writes resets initial) initial = history.foldl (kept writes) initial ↔
      Survives writes resets initial history := by
  induction history using List.reverseRecOn with
  | nil => simp [Survives]
  | append_singleton history step inductionHypothesis =>
    simp only [List.foldl_append, List.foldl_cons, List.foldl_nil]
    cases reset : resets step with
    | true =>
      have silent := apart step reset
      rw [survives_reset silent reset]
      simp only [cleared, kept, reset, silent, if_true, Option.getD_none]
      exact eq_comm
    | false =>
      cases written : writes step with
      | some value =>
        simp only [cleared, kept, reset, written, Bool.false_eq_true, if_false, Option.getD_some]
        exact iff_of_true trivial (survives_write written)
      | none =>
        rw [survives_other written reset]
        simpa only [cleared, kept, reset, written, Bool.false_eq_true, if_false, Option.getD_none]
          using inductionHypothesis

end Zyndra.LastWrite
