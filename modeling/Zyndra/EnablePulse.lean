import Zyndra.Runs

/-!
# Sessions begun by an enable

A machine works in sessions on a resource that its inputs name, and an enable turned
off and on again is meant to begin a new session. A watch along the run notes the
resource named at each such edge until the first offer after it. It keeps the states
in which these first offers were made, and how many completions are still to come
before that of the last one.

The machine restarts when every first offer is that of a session on the resource of
its edge, and the progress reported has not moved before it completes. It is enough
that an edge leaves the machine in a state from which only such an offer can come.
-/

namespace Zyndra.EnablePulse

open Runs

universe u v w
variable {State : Type u} {Input : Type v} {Resource : Type w}

/-- A step function with what is seen of its inputs and states. -/
structure Machine (State : Type u) (Input : Type v) (Resource : Type w) where
  step : State → Input → State
  enable : Input → Bool
  /-- The resource an input names. -/
  resource : Input → Resource
  offers : State → Bool
  /-- Work accepted and not complete. -/
  unfinished : State → Nat
  /-- A completion takes place on this step. -/
  completes : State → Input → Bool
  /-- The standing offer is the first one of a session on the resource. -/
  first : Resource → State → Prop
  /-- The progress reported is that of a session without completions. -/
  unmoved : State → Prop

structure Watch (State : Type u) (Resource : Type w) where
  state : State
  /-- The enable was on in the last step. -/
  enabled : Bool
  /-- The resource named at an edge, until the first offer after it. -/
  due : Option Resource
  /-- The states in which first offers were made, with the resource due. -/
  firsts : List (Resource × State)
  /-- Completions before that of the last first offer, until it is complete. -/
  ahead : Option Nat

variable (m : Machine State Input Resource)

/-- The resource whose first offer may come in this step. -/
def Machine.dueNow (w : Watch State Resource) (i : Input) : Option Resource :=
  if m.enable i then if w.enabled then w.due else some (m.resource i) else none

/-- The step makes an offer. -/
def Machine.offersNow (w : Watch State Resource) (i : Input) : Bool :=
  !m.offers w.state && m.offers (m.step w.state i)

/-- The completions ahead after a step without a first offer. -/
def Machine.aheadNow (w : Watch State Resource) (i : Input) : Option Nat :=
  if m.completes w.state i then
    match w.ahead with
    | some (count + 1) => some count
    | _ => none
  else w.ahead

def Machine.observe (w : Watch State Resource) (i : Input) : Watch State Resource :=
  let next := m.step w.state i
  match m.dueNow w i, m.offersNow w i with
  | some resource, true =>
    { state := next, enabled := m.enable i, due := none
      firsts := w.firsts ++ [(resource, next)], ahead := some (m.unfinished next) }
  | due, offered =>
    { state := next, enabled := m.enable i, due := if offered then none else due
      firsts := w.firsts, ahead := m.aheadNow w i }

/-- The watch on a machine that has not been enabled. -/
def watch (s : State) : Watch State Resource := ⟨s, false, none, [], none⟩

/-- Every first offer was that of a session on its resource, and the progress reported
does not move before the last one is complete. -/
structure Restarted (w : Watch State Resource) : Prop where
  first : ∀ f ∈ w.firsts, m.first f.1 f.2
  unmoved : w.ahead.isSome = true → m.unmoved w.state

/-- What a proof that the machine restarts has to show. From a fresh state on a
resource only the first offer of a session on it can come, and an edge that meets the
condition leads to one, with no offer left standing. -/
structure Machine.Restarts (rule : State → Input → Prop)
    (condition : Watch State Resource → Input → Prop) (inv : State → Prop)
    (fresh : Resource → State → Prop) : Prop where
  preserved : ∀ s i, inv s → rule s i → inv (m.step s i)
  due : ∀ w i resource, inv w.state → rule w.state i → condition w i →
    m.dueNow w i = some resource →
    (w.enabled = true → fresh resource w.state ∧ m.offers w.state = false) →
    (m.offers w.state = true → m.offers (m.step w.state i) = false) ∧
      fresh resource (m.step w.state i)
  offered : ∀ resource s, inv s → fresh resource s → m.offers s = true →
    m.first resource s ∧ m.unfinished s = 0 ∧ m.unmoved s
  unmoved : ∀ s i, inv s → rule s i → m.completes s i = false → m.unmoved s →
    m.unmoved (m.step s i)

/-- Something is due while the enable is on, from an edge before or from one in this
step. -/
theorem Machine.dueNow_eq_some {w : Watch State Resource} {i : Input} {resource : Resource} :
    m.dueNow w i = some resource ↔
      m.enable i = true ∧ (w.enabled = true ∧ w.due = some resource ∨
        w.enabled = false ∧ m.resource i = resource) := by
  unfold Machine.dueNow
  cases m.enable i <;> cases w.enabled <;> simp

/-- What is due is the resource named now, if it is still the one named at the edge. -/
theorem Machine.resource_now {w : Watch State Resource} {i : Input} {resource : Resource}
    (due : m.dueNow w i = some resource)
    (held : w.enabled = true → w.due = none ∨ w.due = some (m.resource i)) :
    m.resource i = resource := by
  rcases (m.dueNow_eq_some.mp due).2 with ⟨high, before⟩ | ⟨_, now⟩
  · rcases held high with silent | same
    · rw [silent] at before
      cases before
    · exact Option.some.inj (same.symm.trans before)
  · exact now

variable {m} {rule : State → Input → Prop} {condition : Watch State Resource → Input → Prop}
  {inv : State → Prop} {fresh : Resource → State → Prop}

/-- What is due is fresh, and no completion is ahead of the last first offer. -/
structure Fresh (m : Machine State Input Resource) (inv : State → Prop)
    (fresh : Resource → State → Prop) (w : Watch State Resource) : Prop where
  inv : inv w.state
  due : ∀ resource, w.due = some resource → fresh resource w.state ∧ m.offers w.state = false
  first : ∀ f ∈ w.firsts, m.first f.1 f.2
  ahead : ∀ count, w.ahead = some count → count = 0 ∧ m.unmoved w.state

/-- The resource of an edge in this step, or one due before. -/
theorem Fresh.due_now (restarts : m.Restarts rule condition inv fresh)
    {w : Watch State Resource} {i : Input} (held : Fresh m inv fresh w) (follows : rule w.state i)
    (meets : condition w i) {resource : Resource} (due : m.dueNow w i = some resource) :
    (m.offers w.state = true → m.offers (m.step w.state i) = false) ∧
      fresh resource (m.step w.state i) := by
  refine restarts.due w i resource held.inv follows meets due fun enabled => held.due resource ?_
  rcases (m.dueNow_eq_some.mp due).2 with ⟨_, before⟩ | ⟨disabled, _⟩
  · exact before
  · rw [enabled] at disabled
    cases disabled

/-- A step without a first offer leaves none ahead of the last one. -/
theorem Fresh.ahead_now (restarts : m.Restarts rule condition inv fresh)
    {w : Watch State Resource} {i : Input} (held : Fresh m inv fresh w) (follows : rule w.state i)
    {count : Nat} (ahead : m.aheadNow w i = some count) :
    count = 0 ∧ m.unmoved (m.step w.state i) := by
  unfold Machine.aheadNow at ahead
  cases completed : m.completes w.state i with
  | true =>
    simp only [completed, if_true] at ahead
    split at ahead
    · next before => exact absurd (held.ahead _ before).1 (Nat.succ_ne_zero _)
    · cases ahead
  | false =>
    simp only [completed, Bool.false_eq_true, if_false] at ahead
    obtain ⟨none_ahead, unmoved⟩ := held.ahead count ahead
    exact ⟨none_ahead, restarts.unmoved w.state i held.inv follows completed unmoved⟩

theorem Fresh.observe (restarts : m.Restarts rule condition inv fresh)
    {w : Watch State Resource} {i : Input} (held : Fresh m inv fresh w) (follows : rule w.state i)
    (meets : condition w i) : Fresh m inv fresh (m.observe w i) := by
  have kept := restarts.preserved w.state i held.inv follows
  unfold Machine.observe
  split
  · next resource due offered =>
    obtain ⟨_, fresh⟩ := held.due_now restarts follows meets due
    have standing : m.offers (m.step w.state i) = true := by
      simp only [Machine.offersNow, Bool.and_eq_true] at offered
      exact offered.2
    obtain ⟨first, finished, unmoved⟩ := restarts.offered resource _ kept fresh standing
    refine ⟨kept, by simp, ?_, ?_⟩
    · exact List.forall_mem_append.mpr ⟨held.first, by simpa using first⟩
    · intro count ahead
      exact ⟨(Option.some.inj ahead).symm.trans finished, unmoved⟩
  · refine ⟨kept, ?_, held.first, fun count ahead => held.ahead_now restarts follows ahead⟩
    intro resource due
    split at due
    · cases due
    · next silent =>
      obtain ⟨withdrawn, fresh⟩ := held.due_now restarts follows meets due
      refine ⟨fresh, ?_⟩
      cases standing : m.offers w.state with
      | true => exact withdrawn standing
      | false => simpa [Machine.offersNow, standing] using silent

/-- A machine whose edges meet the condition restarts on every one of them. -/
theorem restarts_always (restarts : m.Restarts rule condition inv fresh) {s : State}
    (initial : inv s) (inputs : List Input)
    (follows : Follows (fun w i => rule (Watch.state w) i ∧ condition w i) m.observe (watch s)
      inputs) : Always (Restarted m) m.observe (watch s) inputs := by
  have begins : Fresh m inv fresh (watch s) :=
    ⟨initial, by simp [watch], by simp [watch], by simp [watch]⟩
  refine always_of_invariant (fun w i held admitted => held.observe restarts admitted.1 admitted.2)
    ?_ begins inputs follows
  intro w held
  refine ⟨held.first, fun underway => ?_⟩
  obtain ⟨count, ahead⟩ := Option.isSome_iff_exists.mp underway
  exact (held.ahead count ahead).2

end Zyndra.EnablePulse
