import Mathlib.Data.List.Basic

/-!
# Runs of a deterministic step under a rule

A component is a total step function. What its surroundings may do next is a
rule on the current state and the next event; a run follows a rule when every
event is admitted in the state it meets. Several actors are one event type: an
interleaving is a list of events, whoever issued each of them.

An invariant is established once per step and carried along every run. The last
rule compares a property seen along a whole run with a condition on its steps:
when the condition decides, step by step, whether the property survives, the
property holds throughout the run exactly when every step meets the condition.
-/

namespace Zyndra.Runs

universe u v
variable {State : Type u} {Event : Type v}

/-- The state after the events have been taken in order. -/
def run (step : State → Event → State) (start : State) (events : List Event) : State :=
  events.foldl step start

/-- Every event is admitted by the rule in the state in which it is taken. -/
def Follows (rule : State → Event → Prop) (step : State → Event → State) :
    State → List Event → Prop
  | _, [] => True
  | state, event :: rest => rule state event ∧ Follows rule step (step state event) rest

/-- Every state of the run satisfies the property, the first and the last included. -/
def Always (good : State → Prop) (step : State → Event → State) : State → List Event → Prop
  | state, [] => good state
  | state, event :: rest => good state ∧ Always good step (step state event) rest

instance followsDecidable (rule : State → Event → Prop) (step : State → Event → State)
    [∀ state event, Decidable (rule state event)] :
    (state : State) → (events : List Event) → Decidable (Follows rule step state events)
  | _, [] => isTrue trivial
  | state, event :: rest =>
    @instDecidableAnd _ _ inferInstance (followsDecidable rule step (step state event) rest)

instance alwaysDecidable (good : State → Prop) (step : State → Event → State)
    [∀ state, Decidable (good state)] :
    (state : State) → (events : List Event) → Decidable (Always good step state events)
  | _, [] => inferInstanceAs (Decidable (good _))
  | state, event :: rest =>
    @instDecidableAnd _ _ inferInstance (alwaysDecidable good step (step state event) rest)

/-- A rule that admits every event is followed by every run. -/
theorem follows_unruled (step : State → Event → State) (start : State) (events : List Event) :
    Follows (fun _ _ => True) step start events := by
  induction events generalizing start with
  | nil => trivial
  | cons event rest inductionHypothesis => exact ⟨trivial, inductionHypothesis _⟩

/-- What every admitted step preserves holds at the end of every run. -/
theorem invariant {rule : State → Event → Prop} {step : State → Event → State}
    {inv : State → Prop}
    (preserved : ∀ state event, inv state → rule state event → inv (step state event))
    {start : State} (initial : inv start) (events : List Event)
    (follows : Follows rule step start events) : inv (run step start events) := by
  induction events generalizing start with
  | nil => exact initial
  | cons event rest inductionHypothesis =>
    exact inductionHypothesis (preserved start event initial follows.1) follows.2

/-- A run that follows a rule follows every condition the invariant and the rule
bring about. -/
theorem follows_of_invariant {rule condition : State → Event → Prop}
    {step : State → Event → State} {inv : State → Prop}
    (preserved : ∀ state event, inv state → rule state event → inv (step state event))
    (enough : ∀ state event, inv state → rule state event → condition state event)
    {start : State} (initial : inv start) (events : List Event)
    (follows : Follows rule step start events) : Follows condition step start events := by
  induction events generalizing start with
  | nil => trivial
  | cons event rest inductionHypothesis =>
    have meets : condition start event := enough start event initial follows.1
    exact ⟨meets, inductionHypothesis (preserved start event initial follows.1) follows.2⟩

/-- Two rules are followed together when each is followed. -/
theorem Follows.both {rule condition : State → Event → Prop} {step : State → Event → State}
    {start : State} {events : List Event} (follows : Follows rule step start events)
    (meets : Follows condition step start events) :
    Follows (fun state event => rule state event ∧ condition state event) step start events := by
  induction events generalizing start with
  | nil => trivial
  | cons event rest inductionHypothesis =>
    exact ⟨⟨follows.1, meets.1⟩, inductionHypothesis follows.2 meets.2⟩

/-- A rule on a part of the state, where that part takes steps of its own. -/
theorem follows_part {Wide : Type*} {part : Wide → State} {wide : Wide → Event → Wide}
    {rule : State → Event → Prop} {step : State → Event → State}
    (commutes : ∀ whole event, part (wide whole event) = step (part whole) event)
    (start : Wide) (events : List Event) :
    Follows (fun whole event => rule (part whole) event) wide start events ↔
      Follows rule step (part start) events := by
  induction events generalizing start with
  | nil => rfl
  | cons event rest inductionHypothesis =>
    have later := inductionHypothesis (wide start event)
    rw [commutes] at later
    exact and_congr_right fun _ => later

/-- What an invariant brings about is seen in every state of a run that keeps it. -/
theorem always_of_invariant {rule : State → Event → Prop} {step : State → Event → State}
    {inv good : State → Prop}
    (preserved : ∀ state event, inv state → rule state event → inv (step state event))
    (enough : ∀ state, inv state → good state) {start : State} (initial : inv start)
    (events : List Event) (follows : Follows rule step start events) :
    Always good step start events := by
  induction events generalizing start with
  | nil => exact enough start initial
  | cons event rest inductionHypothesis =>
    exact ⟨enough start initial,
      inductionHypothesis (preserved start event initial follows.1) follows.2⟩

theorem run_append (step : State → Event → State) (start : State) (events others : List Event) :
    run step start (events ++ others) = run step (run step start events) others :=
  List.foldl_append

/-- Two runs, one behind the other, are a run. -/
theorem Follows.append {rule : State → Event → Prop} {step : State → Event → State} {start : State}
    {events others : List Event} (first : Follows rule step start events)
    (second : Follows rule step (run step start events) others) :
    Follows rule step start (events ++ others) := by
  induction events generalizing start with
  | nil => exact second
  | cons event rest inductionHypothesis => exact ⟨first.1, inductionHypothesis first.2 second⟩

/-- A system whose every step is matched by steps of another one runs as the other does.

Induct along the run. The steps that match the first event lead to a state related to
the one reached, from which the induction continues. -/
theorem matched {Other Action : Type*} {rule : State → Event → Prop}
    {step : State → Event → State} {otherRule : Other → Action → Prop}
    {otherStep : Other → Action → Other} {related : State → Other → Prop}
    (each : ∀ state other event, related state other → rule state event →
      ∃ actions, Follows otherRule otherStep other actions ∧
        related (step state event) (run otherStep other actions))
    {start : State} {other : Other} (initial : related start other) (events : List Event)
    (follows : Follows rule step start events) :
    ∃ actions, Follows otherRule otherStep other actions ∧
      related (run step start events) (run otherStep other actions) := by
  induction events generalizing start other with
  | nil => exact ⟨[], trivial, initial⟩
  | cons event rest inductionHypothesis =>
    obtain ⟨first, taken, next⟩ := each start other event initial follows.1
    obtain ⟨later, continued, reached⟩ := inductionHypothesis next follows.2
    refine ⟨first ++ later, taken.append continued, ?_⟩
    rw [run_append]
    exact reached

/-- A property seen in every state of a run is seen in its last one. -/
theorem Always.last {good : State → Prop} {step : State → Event → State}
    {start : State} {events : List Event} (always : Always good step start events) :
    good (run step start events) := by
  induction events generalizing start with
  | nil => exact always
  | cons event rest inductionHypothesis => exact inductionHypothesis always.2

/-- A property seen in every state of a run is seen in its first one. -/
theorem Always.first {good : State → Prop} {step : State → Event → State}
    {start : State} {events : List Event} (always : Always good step start events) :
    good start := by
  cases events with
  | nil => exact always
  | cons event rest => exact always.1

/-- Let a condition decide, at each admitted step out of a state satisfying the
invariant, whether the property still holds afterwards, and let a step meeting
it keep the invariant. Then the property holds in every state of a run exactly
when every step of the run meets the condition.

Induct along the run. A step meeting the condition reaches a state from which
the induction continues; a step missing it loses the property at once. -/
theorem always_iff_follows {rule condition : State → Event → Prop}
    {step : State → Event → State} {inv good : State → Prop}
    (decides : ∀ state event, inv state → rule state event →
      (good (step state event) ↔ condition state event))
    (preserved : ∀ state event, inv state → rule state event → condition state event →
      inv (step state event))
    {start : State} (initial : inv start) (begins : good start) (events : List Event)
    (follows : Follows rule step start events) :
    Always good step start events ↔ Follows condition step start events := by
  induction events generalizing start with
  | nil => exact ⟨fun _ => trivial, fun _ => begins⟩
  | cons event rest inductionHypothesis =>
    have decided := decides start event initial follows.1
    constructor
    · rintro ⟨_, always⟩
      have meets : condition start event := decided.mp always.first
      have continued := inductionHypothesis
        (preserved start event initial follows.1 meets) always.first follows.2
      exact ⟨meets, continued.mp always⟩
    · rintro ⟨meets, later⟩
      have continued := inductionHypothesis
        (preserved start event initial follows.1 meets) (decided.mpr meets) follows.2
      exact ⟨begins, continued.mpr later⟩

end Zyndra.Runs
