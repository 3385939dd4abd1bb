import Zyndra.Runs

/-!
# Winding down

A machine that has been told to stop finishes what it has accepted and must not
offer anything new. A watch along its run counts the offers newly made, the steps that
parked the machine with something unfinished, and the steps in a row that found nothing
unfinished. The machine winds down within a number of steps when no offer is made, when
it is never parked too early, and when so many steps without anything unfinished find it
parked.

A rank that falls with every step that finds nothing unfinished bounds the way to the
parked states. Then a run winds down exactly when no step of it makes an offer or parks
too early, which is for the machine to say as a condition on its state and input.
-/

namespace Zyndra.WindDown

open Runs

universe u v

/-- A step function with what is seen of its states. -/
structure Machine (State : Type u) (Input : Type v) where
  step : State → Input → State
  /-- An offer stands. -/
  offers : State → Bool
  /-- An offer stands, or something accepted is not finished. -/
  busy : State → Bool
  parked : State → Bool

structure Watch (State : Type u) where
  state : State
  /-- Offers newly made. -/
  offered : Nat
  /-- Steps that parked the machine with something unfinished. -/
  early : Nat
  /-- Steps in a row that found nothing unfinished. -/
  settled : Nat

variable {State : Type u} {Input : Type v} (m : Machine State Input)

def Machine.observe (w : Watch State) (i : Input) : Watch State where
  state := m.step w.state i
  offered := w.offered + (!m.offers w.state && m.offers (m.step w.state i)).toNat
  early := w.early +
    (m.busy w.state && !m.parked w.state && m.parked (m.step w.state i)).toNat
  settled := if m.busy w.state then 0 else w.settled + 1

/-- The watch as the machine is told to stop. -/
def watch (s : State) : Watch State := ⟨s, 0, 0, 0⟩

/-- No offer has been made, the machine has not been parked with anything unfinished, and
it is parked once so many steps have found nothing unfinished. -/
structure WindsDown (within : Nat) (w : Watch State) : Prop where
  silent : w.offered = 0
  patient : w.early = 0
  parked : within ≤ w.settled → m.parked w.state = true

/-- The step makes no offer. -/
def Machine.Quiet (s : State) (i : Input) : Prop :=
  m.offers s = false → m.offers (m.step s i) = false

/-- The step does not park the machine with anything unfinished. -/
def Machine.Patient (s : State) (i : Input) : Prop :=
  m.busy s = true → m.parked s = false → m.parked (m.step s i) = false

instance (within : Nat) (w : Watch State) : Decidable (WindsDown m within w) :=
  decidable_of_iff
    (w.offered = 0 ∧ w.early = 0 ∧ (within ≤ w.settled → m.parked w.state = true))
    ⟨fun ⟨silent, patient, parked⟩ => ⟨silent, patient, parked⟩,
      fun winds => ⟨winds.silent, winds.patient, winds.parked⟩⟩

/-- What a proof that the machine winds down has to show. An invariant is kept under
the rule, a rank falls with every step that finds nothing unfinished, and a condition
says when a step makes no offer and does not park too early. -/
structure Machine.Sinks (rule condition : State → Input → Prop) (inv : State → Prop)
    (rank : State → Nat) (within : Nat) : Prop where
  quiet : ∀ s i, inv s → rule s i → (m.Quiet s i ∧ m.Patient s i ↔ condition s i)
  preserved : ∀ s i, inv s → rule s i → inv (m.step s i)
  bounded : ∀ s, rank s ≤ within
  parked : ∀ s, rank s = 0 → m.parked s = true
  falls : ∀ s i, inv s → rule s i → m.busy s = false → rank (m.step s i) ≤ rank s - 1

variable {m} {rule condition : State → Input → Prop} {inv : State → Prop} {rank : State → Nat}
  {within : Nat}

/-- The steps that found nothing unfinished have taken that much off the rank. -/
structure Sinking (inv : State → Prop) (rank : State → Nat) (within : Nat) (w : Watch State) :
    Prop where
  inv : inv w.state
  sunk : rank w.state = 0 ∨ rank w.state + w.settled ≤ within

theorem Sinking.parked (sinks : m.Sinks rule condition inv rank within) {w : Watch State}
    (sinking : Sinking inv rank within w) (settled : within ≤ w.settled) :
    m.parked w.state = true := by
  apply sinks.parked
  have sunk := sinking.sunk
  omega

theorem Sinking.observe (sinks : m.Sinks rule condition inv rank within) {w : Watch State}
    {i : Input} (sinking : Sinking inv rank within w) (follows : rule w.state i) :
    Sinking inv rank within (m.observe w i) := by
  refine ⟨sinks.preserved w.state i sinking.inv follows, ?_⟩
  have bounded := sinks.bounded (m.step w.state i)
  have sunk := sinking.sunk
  cases unfinished : m.busy w.state with
  | true =>
    simp only [Machine.observe, unfinished, if_true]
    exact .inr bounded
  | false =>
    have falls := sinks.falls w.state i sinking.inv follows unfinished
    simp only [Machine.observe, unfinished, Bool.false_eq_true, if_false]
    omega

/-- A step makes no offer and does not park too early, and with the machine parked in
time nothing else is asked. -/
theorem WindsDown.observe_iff (sinks : m.Sinks rule condition inv rank within) {w : Watch State}
    {i : Input} (winds : WindsDown m within w) (sinking : Sinking inv rank within w)
    (follows : rule w.state i) : WindsDown m within (m.observe w i) ↔ condition w.state i := by
  rw [← sinks.quiet w.state i sinking.inv follows]
  have silent := winds.silent
  have patient := winds.patient
  constructor
  · intro after
    refine ⟨fun standing => ?_, fun busy running => ?_⟩
    · have none := after.silent
      simp only [Machine.observe, silent, standing, Bool.not_false, Bool.true_and,
        Nat.zero_add] at none
      exact Bool.toNat_eq_zero.mp none
    · have none := after.patient
      simp only [Machine.observe, patient, busy, running, Bool.not_false, Bool.true_and,
        Nat.zero_add] at none
      exact Bool.toNat_eq_zero.mp none
  · rintro ⟨quiet, waits⟩
    refine ⟨?_, ?_, (sinking.observe sinks follows).parked sinks⟩
    · simp only [Machine.observe, silent, Nat.zero_add]
      cases standing : m.offers w.state with
      | true => rfl
      | false => rw [quiet standing]; rfl
    · simp only [Machine.observe, patient, Nat.zero_add]
      cases busy : m.busy w.state with
      | false => rfl
      | true =>
        cases running : m.parked w.state with
        | true => rfl
        | false => rw [waits busy running]; rfl

/-- A machine whose rank falls winds down along a run exactly when every step of the run
meets the condition for making no offer and not parking too early. -/
theorem winds_down_iff (sinks : m.Sinks rule condition inv rank within) {s : State}
    (initial : inv s) (inputs : List Input) (follows : Follows rule m.step s inputs) :
    Always (WindsDown m within) m.observe (watch s) inputs ↔
      Follows condition m.step s inputs := by
  have part (w : Watch State) (i : Input) : (m.observe w i).state = m.step w.state i := rfl
  have followsWatch : Follows (fun w i => rule (Watch.state w) i) m.observe (watch s) inputs :=
    (follows_part part (watch s) inputs).mpr follows
  have begins : WindsDown m within (watch s) := by
    refine ⟨rfl, rfl, fun early => sinks.parked s ?_⟩
    have bounded := sinks.bounded s
    change within ≤ 0 at early
    omega
  have starts : Sinking inv rank within (watch s) := ⟨initial, .inr (sinks.bounded s)⟩
  have meets : Follows (fun w i => condition (Watch.state w) i) m.observe (watch s) inputs ↔
      Follows condition m.step s inputs := follows_part part (watch s) inputs
  have decides (w : Watch State) (i : Input)
      (held : Sinking inv rank within w ∧ WindsDown m within w) (admitted : rule w.state i) :
      WindsDown m within (m.observe w i) ↔ condition w.state i :=
    held.2.observe_iff sinks held.1 admitted
  have preserved (w : Watch State) (i : Input)
      (held : Sinking inv rank within w ∧ WindsDown m within w) (admitted : rule w.state i)
      (quiet : condition w.state i) :
      Sinking inv rank within (m.observe w i) ∧ WindsDown m within (m.observe w i) :=
    ⟨held.1.observe sinks admitted, (decides w i held admitted).mpr quiet⟩
  rw [← meets]
  exact always_iff_follows decides preserved ⟨starts, begins⟩ begins inputs followsWatch

end Zyndra.WindDown
