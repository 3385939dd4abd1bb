import Mathlib.Data.BitVec
import Mathlib.Data.Nat.Prime.Basic
import Mathlib.Dynamics.PeriodicPts.Defs

/-!
# Linear steps on bit vectors and feedback shift registers

A step is linear when it distributes over exclusive or. It is then determined by
its images of the single bits, its columns, and its powers can be computed from
squared columns in a number of stages that grows with the length of the exponent
only. A period is settled by such powers: the step comes back after `n` rounds
and after none of the `n / p` for the primes `p` that divide `n`.

A feedback register shifts its word up by one place and fills the lowest bit with
the parity of the tapped bits.
-/

namespace Zyndra.Lfsr

open Function

variable {w : Nat}

/-! ## Linear steps -/

/-- The step distributes over exclusive or. -/
def Linear (step : BitVec w → BitVec w) : Prop :=
  ∀ x y, step (x ^^^ y) = step x ^^^ step y

/-- A linear step leaves zero. -/
theorem Linear.zero {step : BitVec w → BitVec w} (linear : Linear step) : step 0 = 0 := by
  have twice := linear 0 0
  rw [BitVec.xor_self, BitVec.xor_self] at twice
  exact twice

theorem Linear.comp {step next : BitVec w → BitVec w} (linear : Linear step)
    (nextLinear : Linear next) : Linear (next ∘ step) := by
  intro x y
  rw [comp_apply, linear, nextLinear]
  rfl

theorem Linear.iterate {step : BitVec w → BitVec w} (linear : Linear step) (n : Nat) :
    Linear step^[n] := by
  induction n with
  | zero =>
    intro x y
    rfl
  | succ n inductionHypothesis =>
    rw [iterate_succ]
    exact linear.comp inductionHypothesis

/-- A linear step is injective when it takes nothing else to zero. -/
theorem Linear.injective {step : BitVec w → BitVec w} (linear : Linear step)
    (kernel : ∀ x, step x = 0 → x = 0) : Injective step := by
  intro x y same
  apply BitVec.xor_eq_zero_iff.mp
  apply kernel
  rw [linear, same, BitVec.xor_self]
  rfl

/-! ## Columns -/

/-- The images of the single bits, the lowest first. -/
def columns (step : BitVec w → BitVec w) : List (BitVec w) :=
  (List.range w).map fun i => step (BitVec.twoPow w i)

/-- The exclusive or of the columns at the bits of the word from the given one on. -/
def combine : List (BitVec w) → Nat → BitVec w → BitVec w
  | [], _, _ => 0
  | column :: rest, i, x => (if x.getLsbD i then column else 0) ^^^ combine rest (i + 1) x

/-- The bits from place `i` on are bit `i` and those from place `i + 1` on. -/
theorem upper_bits (x : BitVec w) (i : Nat) :
    x >>> i <<< i =
      (if x.getLsbD i then BitVec.twoPow w i else 0) ^^^ x >>> (i + 1) <<< (i + 1) := by
  apply BitVec.eq_of_getLsbD_eq
  intro j bounded
  have column : (if x.getLsbD i then BitVec.twoPow w i else 0).getLsbD j =
      (x.getLsbD i && decide (j = i)) := by
    cases x.getLsbD i <;> simp [bounded, eq_comm]
  rw [BitVec.getLsbD_xor, column]
  simp only [BitVec.getLsbD_shiftLeft, BitVec.getLsbD_ushiftRight, bounded, decide_true,
    Bool.true_and]
  rcases Nat.lt_trichotomy j i with below | rfl | above
  · simp [below, Nat.ne_of_lt below, Nat.lt_succ_of_lt below]
  · simp
  · have reached : i + (j - i) = i + 1 + (j - (i + 1)) := by omega
    have past : ¬ j < i := Nat.not_lt_of_lt above
    have past' : ¬ j < i + 1 := by omega
    simp [past, past', Nat.ne_of_gt above, reached]

/-- Combining the columns from place `i` on gives the step on the bits from there. -/
theorem combine_upper {step : BitVec w → BitVec w} (linear : Linear step) (x : BitVec w)
    (count i : Nat) (last : i + count = w) :
    combine ((List.range' i count).map fun j => step (BitVec.twoPow w j)) i x =
      step (x >>> i <<< i) := by
  induction count generalizing i with
  | zero =>
    have none : x >>> i <<< i = 0 := by
      apply BitVec.eq_of_getLsbD_eq
      intro j bounded
      have below : j < i := by omega
      simp [below]
    rw [none, linear.zero]
    rfl
  | succ count inductionHypothesis =>
    rw [List.range'_succ, List.map_cons, combine, inductionHypothesis (i + 1) (by omega),
      upper_bits x i, linear]
    congr 1
    split
    · rfl
    · exact linear.zero.symm

/-- A linear step is the combination of its columns. -/
theorem combine_columns {step : BitVec w → BitVec w} (linear : Linear step) (x : BitVec w) :
    combine (columns step) 0 x = step x := by
  have all := combine_upper linear x w 0 (Nat.zero_add w)
  rw [BitVec.ushiftRight_zero, BitVec.shiftLeft_zero] at all
  rw [columns, List.range_eq_range']
  exact all

/-- The columns of the step taken twice. -/
def square (cols : List (BitVec w)) : List (BitVec w) := cols.map (combine cols 0)

theorem square_columns {step : BitVec w → BitVec w} (linear : Linear step) :
    square (columns step) = columns step^[2] := by
  rw [square, columns, columns, List.map_map]
  apply List.map_congr_left
  intro i _
  exact combine_columns linear _

/-- The number with these binary digits, the lowest first. -/
def weight : List Bool → Nat
  | [] => 0
  | bit :: rest => bit.toNat + 2 * weight rest

/-- As many rounds of the step with these columns as the digits say. -/
def jump : List (BitVec w) → List Bool → BitVec w → BitVec w
  | _, [], x => x
  | cols, bit :: rest, x => jump (square cols) rest (if bit then combine cols 0 x else x)

/-- A jump takes the step its number of times.

Each digit leaves the digits of half the number, for the step taken twice. -/
theorem jump_columns {step : BitVec w → BitVec w} (linear : Linear step) (digits : List Bool)
    (x : BitVec w) : jump (columns step) digits x = step^[weight digits] x := by
  induction digits generalizing step x with
  | nil => rfl
  | cons bit rest inductionHypothesis =>
    rw [jump, square_columns linear, inductionHypothesis (linear.iterate 2), ← iterate_mul, weight]
    cases bit with
    | false =>
      rw [Bool.toNat_false, Nat.zero_add]
      rfl
    | true =>
      rw [if_pos rfl, combine_columns linear, Bool.toNat_true, Nat.add_comm, iterate_succ_apply]

/-! ## Periods -/

/-- A point comes back after `n` rounds for the first time when it does so after
`n` rounds and after no `n / p` rounds for a prime `p` that divides `n`. -/
theorem minimalPeriod_eq {α : Type*} {step : α → α} {x : α} {n : Nat} (returns : step^[n] x = x)
    (notBefore : ∀ p, p.Prime → p ∣ n → step^[n / p] x ≠ x) : minimalPeriod step x = n := by
  obtain ⟨cofactor, whole⟩ :=
    IsPeriodicPt.minimalPeriod_dvd (show IsPeriodicPt step n x from returns)
  by_cases one : cofactor = 1
  · rw [whole, one, Nat.mul_one]
  · obtain ⟨p, prime, divides⟩ := Nat.exists_prime_and_dvd one
    obtain ⟨quotient, rfl⟩ := divides
    have shorter : n / p = minimalPeriod step x * quotient := by
      rw [whole, Nat.mul_left_comm, Nat.mul_div_cancel_left _ prime.pos]
    have early : step^[n / p] x = x := by
      rw [shorter]
      exact (isPeriodicPt_minimalPeriod step x).mul_const quotient
    have divisor : p ∣ n := by
      rw [whole, Nat.mul_left_comm]
      exact Nat.dvd_mul_right _ _
    exact absurd early (notBefore p prime divisor)

/-! ## Feedback registers -/

/-- The exclusive or of the lowest `n` bits. -/
def parityBelow (x : BitVec w) : Nat → Bool
  | 0 => false
  | n + 1 => x.getLsbD n ^^ parityBelow x n

/-- Whether an odd number of bits is set. -/
def parity (x : BitVec w) : Bool := parityBelow x w

theorem parityBelow_xor (x y : BitVec w) (n : Nat) :
    parityBelow (x ^^^ y) n = (parityBelow x n ^^ parityBelow y n) := by
  induction n with
  | zero => rfl
  | succ n inductionHypothesis =>
    simp only [parityBelow, inductionHypothesis, BitVec.getLsbD_xor]
    cases x.getLsbD n <;> cases y.getLsbD n <;> simp

theorem parity_xor (x y : BitVec w) : parity (x ^^^ y) = (parity x ^^ parity y) :=
  parityBelow_xor x y w

theorem parityBelow_cpopNatRec (x : BitVec w) (n : Nat) :
    x.cpopNatRec n 0 % 2 = (parityBelow x n).toNat := by
  induction n with
  | zero => rfl
  | succ n inductionHypothesis =>
    rw [BitVec.cpopNatRec_succ, BitVec.cpopNatRec_eq, Nat.add_mod, inductionHypothesis, parityBelow]
    cases x.getLsbD n <;> cases parityBelow x n <;> rfl

/-- The parity of a word is the parity of its population count. -/
theorem cpop_mod_two (x : BitVec w) : x.cpop.toNat % 2 = (parity x).toNat := by
  rw [BitVec.cpop, BitVec.toNat_ofNat, parity]
  cases w with
  | zero => rfl
  | succ w =>
    rw [Nat.mod_mod_of_dvd _ (dvd_pow_self 2 (Nat.succ_ne_zero w))]
    exact parityBelow_cpopNatRec x (w + 1)

/-- The lowest bit of a population count is the parity. -/
theorem cpop_low_bit (x : BitVec w) {v : Nat} (positive : 0 < v) :
    x.cpop.setWidth v &&& 1#v = (BitVec.ofBool (parity x)).setWidth v := by
  have even : 2 ∣ 2 ^ v := dvd_pow_self 2 (Nat.pos_iff_ne_zero.mp positive)
  have one : (1#v).toNat = 1 := by
    rw [BitVec.toNat_ofNat]
    exact Nat.mod_eq_of_lt (Nat.one_lt_two_pow (Nat.pos_iff_ne_zero.mp positive))
  apply BitVec.eq_of_toNat_eq
  rw [BitVec.toNat_and, BitVec.toNat_setWidth, one, Nat.and_one_is_mod, Nat.mod_mod_of_dvd _ even,
    cpop_mod_two, BitVec.toNat_setWidth, BitVec.toNat_ofBool, Nat.mod_eq_of_lt]
  exact Nat.lt_of_lt_of_le (Bool.toNat_lt _) (Nat.le_of_dvd (Nat.two_pow_pos v) even)

/-- The register moves up one place and takes in the parity of its tapped bits. -/
def advance (taps state : BitVec w) : BitVec w :=
  state <<< 1 ||| (BitVec.ofBool (parity (state &&& taps))).setWidth w

theorem advance_getLsbD_zero (taps state : BitVec w) (positive : 0 < w) :
    (advance taps state).getLsbD 0 = parity (state &&& taps) := by
  simp [advance, positive]

theorem advance_getLsbD_succ (taps state : BitVec w) {i : Nat} (bounded : i + 1 < w) :
    (advance taps state).getLsbD (i + 1) = state.getLsbD i := by
  have rest : (BitVec.ofBool (parity (state &&& taps))).getLsbD (i + 1) = false :=
    BitVec.getLsbD_of_ge _ _ (by omega)
  rw [advance, BitVec.getLsbD_or, BitVec.getLsbD_shiftLeft, BitVec.getLsbD_setWidth, rest]
  simp [bounded]

/-- A register advances linearly. -/
theorem advance_linear (taps : BitVec w) : Linear (advance taps) := by
  intro x y
  apply BitVec.eq_of_getLsbD_eq
  intro i bounded
  rw [BitVec.getLsbD_xor]
  cases i with
  | zero =>
    rw [advance_getLsbD_zero _ _ bounded, advance_getLsbD_zero _ _ bounded,
      advance_getLsbD_zero _ _ bounded, ← parity_xor]
    congr 1
    apply BitVec.eq_of_getLsbD_eq
    intro j _
    simp only [BitVec.getLsbD_and, BitVec.getLsbD_xor, Bool.and_xor_distrib_right]
  | succ i =>
    rw [advance_getLsbD_succ _ _ bounded, advance_getLsbD_succ _ _ bounded,
      advance_getLsbD_succ _ _ bounded, BitVec.getLsbD_xor]

end Zyndra.Lfsr
