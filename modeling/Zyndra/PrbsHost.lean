import Zyndra.Lfsr
import Mathlib.Tactic.IntervalCases

/-!
# The host's generator and checker

`prbs.rs` keeps a 16-bit register. A sample carries the register's upper twelve
bits as I and its lower twelve, in reverse order, as Q, each in the upper twelve
bits of a little-endian word. Functions and fields keep their names. Buffers are
lists of bytes; a buffer too short for an index the code uses has no result, which
is the panic there. The counters are natural numbers.
-/

namespace Zyndra.Prbs

open Lfsr

def bitrev12 (x : BitVec 16) : BitVec 16 :=
  (List.range 12).foldl (fun (out : BitVec 16) i => out ||| (x >>> i &&& 1#16) <<< (11 - i)) 0

/-- Polynomial: next = {state[14:0], (^state[15:4]) ^ (^state[2:1])}. -/
def lfsrNext (state : BitVec 16) : BitVec 16 :=
  let xorHi : BitVec 32 := ((state >>> 4) &&& 0xFFF#16).cpop.setWidth 32 &&& 1
  let xorLo : BitVec 32 := ((state >>> 1) &&& 0x3#16).cpop.setWidth 32 &&& 1
  let newBit : BitVec 16 := (xorHi ^^^ xorLo).setWidth 16
  (state <<< 1 ||| newBit) &&& 0xFFFF#16

def stateFromIq (i q : BitVec 16) : BitVec 16 :=
  let qRev := bitrev12 (q &&& 0xFFF#16)
  (i &&& 0xFFF#16) <<< 4 ||| (qRev &&& 0xF#16)

def toLeBytes (word : BitVec 16) : List (BitVec 8) :=
  [word.setWidth 8, (word >>> 8).setWidth 8]

def fromLeBytes (low high : BitVec 8) : BitVec 16 := high ++ low

/-! ## `Generator` -/

structure Generator where
  state : BitVec 16

/-- `Generator::default`. -/
def Generator.default : Generator := ⟨1⟩

/-- `Generator::fill`: the generator afterwards and the filled buffer. Bytes behind
the last whole sample stay. -/
def Generator.fill : Generator → List (BitVec 8) → Generator × List (BitVec 8)
  | g, _ :: _ :: _ :: _ :: rest =>
    let iVal := (g.state >>> 4) &&& 0xFFF#16
    let qRev := bitrev12 (g.state &&& 0xFFF#16)
    let i := iVal <<< 4
    let q := qRev <<< 4
    let filled := Generator.fill ⟨lfsrNext g.state⟩ rest
    (filled.1, toLeBytes i ++ toLeBytes q ++ filled.2)
  | g, short => (g, short)

/-! ## `Checker` -/

structure Checker where
  errors : Nat
  samples : Nat
  seed : BitVec 16

/-- `Checker::default`. -/
def Checker.fresh : Checker := ⟨0, 0, 0⟩

/-- `check`: the seed for the next sample and whether this one is an error. -/
def check (seed i q : BitVec 16) : BitVec 16 × Bool :=
  let expectedI := (seed >>> 4) &&& 0xFFF#16
  if i &&& 0xFFF#16 ≠ expectedI then (lfsrNext (stateFromIq i q), true) else (lfsrNext seed, false)

/-- The body of the loop of `Checker::verify`. -/
def Checker.compare (c : Checker) (i q : BitVec 16) : Checker where
  errors := if (check c.seed i q).2 then c.errors + 1 else c.errors
  samples := c.samples + 1
  seed := (check c.seed i q).1

/-- The loop of `Checker::verify` over `chunks_exact(4)`. -/
def Checker.compareAll : Checker → List (BitVec 8) → Checker
  | c, b₀ :: b₁ :: b₂ :: b₃ :: rest =>
    Checker.compareAll (c.compare (fromLeBytes b₀ b₁ >>> 4) (fromLeBytes b₂ b₃ >>> 4)) rest
  | c, _ => c

/-- The seed `Checker::verify` starts a buffer with. -/
def Checker.seedFrom (c : Checker) (buf : List (BitVec 8)) : Option (BitVec 16) :=
  if c.seed = 0 then
    match buf with
    | b₀ :: b₁ :: b₂ :: b₃ :: _ =>
      some (stateFromIq (fromLeBytes b₀ b₁ >>> 4) (fromLeBytes b₂ b₃ >>> 4))
    | _ => none
  else some c.seed

/-- `Checker::verify`. -/
def Checker.verify (c : Checker) (buf : List (BitVec 8)) : Option Checker := do
  let seed ← c.seedFrom buf
  return Checker.compareAll { c with seed := seed } buf

/-! ## The register -/

/-- The tapped bits of the polynomial. -/
def taps : BitVec 16 := 0xFFF6

/-- The mask of a sample's twelve bits, and of a single bit. -/
theorem mask_getLsbD (j : Nat) : (0xFFF#16).getLsbD j = decide (j < 12) := by
  have ones : 0xFFF#16 = (BitVec.allOnes 12).setWidth 16 := by decide
  rw [ones, BitVec.getLsbD_setWidth, BitVec.getLsbD_allOnes, ← Bool.decide_and]
  exact decide_eq_decide.mpr (by omega)

theorem one_getLsbD (j : Nat) : (1#16).getLsbD j = decide (j = 0) := by
  simp [BitVec.getLsbD_one]

/-- What one round of the reversal adds: the bit at `i`, moved to its place. -/
theorem reversed_bit (x : BitVec 16) {i : Nat} (bounded : i < 12) (j : Nat) :
    ((x >>> i &&& 1#16) <<< (11 - i)).getLsbD j = (decide (j + i = 11) && x.getLsbD (11 - j)) := by
  rw [BitVec.getLsbD_shiftLeft, BitVec.getLsbD_and, BitVec.getLsbD_ushiftRight, one_getLsbD]
  by_cases place : j + i = 11
  · have first : j - (11 - i) = 0 := by omega
    have source : i + 0 = 11 - j := by omega
    have inside : j < 16 ∧ ¬ j < 11 - i := by omega
    simp [place, first, source, inside]
  · by_cases below : j < 11 - i
    · simp [place, below]
    · have other : j - (11 - i) ≠ 0 := by omega
      simp [place, other]

/-- The rounds fill the reversed word from its upper end. -/
theorem reversed_rounds (x : BitVec 16) {n : Nat} (bounded : n ≤ 12) (j : Nat) :
    ((List.range n).foldl
        (fun (out : BitVec 16) i => out ||| (x >>> i &&& 1#16) <<< (11 - i)) 0).getLsbD j =
      (decide (j < 12 ∧ 12 ≤ j + n) && x.getLsbD (11 - j)) := by
  induction n with
  | zero => simp
  | succ n inductionHypothesis =>
    rw [List.range_succ, List.foldl_append, List.foldl_cons, List.foldl_nil, BitVec.getLsbD_or,
      inductionHypothesis (by omega), reversed_bit x (by omega), ← Bool.and_or_distrib_right,
      ← Bool.decide_or]
    congr 1
    exact decide_eq_decide.mpr (by omega)

theorem bitrev12_getLsbD (x : BitVec 16) (j : Nat) :
    (bitrev12 x).getLsbD j = (decide (j < 12) && x.getLsbD (11 - j)) := by
  rw [bitrev12, reversed_rounds x (Nat.le_refl 12)]
  congr 1
  exact decide_eq_decide.mpr (by omega)

theorem parity_tapped (state : BitVec 16) :
    parity (state &&& taps) =
      (parity ((state >>> 4) &&& 0xFFF#16) ^^ parity ((state >>> 1) &&& 0x3#16)) := by
  simp [parity, parityBelow, taps]

/-- The polynomial is that of a feedback register with these taps. -/
theorem lfsrNext_eq : lfsrNext = advance taps := by
  funext state
  have all : ∀ x : BitVec 16, x &&& 0xFFFF#16 = x := fun x => BitVec.and_allOnes
  have low : ∀ x : BitVec 16, x.cpop.setWidth 32 &&& 1 = (BitVec.ofBool (parity x)).setWidth 32 :=
    fun x => cpop_low_bit x (by decide)
  rw [lfsrNext, advance, low, low, parity_tapped]
  simp only [all]
  congr 1
  cases parity ((state >>> 4) &&& 0xFFF#16) <;> cases parity ((state >>> 1) &&& 0x3#16) <;> rfl

theorem lfsrNext_linear : Linear lfsrNext := by
  rw [lfsrNext_eq]
  exact advance_linear taps

/-- Only zero is followed by zero: the bit shifted out is tapped. -/
theorem lfsrNext_eq_zero {state : BitVec 16} (zero : lfsrNext state = 0) : state = 0 := by
  rw [lfsrNext_eq] at zero
  have lower : ∀ i, i + 1 < 16 → state.getLsbD i = false := by
    intro i bounded
    rw [← advance_getLsbD_succ taps state bounded, zero]
    exact BitVec.getLsbD_zero
  have fed : parity (state &&& taps) = false := by
    rw [← advance_getLsbD_zero taps state (by decide), zero]
    exact BitVec.getLsbD_zero
  have top : state.getLsbD 15 = false := by
    have bits : ∀ i, (state &&& taps).getLsbD i = (state.getLsbD i && taps.getLsbD i) :=
      fun i => BitVec.getLsbD_and
    have none : ∀ n, n ≤ 15 → parityBelow (state &&& taps) n = false := by
      intro n bounded
      induction n with
      | zero => rfl
      | succ n inductionHypothesis =>
        rw [parityBelow, bits, lower n (by omega), inductionHypothesis (by omega)]
        rfl
    rw [parity, parityBelow, bits, none 15 (Nat.le_refl 15)] at fed
    simpa [taps] using fed
  apply BitVec.eq_of_getLsbD_eq
  intro i bounded
  have clear : (0 : BitVec 16).getLsbD i = false := BitVec.getLsbD_zero
  rw [clear]
  by_cases below : i + 1 < 16
  · exact lower i below
  · obtain rfl : i = 15 := by omega
    exact top

theorem iterate_lfsrNext_eq_zero {state : BitVec 16} {n : Nat} (zero : lfsrNext^[n] state = 0) :
    state = 0 := by
  have injective := (lfsrNext_linear.injective fun _ => lfsrNext_eq_zero).iterate n
  exact injective (zero.trans (lfsrNext_linear.iterate n).zero.symm)

/-! ## Samples -/

/-- The twelve bits of I and Q a sample carries, as the low bits of a word. -/
structure Iq where
  i : BitVec 16
  q : BitVec 16
  deriving DecidableEq, Repr

/-- The sample of a register state. -/
def sampleOf (state : BitVec 16) : Iq := ⟨state >>> 4, bitrev12 (state &&& 0xFFF#16)⟩

/-- The samples of the whole chunks of a buffer. -/
def received : List (BitVec 8) → List Iq
  | b₀ :: b₁ :: b₂ :: b₃ :: rest =>
    ⟨fromLeBytes b₀ b₁ >>> 4, fromLeBytes b₂ b₃ >>> 4⟩ :: received rest
  | _ => []

/-- A sample fits its twelve bits. -/
def Iq.Fits (x : Iq) : Prop := x.i &&& 0xFFF#16 = x.i ∧ x.q &&& 0xFFF#16 = x.q

theorem ushiftRight_fits (word : BitVec 16) : word >>> 4 &&& 0xFFF#16 = word >>> 4 := by
  apply BitVec.eq_of_getLsbD_eq
  intro j _
  rw [BitVec.getLsbD_and, mask_getLsbD, BitVec.getLsbD_ushiftRight]
  by_cases carried : j < 12
  · simp [carried]
  · have above : word.getLsbD (4 + j) = false := BitVec.getLsbD_of_ge _ _ (by omega)
    simp [above]

theorem sampleOf_fits (state : BitVec 16) : (sampleOf state).Fits := by
  refine ⟨ushiftRight_fits state, ?_⟩
  apply BitVec.eq_of_getLsbD_eq
  intro j _
  rw [BitVec.getLsbD_and, mask_getLsbD, sampleOf, bitrev12_getLsbD]
  cases decide (j < 12) <;> simp

theorem received_fits {buf : List (BitVec 8)} {x : Iq} (member : x ∈ received buf) : x.Fits := by
  induction buf using received.induct with
  | case1 b₀ b₁ b₂ b₃ rest inductionHypothesis =>
    rcases List.mem_cons.mp member with rfl | later
    · exact ⟨ushiftRight_fits _, ushiftRight_fits _⟩
    · exact inductionHypothesis later
  | case2 short notWhole =>
    rw [received] at member
    · cases member
    · exact notWhole

/-- The register state is recovered from its sample. -/
theorem stateFromIq_sampleOf (state : BitVec 16) :
    stateFromIq (sampleOf state).i (sampleOf state).q = state := by
  apply BitVec.eq_of_getLsbD_eq
  intro j bounded
  simp only [stateFromIq, sampleOf, BitVec.getLsbD_or, BitVec.getLsbD_and, bitrev12_getLsbD,
    BitVec.getLsbD_shiftLeft, BitVec.getLsbD_ushiftRight]
  interval_cases j <;> simp

/-- The samples are those of the register started from `s`. -/
def Carried (s : BitVec 16) (xs : List Iq) : Prop :=
  ∀ k x, xs[k]? = some x → x = sampleOf (lfsrNext^[k] s)

theorem carried_cons {s : BitVec 16} {x : Iq} {rest : List Iq} :
    Carried s (x :: rest) ↔ x = sampleOf s ∧ Carried (lfsrNext s) rest := by
  constructor
  · intro carried
    refine ⟨carried 0 x rfl, ?_⟩
    intro k y at_k
    exact carried (k + 1) y at_k
  · rintro ⟨first, later⟩ k y at_k
    cases k with
    | zero =>
      obtain rfl : x = y := Option.some.inj at_k
      exact first
    | succ k => exact later k y at_k

/-- The two bytes of a word make up the word. -/
theorem fromLeBytes_toLeBytes (word : BitVec 16) :
    fromLeBytes (word.setWidth 8) ((word >>> 8).setWidth 8) = word := by
  apply BitVec.eq_of_getLsbD_eq
  intro j bounded
  simp only [fromLeBytes, BitVec.getLsbD_append, BitVec.getLsbD_setWidth,
    BitVec.getLsbD_ushiftRight]
  interval_cases j <;> simp

/-- Twelve bits survive in the upper part of a word. -/
theorem shiftLeft_ushiftRight_fits {bits : BitVec 16} (fits : bits &&& 0xFFF#16 = bits) :
    (bits <<< 4) >>> 4 = bits := by
  rw [← fits]
  apply BitVec.eq_of_getLsbD_eq
  intro j bounded
  simp only [BitVec.getLsbD_ushiftRight, BitVec.getLsbD_shiftLeft, BitVec.getLsbD_and]
  interval_cases j <;> simp

/-- The sample the generator writes is the one of its state. -/
theorem fill_sample (state : BitVec 16) :
    (⟨((state >>> 4 &&& 0xFFF#16) <<< 4) >>> 4,
      (bitrev12 (state &&& 0xFFF#16) <<< 4) >>> 4⟩ : Iq) = sampleOf state := by
  have lower : (bitrev12 (state &&& 0xFFF#16) <<< 4) >>> 4 = bitrev12 (state &&& 0xFFF#16) :=
    shiftLeft_ushiftRight_fits (sampleOf_fits state).2
  rw [ushiftRight_fits, shiftLeft_ushiftRight_fits (ushiftRight_fits state), lower]
  rfl

/-- The generator writes the samples of its successive states. -/
theorem fill_carried (g : Generator) (buf : List (BitVec 8)) :
    Carried g.state (received (g.fill buf).2) := by
  induction g, buf using Generator.fill.induct with
  | case1 g b₀ b₁ b₂ b₃ rest inductionHypothesis =>
    simp only [Generator.fill, toLeBytes, List.cons_append, List.nil_append, received,
      fromLeBytes_toLeBytes]
    exact carried_cons.mpr ⟨fill_sample g.state, inductionHypothesis⟩
  | case2 g short notWhole =>
    rw [Generator.fill.eq_2 g short notWhole, received.eq_2 short notWhole]
    rintro k x ⟨⟩

end Zyndra.Prbs
