import Zyndra.CyclicTable
import Zyndra.PrbsHost
import Mathlib.Tactic.NormNum.Prime

/-!
# The embedded table

`prbs_init` runs the register once through all its states and stores the sample
of each at its position, and the position at each state. `prbs_fill_block` copies
slices of the table from a position it carries on, and starts again behind the
last entry. Since the register returns to state 1 after exactly 65535 rounds, the
table repeated for ever is the stream of the host's generator.

Functions keep their names. The tables are the two global arrays; a copy that
leaves its table has no result, and neither has a loop that does not end.
-/

namespace Zyndra.Ad9361Txrx

open CyclicTable Lfsr Function

/-- The sequence length: 2^16 - 1. -/
def prbsLen : BitVec 32 := 65535

/-- `struct prbs_iq`. -/
structure PrbsIq where
  i : BitVec 16
  q : BitVec 16
  deriving DecidableEq, Repr

/-- The operands are promoted to `int`. -/
def bitrev12 (x : BitVec 16) : BitVec 16 :=
  (List.range 12).foldl
    (fun (out : BitVec 16) i =>
      out ||| ((x.setWidth 32 >>> i &&& 1#32) <<< (11 - i)).setWidth 16) 0

/-- Polynomial: next = {state[14:0], (^state[15:4]) ^ (^state[2:1])}. -/
def lfsrNext (state : BitVec 16) : BitVec 16 :=
  let promoted : BitVec 32 := state.setWidth 32
  let xorHi : BitVec 32 := (promoted >>> 4 &&& 0xFFF#32).cpop &&& 1#32
  let xorLo : BitVec 32 := (promoted >>> 1 &&& 0x3#32).cpop &&& 1#32
  let newBit : BitVec 16 := (xorHi ^^^ xorLo).setWidth 16
  ((promoted <<< 1 ||| newBit.setWidth 32) &&& 0xFFFF#32).setWidth 16

/-- Recover the register state from a received I/Q pair. -/
def prbsStateFromIq (i q : BitVec 16) : BitVec 16 :=
  let qRev := bitrev12 (q &&& 0xFFF#16)
  ((i.setWidth 32 &&& 0xFFF#32) <<< 4 ||| (qRev.setWidth 32 &&& 0xF#32)).setWidth 16

/-- `g_prbs_lut` and `g_prbs_pos`. -/
structure Tables where
  lut : List PrbsIq
  pos : BitVec 16 → BitVec 16

/-- The loop of `prbs_init` for the remaining rounds, from index `n` and `state` on. -/
def prbsInitLoop : (rounds n : Nat) → (state : BitVec 16) → Tables → Tables
  | 0, _, _, tables => tables
  | rounds + 1, n, state, tables =>
    let iVal := state >>> 4 &&& 0xFFF#16
    let qRev := bitrev12 (state &&& 0xFFF#16)
    prbsInitLoop rounds (n + 1) (lfsrNext state)
      { lut := tables.lut.set n ⟨iVal <<< 4, qRev <<< 4⟩
        pos := update tables.pos state (BitVec.ofNat 16 n) }

/-- `prbs_init`, on the zeroed arrays. -/
def prbsInit : Tables :=
  prbsInitLoop prbsLen.toNat 0 1 ⟨List.replicate prbsLen.toNat ⟨0, 0⟩, fun _ => 0⟩

/-- The samples up to the end of the table, or the remaining ones if there are fewer. -/
def wrapChunk (p remaining : BitVec 32) : BitVec 32 :=
  let chunk := prbsLen - p
  if remaining < chunk then remaining else chunk

/-- The loop of `prbs_fill_block` in at most the given number of rounds: what has
been copied, and the position afterwards. -/
def prbsFillLoop (lut : List PrbsIq) : (rounds : Nat) → (p remaining : BitVec 32) →
    Option (List PrbsIq × BitVec 32)
  | 0, p, remaining => if remaining = 0 then some ([], p) else none
  | rounds + 1, p, remaining =>
    if remaining = 0 then some ([], p)
    else do
      let chunk := wrapChunk p remaining
      let copied ← slice lut p.toNat chunk.toNat
      let (later, last) ← prbsFillLoop lut rounds ((p + chunk) % prbsLen) (remaining - chunk)
      return (copied ++ later, last)

/-- `prbs_fill_block`: the samples written and the new `*prbs_pos_p`. -/
def prbsFillBlock (lut : List PrbsIq) (numSamples pos : BitVec 32) :
    Option (List PrbsIq × BitVec 32) :=
  prbsFillLoop lut numSamples.toNat pos numSamples

/-- One call after the other, with the position carried on. -/
def prbsFillBlocks (lut : List PrbsIq) : (pos : BitVec 32) → (calls : List (BitVec 32)) →
    Option (List PrbsIq)
  | _, [] => some []
  | pos, numSamples :: rest => do
    let (samples, next) ← prbsFillBlock lut numSamples pos
    let later ← prbsFillBlocks lut next rest
    return samples ++ later

/-- A sample in memory: two little-endian words. -/
def PrbsIq.bytes (x : PrbsIq) : List (BitVec 8) := Prbs.toLeBytes x.i ++ Prbs.toLeBytes x.q

/-! ## The functions shared with the host -/

/-- A bit moved up is not changed by the promotion. -/
theorem promoted_bit (x : BitVec 16) (i place : Nat) :
    ((x.setWidth 32 >>> i &&& 1#32) <<< place).setWidth 16 = (x >>> i &&& 1#16) <<< place := by
  have narrow : x.toNat % 2 ^ 32 = x.toNat := Nat.mod_eq_of_lt (by omega)
  have one : 1 % 2 ^ 32 = 1 % 2 ^ 16 := rfl
  apply BitVec.eq_of_toNat_eq
  simp only [BitVec.toNat_setWidth, BitVec.toNat_shiftLeft, BitVec.toNat_and,
    BitVec.toNat_ushiftRight, BitVec.toNat_ofNat]
  rw [narrow, one, Nat.mod_mod_of_dvd _ (by decide)]

theorem bitrev12_eq : bitrev12 = Prbs.bitrev12 := by
  funext x
  apply List.foldl_ext
  intro out i _
  rw [promoted_bit]

/-- The tapped parts have the same parity before and after the promotion. -/
theorem promoted_parity (state : BitVec 16) :
    parity (state.setWidth 32 >>> 4 &&& 0xFFF#32) = parity (state >>> 4 &&& 0xFFF#16) ∧
      parity (state.setWidth 32 >>> 1 &&& 0x3#32) = parity (state >>> 1 &&& 0x3#16) := by
  constructor <;> simp [parity, parityBelow]

theorem lfsrNext_eq : lfsrNext = Prbs.lfsrNext := by
  funext state
  have low : ∀ x : BitVec 32, x.cpop &&& 1#32 = (BitVec.ofBool (parity x)).setWidth 32 := by
    intro x
    rw [← cpop_low_bit x (by decide), BitVec.setWidth_eq]
  have low16 : ∀ x : BitVec 16, x.cpop.setWidth 32 &&& 1 =
      (BitVec.ofBool (parity x)).setWidth 32 := fun x => cpop_low_bit x (by decide)
  obtain ⟨high, rest⟩ := promoted_parity state
  simp only [lfsrNext, Prbs.lfsrNext, low, low16, high, rest]
  apply BitVec.eq_of_getLsbD_eq
  intro j bounded
  interval_cases j <;> simp

theorem prbsStateFromIq_eq : prbsStateFromIq = Prbs.stateFromIq := by
  funext i q
  apply BitVec.eq_of_getLsbD_eq
  intro j bounded
  simp only [prbsStateFromIq, Prbs.stateFromIq, bitrev12_eq]
  interval_cases j <;> simp

/-! ## The orbit of state 1 -/

/-- The state of the register after `n` rounds from state 1. -/
def orbit (n : Nat) : BitVec 16 := Prbs.lfsrNext^[n] 1

theorem orbit_succ (n : Nat) : orbit (n + 1) = Prbs.lfsrNext (orbit n) :=
  iterate_succ_apply' Prbs.lfsrNext n 1

/-- Rounds counted by their binary digits are a jump. -/
theorem orbit_jump (digits : List Bool) :
    orbit (weight digits) = jump (columns Prbs.lfsrNext) digits 1 :=
  (jump_columns Prbs.lfsrNext_linear digits 1).symm

theorem prime_divisors {p : Nat} (prime : p.Prime) (divides : p ∣ 65535) :
    p = 3 ∨ p = 5 ∨ p = 17 ∨ p = 257 := by
  have factors : 65535 = 3 * (5 * (17 * 257)) := rfl
  rw [factors, prime.dvd_mul, prime.dvd_mul, prime.dvd_mul,
    Nat.prime_dvd_prime_iff_eq prime (by norm_num), Nat.prime_dvd_prime_iff_eq prime (by norm_num),
    Nat.prime_dvd_prime_iff_eq prime (by norm_num), Nat.prime_dvd_prime_iff_eq prime (by norm_num)]
    at divides
  exact divides

/-- The register returns to state 1 after 65535 rounds for the first time. -/
theorem period : minimalPeriod Prbs.lfsrNext 1 = 65535 := by
  have elsewhere : ∀ digits : List Bool,
      jump (columns Prbs.lfsrNext) digits 1 ≠ 1 → orbit (weight digits) ≠ 1 := by
    intro digits differs
    rw [orbit_jump]
    exact differs
  apply minimalPeriod_eq
  · exact (orbit_jump (List.replicate 16 true)).trans (by decide +kernel)
  · intro p prime divides
    rcases prime_divisors prime divides with rfl | rfl | rfl | rfl
    · exact elsewhere [true, false, true, false, true, false, true, false, true, false, true,
        false, true, false, true] (by decide +kernel)
    · exact elsewhere [true, true, false, false, true, true, false, false, true, true, false,
        false, true, true] (by decide +kernel)
    · exact elsewhere [true, true, true, true, false, false, false, false, true, true, true, true]
        (by decide +kernel)
    · exact elsewhere (List.replicate 8 true) (by decide +kernel)

theorem orbit_mod (n : Nat) : orbit (n % 65535) = orbit n := by
  have reduced : orbit (n % minimalPeriod Prbs.lfsrNext 1) = orbit n :=
    iterate_mod_minimalPeriod_eq
  rw [period] at reduced
  exact reduced

/-- No state comes twice within the period. -/
theorem orbit_injective {m n : Nat} (first : m < 65535) (second : n < 65535)
    (same : orbit m = orbit n) : m = n := by
  rw [← period] at first second
  exact (iterate_eq_iterate_iff_of_lt_minimalPeriod first second).mp same

/-! ## `prbs_init` -/

/-- The table entry of a state. -/
def entryOf (state : BitVec 16) : PrbsIq :=
  ⟨(state >>> 4 &&& 0xFFF#16) <<< 4, bitrev12 (state &&& 0xFFF#16) <<< 4⟩

/-- The first `n` positions are stored, and found at their states. -/
structure Filled (tables : Tables) (n : Nat) : Prop where
  length : tables.lut.length = 65535
  entries : ∀ k, k < n → tables.lut[k]? = some (entryOf (orbit k))
  positions : ∀ k, k < n → tables.pos (orbit k) = BitVec.ofNat 16 k

/-- A round stores one more position. Its state has not come before, so the
positions stored stay where they are. -/
theorem Filled.round {tables : Tables} {n : Nat} (filled : Filled tables n) (room : n < 65535) :
    Filled
      { lut := tables.lut.set n (entryOf (orbit n))
        pos := update tables.pos (orbit n) (BitVec.ofNat 16 n) } (n + 1) where
  length := by rw [List.length_set, filled.length]
  entries := by
    intro k below
    rcases Nat.lt_succ_iff_lt_or_eq.mp below with earlier | rfl
    · rw [List.getElem?_set_ne (Nat.ne_of_gt earlier)]
      exact filled.entries k earlier
    · apply List.getElem?_set_self
      rw [filled.length]
      exact room
  positions := by
    intro k below
    rcases Nat.lt_succ_iff_lt_or_eq.mp below with earlier | rfl
    · have distinct : orbit k ≠ orbit n := by
        intro same
        exact Nat.ne_of_lt earlier (orbit_injective (Nat.lt_trans earlier room) room same)
      exact (update_of_ne distinct _ _).trans (filled.positions k earlier)
    · exact update_self _ _ _

theorem prbsInitLoop_filled (rounds : Nat) {tables : Tables} {n : Nat} (filled : Filled tables n)
    (room : n + rounds ≤ 65535) :
    Filled (prbsInitLoop rounds n (orbit n) tables) (n + rounds) := by
  induction rounds generalizing n tables with
  | zero => exact filled
  | succ rounds inductionHypothesis =>
    have next := inductionHypothesis (filled.round (by omega)) (by omega)
    rw [orbit_succ, ← lfsrNext_eq, Nat.add_right_comm] at next
    exact next

theorem prbsInit_filled : Filled prbsInit 65535 := by
  have blank : Filled ⟨List.replicate prbsLen.toNat ⟨0, 0⟩, fun _ => 0⟩ 0 :=
    ⟨List.length_replicate, nofun, nofun⟩
  exact prbsInitLoop_filled 65535 blank (Nat.le_refl _)

/-- The table holds the samples of the orbit. -/
theorem prbsInit_tabulates : Tabulates prbsInit.lut (fun k => entryOf (orbit k)) 65535 :=
  ⟨prbsInit_filled.length, prbsInit_filled.entries⟩

/-! ## `prbs_fill_block` -/

theorem prbsLen_toNat : prbsLen.toNat = 65535 := rfl

theorem wrapChunk_toNat {p : BitVec 32} (remaining : BitVec 32) (inside : p.toNat < 65535) :
    (wrapChunk p remaining).toNat = min remaining.toNat (65535 - p.toNat) := by
  have room : (prbsLen - p).toNat = 65535 - p.toNat :=
    BitVec.toNat_sub_of_le (Nat.le_of_lt inside)
  show (if remaining < prbsLen - p then remaining else prbsLen - p).toNat = _
  rw [← room]
  split
  · rename_i less
    exact (Nat.min_eq_left (Nat.le_of_lt less)).symm
  · rename_i more
    exact (Nat.min_eq_right (Nat.le_of_not_lt more)).symm

/-- A chunk ends inside the table or at its end. -/
theorem wrapChunk_next {p : BitVec 32} (remaining : BitVec 32) (inside : p.toNat < 65535) :
    ((p + wrapChunk p remaining) % prbsLen).toNat =
      (p.toNat + (wrapChunk p remaining).toNat) % 65535 := by
  have size := wrapChunk_toNat remaining inside
  have sum : (p + wrapChunk p remaining).toNat = p.toNat + (wrapChunk p remaining).toNat :=
    BitVec.toNat_add_of_lt (by omega)
  rw [BitVec.toNat_umod, sum, prbsLen_toNat]

/-- From a position inside the table the loop ends, and has copied the repeated
table from there on.

Induct on the rounds left. A round copies up to the end of the table or of the
block, at least one sample. -/
theorem prbsFillLoop_eq {lut : List PrbsIq} {entry : Nat → PrbsIq}
    (tabulates : Tabulates lut entry 65535) (rounds : Nat) {p remaining : BitVec 32}
    (inside : p.toNat < 65535) (enough : remaining.toNat ≤ rounds) :
    ∃ last, prbsFillLoop lut rounds p remaining =
        some (stretch entry 65535 p.toNat remaining.toNat, last) ∧
      last.toNat = (p.toNat + remaining.toNat) % 65535 := by
  induction rounds generalizing p remaining with
  | zero =>
    obtain rfl : remaining = 0 := BitVec.eq_of_toNat_eq (Nat.le_zero.mp enough)
    exact ⟨p, rfl, (Nat.mod_eq_of_lt inside).symm⟩
  | succ rounds inductionHypothesis =>
    by_cases done : remaining = 0
    · subst done
      exact ⟨p, rfl, (Nat.mod_eq_of_lt inside).symm⟩
    · have positive : 0 < remaining.toNat := by
        rw [Nat.pos_iff_ne_zero]
        exact fun zero => done (BitVec.eq_of_toNat_eq zero)
      have size := wrapChunk_toNat remaining inside
      have next := wrapChunk_next remaining inside
      have within : p.toNat + (wrapChunk p remaining).toNat ≤ 65535 := by omega
      have copied := slice_eq tabulates within
      have left : (remaining - wrapChunk p remaining).toNat =
          remaining.toNat - (wrapChunk p remaining).toNat := BitVec.toNat_sub_of_le (by
        rw [BitVec.le_def]
        omega)
      have whole : remaining.toNat =
          (wrapChunk p remaining).toNat + (remaining - wrapChunk p remaining).toNat := by omega
      have nextInside : ((p + wrapChunk p remaining) % prbsLen).toNat < 65535 := by
        rw [next]
        exact Nat.mod_lt _ (by decide)
      have fewer : (remaining - wrapChunk p remaining).toNat ≤ rounds := by omega
      obtain ⟨last, later, position⟩ := inductionHypothesis nextInside fewer
      refine ⟨last, ?_, ?_⟩
      · rw [prbsFillLoop, if_neg done]
        simp only [copied, later, Option.bind_eq_bind, Option.bind_some, Option.pure_def]
        rw [whole, stretch_add, next, stretch_mod]
      · rw [position, next, whole, Nat.mod_add_mod, Nat.add_assoc]

/-- Calls with the position carried on copy one stretch. -/
theorem prbsFillBlocks_eq {lut : List PrbsIq} {entry : Nat → PrbsIq}
    (tabulates : Tabulates lut entry 65535) (calls : List (BitVec 32)) {pos : BitVec 32}
    (inside : pos.toNat < 65535) :
    prbsFillBlocks lut pos calls =
      some (stretch entry 65535 pos.toNat (calls.map BitVec.toNat).sum) := by
  induction calls generalizing pos with
  | nil => rfl
  | cons numSamples rest inductionHypothesis =>
    obtain ⟨last, copied, position⟩ :=
      prbsFillLoop_eq tabulates numSamples.toNat inside (Nat.le_refl _)
    have next : last.toNat < 65535 := by
      rw [position]
      exact Nat.mod_lt _ (by decide)
    have later := inductionHypothesis next
    rw [prbsFillBlocks, prbsFillBlock, copied]
    simp only [Option.bind_eq_bind, Option.bind_some, later, List.map_cons, List.sum_cons,
      stretch_add, position, stretch_mod]
    rfl

/-! ## The two streams -/

/-- The generator's buffer is filled with the samples of its states, one after the
other. -/
theorem fill_eq (g : Prbs.Generator) {buf : List (BitVec 8)} {n : Nat}
    (whole : buf.length = 4 * n) :
    (g.fill buf).2 =
        (List.range n).flatMap (fun k => (entryOf (Prbs.lfsrNext^[k] g.state)).bytes) ∧
      (g.fill buf).1.state = Prbs.lfsrNext^[n] g.state := by
  induction n generalizing g buf with
  | zero =>
    obtain rfl : buf = [] := List.eq_nil_of_length_eq_zero whole
    exact ⟨rfl, rfl⟩
  | succ n inductionHypothesis =>
    match buf, whole with
    | _ :: _ :: _ :: _ :: rest, whole =>
      have shorter : rest.length = 4 * n := by
        simp only [List.length_cons] at whole
        omega
      obtain ⟨filled, state⟩ := inductionHypothesis ⟨Prbs.lfsrNext g.state⟩ shorter
      constructor
      · rw [Prbs.Generator.fill, List.range_succ_eq_map, List.flatMap_cons, List.flatMap_map]
        simp only [filled, PrbsIq.bytes, entryOf, bitrev12_eq]
        rfl
      · rw [Prbs.Generator.fill, iterate_succ_apply]
        exact state

/-- Buffer after buffer, the generator carried on. -/
def fillAll : Prbs.Generator → List (List (BitVec 8)) → List (BitVec 8)
  | _, [] => []
  | g, buf :: rest => (g.fill buf).2 ++ fillAll (g.fill buf).1 rest

theorem fillAll_eq (g : Prbs.Generator) {buffers : List (List (BitVec 8))}
    (whole : ∀ buf ∈ buffers, buf.length % 4 = 0) {n : Nat}
    (total : (buffers.map List.length).sum = 4 * n) :
    fillAll g buffers =
      (List.range n).flatMap fun k => (entryOf (Prbs.lfsrNext^[k] g.state)).bytes := by
  induction buffers generalizing g n with
  | nil =>
    obtain rfl : n = 0 := by simpa using total
    rfl
  | cons buf rest inductionHypothesis =>
    obtain ⟨first, size⟩ : ∃ first, buf.length = 4 * first :=
      Nat.dvd_of_mod_eq_zero (whole buf List.mem_cons_self)
    rw [List.map_cons, List.sum_cons, size] at total
    have shorter : (rest.map List.length).sum = 4 * (n - first) := by omega
    have sum : n = first + (n - first) := by omega
    have restWhole : ∀ later ∈ rest, later.length % 4 = 0 :=
      fun later member => whole later (List.mem_cons_of_mem buf member)
    obtain ⟨filled, state⟩ := fill_eq g size
    rw [fillAll, filled, inductionHypothesis _ restWhole shorter, state, sum, List.range_add,
      List.flatMap_append, List.flatMap_map, ← sum]
    congr 1
    apply List.flatMap_congr
    intro k _
    rw [← iterate_add_apply, Nat.add_comm k first]

/-- The state of an entry is recovered from its upper twelve bits. -/
theorem prbsStateFromIq_entryOf (state : BitVec 16) :
    prbsStateFromIq ((entryOf state).i >>> 4) ((entryOf state).q >>> 4) = state := by
  have sample : (⟨(entryOf state).i >>> 4, (entryOf state).q >>> 4⟩ : Prbs.Iq) =
      Prbs.sampleOf state := by
    rw [entryOf, bitrev12_eq]
    exact Prbs.fill_sample state
  have recovered := Prbs.stateFromIq_sampleOf state
  rw [← sample] at recovered
  rw [prbsStateFromIq_eq]
  exact recovered

/-- For the same total, however it is split into calls on either side, the target
copies what the host generates; and the position of each of the samples is found
from its upper twelve bits. -/
theorem streams_agree (calls : List (BitVec 32)) (buffers : List (List (BitVec 8)))
    (whole : ∀ buf ∈ buffers, buf.length % 4 = 0)
    (total : (buffers.map List.length).sum = 4 * (calls.map BitVec.toNat).sum) :
    ∃ samples, prbsFillBlocks prbsInit.lut 0 calls = some samples ∧
      samples.flatMap PrbsIq.bytes = fillAll Prbs.Generator.default buffers ∧
      ∀ (k : Nat) (x : PrbsIq), samples[k]? = some x →
        (prbsInit.pos (prbsStateFromIq (x.i >>> 4) (x.q >>> 4))).toNat = k % prbsLen.toNat := by
  have origin : (0 : BitVec 32).toNat < 65535 := by decide
  have copied := prbsFillBlocks_eq prbsInit_tabulates calls origin
  refine ⟨_, copied, ?_, ?_⟩
  · rw [fillAll_eq _ whole total, stretch, List.flatMap_map]
    apply List.flatMap_congr
    intro k _
    have place : (0 : BitVec 32).toNat + k = k := Nat.zero_add k
    rw [place, orbit_mod]
    rfl
  · intro k x at_k
    have bounded : k < (calls.map BitVec.toNat).sum := by
      obtain ⟨below, _⟩ := List.getElem?_eq_some_iff.mp at_k
      rw [stretch_length] at below
      exact below
    have place : (0 : BitVec 32).toNat + k = k := Nat.zero_add k
    have reduced : k % 65535 < 65535 := Nat.mod_lt _ (by decide)
    rw [stretch_getElem? bounded, place] at at_k
    obtain rfl := Option.some.inj at_k
    rw [prbsStateFromIq_entryOf, prbsInit_filled.positions _ reduced, BitVec.toNat_ofNat,
      prbsLen_toNat]
    exact Nat.mod_eq_of_lt (Nat.lt_trans reduced (by decide))

/-- The table is passed one and a half times by calls of different lengths. -/
theorem streams_agree_wrapped :
    ∃ samples, prbsFillBlocks prbsInit.lut 0 [65536, 32768] = some samples ∧
      samples.flatMap PrbsIq.bytes =
        fillAll Prbs.Generator.default [List.replicate 393216 0] ∧
      ∀ (k : Nat) (x : PrbsIq), samples[k]? = some x →
        (prbsInit.pos (prbsStateFromIq (x.i >>> 4) (x.q >>> 4))).toNat = k % prbsLen.toNat :=
  streams_agree [65536, 32768] [List.replicate 393216 0]
    (by
      intro buf member
      rw [List.mem_singleton.mp member, List.length_replicate])
    (by simp only [List.map_cons, List.map_nil, List.length_replicate]; rfl)

end Zyndra.Ad9361Txrx
