import Zyndra.PrbsTable
import Zyndra.SessionStart

/-!
# The check of a received block on the target

`diag_prbs` compares a block with the table slice by slice. The slice that differs
is halved until one sample is left, always comparing the lower half: what lies
below it has matched already. Words of the block and samples of the table are
read through slices, so that a read outside has no result, and neither has a loop
that does not end.

After an error the code drops blocks until it has caught up with the hardware.
This changes neither the position nor the counter and is left out.
-/

namespace Zyndra.Ad9361Txrx

open CyclicTable

/-- A sample as two words of the block. -/
def PrbsIq.words (x : PrbsIq) : List (BitVec 16) := [x.i, x.q]

/-- What is printed for the first error. -/
structure Message where
  pos : BitVec 32
  gotI : BitVec 16
  expI : BitVec 16
  deriving DecidableEq, Repr

/-- What the check of a block leaves: `p` and the error counter, the index of the
sample the search has stopped at, and the message. -/
structure Verdict where
  p : BitVec 32
  errors : BitVec 64
  differing : Option (BitVec 32)
  message : Option Message
  deriving DecidableEq, Repr

section Check

variable (lut : List PrbsIq) (blk : List (BitVec 16))

/-- `memcmp(&blk[s * 2], &g_prbs_lut[p], count * SAMPLE_SIZE) == 0`, with the bytes
counted in words and in samples. -/
def sameSamples (s p count : BitVec 32) : Option Bool := do
  let received ← slice blk (s * 2).toNat ((count * sampleSize).toNat / 2)
  let expected ← slice lut p.toNat ((count * sampleSize).toNat / 4)
  return decide (received = expected.flatMap PrbsIq.words)

/-- The halving loop on the slice at `s` and `p`. -/
def searchLoop (s p : BitVec 32) : (rounds : Nat) → (lo hi : BitVec 32) → Option (BitVec 32)
  | 0, lo, hi => if 1 < hi - lo then none else some lo
  | rounds + 1, lo, hi =>
    if 1 < hi - lo then do
      let mid := lo + (hi - lo) / 2
      let same ← sameSamples lut blk (s + lo) (p + lo) (mid - lo)
      if same then searchLoop s p rounds mid hi else searchLoop s p rounds lo mid
    else some lo

/-- The words read for the message; those of the table only for the first error. -/
def errorMessage (s p i : BitVec 32) (errors : BitVec 64) : Option (Option Message) := do
  let rxI ← blk[((s + i) * 2).toNat]?
  if errors = 0 then do
    let expected ← lut[(p + i).toNat]?
    return some ⟨p + i, rxI >>> 4, expected.i >>> 4⟩
  else return none

/-- The loop over the slices of a block. -/
def checkLoop (numSamples : BitVec 32) (errors : BitVec 64) :
    (rounds : Nat) → (s p : BitVec 32) → Option Verdict
  | 0, s, p => if s < numSamples then none else some ⟨p, errors, none, none⟩
  | rounds + 1, s, p =>
    if s < numSamples then do
      let chunk := wrapChunk p (numSamples - s)
      let same ← sameSamples lut blk s p chunk
      if same then checkLoop numSamples errors rounds (s + chunk) ((p + chunk) % prbsLen)
      else do
        let i ← searchLoop lut blk s p chunk.toNat 0 chunk
        let message ← errorMessage lut blk s p i errors
        return ⟨-1, errors + 1, some (s + i), message⟩
    else some ⟨p, errors, none, none⟩

end Check

/-- The position a block is checked from. A negative one is recovered from the first
sample, unless its state is zero. -/
def resyncPos (tables : Tables) (blk : List (BitVec 16)) (pos : BitVec 32) :
    Option (Option (BitVec 32)) :=
  if BitVec.slt pos 0 then do
    let rxI ← blk[0]?
    let rxQ ← blk[1]?
    let st := prbsStateFromIq (rxI >>> 4) (rxQ >>> 4)
    return if st ≠ 0 then some ((tables.pos st).setWidth 32) else none
  else some (some pos)

/-- A round of `diag_prbs` on a block, from the position and the counter of the last
one. A block without a position is passed over. -/
def diagRound (tables : Tables) (blk : List (BitVec 16)) (numSamples pos : BitVec 32)
    (errors : BitVec 64) : Option (Option Verdict) := do
  match ← resyncPos tables blk pos with
  | none => return none
  | some start =>
    let verdict ← checkLoop tables.lut blk numSamples errors numSamples.toNat 0 start
    return some verdict

/-! ## Comparing slices -/

/-- Sample `k` behind `s` is entry `k` behind `p`. -/
def Agrees (samples lut : List PrbsIq) (s p k : Nat) : Prop := samples[s + k]? = lut[p + k]?

theorem words_drop (samples : List PrbsIq) (s : Nat) :
    (samples.flatMap PrbsIq.words).drop (2 * s) = (samples.drop s).flatMap PrbsIq.words := by
  induction s generalizing samples with
  | zero => rfl
  | succ s inductionHypothesis =>
    cases samples with
    | nil => simp
    | cons x rest =>
      rw [List.flatMap_cons, Nat.mul_succ, List.drop_succ_cons]
      exact inductionHypothesis rest

theorem words_take (samples : List PrbsIq) (count : Nat) :
    (samples.flatMap PrbsIq.words).take (2 * count) =
      (samples.take count).flatMap PrbsIq.words := by
  induction count generalizing samples with
  | zero => rfl
  | succ count inductionHypothesis =>
    cases samples with
    | nil => simp
    | cons x rest =>
      rw [List.flatMap_cons, Nat.mul_succ, List.take_succ_cons, List.flatMap_cons,
        ← inductionHypothesis rest]
      rfl

theorem words_length (samples : List PrbsIq) :
    (samples.flatMap PrbsIq.words).length = 2 * samples.length := by
  induction samples with
  | nil => rfl
  | cons x rest inductionHypothesis =>
    rw [List.flatMap_cons, List.length_append, inductionHypothesis, List.length_cons]
    simp only [PrbsIq.words, List.length_cons, List.length_nil]
    omega

theorem words_injective {xs ys : List PrbsIq}
    (same : xs.flatMap PrbsIq.words = ys.flatMap PrbsIq.words) : xs = ys := by
  induction xs generalizing ys with
  | nil =>
    cases ys with
    | nil => rfl
    | cons y rest => cases same
  | cons x rest inductionHypothesis =>
    cases ys with
    | nil => cases same
    | cons y later =>
      obtain ⟨i, q⟩ := x
      obtain ⟨i', q'⟩ := y
      simp only [List.flatMap_cons, PrbsIq.words, List.cons_append, List.nil_append,
        List.cons.injEq] at same
      obtain ⟨rfl, rfl, tails⟩ := same
      rw [inductionHypothesis tails]

/-- Two slices are equal when their samples agree one by one. -/
theorem slices_eq_iff (samples lut : List PrbsIq) (s p count : Nat) :
    (samples.drop s).take count = (lut.drop p).take count ↔
      ∀ k, k < count → Agrees samples lut s p k := by
  constructor
  · intro same k bounded
    have entry := congrArg (fun xs : List PrbsIq => xs[k]?) same
    simp only [List.getElem?_take_of_lt bounded, List.getElem?_drop] at entry
    exact entry
  · intro agree
    apply List.ext_getElem?
    intro k
    by_cases bounded : k < count
    · rw [List.getElem?_take_of_lt bounded, List.getElem?_take_of_lt bounded, List.getElem?_drop,
        List.getElem?_drop]
      exact agree k bounded
    · rw [List.getElem?_take_eq_none (by omega), List.getElem?_take_eq_none (by omega)]

/-- Sample `i` is the first behind `s` that differs from its entry behind `p`. -/
def FirstDiffers (samples lut : List PrbsIq) (s p i : Nat) : Prop :=
  ¬ Agrees samples lut s p i ∧ ∀ k, k < i → Agrees samples lut s p k

/-- Sample `k` is the table's, when sample 0 has position `start`. -/
def Expected (samples lut : List PrbsIq) (start k : Nat) : Prop :=
  samples[k]? = lut[(start + k) % 65535]?

/-- The first `s` samples are the table's, and `p` is the position of the next. -/
structure Matched (samples lut : List PrbsIq) (start : Nat) (s p : BitVec 32) : Prop where
  inBlock : s.toNat ≤ samples.length
  position : p.toNat = (start + s.toNat) % 65535
  before : ∀ k, k < s.toNat → Expected samples lut start k

/-- A verdict of the check: all samples are the table's, and the position is behind
the last of them; or the first one that is not has been found, one error is
counted, and the position is negative. -/
inductive Judged (samples lut : List PrbsIq) (start : Nat) (errors : BitVec 64) : Verdict → Prop
  | clean (p : BitVec 32) (position : p.toNat = (start + samples.length) % 65535)
      (all : ∀ k, k < samples.length → Expected samples lut start k) :
      Judged samples lut start errors ⟨p, errors, none, none⟩
  | differing (i : BitVec 32) (message : Option Message) (inside : i.toNat < samples.length)
      (differs : ¬ Expected samples lut start i.toNat)
      (before : ∀ k, k < i.toNat → Expected samples lut start k) :
      Judged samples lut start errors ⟨-1, errors + 1, some i, message⟩

/-- The samples below the searched range agree, and some sample in it does not. -/
structure Searched (samples lut : List PrbsIq) (s p lo hi : BitVec 32) : Prop where
  range : lo.toNat < hi.toNat
  inBlock : s.toNat + hi.toNat ≤ samples.length
  inTable : p.toNat + hi.toNat ≤ 65535
  below : ∀ k, k < lo.toNat → Agrees samples lut s.toNat p.toNat k
  differs : ∃ k, k < hi.toNat ∧ ¬ Agrees samples lut s.toNat p.toNat k

section Block

variable {samples lut : List PrbsIq} (small : samples.length < 2 ^ 30)
  (full : lut.length = 65535) {s p lo hi : BitVec 32}

/-- The middle of a range of more than one sample lies inside it. -/
theorem midpoint (range : lo.toNat < hi.toNat) (wide : 1 < hi - lo) :
    (lo + (hi - lo) / 2).toNat = lo.toNat + (hi.toNat - lo.toNat) / 2 ∧
      1 < hi.toNat - lo.toNat := by
  have width : (hi - lo).toNat = hi.toNat - lo.toNat :=
    BitVec.toNat_sub_of_le (Nat.le_of_lt range)
  have half : ((hi - lo) / 2).toNat = (hi.toNat - lo.toNat) / 2 := by
    rw [BitVec.toNat_udiv, width]
    rfl
  rw [BitVec.lt_def, width] at wide
  refine ⟨?_, wide⟩
  rw [← half]
  exact BitVec.toNat_add_of_lt (by omega)

/-- A range of one sample is the one that differs. -/
theorem Searched.found (searched : Searched samples lut s p lo hi) (narrow : ¬ 1 < hi - lo) :
    FirstDiffers samples lut s.toNat p.toNat lo.toNat := by
  have width : (hi - lo).toNat = hi.toNat - lo.toNat :=
    BitVec.toNat_sub_of_le (Nat.le_of_lt searched.range)
  have one : (1 : BitVec 32).toNat = 1 := rfl
  rw [BitVec.lt_def, width, one] at narrow
  obtain ⟨k, under, differ⟩ := searched.differs
  have last : ¬ k < lo.toNat := fun matched => differ (searched.below k matched)
  have range := searched.range
  obtain rfl : k = lo.toNat := by omega
  exact ⟨differ, searched.below⟩

include small full

/-- Inside block and table a comparison has a result: whether the samples agree. -/
theorem sameSamples_eq {count : BitVec 32} (inBlock : s.toNat + count.toNat ≤ samples.length)
    (inTable : p.toNat + count.toNat ≤ 65535) :
    ∃ same, sameSamples lut (samples.flatMap PrbsIq.words) s p count = some same ∧
      (same = true ↔ ∀ k, k < count.toNat → Agrees samples lut s.toNat p.toNat k) := by
  have place : (s * 2).toNat = 2 * s.toNat := by
    rw [BitVec.toNat_mul, Nat.mul_comm]
    exact Nat.mod_eq_of_lt (by
      show 2 * s.toNat < 2 ^ 32
      omega)
  have bytes : (count * sampleSize).toNat = 4 * count.toNat := by
    rw [BitVec.toNat_mul, Nat.mul_comm]
    exact Nat.mod_eq_of_lt (by
      show 4 * count.toNat < 2 ^ 32
      omega)
  have words : 4 * count.toNat / 2 = 2 * count.toNat := by omega
  have entries : 4 * count.toNat / 4 = count.toNat := by omega
  have wordsFit : 2 * s.toNat + 2 * count.toNat ≤ (samples.flatMap PrbsIq.words).length := by
    rw [words_length]
    omega
  have entriesFit : p.toNat + count.toNat ≤ lut.length := by
    rw [full]
    exact inTable
  refine ⟨decide (((samples.drop s.toNat).take count.toNat).flatMap PrbsIq.words =
    ((lut.drop p.toNat).take count.toNat).flatMap PrbsIq.words), ?_, ?_⟩
  · rw [sameSamples, place, bytes, words, entries, slice, slice, if_pos wordsFit,
      if_pos entriesFit, words_drop, words_take]
    rfl
  · rw [decide_eq_true_iff, ← slices_eq_iff]
    exact ⟨words_injective, congrArg fun xs : List PrbsIq => xs.flatMap PrbsIq.words⟩

/-- The lower half of a searched range is compared: together with what lies below
it, it agrees or holds a difference. -/
theorem Searched.compare (searched : Searched samples lut s p lo hi) (wide : 1 < hi - lo) :
    ∃ same, sameSamples lut (samples.flatMap PrbsIq.words) (s + lo) (p + lo)
        (lo + (hi - lo) / 2 - lo) = some same ∧
      (same = true ↔
        ∀ k, k < (lo + (hi - lo) / 2).toNat → Agrees samples lut s.toNat p.toNat k) := by
  obtain ⟨range, inBlock, inTable, below, _⟩ := searched
  obtain ⟨middle, more⟩ := midpoint range wide
  have lower : (lo + (hi - lo) / 2 - lo).toNat = (hi.toNat - lo.toNat) / 2 := by
    rw [BitVec.toNat_sub_of_le (by rw [BitVec.le_def]; omega), middle]
    omega
  have sPlace : (s + lo).toNat = s.toNat + lo.toNat := BitVec.toNat_add_of_lt (by omega)
  have pPlace : (p + lo).toNat = p.toNat + lo.toNat := BitVec.toNat_add_of_lt (by omega)
  have lowerInBlock : (s + lo).toNat + (lo + (hi - lo) / 2 - lo).toNat ≤ samples.length := by
    omega
  have lowerInTable : (p + lo).toNat + (lo + (hi - lo) / 2 - lo).toNat ≤ 65535 := by omega
  obtain ⟨same, compared, decides⟩ := sameSamples_eq small full lowerInBlock lowerInTable
  refine ⟨same, compared, decides.trans ?_⟩
  rw [sPlace, pPlace, lower, middle]
  constructor
  · intro agree k under
    by_cases matched : k < lo.toNat
    · exact below k matched
    · have later := agree (k - lo.toNat) (by omega)
      rw [Agrees, Nat.add_assoc, Nat.add_assoc,
        Nat.add_sub_cancel' (Nat.le_of_not_lt matched)] at later
      exact later
  · intro agree k under
    have later := agree (lo.toNat + k) (by omega)
    rw [Agrees, ← Nat.add_assoc, ← Nat.add_assoc] at later
    exact later

/-- The search ends at the first sample that differs.

Induct on the rounds left. The comparison of the lower half decides which half the
first difference is in. -/
theorem searchLoop_eq (rounds : Nat) (searched : Searched samples lut s p lo hi)
    (enough : hi.toNat - lo.toNat ≤ rounds + 1) :
    ∃ i, searchLoop lut (samples.flatMap PrbsIq.words) s p rounds lo hi = some i ∧
      i.toNat < hi.toNat ∧ FirstDiffers samples lut s.toNat p.toNat i.toNat := by
  induction rounds generalizing lo hi with
  | zero =>
    have narrow : ¬ 1 < hi - lo := by
      intro wide
      have more := (midpoint searched.range wide).2
      omega
    exact ⟨lo, if_neg narrow, searched.range, searched.found narrow⟩
  | succ rounds inductionHypothesis =>
    by_cases wide : 1 < hi - lo
    · obtain ⟨middle, more⟩ := midpoint searched.range wide
      obtain ⟨same, compared, decides⟩ := searched.compare small full wide
      have range := searched.range
      have inBlock := searched.inBlock
      have inTable := searched.inTable
      rw [searchLoop, if_pos wide]
      simp only [compared, Option.bind_eq_bind, Option.bind_some]
      cases same with
      | true =>
        have upper : Searched samples lut s p (lo + (hi - lo) / 2) hi :=
          ⟨by omega, inBlock, inTable, decides.mp rfl, searched.differs⟩
        exact inductionHypothesis upper (by omega)
      | false =>
        have inside : ∃ k, k < (lo + (hi - lo) / 2).toNat ∧
            ¬ Agrees samples lut s.toNat p.toNat k := by
          by_contra none
          push Not at none
          exact Bool.false_ne_true (decides.mpr none)
        have lower : Searched samples lut s p lo (lo + (hi - lo) / 2) :=
          ⟨by omega, by omega, by omega, searched.below, inside⟩
        obtain ⟨i, found, under, first⟩ := inductionHypothesis lower (by omega)
        exact ⟨i, found, by omega, first⟩
    · have found : searchLoop lut (samples.flatMap PrbsIq.words) s p (rounds + 1) lo hi =
          some lo := if_neg wide
      exact ⟨lo, found, searched.range, searched.found wide⟩

omit small full in
/-- Inside a slice the samples are compared with the entries expected of them. -/
theorem Matched.agrees_iff {start k : Nat} (matched : Matched samples lut start s p)
    (inTable : p.toNat + k < 65535) :
    Agrees samples lut s.toNat p.toNat k ↔ Expected samples lut start (s.toNat + k) := by
  have place : (start + (s.toNat + k)) % 65535 = p.toNat + k := by
    rw [← Nat.add_assoc, ← Nat.mod_add_mod, ← matched.position]
    exact Nat.mod_eq_of_lt inTable
  rw [Agrees, Expected, place]

omit small full in
/-- Samples that agree from the start of a slice extend those that match. -/
theorem Matched.extended {start length : Nat} (matched : Matched samples lut start s p)
    (inTable : p.toNat + length ≤ 65535)
    (agree : ∀ k, k < length → Agrees samples lut s.toNat p.toNat k) :
    ∀ k, k < s.toNat + length → Expected samples lut start k := by
  intro k under
  by_cases early : k < s.toNat
  · exact matched.before k early
  · have agrees := agree (k - s.toNat) (by omega)
    rw [matched.agrees_iff (by omega), Nat.add_sub_cancel' (Nat.le_of_not_lt early)] at agrees
    exact agrees

/-- The words for the message are there. -/
theorem errorMessage_some (i : BitVec 32) (errors : BitVec 64)
    (inBlock : s.toNat + i.toNat < samples.length) (inTable : p.toNat + i.toNat < 65535) :
    ∃ message,
      errorMessage lut (samples.flatMap PrbsIq.words) s p i errors = some message := by
  have sPlace : (s + i).toNat = s.toNat + i.toNat := BitVec.toNat_add_of_lt (by omega)
  have pPlace : (p + i).toNat = p.toNat + i.toNat := BitVec.toNat_add_of_lt (by omega)
  have word : ((s + i) * 2).toNat < (samples.flatMap PrbsIq.words).length := by
    have wraps : ((s + i) * 2).toNat ≤ (s + i).toNat * 2 := by
      rw [BitVec.toNat_mul]
      exact Nat.mod_le _ _
    rw [words_length]
    omega
  have entry : (p + i).toNat < lut.length := by
    rw [pPlace, full]
    exact inTable
  rw [errorMessage, List.getElem?_eq_getElem word]
  by_cases first : errors = 0
  · simp only [Option.bind_eq_bind, Option.bind_some, if_pos first, List.getElem?_eq_getElem entry]
    exact ⟨_, rfl⟩
  · simp only [Option.bind_eq_bind, Option.bind_some, if_neg first]
    exact ⟨_, rfl⟩

/-- The loop over the slices ends with a verdict.

Induct on the rounds left. A slice that matches extends the matched samples; in
one that does not, the search finds the first difference. -/
theorem checkLoop_judged {numSamples : BitVec 32} (count : numSamples.toNat = samples.length)
    (errors : BitVec 64) {start : Nat} (rounds : Nat) (matched : Matched samples lut start s p)
    (enough : samples.length - s.toNat ≤ rounds) :
    ∃ v, checkLoop lut (samples.flatMap PrbsIq.words) numSamples errors rounds s p = some v ∧
      Judged samples lut start errors v := by
  have ended : ∀ {s p : BitVec 32}, Matched samples lut start s p → ¬ s < numSamples →
      Judged samples lut start errors ⟨p, errors, none, none⟩ := by
    intro s p matched done
    rw [BitVec.lt_def, count] at done
    have all : s.toNat = samples.length := Nat.le_antisymm matched.inBlock (Nat.le_of_not_lt done)
    have position := matched.position
    have before := matched.before
    rw [all] at position before
    exact .clean p position before
  induction rounds generalizing s p with
  | zero =>
    have done : ¬ s < numSamples := by
      rw [BitVec.lt_def, count]
      omega
    exact ⟨_, if_neg done, ended matched done⟩
  | succ rounds inductionHypothesis =>
    by_cases more : s < numSamples
    · have moreNat : s.toNat < samples.length := by
        rw [BitVec.lt_def, count] at more
        exact more
      have inTable : p.toNat < 65535 := by
        rw [matched.position]
        exact Nat.mod_lt _ (by decide)
      have remaining : (numSamples - s).toNat = samples.length - s.toNat := by
        rw [BitVec.toNat_sub_of_le (Nat.le_of_lt more), count]
      have size := wrapChunk_toNat (numSamples - s) inTable
      have next := wrapChunk_next (numSamples - s) inTable
      rw [checkLoop, if_pos more]
      generalize wrapChunk p (numSamples - s) = chunk at size next ⊢
      have inBlock : s.toNat + chunk.toNat ≤ samples.length := by omega
      have inside : p.toNat + chunk.toNat ≤ 65535 := by omega
      obtain ⟨same, compared, decides⟩ := sameSamples_eq small full inBlock inside
      simp only [compared, Option.bind_eq_bind, Option.bind_some]
      cases same with
      | true =>
        have sNext : (s + chunk).toNat = s.toNat + chunk.toNat :=
          BitVec.toNat_add_of_lt (by omega)
        have extended : Matched samples lut start (s + chunk) ((p + chunk) % prbsLen) := by
          refine ⟨by omega, ?_, ?_⟩
          · rw [next, sNext, matched.position, Nat.mod_add_mod, Nat.add_assoc]
          · rw [sNext]
            exact matched.extended inside (decides.mp rfl)
        exact inductionHypothesis extended (by omega)
      | false =>
        have differs : ∃ k, k < chunk.toNat ∧ ¬ Agrees samples lut s.toNat p.toNat k := by
          by_contra none
          push Not at none
          exact Bool.false_ne_true (decides.mpr none)
        have zero : (0 : BitVec 32).toNat = 0 := rfl
        have searched : Searched samples lut s p 0 chunk :=
          ⟨by omega, inBlock, inside, nofun, differs⟩
        obtain ⟨i, found, under, differ, before⟩ :=
          searchLoop_eq small full chunk.toNat searched (by omega)
        obtain ⟨message, printed⟩ :=
          errorMessage_some small full i errors (s := s) (p := p) (by omega) (by omega)
        have place : (s + i).toNat = s.toNat + i.toNat := BitVec.toNat_add_of_lt (by omega)
        simp only [found, printed, Bool.false_eq_true, if_false, Option.bind_some, Option.pure_def]
        refine ⟨_, rfl, .differing (s + i) message (by omega) ?_ ?_⟩
        · rw [place, ← matched.agrees_iff (by omega)]
          exact differ
        · rw [place]
          exact matched.extended (by omega) before
    · exact ⟨_, if_neg more, ended matched more⟩

end Block

/-- A position inside the table is not negative. -/
theorem not_negative {pos : BitVec 32} (inside : pos.toNat < prbsLen.toNat) :
    ¬ BitVec.slt pos 0 = true := by
  have bound : pos.toNat < 65535 := inside
  have clear : pos.msb = false := by
    rw [BitVec.msb_eq_false_iff_two_mul_lt]
    omega
  rw [BitVec.ofNat_eq_ofNat, BitVec.slt_zero_eq_msb, clear]
  decide

/-- A round from a position inside the table ends with a verdict. -/
theorem diagRound_judged {tables : Tables} (full : tables.lut.length = 65535)
    {blockSize : BitVec 32} {samples : List PrbsIq}
    (count : samples.length = (blockSize / sampleSize).toNat) {pos start : BitVec 32}
    (resolved : resyncPos tables (samples.flatMap PrbsIq.words) pos = some (some start))
    (inside : start.toNat < 65535) (errors : BitVec 64) :
    ∃ v, diagRound tables (samples.flatMap PrbsIq.words) (blockSize / sampleSize) pos errors =
        some (some v) ∧
      Judged samples tables.lut start.toNat errors v := by
  have small : samples.length < 2 ^ 30 := by
    have four : sampleSize.toNat = 4 := rfl
    have bound := blockSize.isLt
    rw [count, BitVec.toNat_udiv, four]
    omega
  have matched : Matched samples tables.lut start.toNat 0 start :=
    ⟨Nat.zero_le _, (Nat.mod_eq_of_lt inside).symm, nofun⟩
  obtain ⟨v, checked, judged⟩ := checkLoop_judged small full count.symm errors
    (blockSize / sampleSize).toNat matched (by omega)
  refine ⟨v, ?_, judged⟩
  rw [diagRound, resolved]
  simp only [checked, Option.bind_eq_bind, Option.bind_some, Option.pure_def]

/-- A block checked from a position inside the table has a verdict, with every access
in range. It is clean exactly when all samples are the table's from that position
on, and the position then follows the last of them; otherwise one error is counted,
the index found is the first that differs, and the position is negative, so that it
is recovered from the next block. -/
theorem fast_check_exact (tables : Tables) (full : tables.lut.length = prbsLen.toNat)
    (blockSize : BitVec 32) (samples : List PrbsIq)
    (count : samples.length = (blockSize / sampleSize).toNat) (pos : BitVec 32)
    (inside : pos.toNat < prbsLen.toNat) (errors : BitVec 64) :
    ∃ v, diagRound tables (samples.flatMap PrbsIq.words) (blockSize / sampleSize) pos errors =
        some (some v) ∧
      (v.differing = none ↔
        ∀ k, k < samples.length →
          samples[k]? = tables.lut[(pos.toNat + k) % prbsLen.toNat]?) ∧
      (v.differing = none →
        v.p.toNat = (pos.toNat + samples.length) % prbsLen.toNat ∧ v.errors = errors) ∧
      ∀ i, v.differing = some i →
        v.errors = errors + 1 ∧ BitVec.slt v.p 0 = true ∧ i.toNat < samples.length ∧
          samples[i.toNat]? ≠ tables.lut[(pos.toNat + i.toNat) % prbsLen.toNat]? ∧
          ∀ k, k < i.toNat →
            samples[k]? = tables.lut[(pos.toNat + k) % prbsLen.toNat]? := by
  have stays : resyncPos tables (samples.flatMap PrbsIq.words) pos = some (some pos) :=
    if_neg (not_negative inside)
  obtain ⟨v, checked, judged⟩ := diagRound_judged full count stays inside errors
  refine ⟨v, checked, ?_⟩
  cases judged with
  | clean p position all =>
    exact ⟨⟨fun _ => all, fun _ => rfl⟩, fun _ => ⟨position, rfl⟩, nofun⟩
  | differing i message below differs before =>
    have negative : BitVec.slt (-1 : BitVec 32) 0 = true := by decide
    refine ⟨⟨nofun, fun all => absurd (all i.toNat below) differs⟩, nofun, ?_⟩
    rintro _ ⟨⟩
    exact ⟨rfl, negative, below, differs, before⟩

/-- Three samples of the table's end and start, the last of them with a wrong Q. -/
theorem fast_check_wrapped :
    let lut := List.replicate 65535 (⟨16, 32⟩ : PrbsIq)
    let samples : List PrbsIq := [⟨16, 32⟩, ⟨16, 32⟩, ⟨16, 48⟩]
    ∃ v, diagRound ⟨lut, fun _ => 0⟩ (samples.flatMap PrbsIq.words) (12 / sampleSize) 65534 7 =
        some (some v) ∧
      (v.differing = none ↔ ∀ k, k < 3 → samples[k]? = lut[(65534 + k) % prbsLen.toNat]?) ∧
      (v.differing = none → v.p.toNat = (65534 + 3) % prbsLen.toNat ∧ v.errors = 7) ∧
      ∀ i, v.differing = some i →
        v.errors = 7 + 1 ∧ BitVec.slt v.p 0 = true ∧ i.toNat < 3 ∧
          samples[i.toNat]? ≠ lut[(65534 + i.toNat) % prbsLen.toNat]? ∧
          ∀ k, k < i.toNat → samples[k]? = lut[(65534 + k) % prbsLen.toNat]? :=
  fast_check_exact ⟨List.replicate 65535 ⟨16, 32⟩, fun _ => 0⟩ List.length_replicate 12
    [⟨16, 32⟩, ⟨16, 32⟩, ⟨16, 48⟩] rfl 65534 (by decide) 7

theorem orbit_ne_zero (n : Nat) : orbit n ≠ 0 := by
  intro zero
  exact absurd (Prbs.iterate_lfsrNext_eq_zero zero) (by decide)

/-- From a negative position, the position of the first sample is recovered. -/
theorem resyncPos_recovers {q : Nat} (inside : q < 65535) (rest : List PrbsIq) :
    ∃ start, resyncPos prbsInit ((entryOf (orbit q) :: rest).flatMap PrbsIq.words) (-1) =
        some (some start) ∧ start.toNat = q := by
  have negative : BitVec.slt (-1 : BitVec 32) 0 = true := by decide
  have position : (prbsInit.pos (orbit q)).toNat = q := by
    rw [prbsInit_filled.positions q inside, BitVec.toNat_ofNat]
    exact Nat.mod_eq_of_lt (by omega)
  have alive : orbit q ≠ 0#16 := orbit_ne_zero q
  refine ⟨(prbsInit.pos (orbit q)).setWidth 32, ?_, ?_⟩
  · rw [resyncPos, if_pos negative]
    simp [PrbsIq.words, prbsStateFromIq_entryOf, alive]
  · rw [BitVec.toNat_setWidth_of_le (by decide)]
    exact position

/-- After an error a block of the table's samples is checked without one: the
position is that of the state recovered from its first sample. -/
theorem next_block_resynchronises (blockSize : BitVec 32) (samples : List PrbsIq)
    (count : samples.length = (blockSize / sampleSize).toNat) (nonempty : samples ≠ [])
    {start : Nat} (sent : ∀ k, k < samples.length → Expected samples prbsInit.lut start k)
    (errors : BitVec 64) :
    ∃ v, diagRound prbsInit (samples.flatMap PrbsIq.words) (blockSize / sampleSize) (-1) errors =
        some (some v) ∧
      v.differing = none ∧ v.errors = errors ∧
      v.p.toNat = (start + samples.length) % prbsLen.toNat := by
  obtain ⟨first, rest, rfl⟩ := List.exists_cons_of_ne_nil nonempty
  have inside : start % 65535 < 65535 := Nat.mod_lt _ (by decide)
  have opening := sent 0 (Nat.succ_pos _)
  rw [Expected, Nat.add_zero, prbsInit_filled.entries _ inside] at opening
  obtain rfl : first = entryOf (orbit (start % 65535)) := Option.some.inj opening
  obtain ⟨position, resolved, place⟩ := resyncPos_recovers inside rest
  obtain ⟨v, checked, judged⟩ :=
    diagRound_judged prbsInit_filled.length count resolved (by omega) errors
  refine ⟨v, checked, ?_⟩
  rw [place] at judged
  cases judged with
  | clean p behind all =>
    rw [Nat.mod_add_mod] at behind
    exact ⟨rfl, rfl, behind⟩
  | differing i message below differs before =>
    have matching := sent i.toNat below
    rw [Expected, ← Nat.mod_add_mod] at matching
    exact absurd matching differs

end Zyndra.Ad9361Txrx
