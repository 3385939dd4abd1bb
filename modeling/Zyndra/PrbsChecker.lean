import Zyndra.PrbsHost

/-!
# What the checker reports

A received stream reaches the checker in blocks of whole samples. Within a block
the samples are compared one after the other; where a block opens, a seed of zero
is replaced by the state recovered from its first sample. The run of a checker is
therefore one step for each sample, with a mark on those that open a block.

Only I is compared. A seed that differs from the true state in its low four bits
is not noticed at once, but the difference of two states is itself a state of the
register: it moves up by one place a sample and reaches the compared bits within
four samples.
-/

namespace Zyndra.Prbs

open Function

/-- A non-empty buffer of whole samples. -/
structure Block where
  bytes : List (BitVec 8)
  whole : bytes.length % 4 = 0
  nonempty : 0 < bytes.length

/-- The samples of a run of blocks. -/
def stream (blocks : List Block) : List Iq := blocks.flatMap fun block => received block.bytes

/-- `verify` for one block after the other. -/
def verifyAll : Checker → List Block → Option Checker
  | c, [] => some c
  | c, block :: rest => do
    let next ← c.verify block.bytes
    verifyAll next rest

/-- The checker after each round of the loop of `Checker::verify`. -/
def Checker.rounds : Checker → List (BitVec 8) → List Checker
  | c, b₀ :: b₁ :: b₂ :: b₃ :: rest =>
    let next := c.compare (fromLeBytes b₀ b₁ >>> 4) (fromLeBytes b₂ b₃ >>> 4)
    next :: next.rounds rest
  | _, _ => []

/-- The checker after each sample of a run of blocks. -/
def history : Checker → List Block → Option (List Checker)
  | _, [] => some []
  | c, block :: rest => do
    let seed ← c.seedFrom block.bytes
    let next ← c.verify block.bytes
    let later ← history next rest
    return Checker.rounds { c with seed := seed } block.bytes ++ later

/-! ## One step a sample -/

/-- A sample, and whether it opens a block. -/
abbrev Marked := Bool × Iq

/-- The samples of a block, the first of them marked. -/
def marked (buf : List (BitVec 8)) : List Marked :=
  match received buf with
  | [] => []
  | first :: rest => (true, first) :: rest.map fun x => (false, x)

def markedStream (blocks : List Block) : List Marked :=
  blocks.flatMap fun block => marked block.bytes

/-- The seed a sample is compared with. -/
def seedFor (seed : BitVec 16) (x : Marked) : BitVec 16 :=
  if x.1 = true ∧ seed = 0 then stateFromIq x.2.i x.2.q else seed

def Checker.meet (c : Checker) (x : Marked) : Checker :=
  Checker.compare { c with seed := seedFor c.seed x } x.2.i x.2.q

/-- The checker after each of the samples. -/
def Checker.meetAll : Checker → List Marked → List Checker
  | _, [] => []
  | c, x :: rest => c.meet x :: (c.meet x).meetAll rest

/-- The checker after the last of the samples. -/
def Checker.after (c : Checker) (xs : List Marked) : Checker := xs.foldl Checker.meet c

theorem seedFor_later (seed : BitVec 16) (x : Iq) : seedFor seed (false, x) = seed := by
  simp [seedFor]

theorem meet_later (c : Checker) (x : Iq) : c.meet (false, x) = c.compare x.i x.q := by
  rw [Checker.meet, seedFor_later]

/-- The loop of a buffer takes its samples one by one. -/
theorem rounds_eq (c : Checker) (buf : List (BitVec 8)) :
    c.rounds buf = c.meetAll ((received buf).map fun x => (false, x)) ∧
      c.compareAll buf = c.after ((received buf).map fun x => (false, x)) := by
  induction c, buf using Checker.rounds.induct with
  | case1 c b₀ b₁ b₂ b₃ rest next inductionHypothesis =>
    obtain ⟨visited, last⟩ := inductionHypothesis
    constructor
    · simp only [Checker.rounds, received, List.map_cons, Checker.meetAll, meet_later]
      rw [← visited]
    · simp only [Checker.compareAll, received, List.map_cons, Checker.after, List.foldl_cons,
        meet_later]
      exact last
  | case2 short c notWhole =>
    have none : received short = [] := received.eq_2 short notWhole
    rw [none]
    exact ⟨Checker.rounds.eq_2 c short notWhole, Checker.compareAll.eq_2 c short notWhole⟩

/-- A block has a first sample. -/
theorem Block.first (block : Block) :
    ∃ b₀ b₁ b₂ b₃ rest, block.bytes = b₀ :: b₁ :: b₂ :: b₃ :: rest := by
  obtain ⟨bytes, whole, nonempty⟩ := block
  match bytes with
  | b₀ :: b₁ :: b₂ :: b₃ :: rest => exact ⟨b₀, b₁, b₂, b₃, rest, rfl⟩
  | [_, _, _] => exact absurd whole (by simp)
  | [_, _] => exact absurd whole (by simp)
  | [_] => exact absurd whole (by simp)
  | [] => exact absurd nonempty (by simp)

/-- A block is taken sample by sample, the first of them marked. -/
theorem verify_block (c : Checker) (block : Block) :
    ∃ seed, c.seedFrom block.bytes = some seed ∧
      Checker.rounds { c with seed := seed } block.bytes = c.meetAll (marked block.bytes) ∧
      c.verify block.bytes = some (c.after (marked block.bytes)) := by
  obtain ⟨b₀, b₁, b₂, b₃, rest, bytes⟩ := block.first
  rw [bytes]
  let first : Iq := ⟨fromLeBytes b₀ b₁ >>> 4, fromLeBytes b₂ b₃ >>> 4⟩
  have opens : c.seedFrom (b₀ :: b₁ :: b₂ :: b₃ :: rest) = some (seedFor c.seed (true, first)) := by
    by_cases zero : c.seed = 0#16
    · simp [Checker.seedFrom, seedFor, zero, first]
    · simp [Checker.seedFrom, seedFor, zero]
  have marks : marked (b₀ :: b₁ :: b₂ :: b₃ :: rest) =
      (true, first) :: (received rest).map fun x => (false, x) := rfl
  have later := rounds_eq (c.meet (true, first)) rest
  refine ⟨seedFor c.seed (true, first), opens, ?_, ?_⟩
  · rw [marks, Checker.meetAll, ← later.1]
    rfl
  · rw [marks, Checker.after, List.foldl_cons, ← Checker.after, ← later.2, Checker.verify, opens]
    rfl

/-- A run of blocks is taken sample by sample. -/
theorem verifyAll_eq (c : Checker) (blocks : List Block) :
    verifyAll c blocks = some (c.after (markedStream blocks)) := by
  induction blocks generalizing c with
  | nil => rfl
  | cons block rest inductionHypothesis =>
    obtain ⟨seed, _, _, verified⟩ := verify_block c block
    rw [verifyAll, verified]
    simp only [Option.bind_eq_bind, Option.bind_some, inductionHypothesis, markedStream,
      List.flatMap_cons, Checker.after, List.foldl_append]

theorem meetAll_append (c : Checker) (xs ys : List Marked) :
    c.meetAll (xs ++ ys) = c.meetAll xs ++ (c.after xs).meetAll ys := by
  induction xs generalizing c with
  | nil => rfl
  | cons x rest inductionHypothesis =>
    simp only [List.cons_append, Checker.meetAll, inductionHypothesis, Checker.after,
      List.foldl_cons]

theorem history_eq (c : Checker) (blocks : List Block) :
    history c blocks = some (c.meetAll (markedStream blocks)) := by
  induction blocks generalizing c with
  | nil => rfl
  | cons block rest inductionHypothesis =>
    obtain ⟨seed, opens, visited, verified⟩ := verify_block c block
    rw [history, opens, verified]
    simp only [Option.bind_eq_bind, Option.bind_some, inductionHypothesis, visited, markedStream,
      List.flatMap_cons, meetAll_append]
    rfl

/-- The samples of a run, the marks left out. -/
theorem markedStream_samples (blocks : List Block) :
    (markedStream blocks).map Prod.snd = stream blocks := by
  induction blocks with
  | nil => rfl
  | cons block rest inductionHypothesis =>
    have unmarked : (marked block.bytes).map Prod.snd = received block.bytes := by
      unfold marked
      cases received block.bytes with
      | nil => rfl
      | cons first rest => simp [Function.comp_def]
    simp only [markedStream, stream, List.flatMap_cons, List.map_append] at inductionHypothesis ⊢
    rw [unmarked, inductionHypothesis]

theorem stream_fits {blocks : List Block} {x : Iq} (member : x ∈ stream blocks) : x.Fits := by
  obtain ⟨block, _, inside⟩ := List.mem_flatMap.mp member
  exact received_fits inside

/-! ## A clean report

No error is counted exactly when every I is the one the checker expects. -/

/-- Every I is the one expected from the seed it is compared with. -/
def Unnoticed : BitVec 16 → List Marked → Prop
  | _, [] => True
  | seed, x :: rest => x.2.i = seedFor seed x >>> 4 ∧ Unnoticed (lfsrNext (seedFor seed x)) rest

/-- An expected I is no error, and the seed moves on. -/
theorem meet_expected {c : Checker} {x : Marked} (expected : x.2.i = seedFor c.seed x >>> 4) :
    (c.meet x).errors = c.errors ∧ (c.meet x).seed = lfsrNext (seedFor c.seed x) := by
  have same : x.2.i &&& 0xFFF#16 = seedFor c.seed x >>> 4 &&& 0xFFF#16 := by rw [expected]
  have checked : check (seedFor c.seed x) x.2.i x.2.q = (lfsrNext (seedFor c.seed x), false) :=
    if_neg (not_not_intro same)
  simp [Checker.meet, Checker.compare, checked]

/-- Any other I is an error, and the state is recovered from the sample. -/
theorem meet_unexpected {c : Checker} {x : Marked} (fits : x.2.Fits)
    (unexpected : x.2.i ≠ seedFor c.seed x >>> 4) :
    (c.meet x).errors = c.errors + 1 ∧ (c.meet x).seed = lfsrNext (stateFromIq x.2.i x.2.q) := by
  have differs : x.2.i &&& 0xFFF#16 ≠ seedFor c.seed x >>> 4 &&& 0xFFF#16 := by
    rw [fits.1, ushiftRight_fits]
    exact unexpected
  have checked : check (seedFor c.seed x) x.2.i x.2.q =
      (lfsrNext (stateFromIq x.2.i x.2.q), true) := if_pos differs
  simp [Checker.meet, Checker.compare, checked]

theorem after_cons (c : Checker) (x : Marked) (rest : List Marked) :
    c.after (x :: rest) = (c.meet x).after rest := rfl

theorem meet_errors_le (c : Checker) (x : Marked) : c.errors ≤ (c.meet x).errors := by
  unfold Checker.meet Checker.compare
  split
  · exact Nat.le_succ _
  · exact Nat.le_refl _

theorem after_errors_le (c : Checker) (xs : List Marked) : c.errors ≤ (c.after xs).errors := by
  induction xs generalizing c with
  | nil => exact Nat.le_refl _
  | cons x rest inductionHypothesis =>
    exact Nat.le_trans (meet_errors_le c x) (inductionHypothesis (c.meet x))

/-- No error is added exactly when nothing is noticed. -/
theorem after_errors_iff (c : Checker) {xs : List Marked} (fits : ∀ x ∈ xs, x.2.Fits) :
    (c.after xs).errors = c.errors ↔ Unnoticed c.seed xs := by
  induction xs generalizing c with
  | nil => exact ⟨fun _ => trivial, fun _ => rfl⟩
  | cons x rest inductionHypothesis =>
    have restFits : ∀ y ∈ rest, y.2.Fits := fun y member => fits y (List.mem_cons_of_mem x member)
    have continued := inductionHypothesis (c.meet x) restFits
    rw [after_cons, Unnoticed]
    by_cases expected : x.2.i = seedFor c.seed x >>> 4
    · have met := meet_expected expected
      rw [met.1, met.2] at continued
      rw [continued]
      exact ⟨fun later => ⟨expected, later⟩, And.right⟩
    · have met := meet_unexpected (fits x List.mem_cons_self) expected
      have grown := after_errors_le (c.meet x) rest
      constructor
      · intro none
        omega
      · rintro ⟨contradictory, _⟩
        exact absurd contradictory expected

/-- The state recovered from the first sample. -/
def recovered : List Iq → BitVec 16
  | [] => 0
  | x :: _ => stateFromIq x.i x.q

/-- Samples arrive, and nothing but zeros is recovered from the first of them. -/
def DeadLink (xs : List Iq) : Prop := xs ≠ [] ∧ recovered xs = 0

/-- Some Q is not the one that belongs to the recovered state. -/
def CorruptedQ (xs : List Iq) : Prop :=
  ∃ k x, xs[k]? = some x ∧ x.q ≠ bitrev12 (lfsrNext^[k] (recovered xs) &&& 0xFFF#16)

/-- A stream carried by a register is carried by the state recovered from it. -/
theorem recovered_of_carried {s : BitVec 16} {xs : List Iq} (carried : Carried s xs)
    (some : xs ≠ []) : recovered xs = s := by
  cases xs with
  | nil => exact absurd rfl some
  | cons x rest =>
    rw [recovered, (carried_cons.mp carried).1]
    exact stateFromIq_sampleOf s

/-- From a seed other than zero on, unnoticed samples carry the upper bits of the
register's states. -/
theorem upper_of_unnoticed {seed : BitVec 16} {xs : List Marked} (running : seed ≠ 0)
    (unnoticed : Unnoticed seed xs) {k : Nat} {x : Iq} (at_k : (xs.map Prod.snd)[k]? = some x) :
    x.i = lfsrNext^[k] seed >>> 4 := by
  induction xs generalizing seed k with
  | nil => simp at at_k
  | cons y rest inductionHypothesis =>
    have kept : seedFor seed y = seed := if_neg fun opens => running opens.2
    rw [Unnoticed, kept] at unnoticed
    cases k with
    | zero =>
      obtain rfl : y.2 = x := Option.some.inj at_k
      exact unnoticed.1
    | succ k =>
      have next : lfsrNext seed ≠ 0 := fun zero => running (lfsrNext_eq_zero zero)
      exact inductionHypothesis next unnoticed.2 at_k

/-- The first sample of a run opens a block. -/
theorem markedStream_cases (blocks : List Block) :
    markedStream blocks = [] ∨ ∃ x rest, markedStream blocks = (true, x) :: rest := by
  cases blocks with
  | nil => exact .inl rfl
  | cons block rest =>
    obtain ⟨b₀, b₁, b₂, b₃, bytes, is⟩ := block.first
    right
    simp only [markedStream, List.flatMap_cons, is, marked, received, List.cons_append]
    exact ⟨_, _, rfl⟩

/-- From a fresh checker on, unnoticed samples carry the upper bits of the register
started from the recovered state, unless that is zero. -/
theorem upper_of_fresh {blocks : List Block} (alive : recovered (stream blocks) ≠ 0)
    (unnoticed : Unnoticed 0 (markedStream blocks)) {k : Nat} {x : Iq}
    (at_k : (stream blocks)[k]? = some x) :
    x.i = lfsrNext^[k] (recovered (stream blocks)) >>> 4 := by
  rw [← markedStream_samples] at alive at_k ⊢
  rcases markedStream_cases blocks with none | ⟨first, rest, opened⟩
  · rw [none] at at_k
    simp at at_k
  · rw [opened] at alive at_k unnoticed ⊢
    have seeded : Unnoticed (recovered (((true, first) :: rest).map Prod.snd))
        ((true, first) :: rest) := by
      have kept : seedFor (recovered (((true, first) :: rest).map Prod.snd)) (true, first) =
          recovered (((true, first) :: rest).map Prod.snd) := if_neg fun opens => alive opens.2
      rw [Unnoticed, kept]
      exact unnoticed
    exact upper_of_unnoticed alive seeded at_k

/-- A run of blocks without an error is a run of the register, exactly unless the
checker notices nothing although the link is dead or some Q is corrupted. -/
theorem clean_report_iff (blocks : List Block) :
    ∃ c, verifyAll Checker.fresh blocks = some c ∧
      ((c.errors = 0 → ∃ s, s ≠ 0 ∧ Carried s (stream blocks)) ↔
        ¬ (Unnoticed 0 (markedStream blocks) ∧
          (DeadLink (stream blocks) ∨ CorruptedQ (stream blocks)))) := by
  have fits : ∀ x ∈ markedStream blocks, x.2.Fits := by
    intro x member
    have unmarked : x.2 ∈ (markedStream blocks).map Prod.snd := List.mem_map_of_mem member
    rw [markedStream_samples] at unmarked
    exact stream_fits unmarked
  have noticed := after_errors_iff Checker.fresh fits
  refine ⟨_, verifyAll_eq _ _, ?_⟩
  constructor
  · rintro reports ⟨unnoticed, faulty⟩
    obtain ⟨s, running, carried⟩ := reports (noticed.mpr unnoticed)
    rcases faulty with ⟨some, dead⟩ | ⟨k, x, at_k, corrupted⟩
    · exact running ((recovered_of_carried carried some).symm.trans dead)
    · have some : stream blocks ≠ [] := by
        intro none
        rw [none] at at_k
        simp at at_k
      rw [recovered_of_carried carried some, carried k x at_k] at corrupted
      exact corrupted rfl
  · intro faithful clean
    have unnoticed := noticed.mp clean
    by_cases none : stream blocks = []
    · refine ⟨1, by decide, ?_⟩
      intro k x at_k
      rw [none] at at_k
      simp at at_k
    · have alive : recovered (stream blocks) ≠ 0 :=
        fun dead => faithful ⟨unnoticed, .inl ⟨none, dead⟩⟩
      refine ⟨recovered (stream blocks), alive, ?_⟩
      intro k x at_k
      have upper := upper_of_fresh alive unnoticed at_k
      have lower : x.q = bitrev12 (lfsrNext^[k] (recovered (stream blocks)) &&& 0xFFF#16) := by
        by_contra corrupted
        exact faithful ⟨unnoticed, .inr ⟨k, x, at_k, corrupted⟩⟩
      cases x
      exact congrArg₂ Iq.mk upper lower

/-- A block of one sample of a dead link. -/
def deadBlock : Block := ⟨[0, 0, 0, 0], by decide, by decide⟩

/-- The first two samples of the generator, the second with a bit of Q inverted. -/
def corruptedBlock : Block :=
  ⟨[0x00, 0x00, 0x00, 0x80, 0x00, 0x00, 0x00, 0x50], by decide, by decide⟩

/-- Neither a dead link nor a corrupted Q is reported. -/
theorem unreported_faults :
    (∃ c, verifyAll Checker.fresh [deadBlock] = some c ∧ c.errors = 0 ∧
      ¬ ∃ s, s ≠ 0 ∧ Carried s (stream [deadBlock])) ∧
    ∃ c, verifyAll Checker.fresh [corruptedBlock] = some c ∧ c.errors = 0 ∧
      ¬ ∃ s, s ≠ 0 ∧ Carried s (stream [corruptedBlock]) := by
  refine ⟨⟨_, verifyAll_eq _ _, by decide, ?_⟩, _, verifyAll_eq _ _, by decide, ?_⟩
  · rintro ⟨s, running, carried⟩
    have state : recovered (stream [deadBlock]) = s := recovered_of_carried carried (by decide)
    exact running (state.symm.trans (by decide))
  · rintro ⟨s, _, carried⟩
    have state : recovered (stream [corruptedBlock]) = s :=
      recovered_of_carried carried (by decide)
    have second := carried 1 ⟨0, 0x500⟩ (by decide)
    rw [← state] at second
    exact absurd second (by decide)

/-! ## Resynchronisation

A seed that is wrong differs from the true state in some bit. When that bit is
compared, the sample is an error and the state is recovered from it. When it is
not, the samples agree so far, and after the next one the two differ one place
further up. -/

/-- The number of errors by the sample of index `k`, when the only one is at `place`. -/
def errorsBy (place : Option Nat) (k : Nat) : Nat :=
  match place with
  | none => 0
  | some p => if p ≤ k then 1 else 0

/-- A sample of the true state is no error for a seed equal to it. -/
theorem meet_synced {c : Checker} {s : BitVec 16} {x : Marked} (true_sample : x.2 = sampleOf s)
    (synced : seedFor c.seed x = s) :
    (c.meet x).errors = c.errors ∧ (c.meet x).seed = lfsrNext s := by
  have expected : x.2.i = seedFor c.seed x >>> 4 := by
    rw [true_sample, synced]
    rfl
  have met := meet_expected expected
  rw [synced] at met
  exact met

/-- A replaced seed is the true state. -/
theorem seedFor_cases {seed s : BitVec 16} {x : Marked} (true_sample : x.2 = sampleOf s) :
    seedFor seed x = s ∨ seedFor seed x = seed := by
  unfold seedFor
  split
  · rw [true_sample]
    exact .inl (stateFromIq_sampleOf s)
  · exact .inr rfl

/-- From a seed equal to the true state on, no sample is an error. -/
theorem synced_run {c : Checker} {s : BitVec 16} {xs : List Marked}
    (carried : Carried s (xs.map Prod.snd)) (synced : c.seed = s) {k : Nat} {state : Checker}
    (at_k : (c.meetAll xs)[k]? = some state) :
    state.errors = c.errors ∧ state.seed = lfsrNext^[k + 1] s := by
  induction xs generalizing c s k with
  | nil => simp [Checker.meetAll] at at_k
  | cons x rest inductionHypothesis =>
    obtain ⟨true_sample, later⟩ := carried_cons.mp carried
    have seeded : seedFor c.seed x = s := by
      rw [synced]
      exact (seedFor_cases true_sample).elim id id
    have met := meet_synced true_sample seeded
    cases k with
    | zero =>
      obtain rfl : c.meet x = state := Option.some.inj at_k
      exact met
    | succ k =>
      have continued := inductionHypothesis later met.2 at_k
      rw [met.1] at continued
      exact continued

/-- The same when the seed is replaced by the state of the first sample. -/
theorem synced_from {c : Checker} {s : BitVec 16} {x : Marked} {rest : List Marked}
    (carried : Carried s ((x :: rest).map Prod.snd)) (seeded : seedFor c.seed x = s) {k : Nat}
    {state : Checker} (at_k : (c.meetAll (x :: rest))[k]? = some state) :
    state.errors = c.errors ∧ state.seed = lfsrNext^[k + 1] s := by
  obtain ⟨true_sample, later⟩ := carried_cons.mp carried
  have met := meet_synced true_sample seeded
  cases k with
  | zero =>
    obtain rfl : c.meet x = state := Option.some.inj at_k
    exact met
  | succ k =>
    have continued := synced_run later met.2 at_k
    rw [met.1] at continued
    exact continued

/-- Two states that differ do so in some bit. -/
theorem exists_difference {seed s : BitVec 16} (differ : seed ≠ s) :
    ∃ j, (seed ^^^ s).getLsbD j = true := by
  by_contra none
  apply differ
  apply BitVec.xor_eq_zero_iff.mp
  apply BitVec.eq_of_getLsbD_eq
  intro j _
  have clear : (0#16).getLsbD j = false := BitVec.getLsbD_zero
  rw [clear]
  by_contra set
  exact none ⟨j, by simpa using set⟩

/-- Two states that agree in their upper bits differ, if at all, in the lower four. -/
theorem lower_of_upper_eq {seed s : BitVec 16} (agree : seed >>> 4 = s >>> 4) {j : Nat}
    (differs : (seed ^^^ s).getLsbD j = true) : j < 4 := by
  by_contra upper
  have place : 4 + (j - 4) = j := by omega
  have bits := congrArg (fun word : BitVec 16 => word.getLsbD (j - 4)) agree
  simp only [BitVec.getLsbD_ushiftRight, place] at bits
  rw [BitVec.getLsbD_xor, bits, Bool.xor_self] at differs
  cases differs

/-- A difference in one of the lower bits moves up by one place. -/
theorem difference_moves {seed s : BitVec 16} {j : Nat} (below : j + 1 < 16)
    (differs : (seed ^^^ s).getLsbD j = true) :
    (lfsrNext seed ^^^ lfsrNext s).getLsbD (j + 1) = true := by
  rw [← lfsrNext_linear, lfsrNext_eq, Lfsr.advance_getLsbD_succ _ _ below]
  exact differs

/-- After `n` samples without an error the seed differs from the true state at bit
`n` or above. At most one error follows, by the fifth sample, and from there on
the seed is the true state.

Induct along the samples. A difference in the lower four bits has moved up by one
place when the next sample arrives. -/
theorem straying_run {c : Checker} {s : BitVec 16} {xs : List Marked}
    (carried : Carried s (xs.map Prod.snd)) {n j : Nat} (early : n ≤ 4) (place : n ≤ j)
    (differs : (c.seed ^^^ s).getLsbD j = true) :
    ∃ error : Option Nat, (∀ p, error = some p → n + p < 5) ∧
      ∀ k state, (c.meetAll xs)[k]? = some state →
        state.errors = c.errors + errorsBy error k ∧
          (4 ≤ n + k → state.seed = lfsrNext^[k + 1] s) := by
  induction xs generalizing c s n j with
  | nil =>
    refine ⟨none, nofun, ?_⟩
    intro k state at_k
    simp [Checker.meetAll] at at_k
  | cons x rest inductionHypothesis =>
    obtain ⟨true_sample, later⟩ := carried_cons.mp carried
    by_cases synced : seedFor c.seed x = s
    · refine ⟨none, nofun, ?_⟩
      intro k state at_k
      have run := synced_from carried synced at_k
      exact ⟨run.1, fun _ => run.2⟩
    · have kept : seedFor c.seed x = c.seed := (seedFor_cases true_sample).resolve_left synced
      have carries : x.2.i = s >>> 4 := by
        rw [true_sample]
        rfl
      by_cases agree : c.seed >>> 4 = s >>> 4
      · have low : j < 4 := lower_of_upper_eq agree differs
        have met := meet_expected (c := c) (x := x) (by rw [kept, agree, carries])
        rw [kept] at met
        have moved : ((c.meet x).seed ^^^ lfsrNext s).getLsbD (j + 1) = true := by
          rw [met.2]
          exact difference_moves (by omega) differs
        obtain ⟨error, soon, follow⟩ :=
          inductionHypothesis later (n := n + 1) (by omega) (by omega) moved
        refine ⟨error.map (· + 1), ?_, ?_⟩
        · intro p is
          obtain ⟨q, found, rfl⟩ := Option.map_eq_some_iff.mp is
          have bound := soon q found
          omega
        · intro k state at_k
          cases k with
          | zero =>
            obtain rfl : c.meet x = state := Option.some.inj at_k
            refine ⟨?_, fun late => by omega⟩
            rw [met.1]
            cases error <;> rfl
          | succ k =>
            have continued := follow k state at_k
            rw [met.1] at continued
            refine ⟨?_, fun late => continued.2 (by omega)⟩
            rw [continued.1]
            cases error with
            | none => rfl
            | some p => simp [errorsBy]
      · have fits : x.2.Fits := by
          rw [true_sample]
          exact sampleOf_fits s
        have unexpected : x.2.i ≠ seedFor c.seed x >>> 4 := by
          rw [kept, carries]
          exact fun same => agree same.symm
        have met := meet_unexpected fits unexpected
        have corrected : (c.meet x).seed = lfsrNext s := by
          rw [met.2, true_sample, stateFromIq_sampleOf]
        refine ⟨some 0, ?_, ?_⟩
        · rintro p ⟨⟩
          omega
        · intro k state at_k
          cases k with
          | zero =>
            obtain rfl : c.meet x = state := Option.some.inj at_k
            exact ⟨met.1, fun _ => corrected⟩
          | succ k =>
            have continued := synced_run later corrected at_k
            rw [met.1] at continued
            exact ⟨continued.1, fun _ => continued.2⟩

theorem meetAll_length (c : Checker) (xs : List Marked) : (c.meetAll xs).length = xs.length := by
  induction xs generalizing c with
  | nil => rfl
  | cons x rest inductionHypothesis =>
    rw [Checker.meetAll, List.length_cons, inductionHypothesis, List.length_cons]

theorem after_eq_getLastD (c : Checker) (xs : List Marked) :
    c.after xs = (c.meetAll xs).getLastD c := by
  induction xs generalizing c with
  | nil => rfl
  | cons x rest inductionHypothesis =>
    rw [after_cons, inductionHypothesis, Checker.meetAll, List.getLastD_cons]

/-- In a run of true samples a checker counts at most one error, at one of the
first five samples; from the fifth on its seed is the true state. A checker whose
seed is zero, as a fresh one, counts none. -/
theorem resynchronises (c : Checker) (s : BitVec 16) (blocks : List Block)
    (carried : Carried s (stream blocks)) :
    ∃ states error, history c blocks = some states ∧
      states.length = (stream blocks).length ∧
      verifyAll c blocks = some (states.getLastD c) ∧
      (∀ p, error = some p → p < 5) ∧
      (c.seed = 0 → error = none) ∧
      ∀ k state, states[k]? = some state →
        state.errors = c.errors + errorsBy error k ∧
          (4 ≤ k → state.seed = lfsrNext^[k + 1] s) := by
  have count : (c.meetAll (markedStream blocks)).length = (stream blocks).length := by
    rw [meetAll_length, ← markedStream_samples, List.length_map]
  have last : verifyAll c blocks = some ((c.meetAll (markedStream blocks)).getLastD c) := by
    rw [verifyAll_eq, after_eq_getLastD]
  rw [← markedStream_samples] at carried
  by_cases zero : c.seed = 0
  · refine ⟨_, none, history_eq c blocks, count, last, nofun, fun _ => rfl, ?_⟩
    intro k state at_k
    rcases markedStream_cases blocks with empty | ⟨x, rest, opened⟩
    · rw [empty] at at_k
      simp [Checker.meetAll] at at_k
    · rw [opened] at carried at_k
      have true_sample : x = sampleOf s := (carried_cons.mp carried).1
      have opens : seedFor c.seed (true, x) = stateFromIq x.i x.q := if_pos ⟨rfl, zero⟩
      have seeded : seedFor c.seed (true, x) = s := by
        rw [opens, true_sample]
        exact stateFromIq_sampleOf s
      have run := synced_from carried seeded at_k
      exact ⟨run.1, fun _ => run.2⟩
  · by_cases synced : c.seed = s
    · refine ⟨_, none, history_eq c blocks, count, last, nofun, fun _ => rfl, ?_⟩
      intro k state at_k
      have run := synced_run carried synced at_k
      exact ⟨run.1, fun _ => run.2⟩
    · obtain ⟨j, differs⟩ := exists_difference synced
      obtain ⟨error, soon, follow⟩ :=
        straying_run carried (Nat.zero_le 4) (Nat.zero_le j) differs
      refine ⟨_, error, history_eq c blocks, count, last, ?_, fun none => absurd none zero, ?_⟩
      · intro p is
        have bound := soon p is
        omega
      · intro k state at_k
        have held := follow k state at_k
        exact ⟨held.1, fun late => held.2 (by omega)⟩

/-- Six samples of the generator, from state 2 on. -/
def sixSamples : Block :=
  ⟨((⟨2⟩ : Generator).fill (List.replicate 24 0)).2, by decide, by decide⟩

/-- A seed that is wrong in its lowest bit only. -/
theorem resynchronises_late :
    ∃ states error, history ⟨7, 100, 3⟩ [sixSamples] = some states ∧
      states.length = (stream [sixSamples]).length ∧
      verifyAll ⟨7, 100, 3⟩ [sixSamples] = some (states.getLastD ⟨7, 100, 3⟩) ∧
      (∀ p, error = some p → p < 5) ∧
      ((3 : BitVec 16) = 0 → error = none) ∧
      ∀ k state, states[k]? = some state →
        state.errors = 7 + errorsBy error k ∧ (4 ≤ k → state.seed = lfsrNext^[k + 1] 2) :=
  resynchronises ⟨7, 100, 3⟩ 2 [sixSamples] (fill_carried ⟨2⟩ (List.replicate 24 0))

end Zyndra.Prbs
