import Zyndra.RxLoss

/-!
# Whether a block is whole when it is handed out

The reader takes a block for the one at a position of the hardware's stream. It
is handed out whole when the hardware has written all of it and has not yet
begun to write the next copy over it.

Overrun is judged by the count of announced blocks alone. What the hardware has
written since the last tick is not in the count, so it may have lapped the block although
the count is below the ring. A snap that finds the announced position less than a
block beyond its target leaves a count that announces blocks the hardware has
yet to write.
-/

namespace Zyndra.Driver

open CyclicRing Runs

section Intact

variable (rxBlockSize : BitVec 32)

/-- Every block handed out was written completely, and not a whole ring ago. -/
def Whole (b : RxBench) : Prop :=
  ∀ h ∈ b.handed, h.start + rxBlockSize.toNat ≤ h.written ∧ h.written ≤ h.start + b.size

instance (b : RxBench) : Decidable (Whole rxBlockSize b) :=
  inferInstanceAs (Decidable (∀ h ∈ b.handed, _ ∧ _))

/-- When a snap is made, the timer has announced at least a block beyond its target. -/
def SnapAnnounced (b : RxBench) : RxEvent → Prop
  | .reader => b.pc = .snapping →
      snapTarget rxBlockSize b.size b.written + rxBlockSize.toNat ≤ b.announced
  | _ => True

/-- How far the hardware is ahead of the block handed out. On the normal path that
is by the announced blocks, this one included, and the unannounced bytes. After
a snap it is by what was written since, and the half ring it was ahead then,
rounded up to the block. -/
def RxBench.lead (b : RxBench) : Nat :=
  match b.snapAt with
  | none => (b.ready + 1) * rxBlockSize.toNat + b.unannounced
  | some snapped =>
    b.written - snapped + b.size / 2 + (snapped - b.size / 2) % rxBlockSize.toNat

/-- When a response is made up, the hardware has not gone round. -/
def NotLapped (b : RxBench) : RxEvent → Prop
  | .reader => b.pc.responds = true → b.lead rxBlockSize ≤ b.size
  | _ => True

instance (b : RxBench) : (e : RxEvent) → Decidable (SnapAnnounced rxBlockSize b e)
  | .reader => inferInstanceAs (Decidable (_ → _))
  | .tick => isTrue trivial
  | .hardware _ => isTrue trivial

instance (b : RxBench) : (e : RxEvent) → Decidable (NotLapped rxBlockSize b e)
  | .reader => inferInstanceAs (Decidable (_ → _))
  | .tick => isTrue trivial
  | .hardware _ => isTrue trivial

/-- The call has chosen its block: it is past its overrun test, or past its snap. -/
def ReadPc.chosen : ReadPc → Bool
  | .subtracting _ => true
  | .decrementing _ => true
  | .responding _ => true
  | _ => false

/-- Where the reader stands. It is whole rings ahead of the account, by those a
snap skipped without reporting them. A call that has chosen its block stands
before an announced one: on the account, or at the target of its snap. -/
structure Stands (b : RxBench) : Prop where
  laps : ∃ rings, b.start = b.accounted + rings * b.size
  searching : b.pc.chosen = false → b.snapAt = none ∧ b.start ≤ b.announced
  chosen : b.pc.chosen = true →
    b.start + rxBlockSize.toNat ≤ b.announced ∧ (b.snapAt = none → b.start = b.accounted)
  snapped : ∀ position, b.snapAt = some position →
    b.start = snapTarget rxBlockSize b.size position ∧ b.size ≤ position ∧ position ≤ b.written

variable {rxBlockSize}

/-- A call that keeps up chooses the block on the account: with fewer blocks ready than the
ring holds, the reader can stand no ring ahead of the account and yet behind the
announced position. -/
theorem Stands.keeps_up {b : RxBench} (books : Books rxBlockSize b) (held : Stands rxBlockSize b)
    {limit : BitVec 32} (at_ : b.pc = .testing limit) (keptUp : b.ready < limit.toNat) :
    b.start + rxBlockSize.toNat ≤ b.announced ∧ b.start = b.accounted := by
  obtain ⟨rings, ahead⟩ := held.laps
  have before := (held.searching (by simp [at_, ReadPc.chosen])).2
  have balanced := books.balanced
  rw [at_] at balanced
  obtain ⟨full, some, sum⟩ := balanced
  have ring : b.size / rxBlockSize.toNat * rxBlockSize.toNat = b.size := books.ring.blocks_size
  have short : (b.ready + 1) * rxBlockSize.toNat ≤ b.size :=
    ring ▸ Nat.mul_le_mul_right _ (full ▸ keptUp)
  have one := Nat.mul_le_mul_right rxBlockSize.toNat some
  have block := books.ring.block
  simp only [Nat.add_mul, Nat.one_mul] at short one
  have none : rings = 0 := by
    by_contra more
    have lap := Nat.mul_le_mul_right b.size (Nat.one_le_iff_ne_zero.mpr more)
    omega
  subst none
  omega

/-- Once the block is chosen, the hardware has not gone round it exactly when the
condition holds. -/
theorem Stands.not_lapped_iff {b : RxBench} (books : Books rxBlockSize b)
    (held : Stands rxBlockSize b) {lost : BitVec 32} (at_ : b.pc = .responding lost) :
    b.written ≤ b.start + b.size ↔ NotLapped rxBlockSize b .reader := by
  have chosen := held.chosen (by simp [at_, ReadPc.chosen])
  have balanced := books.balanced
  have behind := books.behind
  rw [at_] at balanced
  simp only [NotLapped, at_, ReadPc.responds, forall_const, RxBench.lead, RxBench.unannounced]
  cases path : b.snapAt with
  | none =>
    have onAccount := chosen.2 path
    simp only [Balanced] at balanced ⊢
    omega
  | some position =>
    obtain ⟨target, far, past⟩ := held.snapped position path
    have rounded := Nat.div_add_mod (position - b.size / 2) rxBlockSize.toNat
    rw [snapTarget, Nat.mul_comm] at target
    simp only
    omega

theorem Stands.read {b b' : RxBench} (books : Books rxBlockSize b) (held : Stands rxBlockSize b)
    (moved : ReaderMoves rxBlockSize b b') (announced : SnapAnnounced rxBlockSize b .reader) :
    Stands rxBlockSize b' := by
  cases moved with
  | enters at_ =>
    refine ⟨held.laps, ?_, by simp [ReadPc.chosen], held.snapped⟩
    intro _
    apply held.searching
    simp [at_, ReadPc.chosen]
  | waits limit at_ none => exact held
  | wakes limit at_ some =>
    refine ⟨held.laps, ?_, by simp [ReadPc.chosen], held.snapped⟩
    intro _
    apply held.searching
    simp [at_, ReadPc.chosen]
  | passes limit at_ keptUp =>
    obtain ⟨before, onAccount⟩ := held.keeps_up books at_ keptUp
    refine ⟨held.laps, by simp [ReadPc.chosen], ?_, held.snapped⟩
    intro _
    exact ⟨before, fun _ => onAccount⟩
  | overruns limit at_ fellBehind =>
    refine ⟨held.laps, ?_, by simp [ReadPc.chosen], held.snapped⟩
    intro _
    apply held.searching
    simp [at_, ReadPc.chosen]
  | snaps at_ =>
    obtain ⟨ahead, _⟩ := books.snap_target at_
    have lapped := books.ring_behind at_
    have behind := books.behind
    have target := announced at_
    refine ⟨?_, by simp [ReadPc.chosen], ?_, ?_⟩
    · refine ⟨(snapTarget rxBlockSize b.size b.written - b.accounted) / b.size, ?_⟩
      change snapTarget rxBlockSize b.size b.written =
        b.accounted + (lostBytes rxBlockSize b.dev).toNat +
          (snapTarget rxBlockSize b.size b.written - b.accounted) / b.size * b.size
      have rounded := Nat.mod_add_div (snapTarget rxBlockSize b.size b.written - b.accounted) b.size
      rw [books.lost_bytes at_, Nat.mul_comm _ b.size]
      omega
    · intro _
      constructor
      · exact target
      · intro none
        cases none
    · intro position same
      obtain rfl := Option.some.inj same
      change _ ∧ b.size ≤ b.written ∧ b.written ≤ b.written
      exact ⟨rfl, by omega, Nat.le_refl _⟩
  | subtracts lost at_ =>
    refine ⟨held.laps, by simp [ReadPc.chosen], ?_, held.snapped⟩
    intro _
    apply held.chosen
    simp [at_, ReadPc.chosen]
  | decrements lost at_ =>
    refine ⟨held.laps, by simp [ReadPc.chosen], ?_, held.snapped⟩
    intro _
    apply held.chosen
    simp [at_, ReadPc.chosen]
  | responds lost at_ =>
    obtain ⟨rings, ahead⟩ := held.laps
    obtain ⟨before, _⟩ := held.chosen (by simp [at_, ReadPc.chosen])
    refine ⟨⟨rings, ?_⟩, ?_, by simp [ReadPc.chosen], by simp⟩
    · change b.start + rxBlockSize.toNat = b.accounted + rxBlockSize.toNat + rings * b.size
      omega
    · intro _
      exact ⟨rfl, before⟩

theorem Stands.observe {b : RxBench} (books : Books rxBlockSize b) (held : Stands rxBlockSize b)
    (e : RxEvent) (announced : SnapAnnounced rxBlockSize b e) :
    Stands rxBlockSize (observe rxBlockSize b e) := by
  cases e with
  | hardware bytes =>
    refine ⟨held.laps, held.searching, held.chosen, ?_⟩
    intro position same
    obtain ⟨target, far, past⟩ := held.snapped position same
    exact ⟨target, far, Nat.le_trans past (Nat.le_add_right _ _)⟩
  | tick =>
    have size : (Driver.observe rxBlockSize b .tick).size = b.size := tick_size b
    have grown : b.announced ≤ (Driver.observe rxBlockSize b .tick).announced :=
      Nat.le_add_right _ _
    refine ⟨?_, ?_, ?_, ?_⟩
    · rw [size]
      exact held.laps
    · intro early
      obtain ⟨none, before⟩ := held.searching early
      exact ⟨none, Nat.le_trans before grown⟩
    · intro late
      obtain ⟨before, onAccount⟩ := held.chosen late
      exact ⟨Nat.le_trans before grown, onAccount⟩
    · rw [size]
      exact held.snapped
  | reader => exact held.read books books.reader_moves announced

/-- What every state of a run with whole blocks keeps. -/
structure Intact (rxBlockSize : BitVec 32) (b : RxBench) : Prop where
  books : Books rxBlockSize b
  stands : Stands rxBlockSize b
  whole : Whole rxBlockSize b

/-- An event that hands out no block leaves the blocks whole. -/
theorem Whole.keep {b b' : RxBench} (held : Whole rxBlockSize b) (size : b'.size = b.size)
    (handed : b'.handed = b.handed) : Whole rxBlockSize b' := by
  intro h member
  rw [handed] at member
  rw [size]
  exact held h member

/-- One more block handed out, with the others whole, leaves them whole exactly when it is. -/
theorem Whole.hand_out {b b' : RxBench} (held : Whole rxBlockSize b) (size : b'.size = b.size)
    {h : Handout} (handed : b'.handed = h :: b.handed) :
    Whole rxBlockSize b' ↔
      h.start + rxBlockSize.toNat ≤ h.written ∧ h.written ≤ h.start + b.size := by
  rw [Whole, handed, size]
  constructor
  · intro whole
    exact whole h List.mem_cons_self
  · intro intact other member
    rcases List.mem_cons.mp member with same | earlier
    · subst same
      exact intact
    · exact held other earlier

/-- From a state with whole blocks, one event leaves them whole exactly when the
block it hands out, if it does, has not been lapped. -/
theorem Intact.whole_iff {b : RxBench} (held : Intact rxBlockSize b) (e : RxEvent) :
    Whole rxBlockSize (observe rxBlockSize b e) ↔ NotLapped rxBlockSize b e := by
  cases e with
  | hardware bytes => exact iff_of_true held.whole trivial
  | tick => exact iff_of_true (held.whole.keep (tick_size b) rfl) trivial
  | reader =>
    have size := held.books.reader_moves.size
    change Whole rxBlockSize (observeReader rxBlockSize b) ↔ _
    cases responds : b.pc.responds with
    | false =>
      apply iff_of_true
      · exact held.whole.keep size (observeReader_silent responds)
      · intro response
        exact absurd response (by simp [responds])
    | true =>
      obtain ⟨lost, at_⟩ := ReadPc.responds_at responds
      rw [← held.stands.not_lapped_iff held.books at_,
        held.whole.hand_out size (observeReader_response at_)]
      have before := (held.stands.chosen (by simp [at_, ReadPc.chosen])).1
      have behind := held.books.behind
      constructor
      · intro intact
        exact intact.2
      · intro inside
        exact ⟨Nat.le_trans before behind, inside⟩

theorem intact_enabled (d : Device) (ring : BlockRing rxBlockSize d.priv.rxbufSize) :
    Intact rxBlockSize (enabledBench d) where
  books := books_enabled d ring
  stands := ⟨⟨0, by simp [enabledBench]⟩, fun _ => ⟨rfl, Nat.le_refl 0⟩,
    by simp [enabledBench, ReadPc.chosen], by simp [enabledBench]⟩
  whole _ member := absurd member List.not_mem_nil

/-- No tick overflows a counter, and every snap finds a block announced beyond
its target. -/
def Counted (rxBlockSize : BitVec 32) (b : RxBench) (e : RxEvent) : Prop :=
  TickFits rxBlockSize b e ∧ SnapAnnounced rxBlockSize b e

instance (b : RxBench) (e : RxEvent) : Decidable (Counted rxBlockSize b e) :=
  inferInstanceAs (Decidable (_ ∧ _))

/-- In every interleaving in which the count of ready blocks stays true, every
block is whole when it is handed out if and only if the hardware has not gone
round it since it was counted. -/
theorem handed_whole_iff (d : Device) (ring : BlockRing rxBlockSize d.priv.rxbufSize)
    (events : List RxEvent)
    (counted : Follows (Counted rxBlockSize) (observe rxBlockSize) (enabledBench d) events) :
    Always (Whole rxBlockSize) (observe rxBlockSize) (enabledBench d) events ↔
      Follows (NotLapped rxBlockSize) (observe rxBlockSize) (enabledBench d) events := by
  have decides : ∀ b e, Intact rxBlockSize b → Counted rxBlockSize b e →
      (Whole rxBlockSize (observe rxBlockSize b e) ↔ NotLapped rxBlockSize b e) := by
    intro b e held _
    exact held.whole_iff e
  have preserved : ∀ b e, Intact rxBlockSize b → Counted rxBlockSize b e →
      NotLapped rxBlockSize b e → Intact rxBlockSize (observe rxBlockSize b e) := by
    rintro b e held ⟨fits, announced⟩ inside
    constructor
    · exact held.books.observe e fits
    · exact held.stands.observe held.books e announced
    · exact (held.whole_iff e).mpr inside
  have initial := intact_enabled d ring
  exact always_iff_follows decides preserved initial initial.whole events counted

end Intact

/-- In a ring of two blocks of two bursts, one block is announced and the hardware
goes on for three bursts before the next tick. -/
def lappedBetweenTicks : List RxEvent :=
  [.hardware 256, .tick, .hardware 384] ++ List.replicate 5 .reader

/-- One block is ready, so the reader sees no overrun, and it hands out a block whose
first burst has been overwritten. -/
theorem block_overwritten :
    Follows LapRule (observe 256) (enabledBench (mapped 512)) lappedBetweenTicks ∧
      ¬ Always (Whole 256) (observe 256) (enabledBench (mapped 512)) lappedBetweenTicks ∧
      (run (observe 256) (enabledBench (mapped 512)) lappedBetweenTicks).handed.map
        (fun h => (h.start, h.written, h.lost)) = [(0, 640, 0)] := by
  decide +kernel

/-- The late reader of a ring of three blocks is handed a whole one. -/
theorem handed_whole_late :
    Always (Whole 128) (observe 128) (enabledBench (mapped 384)) lateReader :=
  (handed_whole_iff (mapped 384) ⟨by decide, by decide, by decide, by decide⟩ lateReader
    (by decide +kernel)).mpr (by decide +kernel)

end Zyndra.Driver
