import Zyndra.RxBench
import Zyndra.Runs

/-!
# The books of the receive ring

The driver's offsets, its count of ready blocks and the announced position agree
with one another in every state of every run in which no 32-bit counter
overflows, whatever the reader's lag and wherever the ticks fall. The invariant
keeps the count in balance at each point of a call; what is said of the driver's own
words follows from it modulo the ring.
-/

namespace Zyndra.Driver

open CyclicRing Runs

section Books

variable {rxBlockSize : BitVec 32}

/-- The count of ready blocks at each point of a call: the blocks between the
account and the announced position, less those the call has already taken off and
plus those it still has to. -/
def Balanced (block maxBlocks : Nat) (pc : ReadPc) (ready accounted announced : Nat) : Prop :=
  match pc with
  | .outside => accounted + ready * block = announced
  | .waiting limit => limit.toNat = maxBlocks ∧ accounted + ready * block = announced
  | .testing limit =>
    limit.toNat = maxBlocks ∧ 1 ≤ ready ∧ accounted + ready * block = announced
  | .snapping => maxBlocks ≤ ready ∧ accounted + ready * block = announced
  | .subtracting lost =>
    maxBlocks ≤ ready ∧ block ∣ lost.toNat ∧ lost.toNat < maxBlocks * block ∧
      accounted + ready * block = announced + lost.toNat
  | .decrementing _ => 1 ≤ ready ∧ accounted + ready * block = announced
  | .responding _ => accounted + (ready + 1) * block = announced

/-- What every state of a run keeps. -/
structure Books (rxBlockSize : BitVec 32) (b : RxBench) : Prop where
  ring : BlockRing rxBlockSize b.dev.priv.rxbufSize
  isOpen : b.dev.priv.closing = false
  hardwareAt : b.dev.regs.rxBufWr.toNat = b.written % b.size
  timerAt : b.dev.priv.timerWrPtr.toNat = b.announced % b.size
  readerAt : b.dev.priv.rdPtr.toNat = b.accounted % b.size
  behind : b.announced ≤ b.written
  announcedBlocks : rxBlockSize.toNat ∣ b.announced
  accountedBlocks : rxBlockSize.toNat ∣ b.accounted
  balanced : Balanced rxBlockSize.toNat (b.size / rxBlockSize.toNat) b.pc b.ready b.accounted
    b.announced
  counted : b.ready < 2 ^ 31
  fresh : b.sinceTick = 0 → (b.written - b.announced) % b.size < rxBlockSize.toNat

/-- A tick adds the same blocks to the count and to the announced position. -/
theorem Balanced.announce {block maxBlocks ready accounted announced : Nat} {pc : ReadPc}
    (held : Balanced block maxBlocks pc ready accounted announced) (blocks : Nat) :
    Balanced block maxBlocks pc (ready + blocks) accounted (announced + blocks * block) := by
  cases pc <;> simp only [Balanced, Nat.add_mul, Nat.one_mul] at held ⊢ <;> omega

theorem books_enabled (d : Device) (ring : BlockRing rxBlockSize d.priv.rxbufSize) :
    Books rxBlockSize (enabledBench d) where
  ring := ring
  isOpen := rfl
  hardwareAt := by simp [enabledBench]
  timerAt := by simp [enabledBench]
  readerAt := by simp [enabledBench]
  behind := Nat.le_refl 0
  announcedBlocks := Nat.dvd_zero _
  accountedBlocks := Nat.dvd_zero _
  balanced := by simp [enabledBench, Balanced, RxBench.ready]
  counted := by simp [enabledBench, RxBench.ready]
  fresh _ := by simpa [enabledBench] using ring.block

/-! ## Hardware and ticks -/

theorem Books.advance {b : RxBench} (held : Books rxBlockSize b) (bytes : Nat) :
    Books rxBlockSize (observe rxBlockSize b (.hardware bytes)) where
  ring := held.ring
  isOpen := held.isOpen
  hardwareAt := by
    have below : (b.written + bytes) % b.size < 2 ^ 32 :=
      Nat.lt_trans (Nat.mod_lt _ held.ring.positive) b.dev.priv.rxbufSize.isLt
    change (BitVec.ofNat 32 ((b.written + bytes) % b.size)).toNat = (b.written + bytes) % b.size
    rw [BitVec.toNat_ofNat, Nat.mod_eq_of_lt below]
  timerAt := held.timerAt
  readerAt := held.readerAt
  behind := Nat.le_trans held.behind (Nat.le_add_right _ _)
  announcedBlocks := held.announcedBlocks
  accountedBlocks := held.accountedBlocks
  balanced := held.balanced
  counted := held.counted
  fresh none := by
    obtain ⟨before, still⟩ : b.sinceTick = 0 ∧ bytes = 0 := Nat.add_eq_zero_iff.mp none
    subst still
    exact held.fresh before

theorem Books.tick {b : RxBench} (held : Books rxBlockSize b)
    (fits : TickFits rxBlockSize b .tick) : Books rxBlockSize (observe rxBlockSize b .tick) := by
  obtain ⟨regs, size, closing, rd⟩ := timer_frame rxBlockSize b.dev
  have positive := held.ring.positive
  have pointer := timer_pointer positive held.timerAt fits.2
  have same : (observe rxBlockSize b .tick).size = b.size := tick_size b
  have ready : (observe rxBlockSize b .tick).ready =
      b.ready + (newBlocks rxBlockSize b.dev).toNat := by
    have bound := fits.1
    change (timer rxBlockSize b.dev).priv.blocksReady.toNat = _
    rw [timer_count positive, BitVec.toNat_add]
    apply Nat.mod_eq_of_lt
    unfold RxBench.ready at bound
    omega
  have remainder : (b.written - (b.announced +
      (newBlocks rxBlockSize b.dev).toNat * rxBlockSize.toNat)) % b.size < rxBlockSize.toNat := by
    rw [← Nat.sub_sub, newBlocks_toNat positive held.behind held.timerAt held.hardwareAt]
    change (_ - _ % b.size / _ * _) % b.size < _
    rw [remainder_sub (Nat.div_mul_le_self _ _), ← Nat.mod_eq_sub_div_mul]
    exact Nat.mod_lt _ held.ring.block
  exact {
    ring := size ▸ held.ring
    isOpen := closing.trans held.isOpen
    hardwareAt := by rw [same]; exact (congrArg (·.rxBufWr.toNat) regs).trans held.hardwareAt
    timerAt := by rw [same]; exact pointer
    readerAt := by rw [same]; exact (congrArg BitVec.toNat rd).trans held.readerAt
    behind := newBlocks_behind positive held.behind held.timerAt held.hardwareAt
    announcedBlocks := Nat.dvd_add held.announcedBlocks (Nat.dvd_mul_left _ _)
    accountedBlocks := held.accountedBlocks
    balanced := by
      rw [same, ready]
      exact held.balanced.announce _
    counted := ready ▸ fits.1
    fresh := fun _ => by rw [same]; exact remainder }

/-! ## Steps of the reader -/

/-- What one step of the reader can do to the bench. -/
inductive ReaderMoves (rxBlockSize : BitVec 32) (b : RxBench) : RxBench → Prop where
  | enters (at_ : b.pc = .outside) :
      ReaderMoves rxBlockSize b { b with pc := .waiting (b.dev.priv.rxbufSize / rxBlockSize) }
  | waits (limit : BitVec 32) (at_ : b.pc = .waiting limit) (none : b.ready = 0) :
      ReaderMoves rxBlockSize b b
  | wakes (limit : BitVec 32) (at_ : b.pc = .waiting limit) (some : 1 ≤ b.ready) :
      ReaderMoves rxBlockSize b { b with pc := .testing limit }
  | passes (limit : BitVec 32) (at_ : b.pc = .testing limit) (keptUp : b.ready < limit.toNat) :
      ReaderMoves rxBlockSize b { b with pc := .decrementing 0 }
  | overruns (limit : BitVec 32) (at_ : b.pc = .testing limit)
      (fellBehind : limit.toNat ≤ b.ready) :
      ReaderMoves rxBlockSize b { b with pc := .snapping }
  | snaps (at_ : b.pc = .snapping) :
      ReaderMoves rxBlockSize b
        { b with
          dev := snap rxBlockSize b.dev
          pc := .subtracting (lostBytes rxBlockSize b.dev)
          accounted := b.accounted + (lostBytes rxBlockSize b.dev).toNat
          start := snapTarget rxBlockSize b.size b.written
          snapAt := some b.written }
  | subtracts (lost : BitVec 32) (at_ : b.pc = .subtracting lost) :
      ReaderMoves rxBlockSize b
        { b with
          dev := { b.dev with priv :=
            { b.dev.priv with blocksReady := b.dev.priv.blocksReady - lost / rxBlockSize } }
          pc := .decrementing lost }
  | decrements (lost : BitVec 32) (at_ : b.pc = .decrementing lost) :
      ReaderMoves rxBlockSize b
        { b with
          dev := { b.dev with priv :=
            { b.dev.priv with blocksReady := b.dev.priv.blocksReady - 1 } }
          pc := .responding lost }
  | responds (lost : BitVec 32) (at_ : b.pc = .responding lost) :
      ReaderMoves rxBlockSize b
        { b with
          dev := advanceRd rxBlockSize (invalidate rxBlockSize (trackStats b.dev))
          pc := .outside
          accounted := b.accounted + rxBlockSize.toNat
          start := b.start + rxBlockSize.toNat
          snapAt := none
          handed := b.handout rxBlockSize lost :: b.handed }

/-- No step of the reader changes the ring. -/
theorem ReaderMoves.size {b b' : RxBench} (moved : ReaderMoves rxBlockSize b b') :
    b'.size = b.size := by
  cases moved <;> rfl

/-- A word below half its range is the same number signed and unsigned. -/
theorem signed_small {word : BitVec 32} (small : word.toNat < 2 ^ 31) : word.toInt = word.toNat :=
  BitVec.toInt_eq_toNat_of_lt (by omega)

/-- Every step of the reader is one of the listed moves. The signed comparisons
compare the numbers they stand for, as both sides are small. -/
theorem Books.reader_moves {b : RxBench} (held : Books rxBlockSize b) :
    ReaderMoves rxBlockSize b (observeReader rxBlockSize b) := by
  have isOpen := held.isOpen
  have signed : b.dev.priv.blocksReady.toInt = b.ready := signed_small held.counted
  have balanced := held.balanced
  unfold observeReader
  cases at_ : b.pc with
  | outside =>
    simp only [readStep, success, Nat.lt_irrefl, if_false]
    exact .enters at_
  | waiting limit =>
    by_cases some : 1 ≤ b.ready
    · have passed : BitVec.slt 0 b.dev.priv.blocksReady = true := by
        rw [BitVec.slt_iff_toInt_lt, signed]
        apply Int.ofNat_lt.mpr
        exact some
      simp only [readStep, passed, isOpen, Bool.or_false, Bool.false_eq_true, if_true, if_false]
      exact .wakes limit at_ some
    · have blocked : BitVec.slt 0 b.dev.priv.blocksReady = false := by
        rw [← Bool.not_eq_true, BitVec.slt_iff_toInt_lt, signed]
        intro more
        exact some (Int.ofNat_lt.mp more)
      simp only [readStep, blocked, isOpen, Bool.or_false, Bool.false_eq_true, if_false]
      rw [← at_]
      exact .waits limit at_ (by omega)
  | testing limit =>
    rw [at_] at balanced
    have small : limit.toInt = limit.toNat := signed_small (balanced.1 ▸ held.ring.countable)
    by_cases fellBehind : limit.toNat ≤ b.ready
    · have reached : BitVec.sle limit b.dev.priv.blocksReady = true := by
        rw [BitVec.sle_iff_toInt_le, signed, small]
        apply Int.ofNat_le.mpr
        exact fellBehind
      simp only [readStep, reached, if_true]
      exact .overruns limit at_ fellBehind
    · have missed : BitVec.sle limit b.dev.priv.blocksReady = false := by
        rw [← Bool.not_eq_true, BitVec.sle_iff_toInt_le, signed, small]
        intro less
        exact fellBehind (Int.ofNat_le.mp less)
      simp only [readStep, missed, Bool.false_eq_true, if_false]
      exact .passes limit at_ (by omega)
  | snapping => exact .snaps at_
  | subtracting lost => exact .subtracts lost at_
  | decrementing lost => exact .decrements lost at_
  | responding lost => exact .responds lost at_

/-- At the snap a whole ring of blocks is announced and unread. -/
theorem Books.ring_behind {b : RxBench} (held : Books rxBlockSize b) (at_ : b.pc = .snapping) :
    b.accounted + b.size ≤ b.announced := by
  have balanced := held.balanced
  rw [at_] at balanced
  obtain ⟨full, sum⟩ := balanced
  have ring : b.size / rxBlockSize.toNat * rxBlockSize.toNat = b.size := held.ring.blocks_size
  have room := Nat.mul_le_mul_right rxBlockSize.toNat full
  omega

/-- The snap target is the offset of a real position, not before the account. -/
theorem Books.snap_target {b : RxBench} (held : Books rxBlockSize b) (at_ : b.pc = .snapping) :
    b.accounted ≤ snapTarget rxBlockSize b.size b.written ∧
      (newRd rxBlockSize b.dev).toNat = snapTarget rxBlockSize b.size b.written % b.size := by
  have lapped := held.ring_behind at_
  have behind := held.behind
  constructor
  · obtain ⟨blocks, position⟩ := held.accountedBlocks
    have reach : rxBlockSize.toNat * blocks ≤ b.written - b.size / 2 := by omega
    have rounded : blocks ≤ (b.written - b.size / 2) / rxBlockSize.toNat :=
      (Nat.le_div_iff_mul_le held.ring.block).mpr (by rwa [Nat.mul_comm])
    rw [position, Nat.mul_comm]
    exact Nat.mul_le_mul_right _ rounded
  · have half : (b.dev.priv.rxbufSize / 2).toNat = b.size / 2 := BitVec.toNat_udiv
    have halfOffset : (b.dev.priv.rxbufSize / 2).toNat = b.size / 2 % b.size := by
      have smaller : b.size / 2 < b.size := Nat.div_lt_self held.ring.positive (by decide)
      rw [half, Nat.mod_eq_of_lt smaller]
    have distance := cyclicDistance_positions held.ring.positive
      (show b.size / 2 ≤ b.written by omega) halfOffset held.hardwareAt
    rw [newRd, floor_toNat, distance]
    exact floor_offset _ held.ring.whole

/-- The lost bytes are the distance to the snap target, modulo the ring. -/
theorem Books.lost_bytes {b : RxBench} (held : Books rxBlockSize b) (at_ : b.pc = .snapping) :
    (lostBytes rxBlockSize b.dev).toNat =
      (snapTarget rxBlockSize b.size b.written - b.accounted) % b.size := by
  obtain ⟨ahead, offset⟩ := held.snap_target at_
  exact cyclicDistance_positions held.ring.positive ahead held.readerAt offset

/-- The lost bytes are whole blocks, fewer than the ring. -/
theorem Books.lost_blocks {b : RxBench} (held : Books rxBlockSize b) (at_ : b.pc = .snapping) :
    rxBlockSize.toNat ∣ (lostBytes rxBlockSize b.dev).toNat ∧
      (lostBytes rxBlockSize b.dev).toNat < b.size := by
  rw [held.lost_bytes at_]
  have target : rxBlockSize.toNat ∣ snapTarget rxBlockSize b.size b.written := Nat.dvd_mul_left _ _
  exact ⟨offset_aligned held.ring.whole (Nat.dvd_sub target held.accountedBlocks),
    Nat.mod_lt _ held.ring.positive⟩

/-- A block at an offset of the account ends within the ring. -/
theorem Books.block_fits {b : RxBench} (held : Books rxBlockSize b) :
    b.dev.priv.rdPtr.toNat + rxBlockSize.toNat ≤ b.size := by
  rw [held.readerAt]
  exact step_fits held.ring.whole (offset_aligned held.ring.whole held.accountedBlocks)
    (Nat.mod_lt _ held.ring.positive)

/-- Taking lost blocks off the count does not borrow: fewer than a ring of them
are taken off a count of at least a ring. -/
theorem subtract_lost {b : RxBench} {lost : BitVec 32} (held : Books rxBlockSize b)
    (at_ : b.pc = .subtracting lost) :
    (b.dev.priv.blocksReady - lost / rxBlockSize).toNat =
        b.ready - lost.toNat / rxBlockSize.toNat ∧
      lost.toNat / rxBlockSize.toNat < b.ready ∧
      lost.toNat / rxBlockSize.toNat * rxBlockSize.toNat = lost.toNat := by
  have balanced := held.balanced
  rw [at_] at balanced
  obtain ⟨full, whole, bounded, _⟩ := balanced
  have fewer : lost.toNat / rxBlockSize.toNat < b.size / rxBlockSize.toNat :=
    Nat.div_lt_of_lt_mul (by rwa [Nat.mul_comm])
  have within : lost.toNat / rxBlockSize.toNat ≤ b.ready := by omega
  have noBorrow : lost / rxBlockSize ≤ b.dev.priv.blocksReady := by
    rw [BitVec.le_def, BitVec.toNat_udiv]
    exact within
  refine ⟨?_, ?_, ?_⟩
  · rw [BitVec.toNat_sub_of_le noBorrow, BitVec.toNat_udiv]
    rfl
  · omega
  · exact Nat.div_mul_cancel whole

theorem Books.read {b b' : RxBench} (held : Books rxBlockSize b)
    (moved : ReaderMoves rxBlockSize b b') : Books rxBlockSize b' := by
  have balanced := held.balanced
  have counted := held.counted
  cases moved with
  | enters at_ =>
    rw [at_] at balanced
    exact { held with balanced := ⟨BitVec.toNat_udiv, balanced⟩ }
  | waits limit at_ none => exact held
  | wakes limit at_ some =>
    rw [at_] at balanced
    exact { held with balanced := ⟨balanced.1, some, balanced.2⟩ }
  | passes limit at_ keptUp =>
    rw [at_] at balanced
    exact { held with balanced := ⟨balanced.2.1, balanced.2.2⟩ }
  | overruns limit at_ fellBehind =>
    rw [at_] at balanced
    exact { held with balanced := ⟨balanced.1 ▸ fellBehind, balanced.2.2⟩ }
  | snaps at_ =>
    obtain ⟨ahead, offset⟩ := held.snap_target at_
    obtain ⟨whole, bounded⟩ := held.lost_blocks at_
    rw [at_] at balanced
    have ring : b.size / rxBlockSize.toNat * rxBlockSize.toNat = b.size := held.ring.blocks_size
    refine { held with readerAt := ?_, accountedBlocks := ?_, balanced := ?_ }
    · change (newRd rxBlockSize b.dev).toNat =
        (b.accounted + (lostBytes rxBlockSize b.dev).toNat) % b.size
      rw [offset, held.lost_bytes at_, Nat.add_mod_mod, Nat.add_sub_cancel' ahead]
    · exact Nat.dvd_add held.accountedBlocks whole
    · refine ⟨balanced.1, whole, ?_, ?_⟩
      · change _ < b.size / rxBlockSize.toNat * rxBlockSize.toNat
        rwa [ring]
      · have sum := balanced.2
        change b.accounted + (lostBytes rxBlockSize b.dev).toNat + b.ready * rxBlockSize.toNat =
          b.announced + (lostBytes rxBlockSize b.dev).toNat
        omega
  | subtracts lost at_ =>
    obtain ⟨less, within, blocks⟩ := subtract_lost held at_
    rw [at_] at balanced
    refine { held with balanced := ?_, counted := ?_ }
    · obtain ⟨_, _, _, sum⟩ := balanced
      refine ⟨?_, ?_⟩
      · change 1 ≤ (b.dev.priv.blocksReady - lost / rxBlockSize).toNat
        omega
      · change b.accounted + (b.dev.priv.blocksReady - lost / rxBlockSize).toNat *
          rxBlockSize.toNat = b.announced
        rw [less, Nat.sub_mul, blocks]
        have covered := Nat.mul_le_mul_right rxBlockSize.toNat (Nat.le_of_lt within)
        omega
    · change (b.dev.priv.blocksReady - lost / rxBlockSize).toNat < 2 ^ 31
      rw [less]
      exact Nat.lt_of_le_of_lt (Nat.sub_le _ _) counted
  | decrements lost at_ =>
    rw [at_] at balanced
    obtain ⟨some, sum⟩ := balanced
    have less : (b.dev.priv.blocksReady - 1).toNat = b.ready - 1 :=
      BitVec.toNat_sub_of_le (BitVec.le_def.mpr some)
    refine { held with balanced := ?_, counted := ?_ }
    · change b.accounted + ((b.dev.priv.blocksReady - 1).toNat + 1) * rxBlockSize.toNat =
        b.announced
      rw [less, Nat.sub_add_cancel some]
      exact sum
    · change (b.dev.priv.blocksReady - 1).toNat < 2 ^ 31
      omega
  | responds lost at_ =>
    rw [at_] at balanced
    refine { held with readerAt := ?_, accountedBlocks := ?_, balanced := ?_ }
    · exact wrapNext_position held.readerAt held.block_fits
    · exact Nat.dvd_add held.accountedBlocks (Nat.dvd_refl _)
    · change b.accounted + rxBlockSize.toNat + b.ready * rxBlockSize.toNat = b.announced
      simp only [Balanced, Nat.add_mul, Nat.one_mul] at balanced
      omega

/-- Every event keeps the books, as long as no tick overflows a counter. -/
theorem Books.observe {b : RxBench} (held : Books rxBlockSize b) (e : RxEvent)
    (fits : TickFits rxBlockSize b e) : Books rxBlockSize (observe rxBlockSize b e) := by
  cases e with
  | hardware bytes => exact held.advance bytes
  | tick => exact held.tick fits
  | reader => exact held.read held.reader_moves

/-! ## The books in the driver's own words -/

/-- No call is in progress past its wait. -/
def ReadPc.settled : ReadPc → Bool
  | .outside => true
  | .waiting _ => true
  | _ => false

/-- The driver's offsets are aligned and inside the ring, its count is not
negative, and between calls the three agree modulo the ring. Until the hardware
moves on after a tick, less than a block is unannounced. -/
structure Consistent (rxBlockSize : BitVec 32) (b : RxBench) : Prop where
  readAligned : rxBlockSize.toNat ∣ b.dev.priv.rdPtr.toNat ∧ b.dev.priv.rdPtr.toNat < b.size
  timerAligned : rxBlockSize.toNat ∣ b.dev.priv.timerWrPtr.toNat ∧
    b.dev.priv.timerWrPtr.toNat < b.size
  ready : 0 ≤ b.dev.priv.blocksReady.toInt
  congruent : b.pc.settled = true → b.dev.priv.timerWrPtr.toNat ≡
    b.dev.priv.rdPtr.toNat + b.ready * rxBlockSize.toNat [MOD b.size]
  lead : b.sinceTick = 0 → (cyclicDistance b.dev.priv.rxbufSize b.dev.priv.timerWrPtr
    b.dev.regs.rxBufWr).toNat < rxBlockSize.toNat
  inside : b.dev.priv.rdPtr.toNat + rxBlockSize.toNat ≤ b.size

/-- Between calls the count is exactly what is announced beyond the account. -/
theorem Books.settled_count {b : RxBench} (held : Books rxBlockSize b)
    (settled : b.pc.settled = true) :
    b.accounted + b.ready * rxBlockSize.toNat = b.announced := by
  have balanced := held.balanced
  cases at_ : b.pc with
  | outside => rwa [at_] at balanced
  | waiting limit =>
    rw [at_] at balanced
    exact balanced.2
  | _ => simp [at_, ReadPc.settled] at settled

theorem Books.consistent {b : RxBench} (held : Books rxBlockSize b) :
    Consistent rxBlockSize b where
  readAligned := by
    rw [held.readerAt]
    exact ⟨offset_aligned held.ring.whole held.accountedBlocks, Nat.mod_lt _ held.ring.positive⟩
  timerAligned := by
    rw [held.timerAt]
    exact ⟨offset_aligned held.ring.whole held.announcedBlocks, Nat.mod_lt _ held.ring.positive⟩
  ready := by
    rw [signed_small held.counted]
    exact Int.natCast_nonneg _
  congruent settled := by
    rw [held.timerAt, held.readerAt, ← held.settled_count settled]
    calc (b.accounted + b.ready * rxBlockSize.toNat) % b.size
        ≡ b.accounted + b.ready * rxBlockSize.toNat [MOD b.size] := Nat.mod_modEq _ _
      _ ≡ b.accounted % b.size + b.ready * rxBlockSize.toNat [MOD b.size] :=
        Nat.ModEq.add_right _ (Nat.mod_modEq _ _).symm
  lead unmoved := by
    rw [cyclicDistance_positions held.ring.positive held.behind held.timerAt held.hardwareAt]
    exact held.fresh unmoved
  inside := held.block_fits

/-- In every state of every interleaving of the hardware, the ticks and the
reader's steps the books are consistent, provided no tick overflows a counter. -/
theorem bookkeeping_consistent (d : Device) (ring : BlockRing rxBlockSize d.priv.rxbufSize)
    (events : List RxEvent)
    (fits : Follows (TickFits rxBlockSize) (observe rxBlockSize) (enabledBench d) events) :
    Consistent rxBlockSize (run (observe rxBlockSize) (enabledBench d) events) := by
  have held : Books rxBlockSize (run (observe rxBlockSize) (enabledBench d) events) :=
    invariant (fun _ e held fits => held.observe e fits) (books_enabled d ring) events fits
  exact held.consistent

end Books

/-- Ticks a burst less than a ring apart, and no reader. -/
def unread (size : Nat) (ticks : Nat) : List RxEvent :=
  (List.replicate ticks [.hardware (size - 128), .tick]).flatten

/-- With blocks of one burst in a ring of 1 GiB, each tick adds one block less than
`2 ^ 23`. After 257 ticks without a read the signed count is negative. -/
theorem unread_count_overflows :
    Follows LapRule (observe 128) (enabledBench (mapped 0x40000000)) (unread 0x40000000 257) ∧
      ¬ 0 ≤ (run (observe 128) (enabledBench (mapped 0x40000000))
        (unread 0x40000000 257)).dev.priv.blocksReady.toInt := by
  decide +kernel

/-- In a ring of three blocks the reader falls four behind, with a tick between its
overrun test and its snap. -/
def lateReader : List RxEvent :=
  [.hardware 256, .tick, .hardware 192, .tick, .reader, .reader, .reader, .hardware 64, .tick] ++
    List.replicate 8 .reader

theorem late_reader_consistent :
    Consistent 128 (run (observe 128) (enabledBench (mapped 384)) lateReader) :=
  bookkeeping_consistent (mapped 384) ⟨by decide, by decide, by decide, by decide⟩ lateReader
    (by decide +kernel)

end Zyndra.Driver
