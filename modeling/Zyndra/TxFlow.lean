import Zyndra.Driver
import Zyndra.Runs

/-!
# Flow control of the transmit ring

User space fills one block and calls `write` with the offset after it. The call
waits until the distance from the hardware's offset to the new one leaves a
block free. That distance is known modulo the ring: when the ring is one block
short of full, the new offset equals the hardware's and the distance reads as
zero, so the call publishes the last free block and a full ring looks empty.

Published and consumed bytes are counted here as stream positions. The ring
keeps a block free exactly in the runs in which every call that passes its wait
in this way finds, when it publishes, that the hardware has read a block
meanwhile.
-/

namespace Zyndra.Driver

open CyclicRing Runs

structure TxBench where
  dev : Device
  pc : WritePc
  /-- Bytes shown to the hardware, and bytes it has read. -/
  published : Nat
  consumed : Nat
  /-- Where the hardware stood when the call in progress passed its wait with equal
  offsets. -/
  passedEqual : Option Nat

inductive TxEvent where
  | hardware (bytes : Nat)
  | writer
  deriving DecidableEq, Repr

/-- The call has passed its wait. -/
def WritePc.publishes : WritePc → Bool
  | .publishing _ => true
  | _ => false

def TxBench.size (b : TxBench) : Nat := b.dev.priv.txbufSize.toNat

section Bench

variable (rxBlockSize : BitVec 32)

/-- The call user space makes after filling a block: the offset one block on. -/
def nextCall (d : Device) : WriteCall :=
  ⟨4, false, (d.priv.txWrPtr + rxBlockSize) % d.priv.txbufSize⟩

/-- One step of the writer, with the positions brought up to date. -/
def transmitWriter (b : TxBench) : TxBench :=
  let taken := writeStep rxBlockSize (nextCall rxBlockSize b.dev) b.pc b.dev
  let moved := { b with dev := taken.device, pc := taken.pc }
  match b.pc with
  | .outside => moved
  | .waiting wr =>
    { moved with passedEqual := if b.dev.regs.txBufRd = wr then b.consumed else none }
  | .publishing _ =>
    { moved with published := b.published + rxBlockSize.toNat, passedEqual := none }

def transmit (b : TxBench) : TxEvent → TxBench
  | .hardware bytes =>
    { b with
      dev := { b.dev with regs :=
        { b.dev.regs with txBufRd := BitVec.ofNat 32 ((b.consumed + bytes) % b.size) } }
      consumed := b.consumed + bytes }
  | .writer => transmitWriter rxBlockSize b

/-- The bench after `open`, with both offsets at zero, on a device whose transmit
ring has been mapped. -/
def openedBench (d : Device) : TxBench where
  dev :=
    { d with
      regs := { d.regs with txBufRd := 0, txBufWr := 0 }
      priv := { d.priv with txWrPtr := 0, closing := false } }
  pc := .outside
  published := 0
  consumed := 0
  passedEqual := none

/-- The hardware reads published bytes only. -/
def ConsumeRule (b : TxBench) : TxEvent → Prop
  | .hardware bytes => b.consumed + bytes ≤ b.published
  | .writer => True

/-- A call that passed its wait with equal offsets publishes only after the hardware
has read a block. -/
def BlockRead (b : TxBench) : TxEvent → Prop
  | .writer => b.pc.publishes = true →
      ∀ position ∈ b.passedEqual, position + rxBlockSize.toNat ≤ b.consumed
  | .hardware _ => True

instance (b : TxBench) : (e : TxEvent) → Decidable (ConsumeRule b e)
  | .hardware _ => inferInstanceAs (Decidable (_ ≤ _))
  | .writer => isTrue trivial

instance (b : TxBench) : (e : TxEvent) → Decidable (BlockRead rxBlockSize b e)
  | .writer => inferInstanceAs (Decidable (_ → _))
  | .hardware _ => isTrue trivial

/-- A block of the ring is free, so the one filled next holds no unread byte, and
equal offsets stand for an empty ring. -/
structure KeepsFree (b : TxBench) : Prop where
  room : b.published - b.consumed + rxBlockSize.toNat ≤ b.size
  empty : b.dev.regs.txBufWr = b.dev.regs.txBufRd → b.published = b.consumed

/-- What every state of a run with a free block keeps. -/
structure Flow (b : TxBench) : Prop where
  block : 0 < rxBlockSize.toNat
  positive : 0 < b.size
  whole : rxBlockSize.toNat ∣ b.size
  isOpen : b.dev.priv.closing = false
  writerAt : b.dev.priv.txWrPtr.toNat = b.published % b.size
  shownAt : b.dev.regs.txBufWr.toNat = b.published % b.size
  readerAt : b.dev.regs.txBufRd.toNat = b.consumed % b.size
  ordered : b.consumed ≤ b.published
  publishedBlocks : rxBlockSize.toNat ∣ b.published
  room : b.published + rxBlockSize.toNat ≤ b.consumed + b.size
  requested : ∀ wr, b.pc = .waiting wr ∨ b.pc = .publishing wr →
    wr.toNat = (b.published + rxBlockSize.toNat) % b.size
  passed : ∀ wr, b.pc = .publishing wr → b.passedEqual = none →
    b.published + 2 * rxBlockSize.toNat ≤ b.consumed + b.size
  equal : ∀ wr position, b.pc = .publishing wr → b.passedEqual = some position →
    b.published + rxBlockSize.toNat = position + b.size

/-- What one step of the writer can do to the bench. -/
inductive WriterMoves (rxBlockSize : BitVec 32) (b : TxBench) : TxBench → Prop where
  | enters (at_ : b.pc = .outside) :
      WriterMoves rxBlockSize b { b with pc := .waiting (nextCall rxBlockSize b.dev).wr }
  | waits (wr : BitVec 32) (at_ : b.pc = .waiting wr) (passedEqual : Option Nat) :
      WriterMoves rxBlockSize b { b with passedEqual := passedEqual }
  | passes (wr : BitVec 32) (at_ : b.pc = .waiting wr)
      (room : hasRoom rxBlockSize b.dev wr = true) :
      WriterMoves rxBlockSize b
        { b with
          pc := .publishing wr
          passedEqual := if b.dev.regs.txBufRd = wr then some b.consumed else none }
  | publishes (wr : BitVec 32) (at_ : b.pc = .publishing wr) :
      WriterMoves rxBlockSize b
        { b with
          dev := publish b.dev wr
          pc := .outside
          published := b.published + rxBlockSize.toNat
          passedEqual := none }

variable {rxBlockSize}

theorem Flow.keepsFree {b : TxBench} (held : Flow rxBlockSize b) : KeepsFree rxBlockSize b where
  room := by
    have room := held.room
    have ordered := held.ordered
    omega
  empty same := by
    have room := held.room
    have ordered := held.ordered
    have block := held.block
    have offsets : b.published % b.size = b.consumed % b.size := by
      rw [← held.shownAt, ← held.readerAt, same]
    have congruent : b.consumed ≡ b.published [MOD b.size] := offsets.symm
    have apart : b.size ∣ b.published - b.consumed := (Nat.modEq_iff_dvd' ordered).mp congruent
    have none := Nat.eq_zero_of_dvd_of_lt apart (by omega)
    omega

/-- The offset asked for is that of the next block, and inside the ring. -/
theorem Flow.next_call {b : TxBench} (held : Flow rxBlockSize b) :
    (nextCall rxBlockSize b.dev).wr.toNat = (b.published + rxBlockSize.toNat) % b.size := by
  have fits : b.published % b.size + rxBlockSize.toNat ≤ b.size :=
    step_fits held.whole (offset_aligned held.whole held.publishedBlocks)
      (Nat.mod_lt _ held.positive)
  have width : b.size < 2 ^ 32 := b.dev.priv.txbufSize.isLt
  have sum : (b.dev.priv.txWrPtr + rxBlockSize).toNat =
      b.published % b.size + rxBlockSize.toNat := by
    rw [BitVec.toNat_add, held.writerAt]
    exact Nat.mod_eq_of_lt (by omega)
  change (_ % b.dev.priv.txbufSize).toNat = _
  rw [BitVec.toNat_umod, sum]
  exact Nat.mod_add_mod _ _ _

/-- Every step of the writer is one of the listed moves. -/
theorem Flow.writer_moves {b : TxBench} (held : Flow rxBlockSize b) :
    WriterMoves rxBlockSize b (transmitWriter rxBlockSize b) := by
  have isOpen := held.isOpen
  unfold transmitWriter
  cases at_ : b.pc with
  | outside =>
    have inside : ¬ b.dev.priv.txbufSize ≤ (nextCall rxBlockSize b.dev).wr := by
      rw [BitVec.le_def, held.next_call, Nat.not_le]
      exact Nat.mod_lt _ held.positive
    have entered : writeStep rxBlockSize (nextCall rxBlockSize b.dev) .outside b.dev =
        ⟨.waiting (nextCall rxBlockSize b.dev).wr, b.dev, none⟩ := by
      simp only [writeStep, inside, if_false]
      rfl
    simp only [entered]
    exact .enters at_
  | waiting wr =>
    cases room : hasRoom rxBlockSize b.dev wr with
    | false =>
      simp only [writeStep, room, isOpen, Bool.or_false, Bool.false_eq_true, if_false]
      rw [← at_]
      exact .waits wr at_ _
    | true =>
      simp only [writeStep, room, isOpen, Bool.or_false, Bool.false_eq_true, if_true, if_false]
      exact .passes wr at_ room
  | publishing wr => exact .publishes wr at_

/-- A wait passed with offsets that differ leaves a block free after the one to be
published: the distance is then the true one. -/
theorem Flow.wait_sound {b : TxBench} (held : Flow rxBlockSize b) {wr : BitVec 32}
    (at_ : b.pc = .waiting wr) (room : hasRoom rxBlockSize b.dev wr = true)
    (differs : b.dev.regs.txBufRd ≠ wr) :
    b.published + 2 * rxBlockSize.toNat ≤ b.consumed + b.size := by
  have requested := held.requested wr (Or.inl at_)
  have before := held.room
  have ordered := held.ordered
  have single : rxBlockSize.toNat ≤ b.size := Nat.le_of_dvd held.positive held.whole
  have short : b.published + rxBlockSize.toNat ≠ b.consumed + b.size := by
    intro full
    apply differs
    apply BitVec.eq_of_toNat_eq
    rw [requested, full, Nat.add_mod_right, held.readerAt]
  have distance := cyclicDistance_positions held.positive
    (show b.consumed ≤ b.published + rxBlockSize.toNat by omega) held.readerAt requested
  have test : (cyclicDistance b.dev.priv.txbufSize b.dev.regs.txBufRd wr).toNat ≤
      (b.dev.priv.txbufSize - rxBlockSize).toNat := of_decide_eq_true room
  have free : (b.dev.priv.txbufSize - rxBlockSize).toNat = b.size - rxBlockSize.toNat :=
    BitVec.toNat_sub_of_le (BitVec.le_def.mpr single)
  have true_distance : (b.published + rxBlockSize.toNat - b.consumed) % b.size =
      b.published + rxBlockSize.toNat - b.consumed := Nat.mod_eq_of_lt (by omega)
  rw [distance, free] at test
  change (b.published + rxBlockSize.toNat - b.consumed) % b.size ≤ _ at test
  omega

/-- A wait passed with equal offsets finds the ring one block short of full. -/
theorem Flow.wait_equal {b : TxBench} (held : Flow rxBlockSize b) {wr : BitVec 32}
    (at_ : b.pc = .waiting wr) (same : b.dev.regs.txBufRd = wr) :
    b.published + rxBlockSize.toNat = b.consumed + b.size := by
  have requested := held.requested wr (Or.inl at_)
  have before := held.room
  have ordered := held.ordered
  have block := held.block
  have congruent : b.consumed ≡ b.published + rxBlockSize.toNat [MOD b.size] := by
    change b.consumed % b.size = _
    rw [← held.readerAt, same, requested]
  obtain ⟨rings, apart⟩ := (Nat.modEq_iff_dvd' (by omega)).mp congruent
  have some : rings ≠ 0 := by
    rintro rfl
    omega
  have most : b.size * rings ≤ b.size * 1 := by omega
  have one : rings = 1 := by
    have bound := Nat.le_of_mul_le_mul_left most held.positive
    omega
  subst one
  omega

/-- A step of the writer that meets the condition keeps the flow. -/
theorem Flow.write {b b' : TxBench} (held : Flow rxBlockSize b)
    (moved : WriterMoves rxBlockSize b b') (read : BlockRead rxBlockSize b .writer) :
    Flow rxBlockSize b' := by
  cases moved with
  | enters at_ =>
    refine { held with requested := ?_, passed := ?_, equal := ?_ }
    · rintro wr (waiting | impossible)
      · obtain rfl := WritePc.waiting.inj waiting
        exact held.next_call
      · cases impossible
    · intro wr impossible
      cases impossible
    · intro wr position impossible
      cases impossible
  | waits wr at_ passedEqual =>
    refine { held with passed := ?_, equal := ?_ }
    · intro _ impossible
      exact absurd (at_.symm.trans impossible) (by simp)
    · intro _ _ impossible
      exact absurd (at_.symm.trans impossible) (by simp)
  | passes wr at_ room =>
    refine { held with requested := ?_, passed := ?_, equal := ?_ }
    · rintro asked (impossible | publishing)
      · cases impossible
      · obtain rfl := WritePc.publishing.inj publishing
        exact held.requested _ (Or.inl at_)
    · intro _ _ none
      by_cases same : b.dev.regs.txBufRd = wr
      · simp [same] at none
      · exact held.wait_sound at_ room same
    · intro _ position _ passed
      by_cases same : b.dev.regs.txBufRd = wr
      · simp only [same, if_true, Option.some.injEq] at passed
        subst passed
        exact held.wait_equal at_ same
      · simp [same] at passed
  | publishes wr at_ =>
    have requested := held.requested wr (Or.inr at_)
    have blockRead := read (by rw [at_]; rfl)
    refine { held with writerAt := requested, shownAt := requested, ordered := ?_
                       publishedBlocks := ?_, room := ?_, requested := ?_, passed := ?_
                       equal := ?_ }
    · exact Nat.le_trans held.ordered (Nat.le_add_right _ _)
    · exact Nat.dvd_add held.publishedBlocks (Nat.dvd_refl _)
    · change b.published + rxBlockSize.toNat + rxBlockSize.toNat ≤ b.consumed + b.size
      cases passed : b.passedEqual with
      | none =>
        have free := held.passed wr at_ passed
        omega
      | some position =>
        have full := held.equal wr position at_ passed
        have later := blockRead position passed
        omega
    · rintro _ (impossible | impossible) <;> cases impossible
    · intro _ impossible
      cases impossible
    · intro _ _ impossible
      cases impossible

/-- Reading published bytes frees space. -/
theorem Flow.consume {b : TxBench} (held : Flow rxBlockSize b) {bytes : Nat}
    (rule : b.consumed + bytes ≤ b.published) :
    Flow rxBlockSize (transmit rxBlockSize b (.hardware bytes)) := by
  have below : (b.consumed + bytes) % b.size < 2 ^ 32 :=
    Nat.lt_trans (Nat.mod_lt _ held.positive) b.dev.priv.txbufSize.isLt
  refine { held with readerAt := ?_, ordered := rule, room := ?_, passed := ?_ }
  · change (BitVec.ofNat 32 ((b.consumed + bytes) % b.size)).toNat = (b.consumed + bytes) % b.size
    rw [BitVec.toNat_ofNat, Nat.mod_eq_of_lt below]
  · have room := held.room
    change b.published + rxBlockSize.toNat ≤ b.consumed + bytes + b.size
    omega
  · intro wr at_ none
    have passed := held.passed wr at_ none
    change b.published + 2 * rxBlockSize.toNat ≤ b.consumed + bytes + b.size
    omega

theorem Flow.transmit {b : TxBench} (held : Flow rxBlockSize b) (e : TxEvent)
    (rule : ConsumeRule b e) (read : BlockRead rxBlockSize b e) :
    Flow rxBlockSize (transmit rxBlockSize b e) := by
  cases e with
  | hardware bytes => exact held.consume rule
  | writer => exact held.write held.writer_moves read

/-- From a state of the flow, one event leaves a block free only when it meets the
condition: a call that passed with equal offsets fills the ring otherwise. -/
theorem Flow.needs {b : TxBench} (held : Flow rxBlockSize b) (e : TxEvent)
    (free : KeepsFree rxBlockSize (Driver.transmit rxBlockSize b e)) :
    BlockRead rxBlockSize b e := by
  cases e with
  | hardware bytes => trivial
  | writer =>
    cases at_ : b.pc with
    | outside => simp [BlockRead, WritePc.publishes, at_]
    | waiting wr => simp [BlockRead, WritePc.publishes, at_]
    | publishing wr =>
      have ordered := held.ordered
      have room := free.room
      simp only [Driver.transmit, transmitWriter, at_, writeStep, publish, TxBench.size] at room
      intro _ position passed
      have full := held.equal wr position at_ passed
      unfold TxBench.size at full
      omega

/-- What `mmap` accepts as a transmit ring is a ring of whole blocks, of the size
asked for. -/
theorem mmap_transmit_ring {call : MmapCall} {opened mapped : Device} (page : call.vmPgoff = 1)
    (accepted : mmap rxBlockSize call opened = .ok mapped) :
    rxBlockSize.toNat ∣ call.size.toNat ∧ mapped.priv.txbufSize = call.size := by
  obtain ⟨checked, rfl⟩ := mmap_ok accepted
  obtain ⟨whole, _⟩ := mmapCheck_ok checked
  exact ⟨whole, by simp [mmapRegister, mmapSize, page]⟩

theorem flow_opened (d : Device) (block : 0 < rxBlockSize.toNat)
    (positive : 0 < d.priv.txbufSize.toNat) (whole : rxBlockSize.toNat ∣ d.priv.txbufSize.toNat) :
    Flow rxBlockSize (openedBench d) where
  block := block
  positive := positive
  whole := whole
  isOpen := rfl
  writerAt := by simp [openedBench]
  shownAt := by simp [openedBench]
  readerAt := by simp [openedBench]
  ordered := Nat.le_refl 0
  publishedBlocks := Nat.dvd_zero _
  room := by
    have single := Nat.le_of_dvd positive whole
    change 0 + rxBlockSize.toNat ≤ 0 + d.priv.txbufSize.toNat
    omega
  requested := by rintro _ (impossible | impossible) <;> cases impossible
  passed := by
    intro _ impossible
    cases impossible
  equal := by
    intro _ _ impossible
    cases impossible

/-- On every transmit ring that `mmap` accepts, and in every interleaving of the
calls with the hardware's reads, a block of the ring stays free throughout if
and only if no call that passed its wait with equal offsets publishes before the
hardware has read a block. -/
theorem block_free_iff (call : MmapCall) (opened mapped : Device) (block : 0 < rxBlockSize.toNat)
    (page : call.vmPgoff = 1) (positive : 0 < call.size.toNat)
    (accepted : mmap rxBlockSize call opened = .ok mapped) (events : List TxEvent)
    (follows : Follows ConsumeRule (transmit rxBlockSize) (openedBench mapped) events) :
    Always (KeepsFree rxBlockSize) (transmit rxBlockSize) (openedBench mapped) events ↔
      Follows (BlockRead rxBlockSize) (transmit rxBlockSize) (openedBench mapped) events := by
  have decides : ∀ b e, Flow rxBlockSize b → ConsumeRule b e →
      (KeepsFree rxBlockSize (transmit rxBlockSize b e) ↔ BlockRead rxBlockSize b e) := by
    intro b e held rule
    constructor
    · exact held.needs e
    · intro read
      exact (held.transmit e rule read).keepsFree
  have preserved : ∀ b e, Flow rxBlockSize b → ConsumeRule b e → BlockRead rxBlockSize b e →
      Flow rxBlockSize (transmit rxBlockSize b e) := by
    intro b e held rule read
    exact held.transmit e rule read
  obtain ⟨whole, size⟩ := mmap_transmit_ring page accepted
  have initial : Flow rxBlockSize (openedBench mapped) :=
    flow_opened mapped block (size ▸ positive) (size ▸ whole)
  exact always_iff_follows decides preserved initial initial.keepsFree events follows

end Bench

/-- A transmit ring of two blocks of the default size. -/
def twoBlockMap : MmapCall := ⟨131072, 1, true⟩

def twoBlocks : Device := mmapRegister twoBlockMap (mmapSize twoBlockMap (reserved 0x08000000))

/-- Two calls of three steps each, before the hardware is enabled. -/
def prefill : List TxEvent := List.replicate 6 .writer

/-- Both calls succeed: the whole ring is unread, and the offsets are equal. -/
theorem prefill_fills_ring :
    mmap 65536 twoBlockMap (reserved 0x08000000) = .ok twoBlocks ∧
      Follows ConsumeRule (transmit 65536) (openedBench twoBlocks) prefill ∧
      ¬ Always (KeepsFree 65536) (transmit 65536) (openedBench twoBlocks) prefill ∧
      (run (transmit 65536) (openedBench twoBlocks) prefill).published = 131072 ∧
      (run (transmit 65536) (openedBench twoBlocks) prefill).consumed = 0 ∧
      (run (transmit 65536) (openedBench twoBlocks) prefill).dev.regs.txBufWr =
        (run (transmit 65536) (openedBench twoBlocks) prefill).dev.regs.txBufRd := by
  have unread : (run (transmit 65536) (openedBench twoBlocks) prefill).published = 131072 ∧
      (run (transmit 65536) (openedBench twoBlocks) prefill).consumed = 0 := by decide +kernel
  refine ⟨rfl, by decide +kernel, ?_, unread.1, unread.2, by decide +kernel⟩
  intro free
  have room := free.last.room
  have size : (run (transmit 65536) (openedBench twoBlocks) prefill).size = 131072 := by
    decide +kernel
  rw [unread.1, unread.2, size] at room
  exact absurd room (by decide)

/-- A second call that finds the first block half read waits for the rest of it. -/
def interleaved : List TxEvent :=
  [.writer, .writer, .writer, .hardware 32768, .writer, .writer, .hardware 32768, .writer, .writer]

theorem block_free_interleaved :
    Always (KeepsFree 65536) (transmit 65536) (openedBench twoBlocks) interleaved :=
  (block_free_iff twoBlockMap (reserved 0x08000000) twoBlocks (by decide) rfl (by decide) rfl
    interleaved (by decide +kernel)).mpr (by decide +kernel)

end Zyndra.Driver
