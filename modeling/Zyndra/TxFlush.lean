import Zyndra.TxFlow

/-!
# Cleaning the cache before publishing

User space stores into the block after the last published offset, through a
cached mapping. `write` cleans the bytes from its own copy of that offset to the
new one and then shows the new one to the hardware, in this order. The hardware
reads what lies between its offset and the one shown.

Each byte of the ring carries a mark here: it is down after a store and up once
the byte has been cleaned. What a call cleans is exactly the interval it exposes.
The marks of the exposed bytes stay up as long as no store falls on a byte still
unread, and a store can fall on one only after a call has passed its wait on a
full ring.
-/

namespace Zyndra.Driver

open CyclicRing Runs

/-- What one call cleaned: the offsets it took the interval from, and the ranges. -/
structure Cleaning where
  start : BitVec 32
  stop : BitVec 32
  ranges : List DmaSync

structure FlushBench where
  dev : Device
  pc : WritePc
  /-- The call in progress has cleaned its bytes and not yet shown its offset. -/
  flushed : Bool
  /-- The byte at a ring offset has been cleaned since the last store to it. -/
  clean : Nat → Bool
  cleanings : List Cleaning

inductive FlushEvent where
  | hardware (bytes : Nat)
  | store (index : Nat)
  | writer
  deriving DecidableEq, Repr

def FlushBench.size (b : FlushBench) : Nat := b.dev.priv.txbufSize.toNat
def FlushBench.rd (b : FlushBench) : Nat := b.dev.regs.txBufRd.toNat
def FlushBench.wr (b : FlushBench) : Nat := b.dev.regs.txBufWr.toNat

/-- Ring offsets covered by a cleaned range, counted from the start of the memory. -/
def covers (phys : BitVec 32) (offset : Nat) : DmaSync → Bool
  | .forDevice addr length =>
    decide ((addr - phys).toNat ≤ offset ∧ offset < (addr - phys).toNat + length.toNat)
  | .forCpu _ _ => false

/-- The length of a cleaned range. -/
def DmaSync.bytes : DmaSync → Nat
  | .forDevice _ length => length.toNat
  | .forCpu _ length => length.toNat

/-- A range handed to the device lies in the ring. -/
def InRing (phys : BitVec 32) (size : Nat) : DmaSync → Prop
  | .forDevice addr length => (addr - phys).toNat + length.toNat ≤ size
  | .forCpu _ _ => False

/-- The first half of `publish`: clean the bytes. -/
def cleanFlush (d : Device) (wr : BitVec 32) : Device :=
  { d with synced := d.synced ++ flush d wr }

/-- The second half of `publish`: remember the offset and show it. -/
def expose (d : Device) (wr : BitVec 32) : Device :=
  { d with
    regs := { d.regs with txBufWr := wr }
    priv := { d.priv with txWrPtr := wr } }

/-- The two halves are what the call does once its wait is over. -/
theorem expose_cleanFlush (d : Device) (wr : BitVec 32) :
    expose (cleanFlush d wr) wr = publish d wr := rfl

section Bench

variable (rxBlockSize : BitVec 32)

/-- One step of the writer. The publishing step is taken in its two halves. -/
def flushWriter (b : FlushBench) : FlushBench :=
  match b.pc with
  | .publishing wr =>
    if b.flushed then { b with dev := expose b.dev wr, pc := .outside, flushed := false }
    else
      { b with
        dev := cleanFlush b.dev wr
        flushed := true
        clean := fun offset =>
          b.clean offset || (flush b.dev wr).any (covers b.dev.priv.txbufPhys offset)
        cleanings := b.cleanings ++ [⟨b.dev.priv.txWrPtr, wr, flush b.dev wr⟩] }
  | pc =>
    let taken := writeStep rxBlockSize (nextCall rxBlockSize b.dev) pc b.dev
    { b with dev := taken.device, pc := taken.pc }

def transmitFlushed (b : FlushBench) : FlushEvent → FlushBench
  | .hardware bytes =>
    { b with dev := { b.dev with regs :=
      { b.dev.regs with txBufRd := BitVec.ofNat 32 ((b.rd + bytes) % b.size) } } }
  | .store index =>
    { b with clean := fun offset =>
      if offset = b.dev.priv.txWrPtr.toNat + index then false else b.clean offset }
  | .writer => flushWriter rxBlockSize b

/-- The bench after `open`, on a device whose transmit ring has been mapped. -/
def openedFlush (d : Device) : FlushBench where
  dev := (openedBench d).dev
  pc := .outside
  flushed := false
  clean := fun _ => false
  cleanings := []

/-- The hardware reads published bytes only, and user space stores into the next
block while no call is in progress. -/
def StoreRule (b : FlushBench) : FlushEvent → Prop
  | .hardware bytes => bytes ≤ forward b.size b.rd b.wr
  | .store index => index < rxBlockSize.toNat ∧ b.pc = .outside
  | .writer => True

instance (b : FlushBench) : (e : FlushEvent) → Decidable (StoreRule rxBlockSize b e)
  | .hardware _ => inferInstanceAs (Decidable (_ ≤ _))
  | .store _ => inferInstanceAs (Decidable (_ ∧ _))
  | .writer => isTrue trivial

/-- A store falls on no byte that the hardware has still to read. -/
def StoresFree (b : FlushBench) : FlushEvent → Prop
  | .store index => ¬ Between b.size b.rd b.wr (b.dev.priv.txWrPtr.toNat + index)
  | _ => True

instance (b : FlushBench) : (e : FlushEvent) → Decidable (StoresFree b e)
  | .store _ => inferInstanceAs (Decidable (¬ _))
  | .hardware _ => isTrue trivial
  | .writer => isTrue trivial

/-- Every byte shown to the hardware and not yet read has been cleaned after the
last store to it. -/
def Coherent (b : FlushBench) : Prop :=
  ∀ offset < b.size, Between b.size b.rd b.wr offset → b.clean offset = true

/-- The bytes cleaned lie in the ring, are at most a block, and are exactly those
of the interval. -/
structure ExactFlush (phys : BitVec 32) (size : Nat) (c : Cleaning) : Prop where
  insideRing : ∀ range ∈ c.ranges, InRing phys size range
  oneBlock : (c.ranges.map DmaSync.bytes).sum ≤ rxBlockSize.toNat
  interval : ∀ offset < size, c.ranges.any (covers phys offset) = true ↔
    Between size c.start.toNat c.stop.toNat offset

/-- What the hardware may read is clean, and no call cleaned anything else than
what it exposed. -/
structure PublishedClean (b : FlushBench) : Prop where
  coherent : Coherent b
  exact : ∀ c ∈ b.cleanings, ExactFlush rxBlockSize b.dev.priv.txbufPhys b.size c

end Bench

/-! ## What one call cleans -/

section Flush

variable {rxBlockSize : BitVec 32} {d : Device} {wr : BitVec 32}

theorem covers_from {phys offset length : BitVec 32} {index : Nat} :
    covers phys index (.forDevice (phys + offset) length) = true ↔
      offset.toNat ≤ index ∧ index < offset.toNat + length.toNat := by
  have relative : phys + offset - phys = offset := by
    rw [BitVec.add_comm, BitVec.add_sub_cancel]
  rw [covers, relative, decide_eq_true_iff]

theorem covers_start {phys length : BitVec 32} {index : Nat} :
    covers phys index (.forDevice phys length) = true ↔ index < length.toNat := by
  have start : phys - phys = 0 := BitVec.sub_self _
  rw [covers, start, decide_eq_true_iff]
  simp

theorem inRing_from {phys offset length : BitVec 32} {size : Nat} :
    InRing phys size (.forDevice (phys + offset) length) ↔ offset.toNat + length.toNat ≤ size := by
  have relative : phys + offset - phys = offset := by
    rw [BitVec.add_comm, BitVec.add_sub_cancel]
  rw [InRing, relative]

theorem inRing_start {phys length : BitVec 32} {size : Nat} :
    InRing phys size (.forDevice phys length) ↔ length.toNat ≤ size := by
  have start : phys - phys = 0 := BitVec.sub_self _
  rw [InRing, start]
  simp

/-- Between two offsets of the ring that are at most a block apart, a flush cleans
exactly the bytes of the interval, cut at the end of the ring. -/
theorem flush_exact (startBelow : d.priv.txWrPtr < d.priv.txbufSize)
    (stopBelow : wr < d.priv.txbufSize)
    (near : forward d.priv.txbufSize.toNat d.priv.txWrPtr.toNat wr.toNat ≤ rxBlockSize.toNat) :
    ExactFlush rxBlockSize d.priv.txbufPhys d.priv.txbufSize.toNat
      ⟨d.priv.txWrPtr, wr, flush d wr⟩ := by
  have length := cyclicDistance_forward startBelow stopBelow
  have rest : (d.priv.txbufSize - d.priv.txWrPtr).toNat =
      d.priv.txbufSize.toNat - d.priv.txWrPtr.toNat :=
    BitVec.toNat_sub_of_le (BitVec.le_of_lt startBelow)
  have startBound : d.priv.txWrPtr.toNat < d.priv.txbufSize.toNat := startBelow
  have stopBound : wr.toNat < d.priv.txbufSize.toNat := stopBelow
  have distance := forward_cases d.priv.txbufSize.toNat d.priv.txWrPtr.toNat wr.toNat
  rcases flush_cases d wr length rest with
    ⟨nothing, issues⟩ | ⟨positive, within, chunk, chunkIs, issues⟩ |
      ⟨more, chunk, around, chunkIs, aroundIs, issues⟩
  · rw [issues]
    refine ⟨by simp, by simp, fun offset below => ?_⟩
    simp [Between, nothing]
  · rw [issues]
    refine ⟨?_, ?_, fun offset below => ?_⟩
    · simp only [List.mem_singleton, forall_eq, inRing_from, chunkIs]
      omega
    · simpa [DmaSync.bytes, chunkIs] using near
    · have reached := forward_cases d.priv.txbufSize.toNat d.priv.txWrPtr.toNat offset
      simp only [List.any_cons, List.any_nil, Bool.or_false, covers_from, chunkIs, Between]
      omega
  · rw [issues]
    refine ⟨?_, ?_, fun offset below => ?_⟩
    · simp only [List.mem_cons, List.not_mem_nil, or_false, forall_eq_or_imp, forall_eq,
        inRing_from, inRing_start, chunkIs, aroundIs]
      omega
    · simp only [List.map_cons, List.map_nil, List.sum_cons, List.sum_nil, DmaSync.bytes, chunkIs,
        aroundIs]
      omega
    · have reached := forward_cases d.priv.txbufSize.toNat d.priv.txWrPtr.toNat offset
      simp only [List.any_cons, List.any_nil, Bool.or_false, Bool.or_eq_true, covers_from,
        covers_start, chunkIs, aroundIs, Between]
      omega

end Flush

/-! ## Runs -/

/-- What holds between the steps. -/
structure Flushing (rxBlockSize : BitVec 32) (b : FlushBench) : Prop where
  block : 0 < rxBlockSize.toNat
  whole : rxBlockSize.toNat ∣ b.size
  isOpen : b.dev.priv.closing = false
  aligned : rxBlockSize.toNat ∣ b.dev.priv.txWrPtr.toNat
  writerAt : b.dev.priv.txWrPtr < b.dev.priv.txbufSize
  shownAt : b.dev.regs.txBufWr = b.dev.priv.txWrPtr
  readerAt : b.rd < b.size
  requested : ∀ wr, b.pc = .waiting wr ∨ b.pc = .publishing wr →
    wr = (nextCall rxBlockSize b.dev).wr
  flushed : b.flushed = true → ∀ offset < b.size,
    Between b.size b.wr (nextCall rxBlockSize b.dev).wr.toNat offset → b.clean offset = true
  inCall : b.flushed = true → ∃ wr, b.pc = .publishing wr

section Steps

variable {rxBlockSize : BitVec 32} {b : FlushBench}

/-- Both copies of the last offset agree, and it is an offset of the ring. -/
theorem Flushing.shown (kept : Flushing rxBlockSize b) : b.wr < b.size := by
  have same : b.wr = b.dev.priv.txWrPtr.toNat := congrArg BitVec.toNat kept.shownAt
  rw [same]
  exact kept.writerAt

/-- The next block lies in the ring, and the offset after it is an offset of the ring. -/
theorem Flushing.next (kept : Flushing rxBlockSize b) :
    b.dev.priv.txWrPtr.toNat + rxBlockSize.toNat ≤ b.size ∧
      (nextCall rxBlockSize b.dev).wr.toNat =
        (b.dev.priv.txWrPtr.toNat + rxBlockSize.toNat) % b.size ∧
      (nextCall rxBlockSize b.dev).wr < b.dev.priv.txbufSize := by
  have fits := step_fits kept.whole kept.aligned kept.writerAt
  have width : b.size < 2 ^ 32 := b.dev.priv.txbufSize.isLt
  have sum : (b.dev.priv.txWrPtr + rxBlockSize).toNat =
      b.dev.priv.txWrPtr.toNat + rxBlockSize.toNat := BitVec.toNat_add_of_lt (by omega)
  have offset : (nextCall rxBlockSize b.dev).wr.toNat =
      (b.dev.priv.txWrPtr.toNat + rxBlockSize.toNat) % b.size := by
    change (_ % b.dev.priv.txbufSize).toNat = _
    rw [BitVec.toNat_umod, sum]
    rfl
  refine ⟨fits, offset, ?_⟩
  rw [BitVec.lt_def, offset]
  exact Nat.mod_lt _ (Nat.zero_lt_of_lt kept.readerAt)

/-- A step before the call has passed its wait, or as it passes it, moves the call
and nothing else. -/
theorem Flushing.before_publishing (kept : Flushing rxBlockSize b)
    (waits : ∀ wr, b.pc ≠ .publishing wr) :
    ∃ pc, flushWriter rxBlockSize b = { b with pc := pc } ∧
      ∀ wr, pc = .waiting wr ∨ pc = .publishing wr → wr = (nextCall rxBlockSize b.dev).wr := by
  have isOpen := kept.isOpen
  have inside : ¬ b.dev.priv.txbufSize ≤ (nextCall rxBlockSize b.dev).wr :=
    BitVec.not_le.mpr kept.next.2.2
  unfold flushWriter
  cases at_ : b.pc with
  | outside =>
    have entered : writeStep rxBlockSize (nextCall rxBlockSize b.dev) .outside b.dev =
        ⟨.waiting (nextCall rxBlockSize b.dev).wr, b.dev, none⟩ := by
      simp only [writeStep, inside, if_false]
      rfl
    simp only [entered]
    refine ⟨_, rfl, ?_⟩
    rintro wr (waiting | impossible)
    · exact (WritePc.waiting.inj waiting).symm
    · cases impossible
  | waiting wr =>
    have requested := kept.requested wr (.inl at_)
    cases room : hasRoom rxBlockSize b.dev wr with
    | false =>
      simp only [writeStep, room, isOpen, Bool.or_false, Bool.false_eq_true, if_false]
      refine ⟨_, rfl, ?_⟩
      rintro _ (waiting | impossible)
      · exact (WritePc.waiting.inj waiting).symm.trans requested
      · cases impossible
    | true =>
      simp only [writeStep, room, isOpen, Bool.or_false, Bool.false_eq_true, if_true, if_false]
      refine ⟨_, rfl, ?_⟩
      rintro _ (impossible | publishing)
      · cases impossible
      · exact (WritePc.publishing.inj publishing).symm.trans requested
  | publishing wr => exact absurd at_ (waits wr)

/-- The bytes cleaned by a call are those up to the next offset, a block at most. -/
theorem Flushing.exact_flush (kept : Flushing rxBlockSize b) :
    ExactFlush rxBlockSize b.dev.priv.txbufPhys b.size
      ⟨b.dev.priv.txWrPtr, (nextCall rxBlockSize b.dev).wr,
        flush b.dev (nextCall rxBlockSize b.dev).wr⟩ := by
  obtain ⟨fits, offset, below⟩ := kept.next
  refine flush_exact kept.writerAt below ?_
  rw [offset]
  exact forward_step fits kept.block

/-- Up to the end of its wait a call leaves the ring and the marks alone. -/
theorem Flushing.enter (kept : Flushing rxBlockSize b) (waits : ∀ wr, b.pc ≠ .publishing wr)
    {pc : WritePc}
    (requested : ∀ wr, pc = .waiting wr ∨ pc = .publishing wr →
      wr = (nextCall rxBlockSize b.dev).wr) :
    Flushing rxBlockSize { b with pc := pc } := by
  have unflushed : b.flushed ≠ true := by
    intro flushed
    obtain ⟨wr, publishing⟩ := kept.inCall flushed
    exact waits wr publishing
  exact { kept with
    requested := requested
    flushed := fun flushed => absurd flushed unflushed
    inCall := fun flushed => absurd flushed unflushed }

/-- Cleaning marks the bytes about to be exposed. -/
theorem Flushing.clean (kept : Flushing rxBlockSize b) {wr : BitVec 32}
    (publishing : b.pc = .publishing wr) (unflushed : b.flushed = false) :
    Flushing rxBlockSize (flushWriter rxBlockSize b) := by
  obtain rfl := kept.requested wr (.inr publishing)
  have exact := kept.exact_flush
  simp only [flushWriter, publishing, unflushed, Bool.false_eq_true, if_false]
  refine { kept with requested := ?_, flushed := ?_, inCall := fun _ => ⟨_, rfl⟩ }
  · rintro asked (impossible | publishing')
    · cases impossible
    · exact (WritePc.publishing.inj publishing').symm
  · intro _ offset below between
    have same : b.wr = b.dev.priv.txWrPtr.toNat := congrArg BitVec.toNat kept.shownAt
    have covered := (exact.interval offset below).mpr (same ▸ between)
    exact Bool.or_eq_true_iff.mpr (.inr covered)

/-- Exposing moves both copies of the offset to the next block. -/
theorem Flushing.expose (kept : Flushing rxBlockSize b) {wr : BitVec 32}
    (publishing : b.pc = .publishing wr) (flushed : b.flushed = true) :
    Flushing rxBlockSize (flushWriter rxBlockSize b) := by
  obtain rfl := kept.requested wr (.inr publishing)
  obtain ⟨fits, offset, below⟩ := kept.next
  simp only [flushWriter, publishing, flushed, if_true]
  refine { kept with aligned := ?_, writerAt := below, shownAt := rfl, requested := ?_
                     flushed := ?_, inCall := ?_ }
  · change rxBlockSize.toNat ∣ (nextCall rxBlockSize b.dev).wr.toNat
    rw [offset]
    exact offset_aligned kept.whole (Nat.dvd_add kept.aligned (Nat.dvd_refl _))
  · rintro _ (impossible | impossible) <;> cases impossible
  · intro impossible
    cases impossible
  · intro impossible
    cases impossible

/-- Every step of the writer keeps the flow of one call. -/
theorem Flushing.writer (kept : Flushing rxBlockSize b) :
    Flushing rxBlockSize (flushWriter rxBlockSize b) := by
  cases at_ : b.pc with
  | publishing wr =>
    cases flushed : b.flushed with
    | false => exact kept.clean at_ flushed
    | true => exact kept.expose at_ flushed
  | _ =>
    have waits : ∀ wr, b.pc ≠ .publishing wr := by
      intro wr publishing
      rw [at_] at publishing
      cases publishing
    obtain ⟨pc, moved, requested⟩ := kept.before_publishing waits
    rw [moved]
    exact kept.enter waits requested

/-- The hardware's offset stays one of the ring. -/
theorem readerAt_moved (kept : Flushing rxBlockSize b) (bytes : Nat) :
    (transmitFlushed rxBlockSize b (.hardware bytes)).rd = (b.rd + bytes) % b.size ∧
      (b.rd + bytes) % b.size < b.size := by
  have below : (b.rd + bytes) % b.size < b.size :=
    Nat.mod_lt _ (Nat.zero_lt_of_lt kept.readerAt)
  have width : b.size < 2 ^ 32 := b.dev.priv.txbufSize.isLt
  refine ⟨?_, below⟩
  change (BitVec.ofNat 32 ((b.rd + bytes) % b.size)).toNat = _
  rw [BitVec.toNat_ofNat, Nat.mod_eq_of_lt (by omega)]

theorem Flushing.hardware (kept : Flushing rxBlockSize b) (bytes : Nat) :
    Flushing rxBlockSize (transmitFlushed rxBlockSize b (.hardware bytes)) := by
  obtain ⟨moved, below⟩ := readerAt_moved kept bytes
  exact { kept with readerAt := moved ▸ below }

/-- A store happens outside the calls, where nothing is half published. -/
theorem Flushing.store (kept : Flushing rxBlockSize b) {index : Nat} (outside : b.pc = .outside) :
    Flushing rxBlockSize (transmitFlushed rxBlockSize b (.store index)) := by
  have unflushed : b.flushed ≠ true := by
    intro flushed
    obtain ⟨wr, publishing⟩ := kept.inCall flushed
    rw [outside] at publishing
    cases publishing
  exact { kept with flushed := fun flushed => absurd flushed unflushed }

theorem Flushing.step (kept : Flushing rxBlockSize b) (e : FlushEvent)
    (rule : StoreRule rxBlockSize b e) :
    Flushing rxBlockSize (transmitFlushed rxBlockSize b e) := by
  cases e with
  | hardware bytes => exact kept.hardware bytes
  | store index => exact kept.store rule.2
  | writer => exact kept.writer

/-! ### The marks -/

/-- Cleaning lowers no mark, and what it records is exact. -/
theorem PublishedClean.clean (published : PublishedClean rxBlockSize b)
    (kept : Flushing rxBlockSize b) {wr : BitVec 32} (publishing : b.pc = .publishing wr)
    (unflushed : b.flushed = false) : PublishedClean rxBlockSize (flushWriter rxBlockSize b) := by
  obtain rfl := kept.requested wr (.inr publishing)
  simp only [flushWriter, publishing, unflushed, Bool.false_eq_true, if_false]
  constructor
  · intro offset below between
    exact Bool.or_eq_true_iff.mpr (.inl (published.coherent offset below between))
  · intro c member
    rcases List.mem_append.mp member with earlier | last
    · exact published.exact c earlier
    · rw [List.mem_singleton.mp last]
      exact kept.exact_flush

/-- The interval exposed has been cleaned by the same call. -/
theorem PublishedClean.expose (published : PublishedClean rxBlockSize b)
    (kept : Flushing rxBlockSize b) {wr : BitVec 32} (publishing : b.pc = .publishing wr)
    (flushed : b.flushed = true) : PublishedClean rxBlockSize (flushWriter rxBlockSize b) := by
  obtain rfl := kept.requested wr (.inr publishing)
  have below := kept.next.2.2
  simp only [flushWriter, publishing, flushed, if_true]
  refine ⟨?_, published.exact⟩
  intro offset offsetBelow between
  rcases between_extended kept.readerAt kept.shown below offsetBelow between with before | added
  · exact published.coherent offset offsetBelow before
  · exact kept.flushed flushed offset offsetBelow added

/-- Every step of the writer keeps what the hardware may read clean. -/
theorem PublishedClean.writer (published : PublishedClean rxBlockSize b)
    (kept : Flushing rxBlockSize b) : PublishedClean rxBlockSize (flushWriter rxBlockSize b) := by
  cases at_ : b.pc with
  | publishing wr =>
    cases flushed : b.flushed with
    | false => exact published.clean kept at_ flushed
    | true => exact published.expose kept at_ flushed
  | _ =>
    have waits : ∀ wr, b.pc ≠ .publishing wr := by
      intro wr publishing
      rw [at_] at publishing
      cases publishing
    obtain ⟨pc, moved, _⟩ := kept.before_publishing waits
    rw [moved]
    exact { published with }

/-- What is left to read after a read was there before. -/
theorem PublishedClean.hardware (published : PublishedClean rxBlockSize b)
    (kept : Flushing rxBlockSize b) {bytes : Nat} (within : bytes ≤ forward b.size b.rd b.wr) :
    PublishedClean rxBlockSize (transmitFlushed rxBlockSize b (.hardware bytes)) := by
  refine ⟨?_, published.exact⟩
  intro offset below between
  rw [(readerAt_moved kept bytes).1] at between
  exact published.coherent offset below
    (between_of_later kept.readerAt kept.shown below within between)

/-- A store keeps what the hardware may read clean exactly when it falls on no
unread byte. -/
theorem PublishedClean.store_iff (published : PublishedClean rxBlockSize b)
    (kept : Flushing rxBlockSize b) {index : Nat} (inBlock : index < rxBlockSize.toNat) :
    PublishedClean rxBlockSize (transmitFlushed rxBlockSize b (.store index)) ↔
      StoresFree b (.store index) := by
  have inside : b.dev.priv.txWrPtr.toNat + index < b.size := by
    have fits := kept.next.1
    omega
  constructor
  · intro stored unread
    have marked := stored.coherent _ inside unread
    simp [transmitFlushed] at marked
  · intro free
    refine ⟨?_, published.exact⟩
    intro offset below between
    have apart : offset ≠ b.dev.priv.txWrPtr.toNat + index := by
      rintro rfl
      exact free between
    simpa [transmitFlushed, apart] using published.coherent offset below between

/-- One step keeps what the hardware may read clean exactly when a store falls on
no unread byte. -/
theorem published_step_iff (published : PublishedClean rxBlockSize b)
    (kept : Flushing rxBlockSize b) (e : FlushEvent) (rule : StoreRule rxBlockSize b e) :
    PublishedClean rxBlockSize (transmitFlushed rxBlockSize b e) ↔ StoresFree b e := by
  cases e with
  | hardware bytes => exact iff_of_true (published.hardware kept rule) trivial
  | store index => exact published.store_iff kept rule.1
  | writer => exact iff_of_true (published.writer kept) trivial

end Steps

/-! ## Stores on unread bytes -/

/-- A call leaves a block free when it shows its offset, or fills the ring to the
last byte, which makes the interval look empty. A call that passed its wait on a
full ring does neither when the hardware has read less than a block since. -/
def LeavesBlock (rxBlockSize : BitVec 32) (b : FlushBench) : FlushEvent → Prop
  | .writer => b.flushed = true →
      forward b.size b.rd b.wr + 2 * rxBlockSize.toNat ≤ b.size ∨
        forward b.size b.rd b.wr + rxBlockSize.toNat = b.size
  | _ => True

/-- The block to be filled next lies outside the interval shown. -/
def NextFree (rxBlockSize : BitVec 32) (b : FlushBench) : Prop :=
  forward b.size b.rd b.wr + rxBlockSize.toNat ≤ b.size

section Cause

variable {rxBlockSize : BitVec 32} {b : FlushBench}

/-- A store into the next block falls on no unread byte while that block is free. -/
theorem storesFree_of_nextFree (kept : Flushing rxBlockSize b) (free : NextFree rxBlockSize b)
    (e : FlushEvent) (rule : StoreRule rxBlockSize b e) : StoresFree b e := by
  cases e with
  | hardware bytes => trivial
  | writer => trivial
  | store index =>
    have inBlock : index < rxBlockSize.toNat := rule.1
    have fits := kept.next.1
    have readerAt := kept.readerAt
    have shown : b.wr = b.dev.priv.txWrPtr.toNat := congrArg BitVec.toNat kept.shownAt
    have whole := forward_cases b.size b.rd b.wr
    have reached := forward_cases b.size b.rd (b.dev.priv.txWrPtr.toNat + index)
    simp only [StoresFree, Between, NextFree] at *
    omega

/-- The next block stays free when the call that shows its offset leaves a block. -/
theorem nextFree_step (kept : Flushing rxBlockSize b) (free : NextFree rxBlockSize b)
    (e : FlushEvent) (rule : StoreRule rxBlockSize b e) (leaves : LeavesBlock rxBlockSize b e) :
    NextFree rxBlockSize (transmitFlushed rxBlockSize b e) := by
  cases e with
  | store index => exact free
  | hardware bytes =>
    have moved := (readerAt_moved kept bytes).1
    have shorter := forward_later kept.readerAt kept.shown rule
    unfold NextFree at *
    change forward b.size (transmitFlushed rxBlockSize b (.hardware bytes)).rd b.wr + _ ≤ b.size
    rw [moved, shorter]
    omega
  | writer =>
    change NextFree rxBlockSize (flushWriter rxBlockSize b)
    cases at_ : b.pc with
    | publishing wr =>
      obtain rfl := kept.requested wr (.inr at_)
      cases flushed : b.flushed with
      | false =>
        simp only [flushWriter, at_, flushed, Bool.false_eq_true, if_false]
        exact free
      | true =>
        obtain ⟨_, offset, _⟩ := kept.next
        have block := kept.block
        have same : b.wr = b.dev.priv.txWrPtr.toNat := congrArg BitVec.toNat kept.shownAt
        have further : forward b.size b.rd ((b.wr + rxBlockSize.toNat) % b.size) =
            (forward b.size b.rd b.wr + rxBlockSize.toNat) % b.size :=
          forward_further kept.readerAt kept.shown
        simp only [flushWriter, at_, flushed, if_true]
        change forward b.size b.rd (nextCall rxBlockSize b.dev).wr.toNat + _ ≤ b.size
        rw [offset, ← same, further]
        rcases leaves flushed with room | full
        · rw [Nat.mod_eq_of_lt (by omega)]
          omega
        · rw [full, Nat.mod_self]
          omega
    | _ =>
      have waits : ∀ wr, b.pc ≠ .publishing wr := by
        intro wr publishing
        rw [at_] at publishing
        cases publishing
      obtain ⟨pc, moved, _⟩ := kept.before_publishing waits
      rw [moved]
      exact free

end Cause

section Session

variable {rxBlockSize : BitVec 32}

/-- A mapped ring starts with nothing shown. -/
theorem flushing_opened (d : Device) (block : 0 < rxBlockSize.toNat)
    (positive : 0 < d.priv.txbufSize.toNat) (whole : rxBlockSize.toNat ∣ d.priv.txbufSize.toNat) :
    Flushing rxBlockSize (openedFlush d) ∧ PublishedClean rxBlockSize (openedFlush d) ∧
      NextFree rxBlockSize (openedFlush d) := by
  refine ⟨?_, ⟨?_, ?_⟩, ?_⟩
  · exact
      { block := block
        whole := whole
        isOpen := rfl
        aligned := by simp [openedFlush, openedBench]
        writerAt := positive
        shownAt := rfl
        readerAt := positive
        requested := by rintro _ (impossible | impossible) <;> cases impossible
        flushed := fun impossible => by cases impossible
        inCall := fun impossible => by cases impossible }
  · intro offset _ between
    exact absurd between (Nat.not_lt_zero _)
  · intro c member
    cases member
  · have single := Nat.le_of_dvd positive whole
    change 0 + rxBlockSize.toNat ≤ d.priv.txbufSize.toNat
    omega

/-- While every call leaves a block when it shows its offset, no store falls on an
unread byte. -/
theorem stores_free_of_leaves_block (d : Device) (block : 0 < rxBlockSize.toNat)
    (positive : 0 < d.priv.txbufSize.toNat) (whole : rxBlockSize.toNat ∣ d.priv.txbufSize.toNat)
    (events : List FlushEvent)
    (follows : Follows (StoreRule rxBlockSize) (transmitFlushed rxBlockSize) (openedFlush d) events)
    (leaves : Follows (LeavesBlock rxBlockSize) (transmitFlushed rxBlockSize) (openedFlush d)
      events) :
    Follows StoresFree (transmitFlushed rxBlockSize) (openedFlush d) events := by
  have preserved : ∀ b e, Flushing rxBlockSize b ∧ NextFree rxBlockSize b →
      StoreRule rxBlockSize b e ∧ LeavesBlock rxBlockSize b e →
      Flushing rxBlockSize (transmitFlushed rxBlockSize b e) ∧
        NextFree rxBlockSize (transmitFlushed rxBlockSize b e) :=
    fun b e kept rule =>
      ⟨kept.1.step e rule.1, nextFree_step kept.1 kept.2 e rule.1 rule.2⟩
  have enough : ∀ b e, Flushing rxBlockSize b ∧ NextFree rxBlockSize b →
      StoreRule rxBlockSize b e ∧ LeavesBlock rxBlockSize b e → StoresFree b e :=
    fun b e kept rule => storesFree_of_nextFree kept.1 kept.2 e rule.1
  obtain ⟨flushing, _, free⟩ := flushing_opened d block positive whole
  exact follows_of_invariant preserved enough ⟨flushing, free⟩ events (follows.both leaves)

/-- On every transmit ring that `mmap` accepts, in every run of stores into the
next block, calls and reads of the hardware, what the hardware may read is clean
and each call cleans exactly what it exposes, if and only if no store falls on a
byte that the hardware has still to read. -/
theorem published_clean_iff (call : MmapCall) (opened mapped : Device)
    (block : 0 < rxBlockSize.toNat) (page : call.vmPgoff = 1) (positive : 0 < call.size.toNat)
    (accepted : mmap rxBlockSize call opened = .ok mapped) (events : List FlushEvent)
    (follows : Follows (StoreRule rxBlockSize) (transmitFlushed rxBlockSize) (openedFlush mapped)
      events) :
    Always (PublishedClean rxBlockSize) (transmitFlushed rxBlockSize) (openedFlush mapped) events ↔
      Follows StoresFree (transmitFlushed rxBlockSize) (openedFlush mapped) events := by
  have decides : ∀ b e, Flushing rxBlockSize b ∧ PublishedClean rxBlockSize b →
      StoreRule rxBlockSize b e →
      (PublishedClean rxBlockSize (transmitFlushed rxBlockSize b e) ↔ StoresFree b e) :=
    fun b e kept rule => published_step_iff kept.2 kept.1 e rule
  have preserved : ∀ b e, Flushing rxBlockSize b ∧ PublishedClean rxBlockSize b →
      StoreRule rxBlockSize b e → StoresFree b e →
      Flushing rxBlockSize (transmitFlushed rxBlockSize b e) ∧
        PublishedClean rxBlockSize (transmitFlushed rxBlockSize b e) :=
    fun b e kept rule free => ⟨kept.1.step e rule, (decides b e kept rule).mpr free⟩
  obtain ⟨whole, size⟩ := mmap_transmit_ring page accepted
  obtain ⟨flushing, published, _⟩ :=
    flushing_opened mapped block (size ▸ positive) (size ▸ whole)
  exact always_iff_follows decides preserved ⟨flushing, published⟩ published events follows

end Session

/-- In a ring of two blocks the second call passes its wait before anything has been
read. Half a block is read before it shows its offset, and the next store lands
half a block into the ring. -/
def storedUnread : List FlushEvent :=
  List.replicate 6 .writer ++ [.hardware 32768, .writer, .writer, .store 32768]

/-- The byte stored is published and unread, and has not been cleaned since. -/
theorem stored_unread_dirty :
    mmap 65536 twoBlockMap (reserved 0x08000000) = .ok twoBlocks ∧
      Follows (StoreRule 65536) (transmitFlushed 65536) (openedFlush twoBlocks) storedUnread ∧
      ¬ Always (PublishedClean 65536) (transmitFlushed 65536) (openedFlush twoBlocks)
        storedUnread := by
  refine ⟨rfl, by decide +kernel, ?_⟩
  intro published
  have coherent := published.last.coherent
  have dirty := coherent 32768 (by decide +kernel) (by decide +kernel)
  exact absurd dirty (by decide +kernel)

/-- One call and one whole read, then a store into the second block. -/
def storedFree : List FlushEvent :=
  List.replicate 4 .writer ++ [.hardware 65536, .store 7]

theorem published_clean_stored :
    Always (PublishedClean 65536) (transmitFlushed 65536) (openedFlush twoBlocks) storedFree :=
  (published_clean_iff twoBlockMap (reserved 0x08000000) twoBlocks (by decide) rfl (by decide) rfl
    storedFree (by decide +kernel)).mpr (by decide +kernel)

end Zyndra.Driver
