import Zyndra.Driver
import Zyndra.Runs

/-!
# The ranges handed to cache maintenance

After `open` any thread may map, enable, read and write with any arguments while
the timer ticks and the hardware moves its pointers. The receive side hands out
the block at the read offset; every offset it takes, by advancing or by snapping
back, is a whole block of a ring that `mmap` has accepted, so the block lies in
the reserved memory.

The transmit side flushes from the last published offset to the new one, and the
ring it measures them with may have been replaced since. When the last offset
lies beyond a later, smaller ring and the new one is below it, the unsigned
length wraps, and the flush stays inside exactly when the two still meet within
the reserved memory.
-/

namespace Zyndra.Driver

open CyclicRing Runs

structure RangeBench where
  dev : Device
  reader : ReadPc
  writer : WritePc
  enabler : EnablePc
  /-- The receive ring size the engine works with. -/
  latched : BitVec 32

/-- A step of one of the threads, a tick, or a step of the hardware. Each step of
a call carries its arguments. -/
inductive RangeEvent where
  | read (call : ReadCall)
  | write (call : WriteCall)
  | map (call : MmapCall)
  | enable
  | tick
  | engineStarts
  | received (wr : BitVec 32)
  | transmitted (rd : BitVec 32)

section Bench

variable (rxBlockSize : BitVec 32)

/-- ENABLE again once it has returned. -/
def enableAgain : EnablePc → EnablePc
  | .returned => .chooseCtrl
  | pc => pc

/-- A mapping takes effect when its checks pass. -/
def mapRequest (call : MmapCall) (d : Device) : Device :=
  match mmap rxBlockSize call d with
  | .ok changed => changed
  | .error _ => d

def maintain (b : RangeBench) : RangeEvent → RangeBench
  | .read call =>
    let taken := readStep rxBlockSize call b.reader b.dev
    { b with dev := taken.device, reader := taken.pc }
  | .write call =>
    let taken := writeStep rxBlockSize call b.writer b.dev
    { b with dev := taken.device, writer := taken.pc }
  | .map call => { b with dev := mapRequest rxBlockSize call b.dev }
  | .enable =>
    let taken := enableStep (enableAgain b.enabler) b.dev
    { b with dev := taken.2, enabler := taken.1 }
  | .tick => { b with dev := timer rxBlockSize b.dev }
  | .engineStarts =>
    { b with
      dev := { b.dev with regs := { b.dev.regs with rxBufWr := 0 } }
      latched := b.dev.regs.rxBufSize }
  | .received wr => { b with dev := { b.dev with regs := { b.dev.regs with rxBufWr := wr } } }
  | .transmitted rd => { b with dev := { b.dev with regs := { b.dev.regs with txBufRd := rd } } }

/-- The engine shows zero or an offset of the ring it has latched. -/
def PointerRule (b : RangeBench) : RangeEvent → Prop
  | .received wr => wr = 0 ∨ wr < b.latched
  | _ => True

instance (b : RangeBench) : (e : RangeEvent) → Decidable (PointerRule b e)
  | .received _ => inferInstanceAs (Decidable (_ ∨ _))
  | .read _ => isTrue trivial
  | .write _ => isTrue trivial
  | .map _ => isTrue trivial
  | .enable => isTrue trivial
  | .tick => isTrue trivial
  | .engineStarts => isTrue trivial
  | .transmitted _ => isTrue trivial

/-- The nine statements of `open`. -/
def openRun (d : Device) : OpenPc × Device :=
  (fun taken : OpenPc × Device => openStep taken.1 taken.2)^[9] (.guard, d)

/-- The bench when `open` has returned, with no range issued yet. -/
def afterOpen (latched : BitVec 32) (d : Device) : RangeBench where
  dev := { (openRun d).2 with synced := [] }
  reader := .outside
  writer := .outside
  enabler := .returned
  latched := latched

end Bench

/-- A range lies in the memory reserved for its ring. Addresses are counted from
the start of that memory. -/
def Inside (p : Priv) : DmaSync → Prop
  | .forCpu addr length => (addr - p.rxbufPhys).toNat + length.toNat ≤ p.rxbufSizeMax.toNat
  | .forDevice addr length => (addr - p.txbufPhys).toNat + length.toNat ≤ p.txbufSizeMax.toNat

instance (p : Priv) : (range : DmaSync) → Decidable (Inside p range)
  | .forCpu _ _ => inferInstanceAs (Decidable (_ ≤ _))
  | .forDevice _ _ => inferInstanceAs (Decidable (_ ≤ _))

/-- Every range issued so far lies in its memory. -/
def RangesInside (b : RangeBench) : Prop := ∀ range ∈ b.dev.synced, Inside b.dev.priv range

instance (b : RangeBench) : Decidable (RangesInside b) :=
  inferInstanceAs (Decidable (∀ range ∈ b.dev.synced, Inside b.dev.priv range))

/-- A call that publishes an offset below the last one, which a later ring no
longer reaches, still wraps once and ends in the reserved memory. -/
def FlushFits (b : RangeBench) : RangeEvent → Prop
  | .write _ =>
    match b.writer with
    | .publishing wr =>
      wr.toNat < b.dev.priv.txWrPtr.toNat →
        b.dev.priv.txbufSize.toNat < b.dev.priv.txWrPtr.toNat →
          b.dev.priv.txWrPtr.toNat ≤ b.dev.priv.txbufSize.toNat + wr.toNat ∧
            b.dev.priv.txbufSize.toNat + wr.toNat ≤ b.dev.priv.txbufSizeMax.toNat
    | _ => True
  | _ => True

/-! ## One flush -/

section Flush

variable {d : Device} {wr : BitVec 32}

theorem inside_forDevice {offset length : BitVec 32} :
    Inside d.priv (.forDevice (d.priv.txbufPhys + offset) length) ↔
      offset.toNat + length.toNat ≤ d.priv.txbufSizeMax.toNat := by
  have relative : d.priv.txbufPhys + offset - d.priv.txbufPhys = offset := by
    rw [BitVec.add_comm, BitVec.add_sub_cancel]
  rw [Inside, relative]

theorem inside_forCpu {offset length : BitVec 32} :
    Inside d.priv (.forCpu (d.priv.rxbufPhys + offset) length) ↔
      offset.toNat + length.toNat ≤ d.priv.rxbufSizeMax.toNat := by
  have relative : d.priv.rxbufPhys + offset - d.priv.rxbufPhys = offset := by
    rw [BitVec.add_comm, BitVec.add_sub_cancel]
  rw [Inside, relative]

/-- The start of the ring is offset zero. -/
theorem inside_forDevice_start {length : BitVec 32} :
    Inside d.priv (.forDevice d.priv.txbufPhys length) ↔
      length.toNat ≤ d.priv.txbufSizeMax.toNat := by
  have start : d.priv.txbufPhys - d.priv.txbufPhys = 0 := BitVec.sub_self _
  rw [Inside, start]
  simp

/-- The flushed ranges, read as numbers: one from the last offset, and where that
reaches the end of the ring, one from its start. -/
theorem flush_inside_iff (flushLen toEnd : Nat)
    (length : (cyclicDistance d.priv.txbufSize d.priv.txWrPtr wr).toNat = flushLen)
    (rest : (d.priv.txbufSize - d.priv.txWrPtr).toNat = toEnd) :
    (∀ range ∈ flush d wr, Inside d.priv range) ↔
      (0 < flushLen → d.priv.txWrPtr.toNat + min flushLen toEnd ≤ d.priv.txbufSizeMax.toNat ∧
        flushLen - min flushLen toEnd ≤ d.priv.txbufSizeMax.toNat) := by
  rcases flush_cases d wr length rest with
    ⟨nothing, issues⟩ | ⟨positive, within, chunk, chunkIs, issues⟩ |
      ⟨more, chunk, around, chunkIs, aroundIs, issues⟩
  · simp [issues, nothing]
  · rw [issues]
    simp only [List.mem_singleton, forall_eq, inside_forDevice, chunkIs]
    omega
  · rw [issues]
    simp only [List.mem_cons, List.not_mem_nil, or_false, forall_eq_or_imp, forall_eq,
      inside_forDevice, inside_forDevice_start, chunkIs, aroundIs]
    omega

/-- With the offsets and the ring within the reserved memory, a flush stays inside
exactly when a call that steps back over the end of a smaller ring fits. -/
theorem flush_inside (last : d.priv.txWrPtr.toNat ≤ d.priv.txbufSizeMax.toNat)
    (ring : d.priv.txbufSize.toNat ≤ d.priv.txbufSizeMax.toNat)
    (next : wr.toNat ≤ d.priv.txbufSizeMax.toNat) :
    (∀ range ∈ flush d wr, Inside d.priv range) ↔
      (wr.toNat < d.priv.txWrPtr.toNat → d.priv.txbufSize.toNat < d.priv.txWrPtr.toNat →
        d.priv.txWrPtr.toNat ≤ d.priv.txbufSize.toNat + wr.toNat ∧
          d.priv.txbufSize.toNat + wr.toNat ≤ d.priv.txbufSizeMax.toNat) := by
  have width := d.priv.txbufSizeMax.isLt
  have rest : (d.priv.txbufSize - d.priv.txWrPtr).toNat =
      (2 ^ 32 - d.priv.txWrPtr.toNat + d.priv.txbufSize.toNat) % 2 ^ 32 := BitVec.toNat_sub _ _
  by_cases ordered : d.priv.txWrPtr ≤ wr
  · have orderedNat : d.priv.txWrPtr.toNat ≤ wr.toNat := ordered
    have length : (cyclicDistance d.priv.txbufSize d.priv.txWrPtr wr).toNat =
        wr.toNat - d.priv.txWrPtr.toNat := by
      rw [cyclicDistance, if_pos ordered]
      exact BitVec.toNat_sub_of_le ordered
    rw [flush_inside_iff _ _ length rest]
    omega
  · have passed : wr.toNat < d.priv.txWrPtr.toNat := Nat.lt_of_not_le ordered
    have length : (cyclicDistance d.priv.txbufSize d.priv.txWrPtr wr).toNat =
        ((2 ^ 32 - d.priv.txWrPtr.toNat + d.priv.txbufSize.toNat) % 2 ^ 32 + wr.toNat) %
          2 ^ 32 := by
      rw [cyclicDistance, if_neg ordered, BitVec.toNat_add, rest]
    rw [flush_inside_iff _ _ length rest]
    omega

end Flush

/-! ## What a step issues -/

section Issued

variable {rxBlockSize : BitVec 32}

/-- The ranges issued by one step: the block a `read` hands out, and the flush of
a `write`. -/
def issued (rxBlockSize : BitVec 32) (b : RangeBench) : RangeEvent → List DmaSync
  | .read _ =>
    match b.reader with
    | .responding _ => [.forCpu (b.dev.priv.rxbufPhys + b.dev.priv.rdPtr) rxBlockSize]
    | _ => []
  | .write _ =>
    match b.writer with
    | .publishing wr => flush b.dev wr
    | _ => []
  | _ => []

/-- The memory reserved for each ring is fixed. -/
def SameMemory (p q : Priv) : Prop :=
  p.rxbufPhys = q.rxbufPhys ∧ p.rxbufSizeMax = q.rxbufSizeMax ∧
    p.txbufPhys = q.txbufPhys ∧ p.txbufSizeMax = q.txbufSizeMax

/-- A step of `read` issues the block it hands out and keeps the memory. -/
theorem readStep_issues (call : ReadCall) (pc : ReadPc) (d : Device) :
    SameMemory (readStep rxBlockSize call pc d).device.priv d.priv ∧
      (readStep rxBlockSize call pc d).device.synced = d.synced ++
        match pc with
        | .responding _ => [.forCpu (d.priv.rxbufPhys + d.priv.rdPtr) rxBlockSize]
        | _ => [] := by
  cases pc with
  | responding lost => cases fails : call.copyFails <;> simp [readStep, fails, SameMemory,
      invalidate, trackStats, advanceRd]
  | snapping => simp [readStep, SameMemory, snap]
  | _ => simp only [readStep, SameMemory]; grind

/-- A step of `write` issues its flush and keeps the memory. -/
theorem writeStep_issues (call : WriteCall) (pc : WritePc) (d : Device) :
    SameMemory (writeStep rxBlockSize call pc d).device.priv d.priv ∧
      (writeStep rxBlockSize call pc d).device.synced = d.synced ++
        match pc with
        | .publishing wr => flush d wr
        | _ => [] := by
  cases pc with
  | publishing wr => simp [writeStep, publish, SameMemory]
  | _ => simp only [writeStep, SameMemory]; grind

/-- The sizes of an accepted mapping, in the driver and in the register. -/
theorem mmap_accepted (call : MmapCall) (d : Device)
    (accepted : mmapCheck rxBlockSize call d = .ok ()) :
    mapRequest rxBlockSize call d = mmapRegister call (mmapSize call d) := by
  simp [mapRequest, mmap, accepted, bind, Except.bind, pure, Except.pure]

/-- A rejected mapping leaves the device. -/
theorem mmap_rejected (call : MmapCall) (d : Device) (errno : Errno)
    (rejected : mmapCheck rxBlockSize call d = .error errno) :
    mapRequest rxBlockSize call d = d := by
  simp [mapRequest, mmap, rejected, bind, Except.bind]

/-- Mappings keep the memory and issue nothing. -/
theorem mapRequest_issues (call : MmapCall) (d : Device) :
    SameMemory (mapRequest rxBlockSize call d).priv d.priv ∧
      (mapRequest rxBlockSize call d).synced = d.synced := by
  cases checked : mmapCheck rxBlockSize call d with
  | ok accepted =>
    rw [mmap_accepted call d checked]
    simp only [mmapRegister, mmapSize, SameMemory]
    grind
  | error errno =>
    rw [mmap_rejected call d errno checked]
    exact ⟨⟨rfl, rfl, rfl, rfl⟩, rfl⟩

/-- ENABLE keeps the memory and issues nothing. -/
theorem enableStep_issues (pc : EnablePc) (d : Device) :
    SameMemory (enableStep pc d).2.priv d.priv ∧ (enableStep pc d).2.synced = d.synced := by
  cases pc <;> exact ⟨⟨rfl, rfl, rfl, rfl⟩, rfl⟩

/-- A tick keeps the memory and issues nothing. -/
theorem timer_issues (d : Device) :
    SameMemory (timer rxBlockSize d).priv d.priv ∧ (timer rxBlockSize d).synced = d.synced := by
  unfold timer
  split <;> exact ⟨⟨rfl, rfl, rfl, rfl⟩, rfl⟩

/-- Every step keeps the memory, and appends what it issues. -/
theorem maintain_issues (b : RangeBench) (e : RangeEvent) :
    SameMemory (maintain rxBlockSize b e).dev.priv b.dev.priv ∧
      (maintain rxBlockSize b e).dev.synced = b.dev.synced ++ issued rxBlockSize b e := by
  cases e with
  | read call => exact readStep_issues call b.reader b.dev
  | write call => exact writeStep_issues call b.writer b.dev
  | map call => simpa [maintain, issued] using mapRequest_issues call b.dev
  | enable => simpa [maintain, issued] using enableStep_issues (enableAgain b.enabler) b.dev
  | tick => simpa [maintain, issued] using timer_issues b.dev
  | _ => simp [maintain, issued, SameMemory]

/-- Whether a range lies inside depends on the memory alone. -/
theorem inside_congr {p q : Priv} (same : SameMemory p q) (range : DmaSync) :
    Inside p range ↔ Inside q range := by
  obtain ⟨rxPhys, rxMax, txPhys, txMax⟩ := same
  cases range <;> simp only [Inside, rxPhys, rxMax, txPhys, txMax]

/-- All ranges lie inside after a step exactly when they did before and the step
issues none outside. -/
theorem ranges_step (b : RangeBench) (e : RangeEvent) :
    RangesInside (maintain rxBlockSize b e) ↔
      RangesInside b ∧ ∀ range ∈ issued rxBlockSize b e, Inside b.dev.priv range := by
  have issues : SameMemory (maintain rxBlockSize b e).dev.priv b.dev.priv ∧
      (maintain rxBlockSize b e).dev.synced = b.dev.synced ++ issued rxBlockSize b e :=
    maintain_issues b e
  obtain ⟨same, appended⟩ := issues
  unfold RangesInside
  rw [appended]
  simp only [List.mem_append, or_imp, forall_and, inside_congr same]

end Issued

/-! ## Offsets within the reserved memory -/

/-- A ring size that `mmap` accepts for the receive ring. -/
def Accepts (rxBlockSize max size : BitVec 32) : Prop :=
  rxBlockSize.toNat ∣ size.toNat ∧ size.toNat ≤ max.toNat

/-- The offset of a block that lies in the memory, when that holds a block at all. -/
def HoldsBlock (rxBlockSize max offset : BitVec 32) : Prop :=
  rxBlockSize.toNat ∣ offset.toNat ∧
    (rxBlockSize.toNat ≤ max.toNat → offset.toNat + rxBlockSize.toNat ≤ max.toNat)

/-- The `read` in progress has not passed its wait. -/
def ReadPc.idle : ReadPc → Bool
  | .outside => true
  | .waiting _ => true
  | _ => false

/-- The offset a `write` in progress was called with. -/
def WritePc.requested : WritePc → Option (BitVec 32)
  | .outside => none
  | .waiting wr => some wr
  | .publishing wr => some wr

/-- What holds between the steps. A memory smaller than a block accepts only
empty rings, and then no `read` ever passes its wait. -/
structure Bounded (rxBlockSize : BitVec 32) (b : RangeBench) : Prop where
  rxRing : Accepts rxBlockSize b.dev.priv.rxbufSizeMax b.dev.priv.rxbufSize
  rxRegister : Accepts rxBlockSize b.dev.priv.rxbufSizeMax b.dev.regs.rxBufSize
  latched : Accepts rxBlockSize b.dev.priv.rxbufSizeMax b.latched
  pointer : b.dev.regs.rxBufWr = 0 ∨ b.dev.regs.rxBufWr < b.latched
  readAt : HoldsBlock rxBlockSize b.dev.priv.rxbufSizeMax b.dev.priv.rdPtr
  tiny : b.dev.priv.rxbufSizeMax.toNat < rxBlockSize.toNat →
    b.dev.priv.blocksReady = 0 ∧ b.reader.idle = true
  txRing : b.dev.priv.txbufSize.toNat ≤ b.dev.priv.txbufSizeMax.toNat
  publishedAt : b.dev.priv.txWrPtr.toNat ≤ b.dev.priv.txbufSizeMax.toNat
  requestedAt : ∀ wr, b.writer.requested = some wr → wr.toNat ≤ b.dev.priv.txbufSizeMax.toNat

section Blocks

variable {rxBlockSize max size offset : BitVec 32}

/-- A whole block below the end of an accepted ring lies in the memory. -/
theorem holdsBlock_of_below {ring : BitVec 32} (accepts : Accepts rxBlockSize max ring)
    (aligned : rxBlockSize.toNat ∣ offset.toNat) (below : offset.toNat < ring.toNat) :
    HoldsBlock rxBlockSize max offset := by
  refine ⟨aligned, fun _ => ?_⟩
  have fits := step_fits accepts.1 aligned below
  have limit := accepts.2
  omega

/-- Offset zero holds a block. -/
theorem holdsBlock_zero : HoldsBlock rxBlockSize max 0 := by
  refine ⟨by simp, fun room => ?_⟩
  simpa using room

/-- The next offset holds a block: it stays below the ring, or it is zero. -/
theorem holdsBlock_next (accepts : Accepts rxBlockSize max size)
    (room : rxBlockSize.toNat ≤ max.toNat) (held : HoldsBlock rxBlockSize max offset) :
    HoldsBlock rxBlockSize max (wrapNext size offset rxBlockSize) := by
  unfold wrapNext
  split
  · exact holdsBlock_zero
  · rename_i short
    have width := max.isLt
    have sum : (offset + rxBlockSize).toNat = offset.toNat + rxBlockSize.toNat :=
      BitVec.toNat_add_of_lt (by have fits := held.2 room; omega)
    have below : (offset + rxBlockSize).toNat < size.toNat := Nat.lt_of_not_le short
    exact holdsBlock_of_below accepts (sum ▸ Nat.dvd_add held.1 (dvd_refl _)) below

/-- Rounding an offset below an accepted ring down to whole blocks gives the
offset of a block. -/
theorem holdsBlock_floor {ring value : BitVec 32} (accepts : Accepts rxBlockSize max ring)
    (below : value.toNat < ring.toNat) :
    HoldsBlock rxBlockSize max (value / rxBlockSize * rxBlockSize) := by
  have floor := floor_toNat value rxBlockSize
  refine holdsBlock_of_below accepts (floor ▸ Nat.dvd_mul_left _ _) ?_
  have down := Nat.div_mul_le_self value.toNat rxBlockSize.toNat
  omega

end Blocks

/-- The snap target holds a block. Half a ring back from the hardware, it lies
below the ring the engine works with; wrapped, it lies below the driver's. -/
theorem newRd_holdsBlock {rxBlockSize : BitVec 32} {b : RangeBench}
    (kept : Bounded rxBlockSize b) :
    HoldsBlock rxBlockSize b.dev.priv.rxbufSizeMax (newRd rxBlockSize b.dev) := by
  unfold newRd cyclicDistance
  have half : (b.dev.priv.rxbufSize / 2).toNat = b.dev.priv.rxbufSize.toNat / 2 :=
    BitVec.toNat_udiv
  split
  · rename_i ordered
    have back := BitVec.toNat_sub_of_le ordered
    rcases kept.pointer with zero | below
    · have nothing : b.dev.regs.rxBufWr - b.dev.priv.rxbufSize / 2 = 0 := by
        apply BitVec.eq_of_toNat_eq
        rw [back, zero]
        simp
      rw [nothing]
      simpa using holdsBlock_zero
    · have belowNat : b.dev.regs.rxBufWr.toNat < b.latched.toNat := below
      exact holdsBlock_floor kept.latched (by omega)
  · rename_i passed
    have passedNat : b.dev.regs.rxBufWr.toNat < (b.dev.priv.rxbufSize / 2).toNat :=
      Nat.lt_of_not_le passed
    have width := b.dev.priv.rxbufSize.isLt
    have rest : (b.dev.priv.rxbufSize - b.dev.priv.rxbufSize / 2).toNat =
        b.dev.priv.rxbufSize.toNat - (b.dev.priv.rxbufSize / 2).toNat :=
      BitVec.toNat_sub_of_le (by rw [BitVec.le_def, half]; omega)
    have wrapped : (b.dev.priv.rxbufSize - b.dev.priv.rxbufSize / 2 + b.dev.regs.rxBufWr).toNat =
        b.dev.priv.rxbufSize.toNat - (b.dev.priv.rxbufSize / 2).toNat +
          b.dev.regs.rxBufWr.toNat := by
      rw [BitVec.toNat_add_of_lt (by omega), rest]
    exact holdsBlock_floor kept.rxRing (by omega)

section Steps

variable {rxBlockSize : BitVec 32} {b : RangeBench}

/-- A `read` past its wait runs only where the memory holds a block. -/
theorem Bounded.room (kept : Bounded rxBlockSize b) (busy : b.reader.idle = false) :
    rxBlockSize.toNat ≤ b.dev.priv.rxbufSizeMax.toNat := by
  by_contra small
  have idle := (kept.tiny (Nat.lt_of_not_le small)).2
  exact Bool.false_ne_true (busy.symm.trans idle)

/-- Before the end of its wait a `read` changes nothing, and it stays there while no
block is ready. -/
theorem readStep_idle (rxBlockSize : BitVec 32) {pc : ReadPc} (call : ReadCall) (d : Device)
    (idle : pc.idle = true) :
    (readStep rxBlockSize call pc d).device = d ∧
      (d.priv.blocksReady = 0 → (readStep rxBlockSize call pc d).pc.idle = true) := by
  cases pc with
  | outside =>
    simp only [readStep]
    split <;> exact ⟨rfl, fun _ => rfl⟩
  | waiting maxBlocks =>
    simp only [readStep]
    split_ifs with ready closing
    · exact ⟨rfl, fun _ => rfl⟩
    · refine ⟨rfl, fun none => ?_⟩
      simp [none, closing] at ready
    · exact ⟨rfl, fun _ => rfl⟩
  | _ => cases idle

/-- A step of `read` moves the offset to the snap target or to the next block. -/
theorem bounded_read (kept : Bounded rxBlockSize b) (call : ReadCall) :
    Bounded rxBlockSize (maintain rxBlockSize b (.read call)) := by
  rw [maintain]
  cases idle : b.reader.idle with
  | true =>
    obtain ⟨same, stays⟩ := readStep_idle rxBlockSize call b.dev idle
    rw [same]
    exact { kept with
      tiny := fun small => ⟨(kept.tiny small).1, stays (kept.tiny small).1⟩ }
  | false =>
    have room := kept.room idle
    have target := newRd_holdsBlock kept
    obtain ⟨_, _, _, _, _, _, _, _, same, moves⟩ :=
      readStep_device rxBlockSize call b.reader b.dev
    rw [same]
    refine { kept with
      readAt := ?_
      tiny := fun small => absurd room (Nat.not_le_of_lt small) }
    rcases moves with rfl | rfl | rfl
    · exact kept.readAt
    · exact target
    · exact holdsBlock_next kept.rxRing room kept.readAt

/-- What a step of `write` can change; a new offset is the one it was called with. -/
theorem writeStep_device (rxBlockSize : BitVec 32) (call : WriteCall) (pc : WritePc) (d : Device) :
    ∃ register published synced,
      (writeStep rxBlockSize call pc d).device =
        { d with
          regs := { d.regs with txBufWr := register }
          priv := { d.priv with txWrPtr := published }
          synced := synced } ∧
        (published = d.priv.txWrPtr ∨ pc.requested = some published) := by
  cases pc with
  | outside =>
    simp only [writeStep]
    split_ifs <;> exact ⟨_, _, _, rfl, .inl rfl⟩
  | waiting wr =>
    simp only [writeStep]
    split_ifs <;> exact ⟨_, _, _, rfl, .inl rfl⟩
  | publishing wr => exact ⟨_, _, _, rfl, .inr rfl⟩

/-- A `write` begins with an offset below the ring and keeps it to its end. -/
theorem writeStep_requested {rxBlockSize : BitVec 32} {call : WriteCall} {pc : WritePc}
    {d : Device} {wr : BitVec 32}
    (requested : (writeStep rxBlockSize call pc d).pc.requested = some wr) :
    pc.requested = some wr ∨ wr < d.priv.txbufSize := by
  cases pc with
  | outside =>
    simp only [writeStep] at requested
    split_ifs at requested with short fails beyond
    · cases requested
    · cases requested
    · cases requested
    · obtain rfl : call.wr = wr := Option.some.inj requested
      exact .inr (BitVec.not_le.mp beyond)
  | waiting asked =>
    simp only [writeStep] at requested
    split_ifs at requested
    · cases requested
    · exact .inl requested
    · exact .inl requested
  | publishing asked => cases requested

/-- A step of `write` publishes an offset that was below the ring when the call
began. -/
theorem bounded_write (kept : Bounded rxBlockSize b) (call : WriteCall) :
    Bounded rxBlockSize (maintain rxBlockSize b (.write call)) := by
  obtain ⟨_, _, _, same, published⟩ := writeStep_device rxBlockSize call b.writer b.dev
  rw [maintain, same]
  refine { kept with publishedAt := ?_, requestedAt := ?_ }
  · rcases published with rfl | asked
    · exact kept.publishedAt
    · exact kept.requestedAt _ asked
  · intro wr requested
    rcases writeStep_requested requested with asked | below
    · exact kept.requestedAt wr asked
    · exact Nat.le_trans (Nat.le_of_lt below) kept.txRing

/-- A mapping that is accepted sets an accepted ring. -/
theorem bounded_map (kept : Bounded rxBlockSize b) (call : MmapCall) :
    Bounded rxBlockSize (maintain rxBlockSize b (.map call)) := by
  rw [maintain]
  cases checked : mmapCheck rxBlockSize call b.dev with
  | error errno =>
    rw [mmap_rejected call b.dev errno checked]
    exact kept
  | ok accepted =>
    rw [mmap_accepted call b.dev checked]
    obtain ⟨whole, ⟨page, fits⟩ | ⟨page, fits⟩⟩ := mmapCheck_ok checked
    · simp only [mmapRegister, mmapSize, if_pos page]
      exact { kept with rxRing := ⟨whole, fits⟩, rxRegister := ⟨whole, fits⟩ }
    · have transmit : ¬ call.vmPgoff = 0 := by omega
      simp only [mmapRegister, mmapSize, if_neg transmit]
      exact { kept with txRing := fits }

/-- ENABLE puts the read offset at zero. -/
theorem bounded_enable (kept : Bounded rxBlockSize b) :
    Bounded rxBlockSize (maintain rxBlockSize b .enable) := by
  rw [maintain]
  cases enableAgain b.enabler with
  | clearRd ctrl => exact { kept with readAt := holdsBlock_zero }
  | clearBlocks ctrl => exact { kept with tiny := fun small => ⟨rfl, (kept.tiny small).2⟩ }
  | _ => exact { kept with }

/-- A tick finds no block in an empty ring. -/
theorem bounded_tick (kept : Bounded rxBlockSize b) :
    Bounded rxBlockSize (maintain rxBlockSize b .tick) := by
  rw [maintain, timer]
  split_ifs with mapped
  · refine { kept with tiny := fun small => ?_ }
    have small' : b.dev.priv.rxbufSizeMax.toNat < rxBlockSize.toNat := small
    have ring := kept.rxRing
    have positive : 0 < b.dev.priv.rxbufSize.toNat := mapped.1
    have block := Nat.le_of_dvd positive ring.1
    have limit := ring.2
    omega
  · exact kept

/-- Every step the hardware's rule admits keeps the bounds. -/
theorem bounded_step (kept : Bounded rxBlockSize b) (e : RangeEvent) (rule : PointerRule b e) :
    Bounded rxBlockSize (maintain rxBlockSize b e) := by
  cases e with
  | read call => exact bounded_read kept call
  | write call => exact bounded_write kept call
  | map call => exact bounded_map kept call
  | enable => exact bounded_enable kept
  | tick => exact bounded_tick kept
  | engineStarts => exact { kept with latched := kept.rxRegister, pointer := .inl rfl }
  | received wr => exact { kept with pointer := rule }
  | transmitted rd => exact { kept with }

/-- What a step issues lies inside exactly when its flush fits. The block a `read`
hands out always does. -/
theorem issued_inside (kept : Bounded rxBlockSize b) (e : RangeEvent) :
    (∀ range ∈ issued rxBlockSize b e, Inside b.dev.priv range) ↔ FlushFits b e := by
  cases e with
  | read call =>
    refine iff_of_true ?_ trivial
    cases place : b.reader with
    | responding lost =>
      have room := kept.room (by rw [place]; rfl)
      simpa [issued, place, inside_forCpu] using kept.readAt.2 room
    | _ => simp [issued, place]
  | write call =>
    cases place : b.writer with
    | publishing wr =>
      have next := kept.requestedAt wr (by rw [place]; rfl)
      simpa [issued, FlushFits, place] using flush_inside kept.publishedAt kept.txRing next
    | _ => simp [issued, FlushFits, place]
  | _ => simp [issued, FlushFits]

end Steps

/-- `open` succeeds on a closed device. It clears both ring sizes, the offsets and
the count, and keeps the memory and the receive registers the engine shows. -/
theorem openRun_closed (d : Device) (closed : d.priv.inUse = false) :
    openRun d =
      (.returned (.ok ()),
        { d with
          regs :=
            { d.regs with
              ctrl := 0, rxBufBase := d.priv.rxbufPhys, txBufBase := d.priv.txbufPhys
              txBufWr := 0 }
          priv :=
            { d.priv with
              txbufSize := 0, txWrPtr := 0, rxbufSize := 0, rdPtr := 0, inUse := true
              closing := false, timerActive := true, blocksReady := 0
              timerWrPtr := d.regs.rxBufWr, totalBytesWritten := 0, prevWrPtr := d.regs.rxBufWr
              bufUsedPeak := 0, readCount := 0, overrunBytes := 0 } }) := by
  simp [openRun, openStep, closed]

/-- After `open` all bounds hold, when the engine comes from a ring that `mmap`
accepted. -/
theorem bounded_opened {rxBlockSize latched : BitVec 32} {d : Device}
    (closed : d.priv.inUse = false)
    (register : Accepts rxBlockSize d.priv.rxbufSizeMax d.regs.rxBufSize)
    (engine : Accepts rxBlockSize d.priv.rxbufSizeMax latched)
    (pointer : d.regs.rxBufWr = 0 ∨ d.regs.rxBufWr < latched) :
    Bounded rxBlockSize (afterOpen latched d) := by
  have empty : Accepts rxBlockSize d.priv.rxbufSizeMax 0 := ⟨by simp, by simp⟩
  rw [afterOpen, openRun_closed d closed]
  exact
    { rxRing := empty
      rxRegister := register
      latched := engine
      pointer := pointer
      readAt := holdsBlock_zero
      tiny := fun _ => ⟨rfl, rfl⟩
      txRing := by simp
      publishedAt := by simp
      requestedAt := by
        intro wr requested
        cases requested }

/-- After `open`, in every interleaving of mappings, ENABLE, reads, writes and
ticks with the hardware's pointers, every range handed to cache maintenance lies
in the memory reserved for its ring if and only if every flush that steps back
over the end of a smaller ring fits. -/
theorem ranges_inside_iff (rxBlockSize latched : BitVec 32) (d : Device)
    (closed : d.priv.inUse = false)
    (register : Accepts rxBlockSize d.priv.rxbufSizeMax d.regs.rxBufSize)
    (engine : Accepts rxBlockSize d.priv.rxbufSizeMax latched)
    (pointer : d.regs.rxBufWr = 0 ∨ d.regs.rxBufWr < latched) (events : List RangeEvent)
    (follows : Follows PointerRule (maintain rxBlockSize) (afterOpen latched d) events) :
    Always RangesInside (maintain rxBlockSize) (afterOpen latched d) events ↔
      Follows FlushFits (maintain rxBlockSize) (afterOpen latched d) events := by
  have decides : ∀ b e, Bounded rxBlockSize b ∧ RangesInside b → PointerRule b e →
      (RangesInside (maintain rxBlockSize b e) ↔ FlushFits b e) := by
    rintro b e ⟨kept, inside⟩ _
    rw [ranges_step, issued_inside kept e]
    exact and_iff_right inside
  have preserved : ∀ b e, Bounded rxBlockSize b ∧ RangesInside b → PointerRule b e →
      FlushFits b e →
      Bounded rxBlockSize (maintain rxBlockSize b e) ∧ RangesInside (maintain rxBlockSize b e) := by
    intro b e kept rule fits
    exact ⟨bounded_step kept.1 e rule, (decides b e kept rule).mpr fits⟩
  have begins : RangesInside (afterOpen latched d) := by
    intro range member
    exact absurd member List.not_mem_nil
  exact always_iff_follows decides preserved
    ⟨bounded_opened closed register engine pointer, begins⟩ begins events follows

/-- A transmit mapping of some number of default blocks. -/
def transmitMap (blocks : Nat) : MmapCall := ⟨BitVec.ofNat 32 (blocks * 65536), 1, true⟩

/-- One call of `write` that is not held up. -/
def oneWrite (wr : BitVec 32) : List RangeEvent := List.replicate 3 (.write ⟨4, false, wr⟩)

/-- Both rings are mapped and both directions enabled. A block is received and read, and
one is written. -/
def bothWays : List RangeEvent :=
  [.map ⟨131072, 0, false⟩, .map (transmitMap 2)] ++ List.replicate 7 .enable ++
    [.engineStarts, .received 65536, .tick] ++ List.replicate 5 (.read ⟨24, false⟩) ++
    oneWrite 65536

theorem ranges_inside_iff_issued :
    (run (maintain 65536) (afterOpen 0 (reserved 0x08000000)) bothWays).dev.synced =
        [.forCpu 0x10000000 65536, .forDevice 0x18000000 65536] ∧
      (Always RangesInside (maintain 65536) (afterOpen 0 (reserved 0x08000000)) bothWays ↔
        Follows FlushFits (maintain 65536) (afterOpen 0 (reserved 0x08000000)) bothWays) :=
  ⟨by decide, ranges_inside_iff 65536 0 (reserved 0x08000000) rfl ⟨by decide, by decide⟩
    ⟨by decide, by decide⟩ (.inl rfl) bothWays (by decide)⟩

/-- Four blocks are mapped and three published, then one block is mapped and
offset zero published. -/
def remapped : List RangeEvent :=
  .map (transmitMap 4) :: oneWrite 65536 ++ oneWrite 131072 ++ oneWrite 196608 ++
    .map (transmitMap 1) :: oneWrite 0

/-- The flush of the last call starts at the old offset, beyond the new ring, and
its length has wrapped to two blocks less than the whole address space. -/
theorem remapped_flush_outside :
    (run (maintain 65536) (afterOpen 0 (reserved 0x08000000)) remapped).dev.synced.getLast? =
        some (.forDevice (0x18000000 + 196608) 0xfffe0000) ∧
      ¬ RangesInside (run (maintain 65536) (afterOpen 0 (reserved 0x08000000)) remapped) := by
  decide

end Zyndra.Driver
