import Zyndra.FailedCalls
import Zyndra.RxBench
import Zyndra.RxEnable

/-!
# The count of written bytes

Every `read` adds to `total_bytes_written` the distance from the pointer it
sampled last to the one it samples now. Consecutive samples less than a ring apart
add up to what the hardware has written, whatever the ring size, as long as the
first distance starts where the hardware does.

`open` takes the pointer of an earlier session as the first sample, and the
engine restarts at zero after ENABLE, which leaves the sample as it is. An old
pointer counts like zero in two cases: when it is zero, and when it is the size of
the ring mapped now.
-/

namespace Zyndra.Driver

open CyclicRing Runs

/-- The session once ENABLE has returned, the reader, and how far the hardware had
written when a `read` last sampled its pointer. -/
structure CountBench where
  session : SetupBench
  reader : ReadPc
  sampled : Nat

inductive CountEvent where
  | session (e : SetupEvent)
  | read (call : ReadCall)

section Bench

variable (rxBlockSize size : BitVec 32)

def countStep (b : CountBench) : CountEvent → CountBench
  | .session e => { b with session := proceed rxBlockSize size b.session e }
  | .read call =>
    { b with
      session :=
        { b.session with dev := (readStep rxBlockSize call b.reader b.session.dev).device }
      reader := (readStep rxBlockSize call b.reader b.session.dev).pc
      sampled := if b.reader.responds then b.session.written else b.sampled }

/-- The device after `open`, `mmap` of the receive ring, and ENABLE. Ticks between their
statements change the timer's pointer and the count of blocks, which are therefore
any. -/
def enabledDevice (timerWrPtr blocksReady : BitVec 32) (d : Device) : Device :=
  let enabled := enableRun (mapRequest rxBlockSize (receiveMap size) (openRun d).2)
  { enabled with priv :=
    { enabled.priv with timerWrPtr := timerWrPtr, blocksReady := blocksReady } }

def countingBench (timerWrPtr blocksReady : BitVec 32) (d : Device) : CountBench where
  session :=
    { dev := enabledDevice rxBlockSize size timerWrPtr blocksReady d
      pc := .enabling .returned
      running := false
      written := 0 }
  reader := .outside
  sampled := 0

/-- The hardware advances less than a ring between two samples, and between ENABLE and
the first. -/
def WithinRing (b : CountBench) : CountEvent → Prop
  | .session (.hardware bytes) =>
    b.session.running = true → b.session.written + bytes < b.sampled + size.toNat
  | _ => True

instance (b : CountBench) : (e : CountEvent) → Decidable (WithinRing size b e)
  | .session (.hardware _) => inferInstanceAs (Decidable (_ → _))
  | .session .setup => isTrue trivial
  | .session .tick => isTrue trivial
  | .session .engineStarts => isTrue trivial
  | .read _ => isTrue trivial

/-- The counter shows the bytes written up to the last sample. -/
def CountsWritten (b : CountBench) : Prop :=
  b.session.dev.priv.totalBytesWritten.toNat = b.sampled

instance (b : CountBench) : Decidable (CountsWritten b) := inferInstanceAs (Decidable (_ = _))

/-- A pointer left by an earlier session that counts like zero. -/
def CountsFromZero (left : BitVec 32) : Prop := left = 0 ∨ left = size

instance (left : BitVec 32) : Decidable (CountsFromZero size left) :=
  inferInstanceAs (Decidable (_ ∨ _))

/-- Once the engine has started, a `read` takes its sample only after an old pointer
that counts like zero, and before the counter overflows. -/
def SampleFits (left : BitVec 32) (b : CountBench) : CountEvent → Prop
  | .read _ =>
    b.reader.responds = true → b.session.running = true →
      CountsFromZero size left ∧ b.session.written < 2 ^ 64
  | .session _ => True

instance (left : BitVec 32) (b : CountBench) :
    (e : CountEvent) → Decidable (SampleFits size left b e)
  | .read _ => inferInstanceAs (Decidable (_ → _))
  | .session _ => isTrue trivial

/-- What every state of a run keeps. Until the engine starts, the pointer and the last
sample are those of the earlier session. After that the last sample is still the
old one, or it is a position of this session. -/
structure Counting (left : BitVec 32) (b : CountBench) : Prop where
  ring : b.session.dev.priv.rxbufSize = size
  registered : b.session.dev.regs.rxBufSize = size
  returned : b.session.pc = .enabling .returned
  enabled : rxEnabled b.session.dev.regs.ctrl = true → 0 < size.toNat
  waiting : b.session.running = false →
    b.session.written = 0 ∧ b.session.dev.regs.rxBufWr = left
  pointer : b.session.running = true →
    0 < size.toNat ∧ b.session.dev.regs.rxBufWr.toNat = b.session.written % size.toNat
  behind : b.sampled ≤ b.session.written
  within : b.session.running = true → b.session.written < b.sampled + size.toNat
  last : (b.sampled = 0 ∧ b.session.dev.priv.prevWrPtr = left) ∨
    (b.session.running = true ∧ CountsFromZero size left ∧
      b.session.dev.priv.prevWrPtr.toNat = b.sampled % size.toNat)

variable {rxBlockSize size} {left : BitVec 32} {b : CountBench}

/-! ## Samples -/

/-- The steps of a call before its last leave the counter. -/
theorem readStep_unsampled (rxBlockSize : BitVec 32) {pc : ReadPc} (call : ReadCall) (d : Device)
    (early : pc.responds = false) :
    (readStep rxBlockSize call pc d).device.priv.prevWrPtr = d.priv.prevWrPtr ∧
      (readStep rxBlockSize call pc d).device.priv.totalBytesWritten =
        d.priv.totalBytesWritten := by
  cases pc with
  | outside =>
    simp only [readStep]
    split <;> exact ⟨rfl, rfl⟩
  | waiting maxBlocks =>
    simp only [readStep]
    repeat' split
    all_goals exact ⟨rfl, rfl⟩
  | testing maxBlocks =>
    simp only [readStep]
    split <;> exact ⟨rfl, rfl⟩
  | snapping => exact ⟨rfl, rfl⟩
  | subtracting lost => exact ⟨rfl, rfl⟩
  | decrementing lost => exact ⟨rfl, rfl⟩
  | responding lost => cases early

/-- The last step samples the pointer and adds its distance from the last sample. -/
theorem readStep_sampled (rxBlockSize : BitVec 32) {pc : ReadPc} (call : ReadCall) (d : Device)
    (responds : pc.responds = true) :
    (readStep rxBlockSize call pc d).device.priv.prevWrPtr = d.regs.rxBufWr ∧
      (readStep rxBlockSize call pc d).device.priv.totalBytesWritten =
        d.priv.totalBytesWritten +
          (cyclicDistance d.priv.rxbufSize d.priv.prevWrPtr d.regs.rxBufWr).setWidth 64 := by
  obtain ⟨lost, rfl⟩ := ReadPc.responds_at responds
  simp only [readStep]
  split <;> exact ⟨rfl, rfl⟩

/-- A sample of an unmoved pointer adds nothing. -/
theorem sample_unmoved {ring left : BitVec 32} : cyclicDistance ring left left = 0 := by
  simp [cyclicDistance]

/-- Before the engine starts a `read` samples the old pointer again. -/
theorem Counting.sample_waiting (kept : Counting size left b) (still : b.session.running = false) :
    cyclicDistance b.session.dev.priv.rxbufSize b.session.dev.priv.prevWrPtr
      b.session.dev.regs.rxBufWr = 0 := by
  have pointer := (kept.waiting still).2
  rcases kept.last with ⟨_, last⟩ | ⟨running, _⟩
  · rw [pointer, last]
    exact sample_unmoved
  · exact absurd (still.symm.trans running) (by decide)

/-- The first sample after the engine has started counts what has been written when
the old pointer counts like zero, and only then. -/
theorem Counting.first_sample (kept : Counting size left b) (running : b.session.running = true)
    (none : b.sampled = 0) (last : b.session.dev.priv.prevWrPtr = left) :
    (cyclicDistance b.session.dev.priv.rxbufSize b.session.dev.priv.prevWrPtr
      b.session.dev.regs.rxBufWr).toNat = b.session.written ↔ CountsFromZero size left := by
  obtain ⟨_, pointer⟩ := kept.pointer running
  have short : b.session.written < size.toNat := by
    have within := kept.within running
    omega
  rw [Nat.mod_eq_of_lt short] at pointer
  have below : b.session.dev.regs.rxBufWr < size := BitVec.lt_def.mpr (by omega)
  rw [kept.ring, last, ← pointer, BitVec.toNat_inj]
  exact cyclicDistance_self_iff below

/-- Every later sample counts what has been written since the last one. -/
theorem Counting.next_sample (kept : Counting size left b) (running : b.session.running = true)
    (last : b.session.dev.priv.prevWrPtr.toNat = b.sampled % size.toNat) :
    (cyclicDistance b.session.dev.priv.rxbufSize b.session.dev.priv.prevWrPtr
      b.session.dev.regs.rxBufWr).toNat = b.session.written - b.sampled := by
  obtain ⟨positive, pointer⟩ := kept.pointer running
  have within := kept.within running
  rw [kept.ring, cyclicDistance_positions positive kept.behind last pointer]
  exact Nat.mod_eq_of_lt (by omega)

/-- A sample shows what has been written if and only if it meets the condition. -/
theorem Counting.sample (kept : Counting size left b) (counts : CountsWritten b) (call : ReadCall)
    (responds : b.reader.responds = true) :
    CountsWritten (countStep rxBlockSize size b (.read call)) ↔
      (b.session.running = true → CountsFromZero size left ∧ b.session.written < 2 ^ 64) := by
  obtain ⟨_, total⟩ :=
    readStep_sampled rxBlockSize call b.session.dev responds
  have sampled : (countStep rxBlockSize size b (.read call)).sampled = b.session.written :=
    if_pos responds
  have before : b.session.dev.priv.totalBytesWritten.toNat = b.sampled := counts
  unfold CountsWritten
  rw [sampled]
  change (readStep rxBlockSize call b.reader b.session.dev).device.priv.totalBytesWritten.toNat =
    b.session.written ↔ _
  have width : b.session.dev.priv.totalBytesWritten.toNat < 2 ^ 64 :=
    b.session.dev.priv.totalBytesWritten.isLt
  rw [total, BitVec.toNat_add, before, BitVec.toNat_setWidth_of_le (by decide)]
  cases running : b.session.running with
  | false =>
    obtain ⟨nothing, _⟩ := kept.waiting running
    have behind := kept.behind
    rw [kept.sample_waiting running, nothing]
    have none : b.sampled = 0 := by omega
    simp [none]
  | true =>
    rcases kept.last with ⟨none, last⟩ | ⟨_, fromZero, last⟩
    · have first := kept.first_sample running none last
      have short : b.session.written < 2 ^ 32 := by
        have within := kept.within running
        have ring := size.isLt
        omega
      rw [none, Nat.zero_add, Nat.mod_eq_of_lt (Nat.lt_trans (BitVec.isLt _) (by decide)), first]
      constructor
      · intro fromZero _
        exact ⟨fromZero, by omega⟩
      · intro fits
        exact (fits rfl).1
    · rw [kept.next_sample running last, Nat.add_sub_cancel' kept.behind]
      constructor
      · intro whole _
        exact ⟨fromZero, whole ▸ Nat.mod_lt _ (by decide)⟩
      · intro fits
        exact Nat.mod_eq_of_lt (fits rfl).2

/-! ## Steps -/

/-- A tick leaves the counter. -/
theorem timer_unsampled (d : Device) :
    (timer rxBlockSize d).priv.prevWrPtr = d.priv.prevWrPtr ∧
      (timer rxBlockSize d).priv.totalBytesWritten = d.priv.totalBytesWritten := by
  unfold timer
  split <;> exact ⟨rfl, rfl⟩

/-- The books are kept by whatever leaves the registers, the ring and the last sample. -/
theorem Counting.frame (kept : Counting size left b) {dev : Device} (reader : ReadPc)
    (regs : dev.regs = b.session.dev.regs)
    (ring : dev.priv.rxbufSize = b.session.dev.priv.rxbufSize)
    (last : dev.priv.prevWrPtr = b.session.dev.priv.prevWrPtr) :
    Counting size left { b with session := { b.session with dev := dev }, reader := reader } where
  ring := ring.trans kept.ring
  registered := regs ▸ kept.registered
  returned := kept.returned
  enabled := regs ▸ kept.enabled
  waiting := regs ▸ kept.waiting
  pointer := regs ▸ kept.pointer
  behind := kept.behind
  within := kept.within
  last := last ▸ kept.last

/-- A step of a `read` keeps the books when its sample meets the condition. -/
theorem Counting.read (kept : Counting size left b) (call : ReadCall)
    (fits : SampleFits size left b (.read call)) :
    Counting size left (countStep rxBlockSize size b (.read call)) := by
  obtain ⟨regs, ring⟩ := readStep_frame rxBlockSize call b.reader b.session.dev
  cases responds : b.reader.responds with
  | false =>
    obtain ⟨last, _⟩ :=
      readStep_unsampled rxBlockSize call b.session.dev responds
    simp only [countStep, responds, Bool.false_eq_true, if_false]
    exact kept.frame _ regs ring last
  | true =>
    obtain ⟨sample, _⟩ :=
      readStep_sampled rxBlockSize call b.session.dev responds
    simp only [countStep, responds, if_true]
    refine ⟨ring.trans kept.ring, regs ▸ kept.registered, kept.returned, regs ▸ kept.enabled,
      regs ▸ kept.waiting, regs ▸ kept.pointer, Nat.le_refl _, ?_, ?_⟩
    · intro running
      exact Nat.lt_add_of_pos_right (kept.pointer running).1
    · cases running : b.session.running with
      | false =>
        obtain ⟨nothing, still⟩ := kept.waiting running
        exact .inl ⟨nothing, sample.trans still⟩
      | true =>
        refine .inr ⟨rfl, (fits responds running).1, ?_⟩
        exact (congrArg BitVec.toNat sample).trans (kept.pointer running).2

/-- The engine starts at zero, with nothing sampled since ENABLE. -/
theorem Counting.starts (kept : Counting size left b) :
    Counting size left (countStep rxBlockSize size b (.session .engineStarts)) := by
  obtain ⟨ring, registered, returned, enabled, waiting, pointer, behind, within, last⟩ := kept
  simp only [countStep, proceed]
  split
  · rename_i starts
    obtain ⟨still, enables⟩ :
        b.session.running = false ∧ rxEnabled b.session.dev.regs.ctrl = true := by
      simpa using starts
    obtain ⟨nothing, _⟩ := waiting still
    have positive := enabled enables
    have none : b.sampled = 0 := by omega
    refine ⟨ring, registered, returned, enabled, by simp, ?_, behind, ?_, ?_⟩
    · intro _
      exact ⟨positive, by simp [nothing]⟩
    · intro _
      change b.session.written < b.sampled + size.toNat
      omega
    · rcases last with first | ⟨running, _⟩
      · exact .inl first
      · exact absurd (still.symm.trans running) (by decide)
  · exact ⟨ring, registered, returned, enabled, waiting, pointer, behind, within, last⟩

/-- The hardware writes less than a ring beyond the last sample. -/
theorem Counting.writes (kept : Counting size left b) {bytes : Nat}
    (rule : WithinRing size b (.session (.hardware bytes))) :
    Counting size left (countStep rxBlockSize size b (.session (.hardware bytes))) := by
  simp only [countStep, proceed]
  split
  · rename_i running
    have positive := (kept.pointer running).1
    have below : (b.session.written + bytes) % size.toNat < 2 ^ 32 :=
      Nat.lt_trans (Nat.mod_lt _ positive) size.isLt
    refine ⟨kept.ring, kept.registered, kept.returned, kept.enabled, by simp [running], ?_,
      Nat.le_trans kept.behind (Nat.le_add_right _ _), fun _ => rule running, kept.last⟩
    intro _
    refine ⟨positive, ?_⟩
    change (BitVec.ofNat 32
      ((b.session.written + bytes) % b.session.dev.regs.rxBufSize.toNat)).toNat = _
    rw [kept.registered, BitVec.toNat_ofNat, Nat.mod_eq_of_lt below]
  · exact kept

/-- What happens beside the reader keeps the books. -/
theorem Counting.session (kept : Counting size left b) (e : SetupEvent)
    (rule : WithinRing size b (.session e)) :
    Counting size left (countStep rxBlockSize size b (.session e)) := by
  cases e with
  | setup =>
    have same : proceed rxBlockSize size b.session .setup = b.session := by
      simp only [proceed, kept.returned, setupStep, enableStep]
      rw [← kept.returned]
    rw [countStep, same]
    exact kept
  | tick =>
    simp only [countStep, proceed]
    split
    · obtain ⟨regs, ring, _, _⟩ := timer_frame rxBlockSize b.session.dev
      exact kept.frame b.reader regs ring (timer_unsampled _).1
    · exact kept
  | engineStarts => exact kept.starts
  | hardware bytes => exact kept.writes rule

/-- The counter changes with the reader's samples only. -/
theorem session_unsampled (e : SetupEvent) (returned : b.session.pc = .enabling .returned) :
    CountsWritten (countStep rxBlockSize size b (.session e)) ↔ CountsWritten b := by
  have same : (proceed rxBlockSize size b.session e).dev.priv.totalBytesWritten =
      b.session.dev.priv.totalBytesWritten := by
    cases e with
    | setup => simp only [proceed, returned, setupStep, enableStep]
    | tick =>
      simp only [proceed]
      split
      · exact (timer_unsampled _).2
      · rfl
    | engineStarts =>
      simp only [proceed]
      split <;> rfl
    | hardware bytes =>
      simp only [proceed]
      split <;> rfl
  unfold CountsWritten countStep
  rw [same]

/-- Whether the counter still shows what has been written is decided step by step. -/
theorem Counting.decides (kept : Counting size left b) (counts : CountsWritten b)
    (e : CountEvent) :
    CountsWritten (countStep rxBlockSize size b e) ↔ SampleFits size left b e := by
  cases e with
  | session e => exact iff_of_true ((session_unsampled e kept.returned).mpr counts) trivial
  | read call =>
    cases responds : b.reader.responds with
    | false =>
      have same :=
        (readStep_unsampled rxBlockSize call b.session.dev responds).2
      refine iff_of_true ?_ (by simp [SampleFits, responds])
      unfold CountsWritten countStep
      simp only [same, responds, Bool.false_eq_true, if_false]
      exact counts
    | true =>
      rw [kept.sample counts call responds]
      simp [SampleFits, responds]

/-! ## Runs -/

/-- ENABLE leaves the receive side as `mmap` has set it. -/
theorem enabledDevice_eq (timerWrPtr blocksReady : BitVec 32) {d mapped : Device}
    (accepted : mmap rxBlockSize (receiveMap size) (openRun d).2 = .ok mapped) :
    enabledDevice rxBlockSize size timerWrPtr blocksReady d =
      { mapped with
        regs := { mapped.regs with ctrl := enableCtrl mapped }
        priv := { mapped.priv with
          rdPtr := 0
          timerWrPtr := timerWrPtr
          blocksReady := blocksReady } } := by
  have request : mapRequest rxBlockSize (receiveMap size) (openRun d).2 = mapped := by
    rw [mapRequest, accepted]
  simp [enabledDevice, request, enableRun, run, enableStep, List.replicate]

theorem counting_enabled (timerWrPtr blocksReady : BitVec 32) {d mapped : Device}
    (closed : d.priv.inUse = false)
    (accepted : mmap rxBlockSize (receiveMap size) (openRun d).2 = .ok mapped) :
    Counting size d.regs.rxBufWr (countingBench rxBlockSize size timerWrPtr blocksReady d) ∧
      CountsWritten (countingBench rxBlockSize size timerWrPtr blocksReady d) := by
  have enabled := enabledDevice_eq timerWrPtr blocksReady accepted
  obtain ⟨_, mappedIs⟩ := mmap_ok accepted
  rw [openRun_closed d closed] at mappedIs
  have ring : mapped.priv.rxbufSize = size := by rw [mappedIs]; rfl
  have register : mapped.regs.rxBufSize = size := by rw [mappedIs]; rfl
  have pointer : mapped.regs.rxBufWr = d.regs.rxBufWr := by rw [mappedIs]; rfl
  have last : mapped.priv.prevWrPtr = d.regs.rxBufWr := by rw [mappedIs]; rfl
  have total : mapped.priv.totalBytesWritten = 0 := by rw [mappedIs]; rfl
  unfold countingBench CountsWritten
  rw [enabled]
  refine ⟨⟨ring, register, rfl, ?_, fun _ => ⟨rfl, pointer⟩, by simp, Nat.le_refl _, by simp,
    .inl ⟨rfl, last⟩⟩, congrArg BitVec.toNat total⟩
  intro enables
  rw [← ring]
  exact enableCtrl_ring enables

/-- For every pointer left by an earlier session, every ring `mmap` accepts and every
run after ENABLE in which the hardware advances less than a ring between samples:
the counter shows what has been written up to the last sample throughout if and only
if no sample is taken after the engine has started with an old pointer other than
zero and the ring size, or after the counter has overflowed. -/
theorem bytes_counted_iff (rxBlockSize size timerWrPtr blocksReady : BitVec 32)
    (d mapped : Device) (closed : d.priv.inUse = false)
    (accepted : mmap rxBlockSize (receiveMap size) (openRun d).2 = .ok mapped)
    (events : List CountEvent)
    (follows : Follows (WithinRing size) (countStep rxBlockSize size)
      (countingBench rxBlockSize size timerWrPtr blocksReady d) events) :
    Always CountsWritten (countStep rxBlockSize size)
        (countingBench rxBlockSize size timerWrPtr blocksReady d) events ↔
      Follows (SampleFits size d.regs.rxBufWr) (countStep rxBlockSize size)
        (countingBench rxBlockSize size timerWrPtr blocksReady d) events := by
  obtain ⟨initial, begins⟩ := counting_enabled timerWrPtr blocksReady closed accepted
  have decides : ∀ b e, Counting size d.regs.rxBufWr b ∧ CountsWritten b → WithinRing size b e →
      (CountsWritten (countStep rxBlockSize size b e) ↔ SampleFits size d.regs.rxBufWr b e) := by
    intro b e kept _
    exact kept.1.decides kept.2 e
  have preserved : ∀ b e, Counting size d.regs.rxBufWr b ∧ CountsWritten b → WithinRing size b e →
      SampleFits size d.regs.rxBufWr b e →
      Counting size d.regs.rxBufWr (countStep rxBlockSize size b e) ∧
        CountsWritten (countStep rxBlockSize size b e) := by
    intro b e kept rule fits
    refine ⟨?_, (kept.1.decides kept.2 e).mpr fits⟩
    cases e with
    | session e => exact kept.1.session e rule
    | read call => exact kept.1.read call fits
  exact always_iff_follows decides preserved ⟨initial, begins⟩ begins events follows

end Bench

/-- One successful `read` that takes no overrun branch. -/
def oneRead : List CountEvent := List.replicate 5 (.read success)

/-- The engine starts, a block is written and announced, and read. -/
def firstBlock : List CountEvent :=
  [.session .engineStarts, .session (.hardware 65536), .session .tick] ++ oneRead

/-- With the pointer of an earlier session one block into the ring, the first block of
this session is not counted at all. -/
theorem first_block_uncounted :
    Follows (WithinRing 131072) (countStep 65536 131072)
        (countingBench 65536 131072 0 0 staleDevice) firstBlock ∧
      (run (countStep 65536 131072) (countingBench 65536 131072 0 0 staleDevice)
        firstBlock).sampled = 65536 ∧
      (run (countStep 65536 131072) (countingBench 65536 131072 0 0 staleDevice)
        firstBlock).session.dev.priv.totalBytesWritten = 0 ∧
      ¬ Always CountsWritten (countStep 65536 131072)
        (countingBench 65536 131072 0 0 staleDevice) firstBlock := by
  decide +kernel

/-- Three blocks are read, the last two of them across the end of the ring. -/
def threeBlocks : List CountEvent :=
  firstBlock ++ [.session (.hardware 131071), .session .tick] ++ oneRead ++
    [.session (.hardware 1), .session .tick] ++ oneRead

theorem three_blocks_counted :
    Always CountsWritten (countStep 65536 131072)
      (countingBench 65536 131072 0 0 (reserved 0x08000000)) threeBlocks :=
  (bytes_counted_iff 65536 131072 0 0 (reserved 0x08000000) _ rfl rfl threeBlocks
    (by decide +kernel)).mpr (by decide +kernel)

end Zyndra.Driver
