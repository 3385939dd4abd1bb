import Zyndra.CacheRanges
import Zyndra.SessionStart
import Zyndra.WholeSteps

/-!
# The transmit ring and its prefill

`tx_task` asks for a ring of the requested depth, rounded up to whole blocks and
limited to the reserved memory, all in 32-bit words. `tx_tcp_session` then
publishes blocks of zeros before it enables the hardware, round the ring it has
mapped, and the receiver throws away as many blocks.

While the hardware does not read, its offset stays zero and every offset asked
for passes the driver's test, so nothing stops the loop when it comes round: the
ring then shows what is left of the prefill modulo its size. The two sides are
aligned exactly when the prefill is shorter than the ring.
-/

namespace Zyndra.Ad9361Txrx

open CyclicRing WholeSteps Runs
open Driver (Device MmapCall ReadCall ReadPc Regs RxRead WritePc hasRoom mapRequest mmap mmapCheck
  mmapRegister mmapSize mmap_accepted mmap_ok mmap_rejected openRun openRun_closed publish readStep
  readStep_frame reserved timer timer_frame writeStep)

/-! ## The ring of `tx_task` -/

/-- The ring size `tx_task` maps. The depth is counted in samples, as the cast of the
command line's value leaves it; without one the whole memory is used. -/
def effectiveSize (blockSize txBufSize : BitVec 32) : Option (BitVec 32) → BitVec 32
  | none => txBufSize
  | some samples =>
    let effective := wordRoundUp blockSize (samples * sampleSize)
    if txBufSize < effective then txBufSize else effective

/-- Bytes of the requested depth. -/
def depthBytes (samples : BitVec 32) : Nat := 4 * samples.toNat

/-- The ring is the requested depth in whole blocks, or all of the memory. -/
structure RingExact (samples blockSize txBufSize : BitVec 32) : Prop where
  positive : 0 < (effectiveSize blockSize txBufSize (some samples)).toNat
  whole : blockSize.toNat ∣ (effectiveSize blockSize txBufSize (some samples)).toNat
  exact : (effectiveSize blockSize txBufSize (some samples)).toNat =
    min txBufSize.toNat (roundUp blockSize.toNat (depthBytes samples))

/-- The sum that rounds the depth up does not overflow, or leaves at least the memory. -/
def RingFits (samples blockSize txBufSize : BitVec 32) : Prop :=
  depthBytes samples + blockSize.toNat - 1 < 2 ^ 32 ∨
    txBufSize.toNat ≤ (depthBytes samples + blockSize.toNat - 1) % 2 ^ 32

section Ring

variable {samples blockSize txBufSize : BitVec 32}

/-- The depth in bytes is kept modulo the machine word. -/
theorem depth_truncated (samples : BitVec 32) :
    samples * sampleSize = BitVec.ofNat 32 (depthBytes samples) := by
  apply BitVec.eq_of_toNat_eq
  rw [BitVec.toNat_mul, BitVec.toNat_ofNat, depthBytes, Nat.mul_comm]
  rfl

/-- The clamp takes the smaller of the two sizes. -/
theorem effectiveSize_toNat (samples blockSize txBufSize : BitVec 32) :
    (effectiveSize blockSize txBufSize (some samples)).toNat =
      min txBufSize.toNat (wordRoundUp blockSize (samples * sampleSize)).toNat := by
  simp only [effectiveSize]
  split
  · rename_i clamped
    exact (Nat.min_eq_left (Nat.le_of_lt clamped)).symm
  · rename_i short
    exact (Nat.min_eq_right (Nat.le_of_not_lt short)).symm

/-- `tx_task` computes the exact ring precisely when its sum fits. -/
theorem ring_exact_iff (some_ : 0 < samples) (memory : 0 < txBufSize)
    (whole : blockSize.toNat ∣ txBufSize.toNat) :
    RingExact samples blockSize txBufSize ↔ RingFits samples blockSize txBufSize := by
  have block : 0 < blockSize := Nat.pos_of_dvd_of_pos whole memory
  have clamped := clamp_exact_iff block whole (depth_truncated samples)
  rw [← effectiveSize_toNat] at clamped
  constructor
  · intro exact
    exact clamped.mp exact.exact
  · intro fits
    have exact := clamped.mpr fits
    have depth : 0 < depthBytes samples := Nat.mul_pos (by decide) some_
    refine ⟨?_, ?_, exact⟩
    · rw [exact]
      exact Nat.lt_min.mpr ⟨memory, (roundUp_pos_iff block).mpr depth⟩
    · rw [exact]
      rcases Nat.le_total txBufSize.toNat (roundUp blockSize.toNat (depthBytes samples)) with
        limited | within
      · rwa [Nat.min_eq_left limited]
      · rw [Nat.min_eq_right within]
        exact dvd_roundUp _ _

end Ring

/-! ## The receiver's discarded blocks -/

/-- The blocks `rx_tcp_session` has taken: a loop counter, the blocks dropped and
those sent on. -/
structure RxSession where
  i : Nat
  dropped : List RxRead
  forwarded : List RxRead

/-- One block taken by `rx_get_block`. -/
def rxSessionStep (blockSize : BitVec 32) (s : RxSession) (r : RxRead) : RxSession :=
  if s.i < prefillBlocks blockSize then { s with i := s.i + 1, dropped := s.dropped ++ [r] }
  else { s with forwarded := s.forwarded ++ [r] }

def rxSession (blockSize : BitVec 32) (blocks : List RxRead) : RxSession :=
  run (rxSessionStep blockSize) ⟨0, [], []⟩ blocks

/-- The session drops as many blocks as there are in the prefill and sends on the rest.

Induct along the blocks from the last one. While the counter is below the number of
blocks to drop it is the number of blocks taken. -/
theorem rxSession_drops (blockSize : BitVec 32) (blocks : List RxRead) :
    (rxSession blockSize blocks).i = min (prefillBlocks blockSize) blocks.length ∧
      (rxSession blockSize blocks).dropped = blocks.take (prefillBlocks blockSize) ∧
      (rxSession blockSize blocks).forwarded = blocks.drop (prefillBlocks blockSize) := by
  induction blocks using List.reverseRecOn with
  | nil => simp [rxSession, run]
  | append_singleton blocks r inductionHypothesis =>
    obtain ⟨counter, dropped, forwarded⟩ := inductionHypothesis
    have last : rxSession blockSize (blocks ++ [r]) =
        rxSessionStep blockSize (rxSession blockSize blocks) r := by
      simp [rxSession, run]
    rw [last, rxSessionStep]
    by_cases dropping : blocks.length < prefillBlocks blockSize
    · have below : (rxSession blockSize blocks).i < prefillBlocks blockSize := by omega
      have all : (blocks ++ [r]).length ≤ prefillBlocks blockSize := by
        rw [List.length_append]
        exact dropping
      rw [if_pos below]
      refine ⟨?_, ?_, ?_⟩
      · simp only [List.length_append, List.length_singleton]
        omega
      · rw [List.take_of_length_le all]
        simp only [dropped, List.take_of_length_le (Nat.le_of_lt dropping)]
      · rw [List.drop_of_length_le all]
        simp only [forwarded, List.drop_of_length_le (Nat.le_of_lt dropping)]
    · have reached : prefillBlocks blockSize ≤ blocks.length := Nat.le_of_not_lt dropping
      have passed : ¬ (rxSession blockSize blocks).i < prefillBlocks blockSize := by omega
      rw [if_neg passed]
      refine ⟨?_, ?_, ?_⟩
      · simp only [List.length_append, List.length_singleton]
        omega
      · simp only [dropped, List.take_append_of_le_length reached]
      · simp only [forwarded, List.drop_append_of_le_length reached]

/-! ## The transmitter's prefill -/

/-- Where the transmit thread stands on its way to `driver_enable`, with the local
variables of its loop. Waiting for a client and for the receiver only delays it. -/
inductive PrefillPc where
  | mapping
  | looping (i : Nat) (wr : BitVec 32)
  | putting (i : Nat) (wr : BitVec 32) (call : WritePc)
  | enabling
  | failed

structure PrefillBench where
  dev : Device
  pc : PrefillPc
  reader : ReadPc

/-- A step of the transmit thread, or of what may run beside it before the hardware
is enabled: the timer, the receive pointer, the receive thread, and `release`. -/
inductive PrefillEvent where
  | transmitter
  | tick
  | received (rxBufWr : BitVec 32)
  | reader (call : ReadCall)
  | mapReceive (size : BitVec 32)
  | closing

section Prefill

variable (blockSize mapSize vmaSize : BitVec 32)

/-- One step of `tx_task` and `tx_tcp_session`. The ring has `mapSize` bytes, and the
kernel rounds a mapping up to `vmaSize`, whole pages. -/
def txSessionStep (pc : PrefillPc) (d : Device) : PrefillPc × Device :=
  match pc with
  | .mapping =>
    match mmap blockSize ⟨vmaSize, 1, true⟩ d with
    | .ok mapped => (.looping 0 0, mapped)
    | .error _ => (.failed, d)
  | .looping i wr =>
    if i < prefillBlocks blockSize then (.putting i ((wr + blockSize) % mapSize) .outside, d)
    else (.enabling, d)
  | .putting i wr call =>
    let taken := writeStep blockSize ⟨4, false, wr⟩ call d
    match taken.result with
    | none => (.putting i wr taken.pc, taken.device)
    | some (.ok ()) => (.looping (i + 1) wr, taken.device)
    | some (.error _) => (.failed, taken.device)
  | .enabling => (.enabling, d)
  | .failed => (.failed, d)

def prefillStep (b : PrefillBench) : PrefillEvent → PrefillBench
  | .transmitter =>
    { b with
      pc := (txSessionStep blockSize mapSize vmaSize b.pc b.dev).1
      dev := (txSessionStep blockSize mapSize vmaSize b.pc b.dev).2 }
  | .tick => { b with dev := timer blockSize b.dev }
  | .received rxBufWr =>
    { b with dev := { b.dev with regs := { b.dev.regs with rxBufWr := rxBufWr } } }
  | .reader call =>
    { b with
      dev := (readStep blockSize call b.reader b.dev).device
      reader := (readStep blockSize call b.reader b.dev).pc }
  | .mapReceive size => { b with dev := mapRequest blockSize ⟨size, 0, false⟩ b.dev }
  | .closing => { b with dev := { b.dev with priv := { b.dev.priv with closing := true } } }

/-- The session when `driver_open` has returned. -/
def openedSession (d : Device) : PrefillBench where
  dev := (openRun d).2
  pc := .mapping
  reader := .outside

/-- Bytes of a ring that the hardware has been shown and has not read. -/
def queued (d : Device) : Nat :=
  (d.regs.txBufWr.toNat + mapSize.toNat - d.regs.txBufRd.toNat) % mapSize.toNat

/-- The ring holds the whole prefill, and a receiver that has sent anything on has
dropped as much. -/
structure AlignedStart (d : Device) : Prop where
  filled : queued mapSize d = prefillBlocks blockSize * blockSize.toNat
  matched : ∀ blocks, (rxSession blockSize blocks).forwarded ≠ [] →
    (rxSession blockSize blocks).dropped.length * blockSize.toNat = queued mapSize d

/-- The offset published after some number of blocks. -/
def offsetAfter (i : Nat) : Nat := i * blockSize.toNat % mapSize.toNat

/-- What the ring shows wherever the thread stands. -/
def Prefilled (d : Device) : PrefillPc → Prop
  | .mapping => d.regs.txBufWr = 0
  | .looping i wr =>
    i ≤ prefillBlocks blockSize ∧ wr.toNat = offsetAfter blockSize mapSize i ∧
      d.regs.txBufWr = wr
  | .putting i wr call =>
    i < prefillBlocks blockSize ∧ wr.toNat = offsetAfter blockSize mapSize (i + 1) ∧
      d.regs.txBufWr.toNat = offsetAfter blockSize mapSize i ∧
      ∀ asked, call = .waiting asked ∨ call = .publishing asked → asked = wr
  | .enabling =>
    d.regs.txBufWr.toNat = offsetAfter blockSize mapSize (prefillBlocks blockSize)
  | .failed => True

/-- What every state of a run keeps: the hardware has read nothing. -/
structure Prefill (b : PrefillBench) : Prop where
  unread : b.dev.regs.txBufRd = 0
  shown : Prefilled blockSize mapSize b.dev b.pc

variable {blockSize mapSize vmaSize} {b : PrefillBench}

/-- A mapping of one ring leaves the offsets in the registers. -/
theorem mapRequest_offsets (blockSize : BitVec 32) (call : MmapCall) (d : Device) :
    (mapRequest blockSize call d).regs.txBufWr = d.regs.txBufWr ∧
      (mapRequest blockSize call d).regs.txBufRd = d.regs.txBufRd := by
  cases checked : mmapCheck blockSize call d with
  | error errno =>
    rw [mmap_rejected call d errno checked]
    exact ⟨rfl, rfl⟩
  | ok accepted =>
    rw [mmap_accepted call d checked]
    simp only [mmapRegister, mmapSize]
    split <;> exact ⟨rfl, rfl⟩

/-- What runs beside the thread leaves it and the transmit offsets. -/
theorem beside_keeps (blockSize mapSize vmaSize : BitVec 32) (b : PrefillBench) (e : PrefillEvent)
    (beside : e ≠ .transmitter) :
    (prefillStep blockSize mapSize vmaSize b e).pc = b.pc ∧
      (prefillStep blockSize mapSize vmaSize b e).dev.regs.txBufWr = b.dev.regs.txBufWr ∧
      (prefillStep blockSize mapSize vmaSize b e).dev.regs.txBufRd = b.dev.regs.txBufRd := by
  cases e with
  | transmitter => exact absurd rfl beside
  | tick =>
    have regs := (timer_frame blockSize b.dev).1
    exact ⟨rfl, congrArg Regs.txBufWr regs, congrArg Regs.txBufRd regs⟩
  | received rxBufWr => exact ⟨rfl, rfl, rfl⟩
  | reader call =>
    have regs := (readStep_frame blockSize call b.reader b.dev).1
    exact ⟨rfl, congrArg Regs.txBufWr regs, congrArg Regs.txBufRd regs⟩
  | mapReceive size => exact ⟨rfl, mapRequest_offsets blockSize _ b.dev⟩
  | closing => exact ⟨rfl, rfl, rfl⟩

/-- What is shown depends on the transmit offset only. -/
theorem Prefilled.frame {d d' : Device} {pc : PrefillPc}
    (shown : Prefilled blockSize mapSize d pc) (same : d'.regs.txBufWr = d.regs.txBufWr) :
    Prefilled blockSize mapSize d' pc := by
  cases pc with
  | failed => trivial
  | _ => simpa only [Prefilled, same] using shown

/-- The offset of the next block, in machine words. -/
theorem next_offset {i : Nat} {wr : BitVec 32} (positive : 0 < mapSize.toNat)
    (whole : blockSize.toNat ∣ mapSize.toNat) (at_ : wr.toNat = offsetAfter blockSize mapSize i) :
    ((wr + blockSize) % mapSize).toNat = offsetAfter blockSize mapSize (i + 1) := by
  have aligned : blockSize.toNat ∣ i * blockSize.toNat := Nat.dvd_mul_left _ _
  have fits : offsetAfter blockSize mapSize i + blockSize.toNat ≤ mapSize.toNat :=
    step_fits whole (offset_aligned whole aligned) (Nat.mod_lt _ positive)
  have width := mapSize.isLt
  have sum : (wr + blockSize).toNat = offsetAfter blockSize mapSize i + blockSize.toNat := by
    rw [BitVec.toNat_add, at_, Nat.mod_eq_of_lt (by omega)]
  rw [BitVec.toNat_umod, sum, offsetAfter, Nat.mod_add_mod, offsetAfter, Nat.succ_mul]

/-- A step of the call in progress keeps what is shown. Only its last step shows
anything new, and that is the offset asked for. -/
theorem prefilled_putting {d : Device} {i : Nat} {wr : BitVec 32} {call : WritePc}
    (shown : Prefilled blockSize mapSize d (.putting i wr call)) :
    Prefilled blockSize mapSize
      (txSessionStep blockSize mapSize vmaSize (.putting i wr call) d).2
      (txSessionStep blockSize mapSize vmaSize (.putting i wr call) d).1 := by
  obtain ⟨more, at_, before, asked⟩ := shown
  cases call with
  | outside =>
    by_cases beyond : d.priv.txbufSize ≤ wr
    · simp [txSessionStep, writeStep, beyond, Prefilled]
    · simp only [txSessionStep, writeStep, beyond, Nat.lt_irrefl, if_false, Bool.false_eq_true]
      refine ⟨more, at_, before, ?_⟩
      rintro _ (waits | impossible)
      · exact (WritePc.waiting.inj waits).symm
      · cases impossible
  | waiting offset =>
    have same : offset = wr := asked offset (.inl rfl)
    subst same
    by_cases closing : d.priv.closing = true
    · simp [txSessionStep, writeStep, closing, Prefilled]
    · by_cases room : hasRoom blockSize d offset = true
      · simp only [txSessionStep, writeStep, closing, room, Bool.true_or, if_true, if_false,
          Bool.false_eq_true]
        refine ⟨more, at_, before, ?_⟩
        rintro _ (impossible | publishes)
        · cases impossible
        · exact (WritePc.publishing.inj publishes).symm
      · simp only [txSessionStep, writeStep, closing, room, Bool.false_or, if_false,
          Bool.false_eq_true]
        exact ⟨more, at_, before, asked⟩
  | publishing offset =>
    have same : offset = wr := asked offset (.inr rfl)
    subst same
    exact ⟨more, at_, rfl⟩

/-- A step of the thread keeps what is shown. -/
theorem prefilled_step {d : Device} {pc : PrefillPc} (positive : 0 < mapSize.toNat)
    (whole : blockSize.toNat ∣ mapSize.toNat) (shown : Prefilled blockSize mapSize d pc) :
    Prefilled blockSize mapSize (txSessionStep blockSize mapSize vmaSize pc d).2
      (txSessionStep blockSize mapSize vmaSize pc d).1 := by
  cases pc with
  | mapping =>
    have offset := (mapRequest_offsets blockSize ⟨vmaSize, 1, true⟩ d).1
    cases result : mmap blockSize ⟨vmaSize, 1, true⟩ d with
    | ok mapped =>
      simp only [mapRequest, result] at offset
      simp only [txSessionStep, result]
      have zero : mapped.regs.txBufWr = 0 := offset.trans shown
      exact ⟨Nat.zero_le _, by simp [offsetAfter], zero⟩
    | error errno =>
      simp only [txSessionStep, result]
      trivial
  | looping i wr =>
    obtain ⟨_, at_, same⟩ := shown
    by_cases more : i < prefillBlocks blockSize
    · simp only [txSessionStep, more, if_true]
      refine ⟨more, next_offset positive whole at_, ?_, ?_⟩
      · rw [same, at_]
      · rintro _ (impossible | impossible) <;> cases impossible
    · simp only [txSessionStep, more, if_false]
      have last : i = prefillBlocks blockSize := by omega
      rw [Prefilled, same, at_, last]
  | putting i wr call => exact prefilled_putting shown
  | enabling => exact shown
  | failed => trivial

/-- The thread leaves the hardware's offset. -/
theorem txSessionStep_unread (pc : PrefillPc) (d : Device) :
    (txSessionStep blockSize mapSize vmaSize pc d).2.regs.txBufRd = d.regs.txBufRd := by
  cases pc with
  | mapping =>
    have offset := (mapRequest_offsets blockSize ⟨vmaSize, 1, true⟩ d).2
    cases result : mmap blockSize ⟨vmaSize, 1, true⟩ d with
    | ok mapped =>
      simp only [mapRequest, result] at offset
      simp only [txSessionStep, result]
      exact offset
    | error errno => simp only [txSessionStep, result]
  | looping i wr =>
    simp only [txSessionStep]
    split <;> rfl
  | putting i wr call =>
    cases call with
    | publishing asked => rfl
    | _ =>
      simp only [txSessionStep, writeStep]
      split_ifs <;> rfl
  | enabling => rfl
  | failed => rfl

theorem Prefill.step (held : Prefill blockSize mapSize b) (positive : 0 < mapSize.toNat)
    (whole : blockSize.toNat ∣ mapSize.toNat) (e : PrefillEvent) :
    Prefill blockSize mapSize (prefillStep blockSize mapSize vmaSize b e) := by
  by_cases own : e = .transmitter
  · subst own
    exact ⟨(txSessionStep_unread b.pc b.dev).trans held.unread,
      prefilled_step positive whole held.shown⟩
  · obtain ⟨place, written, read⟩ := beside_keeps blockSize mapSize vmaSize b e own
    refine ⟨read.trans held.unread, ?_⟩
    rw [place]
    exact held.shown.frame written

theorem prefill_opened {d : Device} (closed : d.priv.inUse = false) (unread : d.regs.txBufRd = 0) :
    Prefill blockSize mapSize (openedSession d) where
  unread := by
    rw [openedSession, openRun_closed d closed]
    exact unread
  shown := by
    rw [openedSession, openRun_closed d closed]
    rfl

/-- Whatever runs beside the thread, the ring shows the prefill modulo its size when
the thread gets to `driver_enable`. -/
theorem prefill_queued {d : Device} (closed : d.priv.inUse = false) (unread : d.regs.txBufRd = 0)
    (positive : 0 < mapSize.toNat) (whole : blockSize.toNat ∣ mapSize.toNat)
    (events : List PrefillEvent)
    (reached : (run (prefillStep blockSize mapSize vmaSize) (openedSession d) events).pc =
      .enabling) :
    queued mapSize (run (prefillStep blockSize mapSize vmaSize) (openedSession d) events).dev =
      prefillBlocks blockSize * blockSize.toNat % mapSize.toNat := by
  have held : Prefill blockSize mapSize
      (run (prefillStep blockSize mapSize vmaSize) (openedSession d) events) :=
    invariant (fun _ e held _ => held.step positive whole e) (prefill_opened closed unread) events
      (follows_unruled _ _ events)
  generalize run (prefillStep blockSize mapSize vmaSize) (openedSession d) events = b at *
  obtain ⟨unread, shown⟩ := held
  rw [reached] at shown
  have offset : b.dev.regs.txBufWr.toNat =
      prefillBlocks blockSize * blockSize.toNat % mapSize.toNat := shown
  have nothing : b.dev.regs.txBufRd.toNat = 0 := by rw [unread]; rfl
  rw [queued, nothing, offset, Nat.sub_zero, Nat.add_mod_right, Nat.mod_mod]

/-! ### Nothing stops the loop -/

/-- The thread is at the head of its loop, with nothing in the way of its next call. -/
structure Ready (blockSize mapSize : BitVec 32) (b : PrefillBench) (i : Nat) (wr : BitVec 32) :
    Prop where
  at_ : b.pc = .looping i wr
  offset : wr.toNat = offsetAfter blockSize mapSize i
  unread : b.dev.regs.txBufRd = 0
  isOpen : b.dev.priv.closing = false
  fits : mapSize.toNat ≤ b.dev.priv.txbufSize.toNat

/-- One round of the loop: the call is made, passes its check and its wait, and
publishes the next offset. -/
theorem Ready.round (vmaSize : BitVec 32) {i : Nat} {wr : BitVec 32}
    (ready : Ready blockSize mapSize b i wr) (positive : 0 < mapSize.toNat)
    (whole : blockSize.toNat ∣ mapSize.toNat) (more : i < prefillBlocks blockSize) :
    ∃ next, Ready blockSize mapSize (run (prefillStep blockSize mapSize vmaSize) b
      (List.replicate 4 .transmitter)) (i + 1) next := by
  obtain ⟨dev, pc, reader⟩ := b
  obtain ⟨at_, offset, (unread : dev.regs.txBufRd = 0), (isOpen : dev.priv.closing = false),
    (fits : mapSize.toNat ≤ dev.priv.txbufSize.toNat)⟩ := ready
  obtain rfl : pc = .looping i wr := at_
  have next := next_offset positive whole offset
  have below : offsetAfter blockSize mapSize (i + 1) < mapSize.toNat := Nat.mod_lt _ positive
  have block : offsetAfter blockSize mapSize (i + 1) + blockSize.toNat ≤ mapSize.toNat :=
    step_fits whole (offset_aligned whole (Nat.dvd_mul_left _ _)) below
  have inside : ¬ dev.priv.txbufSize ≤ (wr + blockSize) % mapSize := by
    rw [BitVec.le_def, next, Nat.not_le]
    exact Nat.lt_of_lt_of_le below fits
  have room : hasRoom blockSize dev ((wr + blockSize) % mapSize) = true := by
    have distance : cyclicDistance dev.priv.txbufSize dev.regs.txBufRd
        ((wr + blockSize) % mapSize) = (wr + blockSize) % mapSize := by
      simp [cyclicDistance, unread, BitVec.le_def]
    have free : (dev.priv.txbufSize - blockSize).toNat =
        dev.priv.txbufSize.toNat - blockSize.toNat :=
      BitVec.toNat_sub_of_le (BitVec.le_def.mpr (by omega))
    rw [hasRoom, distance, decide_eq_true_eq, BitVec.le_def, next, free]
    omega
  have ran : run (prefillStep blockSize mapSize vmaSize) ⟨dev, .looping i wr, reader⟩
      (List.replicate 4 .transmitter) =
        ⟨publish dev ((wr + blockSize) % mapSize), .looping (i + 1) ((wr + blockSize) % mapSize),
          reader⟩ := by
    simp [run, List.replicate, prefillStep, txSessionStep, writeStep, more, inside, room, isOpen]
  rw [ran]
  exact ⟨_, rfl, next, unread, isOpen, fits⟩

/-- As many rounds as blocks are missing take the loop to its last test. -/
theorem Ready.rounds (vmaSize : BitVec 32) (positive : 0 < mapSize.toNat)
    (whole : blockSize.toNat ∣ mapSize.toNat) (count : Nat) {b : PrefillBench} {i : Nat}
    {wr : BitVec 32} (ready : Ready blockSize mapSize b i wr)
    (left : i + count = prefillBlocks blockSize) :
    ∃ last, Ready blockSize mapSize (run (prefillStep blockSize mapSize vmaSize) b
      (List.replicate (4 * count) .transmitter)) (prefillBlocks blockSize) last := by
  induction count generalizing b i wr with
  | zero =>
    obtain rfl : i = prefillBlocks blockSize := left
    exact ⟨wr, ready⟩
  | succ count inductionHypothesis =>
    obtain ⟨next, ready⟩ := ready.round vmaSize positive whole (by omega)
    have split : 4 * (count + 1) = 4 + 4 * count := by ring
    rw [split, List.replicate_add, run, List.foldl_append]
    exact inductionHypothesis ready (by omega)

/-- When its mapping is accepted, the thread gets to `driver_enable` in steps of its
own: one for the mapping, four for each block and one for the last test. -/
theorem prefill_completes {d mapped : Device} (closed : d.priv.inUse = false)
    (unread : d.regs.txBufRd = 0) (positive : 0 < mapSize.toNat)
    (whole : blockSize.toNat ∣ mapSize.toNat) (covers : mapSize.toNat ≤ vmaSize.toNat)
    (accepted : mmap blockSize ⟨vmaSize, 1, true⟩ (openRun d).2 = .ok mapped) :
    (run (prefillStep blockSize mapSize vmaSize) (openedSession d)
      (List.replicate (1 + (4 * prefillBlocks blockSize + 1)) .transmitter)).pc = .enabling := by
  have first : prefillStep blockSize mapSize vmaSize (openedSession d) .transmitter =
      ⟨mapped, .looping 0 0, .outside⟩ := by
    simp only [prefillStep, openedSession, txSessionStep, accepted]
  have ready : Ready blockSize mapSize ⟨mapped, .looping 0 0, .outside⟩ 0 0 := by
    obtain ⟨_, rfl⟩ := mmap_ok accepted
    rw [openRun_closed d closed]
    exact ⟨rfl, by simp [offsetAfter], unread, rfl, covers⟩
  obtain ⟨last, ready⟩ := ready.rounds vmaSize positive whole _ (Nat.zero_add _)
  rw [List.replicate_add, run, List.foldl_append, List.replicate_one, List.foldl_cons, first,
    List.foldl_nil, List.replicate_add, List.foldl_append]
  change (prefillStep blockSize mapSize vmaSize (run _ _ _) .transmitter).pc = .enabling
  simp only [prefillStep, txSessionStep, ready.at_, Nat.lt_irrefl, if_false]

/-- What is dropped before anything is sent on is the prefill. -/
theorem dropped_prefill {blocks : List RxRead}
    (sends : (rxSession blockSize blocks).forwarded ≠ []) :
    (rxSession blockSize blocks).dropped.length = prefillBlocks blockSize := by
  obtain ⟨_, dropped, forwarded⟩ := rxSession_drops blockSize blocks
  rw [forwarded, ne_eq, List.drop_eq_nil_iff, Nat.not_le] at sends
  rw [dropped, List.length_take_of_le (Nat.le_of_lt sends)]

/-- A ring that shows the prefill modulo its size is aligned with the receiver when
it is longer than the prefill, and only then. -/
theorem aligned_iff {d : Device} (positive : 0 < mapSize.toNat)
    (shown : queued mapSize d = prefillBlocks blockSize * blockSize.toNat % mapSize.toNat) :
    AlignedStart blockSize mapSize d ↔
      prefillBlocks blockSize * blockSize.toNat < mapSize.toNat := by
  constructor
  · intro aligned
    rw [← aligned.filled, shown]
    exact Nat.mod_lt _ positive
  · intro shorter
    have filled : queued mapSize d = prefillBlocks blockSize * blockSize.toNat := by
      rw [shown, Nat.mod_eq_of_lt shorter]
    refine ⟨filled, ?_⟩
    intro blocks sends
    rw [dropped_prefill sends, filled]

end Prefill

/-- For every depth, block and memory size: the ring is the exact one if and only if
the rounding does not overflow below the memory size. And whenever the transmit
thread gets to `driver_enable`, with any other threads beside it, the ring is exact
and aligned with the receiver if and only if moreover both the depth and the memory
are longer than the prefill. -/
theorem depth_aligned_iff (samples blockSize txBufSize : BitVec 32) (some_ : 0 < samples)
    (memory : 0 < txBufSize) (whole : blockSize.toNat ∣ txBufSize.toNat) :
    (RingExact samples blockSize txBufSize ↔ RingFits samples blockSize txBufSize) ∧
      ∀ (vmaSize : BitVec 32) (d : Device) (events : List PrefillEvent),
        d.priv.inUse = false → d.regs.txBufRd = 0 →
        let mapSize := effectiveSize blockSize txBufSize (some samples)
        let b := run (prefillStep blockSize mapSize vmaSize) (openedSession d) events
        b.pc = .enabling →
        (RingExact samples blockSize txBufSize ∧ AlignedStart blockSize mapSize b.dev ↔
          RingFits samples blockSize txBufSize ∧
            prefillBlocks blockSize * blockSize.toNat < depthBytes samples ∧
            prefillBlocks blockSize * blockSize.toNat < txBufSize.toNat) := by
  have exact := ring_exact_iff some_ memory whole
  refine ⟨exact, ?_⟩
  intro vmaSize d events closed unread mapSize b reached
  rw [exact]
  refine and_congr_right fun fits => ?_
  obtain ⟨positive, multiple, size⟩ := exact.mpr fits
  have block : 0 < blockSize.toNat := Nat.pos_of_dvd_of_pos whole memory
  have shown := prefill_queued closed unread positive multiple events reached
  calc AlignedStart blockSize mapSize b.dev
      ↔ prefillBlocks blockSize * blockSize.toNat < mapSize.toNat := aligned_iff positive shown
    _ ↔ prefillBlocks blockSize * blockSize.toNat <
          min txBufSize.toNat (roundUp blockSize.toNat (depthBytes samples)) := by rw [← size]
    _ ↔ prefillBlocks blockSize * blockSize.toNat < txBufSize.toNat ∧
          prefillBlocks blockSize * blockSize.toNat <
            roundUp blockSize.toNat (depthBytes samples) := Nat.lt_min
    _ ↔ prefillBlocks blockSize * blockSize.toNat < txBufSize.toNat ∧
          prefillBlocks blockSize * blockSize.toNat < depthBytes samples := by
      rw [lt_roundUp_iff block (Nat.dvd_mul_left _ _)]
    _ ↔ _ := and_comm

/-- A transmit ring of whole blocks that fits the memory is accepted. -/
theorem transmit_accepted {blockSize mapSize : BitVec 32} {d : Device}
    (aligned : mapSize % blockSize = 0) (within : mapSize ≤ d.priv.txbufSizeMax) :
    mmap blockSize ⟨mapSize, 1, true⟩ d =
      .ok (mmapRegister ⟨mapSize, 1, true⟩ (mmapSize ⟨mapSize, 1, true⟩ d)) := by
  have fits : ¬ d.priv.txbufSizeMax < mapSize := BitVec.not_lt.mpr within
  have checked : mmapCheck blockSize ⟨mapSize, 1, true⟩ d = .ok () := by
    rw [mmapCheck, if_neg (not_not.mpr aligned)]
    exact if_neg fits
  rw [mmap, checked]
  rfl

/-- A session with blocks of the default size, in 128 MiB of memory, when nothing runs
beside the thread until it gets to `driver_enable`. -/
def preparedSession (mapSize : BitVec 32) : PrefillBench :=
  run (prefillStep 65536 mapSize mapSize) (openedSession (reserved 0x08000000))
    (List.replicate (1 + (4 * prefillBlocks 65536 + 1)) .transmitter)

/-- With a ring of whole blocks that fits the memory the thread gets there. -/
theorem prepared_enables {mapSize : BitVec 32} (positive : 0 < mapSize.toNat)
    (aligned : mapSize % 65536 = 0) (within : mapSize ≤ 0x08000000) :
    (preparedSession mapSize).pc = .enabling := by
  have whole : (65536 : BitVec 32).toNat ∣ mapSize.toNat := by
    apply Nat.dvd_of_mod_eq_zero
    rw [← BitVec.toNat_umod, aligned]
    rfl
  have reservedMax : (openRun (reserved 0x08000000)).2.priv.txbufSizeMax = 0x08000000 := rfl
  exact prefill_completes rfl rfl positive whole (Nat.le_refl _)
    (transmit_accepted aligned (reservedMax ▸ within))

/-- A depth of one million samples gives a ring of 62 blocks, round which the prefill
of 128 blocks goes twice: four blocks are queued. A depth of 2^30 samples gives no
ring at all. -/
theorem shallow_prefill_wraps :
    RingExact 1000000 65536 0x08000000 ∧
      effectiveSize 65536 0x08000000 (some 1000000) = 4063232 ∧
      (preparedSession 4063232).pc = .enabling ∧
      queued 4063232 (preparedSession 4063232).dev = 262144 ∧
      ¬ AlignedStart 65536 4063232 (preparedSession 4063232).dev ∧
      effectiveSize 65536 0x08000000 (some 1073741824) = 0 ∧
      ¬ RingExact 1073741824 65536 0x08000000 := by
  have enables : (preparedSession 4063232).pc = .enabling :=
    prepared_enables (by decide) (by decide) (by decide)
  have shown : queued 4063232 (preparedSession 4063232).dev = 262144 :=
    (prefill_queued rfl rfl (by decide) (by decide) _ enables).trans (by decide)
  refine ⟨⟨by decide, by decide, by decide⟩, by decide, enables, shown, ?_, by decide, ?_⟩
  · intro aligned
    exact absurd (shown.symm.trans aligned.filled) (by decide)
  · intro exact
    exact absurd exact.positive (by decide)

/-- A depth of ten million samples holds the prefill. -/
theorem deep_prefill_aligned :
    RingExact 10000000 65536 0x08000000 ∧
      AlignedStart 65536 40042496 (preparedSession 40042496).dev := by
  have ring : effectiveSize 65536 0x08000000 (some 10000000) = 40042496 := by decide
  have enables : (preparedSession 40042496).pc = .enabling :=
    prepared_enables (by decide) (by decide) (by decide)
  have aligned := (depth_aligned_iff 10000000 65536 0x08000000 (by decide) (by decide)
    (by decide)).2 40042496 (reserved 0x08000000)
    (List.replicate (1 + (4 * prefillBlocks 65536 + 1)) .transmitter) rfl rfl
  rw [ring] at aligned
  exact (aligned enables).mpr ⟨.inl (by decide), by decide, by decide⟩

end Zyndra.Ad9361Txrx
