import Zyndra.CachedRing
import Zyndra.RegisterFiles

/-!
# The receive ring under QEMU

A tick of the emulated peripheral writes 256 samples of its tone through `dma_write`, each
at the write pointer, and register writes of the guest come in between. From a reset on,
once base and size are set, the ring holds the last samples that the ticks have made, in
their order. Disabling and enabling the receiver leaves no gap and repeats nothing: the
pointer and the phase of the tone go on together.

The base and the size stay as they are here, and the size is a number of whole samples.
-/

namespace Zyndra.Ad936xEmu

open AxiLite LastWrite Runs CyclicRing CachedRing

/-- `dma_write_cb`: the bytes of a call, put into the guest's memory. -/
def dmaWrite (memory : BitVec 64 → BitVec 8) (w : DmaWrite) : BitVec 64 → BitVec 8 :=
  fun addr => (w.buf[(addr - w.addr).toNat]?).getD (memory addr)

/-- A tick makes samples: the receiver is on, not in reset, and has a ring. -/
def Emits (s : State) : Prop :=
  ¬ (s.ctrl &&& ctrlRxEnable = 0 ∨ s.ctrl &&& ctrlReset ≠ 0 ∨ s.rxBufSize = 0)

instance (s : State) : Decidable (Emits s) := inferInstanceAs (Decidable (¬ _))

/-- The peripheral and the guest's memory. `ticks` counts those that have made samples. -/
structure Guest where
  state : State
  memory : BitVec 64 → BitVec 8
  ticks : Nat

/-- The byte at an offset of the ring. -/
def ringView (base : BitVec 32) (memory : BitVec 64 → BitVec 8) (offset : Nat) : BitVec 8 :=
  memory (base.setWidth 64 + BitVec.ofNat 64 offset)

section Tone

variable (tone : BitVec 32 → BitVec 16 × BitVec 16)

def Guest.step (g : Guest) : Access → Guest
  | .write addr val => { g with state := emulate tone g.state (.write addr val) }
  | .tick =>
    { state := (ad936xTick tone g.state).1
      memory := (ad936xTick tone g.state).2.foldl dmaWrite g.memory
      ticks := g.ticks + if Emits g.state then 1 else 0 }

/-- The `k`-th sample behind a reset, and the bytes of them all. -/
def toneSample (k : Nat) : BitVec 32 :=
  packIq (tone (BitVec.ofNat 32 k)).1 (tone (BitVec.ofNat 32 k)).2

def toneByte (position : Nat) : BitVec 8 :=
  (toLeBytes (toneSample tone (position / 4))).getD (position % 4) 0

/-- Neither a reset nor another ring. -/
def Steady : Access → Prop
  | .write addr val =>
    addr ≠ cRegRxBufBase ∧ addr ≠ cRegRxBufSize ∧ softReset (.write addr val) = false
  | .tick => True

instance : (access : Access) → Decidable (Steady access)
  | .write _ _ => inferInstanceAs (Decidable (_ ∧ _ ∧ _))
  | .tick => isTrue trivial

/-- So many samples have been made, and the ring holds the last of them. -/
structure Emitted (base size : BitVec 32) (before : BitVec 64 → BitVec 8) (made : Nat)
    (s : State) (memory : BitVec 64 → BitVec 8) : Prop where
  sameBase : s.rxBufBase = base
  sameSize : s.rxBufSize = size
  pointer : s.rxBufWr.toNat = 4 * made % size.toNat
  phase : s.phase = BitVec.ofNat 32 made
  holds : Holds size.toNat (toneByte tone) (ringView base memory) (4 * made)
  frame : ∀ addr, (∀ offset < size.toNat, addr ≠ base.setWidth 64 + BitVec.ofNat 64 offset) →
    memory addr = before addr

/-- What a register write other than a reset leaves as it was. -/
theorem steady_write {s : State} {addr : TRegaddr} {val : BitVec 32}
    (steady : Steady (.write addr val)) :
    (emulate tone s (.write addr val)).rxBufBase = s.rxBufBase ∧
      (emulate tone s (.write addr val)).rxBufSize = s.rxBufSize ∧
      (emulate tone s (.write addr val)).rxBufWr = s.rxBufWr ∧
      (emulate tone s (.write addr val)).phase = s.phase := by
  obtain ⟨base, size, noReset⟩ := steady
  rcases addr_cases addr with rfl | ⟨other, rfl⟩ | ⟨control, others⟩
  · have clear : val.getLsbD cCtrlReset = false := by
      simpa only [softReset, beq_self_eq_true, Bool.true_and] using noReset
    have narrow : (val.setWidth 64).setWidth 32 = val := by simp
    have written : emulate tone s (.write cRegCtrl val) = writeCtrl s (val.setWidth 64) := rfl
    have unset : ¬ ((val &&& (ctrlReset ||| ctrlRxEnable ||| ctrlTxEnable)) &&& ctrlReset ≠ 0) := by
      rw [reset_bit, clear]
      exact Bool.false_ne_true
    rw [written, writeCtrl]
    simp only [narrow, if_neg unset, and_self]
  · cases other with
    | rxBufBase => exact absurd rfl base
    | rxBufSize => exact absurd rfl size
    | txBufBase => exact ⟨rfl, rfl, rfl, rfl⟩
    | txBufSize => exact ⟨rfl, rfl, rfl, rfl⟩
    | txBufWr => exact ⟨rfl, rfl, rfl, rfl⟩
  · rw [emulate, ad936xWrite_other s _ control others]
    exact ⟨rfl, rfl, rfl, rfl⟩

end Tone

/-! ## The samples of a tick -/

/-- Where an address of the ring lies in what is written at another. -/
theorem ring_index (base : BitVec 64) {start offset : Nat} (startFits : start < 2 ^ 32)
    (offsetFits : offset < 2 ^ 32) :
    (base + BitVec.ofNat 64 offset - (base + BitVec.ofNat 64 start)).toNat =
      if start ≤ offset then offset - start else 2 ^ 64 - (start - offset) := by
  have shifted : base + BitVec.ofNat 64 offset - (base + BitVec.ofNat 64 start) =
      BitVec.ofNat 64 offset - BitVec.ofNat 64 start := by
    rw [← BitVec.sub_sub, BitVec.add_comm, BitVec.add_sub_cancel]
  rw [shifted, BitVec.toNat_sub, BitVec.toNat_ofNat, BitVec.toNat_ofNat]
  split <;> omega

section Sample

variable {tone : BitVec 32 → BitVec 16 × BitVec 16} {base size : BitVec 32}
variable {before memory : BitVec 64 → BitVec 8} {made : Nat} {s : State}

/-- Bytes written at an offset show there, and the others stay. -/
theorem ringView_dmaWrite {start offset : Nat} {buf : List (BitVec 8)} (startFits : start < 2 ^ 32)
    (offsetFits : offset < 2 ^ 32) (short : buf.length ≤ 4) :
    ringView base (dmaWrite memory ⟨base.setWidth 64 + BitVec.ofNat 64 start, buf⟩) offset =
      if start ≤ offset then (buf[offset - start]?).getD (ringView base memory offset)
      else ringView base memory offset := by
  simp only [ringView, dmaWrite]
  rw [ring_index _ startFits offsetFits]
  split
  · rfl
  · rw [List.getElem?_eq_none (by omega)]
    rfl

theorem toLeBytes_length (word : BitVec 32) : (toLeBytes word).length = 4 := by
  simp [toLeBytes]

theorem toneByte_sample (k : Nat) {j : Nat} (inside : j < 4) :
    toneByte tone (4 * k + j) = (toLeBytes (toneSample tone k)).getD j 0 := by
  have sample : (4 * k + j) / 4 = k := by omega
  have byte : (4 * k + j) % 4 = j := by omega
  rw [toneByte, sample, byte]

/-- A sample goes to the next place of the ring. -/
theorem Emitted.sample (emitted : Emitted tone base size before made s memory)
    (room : 0 < size.toNat) (whole : 4 ∣ size.toNat) :
    Emitted tone base size before (made + 1) (sampleStep tone s).1
      (dmaWrite memory (sampleStep tone s).2) := by
  have below : 4 * made % size.toNat < size.toNat := Nat.mod_lt _ room
  have fits : 4 * made % size.toNat + 4 ≤ size.toNat :=
    step_fits whole (offset_aligned whole (Nat.dvd_mul_right 4 made)) below
  have bounded : size.toNat < 2 ^ 32 := size.isLt
  have call : (sampleStep tone s).2 =
      ⟨base.setWidth 64 + BitVec.ofNat 64 (4 * made % size.toNat),
        toLeBytes (toneSample tone made)⟩ := by
    have place : s.rxBufWr.setWidth 64 = BitVec.ofNat 64 (4 * made % size.toNat) := by
      rw [← emitted.pointer, BitVec.ofNat_toNat]
    simp only [sampleStep, toneSample, emitted.sameBase, emitted.phase, place]
  have length := toLeBytes_length (toneSample tone made)
  rw [call]
  refine ⟨emitted.sameBase, emitted.sameSize, ?_, ?_, ?_, ?_⟩
  · have moved : (s.rxBufWr + 4).toNat = 4 * made % size.toNat + 4 := by
      have four : (4 : BitVec 32).toNat = 4 := rfl
      rw [BitVec.toNat_add, emitted.pointer, four, Nat.mod_eq_of_lt (by omega)]
    change ((s.rxBufWr + 4) % s.rxBufSize).toNat = _
    rw [BitVec.toNat_umod, moved, emitted.sameSize, Nat.mod_add_mod, Nat.mul_succ]
  · change s.phase + 1 = _
    rw [emitted.phase, BitVec.ofNat_add]
    rfl
  · apply holds_piece emitted.holds fits
    · intro j inside
      have there : (toLeBytes (toneSample tone made))[j]? =
          some ((toLeBytes (toneSample tone made)).getD j 0) := by
        rw [List.getD_eq_getElem?_getD, List.getElem?_eq_getElem (by omega)]
        rfl
      rw [ringView_dmaWrite (by omega) (by omega) (by omega), if_pos (by omega),
        Nat.add_sub_cancel_left, there, toneByte_sample made inside]
      rfl
    · intro offset apart inside
      rw [ringView_dmaWrite (by omega) (by omega) (by omega)]
      split
      · rw [List.getElem?_eq_none (by omega)]
        rfl
      · rfl
  · intro addr outside
    have beyond : 4 ≤ (addr - (base.setWidth 64 +
        BitVec.ofNat 64 (4 * made % size.toNat))).toNat := by
      by_contra inside
      apply outside (4 * made % size.toNat +
        (addr - (base.setWidth 64 + BitVec.ofNat 64 (4 * made % size.toNat))).toNat) (by omega)
      rw [BitVec.ofNat_add, BitVec.ofNat_toNat, BitVec.setWidth_eq, ← BitVec.add_assoc,
        BitVec.add_comm _ (addr - _), BitVec.sub_add_cancel]
    have beside : (toLeBytes (toneSample tone made))[(addr - (base.setWidth 64 +
        BitVec.ofNat 64 (4 * made % size.toNat))).toNat]? = none :=
      List.getElem?_eq_none (by omega)
    simp only [dmaWrite, beside, Option.getD_none]
    exact emitted.frame addr outside

/-- Those of a tick go one behind the other. -/
theorem Emitted.samples (emitted : Emitted tone base size before made s memory)
    (room : 0 < size.toNat) (whole : 4 ∣ size.toNat) (count : Nat) :
    Emitted tone base size before (made + count) (sampleSteps tone count s).1
      ((sampleSteps tone count s).2.foldl dmaWrite memory) := by
  induction count generalizing made s memory with
  | zero => exact emitted
  | succ count inductionHypothesis =>
    have rest := inductionHypothesis (emitted.sample room whole)
    rw [Nat.add_right_comm, Nat.add_assoc] at rest
    exact rest

/-- A step makes the samples of a tick or none. -/
theorem Emitted.step {g : Guest}
    (emitted : Emitted tone base size before (samplesPerTick * g.ticks) g.state g.memory)
    (room : 0 < size.toNat) (whole : 4 ∣ size.toNat) {access : Access} (steady : Steady access) :
    Emitted tone base size before (samplesPerTick * (g.step tone access).ticks)
      (g.step tone access).state (g.step tone access).memory := by
  cases access with
  | write addr val =>
    obtain ⟨sameBase, sameSize, sameWr, samePhase⟩ := steady_write tone (s := g.state) steady
    exact
      { sameBase := sameBase.trans emitted.sameBase
        sameSize := sameSize.trans emitted.sameSize
        pointer := by
          change (emulate tone g.state (.write addr val)).rxBufWr.toNat = _
          rw [sameWr]
          exact emitted.pointer
        phase := samePhase.trans emitted.phase
        holds := emitted.holds
        frame := emitted.frame }
  | tick =>
    simp only [Guest.step, ad936xTick]
    by_cases emits : Emits g.state
    · rw [if_pos emits, if_neg emits]
      exact emitted.samples room whole samplesPerTick
    · rw [if_neg emits, if_pos (not_not.mp emits)]
      exact emitted

end Sample

/-- From a cleared pointer and phase on, over any history of register writes and ticks that
neither resets nor moves the ring: the pointer is the number of bytes made round the ring,
and the ring holds the last samples of the tone that fit in, one for each phase and in
order, whichever of the ticks made them and however often the receiver was off in between.
No other byte of the guest's memory is written. -/
theorem tone_in_ring (tone : BitVec 32 → BitVec 16 × BitVec 16) (start : State)
    (memory : BitVec 64 → BitVec 8) (history : List Access) (pointer : start.rxBufWr = 0)
    (phase : start.phase = 0) (room : 0 < start.rxBufSize.toNat)
    (whole : 4 ∣ start.rxBufSize.toNat)
    (steady : Follows (fun _ => Steady) (Guest.step tone) ⟨start, memory, 0⟩ history) :
    let g := run (Guest.step tone) ⟨start, memory, 0⟩ history
    let made := samplesPerTick * g.ticks
    g.state.rxBufWr.toNat = 4 * made % start.rxBufSize.toNat ∧
      (∀ k < made, made ≤ k + start.rxBufSize.toNat / 4 → ∀ j < 4,
        ringView start.rxBufBase g.memory ((4 * k + j) % start.rxBufSize.toNat) =
          (toLeBytes (toneSample tone k)).getD j 0) ∧
      ∀ addr, (∀ offset < start.rxBufSize.toNat,
        addr ≠ start.rxBufBase.setWidth 64 + BitVec.ofNat 64 offset) →
          g.memory addr = memory addr := by
  intro g made
  have first : Emitted tone start.rxBufBase start.rxBufSize memory
      (samplesPerTick * (⟨start, memory, 0⟩ : Guest).ticks) start memory :=
    { sameBase := rfl
      sameSize := rfl
      pointer := by rw [pointer]; exact (Nat.zero_mod _).symm
      phase := phase
      holds := fun _ before => absurd before (Nat.not_lt_zero _)
      frame := fun _ _ => rfl }
  have step : ∀ (g : Guest) (access : Access), Emitted tone start.rxBufBase start.rxBufSize memory
      (samplesPerTick * g.ticks) g.state g.memory → Steady access →
        Emitted tone start.rxBufBase start.rxBufSize memory
          (samplesPerTick * (g.step tone access).ticks) (g.step tone access).state
          (g.step tone access).memory :=
    fun _ _ held admitted => held.step room whole admitted
  have emitted : Emitted tone start.rxBufBase start.rxBufSize memory made g.state g.memory :=
    invariant step first history steady
  refine ⟨emitted.pointer, ?_, emitted.frame⟩
  intro k earlier recent j inside
  rw [emitted.holds (4 * k + j) (by omega) (by omega)]
  exact toneByte_sample k inside

/-- A ring of two ticks. Three are made, one of them after the receiver has been off for a
tick and on again. -/
def twoTickRing : State := { State.new with rxBufBase := 0x1000, rxBufSize := 2048 }

def threeTicks : List Access :=
  [.write cRegCtrl 2, .tick, .tick, .write cRegCtrl 0, .tick, .write cRegCtrl 2, .tick]

def countingTone : BitVec 32 → BitVec 16 × BitVec 16 := fun phase => (phase.setWidth 16, 0x456)

/-- The third tick has overwritten the first: sample 767 stands at the end of the first
half, sample 256 behind it at the start of the second. -/
theorem tone_in_ring_wrapped :
    let g := run (Guest.step countingTone) ⟨twoTickRing, fun _ => 0, 0⟩ threeTicks
    g.state.rxBufWr.toNat = 1024 ∧ ringView 0x1000 g.memory 1020 = 0xf0 ∧
      ringView 0x1000 g.memory 1025 = 0x10 ∧ g.memory 0x1800 = 0 := by
  intro g
  obtain ⟨pointer, ring, frame⟩ := tone_in_ring countingTone twoTickRing (fun _ => 0) threeTicks
    rfl rfl (by decide) (by decide) (by decide)
  have ticks : g.ticks = 3 := by decide +kernel
  change g.state.rxBufWr.toNat = 4 * (samplesPerTick * g.ticks) % 2048 at pointer
  have last := ring 767 (by change 767 < samplesPerTick * g.ticks; rw [ticks]; decide)
    (by change samplesPerTick * g.ticks ≤ _; rw [ticks]; decide) 0 (by decide)
  have next := ring 256 (by change 256 < samplesPerTick * g.ticks; rw [ticks]; decide)
    (by change samplesPerTick * g.ticks ≤ _; rw [ticks]; decide) 1 (by decide)
  rw [ticks] at pointer
  refine ⟨pointer, last, next, frame 0x1800 ?_⟩
  intro offset inside same
  have apart := congrArg BitVec.toNat same
  change (0x1800 : BitVec 64).toNat = (0x1000 + BitVec.ofNat 64 offset : BitVec 64).toNat at apart
  have below : offset < 2048 := inside
  rw [BitVec.toNat_add, BitVec.toNat_ofNat] at apart
  simp at apart
  omega

end Zyndra.Ad936xEmu
