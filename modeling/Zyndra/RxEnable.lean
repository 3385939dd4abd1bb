import Zyndra.Driver
import Zyndra.Runs

/-!
# Announcing blocks while the ring is set up

The thread that sets up a session opens the device, maps the receive ring and
enables the hardware, one statement at a time. The timer runs from `open` on. The
engine keeps the pointer of an earlier session until it starts, some time after
the enable bit has been written; only then does it restart at zero.

ENABLE clears the timer's pointer before that. A tick between the two compares
the old pointer with zero and announces blocks that this session has not
written. When no tick finds a whole block there, what is announced from the
return of ENABLE on has been written since the engine started.
-/

namespace Zyndra.Driver

open CyclicRing Runs

/-- Where the set-up thread stands. A failed call ends it. -/
inductive SetupPc where
  | opening (pc : OpenPc)
  | checking
  | sizing
  | registering
  | enabling (pc : EnablePc)
  | failed

structure SetupBench where
  dev : Device
  pc : SetupPc
  /-- The engine has left STANDBY in this session. -/
  running : Bool
  /-- Bytes written since then. -/
  written : Nat

inductive SetupEvent where
  | setup
  | tick
  | engineStarts
  | hardware (bytes : Nat)
  deriving DecidableEq, Repr

def SetupBench.size (b : SetupBench) : Nat := b.dev.priv.rxbufSize.toNat

/-- The receive enable bit of the control register. -/
def rxEnabled (ctrl : BitVec 32) : Bool := decide (ctrl &&& ctrlRxEnable ≠ 0)

section Bench

variable (rxBlockSize size : BitVec 32)

/-- A mapping of the receive ring, for reading. -/
def receiveMap : MmapCall := ⟨size, 0, false⟩

/-- One statement of the thread: `open`, then `mmap` of the receive ring, then ENABLE. -/
def setupStep (pc : SetupPc) (d : Device) : SetupPc × Device :=
  match pc with
  | .opening (.returned (.ok ())) => (.checking, d)
  | .opening (.returned (.error _)) => (.failed, d)
  | .opening pc => (.opening (openStep pc d).1, (openStep pc d).2)
  | .checking =>
    match mmapCheck rxBlockSize (receiveMap size) d with
    | .ok () => (.sizing, d)
    | .error _ => (.failed, d)
  | .sizing => (.registering, mmapSize (receiveMap size) d)
  | .registering => (.enabling .chooseCtrl, mmapRegister (receiveMap size) d)
  | .enabling pc => (.enabling (enableStep pc d).1, (enableStep pc d).2)
  | .failed => (.failed, d)

/-- One step of the session. The engine leaves STANDBY only while it is enabled,
and writes only after that. -/
def proceed (b : SetupBench) : SetupEvent → SetupBench
  | .setup =>
    { b with
      pc := (setupStep rxBlockSize size b.pc b.dev).1
      dev := (setupStep rxBlockSize size b.pc b.dev).2 }
  | .tick => { b with dev := if b.dev.priv.timerActive then timer rxBlockSize b.dev else b.dev }
  | .engineStarts =>
    if !b.running && rxEnabled b.dev.regs.ctrl then
      { b with
        dev := { b.dev with regs := { b.dev.regs with rxBufWr := 0 } }
        running := true }
    else b
  | .hardware bytes =>
    if b.running then
      { b with
        dev := { b.dev with regs :=
          { b.dev.regs with
            rxBufWr := BitVec.ofNat 32 ((b.written + bytes) % b.dev.regs.rxBufSize.toNat) } }
        written := b.written + bytes }
    else b

/-- A closed device: the control register is zero and the timer is cancelled. All
else is what an earlier session left, the hardware's pointer included. -/
def closedBench (d : Device) : SetupBench where
  dev :=
    { d with
      regs := { d.regs with ctrl := 0 }
      priv := { d.priv with inUse := false, timerActive := false } }
  pc := .opening .guard
  running := false
  written := 0

/-- ENABLE has cleared the timer's pointer. -/
def SetupPc.pointerCleared : SetupPc → Bool
  | .enabling (.clearBlocks _) => true
  | .enabling (.enable _) => true
  | .enabling .returned => true
  | _ => false

/-- ENABLE has cleared the count as well. -/
def SetupPc.countCleared : SetupPc → Bool
  | .enabling (.enable _) => true
  | .enabling .returned => true
  | _ => false

/-- ENABLE has returned. -/
def SetupPc.returned : SetupPc → Bool
  | .enabling .returned => true
  | _ => false

/-- After ENABLE has cleared the timer's pointer, a tick before the engine starts
finds less than a block in the old pointer, and one after that does not overflow
its 32-bit sum. -/
def TickSafe (b : SetupBench) : SetupEvent → Prop
  | .tick =>
    (b.pc.pointerCleared = true → b.running = false →
      b.dev.regs.rxBufWr.toNat < rxBlockSize.toNat) ∧
    (b.running = true →
      b.dev.priv.timerWrPtr.toNat +
        (newBlocks rxBlockSize b.dev).toNat * rxBlockSize.toNat < 2 ^ 32)
  | _ => True

instance (b : SetupBench) : (e : SetupEvent) → Decidable (TickSafe rxBlockSize b e)
  | .tick => inferInstanceAs (Decidable (_ ∧ _))
  | .setup => isTrue trivial
  | .engineStarts => isTrue trivial
  | .hardware _ => isTrue trivial

/-- From the return of ENABLE on, only bytes written in this session are announced. -/
def AnnouncesWritten (b : SetupBench) : Prop :=
  b.pc.returned = true →
    b.dev.priv.blocksReady.toInt * rxBlockSize.toNat ≤ b.written ∧
      b.dev.priv.timerWrPtr.toNat ≤ b.written

instance (b : SetupBench) : Decidable (AnnouncesWritten rxBlockSize b) :=
  inferInstanceAs (Decidable (_ → _))

/-- The announced position and the count, once the engine runs. The count is kept
modulo the machine word. -/
structure Leads (b : SetupBench) : Prop where
  positive : 0 < b.size
  latched : b.dev.regs.rxBufSize = b.dev.priv.rxbufSize
  hardwareAt : b.dev.regs.rxBufWr.toNat = b.written % b.size
  announced : ∃ blocks, b.dev.priv.blocksReady = BitVec.ofNat 32 blocks ∧
    b.dev.priv.timerWrPtr.toNat = blocks * rxBlockSize.toNat % b.size ∧
    blocks * rxBlockSize.toNat ≤ b.written

/-- The control word the thread holds enables the engine only with a ring. -/
def SetupPc.ctrl : SetupPc → BitVec 32
  | .enabling (.disable ctrl) => ctrl
  | .enabling (.clearRd ctrl) => ctrl
  | .enabling (.clearTimer ctrl) => ctrl
  | .enabling (.clearBlocks ctrl) => ctrl
  | .enabling (.enable ctrl) => ctrl
  | _ => 0

/-- The ring is mapped and its size is in the register. -/
def SetupPc.mapped : SetupPc → Bool
  | .enabling _ => true
  | _ => false

/-- What every state of a run keeps. -/
structure SetUp (b : SetupBench) : Prop where
  disabled : b.pc.returned = false → rxEnabled b.dev.regs.ctrl = false ∧ b.running = false
  chosen : rxEnabled b.pc.ctrl = true → 0 < b.size
  enabled : rxEnabled b.dev.regs.ctrl = true → 0 < b.size
  registered : b.pc.mapped = true → b.dev.regs.rxBufSize = b.dev.priv.rxbufSize
  unwritten : b.running = false → b.written = 0
  pointer : b.pc.pointerCleared = true → b.running = false → b.dev.priv.timerWrPtr = 0
  count : b.pc.countCleared = true → b.running = false → b.dev.priv.blocksReady = 0
  leads : b.running = true → Leads rxBlockSize b

variable {rxBlockSize size}

/-- A number is at least the signed value of the word it is truncated to. -/
theorem truncated_le (count : Nat) : (BitVec.ofNat 32 count).toInt ≤ count := by
  have unsigned : (BitVec.ofNat 32 count).toInt ≤ (BitVec.ofNat 32 count).toNat := by
    rw [BitVec.toInt_eq_toNat_cond]
    split <;> omega
  have truncated : (BitVec.ofNat 32 count).toNat ≤ count := by
    rw [BitVec.toNat_ofNat]
    exact Nat.mod_le _ _
  omega

theorem SetupPc.returned_eq {pc : SetupPc} (returned : pc.returned = true) :
    pc = .enabling .returned := by
  cases pc with
  | enabling pc =>
    cases pc with
    | returned => rfl
    | _ => cases returned
  | _ => cases returned

/-- The count is cleared after the pointer. -/
theorem SetupPc.pointer_first {pc : SetupPc} (cleared : pc.countCleared = true) :
    pc.pointerCleared = true := by
  cases pc with
  | enabling pc =>
    cases pc with
    | enable ctrl => rfl
    | returned => rfl
    | _ => cases cleared
  | _ => cases cleared

theorem SetUp.announcesWritten {b : SetupBench} (held : SetUp rxBlockSize b) :
    AnnouncesWritten rxBlockSize b := by
  intro returned
  have done := SetupPc.returned_eq returned
  cases engine : b.running with
  | false =>
    rw [held.pointer (by rw [done]; rfl) engine, held.count (by rw [done]; rfl) engine]
    simp
  | true =>
    obtain ⟨blocks, count, pointer, behind⟩ := (held.leads engine).announced
    rw [count, pointer]
    constructor
    · have signed := truncated_le blocks
      calc (BitVec.ofNat 32 blocks).toInt * rxBlockSize.toNat
          ≤ (blocks : Int) * rxBlockSize.toNat :=
            Int.mul_le_mul_of_nonneg_right signed (Int.natCast_nonneg _)
        _ ≤ b.written := by exact_mod_cast behind
    · exact Nat.le_trans (Nat.mod_le _ _) behind

/-! ## Statements of the thread -/

@[simp] theorem rxEnabled_zero : rxEnabled 0#32 = false := by decide

@[simp] theorem rxEnabled_reset : rxEnabled ctrlReset = false := by decide

/-- Until ENABLE clears the timer's pointer, only a disabled engine and what was
chosen for it have to be kept. -/
theorem SetUp.uncleared {b : SetupBench} (disabled : rxEnabled b.dev.regs.ctrl = false)
    (still : b.running = false) (unwritten : b.written = 0)
    (chosen : rxEnabled b.pc.ctrl = true → 0 < b.size)
    (registered : b.pc.mapped = true → b.dev.regs.rxBufSize = b.dev.priv.rxbufSize)
    (early : b.pc.pointerCleared = false) : SetUp rxBlockSize b where
  disabled _ := ⟨disabled, still⟩
  chosen := chosen
  enabled := by simp [disabled]
  registered := registered
  unwritten _ := unwritten
  pointer := by simp [early]
  count := by
    intro cleared
    simp [SetupPc.pointer_first cleared] at early
  leads := by simp [still]

/-- Before ENABLE nothing is chosen yet. -/
theorem SetUp.unmapped {b : SetupBench} (disabled : rxEnabled b.dev.regs.ctrl = false)
    (still : b.running = false) (unwritten : b.written = 0) (early : b.pc.mapped = false) :
    SetUp rxBlockSize b := by
  apply SetUp.uncleared disabled still unwritten
  · cases at_ : b.pc with
    | enabling pc => simp [at_, SetupPc.mapped] at early
    | _ => simp [SetupPc.ctrl]
  · simp [early]
  · cases at_ : b.pc with
    | enabling pc => simp [at_, SetupPc.mapped] at early
    | _ => rfl

/-- `open` leaves the engine disabled. -/
theorem openStep_disabled (pc : OpenPc) {d : Device} (disabled : rxEnabled d.regs.ctrl = false) :
    rxEnabled (openStep pc d).2.regs.ctrl = false := by
  cases pc with
  | guard =>
    simp only [openStep]
    split <;> exact disabled
  | reset => exact rxEnabled_reset
  | release => exact rxEnabled_zero
  | _ => exact disabled

/-- The control word enables the engine only when its ring is mapped. -/
theorem enableCtrl_ring {d : Device} (enables : rxEnabled (enableCtrl d) = true) :
    0 < d.priv.rxbufSize.toNat := by
  by_cases ring : 0 < d.priv.rxbufSize
  · exact ring
  · unfold enableCtrl at enables
    rw [if_neg ring] at enables
    split at enables <;> exact absurd enables (by decide)

/-- A statement of ENABLE, in a session whose engine has not started. -/
theorem SetUp.enabling {b : SetupBench} (held : SetUp rxBlockSize b) {pc : EnablePc}
    (at_ : b.pc = .enabling pc) (still : b.running = false) (running : b.pc.returned = false) :
    SetUp rxBlockSize (proceed rxBlockSize size b .setup) := by
  obtain ⟨disabled, chosen, enabled, registered, unwritten, pointer, count, leads⟩ := held
  have none : rxEnabled b.dev.regs.ctrl = false := (disabled running).1
  have ring := registered (by rw [at_]; rfl)
  have zero := unwritten still
  rw [at_] at chosen pointer
  simp only [proceed, at_, setupStep]
  cases pc with
  | chooseCtrl => exact .uncleared none still zero enableCtrl_ring (fun _ => ring) rfl
  | disable ctrl => exact .uncleared rxEnabled_zero still zero chosen (fun _ => ring) rfl
  | clearRd ctrl => exact .uncleared none still zero chosen (fun _ => ring) rfl
  | clearTimer ctrl =>
    refine ⟨fun _ => ⟨none, still⟩, chosen, enabled, fun _ => ring, unwritten, ?_, ?_, ?_⟩
    · intro _ _
      rfl
    · simp [enableStep, SetupPc.countCleared]
    · simp [still]
  | clearBlocks ctrl =>
    refine ⟨fun _ => ⟨none, still⟩, chosen, enabled, fun _ => ring, unwritten, ?_, ?_, ?_⟩
    · intro _
      exact pointer rfl
    · intro _ _
      rfl
    · simp [still]
  | enable ctrl =>
    rw [at_] at count
    refine ⟨?_, by simp [enableStep, SetupPc.ctrl], chosen, fun _ => ring, unwritten, ?_, ?_, ?_⟩
    · simp [enableStep, SetupPc.returned]
    · intro _
      exact pointer rfl
    · intro _
      exact count rfl
    · simp [still]
  | returned => simp [at_, SetupPc.returned] at running

/-- Every statement of the thread keeps the set-up. Once ENABLE has returned there
are none left. -/
theorem SetUp.setup {b : SetupBench} (held : SetUp rxBlockSize b) :
    SetUp rxBlockSize (proceed rxBlockSize size b .setup) := by
  cases returned : b.pc.returned with
  | true =>
    have done := SetupPc.returned_eq returned
    have same : proceed rxBlockSize size b .setup = b := by
      simp only [proceed, done, setupStep, enableStep]
      rw [← done]
    rwa [same]
  | false =>
    obtain ⟨disabled, still⟩ := held.disabled returned
    have zero := held.unwritten still
    cases at_ : b.pc with
    | opening pc =>
      simp only [proceed, at_]
      have kept := openStep_disabled pc disabled
      cases pc with
      | returned result =>
        cases result with
        | ok => exact .unmapped disabled still zero rfl
        | error => exact .unmapped disabled still zero rfl
      | _ => exact .unmapped kept still zero rfl
    | checking =>
      simp only [proceed, at_, setupStep]
      split <;> exact .unmapped disabled still zero rfl
    | sizing =>
      simp only [proceed, at_, setupStep]
      exact .unmapped disabled still zero rfl
    | registering =>
      simp only [proceed, at_, setupStep]
      exact .uncleared disabled still zero (by simp [SetupPc.ctrl]) (fun _ => rfl) rfl
    | enabling pc => exact held.enabling at_ still returned
    | failed =>
      simp only [proceed, at_, setupStep]
      exact .unmapped disabled still zero rfl

/-! ## Ticks and the hardware -/

/-- With both pointers where ENABLE and an earlier session left them, a tick
finds no block. -/
theorem cleared_pointer_still {d : Device} (cleared : d.priv.timerWrPtr = 0)
    (less : d.regs.rxBufWr.toNat < rxBlockSize.toNat) : newBlocks rxBlockSize d = 0 := by
  apply BitVec.eq_of_toNat_eq
  have distance : cyclicDistance d.priv.rxbufSize 0 d.regs.rxBufWr = d.regs.rxBufWr := by
    simp [cyclicDistance, BitVec.le_def]
  rw [newBlocks, cleared, distance, BitVec.toNat_udiv, Nat.div_eq_of_lt less]
  rfl

/-- A tick while the engine runs announces blocks it has written. -/
theorem Leads.tick {b : SetupBench} (held : Leads rxBlockSize b)
    (fits : b.dev.priv.timerWrPtr.toNat +
      (newBlocks rxBlockSize b.dev).toNat * rxBlockSize.toNat < 2 ^ 32) :
    Leads rxBlockSize { b with dev := timer rxBlockSize b.dev } := by
  obtain ⟨regs, size, _, _⟩ := timer_frame rxBlockSize b.dev
  obtain ⟨blocks, count, pointer, behind⟩ := held.announced
  have same : ({ b with dev := timer rxBlockSize b.dev } : SetupBench).size = b.size :=
    congrArg BitVec.toNat size
  refine ⟨same ▸ held.positive, ?_, ?_, blocks + (newBlocks rxBlockSize b.dev).toNat, ?_, ?_, ?_⟩
  · change (timer rxBlockSize b.dev).regs.rxBufSize = (timer rxBlockSize b.dev).priv.rxbufSize
    rw [regs, size, held.latched]
  · rw [same]
    exact (congrArg (·.rxBufWr.toNat) regs).trans held.hardwareAt
  · change (timer rxBlockSize b.dev).priv.blocksReady = _
    rw [timer_count held.positive, count]
    simp [BitVec.ofNat_add]
  · rw [same, Nat.add_mul]
    exact timer_pointer held.positive pointer fits
  · rw [Nat.add_mul]
    exact newBlocks_behind held.positive behind pointer held.hardwareAt

theorem SetUp.tick {b : SetupBench} (held : SetUp rxBlockSize b)
    (safe : TickSafe rxBlockSize b .tick) :
    SetUp rxBlockSize (proceed rxBlockSize size b .tick) := by
  obtain ⟨window, fits⟩ := safe
  simp only [proceed]
  by_cases active : b.dev.priv.timerActive = true
  · simp only [active, if_true]
    obtain ⟨regs, ring, _, _⟩ := timer_frame rxBlockSize b.dev
    by_cases waiting : b.pc.pointerCleared = true ∧ b.running = false
    · have still : timer rxBlockSize b.dev = b.dev :=
        timer_still (cleared_pointer_still (held.pointer waiting.1 waiting.2)
          (window waiting.1 waiting.2))
      rwa [still]
    · have same : (timer rxBlockSize b.dev).priv.rxbufSize.toNat = b.size :=
        congrArg BitVec.toNat ring
      refine ⟨?_, ?_, ?_, ?_, held.unwritten, ?_, ?_, ?_⟩
      · rw [regs]
        exact held.disabled
      · change _ → 0 < (timer rxBlockSize b.dev).priv.rxbufSize.toNat
        rw [same]
        exact held.chosen
      · change _ → 0 < (timer rxBlockSize b.dev).priv.rxbufSize.toNat
        rw [same, regs]
        exact held.enabled
      · rw [regs, ring]
        exact held.registered
      · intro cleared still
        exact absurd ⟨cleared, still⟩ waiting
      · intro cleared still
        exact absurd ⟨SetupPc.pointer_first cleared, still⟩ waiting
      · intro running
        exact (held.leads running).tick (fits running)
  · simp only [active, if_false, Bool.false_eq_true]
    exact held

/-- The engine starts with nothing announced and nothing written. -/
theorem SetUp.start {b : SetupBench} (held : SetUp rxBlockSize b) :
    SetUp rxBlockSize (proceed rxBlockSize size b .engineStarts) := by
  simp only [proceed]
  split
  · rename_i starts
    obtain ⟨waiting, enabled⟩ : b.running = false ∧ rxEnabled b.dev.regs.ctrl = true := by
      simpa using starts
    have returned : b.pc.returned = true := by
      by_contra before
      have disabled := (held.disabled (by simpa using before)).1
      simp [enabled] at disabled
    have done : b.pc = .enabling .returned := SetupPc.returned_eq returned
    have pointerCleared : b.pc.pointerCleared = true := by rw [done]; rfl
    have countCleared : b.pc.countCleared = true := by rw [done]; rfl
    have mapped : b.pc.mapped = true := by rw [done]; rfl
    have positive := held.enabled enabled
    have zero := held.unwritten waiting
    refine ⟨by simp [returned], held.chosen, held.enabled, held.registered, by simp, by simp,
      by simp, ?_⟩
    intro _
    refine ⟨positive, held.registered mapped, ?_, 0, ?_, ?_, ?_⟩
    · simp [zero]
    · exact held.count countCleared waiting
    · change b.dev.priv.timerWrPtr.toNat = _
      simp [held.pointer pointerCleared waiting]
    · simp
  · exact held

theorem SetUp.write {b : SetupBench} (held : SetUp rxBlockSize b) (bytes : Nat) :
    SetUp rxBlockSize (proceed rxBlockSize size b (.hardware bytes)) := by
  simp only [proceed]
  split
  · rename_i running
    obtain ⟨positive, latched, hardwareAt, blocks, count, pointer, behind⟩ := held.leads running
    have below : (b.written + bytes) % b.size < 2 ^ 32 :=
      Nat.lt_trans (Nat.mod_lt _ positive) b.dev.priv.rxbufSize.isLt
    refine ⟨held.disabled, held.chosen, held.enabled, held.registered, by simp [running],
      held.pointer, held.count, ?_⟩
    intro _
    refine ⟨positive, latched, ?_, blocks, count, pointer,
      Nat.le_trans behind (Nat.le_add_right _ _)⟩
    change (BitVec.ofNat 32 ((b.written + bytes) % b.dev.regs.rxBufSize.toNat)).toNat =
      (b.written + bytes) % b.size
    rw [latched, BitVec.toNat_ofNat]
    exact Nat.mod_eq_of_lt below
  · exact held

theorem SetUp.proceed {b : SetupBench} (held : SetUp rxBlockSize b) (e : SetupEvent)
    (safe : TickSafe rxBlockSize b e) : SetUp rxBlockSize (proceed rxBlockSize size b e) := by
  cases e with
  | setup => exact held.setup
  | tick => exact held.tick safe
  | engineStarts => exact held.start
  | hardware bytes => exact held.write bytes

/-- For every pointer left by an earlier session, every ring and block size, and
every interleaving of the set-up thread with ticks and hardware steps, only
written bytes are announced from the return of ENABLE on, provided the ticks
before the engine starts find no whole block in the old pointer. -/
theorem announced_written (d : Device) (events : List SetupEvent)
    (safe : Follows (TickSafe rxBlockSize) (proceed rxBlockSize size) (closedBench d) events) :
    AnnouncesWritten rxBlockSize (run (proceed rxBlockSize size) (closedBench d) events) := by
  have initial : SetUp rxBlockSize (closedBench d) := .unmapped rxEnabled_zero rfl rfl rfl
  have held : SetUp rxBlockSize (run (proceed rxBlockSize size) (closedBench d) events) :=
    invariant (fun _ e held safe => held.proceed e safe) initial events safe
  exact held.announcesWritten

end Bench

/-- An earlier session left the hardware's pointer one block into the ring. -/
def staleDevice : Device :=
  { reserved 0x08000000 with regs := { (reserved 0x08000000).regs with rxBufWr := 65536 } }

/-- All statements of the thread, up to the return of ENABLE. -/
def allStatements : List SetupEvent := List.replicate 19 .setup

/-- A tick after the return of ENABLE, before the engine has started, announces a
block of the earlier session in a ring of two. -/
theorem stale_block_announced :
    ¬ AnnouncesWritten 65536 (run (proceed 65536 131072) (closedBench staleDevice)
        (allStatements ++ [.tick])) ∧
      (run (proceed 65536 131072) (closedBench staleDevice)
        (allStatements ++ [.tick])).dev.priv.blocksReady = 1 ∧
      (run (proceed 65536 131072) (closedBench staleDevice)
        (allStatements ++ [.tick])).written = 0 := by
  decide +kernel

/-- Ticks around the set-up and after the start, with a block and a burst written
between two ticks. -/
def calmStart : List SetupEvent :=
  List.replicate 14 .setup ++ [.tick] ++ List.replicate 5 .setup ++
    [.engineStarts, .tick, .hardware 65664, .tick, .hardware 65536, .tick]

theorem announced_written_calm :
    AnnouncesWritten 65536 (run (proceed 65536 131072) (closedBench staleDevice) calmStart) :=
  announced_written staleDevice calmStart (by decide +kernel)

end Zyndra.Driver
