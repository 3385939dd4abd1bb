import Zyndra.RxSamples
import Zyndra.WriteMemory

/-!
# The receive path from the samples to memory

The sample FIFO, the writer with its own FIFO and the memory behind its port,
together. Each part keeps its account: samples are dropped or enter the queue,
words leave it into the engine's stream, the stream is the beats, and the beats lie
round the ring. What software finds behind the offset it reads is therefore the
samples that raised no drop, two to a word and in order.
-/

namespace Zyndra.Ad936xAxi

open AxiMasterWr PostedWrites Runs

/-- The path of the samples, the memory, and the mark on a burst a word short; all three
follow one engine. -/
structure Receiver where
  path : RxPath (List (BitVec 64))
  memory : MemoryBench (List (BitVec 64))
  mark : StreamBench

/-- A clock of the samples, or of the engine and the memory. -/
inductive ReceiverEvent where
  | iqClock (ports : RxPorts) (full : Bool)
  | aclk (inputs : Inputs) (empty : Bool) (commits : Nat)

/-- The event as the path of the samples sees it. -/
def ReceiverEvent.path : ReceiverEvent → RxEvent
  | .iqClock ports full => .iqClock ports full
  | .aclk inputs empty _ => .aclk inputs empty

section Receiver

variable (g : Generics)

/-- The engine's inputs on a clock. -/
def Receiver.driven (r : Receiver) (inputs : Inputs) (empty : Bool) : Inputs :=
  streamed inputs (rxReadSide empty r.path.contents)

def Receiver.step (r : Receiver) (e : ReceiverEvent) : Receiver where
  path := receive g (idealFifo g) r.path e.path
  memory :=
    match e with
    | .iqClock _ _ => r.memory
    | .aclk inputs empty commits =>
      remember g (idealFifo g) r.memory ⟨r.driven inputs empty, commits⟩
  mark :=
    match e with
    | .iqClock _ _ => r.mark
    | .aclk inputs empty _ => watch g r.mark (r.driven inputs empty)

/-- The queue shows its flags in time, the memory answers what it holds, and a short
burst is made up before it is addressed. -/
def ReceiverRule (depth : Nat) (r : Receiver) (e : ReceiverEvent) : Prop :=
  PathRule depth r.path e.path ∧
    match e with
    | .iqClock _ _ => True
    | .aclk inputs empty commits =>
      WriteMemoryRule g r.memory ⟨r.driven inputs empty, commits⟩ ∧
        MadeUp g r.mark (r.driven inputs empty)

instance (depth : Nat) (r : Receiver) : (e : ReceiverEvent) → Decidable (ReceiverRule g depth r e)
  | .iqClock _ _ => inferInstanceAs (Decidable (_ ∧ True))
  | .aclk _ _ _ => inferInstanceAs (Decidable (_ ∧ _ ∧ _))

/-- Out of reset, with nothing received. -/
def receiverStart (sWrPtr sPrevTdata sWrData : BitVec 32) (memory : Nat → BitVec 64) :
    Receiver where
  path := pathStart [] (resetBench sWrPtr sPrevTdata []) sWrData false
  memory := memoryStart sWrPtr sPrevTdata [] memory
  mark := ⟨resetBench sWrPtr sPrevTdata [], false⟩

/-- What the parts keep, and that they follow one engine. -/
structure Receives (depth : Nat) (engine : AxiMasterWr.Bench (List (BitVec 64))) (r : Receiver) :
    Prop where
  safe : Safe depth r.path
  accounted : Accounted [] engine r.path
  remembers : Remembers g r.memory
  stocked : Stocked g r.mark
  memoryEngine : r.memory.bench = r.path.engine
  markEngine : r.mark.bench = r.path.engine

variable {g} {depth : Nat} {engine : AxiMasterWr.Bench (List (BitVec 64))} {r : Receiver}

theorem Receives.step (held : Receives g depth engine r) {e : ReceiverEvent}
    (rule : ReceiverRule g depth r e) : Receives g depth engine (r.step g e) := by
  obtain ⟨pathRule, engineRule⟩ := rule
  cases e with
  | iqClock ports full =>
    exact ⟨held.safe.iqClock pathRule, held.accounted.iqClock held.safe pathRule, held.remembers,
      held.stocked, held.memoryEngine, held.markEngine⟩
  | aclk inputs empty commits =>
    obtain ⟨memoryRule, madeUp⟩ := engineRule
    refine ⟨held.safe.aclk inputs empty, held.accounted.aclk pathRule,
      held.remembers.remember (idealFifo g) memoryRule, held.stocked.watch memoryRule.1.1.1 madeUp,
      ?_, ?_⟩
    · change observe g (idealFifo g) r.memory.bench _ = observe g (idealFifo g) r.path.engine _
      rw [held.memoryEngine]
      rfl
    · change observe g (idealFifo g) r.mark.bench _ = observe g (idealFifo g) r.path.engine _
      rw [held.markEngine]
      rfl

theorem receiverStart_receives (sWrPtr sPrevTdata sWrData : BitVec 32) (memory : Nat → BitVec 64) :
    Receives g depth (resetBench sWrPtr sPrevTdata [])
      (receiverStart sWrPtr sPrevTdata sWrData memory) where
  safe := ⟨fun write => absurd write Bool.false_ne_true,
    fun write => absurd write Bool.false_ne_true,
    fun write => absurd write Bool.false_ne_true⟩
  accounted := ⟨rfl, rfl, rfl, rfl, rfl⟩
  remembers := memoryStart_remembers sWrPtr sPrevTdata [] memory
  stocked := stocked_reset g sWrPtr sPrevTdata
  memoryEngine := rfl
  markEngine := rfl

/-- The beats accepted, as words of the stream, are the first of the samples that raised
no drop. -/
theorem Receives.beats_samples (held : Receives g depth engine r) (fresh : engine.words = []) :
    (r.memory.earlier ++ r.memory.taken).flatMap halves <+: storedSamples r.path.fates := by
  have conserves := held.stocked.conserves
  have accepted := held.accounted.accepted
  have left := held.accounted.left
  have entered := held.accounted.entered
  rw [fresh, List.nil_append] at accepted
  rw [List.nil_append] at left
  rw [Conserves, held.markEngine, accepted, List.append_assoc] at conserves
  rw [← held.remembers.beats, held.memoryEngine, ← entered, ← left, ← conserves]
  simp only [List.append_assoc]
  exact List.prefix_append _ _

/-- A beat is the two words at its place in the stream. -/
theorem beat_words {beats : List (BitVec 64)} {words : List (BitVec 32)}
    (stream : beats.flatMap halves <+: words) {index : Nat} (inside : index < beats.length) :
    halves (beats.getD index 0) = (words.drop (2 * index)).take 2 := by
  obtain ⟨rest, rfl⟩ := stream
  induction beats generalizing index with
  | nil => exact absurd inside (Nat.not_lt_zero _)
  | cons beat others inductionHypothesis =>
    cases index with
    | zero => rfl
    | succ index =>
      have shift : 2 * (index + 1) = 2 * index + 2 := by omega
      rw [List.getD_cons_succ, inductionHypothesis (Nat.lt_of_succ_lt_succ inside), shift]
      rfl

end Receiver

/-- Thirty-two samples, each handed to the engine at once, and the burst they fill. -/
def burstReceived : List ReceiverEvent :=
  [.aclk (ports false false false false 0) true 1] ++
    (List.range 32).flatMap (fun k =>
      [.iqClock ⟨BitVec.ofNat 12 k, 0, true⟩ false, .iqClock ⟨0, 0, false⟩ false,
        .aclk (ports false false false false 0) false 1]) ++
    [.aclk (ports false false false false 0) true 1] ++
    burstOnBus.map (fun inputs => .aclk inputs true 1) ++
    [.aclk (ports false false false false 0) true 1, .aclk (ports false false true false 0) true 1]

end Zyndra.Ad936xAxi
