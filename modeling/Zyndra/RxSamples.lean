import Zyndra.Ad936xAxi
import Zyndra.WriteBench

/-!
# From the receiver to the burst writer

The writer process tests the full flag when a sample is valid and registers the
write, so the FIFO takes the word one clock later. The write is not lost: no
sample is valid in the clock between, so nothing has been written since the flag
was low, and reads only make room. On the other side the pop, the valid flag and
the ready flag of the burst writer describe one event, whether the packing
register holds half a word or not.

The two clocks are unrelated: a run is any interleaving of their edges.
-/

namespace Zyndra.Ad936xAxi

open Runs AxiMasterWr

/-- The receive path and what has been seen of it. -/
structure RxPath (Fifo : Type) where
  writer : WriterRegs
  contents : List (BitVec 32)
  /-- The full flag at the last clock of the samples, and whether one was valid then. -/
  full : Bool
  lastValid : Bool
  engine : AxiMasterWr.Bench Fifo
  /-- The valid samples in order, each with whether it raised `s_sample_drop`. -/
  fates : List (RxPorts × Bool)
  /-- Clocks in which `s_sample_drop` was high. -/
  dropClocks : Nat
  /-- Words that have entered and left the queue. -/
  enqueued : List (BitVec 32)
  popped : List (BitVec 32)
  /-- The words of the engine's own FIFO, packed of two each. -/
  stored : List (BitVec 64)

inductive RxEvent where
  /-- A clock of the samples, with the full flag it finds. -/
  | iqClock (ports : RxPorts) (full : Bool)
  /-- A clock of the engine, with its other inputs and the empty flag it finds. -/
  | aclk (inputs : Inputs) (empty : Bool)

section Path

variable {Fifo : Type} (g : Generics) (xpm : XpmFifoSync (BitVec 64) Fifo)

/-- The read side of the queue, out of reset. -/
def rxReadSide (empty : Bool) (contents : List (BitVec 32)) : FifoReadSide :=
  ⟨empty, false, contents.headD 0⟩

/-- The engine's inputs, with the stream driven by the queue. -/
def streamed (inputs : Inputs) (fifo : FifoReadSide) : Inputs :=
  { inputs with iTdata := fifo.dout, iTvalid := sAxisValid fifo }

/-- A clock of the samples: the FIFO takes a registered write unless its full flag
is high, and the writer process registers the next one. -/
def iqClock (b : RxPath Fifo) (ports : RxPorts) (full : Bool) : RxPath Fifo :=
  let writer := writerProcess true false ports ⟨full, false⟩ b.writer
  let entering := if b.writer.sFifoWr && !full then [b.writer.sWrData] else []
  { b with
    writer := writer
    contents := b.contents ++ entering
    full := full
    lastValid := ports.iRxIqValid
    fates := if ports.iRxIqValid then b.fates ++ [(ports, writer.sSampleDrop)] else b.fates
    dropClocks := b.dropClocks + writer.sSampleDrop.toNat
    enqueued := b.enqueued ++ entering }

/-- A clock of the engine: it pops the queue by `s_fifo_rd`. -/
def aclk (b : RxPath Fifo) (inputs : Inputs) (empty : Bool) : RxPath Fifo :=
  let fifo := rxReadSide empty b.contents
  let pop := sFifoRd (oTready xpm b.engine.dut) fifo
  let driven := streamed inputs fifo
  { b with
    contents := if pop then b.contents.tail else b.contents
    engine := observe g xpm b.engine driven
    popped := if pop then b.popped ++ b.contents.take 1 else b.popped
    stored := b.stored ++ BoundedQueue.offered (sFifoWr xpm b.engine.dut driven)
      (driven.iTdata ++ b.engine.dut.regs.sPrevTdata) }

def receive (b : RxPath Fifo) : RxEvent → RxPath Fifo
  | .iqClock ports full => iqClock b ports full
  | .aclk inputs empty => aclk g xpm b inputs empty

/-- Valid samples are separated by a clock. The full flag is high when the queue
is full, may stay high longer, and does not rise before. The empty flag is high
when the queue is empty and may be high longer. -/
def PathRule (depth : Nat) (b : RxPath Fifo) : RxEvent → Prop
  | .iqClock ports full =>
    (ports.iRxIqValid = true → b.lastValid = false) ∧
      (depth ≤ b.contents.length → full = true) ∧
      (b.full = false → b.contents.length < depth → full = false)
  | .aclk inputs empty => inputs.iAresetn = true ∧ (b.contents = [] → empty = true)

instance (depth : Nat) (b : RxPath Fifo) : (e : RxEvent) → Decidable (PathRule depth b e)
  | .iqClock _ _ => inferInstanceAs (Decidable (_ ∧ _ ∧ _))
  | .aclk _ _ => inferInstanceAs (Decidable (_ ∧ _))

/-- The path at some moment with no sample on its way into the queue. What the
queue, the engine and the flag hold then is arbitrary. -/
def pathStart (contents : List (BitVec 32)) (engine : AxiMasterWr.Bench Fifo) (sWrData : BitVec 32)
    (full : Bool) : RxPath Fifo where
  writer := ⟨false, false, sWrData⟩
  contents := contents
  full := full
  lastValid := false
  engine := engine
  fates := []
  dropClocks := 0
  enqueued := []
  popped := []
  stored := []

/-- The word registered and not yet in the queue. -/
def inFlight (w : WriterRegs) : List (BitVec 32) := if w.sFifoWr then [w.sWrData] else []

/-- The words of the samples that raised no drop. -/
def storedSamples (fates : List (RxPorts × Bool)) : List (BitVec 32) :=
  (fates.filter fun fate => !fate.2).map fun fate => rxWord fate.1.iRxIqI fate.1.iRxIqQ

/-- Each valid sample raised the drop flag for its one clock or enters the queue
once, in order. Each word leaving the queue is one the engine accepts from its
stream, and one that its packing register takes. -/
structure Accounted (contents : List (BitVec 32)) (engine : AxiMasterWr.Bench Fifo)
    (b : RxPath Fifo) : Prop where
  entered : b.enqueued ++ inFlight b.writer = storedSamples b.fates
  dropped : b.dropClocks = b.fates.countP fun fate => fate.2
  left : b.popped ++ b.contents = contents ++ b.enqueued
  accepted : b.engine.words = engine.words ++ b.popped
  packed : b.stored.flatMap halves ++
      packed b.engine.dut.regs.sPrevTvalid b.engine.dut.regs.sPrevTdata =
    packed engine.dut.regs.sPrevTvalid engine.dut.regs.sPrevTdata ++ b.popped

/-- A registered write finds room: its sample was the last one, the full flag was
low then, and nothing has been written since. -/
structure Safe (depth : Nat) (b : RxPath Fifo) : Prop where
  recent : b.writer.sFifoWr = true → b.lastValid = true
  low : b.writer.sFifoWr = true → b.full = false
  room : b.writer.sFifoWr = true → b.contents.length < depth

/-! ## One clock of the samples -/

section Samples

variable {depth : Nat} {b : RxPath Fifo} {contents : List (BitVec 32)}
  {engine : AxiMasterWr.Bench Fifo}

/-- A write that is registered enters the queue at the next clock of the samples. -/
theorem Safe.enters (safe : Safe depth b) {ports : RxPorts} {full : Bool}
    (rule : PathRule depth b (.iqClock ports full)) :
    (if b.writer.sFifoWr && !full then [b.writer.sWrData] else []) = inFlight b.writer := by
  cases write : b.writer.sFifoWr with
  | false => simp [inFlight, write]
  | true =>
    have low : full = false := rule.2.2 (safe.low write) (safe.room write)
    simp [inFlight, write, low]

/-- What the writer process does with the sample of a clock. -/
theorem writerProcess_cases (ports : RxPorts) (full : Bool) (w : WriterRegs) :
    (ports.iRxIqValid = false ∧
        (writerProcess true false ports ⟨full, false⟩ w).sFifoWr = false ∧
        (writerProcess true false ports ⟨full, false⟩ w).sSampleDrop = false) ∨
      (ports.iRxIqValid = true ∧ full = true ∧
        (writerProcess true false ports ⟨full, false⟩ w).sFifoWr = false ∧
        (writerProcess true false ports ⟨full, false⟩ w).sSampleDrop = true) ∨
      (ports.iRxIqValid = true ∧ full = false ∧
        writerProcess true false ports ⟨full, false⟩ w =
          ⟨true, false, rxWord ports.iRxIqI ports.iRxIqQ⟩) := by
  cases valid : ports.iRxIqValid <;> cases full <;> simp [writerProcess, valid]

/-- The next write is registered only under a low full flag, with room behind it. -/
theorem Safe.iqClock (safe : Safe depth b) {ports : RxPorts} {full : Bool}
    (rule : PathRule depth b (.iqClock ports full)) : Safe depth (iqClock b ports full) := by
  obtain ⟨separated, shown, _⟩ := rule
  rcases writerProcess_cases ports full b.writer with
    ⟨_, quiet, _⟩ | ⟨_, _, quiet, _⟩ | ⟨valid, low, _⟩
  · have nothing : (Ad936xAxi.iqClock b ports full).writer.sFifoWr ≠ true := by
      change (writerProcess true false ports ⟨full, false⟩ b.writer).sFifoWr ≠ true
      simp [quiet]
    exact ⟨fun write => absurd write nothing, fun write => absurd write nothing,
      fun write => absurd write nothing⟩
  · have nothing : (Ad936xAxi.iqClock b ports full).writer.sFifoWr ≠ true := by
      change (writerProcess true false ports ⟨full, false⟩ b.writer).sFifoWr ≠ true
      simp [quiet]
    exact ⟨fun write => absurd write nothing, fun write => absurd write nothing,
      fun write => absurd write nothing⟩
  · have noWrite : b.writer.sFifoWr = false := by
      by_contra write
      have last := safe.recent (by simpa using write)
      exact Bool.false_ne_true ((separated valid).symm.trans last)
    have unchanged : (Ad936xAxi.iqClock b ports full).contents = b.contents := by
      simp [Ad936xAxi.iqClock, noWrite]
    have below : b.contents.length < depth := by
      by_contra reached
      have high := shown (Nat.le_of_not_lt reached)
      exact Bool.false_ne_true (low.symm.trans high)
    exact ⟨fun _ => valid, fun _ => low, fun _ => unchanged ▸ below⟩

/-- A sample that raised the drop flag adds no word, any other its own. -/
theorem storedSamples_append (fates : List (RxPorts × Bool)) (ports : RxPorts) (drop : Bool) :
    storedSamples (fates ++ [(ports, drop)]) =
      storedSamples fates ++ if drop then [] else [rxWord ports.iRxIqI ports.iRxIqQ] := by
  cases drop <;> simp [storedSamples]

/-- The registers after a clock decide the fate of its sample. -/
theorem fate_of_sample (ports : RxPorts) (full : Bool) (w : WriterRegs)
    (fates : List (RxPorts × Bool)) :
    storedSamples fates ++ inFlight (writerProcess true false ports ⟨full, false⟩ w) =
        storedSamples (if ports.iRxIqValid then
          fates ++ [(ports, (writerProcess true false ports ⟨full, false⟩ w).sSampleDrop)]
          else fates) ∧
      fates.countP (fun fate => fate.2) +
          (writerProcess true false ports ⟨full, false⟩ w).sSampleDrop.toNat =
        (if ports.iRxIqValid then
          fates ++ [(ports, (writerProcess true false ports ⟨full, false⟩ w).sSampleDrop)]
          else fates).countP (fun fate => fate.2) := by
  rcases writerProcess_cases ports full w with
    ⟨invalid, quiet, kept⟩ | ⟨valid, _, quiet, drop⟩ | ⟨valid, _, written⟩
  · simp [invalid, inFlight, quiet, kept]
  · simp [valid, inFlight, quiet, drop, storedSamples_append]
  · simp [valid, inFlight, written, storedSamples_append]

/-- A clock of the samples accounts for the sample it finds. -/
theorem Accounted.iqClock (accounted : Accounted contents engine b) (safe : Safe depth b)
    {ports : RxPorts} {full : Bool} (rule : PathRule depth b (.iqClock ports full)) :
    Accounted contents engine (iqClock b ports full) := by
  have entering := safe.enters rule
  obtain ⟨word, drop⟩ := fate_of_sample ports full b.writer b.fates
  refine { accounted with entered := ?_, dropped := ?_, left := ?_ }
  · simp only [Ad936xAxi.iqClock]
    rw [entering, accounted.entered]
    exact word
  · simp only [Ad936xAxi.iqClock]
    rw [accounted.dropped]
    exact drop
  · simp only [Ad936xAxi.iqClock]
    rw [← List.append_assoc, accounted.left, List.append_assoc]

end Samples

/-! ## One clock of the engine -/

section Engine

variable {g : Generics} {xpm : XpmFifoSync (BitVec 64) Fifo} {depth : Nat} {b : RxPath Fifo}
  {contents : List (BitVec 32)} {engine : AxiMasterWr.Bench Fifo}

/-- Reads only make room. -/
theorem Safe.aclk (safe : Safe depth b) (inputs : Inputs) (empty : Bool) :
    Safe depth (aclk g xpm b inputs empty) := by
  refine { safe with room := fun write => ?_ }
  have room := safe.room write
  simp only [Ad936xAxi.aclk]
  split
  · rw [List.length_tail]
    omega
  · exact room

/-- The pop, the stream's handshake and the ready flag are one event, and the word
popped is the word on the stream. -/
theorem popped_accepted {empty : Bool} (shown : b.contents = [] → empty = true) (ready : Bool) :
    sFifoRd ready (rxReadSide empty b.contents) =
        (sAxisValid (rxReadSide empty b.contents) && ready) ∧
      (if sFifoRd ready (rxReadSide empty b.contents) then b.contents.take 1 else []) =
        if sAxisValid (rxReadSide empty b.contents) && ready then [b.contents.headD 0] else [] := by
  cases held : b.contents with
  | nil => simp [sFifoRd, sAxisValid, rxReadSide, shown held]
  | cons word others => cases ready <;> simp [sFifoRd, sAxisValid, rxReadSide]

/-- A clock of the engine hands it each word that leaves the queue. -/
theorem Accounted.aclk (accounted : Accounted contents engine b) {inputs : Inputs} {empty : Bool}
    (rule : PathRule depth b (.aclk inputs empty)) :
    Accounted contents engine (aclk g xpm b inputs empty) := by
  obtain ⟨_, word⟩ := popped_accepted rule.2 (oTready xpm b.engine.dut)
  have driven : (streamed inputs (rxReadSide empty b.contents)).iAresetn = true := rule.1
  have out : (Ad936xAxi.aclk g xpm b inputs empty).popped = b.popped ++
      if sAxisValid (rxReadSide empty b.contents) && oTready xpm b.engine.dut then
        [b.contents.headD 0] else [] := by
    rw [← word]
    simp only [Ad936xAxi.aclk]
    split
    · rfl
    · exact (List.append_nil _).symm
  refine { accounted with left := ?_, accepted := ?_, packed := ?_ }
  · have kept : (Ad936xAxi.aclk g xpm b inputs empty).popped ++
        (Ad936xAxi.aclk g xpm b inputs empty).contents = b.popped ++ b.contents := by
      simp only [Ad936xAxi.aclk]
      split
      · rw [List.append_assoc, ← List.drop_one, List.take_append_drop]
      · rfl
    rw [kept]
    exact accounted.left
  · rw [out, ← List.append_assoc, ← accounted.accepted]
    rfl
  · have conserved := packProcess_conserves xpm b.engine.dut
      (streamed inputs (rxReadSide empty b.contents)) driven
    rw [out, ← List.append_assoc, ← accounted.packed, List.append_assoc]
    simp only [Ad936xAxi.aclk, List.flatMap_append, List.append_assoc]
    congr 1

end Engine

/-- At every moment of every run, whatever the queue and the engine hold at its
start: each valid sample has either raised the drop flag for one clock or entered
the queue once, in order, and each word that has left the queue has been accepted
by the engine once. -/
theorem samples_accounted (g : Generics) (xpm : XpmFifoSync (BitVec 64) Fifo) (depth : Nat)
    (contents : List (BitVec 32)) (engine : AxiMasterWr.Bench Fifo) (sWrData : BitVec 32)
    (full : Bool) (events : List RxEvent)
    (follows : Follows (PathRule depth) (receive g xpm) (pathStart contents engine sWrData full)
      events) :
    Accounted contents engine
      (run (receive g xpm) (pathStart contents engine sWrData full) events) := by
  have preserved : ∀ b e, Safe depth b ∧ Accounted contents engine b → PathRule depth b e →
      Safe depth (receive g xpm b e) ∧ Accounted contents engine (receive g xpm b e) := by
    rintro b e ⟨safe, accounted⟩ rule
    cases e with
    | iqClock ports full => exact ⟨safe.iqClock rule, accounted.iqClock safe rule⟩
    | aclk inputs empty => exact ⟨safe.aclk inputs empty, accounted.aclk rule⟩
  have safe : Safe depth (pathStart contents engine sWrData full) :=
    ⟨fun write => absurd write Bool.false_ne_true, fun write => absurd write Bool.false_ne_true,
      fun write => absurd write Bool.false_ne_true⟩
  have accounted : Accounted contents engine (pathStart contents engine sWrData full) :=
    ⟨rfl, rfl, by simp [pathStart], by simp [pathStart], by simp [pathStart]⟩
  exact (invariant preserved ⟨safe, accounted⟩ events follows).2

end Path

/-- The depth of the receive FIFO. -/
def rxFifoWriteDepth : Nat := 8192 * 8

/-- A queue of one word: a sample that reaches it, one that finds it full, and two clocks
of the engine, which leaves STANDBY and takes the first. -/
def oneDropped : List RxEvent :=
  [.iqClock ⟨5, 9, true⟩ false, .iqClock ⟨0, 0, false⟩ false, .iqClock ⟨6, 8, true⟩ true] ++
    List.replicate 2
      (.aclk ⟨true, true, 0x10000000, 0x10000, false, false, false, 0, false⟩ false)

theorem samples_accounted_dropped :
    let b := run (receive .ad936xAxi (idealFifo .ad936xAxi))
      (pathStart [] (resetBench 0 0 []) 0 false) oneDropped
    b.popped = [rxWord 5 9] ∧ b.dropClocks = 1 ∧ Accounted [] (resetBench 0 0 []) b :=
  ⟨by decide +kernel, by decide +kernel, samples_accounted .ad936xAxi (idealFifo .ad936xAxi) 1 []
    (resetBench 0 0 []) 0 false oneDropped (by decide +kernel)⟩

end Zyndra.Ad936xAxi
