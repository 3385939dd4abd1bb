import Zyndra.Ad936xAxi
import Zyndra.Ad936xTxrx
import Zyndra.Runs

/-!
# From the transmit FIFO to the link

The peripheral pops and selects, the serializer accepts and latches, and the only
signal between them is the phase. Joined, each MSB phase opens a slot: the head
word, the sample before it once more, or silence. The LSB phase takes nothing and
looks at nothing but the latches, so an enable that falls between the two phases
changes nothing in the slot.
-/

namespace Zyndra.Ad936xAxi

open Runs Ad936xTxrx

/-- What a slot carries. -/
inductive WordSlot where
  /-- The word that was popped for it. -/
  | word (w : BitVec 32)
  /-- The sample of the slot before it: the queue was empty. -/
  | repeated
  /-- Zero, while disabled; the head word, if there was one, is discarded. -/
  | silent (discarded : Option (BitVec 32))
  deriving DecidableEq, Repr

/-- The slot an MSB phase opens. -/
def openWord (sTxEnable : Bool) (contents : List (BitVec 32)) : WordSlot :=
  if sTxEnable then
    match contents with
    | w :: _ => .word w
    | [] => .repeated
  else .silent contents.head?

/-- The sample of a slot, after that of the slot before it. -/
def carries (previous : Sample) : WordSlot → Sample
  | .word w => ⟨w.extractLsb' 4 12, w.extractLsb' 20 12⟩
  | .repeated => previous
  | .silent _ => ⟨0, 0⟩

/-- The samples of consecutive slots. -/
def samplesFrom (previous : Sample) : List WordSlot → List Sample
  | [] => []
  | slot :: others => carries previous slot :: samplesFrom (carries previous slot) others

/-- The word that left the queue for a slot. -/
def WordSlot.popped : WordSlot → Option (BitVec 32)
  | .word w => some w
  | .repeated => none
  | .silent discarded => discarded

/-- The word a slot sends. -/
def WordSlot.sentWord : WordSlot → Option (BitVec 32)
  | .word w => some w
  | .repeated => none
  | .silent _ => none

/-- The slots that repeat the one before them, by position. -/
def repeats (slots : List WordSlot) : List Nat :=
  (slots.zipIdx.filter fun entry => decide (entry.1 = .repeated)).map Prod.snd

/-- The pairs of halves a slot puts on the link: one in each of its clocks. -/
def slotPairs (sample : Sample) : List (Half × Half) :=
  [(⟨.one, msb sample.i⟩, ⟨.one, msb sample.q⟩), (⟨.zero, lsb sample.i⟩, ⟨.zero, lsb sample.q⟩)]

/-- The queue, the serializer, and what has been seen of them. -/
structure TxPath where
  contents : List (BitVec 32)
  tx : TxRegs
  /-- All words that have entered and left the queue. -/
  arrived : List (BitVec 32)
  popped : List (BitVec 32)
  /-- The words that have left it in clocks with the enable high. -/
  poppedEnabled : List (BitVec 32)
  /-- The slots opened so far. -/
  slots : List WordSlot
  /-- The pair of halves on the link, clock by clock. -/
  sent : List (Half × Half)
  /-- The slots in progress in the clocks in which `o_tx_underrun` was high. -/
  underruns : List Nat

/-- What may change from clock to clock: the enable, and the words that enter the
queue. -/
structure TxInputs where
  sTxEnable : Bool
  arriving : List (BitVec 32)

/-- The read side of an ideal queue out of reset. -/
def readSide (contents : List (BitVec 32)) : FifoReadSide :=
  ⟨contents.isEmpty, false, contents.headD 0⟩

/-- The sample ports of the serializer, driven by the peripheral. -/
def driven (sTxEnable : Bool) (contents : List (BitVec 32)) : TxPorts :=
  ⟨oTxIqI sTxEnable (readSide contents), oTxIqQ sTxEnable (readSide contents),
    oTxIqValid sTxEnable (readSide contents)⟩

/-- One clock of the iq domain. -/
def transmit (b : TxPath) (inputs : TxInputs) : TxPath :=
  let pop := sTxFifoRd b.tx.oTxRdy (readSide b.contents)
  let tx := serializer (driven inputs.sTxEnable b.contents) b.tx
  let slots :=
    if b.tx.oTxRdy then b.slots ++ [openWord inputs.sTxEnable b.contents] else b.slots
  { contents := (if pop then b.contents.tail else b.contents) ++ inputs.arriving
    tx := tx
    arrived := b.arrived ++ inputs.arriving
    popped := if pop then b.popped ++ b.contents.take 1 else b.popped
    poppedEnabled :=
      if pop && inputs.sTxEnable then b.poppedEnabled ++ b.contents.take 1 else b.poppedEnabled
    slots := slots
    sent := b.sent ++ [(tx.rise, tx.fall)]
    underruns := if tx.oTxUnderrun then b.underruns ++ [slots.length - 1] else b.underruns }

/-- The path after configuration, with an empty queue. -/
def configuredPath (tx : TxRegs) : TxPath := ⟨[], tx, [], [], [], [], [], []⟩

/-- Each slot has put its two pairs on the link, the last one perhaps only the
first of them. Words leave the queue in order, one for each slot that sends or
discards one, and the underrun flag marks exactly the slots that repeat. -/
structure SentOnce (b : TxPath) : Prop where
  pairs : ∃ rest, b.sent ++ rest = (samplesFrom ⟨0, 0⟩ b.slots).flatMap slotPairs ∧
    rest.length = b.tx.sTxIqFlag.toNat
  queue : b.popped ++ b.contents = b.arrived
  words : b.popped = b.slots.filterMap WordSlot.popped
  enabledWords : b.poppedEnabled = b.slots.filterMap WordSlot.sentWord
  flagged : b.underruns = repeats b.slots

/-! ## One clock -/

/-- The last sample of consecutive slots, or the one before them. -/
def lastCarried (slots : List WordSlot) : Sample := slots.foldl carries ⟨0, 0⟩

/-- One slot more is one sample more. -/
theorem samplesFrom_append (previous : Sample) (slots : List WordSlot) (slot : WordSlot) :
    samplesFrom previous (slots ++ [slot]) =
      samplesFrom previous slots ++ [carries (slots.foldl carries previous) slot] := by
  induction slots generalizing previous with
  | nil => rfl
  | cons first others inductionHypothesis =>
    rw [List.cons_append, samplesFrom, inductionHypothesis, samplesFrom, List.foldl_cons,
      List.cons_append]

/-- One slot more is one position more when it repeats. -/
theorem repeats_append (slots : List WordSlot) (slot : WordSlot) :
    repeats (slots ++ [slot]) =
      repeats slots ++ if slot = .repeated then [slots.length] else [] := by
  by_cases repeated : slot = .repeated <;> simp [repeats, List.zipIdx_append, repeated]

section Clock

variable {b : TxPath}

/-- The slot the serializer opens on the driven ports carries the sample of the
slot the queue and the enable ask for, and is a repetition exactly when that is. -/
theorem openSlot_driven (sTxEnable : Bool) (contents : List (BitVec 32)) (slots : List Slot) :
    (openSlot slots (driven sTxEnable contents)).sample =
        carries (lastSample slots) (openWord sTxEnable contents) ∧
      (openSlot slots (driven sTxEnable contents)).repeated =
        decide (openWord sTxEnable contents = .repeated) := by
  cases sTxEnable with
  | false => simp [openSlot, driven, oTxIqValid, oTxIqI, oTxIqQ, openWord, carries]
  | true =>
    cases contents <;>
      simp [openSlot, driven, oTxIqValid, oTxIqI, oTxIqQ, openWord, carries, readSide]

/-- The pop of an MSB phase takes the word of the slot opened, if it has one. -/
theorem pop_openWord (sTxEnable : Bool) (contents : List (BitVec 32)) :
    (if sTxFifoRd true (readSide contents) then contents.tail else contents) = contents.tail ∧
      (if sTxFifoRd true (readSide contents) then contents.take 1 else []) =
        (openWord sTxEnable contents).popped.toList ∧
      (if sTxFifoRd true (readSide contents) && sTxEnable then contents.take 1 else []) =
        (openWord sTxEnable contents).sentWord.toList := by
  cases contents <;> cases sTxEnable <;>
    simp [sTxFifoRd, readSide, openWord, WordSlot.popped, WordSlot.sentWord]

/-- A slot that is opened takes the head word away, when there is one. -/
theorem popped_openWord (sTxEnable : Bool) (contents : List (BitVec 32)) :
    (openWord sTxEnable contents).popped.toList ++ contents.tail = contents := by
  cases contents <;> cases sTxEnable <;> rfl

theorem filterMap_single {α β : Type} (f : α → Option β) (value : α) :
    [value].filterMap f = (f value).toList := by
  cases image : f value <;> simp [image]

/-- Outside the MSB phases nothing is popped. -/
theorem no_pop (fifo : FifoReadSide) : sTxFifoRd false fifo = false := rfl

/-- The pair of halves latched and not yet on the link. -/
def unsentPair (t : TxRegs) : List (Half × Half) :=
  if t.sTxIqFlag then [(⟨.zero, lsb t.latched.i⟩, ⟨.zero, lsb t.latched.q⟩)] else []

/-- What holds between the clocks. -/
structure Sending (b : TxPath) : Prop where
  latched : b.tx.latched = lastCarried b.slots
  pairs : b.sent ++ unsentPair b.tx = (samplesFrom ⟨0, 0⟩ b.slots).flatMap slotPairs
  queue : b.popped ++ b.contents = b.arrived
  words : b.popped = b.slots.filterMap WordSlot.popped
  enabledWords : b.poppedEnabled = b.slots.filterMap WordSlot.sentWord
  flagged : b.underruns = repeats b.slots

/-- What holds between the clocks includes what is promised. -/
theorem Sending.sentOnce (sending : Sending b) : SentOnce b where
  pairs := by
    refine ⟨unsentPair b.tx, sending.pairs, ?_⟩
    unfold unsentPair
    cases b.tx.sTxIqFlag <;> rfl
  queue := sending.queue
  words := sending.words
  enabledWords := sending.enabledWords
  flagged := sending.flagged

/-- The state after an MSB phase. -/
theorem transmit_msb (inputs : TxInputs) (phase : b.tx.sTxIqFlag = false) :
    transmit b inputs =
      { contents := b.contents.tail ++ inputs.arriving
        tx := serializer (driven inputs.sTxEnable b.contents) b.tx
        arrived := b.arrived ++ inputs.arriving
        popped := b.popped ++ (openWord inputs.sTxEnable b.contents).popped.toList
        poppedEnabled := b.poppedEnabled ++ (openWord inputs.sTxEnable b.contents).sentWord.toList
        slots := b.slots ++ [openWord inputs.sTxEnable b.contents]
        sent := b.sent ++ [((serializer (driven inputs.sTxEnable b.contents) b.tx).rise,
          (serializer (driven inputs.sTxEnable b.contents) b.tx).fall)]
        underruns :=
          if (serializer (driven inputs.sTxEnable b.contents) b.tx).oTxUnderrun then
            b.underruns ++ [b.slots.length] else b.underruns } := by
  have first : b.tx.oTxRdy = true := by simp [TxRegs.oTxRdy, phase]
  obtain ⟨kept, gone, sent⟩ := pop_openWord inputs.sTxEnable b.contents
  have left : (if sTxFifoRd true (readSide b.contents) then b.popped ++ b.contents.take 1
      else b.popped) = b.popped ++ (openWord inputs.sTxEnable b.contents).popped.toList := by
    rw [← gone]
    split <;> simp
  have enabled : (if sTxFifoRd true (readSide b.contents) && inputs.sTxEnable then
      b.poppedEnabled ++ b.contents.take 1 else b.poppedEnabled) =
        b.poppedEnabled ++ (openWord inputs.sTxEnable b.contents).sentWord.toList := by
    rw [← sent]
    split <;> simp
  simp only [transmit, first, kept, left, enabled, if_true, List.length_append,
    List.length_singleton, Nat.add_sub_cancel]

/-- The state after an LSB phase. -/
theorem transmit_lsb (inputs : TxInputs) (phase : b.tx.sTxIqFlag = true) :
    transmit b inputs =
      { b with
        contents := b.contents ++ inputs.arriving
        tx := serializer (driven inputs.sTxEnable b.contents) b.tx
        arrived := b.arrived ++ inputs.arriving
        sent := b.sent ++ [((serializer (driven inputs.sTxEnable b.contents) b.tx).rise,
          (serializer (driven inputs.sTxEnable b.contents) b.tx).fall)] } := by
  have quiet := (serializer_lsb (driven inputs.sTxEnable b.contents) phase).2.2.2.2
  have second : b.tx.oTxRdy = false := by simp [TxRegs.oTxRdy, phase]
  simp [transmit, second, no_pop, quiet]

/-- An MSB phase opens a slot and puts its upper bits on the link. -/
theorem Sending.msb (sending : Sending b) (inputs : TxInputs) (phase : b.tx.sTxIqFlag = false) :
    Sending (transmit b inputs) := by
  -- the latches stand for the slots before: the last of them is all the serializer sees
  have held : b.tx.latched = lastSample [⟨b.tx.latched, false⟩] := rfl
  obtain ⟨sample, repeated⟩ :=
    openSlot_driven inputs.sTxEnable b.contents [⟨b.tx.latched, false⟩]
  obtain ⟨flag, latched, rise, fall, underrun⟩ :=
    serializer_msb (driven inputs.sTxEnable b.contents) phase held
  rw [sample, ← held] at latched rise fall
  rw [repeated] at underrun
  have unsent : unsentPair b.tx = [] := by simp [unsentPair, phase]
  have before := sending.pairs
  rw [unsent, List.append_nil] at before
  rw [transmit_msb inputs phase]
  constructor
  · simp only [lastCarried, List.foldl_append, List.foldl_cons, List.foldl_nil]
    rw [latched, sending.latched, lastCarried]
  · rw [samplesFrom_append, List.flatMap_append, ← before, List.append_assoc]
    simp only [unsentPair, flag, latched, rise, fall, if_true, sending.latched, lastCarried]
    rfl
  · have split := popped_openWord inputs.sTxEnable b.contents
    simp only [← sending.queue, List.append_assoc]
    rw [← List.append_assoc _ b.contents.tail, split]
  · simp only [List.filterMap_append, ← sending.words, filterMap_single]
  · simp only [List.filterMap_append, ← sending.enabledWords, filterMap_single]
  · simp only [repeats_append, ← sending.flagged, underrun, decide_eq_true_eq]
    split
    · rfl
    · exact (List.append_nil _).symm

/-- An LSB phase opens no slot, pops nothing and puts the latched lower bits on the
link, whatever the enable and the queue do. -/
theorem Sending.lsb (sending : Sending b) (inputs : TxInputs) (phase : b.tx.sTxIqFlag = true) :
    Sending (transmit b inputs) := by
  obtain ⟨flag, latched, rise, fall, _⟩ :=
    serializer_lsb (driven inputs.sTxEnable b.contents) phase
  have before := sending.pairs
  rw [transmit_lsb inputs phase]
  refine { sending with latched := latched.trans sending.latched, pairs := ?_, queue := ?_ }
  · rw [← before]
    simp only [unsentPair, flag, phase, rise, fall, if_true, Bool.false_eq_true, if_false,
      List.append_nil]
  · simp only [← sending.queue, List.append_assoc]

theorem Sending.transmit (sending : Sending b) (inputs : TxInputs) :
    Sending (transmit b inputs) := by
  cases phase : b.tx.sTxIqFlag with
  | false => exact sending.msb inputs phase
  | true => exact sending.lsb inputs phase

end Clock

/-- For every sequence of arriving words and every toggling of the enable, the
slots on the link are those the queue and the enable ask for: in each MSB phase
the head word is popped and sent, or nothing is popped and the last sample
repeated under the underrun flag, or zeros are sent. -/
theorem words_sent_once (underrun : Bool) (dataRise dataFall : BitVec 6)
    (frameRise frameFall : StdLogic) (inputs : List TxInputs) :
    SentOnce (run transmit
      (configuredPath (configuredTx underrun dataRise dataFall frameRise frameFall)) inputs) := by
  have begins :
      Sending (configuredPath (configuredTx underrun dataRise dataFall frameRise frameFall)) :=
    ⟨rfl, rfl, rfl, rfl, rfl, rfl⟩
  have preserved : ∀ b next, Sending b → True → Sending (transmit b next) :=
    fun _ next sending _ => sending.transmit next
  have sending := invariant preserved begins inputs (follows_unruled _ _ _)
  exact sending.sentOnce

end Zyndra.Ad936xAxi
