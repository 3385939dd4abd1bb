import Zyndra.Ad936xTxrx
import Zyndra.Runs

/-!
# The link looped back

The transmitter's halves return to the receiver through a line of any length. An
even line keeps the pairs of halves together; an odd one hands the receiver the
second half of a pair with the first of the next. The line starts with the zero
frames of the double-data-rate registers, and whatever data they hold; the frame
registers of the transmitter, which follow it, start with anything.

What is still to come at the receiver is the line, the output registers and the
half sample the transmitter has latched. Behind what the line and the frame registers
started with, it is always the rest of the halves of the slots not yet received, less
the one, two or three halves of the first of them that the receiver holds in its
registers. An odd line brings the first half of the first slot in with the second frame
register, and unless that is zero the upper bits of its I are not kept.
-/

namespace Zyndra.Ad936xTxrx

open Runs

/-- The next pair out of the line, and the line after the output registers have
entered it. -/
def linkShift (line : List Half) (rise fall : Half) : Half × Half × List Half :=
  match line with
  | [] => (rise, fall, [])
  | [first] => (first, rise, [fall])
  | first :: second :: rest => (first, second, rest ++ [rise, fall])

/-- The line is first in, first out. -/
theorem linkShift_order (line : List Half) (rise fall : Half) :
    (linkShift line rise fall).1 :: (linkShift line rise fall).2.1 ::
      (linkShift line rise fall).2.2 = line ++ [rise, fall] := by
  match line with
  | [] => rfl
  | [_] => rfl
  | _ :: _ :: _ => rfl

/-- Both processes and the line, with what has been seen at the ports. -/
structure Loop where
  tx : TxRegs
  rx : RxRegs
  line : List Half
  /-- Pulses of `o_rx_valid` so far, the one in progress included. -/
  pulses : Nat
  /-- The samples presented with `o_rx_valid`, clock by clock, each with its pulse. -/
  heard : List (Nat × Sample)
  /-- The slots opened so far. -/
  slots : List Slot
  /-- The slots in progress in the clocks in which `o_tx_underrun` was high. -/
  underruns : List Nat

/-- One clock. -/
def clock (b : Loop) (ports : TxPorts) : Loop :=
  let pair := linkShift b.line b.tx.rise b.tx.fall
  let tx := serializer ports b.tx
  let rx := deserializer pair.1 pair.2.1 b.rx
  let pulses := if rx.oRxValid && !b.rx.oRxValid then b.pulses + 1 else b.pulses
  let slots := if b.tx.oTxRdy then b.slots ++ [openSlot b.slots ports] else b.slots
  { tx := tx
    rx := rx
    line := pair.2.2
    pulses := pulses
    heard := if rx.oRxValid then b.heard ++ [(pulses, ⟨rx.oRxI, rx.oRxQ⟩)] else b.heard
    slots := slots
    underruns := if tx.oTxUnderrun then b.underruns ++ [slots.length - 1] else b.underruns }

/-- The samples presented from a given pulse on. -/
def Loop.heardFrom (b : Loop) (pulse : Nat) : List Sample :=
  (b.heard.filter fun entry => decide (pulse ≤ entry.1)).map Prod.snd

/-- The positions of the slots that repeat the one before them. -/
def repeatedSlots (slots : List Slot) : List Nat :=
  (slots.zipIdx.filter fun entry => entry.1.repeated).map Prod.snd

/-- A loop after configuration. The line holds one half for each of the given data
words, all with frame bit zero. -/
def configured (tx : TxRegs) (rx : RxRegs) (data : List (BitVec 6)) : Loop where
  tx := tx
  rx := rx
  line := data.map fun word => ⟨.zero, word⟩
  pulses := if rx.oRxValid then 1 else 0
  heard := []
  slots := []
  underruns := []

/-- From pulse number `first` on, the samples presented are those of the transmit slots but
for the first `skipped`, in order and once each, with no more outstanding than a line of
`delay` halves holds. The underrun flag marks the slots that repeat the one before them. -/
structure RoundTrip (delay first skipped : Nat) (b : Loop) : Prop where
  samples : ∃ pending, b.heardFrom first ++ pending = (b.slots.drop skipped).map Slot.sample ∧
    4 * pending.length ≤ delay + 7
  underruns : b.underruns = repeatedSlots b.slots

/-! ## What is still to come -/

/-- Halves the transmitter has latched and not yet output. -/
def TxRegs.unsent (t : TxRegs) : List Half :=
  if t.sTxIqFlag then [⟨.zero, lsb t.sTxILat⟩, ⟨.zero, lsb t.sTxQLat⟩] else []

/-- The halves the receiver will take next, in order. -/
def Loop.toCome (b : Loop) : List Half :=
  b.line ++ [b.tx.rise, b.tx.fall] ++ b.tx.unsent

/-- What the receiver holds of the first slot not yet received, when some of that
slot's halves have reached it. -/
inductive Held (rx : RxRegs) : Nat → List Sample → Prop where
  | nothing (pending : List Sample) : Held rx 0 pending
  | first (sample : Sample) (rest : List Sample) (i : rx.sRxIMsb = msb sample.i) :
      Held rx 1 (sample :: rest)
  | upper (sample : Sample) (rest : List Sample) (invalid : rx.oRxValid = false)
      (i : msb rx.oRxI = msb sample.i) (q : msb rx.oRxQ = msb sample.q) :
      Held rx 2 (sample :: rest)
  | most (sample : Sample) (rest : List Sample) (invalid : rx.oRxValid = false)
      (i : rx.oRxI = sample.i) (q : msb rx.oRxQ = msb sample.q) : Held rx 3 (sample :: rest)

/-- The halves of all pending slots. -/
def halves (pending : List Sample) : List Half := pending.flatMap slotHalves

/-- Whether a pair with these frame bits raises `o_rx_valid`. -/
def raises : StdLogic → StdLogic → Bool
  | .zero, .zero => true
  | .zero, .one => true
  | _, _ => false

/-- The pulses that begin as the given frame bits come in, a slot behind them. -/
def pulsesOver (valid : Bool) : List StdLogic → Nat
  | rise :: fall :: rest =>
    (raises rise fall && !valid).toNat + pulsesOver (raises rise fall) rest
  | [last] => (raises last .one && !valid).toNat
  | [] => 0

/-- Halves the receiver takes before the slots: the last one, when it comes in with the
first half of a slot, has frame bit zero, so that this half goes to `sRxIMsb`. -/
def Settles (frames : List StdLogic) : Prop :=
  frames.length % 2 = 1 → frames.getLast? = some .zero

/-- Until the first half of a slot arrives the receiver sees other halves; from then on it
holds a part of the first slot pending. That slot is presented with pulse number `first`. -/
inductive Receiving (first : Nat) (rx : RxRegs) (pulses : Nat) (toCome : List Half)
    (pending : List Sample) : Prop where
  | starting (lead : List Half) (some : lead ≠ []) (settles : Settles (lead.map Half.frame))
      (early : first = pulses + pulsesOver rx.oRxValid (lead.map Half.frame) + 1)
      (order : toCome = lead ++ halves pending)
  | receiving (taken : Nat) (held : Held rx taken pending) (later : first ≤ pulses + 1)
      (order : toCome = (halves pending).drop taken)

section Receiving

variable {first : Nat} {rx : RxRegs} {pulses : Nat} {toCome rest : List Half}
  {pending : List Sample} {rise fall : Half}

/-- Pulses after a clock of the receiver. -/
def pulsesAfter (rx : RxRegs) (pulses : Nat) (after : RxRegs) : Nat :=
  if after.oRxValid && !rx.oRxValid then pulses + 1 else pulses

/-- The sample presented, once it belongs to the pulse given or a later one. -/
def presented (first pulses : Nat) (rx : RxRegs) : List Sample :=
  if rx.oRxValid = true ∧ first ≤ pulses then [⟨rx.oRxI, rx.oRxQ⟩] else []

/-- The flag is a matter of the two frame bits. -/
theorem deserializer_valid (rise fall : Half) (rx : RxRegs) :
    (deserializer rise fall rx).oRxValid = raises rise.frame fall.frame := by
  unfold deserializer
  cases rise.frame <;> cases fall.frame <;> rfl

/-- A pulse begins when the flag rises. -/
theorem pulsesAfter_deserializer (rise fall : Half) (rx : RxRegs) (pulses : Nat) :
    pulsesAfter rx pulses (deserializer rise fall rx) =
      pulses + (raises rise.frame fall.frame && !rx.oRxValid).toNat := by
  rw [pulsesAfter, deserializer_valid]
  cases raises rise.frame fall.frame && !rx.oRxValid <;> rfl

/-- A slot opened is one more to receive. -/
theorem Receiving.append (sample : Sample) (receiving : Receiving first rx pulses toCome pending) :
    Receiving first rx pulses (toCome ++ slotHalves sample) (pending ++ [sample]) := by
  have longer : halves (pending ++ [sample]) = halves pending ++ slotHalves sample := by
    simp [halves]
  cases receiving with
  | starting lead some settles early order =>
    refine .starting lead some settles early ?_
    rw [order, longer, List.append_assoc]
  | receiving taken held later order =>
    have within : taken ≤ (halves pending).length := by
      cases held <;> simp [halves, slotHalves]
    refine .receiving taken ?_ later ?_
    · cases held with
      | nothing pending => exact .nothing _
      | first next rest i => exact .first next (rest ++ [sample]) i
      | upper next rest invalid i q => exact .upper next (rest ++ [sample]) invalid i q
      | most next rest invalid i q => exact .most next (rest ++ [sample]) invalid i q
    · rw [order, longer, List.drop_append_of_le_length within]

/-- The halves of the first slot pending, and of the others. -/
theorem halves_cons (sample : Sample) (others : List Sample) :
    halves (sample :: others) = slotHalves sample ++ halves others := rfl

/-- Four halves to a slot. -/
theorem halves_length (pending : List Sample) : (halves pending).length = 4 * pending.length := by
  induction pending with
  | nil => rfl
  | cons sample others inductionHypothesis =>
    rw [halves_cons, List.length_append, inductionHypothesis, List.length_cons]
    simp only [slotHalves, List.length_cons, List.length_nil]
    omega

/-- What a clock brings about: the sample it presents, if any, is the first one
pending, and the rest of the order is kept. -/
structure Received (first : Nat) (rx : RxRegs) (pulses : Nat) (rise fall : Half)
    (rest : List Half) (pending left : List Sample) : Prop where
  taken : pending = presented first (pulsesAfter rx pulses (deserializer rise fall rx))
    (deserializer rise fall rx) ++ left
  receiving : Receiving first (deserializer rise fall rx)
    (pulsesAfter rx pulses (deserializer rise fall rx)) rest left

/-- Before pulse number `first` nothing that counts is presented. -/
theorem presented_early (before : pulses < first) : presented first pulses rx = [] := by
  have below : ¬ first ≤ pulses := by omega
  simp [presented, below]

/-- Two halves on, the last one is the same. -/
theorem Settles.tail {rise fall : StdLogic} {frames : List StdLogic} (some : frames ≠ [])
    (settles : Settles (rise :: fall :: frames)) : Settles frames := by
  intro odd
  have last := settles (by rw [List.length_cons, List.length_cons]; omega)
  obtain ⟨next, others, rfl⟩ := List.exists_cons_of_ne_nil some
  rwa [List.getLast?_cons_cons, List.getLast?_cons_cons] at last

/-- Ahead of the slots, a clock takes two halves, or the last one with the first half of
the first slot. Nothing is presented that counts. -/
theorem receive_starting {lead : List Half} (some : lead ≠ [])
    (settles : Settles (lead.map Half.frame))
    (early : first = pulses + pulsesOver rx.oRxValid (lead.map Half.frame) + 1)
    (order : rise :: fall :: rest = lead ++ halves pending) :
    Received first rx pulses rise fall rest pending pending := by
  have counted := pulsesAfter_deserializer rise fall rx pulses
  match lead with
  | [] => exact absurd rfl some
  | [last] =>
    obtain ⟨rfl, after⟩ := List.cons.inj order
    have zero : rise.frame = .zero := Option.some.inj (settles rfl)
    cases pending with
    | nil => cases after
    | cons sample others =>
      rw [halves_cons] at after
      obtain ⟨rfl, rfl⟩ := List.cons.inj after
      have reached :
          first = pulsesAfter rx pulses (deserializer rise ⟨.one, msb sample.i⟩ rx) + 1 := by
        rw [early, counted]
        rfl
      constructor
      · rw [presented_early (by omega)]
        rfl
      · refine .receiving 1 (.first sample others ?_) (Nat.le_of_eq reached) rfl
        simp [deserializer, zero]
  | next :: second :: others =>
    obtain ⟨rfl, after⟩ := List.cons.inj order
    obtain ⟨rfl, rfl⟩ := List.cons.inj after
    have reached : first = pulsesAfter rx pulses (deserializer rise fall rx) +
        pulsesOver (deserializer rise fall rx).oRxValid (others.map Half.frame) + 1 := by
      rw [early, counted, deserializer_valid]
      simp only [List.map_cons, pulsesOver]
      omega
    constructor
    · rw [presented_early (by omega)]
      rfl
    · by_cases left : others = []
      · subst left
        exact .receiving 0 (.nothing _) (Nat.le_of_eq reached) rfl
      · exact .starting others left (settles.tail (by simpa using left)) reached rfl

/-- From the first half of a slot on, each clock takes the next two halves. The
one that takes the last half of a slot presents its sample. -/
theorem receive_held {taken : Nat} (held : Held rx taken pending) (later : first ≤ pulses + 1)
    (order : rise :: fall :: rest = (halves pending).drop taken) :
    ∃ left, Received first rx pulses rise fall rest pending left := by
  cases held with
  | nothing pending =>
    cases pending with
    | nil => cases order
    | cons sample others =>
      obtain ⟨rfl, after⟩ := List.cons.inj order
      obtain ⟨rfl, rfl⟩ := List.cons.inj after
      refine ⟨sample :: others, ?_, .receiving 2 (.upper sample others ?_ ?_ ?_) ?_ rfl⟩
      · simp [presented, deserializer]
      · simp [deserializer]
      · simp [deserializer]
      · simp [deserializer]
      · simpa [pulsesAfter, deserializer] using later
  | first sample others i =>
    obtain ⟨rfl, after⟩ := List.cons.inj order
    obtain ⟨rfl, rfl⟩ := List.cons.inj after
    refine ⟨sample :: others, ?_, .receiving 3 (.most sample others ?_ ?_ ?_) ?_ rfl⟩
    · simp [presented, deserializer]
    · simp [deserializer]
    · exact word_eq (by simp [deserializer, i]) (by simp [deserializer])
    · simp [deserializer]
    · simpa [pulsesAfter, deserializer] using later
  | upper sample others invalid i q =>
    obtain ⟨rfl, after⟩ := List.cons.inj order
    obtain ⟨rfl, rfl⟩ := List.cons.inj after
    have whole : setLsb rx.oRxI (lsb sample.i) = sample.i :=
      word_eq (by simp [i]) (by simp)
    have wholeQ : setLsb rx.oRxQ (lsb sample.q) = sample.q :=
      word_eq (by simp [q]) (by simp)
    refine ⟨others, ?_, .receiving 0 (.nothing _) ?_ rfl⟩
    · simp [presented, pulsesAfter, deserializer, invalid, whole, wholeQ, later]
    · simpa [pulsesAfter, deserializer, invalid] using Nat.le_succ_of_le later
  | most sample others invalid i q =>
    cases others with
    | nil => cases (List.cons.inj order).2
    | cons next others =>
      obtain ⟨rfl, after⟩ := List.cons.inj order
      obtain ⟨rfl, rfl⟩ := List.cons.inj after
      have wholeQ : setLsb rx.oRxQ (lsb sample.q) = sample.q :=
        word_eq (by simp [q]) (by simp)
      refine ⟨next :: others, ?_, .receiving 1 (.first next others ?_) ?_ rfl⟩
      · simp [presented, pulsesAfter, deserializer, invalid, i, wholeQ, later]
      · simp [deserializer]
      · simpa [pulsesAfter, deserializer, invalid] using Nat.le_succ_of_le later

/-- One clock of the receiver. -/
theorem receive (receiving : Receiving first rx pulses (rise :: fall :: rest) pending) :
    ∃ left, Received first rx pulses rise fall rest pending left := by
  cases receiving with
  | starting lead some settles early order =>
    exact ⟨pending, receive_starting some settles early order⟩
  | receiving taken held later order => exact receive_held held later order

end Receiving

/-! ## Runs of the loop -/

section Loop

variable {b : Loop}

/-- The slots a clock opens: one in an MSB phase, none otherwise. -/
def opened (b : Loop) (ports : TxPorts) : List Slot :=
  if b.tx.oTxRdy then [openSlot b.slots ports] else []

theorem clock_slots (ports : TxPorts) : (clock b ports).slots = b.slots ++ opened b ports := by
  unfold clock opened
  cases b.tx.oTxRdy <;> simp

/-- After an MSB phase the registers and the latches hold the halves of its slot. -/
theorem sent_msb (ports : TxPorts) (phase : b.tx.sTxIqFlag = false)
    (latched : b.tx.latched = lastSample b.slots) :
    [(serializer ports b.tx).rise, (serializer ports b.tx).fall] ++
        (serializer ports b.tx).unsent = slotHalves (openSlot b.slots ports).sample := by
  obtain ⟨flag, after, first, second, _⟩ := serializer_msb ports phase latched
  rw [first, second, TxRegs.unsent, flag, ← after]
  rfl

/-- After an LSB phase the registers hold the halves that were left. -/
theorem sent_lsb (ports : TxPorts) (phase : b.tx.sTxIqFlag = true) :
    [(serializer ports b.tx).rise, (serializer ports b.tx).fall] ++
        (serializer ports b.tx).unsent = b.tx.unsent := by
  obtain ⟨flag, after, first, second, _⟩ := serializer_lsb ports phase
  rw [first, second, TxRegs.unsent, TxRegs.unsent, flag, phase]
  rfl

/-- A clock takes the first two halves to come and adds those of a slot it opens. -/
theorem clock_toCome (ports : TxPorts) (latched : b.tx.latched = lastSample b.slots) :
    ∃ rise fall rest, b.toCome = rise :: fall :: rest ∧
      (clock b ports).rx = deserializer rise fall b.rx ∧
      (clock b ports).toCome = rest ++ halves ((opened b ports).map Slot.sample) := by
  have order := linkShift_order b.line b.tx.rise b.tx.fall
  refine ⟨_, _, (clock b ports).line ++ b.tx.unsent, ?_, rfl, ?_⟩
  · rw [Loop.toCome, ← order]
    rfl
  · have sent : (clock b ports).tx = serializer ports b.tx := rfl
    rw [Loop.toCome, sent, List.append_assoc, List.append_assoc]
    congr 1
    cases phase : b.tx.sTxIqFlag with
    | false =>
      rw [sent_msb ports phase latched]
      simp [TxRegs.unsent, opened, TxRegs.oTxRdy, phase, halves]
    | true =>
      rw [sent_lsb ports phase]
      simp [opened, TxRegs.oTxRdy, phase, halves]

/-- The line keeps its length. -/
theorem clock_line (ports : TxPorts) : (clock b ports).line.length = b.line.length := by
  have order := congrArg List.length (linkShift_order b.line b.tx.rise b.tx.fall)
  simpa [clock] using order

/-- A sample presented from a given pulse on is recorded as such. -/
theorem clock_heard (first : Nat) (ports : TxPorts) :
    (clock b ports).heardFrom first =
      b.heardFrom first ++ presented first (clock b ports).pulses (clock b ports).rx := by
  cases valid : (clock b ports).rx.oRxValid with
  | false =>
    have same : (clock b ports).heard = b.heard := by
      change (if (clock b ports).rx.oRxValid = true then _ else _) = _
      simp [valid]
    simp [Loop.heardFrom, same, presented, valid]
  | true =>
    have more : (clock b ports).heard = b.heard ++
        [((clock b ports).pulses, ⟨(clock b ports).rx.oRxI, (clock b ports).rx.oRxQ⟩)] := by
      change (if (clock b ports).rx.oRxValid = true then _ else _) = _
      rw [if_pos valid]
      rfl
    by_cases counts : first ≤ (clock b ports).pulses
    · simp [Loop.heardFrom, more, presented, valid, counts]
    · simp [Loop.heardFrom, more, presented, valid, counts]

/-- The latches hold the sample of the last slot after every clock. -/
theorem clock_latched (ports : TxPorts) (latched : b.tx.latched = lastSample b.slots) :
    (clock b ports).tx.latched = lastSample (clock b ports).slots := by
  rw [clock_slots]
  change (serializer ports b.tx).latched = _
  cases phase : b.tx.sTxIqFlag with
  | false =>
    have after := (serializer_msb ports phase latched).2.1
    simpa [opened, TxRegs.oTxRdy, phase] using after
  | true =>
    have after := (serializer_lsb ports phase).2.1
    simpa [opened, TxRegs.oTxRdy, phase, ← latched] using after

/-- One slot more is one position more when it repeats. -/
theorem repeatedSlots_append (slots : List Slot) (slot : Slot) :
    repeatedSlots (slots ++ [slot]) =
      repeatedSlots slots ++ if slot.repeated then [slots.length] else [] := by
  cases repeats : slot.repeated <;> simp [repeatedSlots, List.zipIdx_append, repeats]

/-- The slots recorded with the underrun flag are those that repeat. -/
theorem clock_underruns (ports : TxPorts) (latched : b.tx.latched = lastSample b.slots)
    (recorded : b.underruns = repeatedSlots b.slots) :
    (clock b ports).underruns = repeatedSlots (clock b ports).slots := by
  have raised : (clock b ports).underruns =
      if (serializer ports b.tx).oTxUnderrun then
        b.underruns ++ [(clock b ports).slots.length - 1] else b.underruns := rfl
  rw [raised, clock_slots, recorded]
  cases phase : b.tx.sTxIqFlag with
  | false =>
    have underrun := (serializer_msb ports phase latched).2.2.2.2
    have one : opened b ports = [openSlot b.slots ports] := by
      simp [opened, TxRegs.oTxRdy, phase]
    rw [underrun, one, repeatedSlots_append]
    cases (openSlot b.slots ports).repeated <;> simp
  | true =>
    have underrun := (serializer_lsb ports phase).2.2.2.2
    have none : opened b ports = [] := by
      simp [opened, TxRegs.oTxRdy, phase]
    rw [underrun, none]
    simp

/-- The slots a clock opens are that many more to receive. -/
theorem Receiving.appendOpened {first : Nat} {rx : RxRegs} {pulses : Nat} {toCome : List Half}
    {pending : List Sample} (receiving : Receiving first rx pulses toCome pending)
    (ports : TxPorts) :
    Receiving first rx pulses (toCome ++ halves ((opened b ports).map Slot.sample))
      (pending ++ (opened b ports).map Slot.sample) := by
  unfold opened
  cases b.tx.oTxRdy with
  | true => simpa [halves] using receiving.append (openSlot b.slots ports).sample
  | false => simpa [halves] using receiving

/-- What holds between the clocks: the samples received and those pending are the
slots opened, but for those skipped. -/
structure Looped (delay first skipped : Nat) (b : Loop) (pending : List Sample) : Prop where
  latched : b.tx.latched = lastSample b.slots
  delayed : b.line.length = delay
  receiving : Receiving first b.rx b.pulses b.toCome pending
  begun : skipped ≤ b.slots.length
  delivered : b.heardFrom first ++ pending = (b.slots.drop skipped).map Slot.sample
  recorded : b.underruns = repeatedSlots b.slots

/-- A clock delivers the first pending sample or none, and a slot it opens becomes
the last one pending. -/
theorem Looped.next {delay first skipped : Nat} {pending : List Sample}
    (looped : Looped delay first skipped b pending) (ports : TxPorts) :
    ∃ left, Looped delay first skipped (clock b ports) left := by
  obtain ⟨rise, fall, rest, order, after, ahead⟩ := clock_toCome ports looped.latched
  have receiving := looped.receiving
  rw [order] at receiving
  obtain ⟨left, received⟩ := receive receiving
  have counted : (clock b ports).pulses =
      pulsesAfter b.rx b.pulses (deserializer rise fall b.rx) := by
    rw [← after]
    rfl
  refine ⟨left ++ (opened b ports).map Slot.sample, ?_, ?_, ?_, ?_, ?_, ?_⟩
  · exact clock_latched ports looped.latched
  · rw [clock_line, looped.delayed]
  · rw [after, counted, ahead]
    exact received.receiving.appendOpened ports
  · rw [clock_slots, List.length_append]
    exact Nat.le_add_right_of_le looped.begun
  · rw [clock_heard, clock_slots, List.drop_append_of_le_length looped.begun, List.map_append,
      ← looped.delivered, received.taken, after, counted]
    simp only [List.append_assoc]
  · exact clock_underruns ports looped.latched looped.recorded

/-- The samples pending fit the line and the registers at its ends. -/
theorem Looped.pending_bound {delay first skipped : Nat} {pending : List Sample}
    (looped : Looped delay first skipped b pending) : 4 * pending.length ≤ delay + 7 := by
  have fourEach := halves_length pending
  have ahead : b.toCome.length ≤ delay + 4 := by
    have unsent : b.tx.unsent.length ≤ 2 := by
      unfold TxRegs.unsent
      split <;> simp
    simp only [Loop.toCome, List.length_append, looped.delayed, List.length_cons, List.length_nil]
    omega
  cases looped.receiving with
  | starting lead some settles early order =>
    rw [order, List.length_append, fourEach] at ahead
    omega
  | receiving taken held later order =>
    have few : taken ≤ 3 := by cases held <;> simp
    rw [order, List.length_drop, fourEach] at ahead
    omega

/-- Every run from such a state is a round trip. -/
theorem Looped.roundTrip {delay first skipped : Nat} {pending : List Sample}
    (looped : Looped delay first skipped b pending) (inputs : List TxPorts) :
    RoundTrip delay first skipped (run clock b inputs) := by
  have preserved : ∀ b ports, (∃ pending, Looped delay first skipped b pending) → True →
      ∃ pending, Looped delay first skipped (clock b ports) pending :=
    fun b ports ⟨_, looped⟩ _ => looped.next ports
  obtain ⟨pending, reached⟩ := invariant preserved ⟨_, looped⟩ inputs (follows_unruled _ _ _)
  exact ⟨⟨pending, reached.delivered, reached.pending_bound⟩, reached.recorded⟩

end Loop

/-! ## The start -/

section Start

variable (underrun : Bool) (dataRise dataFall : BitVec 6) (frameRise frameFall : StdLogic)
  (rx : RxRegs) (data : List (BitVec 6))

/-- A loop after configuration, whatever the registers without an initial value hold. -/
def started : Loop :=
  configured (configuredTx underrun dataRise dataFall frameRise frameFall) rx data

/-- The frame bits ahead of the first slot. -/
def startFrames (delay : Nat) : List StdLogic :=
  List.replicate delay .zero ++ [frameRise, frameFall]

/-- Whether the receiver takes the first half of the first slot for something else: it
comes in with the second half of the frame registers, and that one is not zero. -/
def Spoilt (delay : Nat) : Prop := delay % 2 = 1 ∧ frameFall ≠ .zero

instance (delay : Nat) : Decidable (Spoilt frameFall delay) :=
  inferInstanceAs (Decidable (_ ∧ _))

/-- The pulse of the first slot received whole. -/
def firstPulse (valid : Bool) (delay : Nat) : Nat :=
  valid.toNat + pulsesOver valid (startFrames frameRise frameFall delay ++
    if Spoilt frameFall delay then [.one, .one, .zero, .zero] else []) + 1

/-- Zero frames begin one pulse at most, the one in progress included. -/
theorem pulsesOver_zeros (count : Nat) (valid : Bool) (frames : List StdLogic) :
    ∃ later : Bool,
      valid.toNat + pulsesOver valid (List.replicate (2 * count) .zero ++ frames) =
        later.toNat + pulsesOver later frames := by
  induction count generalizing valid with
  | zero => exact ⟨valid, rfl⟩
  | succ count inductionHypothesis =>
    obtain ⟨later, same⟩ := inductionHypothesis true
    refine ⟨later, ?_⟩
    rw [← same, Nat.mul_succ, List.replicate_succ, List.replicate_succ]
    cases valid <;> simp [pulsesOver, raises]

/-- The frame bits ahead of the first slot are pairs of zeros and two or three more. -/
theorem firstPulse_eq (valid : Bool) (delay : Nat) :
    ∃ later : Bool, firstPulse frameRise frameFall valid delay =
      later.toNat + pulsesOver later
        (if delay % 2 = 0 then [frameRise, frameFall]
        else if frameFall = .zero then [.zero, frameRise, frameFall]
        else [.zero, frameRise, frameFall, .one, .one, .zero, .zero]) + 1 := by
  have pairs := Nat.div_add_mod delay 2
  rcases Nat.mod_two_eq_zero_or_one delay with even | odd
  · obtain ⟨later, same⟩ := pulsesOver_zeros (delay / 2) valid [frameRise, frameFall]
    refine ⟨later, ?_⟩
    have whole : 2 * (delay / 2) = delay := by omega
    rw [whole] at same
    simp [firstPulse, startFrames, Spoilt, even, same]
  · have whole : List.replicate delay StdLogic.zero =
        List.replicate (2 * (delay / 2)) .zero ++ [.zero] := by
      rw [← List.replicate_succ', ← pairs]
      congr 1
      omega
    obtain ⟨later, same⟩ := pulsesOver_zeros (delay / 2) valid
      (if frameFall = .zero then [.zero, frameRise, frameFall]
        else [.zero, frameRise, frameFall, .one, .one, .zero, .zero])
    refine ⟨later, ?_⟩
    rw [if_neg (by omega), ← same, firstPulse, startFrames, whole]
    by_cases zero : frameFall = .zero
    · simp [Spoilt, zero]
    · simp [Spoilt, odd, zero]

/-- It is the third pulse at the latest, and the second unless the receiver could not
read the frame registers. -/
theorem firstPulse_le (valid : Bool) (delay : Nat) :
    firstPulse frameRise frameFall valid delay ≤ 3 ∧
      (delay % 2 = 0 ∨ frameFall = .zero ∧ frameRise ≠ .other →
        firstPulse frameRise frameFall valid delay ≤ 2) := by
  obtain ⟨later, same⟩ := firstPulse_eq frameRise frameFall valid delay
  rw [same]
  rcases Nat.mod_two_eq_zero_or_one delay with even | odd
  · rw [if_pos even]
    cases later <;> cases frameRise <;> cases frameFall <;> simp [pulsesOver, raises]
  · rw [if_neg (by omega)]
    cases later <;> cases frameRise <;> cases frameFall <;> simp [pulsesOver, raises, odd]

/-- At the start the line and the output registers hold the halves ahead of the slots. -/
theorem started_toCome :
    (started underrun dataRise dataFall frameRise frameFall rx data).toCome =
        data.map (fun word => ⟨.zero, word⟩) ++ [⟨frameRise, dataRise⟩, ⟨frameFall, dataFall⟩] ∧
      (started underrun dataRise dataFall frameRise frameFall rx data).toCome.map Half.frame =
        startFrames frameRise frameFall data.length := by
  have same : (started underrun dataRise dataFall frameRise frameFall rx data).toCome =
      data.map (fun word => ⟨.zero, word⟩) ++ [⟨frameRise, dataRise⟩, ⟨frameFall, dataFall⟩] := by
    simp [started, Loop.toCome, configured, configuredTx, TxRegs.rise, TxRegs.fall, TxRegs.unsent]
  refine ⟨same, ?_⟩
  rw [same]
  simp [startFrames, Function.comp_def, List.map_const']

/-- Unless the first slot is spoilt, the receiver waits for it. -/
theorem looped_started (whole : ¬ Spoilt frameFall data.length) :
    Looped data.length (firstPulse frameRise frameFall rx.oRxValid data.length) 0
      (started underrun dataRise dataFall frameRise frameFall rx data) [] where
  latched := rfl
  delayed := by simp [started, configured]
  receiving := by
    obtain ⟨order, frames⟩ :=
      started_toCome underrun dataRise dataFall frameRise frameFall rx data
    refine .starting _ (by rw [order]; simp) ?_ ?_ (List.append_nil _).symm
    · rw [frames]
      intro odd
      have last : frameFall = .zero := by
        by_contra other
        exact whole ⟨by simpa [startFrames] using odd, other⟩
      simp [startFrames, last]
    · rw [frames, firstPulse, if_neg whole, List.append_nil]
      cases valid : rx.oRxValid <;> simp [started, configured, valid]
  begun := Nat.zero_le _
  delivered := rfl
  recorded := rfl

/-- When the first slot is spoilt, the receiver waits for the second one from the first
clock on. -/
theorem looped_spoilt (spoilt : Spoilt frameFall data.length) (ports : TxPorts) :
    Looped data.length (firstPulse frameRise frameFall rx.oRxValid data.length) 1
      (clock (started underrun dataRise dataFall frameRise frameFall rx data) ports) [] := by
  obtain ⟨rise, fall, rest, order, after, ahead⟩ := clock_toCome
    (b := started underrun dataRise dataFall frameRise frameFall rx data) ports rfl
  have frames := (started_toCome underrun dataRise dataFall frameRise frameFall rx data).2
  rw [order, List.map_cons, List.map_cons] at frames
  generalize before : started underrun dataRise dataFall frameRise frameFall rx data = b at *
  have opens : opened b ports = [openSlot [] ports] := by
    rw [← before]
    rfl
  have counted : (clock b ports).pulses =
      rx.oRxValid.toNat + (raises rise.frame fall.frame && !rx.oRxValid).toNat := by
    have same := pulsesAfter_deserializer rise fall b.rx b.pulses
    have pulses : b.pulses = rx.oRxValid.toNat := by
      rw [← before]
      cases valid : rx.oRxValid <;> simp [started, configured, valid]
    have registers : b.rx = rx := by
      rw [← before]
      rfl
    rw [← after, pulses, registers] at same
    rw [← same, ← pulses, ← registers]
    rfl
  have reached : firstPulse frameRise frameFall rx.oRxValid data.length =
      (clock b ports).pulses + pulsesOver (clock b ports).rx.oRxValid
        ((rest ++ slotHalves (openSlot [] ports).sample).map Half.frame) + 1 := by
    rw [firstPulse, if_pos spoilt, counted, after, deserializer_valid, ← frames]
    simp only [List.cons_append, pulsesOver, slotHalves, List.map_append, List.map_cons,
      List.map_nil]
    omega
  refine ⟨clock_latched ports (by rw [← before]; rfl), ?_, ?_, ?_, ?_, ?_⟩
  · rw [clock_line, ← before]
    simp [started, configured]
  · refine .starting (rest ++ slotHalves (openSlot [] ports).sample) (by simp [slotHalves]) ?_
      reached (by rw [ahead, opens]; simp [halves])
    intro odd
    simp [slotHalves]
  · rw [clock_slots, opens]
    simp
  · rw [clock_heard, presented_early (by omega), clock_slots, opens, ← before]
    rfl
  · exact clock_underruns ports (by rw [← before]; rfl) (by rw [← before]; rfl)

end Start

/-- For every delay of the line, even or odd, and every sequence of inputs: from the second
valid pulse at the latest, the receiver presents the samples of the transmit slots in order
and once each, and the underrun flag marks exactly the slots that repeat the one before
them. When the line is odd, and the frame registers do not come up as zero and a level, it
does so from the third pulse at the latest, and without the first slot unless the second
of them is zero. -/
theorem loop_round_trip (underrun : Bool) (dataRise dataFall : BitVec 6)
    (frameRise frameFall : StdLogic) (rx : RxRegs) (data : List (BitVec 6)) :
    ∃ first skipped,
      first ≤ 3 ∧ skipped ≤ 1 ∧
      (data.length % 2 = 0 ∨ frameFall = .zero ∧ frameRise ≠ .other → first ≤ 2) ∧
      (data.length % 2 = 0 ∨ frameFall = .zero → skipped = 0) ∧
      ∀ inputs, RoundTrip data.length first skipped
        (run clock (configured (configuredTx underrun dataRise dataFall frameRise frameFall)
          rx data) inputs) := by
  obtain ⟨third, second⟩ := firstPulse_le frameRise frameFall rx.oRxValid data.length
  by_cases spoilt : Spoilt frameFall data.length
  · refine ⟨_, 1, third, le_rfl, second, fun clean => ?_, fun inputs => ?_⟩
    · rcases clean with even | zero
      · exact absurd spoilt.1 (by omega)
      · exact absurd zero spoilt.2
    · cases inputs with
      | nil => exact ⟨⟨[], rfl, Nat.zero_le _⟩, rfl⟩
      | cons ports inputs =>
        exact (looped_spoilt underrun dataRise dataFall frameRise frameFall rx data spoilt
          ports).roundTrip inputs
  · exact ⟨_, 0, third, Nat.zero_le 1, second, fun _ => rfl, (looped_started underrun dataRise
      dataFall frameRise frameFall rx data spoilt).roundTrip⟩

/-- A sample that no slot has carried, presented with a given pulse, is in the way from
every earlier pulse on as well. -/
theorem strays {b : Loop} {pulse : Nat} {sample : Sample} (heard : sample ∈ b.heardFrom pulse)
    (never : sample ∉ b.slots.map Slot.sample) (first : Nat) (early : first ≤ pulse)
    (skipped : Nat) (pending : List Sample) :
    b.heardFrom first ++ pending ≠ (b.slots.drop skipped).map Slot.sample := by
  intro same
  have counted : sample ∈ b.heardFrom first := by
    simp only [Loop.heardFrom, List.mem_map, List.mem_filter, decide_eq_true_eq] at heard ⊢
    obtain ⟨entry, ⟨member, late⟩, rfl⟩ := heard
    exact ⟨entry, ⟨member, Nat.le_trans early late⟩, rfl⟩
  have carried : sample ∈ (b.slots.drop skipped).map Slot.sample := by
    rw [← same]
    exact List.mem_append_left _ counted
  rw [List.map_drop] at carried
  exact never (List.mem_of_mem_drop carried)

/-- Three different samples, one a slot, and a slot without one. -/
def threeSamples : List TxPorts :=
  [⟨0xfff, 0xaaa, true⟩, ⟨0, 0, false⟩, ⟨0x123, 0x456, true⟩, ⟨0, 0, false⟩, ⟨0x789, 0xabc, true⟩,
    ⟨0, 0, false⟩, ⟨0, 0, false⟩, ⟨0, 0, false⟩]

/-- A line of three halves, and frame registers that come up at no level, or at '1': the
second pulse presents the first slot with upper bits of I that no slot has carried. -/
theorem first_slot_spoilt :
    let looped (level : StdLogic) :=
      run clock (configured (configuredTx false 0 0 level level) ⟨false, 0, 0, 0⟩ [0, 0, 0])
        threeSamples
    (∀ first ≤ 2, ∀ skipped pending, (looped .other).heardFrom first ++ pending ≠
        ((looped .other).slots.drop skipped).map Slot.sample) ∧
      ∀ first ≤ 2, ∀ skipped pending, (looped .one).heardFrom first ++ pending ≠
        ((looped .one).slots.drop skipped).map Slot.sample := by
  intro looped
  have none : (⟨0x03f, 0xaaa⟩ : Sample) ∈ (looped .other).heardFrom 2 := by decide
  have one : (⟨0x03f, 0xaaa⟩ : Sample) ∈ (looped .one).heardFrom 2 := by decide
  exact ⟨strays none (by decide), strays one (by decide)⟩

end Zyndra.Ad936xTxrx
