import Zyndra.ReadBench

/-!
# The reader's FIFO and its output words

The reader accepts every beat of a burst without looking at the FIFO, so the
room must be reserved when the burst is committed. The reservation is met with
equality: a burst may be committed on the last beat of the one before, which the
occupancy does not count yet. With the ideal FIFO the reservation is enough, and
the words sent on are the halves of the beats received, in order.
-/

namespace Zyndra.AxiMasterRd

open Runs

/-- Halves received and not yet sent: all of the FIFO, less the low half of the
head word when it has already gone. -/
def pendingHalves (e : Entity (List (BitVec 64))) : List (BitVec 32) :=
  (e.fifo.flatMap halves).drop e.regs.sUnpackHi.toNat

section Occupancy

variable {g : Generics} {progFull : Bool} {i : Inputs} {r r' : Registers} {t t' : Tally}

/-- Room for what is still to come of the burst committed to. -/
structure Reserved (g : Generics) (r : Registers) (t : Tally) (occupancy : Nat) : Prop where
  presenting : r.sState = .arSend → occupancy ≤ 3 * g.gBurstLen
  receiving : r.sState = .rRecv → occupancy + t.owed ≤ g.cFifoDepth

/-- The FIFO is written with every beat that passes, and with nothing else. -/
theorem sFifoWr_rHandshake (r : Registers) (i : Inputs) : sFifoWr r i = rHandshake r i := rfl

/-- Only reception writes the FIFO. -/
theorem write_receives (written : sFifoWr r i = true) : r.sState = .rRecv := by
  simpa [sFifoWr, oRready] using (Bool.and_eq_true_iff.mp written).2

/-- A burst is committed below the threshold, so that at most one more word, the
last beat of the previous burst, comes on top when it is presented. Beats then
move from the reservation into the FIFO one by one. -/
theorem Reserved.advance {before after : Nat} (held : Reserved g r t before)
    (lockstep : Lockstep g r t) (advanced : Advances g progFull i r t r' t')
    (flag : progFull = decide (3 * g.gBurstLen ≤ before))
    (grown : after ≤ before + (rHandshake r i).toNat) : Reserved g r' t' after := by
  cases advanced with
  | quiet hi noBegin noData =>
    simp only [noData, Bool.toNat_false, Nat.add_zero] at grown
    constructor
    · intro state
      exact grown.trans (held.presenting state)
    · intro state
      exact (Nat.add_le_add_right grown t.owed).trans (held.receiving state)
  | starts hi state enabled => constructor <;> simp
  | stops hi state disabled => constructor <;> simp
  | commits hi state room available =>
    have below : before < 3 * g.gBurstLen := by simpa [room] using flag
    have noData : rHandshake r i = false := rHandshake_elsewhere (by simp [state])
    simp only [noData, Bool.toNat_false, Nat.add_zero] at grown
    constructor
    · intro _
      omega
    · simp
  | addressed hi state accepted =>
    have presented := held.presenting state
    have none : t.owed = 0 := lockstep.settled (by simp [state])
    have noData : rHandshake r i = false := rHandshake_elsewhere (by simp [state])
    simp only [noData, Bool.toNat_false, Nat.add_zero] at grown
    constructor
    · simp
    · intro _
      simp only [none, Generics.cFifoDepth]
      omega
  | receives hi state valid more =>
    have reserved := held.receiving state
    have one := Bool.toNat_le (rHandshake r i)
    constructor
    · simp [state]
    · intro _
      change after + (t.owed - 1) ≤ g.cFifoDepth
      omega
  | finishes hi next state valid last final continued =>
    constructor
    · intro presenting
      have room : progFull = false := by
        by_contra full
        simp only [Bool.not_eq_false] at full
        simp [continued, full] at presenting
      have below : before < 3 * g.gBurstLen := by simpa [room] using flag
      have one := Bool.toNat_le (rHandshake r i)
      omega
    · intro impossible
      exact absurd impossible (chained_elsewhere continued).1

end Occupancy

section Stream

variable (g : Generics)

/-- The FIFO and the half toggle with everything that has passed them: what was
sent, followed by what is pending, is what was received. The toggle is up only
while the FIFO holds the word it refers to. -/
structure Conserves (b : Bench (List (BitVec 64))) : Prop where
  stream : b.words ++ pendingHalves b.dut = b.beats.flatMap halves
  halfway : b.dut.regs.sUnpackHi = true → b.dut.fifo ≠ []

structure Buffered (b : Bench (List (BitVec 64))) : Prop where
  lockstep : Lockstep g b.dut.regs b.tally
  reserved : Reserved g b.dut.regs b.tally b.dut.fifo.length
  conserves : Conserves b

theorem buffered_reset : Buffered g (resetBench []) where
  lockstep := lockstep_reset g []
  reserved := by constructor <;> simp [resetBench, resetRegisters]
  conserves := by constructor <;> simp [resetBench, resetRegisters, pendingHalves]

variable {g}

/-- The slave's beats find room in the FIFO. -/
theorem Buffered.room {b : Bench (List (BitVec 64))} (held : Buffered g b) {i : Inputs}
    (written : sFifoWr b.dut.regs i = true) : b.dut.fifo.length < g.cFifoDepth := by
  have state : b.dut.regs.sState = .rRecv := write_receives written
  have reserved := held.reserved.receiving state
  have some := (held.lockstep.receiving state).1
  omega

/-- The output side pops only a word that is there. -/
theorem read_stored {e : Entity (List (BitVec 64))} {i : Inputs}
    (popped : sFifoRd (idealFifo g) e i = true) : e.fifo ≠ [] := by
  intro empty
  simp [sFifoRd, idealFifo, empty] at popped

/-- The FIFO after a clock out of reset. -/
theorem clock_fifo (e : Entity (List (BitVec 64))) (i : Inputs) (running : i.iAresetn = true) :
    (clock g (idealFifo g) e i).fifo =
      BoundedQueue.clock g.cFifoDepth e.fifo (sFifoWr e.regs i) i.iRdata
        (sFifoRd (idealFifo g) e i) := by
  simp [clock, idealFifo, running]

/-- The half toggle after a clock out of reset. -/
theorem clock_unpack (e : Entity (List (BitVec 64))) (i : Inputs) (running : i.iAresetn = true) :
    (clock g (idealFifo g) e i).regs.sUnpackHi =
      ((oTvalid (idealFifo g) e && i.iTready) ^^ e.regs.sUnpackHi) := by
  simp only [clock, unpackProcess, oTvalid, running, Bool.not_true, Bool.false_eq_true, if_false]
  cases !(idealFifo g).empty e.fifo && i.iTready <;> simp

/-- The word sent on a clock, when one is. -/
def sentWord (e : Entity (List (BitVec 64))) (i : Inputs) : List (BitVec 32) :=
  if oTvalid (idealFifo g) e && i.iTready then [oTdata (idealFifo g) e] else []

/-- The halves pending before a clock, with those of a beat written on it, are
the word sent followed by the halves pending afterwards.

The low half leaves its word in the FIFO and raises the toggle; the high half
takes the word with it and lowers the toggle. -/
theorem pending_clock (e : Entity (List (BitVec 64))) (i : Inputs) (running : i.iAresetn = true)
    (halfway : e.regs.sUnpackHi = true → e.fifo ≠ [])
    (room : sFifoWr e.regs i = true → e.fifo.length < g.cFifoDepth) :
    sentWord (g := g) e i ++ pendingHalves (clock g (idealFifo g) e i) =
      pendingHalves e ++
        (BoundedQueue.offered (sFifoWr e.regs i) i.iRdata).flatMap halves := by
  have fifo := clock_fifo (g := g) e i running
  rw [BoundedQueue.clock_room _ _ _ _ _ room] at fifo
  have toggle := clock_unpack (g := g) e i running
  simp only [pendingHalves, fifo, toggle]
  cases stored : e.fifo with
  | nil =>
    have low : e.regs.sUnpackHi = false := by simpa [stored] using halfway
    simp [sentWord, oTvalid, sFifoRd, idealFifo, stored, low]
  | cons head rest =>
    cases ready : i.iTready <;> cases half : e.regs.sUnpackHi <;>
      simp [sentWord, oTvalid, oTdata, sFifoRd, idealFifo, XpmFifoSync.ideal, stored, ready, half,
        halves]

theorem Conserves.observe {b : Bench (List (BitVec 64))} (held : Conserves b) {i : Inputs}
    (running : i.iAresetn = true)
    (room : sFifoWr b.dut.regs i = true → b.dut.fifo.length < g.cFifoDepth) :
    Conserves (observe g (idealFifo g) b i) where
  stream := by
    have passed := pending_clock b.dut i running held.halfway room
    have received : (if rHandshake b.dut.regs i then [i.iRdata] else []) =
        BoundedQueue.offered (sFifoWr b.dut.regs i) i.iRdata := by
      rw [sFifoWr_rHandshake]
      rfl
    change b.words ++ sentWord (g := g) b.dut i ++ pendingHalves (clock g (idealFifo g) b.dut i) =
      (b.beats ++ if rHandshake b.dut.regs i then [i.iRdata] else []).flatMap halves
    rw [List.append_assoc, passed, ← List.append_assoc, held.stream, received, List.flatMap_append]
  halfway := by
    change (clock g (idealFifo g) b.dut i).regs.sUnpackHi = true → _
    rw [clock_unpack b.dut i running]
    change _ → (clock g (idealFifo g) b.dut i).fifo ≠ []
    rw [clock_fifo b.dut i running, BoundedQueue.clock_room _ _ _ _ _ room]
    cases stored : b.dut.fifo with
    | nil =>
      have low : b.dut.regs.sUnpackHi = false := by simpa [stored] using held.halfway
      simp [oTvalid, idealFifo, stored, low]
    | cons head rest =>
      cases ready : i.iTready <;> cases half : b.dut.regs.sUnpackHi <;>
        simp [oTvalid, sFifoRd, idealFifo, stored, ready, half]

theorem Buffered.observe {b : Bench (List (BitVec 64))} (held : Buffered g b) (i : Inputs)
    (rule : SlaveRule b i) : Buffered g (observe g (idealFifo g) b i) := by
  have advanced := observe_advances g (idealFifo g) b i rule
  have grown : (clock g (idealFifo g) b.dut i).fifo.length ≤
      b.dut.fifo.length + (rHandshake b.dut.regs i).toNat := by
    have balance := BoundedQueue.clock_length g.cFifoDepth b.dut.fifo (sFifoWr b.dut.regs i)
      i.iRdata (sFifoRd (idealFifo g) b.dut i) held.room read_stored
    rw [sFifoWr_rHandshake] at balance
    rw [clock_fifo b.dut i rule.1, sFifoWr_rHandshake]
    omega
  exact ⟨held.lockstep.advance advanced, held.reserved.advance held.lockstep advanced rfl grown,
    held.conserves.observe rule.1 held.room⟩

variable (g)

/-- The bench with the ideal FIFO after a run of clocks from the reset. -/
def streamed (events : List Inputs) : Bench (List (BitVec 64)) :=
  run (observe g (idealFifo g)) (resetBench []) events

/-- In every run without a soft reset the FIFO is never written while full, and
the words sent so far, followed by the halves still pending in it, are the
halves of the beats received, low half first: none lost, repeated or reordered. -/
theorem reader_loses_nothing (events : List Inputs)
    (follows : Follows SlaveRule (observe g (idealFifo g)) (resetBench []) events) :
    (∀ i, sFifoWr (streamed g events).dut.regs i = true →
      (idealFifo g).full (streamed g events).dut.fifo = false) ∧
    (streamed g events).words ++ pendingHalves (streamed g events).dut =
      (streamed g events).beats.flatMap halves := by
  have held : Buffered g (streamed g events) :=
    invariant (fun _ i held rule => held.observe i rule) (buffered_reset g) events follows
  constructor
  · intro i written
    simpa [idealFifo] using held.room written
  · exact held.conserves.stream

end Stream

/-- Two bursts received while the sink takes nothing, then thirty-two words sent. -/
def receivedThenSent : List Inputs :=
  [ports false false false false 0, ports false false false false 0,
      ports true false false false 0] ++ burstOnBus false ++
    [ports true false false false 0] ++ burstOnBus false ++
    List.replicate 32 (ports false false false true 0)

theorem reader_loses_nothing_stalled :
    (∀ i, sFifoWr (streamed .ad936xAxi receivedThenSent).dut.regs i = true →
      (idealFifo .ad936xAxi).full (streamed .ad936xAxi receivedThenSent).dut.fifo = false) ∧
    (streamed .ad936xAxi receivedThenSent).words ++
        pendingHalves (streamed .ad936xAxi receivedThenSent).dut =
      (streamed .ad936xAxi receivedThenSent).beats.flatMap halves :=
  reader_loses_nothing .ad936xAxi receivedThenSent (by decide +kernel)

end Zyndra.AxiMasterRd
