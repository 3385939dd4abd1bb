import Zyndra.WriteBench

/-!
# The writer's FIFO and the words of its bursts

Write data is valid from the state alone, so a whole burst must be stored when
its first beat is presented. From IDLE the programmable-full flag sees to that.
On the last beat of a burst the flag is read again, while that beat is still in
the FIFO: it counts a word that is gone on the next clock. A burst chained with
exactly one burst stored is one word short, and unless a word arrives before the
slave accepts its address, its last beat is taken from an empty FIFO.

With the ideal FIFO, the words accepted by the slave are the words of the stream
exactly in the runs in which every short burst is made up in time.
-/

namespace Zyndra.AxiMasterWr

open Runs

/-- The bench with a mark on a chained burst that is a word short. -/
structure StreamBench where
  bench : Bench (List (BitVec 64))
  /-- The burst to be addressed was chained with exactly one burst stored, and no
  word has been stored since. -/
  short : Bool

/-- The mark after a clock: set by a last beat accepted above the threshold with
exactly one burst stored, cleared by a word stored. -/
def shortNext (g : Generics) (sm : SmRegisters) (i : Inputs) (progFull short stored : Bool)
    (occupancy : Nat) : Bool :=
  (if wHandshake sm i && oWlast g sm && progFull then decide (occupancy = g.gBurstLen)
    else short) && !stored

section Clock

variable (g : Generics)

/-- A word is stored on this clock. -/
def stores (s : StreamBench) (i : Inputs) : Bool := sFifoWr (idealFifo g) s.bench.dut i

def watch (s : StreamBench) (i : Inputs) : StreamBench where
  bench := observe g (idealFifo g) s.bench i
  short := shortNext g s.bench.dut.regs.sm i ((idealFifo g).progFull s.bench.dut.fifo) s.short
    (stores g s i) s.bench.dut.fifo.length

/-- No soft reset on this clock; everything else may happen. -/
def Streams (s : StreamBench) (i : Inputs) : Prop := Running s.bench i

/-- A burst chained a word short is addressed only once a word has been stored,
on this clock at the latest. -/
def MadeUp (s : StreamBench) (i : Inputs) : Prop :=
  awHandshake s.bench.dut.regs.sm i = true → s.short = true → stores g s i = true

instance (s : StreamBench) (i : Inputs) : Decidable (Streams s i) :=
  inferInstanceAs (Decidable (Running _ _))

instance (s : StreamBench) (i : Inputs) : Decidable (MadeUp g s i) :=
  inferInstanceAs (Decidable (_ → _ → _))

/-- The rest of the burst is stored while it is sent, the FIFO is never popped
while empty, and the beats accepted are a prefix of the stream. -/
structure Intact (s : StreamBench) : Prop where
  stocked : s.bench.dut.regs.sm.sState = .wSend →
    g.gBurstLen ≤ s.bench.dut.fifo.length + s.bench.dut.regs.sm.sBeatCnt
  present : ∀ i, sFifoRd s.bench.dut.regs.sm i = true →
    (idealFifo g).empty s.bench.dut.fifo = false
  stream : s.bench.beats.flatMap halves <+: s.bench.words

variable {g}

/-- The FIFO after a clock out of reset. -/
theorem clock_fifo (e : Entity (List (BitVec 64))) (i : Inputs) (running : i.iAresetn = true) :
    (clock g (idealFifo g) e i).fifo =
      BoundedQueue.clock g.cFifoDepth e.fifo (sFifoWr (idealFifo g) e i)
        (i.iTdata ++ e.regs.sPrevTdata) (sFifoRd e.regs.sm i) := by
  simp [clock, idealFifo, running]

/-- A word is stored only where there is room for it. -/
theorem store_room {e : Entity (List (BitVec 64))} {i : Inputs}
    (stored : sFifoWr (idealFifo g) e i = true) : e.fifo.length < g.cFifoDepth := by
  simp only [sFifoWr, Bool.and_eq_true] at stored
  obtain ⟨⟨second, _⟩, ready⟩ := stored
  simp only [oTready, second] at ready
  split at ready
  · exact absurd ready (by simp)
  · simpa [idealFifo] using ready

end Clock

section Stream

variable {g : Generics}

/-- Everything accepted from the stream is in the beats sent, in the FIFO or in
the packing register, in this order. -/
def Conserves (b : Bench (List (BitVec 64))) : Prop :=
  b.beats.flatMap halves ++ b.dut.fifo.flatMap halves ++
    packed b.dut.regs.sPrevTvalid b.dut.regs.sPrevTdata = b.words

/-- How much of the burst in hand is stored: all of it when it is presented, less
the word a chained one may be short of, and what remains of it while it is sent. -/
structure Stock (g : Generics) (sm : SmRegisters) (occupancy : Nat) (short : Bool) : Prop where
  presenting : sm.sState = .awSend → g.gBurstLen ≤ occupancy + short.toNat
  sending : sm.sState = .wSend → g.gBurstLen ≤ occupancy + sm.sBeatCnt
  beats : sm.sState = .wSend → sm.sBeatCnt < g.gBurstLen
  marked : short = true → sm.sState = .awSend ∧ occupancy + 1 = g.gBurstLen

/-- Away from AW_SEND no burst is marked short. -/
theorem Stock.unmarked {sm : SmRegisters} {occupancy : Nat} {short : Bool}
    (held : Stock g sm occupancy short) (other : sm.sState ≠ .awSend) : short = false := by
  by_contra mark
  exact other (held.marked (by simpa using mark)).1

/-- Without a beat the occupancy grows by what is stored. -/
theorem quiet_occupancy {stored : Bool} {i : Inputs} {sm : SmRegisters} {before after : Nat}
    (balance : after + (sFifoRd sm i).toNat = before + stored.toNat)
    (noBeat : wHandshake sm i = false) : after = before + stored.toNat := by
  have noPop : sFifoRd sm i = false := noBeat
  simpa [noPop] using balance

/-- Without a beat the mark is only cleared, by a word stored. -/
theorem quiet_mark {progFull short stored : Bool} {i : Inputs} {sm : SmRegisters} {before : Nat}
    (noBeat : wHandshake sm i = false) :
    shortNext g sm i progFull short stored before = (short && !stored) := by
  simp [shortNext, noBeat]

/-- A last beat marks the burst it chains when exactly one burst was stored. -/
theorem last_marks {progFull stored : Bool} {i : Inputs} {sm : SmRegisters} {before : Nat}
    (state : sm.sState = .wSend) (accepted : i.iWready = true)
    (last : sm.sBeatCnt = g.gBurstLen - 1) :
    shortNext g sm i progFull false stored before =
      (progFull && decide (before = g.gBurstLen) && !stored) := by
  cases progFull <;> simp [shortNext, wHandshake, oWvalid, oWlast, state, accepted, last]

/-- A burst is committed from IDLE with all of its words, and chained with all but
the one popped on the same clock; the mark accounts for that one until a word is
stored. Beats then move out of the FIFO as the beat count goes up. -/
theorem Stock.advance {progFull short stored : Bool} {pending : BitVec 4} {i : Inputs}
    {sm sm' : SmRegisters} {t t' : Tally} {before after : Nat} (held : Stock g sm before short)
    (advanced : Advances g progFull pending i sm t sm' t')
    (flag : progFull = decide (g.gBurstLen ≤ before))
    (balance : after + (sFifoRd sm i).toNat = before + stored.toNat)
    (madeUp : awHandshake sm i = true → short = true → stored = true) :
    Stock g sm' after (shortNext g sm i progFull short stored before) := by
  have positive : 0 < g.gBurstLen := g.positive
  -- Where no burst is marked before, none is marked after a clock that chains none.
  have clear (other : sm.sState ≠ .awSend) (resting : sm.sState ≠ .wSend) :
      shortNext g sm i progFull short stored before = false := by
    rw [quiet_mark (wHandshake_elsewhere resting), held.unmarked other, Bool.false_and]
  cases advanced with
  | quiet noBegin noAddress noBeat =>
    rw [quiet_occupancy balance noBeat, quiet_mark noBeat]
    refine ⟨?_, ?_, held.beats, ?_⟩
    · intro state
      have presented := held.presenting state
      cases stored <;> cases short <;> simp at presented ⊢ <;> omega
    · intro state
      have sending := held.sending state
      omega
    · intro marked
      simp only [Bool.and_eq_true, Bool.not_eq_true'] at marked
      obtain ⟨state, missing⟩ := held.marked marked.1
      constructor
      · exact state
      · simpa [marked.2] using missing
  | starts state enabled =>
    rw [clear (by simp [state]) (by simp [state])]
    constructor <;> simp
  | stops state disabled =>
    rw [clear (by simp [state]) (by simp [state])]
    constructor <;> simp
  | commits state enabled stocked =>
    have enough : g.gBurstLen ≤ before := by simpa [stocked] using flag
    have noBeat : wHandshake sm i = false := wHandshake_elsewhere (by simp [state])
    rw [clear (by simp [state]) (by simp [state]), quiet_occupancy balance noBeat]
    refine ⟨?_, by simp, by simp, by simp⟩
    intro _
    omega
  | addressed state accepted =>
    have made := madeUp (by simp [awHandshake, oAwvalid, state, accepted])
    have presented := held.presenting state
    have noBeat : wHandshake sm i = false := wHandshake_elsewhere (by simp [state])
    have covered : short.toNat ≤ stored.toNat ∧ (short && !stored) = false := by
      cases marked : short with
      | false => simp
      | true => simp [made marked]
    rw [quiet_occupancy balance noBeat, quiet_mark noBeat, covered.2]
    refine ⟨by simp, ?_, ?_, by simp⟩
    · intro _
      change g.gBurstLen ≤ before + stored.toNat + 0
      omega
    · intro _
      exact positive
  | sends state accepted more =>
    have within := held.beats state
    have sending := held.sending state
    have popped : sFifoRd sm i = true := by simp [sFifoRd, state, accepted]
    have mark : shortNext g sm i progFull short stored before = false := by
      simp [shortNext, oWlast, more, held.unmarked (by simp [state])]
    rw [popped, Bool.toNat_true] at balance
    rw [mark]
    refine ⟨by simp [state], ?_, ?_, by simp⟩
    · intro _
      change g.gBurstLen ≤ after + (sm.sBeatCnt + 1)
      omega
    · intro _
      change sm.sBeatCnt + 1 < g.gBurstLen
      omega
  | finishes next state accepted last continued =>
    have popped : sFifoRd sm i = true := by simp [sFifoRd, state, accepted]
    obtain ⟨left, _⟩ := chained_elsewhere continued
    rw [popped, Bool.toNat_true] at balance
    rw [held.unmarked (by simp [state]), last_marks state accepted last]
    refine ⟨?_, ?_, ?_, ?_⟩
    · intro presenting
      have full : progFull = true := by
        by_contra missing
        simp [continued, missing] at presenting
      have enough : g.gBurstLen ≤ before := by simpa [full] using flag
      by_cases tight : before = g.gBurstLen
      · cases stored <;> simp [full, tight] at balance ⊢ <;> omega
      · simp only [tight, decide_false, Bool.and_false, Bool.false_and, Bool.toNat_false]
        omega
    · intro back
      exact absurd back left
    · intro back
      exact absurd back left
    · intro marked
      simp only [Bool.and_eq_true, decide_eq_true_eq, Bool.not_eq_true'] at marked
      obtain ⟨⟨full, tight⟩, unstored⟩ := marked
      simp only [unstored, Bool.toNat_false] at balance
      constructor
      · simp [continued, full]
      · omega
  | retires state settled =>
    rw [clear (by simp [state]) (by simp [state])]
    constructor <;> simp

/-- What a run keeps while every short burst is made up. -/
structure Stocked (g : Generics) (s : StreamBench) : Prop where
  conserves : Conserves s.bench
  stock : Stock g s.bench.dut.regs.sm s.bench.dut.fifo.length s.short

/-- A stocked FIFO is not empty when it is popped. -/
theorem Stocked.present {s : StreamBench} (held : Stocked g s) {i : Inputs}
    (popped : sFifoRd s.bench.dut.regs.sm i = true) : s.bench.dut.fifo ≠ [] := by
  have state : s.bench.dut.regs.sm.sState = .wSend := by
    simp only [sFifoRd, Bool.and_eq_true, decide_eq_true_eq] at popped
    exact popped.1
  have stocked := held.stock.sending state
  have within := held.stock.beats state
  intro empty
  simp only [empty, List.length_nil] at stocked
  omega

theorem Stocked.intact {s : StreamBench} (held : Stocked g s) : Intact g s where
  stocked := held.stock.sending
  present i popped := by simpa [idealFifo] using held.present popped
  stream := ⟨_, by rw [← List.append_assoc]; exact held.conserves⟩

/-- The words taken from the FIFO are the beats accepted by the slave. -/
theorem Stocked.conserves_observe {s : StreamBench} (held : Stocked g s) {i : Inputs}
    (running : i.iAresetn = true) : Conserves (observe g (idealFifo g) s.bench i) := by
  let e := s.bench.dut
  have queue := BoundedQueue.clock_conserves g.cFifoDepth e.fifo (sFifoWr (idealFifo g) e i)
    (i.iTdata ++ e.regs.sPrevTdata) (sFifoRd e.regs.sm i) store_room
  let next := packProcess (idealFifo g) e i
  have sent : (if wHandshake e.regs.sm i then [oWdata (idealFifo g) e] else []) =
      BoundedQueue.taken e.fifo (sFifoRd e.regs.sm i) := by
    change (if sFifoRd e.regs.sm i then [e.fifo.headD 0] else []) = _
    cases popped : sFifoRd e.regs.sm i with
    | false => rfl
    | true =>
      obtain ⟨head, rest, stored⟩ := List.exists_cons_of_ne_nil (held.present popped)
      simp [BoundedQueue.taken, e, stored]
  change (s.bench.beats ++ if wHandshake e.regs.sm i then [oWdata (idealFifo g) e] else []).flatMap
      halves ++ (clock g (idealFifo g) e i).fifo.flatMap halves ++
      packed next.1 next.2 =
    s.bench.words ++ BoundedQueue.offered (i.iTvalid && oTready (idealFifo g) e) i.iTdata
  rw [sent, clock_fifo e i running, ← held.conserves]
  calc _ = s.bench.beats.flatMap halves ++ (BoundedQueue.taken e.fifo (sFifoRd e.regs.sm i) ++
          BoundedQueue.clock g.cFifoDepth e.fifo (sFifoWr (idealFifo g) e i)
            (i.iTdata ++ e.regs.sPrevTdata) (sFifoRd e.regs.sm i)).flatMap halves ++
          packed next.1 next.2 := by
        simp only [List.flatMap_append, List.append_assoc]
    _ = s.bench.beats.flatMap halves ++ e.fifo.flatMap halves ++
          ((BoundedQueue.offered (sFifoWr (idealFifo g) e i)
            (i.iTdata ++ e.regs.sPrevTdata)).flatMap halves ++
            packed next.1 next.2) := by
        rw [queue]
        simp only [List.flatMap_append, List.append_assoc]
    _ = _ := by
        rw [packProcess_conserves (idealFifo g) e i running]
        simp only [List.append_assoc, e]

/-- One clock that makes up a short burst in time keeps the FIFO stocked. -/
theorem Stocked.watch {s : StreamBench} (held : Stocked g s) {i : Inputs}
    (running : i.iAresetn = true) (madeUp : MadeUp g s i) : Stocked g (watch g s i) where
  conserves := held.conserves_observe running
  stock := by
    refine held.stock.advance (observe_advances g (idealFifo g) s.bench i running) rfl ?_ madeUp
    change (clock g (idealFifo g) s.bench.dut i).fifo.length + _ = _
    rw [clock_fifo s.bench.dut i running]
    exact BoundedQueue.clock_length _ _ _ _ _ store_room held.present

/-- From a stocked state, one clock leaves the stream intact exactly when it makes
up the burst it addresses: otherwise the first beat finds one word too few. -/
theorem intact_iff_made_up {s : StreamBench} {i : Inputs} (held : Stocked g s)
    (running : i.iAresetn = true) : Intact g (watch g s i) ↔ MadeUp g s i := by
  constructor
  · intro intact handshake short
    by_contra unstored
    obtain ⟨state, missing⟩ := held.stock.marked short
    have accepted : i.iAwready = true := by
      simpa [awHandshake, oAwvalid, state] using handshake
    have noPop : sFifoRd s.bench.dut.regs.sm i = false := by simp [sFifoRd, state]
    have noStore : sFifoWr (idealFifo g) s.bench.dut i = false := by simpa [stores] using unstored
    have sending : (watch g s i).bench.dut.regs.sm.sState = .wSend ∧
        (watch g s i).bench.dut.regs.sm.sBeatCnt = 0 := by
      simp [watch, observe, clock, procSm, running, state, accepted]
    have same : (watch g s i).bench.dut.fifo = s.bench.dut.fifo := by
      change (clock g (idealFifo g) s.bench.dut i).fifo = _
      rw [clock_fifo s.bench.dut i running, noPop, noStore]
      simp [BoundedQueue.clock]
    have stocked := intact.stocked sending.1
    rw [same, sending.2] at stocked
    omega
  · intro madeUp
    exact (held.watch running madeUp).intact

variable (g)

def resetStream (sWrPtr sPrevTdata : BitVec 32) : StreamBench :=
  ⟨resetBench sWrPtr sPrevTdata [], false⟩

theorem stocked_reset (sWrPtr sPrevTdata : BitVec 32) :
    Stocked g (resetStream sWrPtr sPrevTdata) where
  conserves := rfl
  stock := by constructor <;> simp [resetStream, resetBench, resetRegisters, resetSm]

/-- In every run without a soft reset the beats sent are a prefix of the stream,
taken from a FIFO that holds the rest of the burst, throughout exactly when
every burst chained a word short is made up before its address is accepted. -/
theorem stream_intact_iff (sWrPtr sPrevTdata : BitVec 32) (events : List Inputs)
    (follows : Follows Streams (watch g) (resetStream sWrPtr sPrevTdata) events) :
    Always (Intact g) (watch g) (resetStream sWrPtr sPrevTdata) events ↔
      Follows (MadeUp g) (watch g) (resetStream sWrPtr sPrevTdata) events := by
  have decides : ∀ s i, Stocked g s → Streams s i → (Intact g (watch g s i) ↔ MadeUp g s i) := by
    intro s i held running
    exact intact_iff_made_up held running
  have preserved : ∀ s i, Stocked g s → Streams s i → MadeUp g s i → Stocked g (watch g s i) := by
    intro s i held running madeUp
    exact held.watch running madeUp
  have initial := stocked_reset g sWrPtr sPrevTdata
  exact always_iff_follows decides preserved initial initial.intact events follows

end Stream

/-- The stream delivers the given number of words while the slave holds off the
first address; then it accepts two bursts. -/
def stalledThenSent (count : Nat) : List Inputs :=
  ports false false false false 0 :: streamIn count ++ burstOnBus ++ burstOnBus

/-- At the burst length of the design, with 31 words of 64 bits stored: the second
burst is chained with sixteen words, one of which is popped on that clock, and
its last beat is taken from an empty FIFO. -/
theorem burst_outruns_stream :
    Follows Streams (watch .ad936xAxi) (resetStream 0 0) (stalledThenSent 62) ∧
      ¬ Always (Intact .ad936xAxi) (watch .ad936xAxi) (resetStream 0 0) (stalledThenSent 62) ∧
      (run (watch .ad936xAxi) (resetStream 0 0) (stalledThenSent 62)).bench.words.length = 62 ∧
      (run (watch .ad936xAxi) (resetStream 0 0) (stalledThenSent 62)).bench.beats.length = 32 ∧
      ¬ (run (watch .ad936xAxi) (resetStream 0 0)
          (stalledThenSent 62)).bench.beats.flatMap halves <+:
        (run (watch .ad936xAxi) (resetStream 0 0) (stalledThenSent 62)).bench.words := by
  have invented : ¬ (run (watch .ad936xAxi) (resetStream 0 0)
      (stalledThenSent 62)).bench.beats.flatMap halves <+:
        (run (watch .ad936xAxi) (resetStream 0 0) (stalledThenSent 62)).bench.words := by
    decide +kernel
  exact ⟨by decide +kernel, fun intact => invented intact.last.stream, by decide +kernel,
    by decide +kernel, invented⟩

/-- With one word more, both bursts are the words of the stream. -/
theorem stream_intact_stalled :
    Always (Intact .ad936xAxi) (watch .ad936xAxi) (resetStream 0 0) (stalledThenSent 64) :=
  (stream_intact_iff .ad936xAxi 0 0 (stalledThenSent 64) (by decide +kernel)).mpr
    (by decide +kernel)

end Zyndra.AxiMasterWr
