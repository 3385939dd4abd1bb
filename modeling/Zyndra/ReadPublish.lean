import Zyndra.ReadAddress
import Zyndra.ReadStream

/-!
# The reader and the software write pointer

Software publishes bytes of a stream by moving the write pointer forward round the ring,
never by more than the space the reader has released. Published, released and
fetched bytes are counted here as unbounded stream positions, so that a full and
an empty ring differ.

From IDLE the reader commits a burst only when one is published. On the last
beat of a burst it decides again, with a read pointer that still stands before
that burst: the burst just received is counted as available. The reader stays
behind the writer exactly in the runs in which, whenever a burst is chained in
this way, a second one is published.
-/

namespace Zyndra.AxiMasterRd

open CyclicRing Runs

/-- The bench with the number of bytes published in the session. -/
structure RingBench (Fifo : Type) where
  bench : Bench Fifo
  published : Nat

/-- One clock: the input ports and by how much the write pointer has moved since
the last one. On the clock that begins a session this is what lies in the ring. -/
structure Clocked where
  inputs : Inputs
  grown : Nat

section Publishing

variable {Fifo : Type} (g : Generics) (xpm : XpmFifoSync (BitVec 64) Fifo)

/-- Bytes published in the session, counting this clock. -/
def RingBench.publishedNow (s : RingBench Fifo) (e : Clocked) : Nat :=
  if begins s.bench.dut.regs e.inputs then e.grown else s.published + e.grown

def publish (s : RingBench Fifo) (e : Clocked) : RingBench Fifo where
  bench := observe g xpm s.bench e.inputs
  published := s.publishedNow e

/-- The write pointer shows the published bytes, which exceed the released ones
by at most the ring. Only sessions are constrained. -/
def SoftwareRule (s : RingBench Fifo) (e : Clocked) : Prop :=
  if begins s.bench.dut.regs e.inputs then
    e.inputs.iWrPtr.toNat = s.publishedNow e % e.inputs.iBufSize.toNat ∧
      s.publishedNow e ≤ e.inputs.iBufSize.toNat
  else s.bench.dut.regs.sState ≠ .standby →
    e.inputs.iWrPtr.toNat = s.publishedNow e % s.bench.tally.size.toNat ∧
      s.publishedNow e ≤ g.burst * s.bench.tally.bursts + s.bench.tally.size.toNat

instance (s : RingBench Fifo) (e : Clocked) : Decidable (SoftwareRule g s e) :=
  inferInstanceAs (Decidable (ite _ _ _))

/-- The environment of a transmitting reader. -/
def TransmitRule (s : RingBench Fifo) (e : Clocked) : Prop :=
  SlaveRule s.bench e.inputs ∧ SizeRule g s.bench e.inputs ∧ SoftwareRule g s e

instance (s : RingBench Fifo) (e : Clocked) : Decidable (TransmitRule g s e) :=
  inferInstanceAs (Decidable (_ ∧ _ ∧ _))

/-- The reader stays behind the writer: a burst presented is published and not
yet fetched, no more bytes are fetched than published, and the read pointer has
not passed the write pointer. -/
structure BehindWriter (s : RingBench Fifo) : Prop where
  presented : s.bench.dut.regs.sState = .arSend →
    g.burst * (s.bench.tally.bursts + 1) ≤ s.published
  fetched : 8 * s.bench.tally.fetched ≤ s.published
  pointer : g.burst * s.bench.tally.bursts ≤ s.published

/-- Whenever the last beat of a burst is received while the FIFO is below its
threshold and the availability test passes, a burst beyond the one just received
is published. -/
def SecondBurst (s : RingBench Fifo) (e : Clocked) : Prop :=
  s.bench.dut.regs.sState = .rRecv → e.inputs.iRvalid = true → e.inputs.iRlast = true →
    xpm.progFull s.bench.dut.fifo = false → sHasBurst g s.bench.dut.regs e.inputs = true →
      g.burst * (s.bench.tally.bursts + 2) ≤ s.publishedNow e

instance (s : RingBench Fifo) (e : Clocked) : Decidable (SecondBurst g xpm s e) :=
  inferInstanceAs (Decidable (_ → _ → _ → _ → _ → _))

/-- What a run keeps while every chained burst is published. -/
structure Supplied (s : RingBench Fifo) : Prop where
  lockstep : Lockstep g s.bench.dut.regs s.bench.tally
  tracks : Tracks g s.bench.dut.regs s.bench.tally
  behind : g.burst * s.bench.tally.bursts ≤ s.published
  committed : s.bench.dut.regs.sState = .arSend ∨ s.bench.dut.regs.sState = .rRecv →
    g.burst * (s.bench.tally.bursts + 1) ≤ s.published

variable {g}

/-- In a session the availability test passes only when a burst beyond the read
pointer is published. A ring published as a whole reads as empty. -/
theorem has_burst_published {s : RingBench Fifo} {e : Clocked} (held : Supplied g s)
    (rule : TransmitRule g s e) (active : s.bench.dut.regs.sState ≠ .standby)
    (available : sHasBurst g s.bench.dut.regs e.inputs = true) :
    g.burst * (s.bench.tally.bursts + 1) ≤ s.publishedNow e := by
  have noBegin : begins s.bench.dut.regs e.inputs = false := begins_active active
  obtain ⟨positive, _⟩ := held.tracks.whole active
  have shown : e.inputs.iWrPtr.toNat = s.publishedNow e % s.bench.tally.size.toNat := by
    have software := rule.2.2
    rw [SoftwareRule, noBegin] at software
    exact (software active).1
  have grown : g.burst * s.bench.tally.bursts ≤ s.publishedNow e := by
    rw [RingBench.publishedNow, noBegin]
    exact held.behind.trans (Nat.le_add_right _ _)
  have distance : (sDataAvail s.bench.dut.regs e.inputs).toNat =
      (s.publishedNow e - g.burst * s.bench.tally.bursts) % s.bench.tally.size.toNat := by
    rw [sDataAvail, held.tracks.latched]
    exact cyclicDistance_positions positive grown held.tracks.offset shown
  have test : g.cBurstBytes.toNat ≤ (sDataAvail s.bench.dut.regs e.inputs).toNat :=
    of_decide_eq_true available
  rw [held.tracks.burst_bytes active, distance] at test
  have reduced := Nat.mod_le (s.publishedNow e - g.burst * s.bench.tally.bursts)
    s.bench.tally.size.toNat
  rw [Nat.mul_add, Nat.mul_one]
  omega

/-- Software never takes published bytes back. -/
theorem publishedNow_grows {s : RingBench Fifo} {e : Clocked}
    (noBegin : begins s.bench.dut.regs e.inputs = false) : s.published ≤ s.publishedNow e := by
  rw [RingBench.publishedNow, noBegin]
  exact Nat.le_add_right _ _

/-- A supplied reader is behind the writer: the beats of the session are those
of complete bursts and of the one committed to. -/
theorem Supplied.behindWriter {s : RingBench Fifo} (held : Supplied g s) : BehindWriter g s where
  presented state := held.committed (Or.inl state)
  pointer := held.behind
  fetched := by
    have counted := held.lockstep.fetched
    by_cases state : s.bench.dut.regs.sState = .rRecv
    · have committed := held.committed (Or.inr state)
      simp only [state, decide_true, Bool.toNat_true] at counted
      rw [g.burst_beats] at committed
      omega
    · have behind := held.behind
      simp only [state, decide_false, Bool.toNat_false, Nat.add_zero] at counted
      rw [g.burst_beats] at behind
      omega

/-- A clock that meets the condition keeps the reader supplied. From IDLE the
availability test is sound; on the last beat of a burst it is the condition that
accounts for the burst the test still counts. -/
theorem Supplied.publish {s : RingBench Fifo} {e : Clocked} (held : Supplied g s)
    (rule : TransmitRule g s e) (second : SecondBurst g xpm s e) :
    Supplied g (publish g xpm s e) := by
  have advanced := observe_advances g xpm s.bench e.inputs rule.1
  have lockstep := held.lockstep.advance advanced
  have tracks := held.tracks.advance advanced rule.2.1
  have sound := has_burst_published held rule
  have grows := publishedNow_grows (s := s) (e := e)
  suffices kept : g.burst * (observe g xpm s.bench e.inputs).tally.bursts ≤ s.publishedNow e ∧
      ((observe g xpm s.bench e.inputs).dut.regs.sState = .arSend ∨
        (observe g xpm s.bench e.inputs).dut.regs.sState = .rRecv →
        g.burst * ((observe g xpm s.bench e.inputs).tally.bursts + 1) ≤ s.publishedNow e) from
    ⟨lockstep, tracks, kept.1, kept.2⟩
  have behind := held.behind
  have committed := held.committed
  clear lockstep tracks
  generalize (observe g xpm s.bench e.inputs).dut.regs = after at advanced
  generalize (observe g xpm s.bench e.inputs).tally = counted at advanced
  cases advanced with
  | quiet hi noBegin noData =>
    have grown := grows noBegin
    constructor
    · exact behind.trans grown
    · intro state
      exact (committed state).trans grown
  | starts hi state enabled => constructor <;> simp
  | stops hi state disabled =>
    have grown := grows (begins_active (by simp [state]))
    constructor
    · exact behind.trans grown
    · simp
  | commits hi state room available =>
    have grown := grows (begins_active (by simp [state]))
    constructor
    · exact behind.trans grown
    · intro _
      exact sound (by simp [state]) available
  | addressed hi state accepted =>
    have grown := grows (begins_active (by simp [state]))
    constructor
    · exact behind.trans grown
    · intro _
      exact (committed (Or.inl state)).trans grown
  | receives hi state valid more =>
    have grown := grows (begins_active (by simp [state]))
    constructor
    · exact behind.trans grown
    · intro _
      exact (committed (Or.inr state)).trans grown
  | finishes hi next state valid last final continued =>
    have grown := grows (begins_active (by simp [state]))
    constructor
    · exact (committed (Or.inr state)).trans grown
    · intro chained
      cases test : (!xpm.progFull s.bench.dut.fifo && sHasBurst g s.bench.dut.regs e.inputs) with
      | false =>
        rw [test] at continued
        rcases chained with presenting | receiving
        · exact absurd (continued.symm.trans presenting) (by decide)
        · exact absurd receiving (chained_elsewhere continued).1
      | true =>
        obtain ⟨room, available⟩ := Bool.and_eq_true_iff.mp test
        exact second state valid last (by simpa using room) available

/-- From a supplied state, one clock leaves the reader behind the writer exactly
when it meets the condition: chaining a burst that is not published presents it. -/
theorem behind_iff_second {s : RingBench Fifo} {e : Clocked} (held : Supplied g s)
    (rule : TransmitRule g s e) :
    BehindWriter g (publish g xpm s e) ↔ SecondBurst g xpm s e := by
  constructor
  · intro behind state valid last room available
    have running := rule.1.1
    have chained : (publish g xpm s e).bench.dut.regs.sState = .arSend := by
      simp [publish, observe, clock, procSm, running, state, valid, last, room, available]
    have counted : (publish g xpm s e).bench.tally.bursts = s.bench.tally.bursts + 1 := by
      simp [publish, observe, Tally.count, begins, rHandshake, oRready, state, valid, last]
    have presented := behind.presented chained
    rw [counted] at presented
    exact presented
  · intro second
    exact (held.publish xpm rule second).behindWriter

variable (g)

def resetRing (fifo : Fifo) : RingBench Fifo := ⟨resetBench fifo, 0⟩

theorem supplied_reset (fifo : Fifo) : Supplied g (resetRing fifo) where
  lockstep := lockstep_reset g fifo
  tracks := (agreement_reset g fifo).tracks
  behind := by simp [resetRing, resetBench]
  committed := by simp [resetRing, resetBench, resetRegisters]

/-- In every run, for every FIFO and every timing of the slave, the reader stays
behind the writer throughout exactly when every burst chained on the last beat
of another is published. -/
theorem reads_published_iff (fifo : Fifo) (events : List Clocked)
    (follows : Follows (TransmitRule g) (publish g xpm) (resetRing fifo) events) :
    Always (BehindWriter g) (publish g xpm) (resetRing fifo) events ↔
      Follows (SecondBurst g xpm) (publish g xpm) (resetRing fifo) events := by
  have decides : ∀ s e, Supplied g s → TransmitRule g s e →
      (BehindWriter g (publish g xpm s e) ↔ SecondBurst g xpm s e) := by
    intro s e held rule
    exact behind_iff_second xpm held rule
  have preserved : ∀ s e, Supplied g s → TransmitRule g s e → SecondBurst g xpm s e →
      Supplied g (publish g xpm s e) := by
    intro s e held rule second
    exact held.publish xpm rule second
  have initial := supplied_reset g fifo
  exact always_iff_follows decides preserved initial initial.behindWriter events follows

end Publishing

/-- One burst is published in a ring of two. The reader fetches it, chains the
second burst on its last beat and fetches that too. -/
def overread : List Clocked :=
  ⟨ports false false false true 0, 128⟩ ::
    ([ports false false false true 0, ports true false false true 0] ++ burstOnBus true ++
      [ports true false false true 0] ++ burstOnBus true).map (⟨·, 0⟩)

/-- At the burst length of the design, software publishes 128 bytes and the
reader fetches 256. -/
theorem reader_passes_writer :
    Follows (TransmitRule .ad936xAxi) (publish .ad936xAxi (idealFifo .ad936xAxi)) (resetRing [])
        overread ∧
      ¬ Always (BehindWriter .ad936xAxi) (publish .ad936xAxi (idealFifo .ad936xAxi)) (resetRing [])
        overread ∧
      (run (publish .ad936xAxi (idealFifo .ad936xAxi)) (resetRing []) overread).published = 128 ∧
      8 * (run (publish .ad936xAxi (idealFifo .ad936xAxi)) (resetRing [])
        overread).bench.tally.fetched = 256 := by
  refine ⟨by decide +kernel, ?_, by decide +kernel, by decide +kernel⟩
  intro behind
  have fetched := behind.last.fetched
  revert fetched
  decide +kernel

/-- Two bursts are published in a ring of four. The reader fetches the first and
chains the second. -/
def supplied : List Clocked :=
  let wide (i : Inputs) : Inputs := { i with iBufSize := 512, iWrPtr := 256 }
  ⟨wide (ports false false false true 0), 256⟩ ::
    ([ports false false false true 0, ports true false false true 0] ++ burstOnBus true ++
      [ports true false false true 0]).map (fun i => ⟨wide i, 0⟩)

theorem reads_published_supplied :
    Always (BehindWriter .ad936xAxi) (publish .ad936xAxi (idealFifo .ad936xAxi)) (resetRing [])
      supplied :=
  (reads_published_iff .ad936xAxi (idealFifo .ad936xAxi) [] supplied (by decide +kernel)).mpr
    (by decide +kernel)

end Zyndra.AxiMasterRd
