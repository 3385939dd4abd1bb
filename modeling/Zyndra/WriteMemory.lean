import Zyndra.PostedWrites
import Zyndra.WriteAddress
import Zyndra.WriteStream
import Mathlib.Data.List.GetD

/-!
# The writer's beats in memory

Behind the port stands a memory of 64-bit words. The slave places the beats of a
burst from the address accepted for it on, carries the writes out in order at any
pace, and answers a burst once all of its beats are in memory. The offset software
reads is moved by the answers, so whatever it shows as written is in memory: the
beats of the session lie round the ring in the order of the stream, for any FIFO
and any delays, and nothing outside the ring is written.
-/

namespace Zyndra.AxiMasterWr

open CyclicRing PostedWrites Runs

/-- The memory behind the port, the address of the burst accepted last, and how many
of its beats have been accepted. -/
structure Slave where
  port : MemoryPort (BitVec 64)
  address : BitVec 32
  beat : Nat

/-- The bench with the slave's memory. The beats of the session are kept, and of them
how many are in memory; `before` is the memory the session began with. -/
structure MemoryBench (Fifo : Type) where
  bench : Bench Fifo
  slave : Slave
  taken : List (BitVec 64)
  committed : Nat
  earlier : List (BitVec 64)
  before : Nat → BitVec 64

/-- The clock's inputs, and how many writes the slave carries out on it. -/
structure Clocked where
  inputs : Inputs
  commits : Nat

section Bench

variable {Fifo : Type} (g : Generics) (xpm : XpmFifoSync (BitVec 64) Fifo)

/-- The slave's clock: writes are carried out, an address is accepted, or a beat goes to
the next eight bytes of its burst. -/
def Slave.clock (s : Slave) (e : Entity Fifo) (i : Inputs) (commits : Nat) : Slave where
  port :=
    if wHandshake e.regs.sm i then
      (s.port.commit commits).accept
        ((s.address + BitVec.ofNat 32 (8 * s.beat)).toNat / 8) (oWdata xpm e)
    else s.port.commit commits
  address := if awHandshake e.regs.sm i then e.regs.sm.sAwAddr else s.address
  beat :=
    if awHandshake e.regs.sm i then 0
    else if wHandshake e.regs.sm i then s.beat + 1
    else s.beat

def remember (m : MemoryBench Fifo) (c : Clocked) : MemoryBench Fifo :=
  let e := m.bench.dut
  let begun := begins e.regs.sm c.inputs
  { bench := observe g xpm m.bench c.inputs
    slave := m.slave.clock xpm e c.inputs c.commits
    taken :=
      if begun then []
      else m.taken ++ if wHandshake e.regs.sm c.inputs then [oWdata xpm e] else []
    committed := if begun then 0 else min (m.committed + c.commits) m.taken.length
    earlier := if begun then m.earlier ++ m.taken else m.earlier
    before := if begun then m.slave.port.memory else m.before }

/-- A ring starts at a whole word, and a burst is answered once its beats are in
memory. -/
def WriteMemoryRule (m : MemoryBench Fifo) (c : Clocked) : Prop :=
  SessionRule g m.bench c.inputs ∧
    (begins m.bench.dut.regs.sm c.inputs = true → 8 ∣ c.inputs.iBaseAddr.toNat) ∧
    (c.inputs.iBvalid = true → g.gBurstLen * (m.bench.tally.answered + 1) ≤ m.committed)

instance (m : MemoryBench Fifo) (c : Clocked) : Decidable (WriteMemoryRule g m c) :=
  inferInstanceAs (Decidable (_ ∧ _ ∧ _))

/-- The bench out of reset, with nothing on its way to memory. -/
def memoryStart (sWrPtr sPrevTdata : BitVec 32) (fifo : Fifo) (memory : Nat → BitVec 64) :
    MemoryBench Fifo where
  bench := resetBench sWrPtr sPrevTdata fifo
  slave := ⟨⟨memory, []⟩, 0, 0⟩
  taken := []
  committed := 0
  earlier := []
  before := memory

/-- The ring in words, and its first word in memory. -/
def Tally.words (t : Tally) : Nat := t.size.toNat / 8

def Tally.firstWord (t : Tally) : Nat := t.base.toNat / 8

/-- The beats accepted are those of the bursts addressed, up to the burst being sent,
of which the slave knows the address and the beat. -/
structure Paced (g : Generics) (sm : SmRegisters) (t : Tally) (s : Slave) (taken : Nat) :
    Prop where
  resting : sm.sState ≠ .wSend → taken = g.gBurstLen * t.addressed
  sending : sm.sState = .wSend → ∃ k, t.addressed = k + 1 ∧
    taken = g.gBurstLen * k + sm.sBeatCnt ∧ s.beat = sm.sBeatCnt ∧
    s.address.toNat = t.base.toNat + g.burst * k % t.size.toNat

/-- What holds of the writer and its memory at any time. -/
structure Remembers (m : MemoryBench Fifo) : Prop where
  agreement : Agreement g m.bench
  paced : Paced g m.bench.dut.regs.sm m.bench.tally m.slave m.taken.length
  fills : Fills m.bench.tally.words m.bench.tally.firstWord (fun p => m.taken.getD p 0) m.before
    m.slave.port m.committed m.taken.length
  answered : g.gBurstLen * m.bench.tally.answered ≤ m.committed
  whole : m.bench.dut.regs.sm.sState ≠ .standby → 8 ∣ m.bench.tally.base.toNat
  beats : m.bench.beats = m.earlier ++ m.taken

variable {g}

/-! ## One clock -/

section Step

variable {sm sm' : SmRegisters} {t t' : Tally} {i : Inputs} {progFull : Bool}
  {pending : BitVec 4} {e : Entity Fifo} {s : Slave} {taken commits : Nat}

/-- The beats keep pace with the addresses: a burst is done with its last beat, and the
slave has the address of the one being sent. -/
theorem Paced.advance (paced : Paced g sm t s taken) (addresses : Addresses g sm t)
    (same : e.regs.sm = sm) (advanced : Advances g progFull pending i sm t sm' t') :
    Paced g sm' t' (s.clock xpm e i commits)
      (if begins sm i then 0 else taken + (wHandshake sm i).toNat) := by
  subst same
  cases advanced with
  | quiet noBegin noAddress noBeat =>
    refine ⟨fun resting => ?_, fun sending => ?_⟩
    · rw [noBegin, noBeat]
      exact paced.resting resting
    · simpa [noBegin, noBeat, noAddress, Slave.clock, Tally.respond] using paced.sending sending
  | starts state enabled =>
    have begun : begins e.regs.sm i = true := by simp [begins, state, enabled]
    refine ⟨fun _ => ?_, by simp⟩
    rw [begun]
    rfl
  | stops state disabled =>
    have noBegin : begins e.regs.sm i = false := begins_active (by simp [state])
    have noBeat : wHandshake e.regs.sm i = false := wHandshake_elsewhere (by simp [state])
    refine ⟨fun _ => ?_, by simp⟩
    rw [noBegin, noBeat]
    exact paced.resting (by simp [state])
  | commits state enabled stocked =>
    have noBegin : begins e.regs.sm i = false := begins_active (by simp [state])
    have noBeat : wHandshake e.regs.sm i = false := wHandshake_elsewhere (by simp [state])
    refine ⟨fun _ => ?_, by simp⟩
    rw [noBegin, noBeat]
    exact paced.resting (by simp [state])
  | addressed state accepted =>
    have noBegin : begins e.regs.sm i = false := begins_active (by simp [state])
    have noBeat : wHandshake e.regs.sm i = false := wHandshake_elsewhere (by simp [state])
    have address : awHandshake e.regs.sm i = true := by
      simp [awHandshake, oAwvalid, state, accepted]
    refine ⟨by simp, fun _ => ⟨t.addressed, rfl, ?_, ?_, ?_⟩⟩
    · rw [noBegin, noBeat]
      exact paced.resting (by simp [state])
    · simp [Slave.clock, address]
    · simp only [Slave.clock, address, if_true]
      exact addresses.next (Or.inr state)
  | sends state accepted more =>
    have noBegin : begins e.regs.sm i = false := begins_active (by simp [state])
    have noAddress : awHandshake e.regs.sm i = false := awHandshake_elsewhere (by simp [state])
    have beat : wHandshake e.regs.sm i = true := by simp [wHandshake, oWvalid, state, accepted]
    obtain ⟨k, addressed, count, index, place⟩ := paced.sending state
    refine ⟨fun resting => absurd state resting, fun _ => ⟨k, addressed, ?_, ?_, ?_⟩⟩
    · rw [noBegin, beat]
      exact congrArg (· + 1) count
    · simp [Slave.clock, noAddress, beat, index]
    · simpa [Slave.clock, noAddress, Tally.respond] using place
  | finishes next state accepted last continued =>
    have noBegin : begins e.regs.sm i = false := begins_active (by simp [state])
    have beat : wHandshake e.regs.sm i = true := by simp [wHandshake, oWvalid, state, accepted]
    have positive := g.positive
    obtain ⟨left, -⟩ := chained_elsewhere continued
    obtain ⟨k, addressed, count, -, -⟩ := paced.sending state
    refine ⟨fun _ => ?_, fun sending => absurd sending left⟩
    rw [noBegin, beat]
    change taken + 1 = g.gBurstLen * t.addressed
    rw [addressed, count, last, Nat.mul_succ]
    omega
  | retires state settled =>
    have noBegin : begins e.regs.sm i = false := begins_active (by simp [state])
    have noBeat : wHandshake e.regs.sm i = false := wHandshake_elsewhere (by simp [state])
    refine ⟨fun _ => ?_, by simp⟩
    rw [noBegin, noBeat]
    exact paced.resting (by simp [state])

end Step

section Clock

variable {m : MemoryBench Fifo} {c : Clocked}

/-- The ring of a session has words. -/
theorem Remembers.words_positive (held : Remembers g m)
    (active : m.bench.dut.regs.sm.sState ≠ .standby) : 0 < m.bench.tally.words := by
  obtain ⟨positive, count, whole⟩ := held.agreement.latched.whole active
  rw [g.burst_beats] at whole
  rw [Tally.words]
  omega

/-- Between sessions everything accepted is in memory. -/
theorem Remembers.settled (held : Remembers g m)
    (resting : m.bench.dut.regs.sm.sState = .standby) : m.slave.port.pending = [] := by
  have none : m.bench.tally.outstanding = 0 := held.agreement.lockstep.retired resting
  have balance := held.agreement.lockstep.counted
  have beats := held.paced.resting (by simp [resting])
  have answered := held.answered
  have same : m.bench.tally.addressed = m.bench.tally.answered := by omega
  rw [same] at beats
  rw [held.fills.queued, Nat.sub_eq_zero_of_le (by omega)]
  rfl

/-- The slave carries out writes. -/
theorem Remembers.commit (held : Remembers g m) (commits : Nat) :
    Fills m.bench.tally.words m.bench.tally.firstWord (fun p => m.taken.getD p 0) m.before
      (m.slave.port.commit commits) (min (m.committed + commits) m.taken.length)
      m.taken.length := by
  by_cases resting : m.bench.dut.regs.sm.sState = .standby
  · have empty := held.settled resting
    have ordered := held.fills.ordered
    have queued := held.fills.queued
    rw [empty] at queued
    have none : m.taken.length - m.committed = 0 := by
      simpa [writes] using (congrArg List.length queued).symm
    have done : min (m.committed + commits) m.taken.length = m.committed := by omega
    rw [MemoryPort.commit_empty empty, done]
    exact held.fills
  · exact held.fills.commit (held.words_positive resting) commits

/-- The beat accepted goes to the place of its position in the session. -/
theorem Remembers.place (held : Remembers g m)
    (state : m.bench.dut.regs.sm.sState = .wSend) :
    (m.slave.address + BitVec.ofNat 32 (8 * m.slave.beat)).toNat / 8 =
      m.bench.tally.firstWord + m.taken.length % m.bench.tally.words := by
  have active : m.bench.dut.regs.sm.sState ≠ .standby := by simp [state]
  have latched := held.agreement.latched
  obtain ⟨positive, whole⟩ := latched.whole active
  have below := held.agreement.lockstep.beats state
  obtain ⟨k, addressed, count, index, place⟩ := held.paced.sending state
  have fits := latched.fits active k
  have top := latched.place active
  have burst : g.burst = 8 * g.gBurstLen := Nat.mul_comm _ _
  have sum : (m.slave.address + BitVec.ofNat 32 (8 * m.slave.beat)).toNat =
      m.bench.tally.base.toNat + g.burst * k % m.bench.tally.size.toNat +
        8 * m.bench.dut.regs.sm.sBeatCnt := by
    rw [BitVec.toNat_add, BitVec.toNat_ofNat, index, place, Nat.add_mod_mod,
      Nat.mod_eq_of_lt (by omega)]
  rw [burst] at whole
  rw [sum, count, burst]
  exact element_place (by decide) whole positive (held.whole active) below

theorem Remembers.fill (held : Remembers g m) (c : Clocked) :
    Fills (remember g xpm m c).bench.tally.words (remember g xpm m c).bench.tally.firstWord
      (fun p => (remember g xpm m c).taken.getD p 0) (remember g xpm m c).before
      (remember g xpm m c).slave.port (remember g xpm m c).committed
      (remember g xpm m c).taken.length := by
  cases begun : begins m.bench.dut.regs.sm c.inputs with
  | true =>
    have resting : m.bench.dut.regs.sm.sState = .standby := by
      simp only [begins, Bool.and_eq_true, decide_eq_true_eq] at begun
      exact begun.1
    have noBeat : wHandshake m.bench.dut.regs.sm c.inputs = false :=
      wHandshake_elsewhere (by simp [resting])
    have empty := held.settled resting
    simp only [remember, begun, if_true, Slave.clock, noBeat, Bool.false_eq_true, if_false,
      MemoryPort.commit_empty empty]
    exact Fills.nothing _ _ _ _ empty
  | false =>
    have committed := held.commit c.commits
    have words : (remember g xpm m c).bench.tally.words = m.bench.tally.words := by
      simp [remember, observe, Tally.count, Tally.words, begun]
    have first : (remember g xpm m c).bench.tally.firstWord = m.bench.tally.firstWord := by
      simp [remember, observe, Tally.count, Tally.firstWord, begun]
    rw [words, first]
    cases beat : wHandshake m.bench.dut.regs.sm c.inputs with
    | false =>
      simpa only [remember, begun, Bool.false_eq_true, if_false, Slave.clock, beat,
        List.append_nil] using committed
    | true =>
      have state : m.bench.dut.regs.sm.sState = .wSend := by
        simp only [wHandshake, oWvalid, Bool.and_eq_true, decide_eq_true_eq] at beat
        exact beat.1
      have longer : (m.taken ++ [oWdata xpm m.bench.dut]).length = m.taken.length + 1 :=
        List.length_append
      have last : (m.taken ++ [oWdata xpm m.bench.dut]).getD m.taken.length 0 =
          oWdata xpm m.bench.dut := by simp
      have same : ∀ p < m.taken.length,
          (m.taken ++ [oWdata xpm m.bench.dut]).getD p 0 = m.taken.getD p 0 :=
        fun p before => List.getD_append _ _ _ _ before
      have extended := (committed.congr same).accept
      simp only [last] at extended
      simp only [remember, begun, Bool.false_eq_true, if_false, Slave.clock, beat, if_true,
        held.place state, longer]
      exact extended

theorem Remembers.remember (held : Remembers g m) (rule : WriteMemoryRule g m c) :
    Remembers g (remember g xpm m c) := by
  obtain ⟨sessionRule, based, answering⟩ := rule
  have running : c.inputs.iAresetn = true := sessionRule.1.1
  have advanced := observe_advances g xpm m.bench c.inputs running
  have agreement := held.agreement.observe xpm c.inputs sessionRule
  refine ⟨agreement, ?_, held.fill xpm c, ?_, ?_, ?_⟩
  · have length : (AxiMasterWr.remember g xpm m c).taken.length =
        if begins m.bench.dut.regs.sm c.inputs then 0
        else m.taken.length + (wHandshake m.bench.dut.regs.sm c.inputs).toNat := by
      cases begun : begins m.bench.dut.regs.sm c.inputs <;>
        cases beat : wHandshake m.bench.dut.regs.sm c.inputs <;>
        simp [AxiMasterWr.remember, begun, beat]
    rw [length]
    exact held.paced.advance xpm held.agreement.addresses rfl advanced
  · simp only [AxiMasterWr.remember, observe, Tally.count]
    split
    · exact Nat.le_refl _
    · have before := held.answered
      have ordered := held.fills.ordered
      cases response : c.inputs.iBvalid with
      | false =>
        simp only [bHandshake, response, Bool.false_and, Bool.toNat_false, Nat.add_zero]
        omega
      | true =>
        have done := answering response
        simp only [bHandshake, response, oBready, Bool.and_true, Bool.toNat_true]
        omega
  · intro active
    cases begun : begins m.bench.dut.regs.sm c.inputs with
    | true => simpa [AxiMasterWr.remember, observe, Tally.count, begun] using based begun
    | false =>
      have earlier : m.bench.dut.regs.sm.sState ≠ .standby := by
        intro resting
        have disabled : c.inputs.iEnable = false := by simpa [begins, resting] using begun
        refine active ?_
        simp [AxiMasterWr.remember, observe, clock, procSm, running, resting, disabled]
      simpa [AxiMasterWr.remember, observe, Tally.count, begun] using held.whole earlier
  · have beats := held.beats
    cases begun : begins m.bench.dut.regs.sm c.inputs with
    | true =>
      have resting : m.bench.dut.regs.sm.sState = .standby := by
        simp only [begins, Bool.and_eq_true, decide_eq_true_eq] at begun
        exact begun.1
      have noBeat : wHandshake m.bench.dut.regs.sm c.inputs = false :=
        wHandshake_elsewhere (by simp [resting])
      simp [AxiMasterWr.remember, observe, begun, noBeat, beats]
    | false =>
      simp only [AxiMasterWr.remember, observe, begun, beats, Bool.false_eq_true, if_false,
        List.append_assoc]

/-- What a clock within a session leaves of it: beats and writes are added, and the ring
stays. -/
structure MemoryBench.Continues (m next : MemoryBench Fifo) : Prop where
  taken : ∃ beats, next.taken = m.taken ++ beats
  committed : m.committed ≤ next.committed
  earlier : next.earlier = m.earlier
  base : next.bench.tally.base = m.bench.tally.base
  size : next.bench.tally.size = m.bench.tally.size
  sessions : next.bench.tally.sessions = m.bench.tally.sessions
  answered : m.bench.tally.answered ≤ next.bench.tally.answered

theorem Remembers.continues (held : Remembers g m) (c : Clocked)
    (active : m.bench.dut.regs.sm.sState ≠ .standby) :
    m.Continues (AxiMasterWr.remember g xpm m c) := by
  have noBegin : begins m.bench.dut.regs.sm c.inputs = false := begins_active active
  have ordered := held.fills.ordered
  constructor <;>
    simp only [AxiMasterWr.remember, observe, Tally.count, noBegin, Bool.false_eq_true, if_false,
      Bool.toNat_false, Nat.add_zero]
  · exact ⟨_, rfl⟩
  · omega
  · omega

/-- A session begins on the ring that the ports show, with no beat and no write. -/
structure MemoryBench.Restarts (m next : MemoryBench Fifo) (i : Inputs) : Prop where
  taken : next.taken = []
  committed : next.committed = 0
  earlier : next.earlier = m.earlier ++ m.taken
  base : next.bench.tally.base = i.iBaseAddr
  size : next.bench.tally.size = i.iBufSize
  sessions : next.bench.tally.sessions = m.bench.tally.sessions + 1
  answered : next.bench.tally.answered = 0

theorem remember_restarts (begun : begins m.bench.dut.regs.sm c.inputs = true) :
    m.Restarts (remember g xpm m c) c.inputs := by
  constructor <;> simp only [remember, observe, Tally.count, begun, if_true, Bool.toNat_true]

theorem memoryStart_remembers (sWrPtr sPrevTdata : BitVec 32) (fifo : Fifo)
    (memory : Nat → BitVec 64) :
    Remembers g (memoryStart sWrPtr sPrevTdata fifo memory) where
  agreement := agreement_reset g sWrPtr sPrevTdata fifo
  paced := ⟨fun _ => rfl, fun impossible => by
    simp [memoryStart, resetBench, resetRegisters, resetSm] at impossible⟩
  fills := by
    have words : (memoryStart sWrPtr sPrevTdata fifo memory).bench.tally.words = 0 := by
      simp [memoryStart, resetBench, Tally.words]
    have first : (memoryStart sWrPtr sPrevTdata fifo memory).bench.tally.firstWord = 0 := by
      simp [memoryStart, resetBench, Tally.firstWord]
    rw [words, first]
    exact Fills.nothing 0 0 (fun p => [].getD p 0) ⟨memory, []⟩ rfl
  answered := Nat.le_refl 0
  whole active := absurd rfl active
  beats := rfl

end Clock

/-! ## Whole runs -/

/-- In every state of every run of sessions the last beats in memory are those of the
session, each at the place of its position; the offset software reads covers none that
is not in memory, and outside the ring the memory is the one the session began with. -/
theorem session_in_memory (g : Generics) (sWrPtr sPrevTdata : BitVec 32) (fifo : Fifo)
    (memory : Nat → BitVec 64) (events : List Clocked)
    (follows : Follows (WriteMemoryRule g) (remember g xpm)
      (memoryStart sWrPtr sPrevTdata fifo memory)
      events) :
    let m := run (remember g xpm) (memoryStart sWrPtr sPrevTdata fifo memory) events
    let t := m.bench.tally
    (∀ p < m.committed, m.committed ≤ p + t.words →
      m.slave.port.memory (t.firstWord + p % t.words) = m.taken.getD p 0) ∧
    (0 < t.sessions → ∃ published ≤ m.committed,
      m.bench.dut.regs.sWrPtr.toNat = 8 * published % t.size.toNat ∧
        published = g.gBurstLen * t.answered) ∧
    (m.bench.beats = m.earlier ++ m.taken ∧ m.committed ≤ m.taken.length ∧
      m.taken.length ≤ g.gBurstLen * t.addressed) ∧
    ∀ address, (address < t.firstWord ∨ t.firstWord + t.words ≤ address) →
      m.slave.port.memory address = m.before address := by
  intro m t
  have held : Remembers g m :=
    invariant (fun _ _ held rule => held.remember xpm rule)
      (memoryStart_remembers sWrPtr sPrevTdata fifo memory) events follows
  refine ⟨held.fills.held, fun begun => ⟨_, held.answered, ?_, rfl⟩,
    ⟨held.beats, held.fills.ordered, ?_⟩, held.fills.outside⟩
  · rw [held.agreement.pointer begun, g.burst_beats]
  · by_cases sending : m.bench.dut.regs.sm.sState = .wSend
    · obtain ⟨k, addressed, count, -, -⟩ := held.paced.sending sending
      have below := held.agreement.lockstep.beats sending
      rw [count, addressed, Nat.mul_succ]
      omega
    · exact Nat.le_of_eq (held.paced.resting sending)

end Bench

/-- One burst streamed in, sent, written to memory a word a clock, and acknowledged. -/
def remembered : List Clocked :=
  (ports false false false false 0 :: streamIn 32 ++ [ports false false false false 0] ++
    burstOnBus ++ [ports false false false false 0, ports false false true false 0]).map
    fun inputs => ⟨inputs, 1⟩

theorem session_in_memory_acknowledged :
    let m := run (remember .ad936xAxi (idealFifo .ad936xAxi)) (memoryStart 77 5 [] fun _ => 0)
      remembered
    (m.committed = 16 ∧ m.bench.dut.regs.sWrPtr = 128) ∧
      m.slave.port.memory (m.bench.tally.firstWord + 15 % m.bench.tally.words) =
        m.taken.getD 15 0 := by
  have stored := session_in_memory (idealFifo .ad936xAxi) .ad936xAxi 77 5 [] (fun _ => 0)
    remembered (by decide +kernel)
  exact ⟨by decide +kernel, stored.1 15 (by decide +kernel) (by decide +kernel)⟩

end Zyndra.AxiMasterWr
