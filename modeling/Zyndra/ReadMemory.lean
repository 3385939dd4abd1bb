import Zyndra.PostedWrites
import Zyndra.ReadPublish
import Zyndra.SlotRing
import Mathlib.Data.List.GetD

/-!
# The reader's beats from memory

Software lays the words of a session round the ring and publishes what it has laid;
the slave reads the words of a burst from memory at any time after it has accepted
the address, and returns them in order. As long as the reader stays behind the
writer, no word is read before it is laid or after it is replaced, and the beats of
the session are the words laid, in order, over any number of laps.
-/

namespace Zyndra.AxiMasterRd

open CyclicRing PostedWrites Runs SlotRing

/-- The address of the burst accepted last, how many of its words have been read and
how many are left to read, and those read and not returned. -/
structure Slave where
  address : BitVec 32
  read : Nat
  left : Nat
  buffer : List (BitVec 64)

/-- The ring software uses, the words it lays there and how many it has laid. The
session is pending until the engine begins it. -/
structure Session where
  base : BitVec 32
  size : BitVec 32
  stream : Nat → BitVec 64
  stored : Nat
  pending : Bool

structure MemoryBench (Fifo : Type) where
  ring : RingBench Fifo
  slave : Slave
  memory : Nat → BitVec 64
  session : Session
  /-- The beats of the session, and those before it. -/
  taken : List (BitVec 64)
  earlier : List (BitVec 64)

/-- A clock of the engine; software lays a word, or turns to a new session; the slave
reads a word. -/
inductive MemoryEvent where
  | clock (c : Clocked)
  | store
  | prepare (base size : BitVec 32) (stream : Nat → BitVec 64)
  | fetch

def Session.words (s : Session) : Nat := s.size.toNat / 8

def Session.firstWord (s : Session) : Nat := s.base.toNat / 8

section Bench

variable {Fifo : Type} (g : Generics) (xpm : XpmFifoSync (BitVec 64) Fifo)

/-- The slave's clock: it accepts an address, or gives a word it has read. -/
def Slave.clock (s : Slave) (r : Registers) (i : Inputs) : Slave where
  address := if arHandshake r i then r.sArAddr else s.address
  read := if arHandshake r i then 0 else s.read
  left := if arHandshake r i then g.gBurstLen else s.left
  buffer := if rHandshake r i then s.buffer.tail else s.buffer

/-- The next word of the burst is read. -/
def Slave.fetch (s : Slave) (memory : Nat → BitVec 64) : Slave :=
  if s.left = 0 then s
  else
    { s with
      read := s.read + 1
      left := s.left - 1
      buffer := s.buffer ++ [memory ((s.address + BitVec.ofNat 32 (8 * s.read)).toNat / 8)] }

def play (m : MemoryBench Fifo) : MemoryEvent → MemoryBench Fifo
  | .clock c =>
    let r := m.ring.bench.dut.regs
    { m with
      ring := publish g xpm m.ring c
      slave := m.slave.clock g r c.inputs
      session := if begins r c.inputs then { m.session with pending := false } else m.session
      taken :=
        if begins r c.inputs then []
        else m.taken ++ if rHandshake r c.inputs then [c.inputs.iRdata] else []
      earlier := if begins r c.inputs then m.earlier ++ m.taken else m.earlier }
  | .store =>
    { m with
      memory := Function.update m.memory
        (m.session.firstWord + m.session.stored % m.session.words)
        (m.session.stream m.session.stored)
      session := { m.session with stored := m.session.stored + 1 } }
  | .prepare base size stream =>
    { m with
      session := ⟨base, size, stream, 0, true⟩
      taken := []
      earlier := m.earlier ++ m.taken }
  | .fetch => { m with slave := m.slave.fetch m.memory }

/-- Words the reader has released. -/
def MemoryBench.released (m : MemoryBench Fifo) : Nat :=
  if m.session.pending then 0 else g.gBurstLen * m.ring.bench.tally.bursts

/-- The engine begins the session software has prepared; the slave returns what it has
read; software publishes what it has laid, lays words only in released places, and
prepares a session only between sessions. A burst chained on a last beat is published. -/
def ReadMemoryRule (m : MemoryBench Fifo) : MemoryEvent → Prop
  | .clock c =>
    TransmitRule g m.ring c ∧ PlaceRule m.ring.bench c.inputs ∧ SecondBurst g xpm m.ring c ∧
      (begins m.ring.bench.dut.regs c.inputs = true →
        m.session.pending = true ∧ c.inputs.iBaseAddr = m.session.base ∧
          c.inputs.iBufSize = m.session.size ∧ 8 ∣ m.session.base.toNat) ∧
      (c.inputs.iRvalid = true → m.slave.buffer.head? = some c.inputs.iRdata) ∧
      m.ring.publishedNow c ≤ 8 * m.session.stored
  | .store => m.session.stored < m.released g + m.session.words
  | .prepare _ _ _ => m.ring.bench.dut.regs.sState = .standby
  | .fetch => True

instance (m : MemoryBench Fifo) : (e : MemoryEvent) → Decidable (ReadMemoryRule g xpm m e)
  | .clock _ => inferInstanceAs (Decidable (_ ∧ _ ∧ _ ∧ _ ∧ _ ∧ _))
  | .store => inferInstanceAs (Decidable (_ < _))
  | .prepare _ _ _ => inferInstanceAs (Decidable (_ = _))
  | .fetch => isTrue trivial

/-- Out of reset, with nothing prepared. -/
def memoryStart (fifo : Fifo) (memory : Nat → BitVec 64) : MemoryBench Fifo where
  ring := resetRing fifo
  slave := ⟨0, 0, 0, []⟩
  memory := memory
  session := ⟨0, 0, fun _ => 0, 0, false⟩
  taken := []
  earlier := []

/-- In a session the engine works on software's ring and what is published has been
laid. -/
structure Running (t : Tally) (published : Nat) (s : Session) : Prop where
  begun : s.pending = false
  base : t.base = s.base
  size : t.size = s.size
  whole : 8 ∣ s.base.toNat
  laid : published ≤ 8 * s.stored

/-- The slave's account of the burst: what it has read and not returned is the next
stretch of the words laid. -/
structure Reads (r : Registers) (t : Tally) (stream : Nat → BitVec 64) (s : Slave) : Prop where
  idle : r.sState ≠ .rRecv → s.left = 0 ∧ s.buffer = []
  burst : r.sState = .rRecv → s.read + s.left = g.gBurstLen ∧ s.left + s.buffer.length = t.owed ∧
    s.address.toNat = t.base.toNat + g.burst * t.bursts % t.size.toNat ∧
      s.buffer = (List.range s.buffer.length).map fun k => stream (t.fetched + k)

/-- What holds of the reader and its memory at any time. -/
structure Plays (m : MemoryBench Fifo) : Prop where
  supplied : Supplied g m.ring
  addresses : Addresses g m.ring.bench.dut.regs m.ring.bench.tally
  running : m.ring.bench.dut.regs.sState ≠ .standby →
    Running m.ring.bench.tally m.ring.published m.session
  kept : Keeps m.session.words m.session.stream (fun o => m.memory (m.session.firstWord + o))
    (m.released g) m.session.stored
  reads : Reads g m.ring.bench.dut.regs m.ring.bench.tally m.session.stream m.slave
  beats : m.taken = (List.range m.taken.length).map m.session.stream
  counted : m.session.pending = false → m.taken.length = m.ring.bench.tally.fetched
  fresh : m.session.pending = true → m.taken = []
  all : m.ring.bench.beats = m.earlier ++ m.taken

variable {g}

/-- In a session what is available lies between what is released and what is published. -/
theorem Supplied.available {Fifo : Type} {s : RingBench Fifo} {e : Clocked} (held : Supplied g s)
    (rule : TransmitRule g s e) (active : s.bench.dut.regs.sState ≠ .standby) :
    g.burst * s.bench.tally.bursts + (sDataAvail s.bench.dut.regs e.inputs).toNat ≤
      s.publishedNow e := by
  have noBegin : begins s.bench.dut.regs e.inputs = false := begins_active active
  have shown : e.inputs.iWrPtr.toNat = s.publishedNow e % s.bench.tally.size.toNat := by
    have software := rule.2.2
    rw [SoftwareRule, noBegin] at software
    exact (software active).1
  have grown : g.burst * s.bench.tally.bursts ≤ s.publishedNow e :=
    held.behind.trans (publishedNow_grows noBegin)
  have distance : (sDataAvail s.bench.dut.regs e.inputs).toNat =
      (s.publishedNow e - g.burst * s.bench.tally.bursts) % s.bench.tally.size.toNat := by
    rw [sDataAvail, held.tracks.latched]
    exact cyclicDistance_positions (held.tracks.whole active).1 grown held.tracks.offset shown
  have reduced := Nat.mod_le (s.publishedNow e - g.burst * s.bench.tally.bursts)
    s.bench.tally.size.toNat
  omega

/-! ## Software and the slave -/

section Memory

variable {m : MemoryBench Fifo}

/-- A word laid in a released place replaces none that is still to be read. -/
theorem Plays.store (held : Plays g m) (rule : ReadMemoryRule g xpm m .store) :
    Plays g (play g xpm m .store) := by
  refine ⟨held.supplied, held.addresses, fun active => ?_, ?_, held.reads, held.beats,
    held.counted, held.fresh, held.all⟩
  · have running := held.running active
    exact ⟨running.begun, running.base, running.size, running.whole,
      Nat.le_trans running.laid (Nat.mul_le_mul_left _ (Nat.le_succ _))⟩
  · have moved : (fun o => Function.update m.memory
        (m.session.firstWord + m.session.stored % m.session.words)
        (m.session.stream m.session.stored) (m.session.firstWord + o)) =
        Function.update (fun o => m.memory (m.session.firstWord + o))
          (m.session.stored % m.session.words) (m.session.stream m.session.stored) := by
      funext o
      by_cases same : o = m.session.stored % m.session.words
      · rw [same, Function.update_self, Function.update_self]
      · rw [Function.update_of_ne same, Function.update_of_ne (by omega)]
    have kept := held.kept.store_one rule
    rw [← moved] at kept
    exact kept

/-- A new session has nothing laid yet. -/
theorem Plays.prepare (held : Plays g m) {base size : BitVec 32} {stream : Nat → BitVec 64}
    (rule : ReadMemoryRule g xpm m (.prepare base size stream)) :
    Plays g (play g xpm m (.prepare base size stream)) := by
  have resting : m.ring.bench.dut.regs.sState = .standby := rule
  refine ⟨held.supplied, held.addresses, fun active => absurd resting active, Keeps.none _ _ _ _,
    ⟨held.reads.idle, fun receiving => ?_⟩, rfl, fun begun => ?_, fun _ => rfl, ?_⟩
  · exact absurd (resting.symm.trans receiving) (by decide)
  · cases begun
  · exact held.all.trans (List.append_nil _).symm

/-- The word the slave reads next lies behind those in its buffer. It has been published,
and the reader has not released it. -/
theorem Plays.next_word (held : Plays g m) (some : m.slave.left ≠ 0) :
    m.ring.bench.dut.regs.sState = .rRecv ∧
      (m.slave.address + BitVec.ofNat 32 (8 * m.slave.read)).toNat / 8 =
        m.session.firstWord +
          (m.ring.bench.tally.fetched + m.slave.buffer.length) % m.session.words ∧
      m.released g ≤ m.ring.bench.tally.fetched + m.slave.buffer.length ∧
      8 * (m.ring.bench.tally.fetched + m.slave.buffer.length + 1) ≤ m.ring.published := by
  by_cases receiving : m.ring.bench.dut.regs.sState = .rRecv
  swap
  · exact absurd (held.reads.idle receiving).1 some
  obtain ⟨whole, owed, address, buffer⟩ := held.reads.burst receiving
  have active : m.ring.bench.dut.regs.sState ≠ .standby := by simp [receiving]
  obtain ⟨begun, base, size, aligned, laid⟩ := held.running active
  obtain ⟨positive, multiple⟩ := held.supplied.tracks.whole active
  have fits := held.supplied.tracks.fits active
  have place := held.addresses.place active
  have offset := held.supplied.tracks.offset
  have counted := held.supplied.lockstep.fetched
  have committed := held.supplied.committed (Or.inr receiving)
  have burst : g.burst = 8 * g.gBurstLen := Nat.mul_comm _ _
  simp only [receiving, decide_true, Bool.toNat_true] at counted
  -- the burst being received, counted in words
  have next : g.gBurstLen * m.ring.bench.tally.bursts + m.slave.read =
      m.ring.bench.tally.fetched + m.slave.buffer.length := by
    rw [Nat.mul_succ] at counted
    omega
  have sum : (m.slave.address + BitVec.ofNat 32 (8 * m.slave.read)).toNat =
      m.ring.bench.tally.base.toNat +
        g.burst * m.ring.bench.tally.bursts % m.ring.bench.tally.size.toNat +
          8 * m.slave.read := by
    rw [BitVec.toNat_add, BitVec.toNat_ofNat, address, Nat.add_mod_mod, Nat.mod_eq_of_lt (by omega)]
  refine ⟨receiving, ?_, ?_, ?_⟩
  · rw [burst, size] at multiple
    rw [size] at positive
    rw [sum, burst, base, size, element_place (by decide) multiple positive aligned (by omega),
      next]
    rfl
  · rw [MemoryBench.released, begun, ← next]
    exact Nat.le_add_right _ _
  · rw [g.burst_beats, Nat.mul_succ] at committed
    omega

/-- What is released has been received. -/
theorem Plays.released_taken (held : Plays g m) : m.released g ≤ m.taken.length := by
  unfold MemoryBench.released
  split
  · exact Nat.zero_le _
  · rename_i begun
    have whole := held.supplied.lockstep.released
    rw [g.burst_beats] at whole
    rw [held.counted (Bool.not_eq_true _ ▸ begun)]
    omega

/-- The words of the burst are laid and still in place when the slave reads them. -/
theorem Plays.fetch (held : Plays g m) : Plays g (play g xpm m .fetch) := by
  refine ⟨held.supplied, held.addresses, held.running, held.kept, ?_, held.beats, held.counted,
    held.fresh, held.all⟩
  change Reads g m.ring.bench.dut.regs m.ring.bench.tally m.session.stream (m.slave.fetch m.memory)
  unfold Slave.fetch
  split
  · exact held.reads
  rename_i some
  obtain ⟨receiving, word, released, published⟩ := held.next_word some
  obtain ⟨whole, owed, address, buffer⟩ := held.reads.burst receiving
  have laid := (held.running (by simp [receiving])).laid
  have value : m.memory (m.session.firstWord +
      (m.ring.bench.tally.fetched + m.slave.buffer.length) % m.session.words) =
      m.session.stream (m.ring.bench.tally.fetched + m.slave.buffer.length) :=
    held.kept _ released (by omega)
  have longer : ∀ last : BitVec 64, (m.slave.buffer ++ [last]).length =
      m.slave.buffer.length + 1 := fun _ => List.length_append
  refine ⟨fun other => absurd receiving other, fun _ => ⟨?_, ?_, address, ?_⟩⟩
  · dsimp only
    omega
  · dsimp only
    rw [longer]
    omega
  · dsimp only
    rw [longer, List.range_succ, List.map_append, List.map_singleton, ← buffer, word, value]

end Memory

/-! ## A clock of the engine -/

section Clock

variable {m : MemoryBench Fifo} {c : Clocked}

/-- An address accepted takes the engine to R_RECV. -/
theorem addressed_receives {b : Bench Fifo} {i : Inputs} (running : i.iAresetn = true)
    (accepted : arHandshake b.dut.regs i = true) :
    (observe g xpm b i).dut.regs.sState = .rRecv := by
  simp only [arHandshake, oArvalid, Bool.and_eq_true, decide_eq_true_eq] at accepted
  simp [observe, clock, procSm, running, accepted.1, accepted.2]

/-- On the other clocks the slave rests. -/
theorem Slave.clock_rests (s : Slave) {r : Registers} {i : Inputs}
    (noAddress : arHandshake r i = false) (noData : rHandshake r i = false) : s.clock g r i = s := by
  simp only [Slave.clock, noAddress, noData, Bool.false_eq_true, if_false]

/-- The slave accepts an address in AR_SEND, gives its oldest word in R_RECV, and
otherwise rests. -/
theorem Reads.clock (reads : Reads g m.ring.bench.dut.regs m.ring.bench.tally m.session.stream
      m.slave) (held : Plays g m) (rule : ReadMemoryRule g xpm m (.clock c)) :
    Reads g (observe g xpm m.ring.bench c.inputs).dut.regs
      (observe g xpm m.ring.bench c.inputs).tally m.session.stream
      (m.slave.clock g m.ring.bench.dut.regs c.inputs) := by
  have advanced := observe_advances g xpm m.ring.bench c.inputs rule.1.1
  have receives := addressed_receives (g := g) xpm (b := m.ring.bench) rule.1.1.1
  have answered := rule.2.2.2.2.1
  generalize (observe g xpm m.ring.bench c.inputs).dut.regs = after at advanced receives ⊢
  generalize (observe g xpm m.ring.bench c.inputs).tally = counted at advanced ⊢
  cases advanced with
  | quiet hi noBegin noData =>
    have noAddress : arHandshake m.ring.bench.dut.regs c.inputs = false := by
      by_contra accepted
      have accepted : arHandshake m.ring.bench.dut.regs c.inputs = true := by simpa using accepted
      have receiving : m.ring.bench.dut.regs.sState = .rRecv := receives accepted
      rw [arHandshake_elsewhere (by simp [receiving])] at accepted
      cases accepted
    rw [m.slave.clock_rests noAddress noData]
    exact ⟨reads.idle, reads.burst⟩
  | starts hi state enabled =>
    rw [m.slave.clock_rests (arHandshake_elsewhere (by simp [state]))
      (rHandshake_elsewhere (by simp [state]))]
    exact ⟨fun _ => reads.idle (by simp [state]), by simp⟩
  | stops hi state disabled =>
    rw [m.slave.clock_rests (arHandshake_elsewhere (by simp [state]))
      (rHandshake_elsewhere (by simp [state]))]
    exact ⟨fun _ => reads.idle (by simp [state]), by simp⟩
  | commits hi state room available =>
    rw [m.slave.clock_rests (arHandshake_elsewhere (by simp [state]))
      (rHandshake_elsewhere (by simp [state]))]
    exact ⟨fun _ => reads.idle (by simp [state]), by simp⟩
  | addressed hi state accepted =>
    have address : arHandshake m.ring.bench.dut.regs c.inputs = true := by
      simp [arHandshake, oArvalid, state, accepted]
    have noData := rHandshake_elsewhere (i := c.inputs) (r := m.ring.bench.dut.regs) (by simp [state])
    obtain ⟨-, empty⟩ := reads.idle (by simp [state])
    have none : m.ring.bench.tally.owed = 0 := held.supplied.lockstep.settled (by simp [state])
    simp only [Slave.clock, address, noData, Bool.false_eq_true, if_false, if_true]
    refine ⟨by simp, fun _ => ⟨Nat.zero_add _, ?_, ?_, ?_⟩⟩
    · simp [empty, none]
    · rw [held.addresses.presenting (Or.inr state), held.supplied.tracks.offset]
    · rw [empty]
      rfl
  | receives hi state valid more =>
    have noAddress := arHandshake_elsewhere (i := c.inputs) (r := m.ring.bench.dut.regs)
      (by simp [state])
    have data : rHandshake m.ring.bench.dut.regs c.inputs = true := by
      simp [rHandshake, oRready, state, valid]
    obtain ⟨whole, owed, address, buffer⟩ := reads.burst state
    obtain ⟨word, others, held⟩ := List.exists_cons_of_ne_nil (l := m.slave.buffer) (by
      intro empty
      have head := answered valid
      rw [empty] at head
      cases head)
    simp only [Slave.clock, noAddress, data, Bool.false_eq_true, if_false, if_true]
    refine ⟨fun other => absurd state other, fun _ => ⟨whole, ?_, address, ?_⟩⟩
    · rw [held, List.length_cons] at owed
      rw [held, List.tail_cons]
      dsimp only
      omega
    · rw [held] at buffer ⊢
      rw [List.length_cons, List.range_succ_eq_map, List.map_cons, List.map_map] at buffer
      have rest := (List.cons.inj buffer).2
      rw [List.tail_cons]
      refine rest.trans (List.map_congr_left fun k _ => ?_)
      simp only [Function.comp_apply, Nat.succ_eq_add_one, Nat.add_assoc, Nat.add_comm 1]
  | finishes hi next state valid last final continued =>
    have noAddress := arHandshake_elsewhere (i := c.inputs) (r := m.ring.bench.dut.regs)
      (by simp [state])
    have data : rHandshake m.ring.bench.dut.regs c.inputs = true := by
      simp [rHandshake, oRready, state, valid]
    obtain ⟨left, -⟩ := chained_elsewhere continued
    obtain ⟨whole, owed, -, -⟩ := reads.burst state
    obtain ⟨word, others, held⟩ := List.exists_cons_of_ne_nil (l := m.slave.buffer) (by
      intro empty
      have head := answered valid
      rw [empty] at head
      cases head)
    rw [held, List.length_cons] at owed
    have none : others = [] := List.length_eq_zero_iff.mp (by omega)
    have noneLeft : m.slave.left = 0 := by omega
    simp only [Slave.clock, noAddress, data, Bool.false_eq_true, if_false, if_true]
    refine ⟨fun _ => ⟨noneLeft, ?_⟩, fun receiving => absurd receiving left⟩
    rw [held, none, List.tail_cons]

/-- The beat received is the next word laid. -/
theorem Plays.beat (held : Plays g m) (rule : ReadMemoryRule g xpm m (.clock c))
    (data : rHandshake m.ring.bench.dut.regs c.inputs = true) :
    c.inputs.iRdata = m.session.stream m.taken.length := by
  have receiving : m.ring.bench.dut.regs.sState = .rRecv := write_receives data
  have valid : c.inputs.iRvalid = true := (Bool.and_eq_true_iff.mp data).1
  have head := rule.2.2.2.2.1 valid
  obtain ⟨-, -, -, buffer⟩ := held.reads.burst receiving
  have begun := (held.running (by simp [receiving])).begun
  rw [held.counted begun]
  cases words : m.slave.buffer with
  | nil =>
    rw [words] at head
    cases head
  | cons word others =>
    rw [words, List.length_cons, List.range_succ_eq_map, List.map_cons] at buffer
    rw [words] at head
    have same : word = c.inputs.iRdata := Option.some.inj head
    rw [← same]
    exact (List.cons.inj buffer).1

/-- A clock that begins a session starts the count of its words; any other takes in at
most the next one. -/
theorem Plays.clock (held : Plays g m) (rule : ReadMemoryRule g xpm m (.clock c)) :
    Plays g (play g xpm m (.clock c)) := by
  have reads := held.reads.clock xpm held rule
  have beat := held.beat xpm rule
  obtain ⟨transmit, placed, second, prepared, -, laid⟩ := rule
  have advanced := observe_advances g xpm m.ring.bench c.inputs transmit.1
  have supplied := held.supplied.publish xpm transmit second
  have addresses := held.addresses.advance held.supplied.tracks advanced placed
  cases begun : begins m.ring.bench.dut.regs c.inputs with
  | true =>
    obtain ⟨pending, base, size, whole⟩ := prepared begun
    have resting : m.ring.bench.dut.regs.sState = .standby := by
      simp only [begins, Bool.and_eq_true, decide_eq_true_eq] at begun
      exact begun.1
    have noData : rHandshake m.ring.bench.dut.regs c.inputs = false :=
      rHandshake_elsewhere (by simp [resting])
    have none := held.fresh pending
    have kept := held.kept
    have tally : (observe g xpm m.ring.bench c.inputs).tally =
        ⟨m.ring.bench.tally.owed + (if arHandshake m.ring.bench.dut.regs c.inputs then
            g.gBurstLen else 0) - 0, 0, 0, c.inputs.iBaseAddr, c.inputs.iBufSize⟩ := by
      simp [observe, Tally.count, begun, noData]
    simp only [MemoryBench.released, pending, if_true] at kept
    refine ⟨supplied, addresses, fun _ => ?_, ?_, ?_, ?_, ?_, ?_, ?_⟩
    · simp only [play, publish, begun, if_true, tally]
      exact ⟨rfl, base, size, whole, laid⟩
    · simp only [play, publish, begun, if_true, MemoryBench.released, tally,
        Bool.false_eq_true, if_false, Nat.mul_zero]
      exact kept
    · simp only [play, publish, begun, if_true]
      exact reads
    · simp only [play, begun, if_true]
      rfl
    · intro _
      simp only [play, publish, begun, if_true, tally, List.length_nil]
    · intro impossible
      simp [play, begun] at impossible
    · simp [play, publish, observe, begun, noData, held.all]
  | false =>
    have grown :
        m.ring.bench.tally.bursts ≤ (observe g xpm m.ring.bench c.inputs).tally.bursts := by
      simp [observe, Tally.count, begun]
    have fetched : (observe g xpm m.ring.bench c.inputs).tally.fetched =
        m.ring.bench.tally.fetched + (rHandshake m.ring.bench.dut.regs c.inputs).toNat := by
      simp [observe, Tally.count, begun]
    refine ⟨supplied, addresses, fun active => ?_, ?_, ?_, ?_, fun started => ?_, fun waiting => ?_,
      ?_⟩
    · have earlier : m.ring.bench.dut.regs.sState ≠ .standby := by
        intro resting
        have disabled : c.inputs.iEnable = false := by simpa [begins, resting] using begun
        refine active ?_
        simp [play, publish, observe, AxiMasterRd.clock, procSm, transmit.1.1, resting, disabled]
      have running := held.running earlier
      simp only [play, publish, begun, Bool.false_eq_true, if_false]
      refine ⟨running.begun, ?_, ?_, running.whole, laid⟩
      · simpa [observe, Tally.count, begun] using running.base
      · simpa [observe, Tally.count, begun] using running.size
    · simp only [play, publish, begun, Bool.false_eq_true, if_false]
      refine held.kept.release ?_
      simp only [MemoryBench.released]
      split
      · exact Nat.le_refl _
      · exact Nat.mul_le_mul_left _ grown
    · simp only [play, publish, begun, Bool.false_eq_true, if_false]
      exact reads
    · simp only [play, begun, Bool.false_eq_true, if_false]
      cases data : rHandshake m.ring.bench.dut.regs c.inputs with
      | false => simpa using held.beats
      | true =>
        have longer : (m.taken ++ [c.inputs.iRdata]).length = m.taken.length + 1 :=
          List.length_append
        simp only [if_true]
        rw [longer, List.range_succ, List.map_append, List.map_singleton, ← held.beats, ← beat data]
    · simp only [play, publish, begun, Bool.false_eq_true, if_false] at started ⊢
      rw [fetched, List.length_append, held.counted started]
      cases data : rHandshake m.ring.bench.dut.regs c.inputs <;> simp
    · simp only [play, begun, Bool.false_eq_true, if_false] at waiting ⊢
      have resting : m.ring.bench.dut.regs.sState = .standby := by
        by_contra active
        have started := (held.running active).begun
        rw [waiting] at started
        cases started
      have noData : rHandshake m.ring.bench.dut.regs c.inputs = false :=
        rHandshake_elsewhere (by simp [resting])
      simp [noData, held.fresh waiting]
    · simp only [play, publish, observe, begun, Bool.false_eq_true, if_false, held.all,
        List.append_assoc]

theorem Plays.play (held : Plays g m) {e : MemoryEvent} (rule : ReadMemoryRule g xpm m e) :
    Plays g (play g xpm m e) := by
  cases e with
  | clock c => exact held.clock xpm rule
  | store => exact held.store xpm rule
  | prepare base size stream => exact held.prepare xpm rule
  | fetch => exact held.fetch xpm

theorem memoryStart_plays (fifo : Fifo) (memory : Nat → BitVec 64) :
    Plays g (memoryStart fifo memory) where
  supplied := supplied_reset g fifo
  addresses := (agreement_reset g fifo).addresses
  running active := absurd rfl active
  kept := Keeps.none _ _ _ _
  reads := ⟨fun _ => ⟨rfl, rfl⟩, fun receiving => by
    simp [memoryStart, resetRing, resetBench, resetRegisters] at receiving⟩
  beats := rfl
  counted _ := rfl
  fresh _ := rfl
  all := rfl

end Clock

/-! ## Whole runs -/

end Bench

/-- Two bursts are laid and published in a ring of four; the slave reads each word of the
first one just before it returns it. -/
def playedBurst : List MemoryEvent :=
  let wide (i : Inputs) : Inputs := { i with iBufSize := 512, iWrPtr := 256 }
  [.prepare 0x18000000 512 (BitVec.ofNat 64)] ++ List.replicate 32 .store ++
    [.clock ⟨wide (ports false false false true 0), 256⟩,
      .clock ⟨wide (ports false false false true 0), 0⟩,
      .clock ⟨wide (ports true false false true 0), 0⟩] ++
    (List.range 16).flatMap fun k =>
      [.fetch, .clock ⟨wide (ports false true (k == 15) true (BitVec.ofNat 64 k)), 0⟩]

end Zyndra.AxiMasterRd
