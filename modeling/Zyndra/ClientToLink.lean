import Zyndra.TxChain

/-!
# From the client's socket to the link

The chain of the transmit session and the transmit path runs as the path alone does
whose software lays words round the ring: the driver's call that shows a block is the
laying of its words, and every other step is the path's own or none. So the chain needs
no rule for its software, and what the path carries to the link is what the client has
sent.
-/

namespace Zyndra.TxChain

open Runs CyclicRing Ad936xAxi AxiLite Ad9361Txrx

/-- The words of the stream to the link. -/
def outwardWords (blockSize : BitVec 32) (client : Nat → BitVec 8) (word : Nat) : BitVec 64 :=
  wordOf fun k => outward blockSize client (8 * word + k)

/-- The ring holds whole bursts, starts at a whole word and ends below the top of the
address space. -/
structure Placement (base size : BitVec 32) : Prop where
  bursts : Generics.ad936xAxi.burst ∣ size.toNat
  aligned : 8 ∣ base.toNat
  below : base.toNat + size.toNat < 2 ^ 32

/-- The path beside the chain: its engine, slave and sample side are the chain's, and its
software has laid the words of what the driver has published. `arrived` is the position
whose offset the slave shows. -/
structure Mirrors (blockSize mapSize : BitVec 32) (client : Nat → BitVec 8) (c : Chain)
    (p : Player) (arrived : Nat) : Prop where
  streams : Streams blockSize mapSize c.session
  quiet : Quiet c.session
  heard : c.session.received = (List.range c.session.received.length).map client
  wired : Wired c.session c.regs c.posted arrived
  placed : Placement c.session.bench.dev.priv.txbufPhys mapSize
  transmits : Transmits .ad936xAxi p
  engine : p.memory.ring.bench.dut = c.engine
  slave : p.memory.slave = c.slave
  crossing : p.crossing = c.crossing
  path : p.path = c.path
  earlier : p.memory.earlier = []
  base : p.memory.session.base = c.session.bench.dev.priv.txbufPhys
  size : p.memory.session.size = mapSize
  stream : p.memory.session.stream = outwardWords blockSize client
  laid : p.memory.session.stored = (c.session.bench.published + 7) / 8
  read : c.session.played.length = 8 * (p.memory.taken.length + c.slave.buffer.length)
  seen : c.session.bench.consumed ≤ 8 * p.memory.released .ad936xAxi
  shown : p.memory.ring.published ≤ arrived
  resting : p.memory.session.pending = true → p.memory.ring.bench.tally.bursts = 0
  begun : p.memory.session.pending = false →
    c.engine.regs.sState ≠ .standby ∧ c.regs.sTxEn = true

section Matching

variable {blockSize mapSize : BitVec 32} {client : Nat → BitVec 8} {c : Chain} {p : Player}
  {arrived : Nat}

/-- Laying a word sends none. -/
theorem step_store (p : Player) :
    p.step .ad936xAxi (.engine .store) =
      { p with memory :=
        AxiMasterRd.play .ad936xAxi (AxiMasterRd.idealFifo .ad936xAxi) p.memory .store } := by
  simp only [Player.step, sentOn, List.append_nil]

/-- Laying words in released places. -/
theorem lay_words (p : Player) (count : Nat)
    (room : p.memory.session.stored + count ≤
      p.memory.released .ad936xAxi + p.memory.session.words) :
    let events := List.replicate count (PlayerEvent.engine .store)
    Follows (PlayerRule .ad936xAxi) (Player.step .ad936xAxi) p events ∧
      ∃ memory, run (Player.step .ad936xAxi) p events =
        { p with memory :=
          { p.memory with
            memory := memory
            session := { p.memory.session with stored := p.memory.session.stored + count } } } := by
  induction count generalizing p with
  | zero => exact ⟨trivial, p.memory.memory, rfl⟩
  | succ count inductionHypothesis =>
    have before : p.memory.session.stored <
        p.memory.released .ad936xAxi + p.memory.session.words := by
      omega
    obtain ⟨follows, memory, reached⟩ :=
      inductionHypothesis (p.step .ad936xAxi (.engine .store)) (by
        change p.memory.session.stored + 1 + count ≤ _
        rw [Nat.add_assoc, Nat.add_comm 1]
        exact room)
    refine ⟨⟨before, follows⟩, memory, ?_⟩
    rw [List.replicate_succ, run, List.foldl_cons]
    refine reached.trans ?_
    rw [step_store]
    simp only [AxiMasterRd.play]
    congr 3
    omega

/-- What is published lies less than a ring ahead of what the driver has seen read. -/
theorem Mirrors.ahead (held : Mirrors blockSize mapSize client c p arrived) :
    c.session.bench.published ≤ c.session.bench.consumed + mapSize.toNat := by
  have room := held.streams.flow.room
  have size : c.session.bench.size = mapSize.toNat := congrArg BitVec.toNat held.streams.mapped
  omega

/-- A step of software is matched by the laying of the words it publishes. -/
theorem Mirrors.software (held : Mirrors blockSize mapSize client c p arrived)
    {e : TxSessionEvent} (rule : TxSessionRule blockSize c.session e) (software : OfSoftware e)
    (from_ : FromClient client c.session e) :
    ∃ events, Follows (PlayerRule .ad936xAxi) (Player.step .ad936xAxi) p events ∧
      Mirrors blockSize mapSize client (c.step blockSize mapSize (.software e))
        (run (Player.step .ad936xAxi) p events) arrived := by
  have streams := held.streams.step e rule
  have moves := software_moves held.streams held.quiet e software
  have heard : (txSession blockSize mapSize c.session e).received =
      (List.range (txSession blockSize mapSize c.session e).received.length).map client :=
    heard_step held.heard e from_
  have wired := held.wired.software held.streams streams moves
  generalize same : txSession blockSize mapSize c.session e = next at streams moves heard wired
  have grown : c.session.bench.published ≤ next.bench.published := by
    cases moves.writes with
    | none regs published => omega
    | shows wr regs published => omega
    | enables ctrl enabling before regs published => omega
  have ahead : next.bench.published + blockSize.toNat ≤ next.bench.consumed + mapSize.toNat := by
    have room := streams.flow.room
    have size : next.bench.size = mapSize.toNat := congrArg BitVec.toNat streams.mapped
    omega
  obtain ⟨follows, memory, reached⟩ := lay_words p
    ((next.bench.published + 7) / 8 - (c.session.bench.published + 7) / 8) (by
      have seen := held.seen
      have words : p.memory.session.words = mapSize.toNat / 8 := by
        rw [AxiMasterRd.Session.words, held.size]
      have whole : 8 ∣ mapSize.toNat := Nat.dvd_trans (by decide) held.placed.bursts
      have block := streams.flow.block
      rw [held.laid, words, ← moves.consumed] at *
      omega)
  have transmits : Transmits .ad936xAxi (run (Player.step .ad936xAxi) p _) :=
    invariant (fun _ _ held rule => held.step rule) held.transmits _ follows
  refine ⟨_, follows, ?_⟩
  rw [reached] at transmits ⊢
  have step : c.step blockSize mapSize (.software e) =
      { c with
        session := next
        posted := c.posted ++ written c.session.bench.dev.regs next.bench.dev.regs } := by
    simp only [Chain.step, same]
  rw [step]
  refine { held with
    streams := streams, quiet := moves.quiet, heard := heard, wired := wired, transmits := transmits
    placed := ?_, base := ?_, laid := ?_, read := ?_, seen := ?_ }
  · dsimp only
    rw [moves.phys]
    exact held.placed
  · dsimp only
    rw [moves.phys]
    exact held.base
  · dsimp only
    have laid := held.laid
    omega
  · dsimp only
    rw [moves.played]
    exact held.read
  · dsimp only
    rw [moves.consumed]
    exact held.seen

/-- Bytes shown are read one after another. -/
theorem fetch_bytes {s : TxSession} (kept : Streams blockSize mapSize s) (on : s.transmits = true)
    {count : Nat} (shown : s.played.length + count ≤ s.bench.published) :
    ∃ played, fetchByte^[count] s = { s with played := played } ∧
      played.length = s.played.length + count ∧
        Streams blockSize mapSize { s with played := played } := by
  induction count with
  | zero => exact ⟨s.played, rfl, rfl, kept⟩
  | succ count inductionHypothesis =>
    obtain ⟨played, same, length, held⟩ := inductionHypothesis (by omega)
    have next := held.fetch on (by
      change played.length < s.bench.published
      omega)
    refine ⟨_, ?_, ?_, next⟩
    · rw [Function.iterate_succ_apply', same]
      rfl
    · rw [List.length_append, length]
      rfl

theorem wordOf_congr {bytes others : Nat → BitVec 8} (same : ∀ k < 8, bytes k = others k) :
    wordOf bytes = wordOf others := by
  simp only [wordOf, same 0 (by decide), same 1 (by decide), same 2 (by decide),
    same 3 (by decide), same 4 (by decide), same 5 (by decide), same 6 (by decide),
    same 7 (by decide)]

/-- The word of the ring at a position that is shown is that of the stream. -/
theorem Mirrors.shown_word (held : Mirrors blockSize mapSize client c p arrived) {word : Nat}
    (unread : c.session.played.length ≤ 8 * word)
    (shown : 8 * (word + 1) ≤ c.session.bench.published) :
    portMemory c.session.bench.dev.priv.txbufPhys c.session.ring.memory
        (c.session.bench.dev.priv.txbufPhys.toNat / 8 + word % (mapSize.toNat / 8)) =
      outwardWords blockSize client word := by
  have whole : 8 ∣ mapSize.toNat := Nat.dvd_trans (by decide) held.placed.bursts
  obtain ⟨words, multiple⟩ := whole
  obtain ⟨first, aligned⟩ := held.placed.aligned
  have size : c.session.bench.size = mapSize.toNat := congrArg BitVec.toNat held.streams.mapped
  have come := held.streams.within
  have backed := held.streams.carried.backed
  apply wordOf_congr
  intro k below
  have kept := held.streams.carried.memory (8 * word + k) (by omega) (by omega)
  have place : (8 * word + k) % mapSize.toNat = 8 * (word % words) + k := by
    rw [multiple, Nat.mod_mul, Nat.mul_add_mod, Nat.mod_eq_of_lt below, Nat.mul_add_div (by decide),
      Nat.div_eq_of_lt below, Nat.add_zero, Nat.add_comm]
  rw [size, place, byteAt_outward held.heard (by omega)] at kept
  rw [← kept, multiple, aligned, Nat.mul_div_cancel_left _ (by decide),
    Nat.mul_div_cancel_left _ (by decide)]
  congr 1
  omega

/-- Only the word read matters to the slave. -/
theorem fetch_congr (s : AxiMasterRd.Slave) {memory other : Nat → BitVec 64}
    (same : memory ((s.address + BitVec.ofNat 32 (8 * s.read)).toNat / 8) =
      other ((s.address + BitVec.ofNat 32 (8 * s.read)).toNat / 8)) :
    s.fetch memory = s.fetch other := by
  simp only [AxiMasterRd.Slave.fetch, same]

/-- The slave reads the same word from the ring as from the words laid. -/
theorem Mirrors.same_word (held : Mirrors blockSize mapSize client c p arrived)
    (some : p.memory.slave.left ≠ 0) :
    p.memory.slave.fetch p.memory.memory =
      c.slave.fetch (portMemory c.session.bench.dev.priv.txbufPhys c.session.ring.memory) := by
  obtain ⟨receiving, place, released, published⟩ := held.transmits.plays.next_word some
  have active : p.memory.ring.bench.dut.regs.sState ≠ .standby := by simp [receiving]
  have running := held.transmits.plays.running active
  have counted := held.transmits.plays.counted running.begun
  have read := held.read
  have shown := held.shown
  have inFlight := held.wired.inFlight.le
  have laid := running.laid
  rw [← held.slave, counted] at read
  rw [← held.slave]
  apply fetch_congr
  rw [place, AxiMasterRd.Session.words, AxiMasterRd.Session.firstWord, held.size, held.base,
    held.shown_word (by omega) (by omega), ← held.stream]
  have kept := held.transmits.plays.kept _ released (by omega)
  rwa [AxiMasterRd.Session.words, AxiMasterRd.Session.firstWord, held.size, held.base] at kept

/-- The slave's read is matched by the same read. -/
theorem Mirrors.fetch (held : Mirrors blockSize mapSize client c p arrived) :
    ∃ events, Follows (PlayerRule .ad936xAxi) (Player.step .ad936xAxi) p events ∧
      Mirrors blockSize mapSize client (c.step blockSize mapSize .fetch)
        (run (Player.step .ad936xAxi) p events) arrived := by
  by_cases none : c.slave.left = 0
  · refine ⟨[], trivial, ?_⟩
    simp only [Chain.step, none, if_true]
    exact held
  have some : p.memory.slave.left ≠ 0 := by rwa [held.slave]
  obtain ⟨receiving, -, -, published⟩ := held.transmits.plays.next_word some
  have begun := (held.transmits.plays.running (by simp [receiving])).begun
  have counted := held.transmits.plays.counted begun
  have inFlight := held.wired.inFlight.le
  have shown := held.shown
  have read := held.read
  have on : c.session.transmits = true := held.wired.enabled (held.begun begun).2
  rw [← counted, held.slave] at published
  obtain ⟨played, same, length, streams⟩ : ∃ played, fetchByte^[8] c.session =
      { c.session with played := played } ∧ played.length = c.session.played.length + 8 ∧
        Streams blockSize mapSize { c.session with played := played } :=
    fetch_bytes held.streams on (by omega)
  have step : c.step blockSize mapSize .fetch =
      { c with
        slave := p.memory.slave.fetch p.memory.memory
        session := { c.session with played := played } } := by
    simp only [Chain.step, none, if_false, same, held.same_word some]
  have transmits : Transmits .ad936xAxi (p.step .ad936xAxi (.engine .fetch)) :=
    held.transmits.step trivial
  refine ⟨[.engine .fetch], ⟨trivial, trivial⟩, ?_⟩
  rw [step]
  refine { held with
    streams := streams, transmits := transmits, slave := rfl, wired := { held.wired with }
    crossing := (List.append_nil _).trans held.crossing, read := ?_ }
  · change played.length =
      8 * (p.memory.taken.length + (p.memory.slave.fetch p.memory.memory).buffer.length)
    have longer : (p.memory.slave.fetch p.memory.memory).buffer.length =
        c.slave.buffer.length + 1 := by
      rw [held.slave, AxiMasterRd.Slave.fetch, if_neg none]
      exact List.length_append
    rw [longer, length]
    omega

/-- Nothing is seen read before the engine begins; then what it has released counts. -/
theorem Mirrors.released (held : Mirrors blockSize mapSize client c p arrived) :
    8 * p.memory.released .ad936xAxi =
      Generics.ad936xAxi.burst * p.memory.ring.bench.tally.bursts := by
  rw [Generics.burst_beats, AxiMasterRd.MemoryBench.released]
  split
  · rename_i pending
    rw [held.resting pending, Nat.mul_zero, Nat.mul_zero]
  · rfl

/-- The engine finds the pointer it should: that of a position published, less than a ring
ahead of what it has released. -/
theorem Mirrors.software_rule (held : Mirrors blockSize mapSize client c p arrived)
    {i : PeripheralInputs} {grown : Nat}
    (now : p.memory.ring.publishedNow ⟨c.ports i, grown⟩ = arrived) :
    AxiMasterRd.SoftwareRule .ad936xAxi p.memory.ring ⟨c.ports i, grown⟩ := by
  have ahead := held.ahead
  have inFlight := held.wired.inFlight.le
  have seen := held.seen
  have released := held.released
  have pointer : (c.ports i).iWrPtr.toNat = arrived % mapSize.toNat := by
    rw [← held.streams.mapped]
    exact held.wired.pointer
  have size : (c.ports i).iBufSize = mapSize := held.wired.size.trans held.streams.mapped
  unfold AxiMasterRd.SoftwareRule
  rw [now]
  dsimp only
  split
  · rename_i begins
    have resting : p.memory.ring.bench.dut.regs.sState = .standby := by
      simp only [AxiMasterRd.begins, Bool.and_eq_true, decide_eq_true_eq] at begins
      exact begins.1
    have pending : p.memory.session.pending = true := by
      by_contra begun
      rw [Bool.not_eq_true] at begun
      rw [held.engine] at resting
      exact (held.begun begun).1 resting
    have none := held.resting pending
    rw [size]
    rw [none, Nat.mul_zero] at released
    exact ⟨pointer, by omega⟩
  · intro active
    have running := held.transmits.plays.running active
    rw [running.size, held.size]
    exact ⟨pointer, by omega⟩

/-- The slave keeps its side of the port. -/
theorem Mirrors.slave_rule (held : Mirrors blockSize mapSize client c p arrived)
    {i : PeripheralInputs} (running : i.lite.aresetn = true) (returns : Returns c.slave i) :
    AxiMasterRd.SlaveRule p.memory.ring.bench (c.ports i) := by
  refine ⟨?_, fun valid => ?_⟩
  · change (i.lite.aresetn && !c.regs.sReset) = true
    rw [running, held.wired.noReset]
    rfl
  · obtain ⟨head, last⟩ := returns valid
    rw [← held.slave] at head last
    have receiving : p.memory.ring.bench.dut.regs.sState = .rRecv := by
      by_contra other
      rw [(held.transmits.plays.reads.idle other).2] at head
      cases head
    obtain ⟨-, owed, -, -⟩ := held.transmits.plays.reads.burst receiving
    have some : 0 < p.memory.slave.buffer.length := by
      rw [List.length_pos_iff]
      rintro empty
      rw [empty] at head
      cases head
    refine ⟨by omega, ?_⟩
    rw [← owed]
    exact last

/-- A session begins only when it is prepared. -/
theorem Mirrors.pending (held : Mirrors blockSize mapSize client c p arrived)
    {i : AxiMasterRd.Inputs} (begins : AxiMasterRd.begins c.engine.regs i = true) :
    p.memory.session.pending = true := by
  simp only [AxiMasterRd.begins, Bool.and_eq_true, decide_eq_true_eq] at begins
  by_contra begun
  rw [Bool.not_eq_true] at begun
  exact (held.begun begun).1 begins.1

/-- How far the pointer shown has moved since the clock before. -/
def grown (c : Chain) (p : Player) (arrived : Nat) (i : PeripheralInputs) : Nat :=
  if AxiMasterRd.begins c.engine.regs (c.ports i) then arrived
  else arrived - p.memory.ring.published

theorem Mirrors.publishedNow (held : Mirrors blockSize mapSize client c p arrived)
    (i : PeripheralInputs) :
    p.memory.ring.publishedNow ⟨c.ports i, grown c p arrived i⟩ = arrived := by
  have shown := held.shown
  unfold AxiMasterRd.RingBench.publishedNow grown
  rw [held.engine]
  split
  · rfl
  · dsimp only
    omega

/-- A clock of the engine is one that its surroundings may ask of it. -/
theorem Mirrors.permits (held : Mirrors blockSize mapSize client c p arrived)
    {i : PeripheralInputs} (running : i.lite.aresetn = true) (returns : Returns c.slave i)
    (two : TwoAvailable c.engine (c.ports i)) :
    AxiMasterRd.ReadMemoryRule .ad936xAxi (AxiMasterRd.idealFifo .ad936xAxi) p.memory
      (.clock ⟨c.ports i, grown c p arrived i⟩) := by
  have now := held.publishedNow i
  have base : (c.ports i).iBaseAddr = c.session.bench.dev.priv.txbufPhys := held.wired.base
  have size : (c.ports i).iBufSize = mapSize := held.wired.size.trans held.streams.mapped
  have positive : 0 < mapSize.toNat := by
    rw [← held.streams.mapped]
    exact held.streams.flow.positive
  have transmit : AxiMasterRd.TransmitRule .ad936xAxi p.memory.ring
      ⟨c.ports i, grown c p arrived i⟩ := by
    refine ⟨held.slave_rule running returns, fun _ => ?_, held.software_rule now⟩
    change 0 < (c.ports i).iBufSize.toNat ∧ _ ∣ (c.ports i).iBufSize.toNat
    rw [size]
    exact ⟨positive, held.placed.bursts⟩
  refine ⟨transmit, fun _ => ?_, ?_, fun begins => ?_, fun valid => ?_, ?_⟩
  · change (c.ports i).iBaseAddr.toNat + (c.ports i).iBufSize.toNat < 2 ^ 32
    rw [base, size]
    exact held.placed.below
  · intro state valid last room available
    rw [held.engine] at state room available
    have more := held.transmits.plays.supplied.available transmit (by
      rw [held.engine]
      simp [state])
    have both := two state valid last room available
    rw [held.engine] at more
    dsimp only at more
    rw [Nat.mul_add]
    omega
  · refine ⟨?_, ?_, ?_, ?_⟩
    · rw [held.engine] at begins
      exact held.pending begins
    · rw [held.base]
      exact base
    · rw [held.size]
      exact size
    · rw [held.base]
      exact held.placed.aligned
  · rw [held.slave]
    exact (returns valid).1
  · have inFlight := held.wired.inFlight.le
    rw [now, held.laid]
    omega

/-- Enabled, the engine does not return to STANDBY. -/
theorem stays_active {e : AxiMasterRd.Entity (List (BitVec 64))} {i : AxiMasterRd.Inputs}
    (running : i.iAresetn = true) (enabled : i.iEnable = true) :
    (AxiMasterRd.clock .ad936xAxi (AxiMasterRd.idealFifo .ad936xAxi) e i).regs.sState ≠
      .standby := by
  have moved := AxiMasterRd.clock_moves .ad936xAxi (AxiMasterRd.idealFifo .ad936xAxi) e i running
  generalize (AxiMasterRd.clock .ad936xAxi (AxiMasterRd.idealFifo .ad936xAxi) e i).regs = after
    at moved ⊢
  cases moved with
  | rests hi state disabled => simp [enabled] at disabled
  | stops hi state disabled => simp [enabled] at disabled
  | finishes hi next state valid last continued =>
    exact (AxiMasterRd.chained_elsewhere continued).2
  | _ => simp_all

/-- Before the session begins the engine rests. -/
theorem Mirrors.rests (held : Mirrors blockSize mapSize client c p arrived)
    (pending : p.memory.session.pending = true) : c.engine.regs.sState = .standby := by
  by_contra active
  rw [← held.engine] at active
  have begun := (held.transmits.plays.running active).begun
  rw [pending] at begun
  cases begun

/-- A beat goes from the slave's buffer to the beats of the session. -/
theorem beat_moves {i : PeripheralInputs} (returns : Returns c.slave i) :
    (c.slave.clock .ad936xAxi c.engine.regs (c.ports i)).buffer.length +
      (if AxiMasterRd.rHandshake c.engine.regs (c.ports i) then [i.iRdata] else []).length =
        c.slave.buffer.length := by
  unfold AxiMasterRd.Slave.clock
  dsimp only
  split
  · rename_i data
    have valid : i.iRvalid = true := (Bool.and_eq_true_iff.mp data).1
    obtain ⟨head, -⟩ := returns valid
    cases buffer : c.slave.buffer with
    | nil =>
      rw [buffer] at head
      cases head
    | cons word others => rfl
  · rfl

/-- The path after a clock, in terms of the chain's parts. -/
structure Clocks (c : Chain) (i : PeripheralInputs) (p q : Player) : Prop where
  engine : q.memory.ring.bench.dut =
    AxiMasterRd.clock .ad936xAxi (AxiMasterRd.idealFifo .ad936xAxi) c.engine (c.ports i)
  slave : q.memory.slave = c.slave.clock .ad936xAxi c.engine.regs (c.ports i)
  crossing : q.crossing =
    c.crossing ++ AxiMasterRd.sentWord (g := .ad936xAxi) c.engine (c.ports i)
  path : q.path = c.path
  session : q.memory.session =
    if AxiMasterRd.begins c.engine.regs (c.ports i) then { p.memory.session with pending := false }
    else p.memory.session
  taken : q.memory.taken =
    if AxiMasterRd.begins c.engine.regs (c.ports i) then []
    else p.memory.taken ++
      if AxiMasterRd.rHandshake c.engine.regs (c.ports i) then [i.iRdata] else []
  earlier : q.memory.earlier =
    if AxiMasterRd.begins c.engine.regs (c.ports i) then p.memory.earlier ++ p.memory.taken
    else p.memory.earlier
  bursts : q.memory.ring.bench.tally.bursts =
    if AxiMasterRd.begins c.engine.regs (c.ports i) then 0
    else p.memory.ring.bench.tally.bursts +
      (AxiMasterRd.rHandshake c.engine.regs (c.ports i) && i.iRlast).toNat

theorem Mirrors.clocks (held : Mirrors blockSize mapSize client c p arrived)
    (i : PeripheralInputs) (more : Nat) :
    Clocks c i p (p.step .ad936xAxi (.engine (.clock ⟨c.ports i, more⟩))) := by
  constructor
  · rw [← held.engine]
    rfl
  · rw [← held.engine, ← held.slave]
    rfl
  · rw [← held.engine, ← held.crossing]
    rfl
  · exact held.path
  all_goals
    rw [← held.engine]
    rfl

/-- The clock on which the engine begins the session. -/
theorem Mirrors.begins (held : Mirrors blockSize mapSize client c p arrived) {i : PeripheralInputs}
    {q : Player} (transmits : Transmits .ad936xAxi q) (clocks : Clocks c i p q)
    (running : (c.ports i).iAresetn = true) (returns : Returns c.slave i)
    (shown : q.memory.ring.published = arrived)
    (begins : AxiMasterRd.begins c.engine.regs (c.ports i) = true) :
    Mirrors blockSize mapSize client (c.step blockSize mapSize (.clock i)) q arrived := by
  have pending := held.pending begins
  have resting := held.rests pending
  have fresh := held.transmits.plays.fresh pending
  have noData : AxiMasterRd.rHandshake c.engine.regs (c.ports i) = false :=
    AxiMasterRd.rHandshake_elsewhere (by simp [resting])
  have enabled : c.regs.sTxEn = true := by
    simp only [AxiMasterRd.begins, Bool.and_eq_true] at begins
    exact begins.2
  have beat := beat_moves returns
  have session := clocks.session
  have taken := clocks.taken
  have earlier := clocks.earlier
  have bursts := clocks.bursts
  have read := held.read
  have seen := held.seen
  have released := held.released
  rw [held.resting pending, Nat.mul_zero] at released
  rw [begins, if_pos rfl] at session taken earlier bursts
  refine { held with
    transmits := transmits, engine := clocks.engine, slave := clocks.slave
    crossing := clocks.crossing, path := clocks.path, earlier := ?_, base := ?_, size := ?_
    stream := ?_, laid := ?_, read := ?_, seen := ?_, shown := Nat.le_of_eq shown
    resting := fun _ => bursts, begun := fun _ => ⟨stays_active running enabled, enabled⟩
    wired := held.wired }
  · rw [earlier, held.earlier, fresh]
    rfl
  · rw [session]
    exact held.base
  · rw [session]
    exact held.size
  · rw [session]
    exact held.stream
  · rw [session]
    exact held.laid
  · change c.session.played.length =
      8 * (q.memory.taken.length +
        (c.slave.clock .ad936xAxi c.engine.regs (c.ports i)).buffer.length)
    rw [noData] at beat
    rw [read, fresh, taken, ← beat]
    rfl
  · change c.session.bench.consumed ≤ _
    omega

/-- Any other clock. -/
theorem Mirrors.continues (held : Mirrors blockSize mapSize client c p arrived)
    {i : PeripheralInputs} {q : Player} (transmits : Transmits .ad936xAxi q)
    (clocks : Clocks c i p q) (running : (c.ports i).iAresetn = true)
    (returns : Returns c.slave i) (shown : q.memory.ring.published = arrived)
    (noBegin : AxiMasterRd.begins c.engine.regs (c.ports i) = false) :
    Mirrors blockSize mapSize client (c.step blockSize mapSize (.clock i)) q arrived := by
  have beat := beat_moves returns
  have session := clocks.session
  have taken := clocks.taken
  have earlier := clocks.earlier
  have bursts := clocks.bursts
  have read := held.read
  have seen := held.seen
  have none : ¬ (false = true) := Bool.false_ne_true
  rw [noBegin, if_neg none] at session taken earlier bursts
  refine { held with
    transmits := transmits, engine := clocks.engine, slave := clocks.slave
    crossing := clocks.crossing, path := clocks.path, earlier := ?_, base := ?_, size := ?_
    stream := ?_, laid := ?_, read := ?_, seen := ?_, shown := Nat.le_of_eq shown
    resting := fun pending => ?_, begun := fun started => ?_, wired := held.wired }
  · rw [earlier]
    exact held.earlier
  · rw [session]
    exact held.base
  · rw [session]
    exact held.size
  · rw [session]
    exact held.stream
  · rw [session]
    exact held.laid
  · change c.session.played.length =
      8 * (q.memory.taken.length +
        (c.slave.clock .ad936xAxi c.engine.regs (c.ports i)).buffer.length)
    rw [read, taken, List.length_append]
    omega
  · change c.session.bench.consumed ≤ 8 * q.memory.released .ad936xAxi
    refine Nat.le_trans seen (Nat.mul_le_mul_left _ ?_)
    simp only [AxiMasterRd.MemoryBench.released, session, bursts]
    split
    · exact Nat.le_refl _
    · exact Nat.mul_le_mul_left _ (Nat.le_add_right _ _)
  · rw [session] at pending
    have resting := held.rests pending
    have noData : AxiMasterRd.rHandshake c.engine.regs (c.ports i) = false :=
      AxiMasterRd.rHandshake_elsewhere (by simp [resting])
    rw [bursts, noData, held.resting pending]
    rfl
  · rw [session] at started
    exact ⟨stays_active running (held.begun started).2, (held.begun started).2⟩

/-- A clock of the engine is matched by the same clock. -/
theorem Mirrors.clock (held : Mirrors blockSize mapSize client c p arrived)
    {i : PeripheralInputs} (running : i.lite.aresetn = true) (returns : Returns c.slave i)
    (two : TwoAvailable c.engine (c.ports i)) :
    ∃ events, Follows (PlayerRule .ad936xAxi) (Player.step .ad936xAxi) p events ∧
      Mirrors blockSize mapSize client (c.step blockSize mapSize (.clock i))
        (run (Player.step .ad936xAxi) p events) arrived := by
  have permits := held.permits running returns two
  have transmits := held.transmits.step (e := .engine (.clock ⟨c.ports i, grown c p arrived i⟩))
    permits
  have clocks := held.clocks i (grown c p arrived i)
  have shown : (p.step .ad936xAxi
      (.engine (.clock ⟨c.ports i, grown c p arrived i⟩))).memory.ring.published = arrived :=
    held.publishedNow i
  refine ⟨[.engine (.clock ⟨c.ports i, grown c p arrived i⟩)], ⟨permits, trivial⟩, ?_⟩
  have out := (held.slave_rule running returns).1
  cases begins : AxiMasterRd.begins c.engine.regs (c.ports i) with
  | true => exact held.begins transmits clocks out returns shown begins
  | false => exact held.continues transmits clocks out returns shown begins

/-- A read of the engine's offset shows the driver what has been released. -/
theorem Mirrors.report (held : Mirrors blockSize mapSize client c p arrived) :
    Mirrors blockSize mapSize client (c.step blockSize mapSize .report) p arrived := by
  have seen := held.seen
  have released := held.released
  have flow := held.streams.flow
  have size : c.session.bench.size = mapSize.toNat := congrArg BitVec.toNat held.streams.mapped
  have offset : c.engine.regs.sRdPtr.toNat =
      Generics.ad936xAxi.burst * p.memory.ring.bench.tally.bursts % c.session.bench.size := by
    have tracked := held.transmits.plays.supplied.tracks.offset
    rw [held.engine] at tracked
    rw [tracked, size]
    cases pending : p.memory.session.pending with
    | true => simp [held.resting pending]
    | false =>
      have active := (held.begun pending).1
      rw [← held.engine] at active
      rw [(held.transmits.plays.running active).size, held.size]
  have distance : c.unseen.toNat =
      (Generics.ad936xAxi.burst * p.memory.ring.bench.tally.bursts - c.session.bench.consumed) %
        c.session.bench.size :=
    cyclicDistance_positions flow.positive (by omega) flow.readerAt offset
  have reduced := Nat.mod_le
    (Generics.ad936xAxi.burst * p.memory.ring.bench.tally.bursts - c.session.bench.consumed)
    c.session.bench.size
  have taken := held.transmits.plays.released_taken
  have streams := held.streams.report (show _ + c.unseen.toNat ≤ _ by
    rw [held.read]
    omega)
  refine { held with
    streams := streams, quiet := held.quiet, wired := { held.wired with }, seen := ?_ }
  change c.session.bench.consumed + c.unseen.toNat ≤ _
  omega

/-- A register write that arrives changes nothing in the path. -/
theorem Mirrors.arrive (held : Mirrors blockSize mapSize client c p arrived) :
    ∃ next, Mirrors blockSize mapSize client (c.step blockSize mapSize .arrive) p next := by
  cases posted : c.posted with
  | nil =>
    refine ⟨arrived, ?_⟩
    simp only [Chain.step, posted]
    exact held
  | cons w others =>
    have wired := held.wired
    rw [posted] at wired
    obtain ⟨next, later, wired, enabled⟩ := wired.arrive
    refine ⟨next, ?_⟩
    simp only [Chain.step, posted]
    exact { held with
      wired := wired, shown := Nat.le_trans held.shown later
      begun := fun started => ⟨(held.begun started).1, enabled (held.begun started).2⟩ }

/-- Every step of the chain is matched by steps of the path. -/
theorem Mirrors.step (held : Mirrors blockSize mapSize client c p arrived) {e : ChainEvent}
    (rule : ChainRule blockSize client c e) :
    ∃ events, Follows (PlayerRule .ad936xAxi) (Player.step .ad936xAxi) p events ∧
      ∃ next, Mirrors blockSize mapSize client (c.step blockSize mapSize e)
        (run (Player.step .ad936xAxi) p events) next := by
  cases e with
  | software e =>
    obtain ⟨events, follows, next⟩ := held.software rule.1 rule.2.1 rule.2.2
    exact ⟨events, follows, arrived, next⟩
  | arrive => exact ⟨[], trivial, held.arrive⟩
  | clock i =>
    obtain ⟨events, follows, next⟩ := held.clock rule.1 rule.2.1 rule.2.2
    exact ⟨events, follows, arrived, next⟩
  | fetch =>
    obtain ⟨events, follows, next⟩ := held.fetch
    exact ⟨events, follows, arrived, next⟩
  | report => exact ⟨[], trivial, arrived, held.report⟩
  | iqClock sTxEnable arrivals =>
    refine ⟨[.iqClock sTxEnable arrivals], ⟨trivial, trivial⟩, arrived, ?_⟩
    have transmits := held.transmits.step (e := .iqClock sTxEnable arrivals) trivial
    refine { held with
      transmits := transmits, wired := { held.wired with }, crossing := ?_, path := ?_ }
    · change p.crossing.drop arrivals = c.crossing.drop arrivals
      rw [held.crossing]
    · change transmit p.path ⟨sTxEnable, p.crossing.take arrivals⟩ =
        transmit c.path ⟨sTxEnable, c.crossing.take arrivals⟩
      rw [held.path, held.crossing]

/-- The path at the start: software has prepared the session and laid nothing. -/
def pathStart (blockSize base size : BitVec 32) (client : Nat → BitVec 8) (tx : Ad936xTxrx.TxRegs) :
    Player :=
  (playerStart (fun _ => 0) tx).step .ad936xAxi
    (.engine (.prepare base size (outwardWords blockSize client)))

theorem mirrors_start {mapped : Driver.Device} (ring : CachedRing.Cached (BitVec 8))
    (client : Nat → BitVec 8) (underrun : Bool) (dataRise dataFall : BitVec 6)
    (frameRise frameFall : Ad936xTxrx.StdLogic) (block : 0 < blockSize.toNat) (several : 2 * blockSize.toNat ≤ mapped.priv.txbufSize.toNat)
    (whole : blockSize.toNat ∣ mapped.priv.txbufSize.toNat)
    (based : mapped.regs.txBufBase = mapped.priv.txbufPhys)
    (sized : mapped.regs.txBufSize = mapped.priv.txbufSize)
    (placed : Placement mapped.priv.txbufPhys mapped.priv.txbufSize) :
    Mirrors blockSize mapped.priv.txbufSize client
      (chainStart blockSize mapped ring
        (Ad936xTxrx.configuredTx underrun dataRise dataFall frameRise frameFall))
      (pathStart blockSize mapped.priv.txbufPhys mapped.priv.txbufSize client
        (Ad936xTxrx.configuredTx underrun dataRise dataFall frameRise frameFall)) 0 where
  streams := streams_opened mapped ring block several whole
  quiet := rfl
  heard := rfl
  wired := ⟨rfl, fun w member => absurd member List.not_mem_nil, based, sized,
    by simp [chainStart, mirror, sessionOpened, Driver.openedBench], (Nat.zero_mod _).symm, rfl,
    fun on => by simp [chainStart, mirror, sessionOpened, Driver.openedBench] at on⟩
  placed := placed
  transmits := Transmits.step (g := .ad936xAxi)
    ⟨AxiMasterRd.memoryStart_plays [] _, AxiMasterRd.buffered_reset _,
      ⟨rfl, rfl, rfl, rfl, rfl, rfl⟩, rfl⟩ rfl
  engine := rfl
  slave := rfl
  crossing := rfl
  path := rfl
  earlier := rfl
  base := rfl
  size := rfl
  stream := rfl
  laid := show 0 = (0 + 7) / 8 by decide
  read := rfl
  seen := Nat.zero_le _
  shown := Nat.le_refl _
  resting _ := rfl
  begun impossible := by cases impossible

/-- The two halves of a word of the stream. -/
theorem halves_outward (word : Nat) :
    halves (outwardWords blockSize client word) =
      [halfOf fun k => outward blockSize client (8 * word + k),
        halfOf fun k => outward blockSize client (8 * word + 4 + k)] :=
  halves_pack _ _

/-- The halves of the first words are the samples of the stream. -/
theorem halves_stream (count : Nat) :
    ((List.range count).map (outwardWords blockSize client)).flatMap halves =
      (List.range (2 * count)).map fun k =>
        halfOf fun i => outward blockSize client (4 * k + i) := by
  induction count with
  | zero => rfl
  | succ count inductionHypothesis =>
    have first : 4 * (2 * count) = 8 * count := by omega
    have second : 4 * (2 * count + 1) = 8 * count + 4 := by omega
    rw [List.range_succ, List.map_append, List.flatMap_append, inductionHypothesis,
      Nat.mul_succ, List.range_succ, List.range_succ, List.map_append, List.map_append,
      List.append_assoc]
    simp [halves_outward, first, second]

/-- The words taken for the slots are the first of the stream. -/
theorem Mirrors.slots (held : Mirrors blockSize mapSize client c p arrived) :
    c.path.slots.filterMap WordSlot.popped <+:
      (List.range (2 * p.memory.taken.length)).map fun k =>
        halfOf fun i => outward blockSize client (4 * k + i) := by
  have stream := held.transmits.buffered.conserves.stream
  have beats := held.transmits.plays.beats
  rw [held.stream] at beats
  rw [held.transmits.plays.all, held.earlier, List.nil_append, beats, halves_stream,
    ← held.transmits.crossed, ← held.transmits.sending.queue, held.transmits.sending.words,
    held.path, List.append_assoc, List.append_assoc] at stream
  exact ⟨_, stream⟩

end Matching

/-! ## Whole runs -/

/-- What an accepted mapping of the transmit ring leaves in the registers. -/
theorem mmap_registers {blockSize : BitVec 32} {call : Driver.MmapCall}
    {opened mapped : Driver.Device} (page : call.vmPgoff = 1)
    (accepted : Driver.mmap blockSize call opened = .ok mapped) :
    mapped.regs.txBufSize = call.size ∧ mapped.regs.txBufBase = opened.regs.txBufBase ∧
      mapped.priv.txbufPhys = opened.priv.txbufPhys := by
  obtain ⟨-, rfl⟩ := Driver.mmap_ok accepted
  simp [Driver.mmapRegister, Driver.mmapSize, page]

/-- The words taken for the slots of the link are the words of the silence and of what
the client has sent, the first of them first, none lost, repeated or changed; and the
link shows each slot as `SentOnce` says. Nothing is taken that has not been published,
and nothing is published that the client has not sent. A burst chained on a last beat is
taken to be published.

The run is matched by one of the transmit path. What a block's call publishes has been
cleaned from the cache, and what the engine releases the driver has seen at most, so
neither meets the other in the ring. -/
theorem client_to_link (blockSize : BitVec 32) (call : Driver.MmapCall)
    (opened mapped : Driver.Device) (block : 0 < blockSize.toNat) (page : call.vmPgoff = 1)
    (several : 2 * blockSize.toNat ≤ call.size.toNat)
    (accepted : Driver.mmap blockSize call opened = .ok mapped)
    (based : opened.regs.txBufBase = opened.priv.txbufPhys)
    (placed : Placement opened.priv.txbufPhys call.size)
    (ring : CachedRing.Cached (BitVec 8)) (client : Nat → BitVec 8) (underrun : Bool)
    (dataRise dataFall : BitVec 6) (frameRise frameFall : Ad936xTxrx.StdLogic)
    (events : List ChainEvent)
    (follows : Follows (ChainRule blockSize client) (Chain.step blockSize call.size)
      (chainStart blockSize mapped ring
        (Ad936xTxrx.configuredTx underrun dataRise dataFall frameRise frameFall)) events) :
    let c := run (Chain.step blockSize call.size)
      (chainStart blockSize mapped ring
        (Ad936xTxrx.configuredTx underrun dataRise dataFall frameRise frameFall)) events
    let words := c.path.slots.filterMap WordSlot.popped
    words = (List.range words.length).map (fun k =>
        halfOf fun i => outward blockSize client (4 * k + i)) ∧
      4 * words.length ≤ c.session.bench.published ∧
      c.session.bench.published ≤ prefillBytes blockSize + c.session.received.length ∧
      c.session.received = (List.range c.session.received.length).map client ∧
      c.posted.foldl take c.regs = mirror c.session.bench.dev.regs ∧ SentOnce c.path := by
  intro c words
  obtain ⟨whole, size⟩ := Driver.mmap_transmit_ring page accepted
  obtain ⟨sizeRegister, baseRegister, phys⟩ := mmap_registers page accepted
  have start : Mirrors blockSize mapped.priv.txbufSize client
      (chainStart blockSize mapped ring
        (Ad936xTxrx.configuredTx underrun dataRise dataFall frameRise frameFall)) _ 0 :=
    mirrors_start ring client underrun dataRise dataFall frameRise frameFall block
      (by rwa [size]) (by rwa [size])
      (by rw [baseRegister, phys, based]) (by rw [sizeRegister, size]) (by rwa [phys, size])
  rw [size] at start
  have each : ∀ before other e,
      (∃ arrived, Mirrors blockSize call.size client before other arrived) →
      ChainRule blockSize client before e →
      ∃ actions, Follows (PlayerRule .ad936xAxi) (Player.step .ad936xAxi) other actions ∧
        ∃ arrived, Mirrors blockSize call.size client (before.step blockSize call.size e)
          (run (Player.step .ad936xAxi) other actions) arrived :=
    fun _ _ _ ⟨_, held⟩ rule => held.step rule
  obtain ⟨actions, -, arrived, held⟩ := matched each ⟨0, start⟩ events follows
  generalize run (Player.step .ad936xAxi) _ actions = p at held
  change Mirrors blockSize call.size client c p arrived at held
  have sent : words <+: _ := held.slots
  have bounded := sent.length_le
  rw [List.length_map, List.length_range] at bounded
  have read := held.read
  have behind := held.streams.carried.behind
  have shown := Nat.le_trans held.streams.carried.backed held.streams.within
  simp only [outgoing, List.length_append, List.length_replicate] at shown
  refine ⟨?_, by omega, shown, held.heard, held.wired.mirrored, ?_⟩
  · have first := List.prefix_iff_eq_take.mp sent
    rw [← List.map_take, List.take_range, Nat.min_eq_left bounded] at first
    exact first
  · have once := held.transmits.sending.sentOnce
    rwa [held.path] at once

/-- The ports of a clock on which the slave accepts an address and the FIFO takes words. -/
def quietPorts : PeripheralInputs where
  lite := ⟨true, false, 0, false, 0, false, false, 0, false, 0, 0, 0, 0⟩
  iAwready := false
  iWready := false
  iBvalid := false
  iArready := true
  iRdata := 0
  iRlast := false
  iRvalid := false
  sAxisData := 0
  sAxisValid := false
  sTxAxisReady := true

/-- The prefill, ENABLE and two bytes of the client; a burst of silence; three slots. -/
def firstBurst : List ChainEvent :=
  List.replicate 11 (.software .thread) ++
    [.software (.recv [1, 2]), .arrive, .arrive, .clock quietPorts, .clock quietPorts,
      .clock quietPorts] ++
    (List.range 16).flatMap (fun k =>
      [.fetch, .clock { quietPorts with iRvalid := true, iRlast := k == 15 }]) ++
    [.clock quietPorts, .report, .iqClock true 0, .iqClock true 2, .iqClock true 0,
      .iqClock true 0, .iqClock true 0]

theorem client_to_link_silence :
    let c := run (Chain.step 0x800000 fourBlockMap.size)
      (chainStart 0x800000 fourBlocks ⟨fun _ => 7, fun _ => 9⟩
        (Ad936xTxrx.configuredTx false 0 0 .other .other)) firstBurst
    c.path.slots = [.repeated, .word 0, .word 0] ∧ c.session.bench.consumed = 128 ∧
      4 * (c.path.slots.filterMap WordSlot.popped).length ≤ c.session.bench.published :=
  have carried := client_to_link 0x800000 fourBlockMap
    (Driver.reserved 0x08000000) fourBlocks (by decide) rfl (by decide) rfl rfl
    ⟨by decide, by decide, by decide⟩ ⟨fun _ => 7, fun _ => 9⟩
    (fun k => BitVec.ofNat 8 (k + 1)) false 0 0 .other .other firstBurst
    (by decide +kernel)
  ⟨by decide +kernel, by decide +kernel, carried.2.1⟩

end Zyndra.TxChain
