import Zyndra.CachedRing
import Zyndra.SessionStart
import Zyndra.Transfers
import Zyndra.TxFlush
import Mathlib.Data.List.GetD

/-!
# A transmit session, from the client's socket to the bytes the hardware reads

`tx_tcp_session` clears the blocks of the prefill, hands each of them to the driver,
enables the FPGA, and from then on receives one block after another straight into
the mapped ring. The mapping is cached: what the thread stores reaches the memory
when `write` cleans it, or earlier when the cache writes it back by itself. The
hardware reads the memory.

The thread is a program counter over the steps of the driver's calls and of
`tcp_recv_full`; the client, the receive thread's `driver_close`, the cache and the
hardware interleave with it. The session starts behind its wait for the receiver.
-/

namespace Zyndra.Ad9361Txrx

open Runs Driver CachedRing CyclicRing Transfers

/-- Where the session stands. `putting` is inside `driver_tx_put_block`, with the
blocks of the prefill still to come, or none while streaming; `counting` is behind it,
before `g_tx_stats`. -/
inductive TxSessionPc where
  | prefilling (left : Nat)
  | putting (left : Option Nat)
  | counting
  | enabling (at_ : EnablePc)
  | receiving (progress : Progress)
  | ended

def TxSessionPc.inCall : TxSessionPc → Bool
  | .putting _ => true
  | _ => false

/-- The driver with its positions, the descriptor, the thread's place and its
offset `wr`, the ring, and `g_tx_stats.bytes`. `laid` counts the bytes stored into
the ring, `received` is what the client has sent and `played` what the hardware has
read. -/
structure TxSession where
  bench : TxBench
  fdOpen : Bool
  pc : TxSessionPc
  wr : BitVec 32
  ring : Cached (BitVec 8)
  statBytes : BitVec 64
  laid : Nat
  received : List (BitVec 8)
  played : List (BitVec 8)

inductive TxSessionEvent where
  | thread
  | recv (data : List (BitVec 8))
  | recvInterrupted
  | recvFailed
  | close
  | writeBack (place : Nat)
  | fetch
  | report (bytes : Nat)
  deriving DecidableEq

/-- The cache maintenance a call has issued on its way from one state to another. -/
def maintained (before after : Device) : List DmaSync :=
  after.synced.drop before.synced.length

section Thread

variable (blockSize mapSize : BitVec 32)

/-- The bench after a step of the call in progress. -/
def follow (b : TxBench) (taken : WriteStep) : TxBench :=
  let moved := { b with dev := taken.device, pc := taken.pc }
  match b.pc with
  | .outside => moved
  | .waiting wr =>
    { moved with passedEqual := if b.dev.regs.txBufRd = wr then b.consumed else none }
  | .publishing _ =>
    { moved with published := b.published + blockSize.toNat, passedEqual := none }

/-- Into `driver_tx_put_block`. With the descriptor closed it fails at once. -/
def enterPut (left : Option Nat) (s : TxSession) : TxSession :=
  { s with pc := if s.fdOpen then .putting left else .ended }

/-- One step of `driver_tx_put_block`. Behind it the prefill goes on, or `tx_put_block`
counts the block. -/
def putStep (left : Option Nat) (s : TxSession) : TxSession :=
  let taken := writeStep blockSize ⟨4, false, s.wr⟩ s.bench.pc s.bench.dev
  let moved :=
    { s with
      bench := follow blockSize s.bench taken
      ring := s.ring.clean fun place =>
        (maintained s.bench.dev taken.device).any (covers s.bench.dev.priv.txbufPhys place) }
  match taken.result, left with
  | none, _ => moved
  | some (.error _), _ => { moved with pc := .ended }
  | some (.ok _), some left => { moved with pc := .prefilling left }
  | some (.ok _), none => { moved with pc := .counting }

/-- One step of the thread outside `recv`. -/
def sessionThread (s : TxSession) : TxSession :=
  match s.pc with
  | .prefilling 0 => { s with pc := if s.fdOpen then .enabling .chooseCtrl else .ended }
  | .prefilling (left + 1) =>
    enterPut (some left)
      { s with
        ring := s.ring.lay s.wr.toNat blockSize.toNat fun _ => 0
        laid := s.laid + blockSize.toNat
        wr := (s.wr + blockSize) % mapSize }
  | .putting left => putStep blockSize left s
  | .counting =>
    { s with
      statBytes := s.statBytes + blockSize.setWidth 64
      pc := .receiving (begin blockSize.toNat) }
  | .enabling at_ =>
    let taken := enableStep at_ s.bench.dev
    { s with
      bench := { s.bench with dev := taken.2 }
      pc := match taken.1 with
        | .returned => .receiving (begin blockSize.toNat)
        | next => .enabling next }
  | .receiving (.running _) => s
  | .receiving (.returned true) => enterPut none { s with wr := (s.wr + blockSize) % mapSize }
  | .receiving (.returned false) => { s with pc := .ended }
  | .ended => s

/-- The outcome of one `recv` of `tcp_recv_full`, at `map + wr` and what is there. -/
def receive (outcome : Outcome) (data : List (BitVec 8)) (s : TxSession) : TxSession :=
  match s.pc with
  | .receiving (.running done) =>
    { s with
      pc := .receiving (advance blockSize.toNat (.running done) outcome)
      ring := s.ring.lay (s.wr.toNat + done) data.length fun k => data.getD k 0
      laid := s.laid + data.length
      received := s.received ++ data }
  | _ => s

/-- The hardware reads the next byte of the memory. -/
def fetchByte (s : TxSession) : TxSession :=
  { s with played := s.played ++ [s.ring.memory (s.played.length % s.bench.size)] }

def txSession (s : TxSession) : TxSessionEvent → TxSession
  | .thread => sessionThread blockSize mapSize s
  | .recv data => receive blockSize (.moved data.length) data s
  | .recvInterrupted => receive blockSize .interrupted [] s
  | .recvFailed => receive blockSize .failed [] s
  | .close => { s with fdOpen := false }
  | .writeBack place => { s with ring := s.ring.clean fun other => other == place }
  | .fetch => fetchByte s
  | .report bytes => { s with bench := transmit blockSize s.bench (.hardware bytes) }

/-- The hardware transmits. -/
def TxSession.transmits (s : TxSession) : Bool := s.bench.dev.regs.ctrl &&& ctrlTxEnable != 0

/-- A `recv` returns at most what is asked for. -/
def Asked (bytes : Nat) : TxSessionPc → Prop
  | .receiving progress => Admits blockSize.toNat progress (.moved bytes)
  | _ => True

instance (bytes : Nat) : (pc : TxSessionPc) → Decidable (Asked blockSize bytes pc)
  | .receiving _ => inferInstanceAs (Decidable (Admits _ _ _))
  | .prefilling _ => isTrue trivial
  | .putting _ => isTrue trivial
  | .counting => isTrue trivial
  | .enabling _ => isTrue trivial
  | .ended => isTrue trivial

/-- The client sends what is asked for; the hardware reads what it has been
shown while it transmits, and reports what it has read; no call publishes the last
free block of the ring. -/
def TxSessionRule (s : TxSession) : TxSessionEvent → Prop
  | .thread => s.pc.inCall = true → BlockRead blockSize s.bench .writer
  | .recv data => Asked blockSize data.length s.pc
  | .fetch => s.transmits = true ∧ s.played.length < s.bench.published
  | .report bytes => s.bench.consumed + bytes ≤ s.played.length
  | _ => True

instance (s : TxSession) : (e : TxSessionEvent) → Decidable (TxSessionRule blockSize s e)
  | .thread => inferInstanceAs (Decidable (_ → _))
  | .recv _ => inferInstanceAs (Decidable (Asked _ _ _))
  | .fetch => inferInstanceAs (Decidable (_ ∧ _))
  | .report _ => inferInstanceAs (Decidable (_ ≤ _))
  | .recvInterrupted => isTrue trivial
  | .recvFailed => isTrue trivial
  | .close => isTrue trivial
  | .writeBack _ => isTrue trivial

/-- The session behind `open`, which leaves both directions disabled, and `mmap`. -/
def sessionOpened (d : Device) (ring : Cached (BitVec 8)) : TxSession where
  bench := openedBench { d with regs := { d.regs with ctrl := 0 } }
  fdOpen := true
  pc := .prefilling (prefillBlocks blockSize)
  wr := 0
  ring := ring
  statBytes := 0
  laid := 0
  received := []
  played := []

/-- Bytes shown and not yet counted. -/
def TxSessionPc.uncounted : TxSessionPc → Nat
  | .counting => blockSize.toNat
  | _ => 0

/-- Bytes of silence in front of the client's. -/
def prefillBytes : Nat := prefillBlocks blockSize * blockSize.toNat

/-- What the ring carries: silence, and what the client has sent. -/
def outgoing (received : List (BitVec 8)) : List (BitVec 8) :=
  List.replicate (prefillBytes blockSize) 0 ++ received

end Thread

/-! ## What every step keeps -/

section Invariant

variable (blockSize : BitVec 32)

/-- No call is in progress, and the thread's offset is the driver's. -/
structure Apart (at_ : WritePc) (txWrPtr wr : BitVec 32) : Prop where
  outside : at_ = .outside
  wr : wr = txWrPtr

/-- A block has been stored and its call is in progress. -/
structure Calling (next wr : BitVec 32) (published laid : Nat) : Prop where
  wr : wr = next
  laid : laid = published + blockSize.toNat

/-- All that has been stored is silence, with some blocks of it still to come. -/
structure Silent (left : Nat) (received : List (BitVec 8)) (laid : Nat) : Prop where
  received : received = []
  laid : laid + left * blockSize.toNat = prefillBytes blockSize

/-- The silence has been shown, and what the client has sent is stored behind it. -/
structure Streaming (published : Nat) (received : List (BitVec 8)) (laid : Nat) : Prop where
  laid : laid = prefillBytes blockSize + received.length
  shown : prefillBytes blockSize ≤ published

/-- What holds at each place of the thread. -/
def Placed (s : TxSession) : Prop :=
  match s.pc with
  | .prefilling left =>
    Apart s.bench.pc s.bench.dev.priv.txWrPtr s.wr ∧ s.laid = s.bench.published ∧
      Silent blockSize left s.received s.laid
  | .putting (some left) =>
    Calling blockSize (nextCall blockSize s.bench.dev).wr s.wr s.bench.published s.laid ∧
      Silent blockSize left s.received s.laid
  | .putting none =>
    Calling blockSize (nextCall blockSize s.bench.dev).wr s.wr s.bench.published s.laid ∧
      Streaming blockSize s.bench.published s.received s.laid
  | .counting =>
    Apart s.bench.pc s.bench.dev.priv.txWrPtr s.wr ∧ s.laid = s.bench.published ∧
      prefillBytes blockSize + blockSize.toNat ≤ s.bench.published ∧
      Streaming blockSize s.bench.published s.received s.laid
  | .enabling _ =>
    Apart s.bench.pc s.bench.dev.priv.txWrPtr s.wr ∧ s.laid = s.bench.published ∧
      Silent blockSize 0 s.received s.laid
  | .receiving (.running done) =>
    Apart s.bench.pc s.bench.dev.priv.txWrPtr s.wr ∧ s.laid = s.bench.published + done ∧
      done < blockSize.toNat ∧ Streaming blockSize s.bench.published s.received s.laid
  | .receiving (.returned true) =>
    Apart s.bench.pc s.bench.dev.priv.txWrPtr s.wr ∧
      s.laid = s.bench.published + blockSize.toNat ∧
      Streaming blockSize s.bench.published s.received s.laid
  | .receiving (.returned false) => True
  | .ended => True

/-- The byte at a position of the outgoing stream. -/
def byteAt (received : List (BitVec 8)) (position : Nat) : BitVec 8 :=
  (outgoing blockSize received).getD position 0

structure Streams (mapSize : BitVec 32) (s : TxSession) : Prop where
  flow : Flow blockSize s.bench
  several : 2 * blockSize.toNat ≤ s.bench.size
  mapped : s.bench.dev.priv.txbufSize = mapSize
  carried : Carries s.bench.size (byteAt blockSize s.received) s.ring s.bench.consumed
    s.played.length s.bench.published s.laid
  within : s.laid ≤ (outgoing blockSize s.received).length
  inOrder : s.played <+: outgoing blockSize s.received
  primed : s.transmits = true ∨ s.played ≠ [] → prefillBytes blockSize ≤ s.bench.published
  counted : s.statBytes =
    BitVec.ofNat 64 (s.bench.published - prefillBytes blockSize - s.pc.uncounted blockSize)
  placed : Placed blockSize s

end Invariant

/-- The driver after the block has been shown. -/
def shownBench (blockSize : BitVec 32) (b : TxBench) (wr : BitVec 32) : TxBench :=
  { b with
    dev := publish b.dev wr
    pc := .outside
    published := b.published + blockSize.toNat
    passedEqual := none }

section Steps

variable {blockSize mapSize : BitVec 32} {s : TxSession}

/-- A step of ENABLE touches the control word and the receive side. -/
theorem enableStep_frame (at_ : EnablePc) (d : Device) :
    ∃ ctrl rd timer blocks, (enableStep at_ d).2 =
      { d with
        regs := { d.regs with ctrl := ctrl }
        priv := { d.priv with rdPtr := rd, timerWrPtr := timer, blocksReady := blocks } } := by
  cases at_ <;> exact ⟨_, _, _, _, rfl⟩

/-- A step of the call in progress leaves the device, or shows the block and returns. -/
theorem put_cases {b : TxBench} (held : Flow blockSize b) {taken : WriteStep}
    (step : taken = writeStep blockSize (nextCall blockSize b.dev) b.pc b.dev) :
    (taken.result = none ∧ taken.device = b.dev ∧ ∃ pc passedEqual,
      transmitWriter blockSize b = { b with pc := pc, passedEqual := passedEqual }) ∨
    (taken.result = some (.ok ()) ∧ ∃ wr, taken.device = publish b.dev wr ∧
      b.pc = .publishing wr ∧ transmitWriter blockSize b = shownBench blockSize b wr) := by
  subst step
  have isOpen := held.isOpen
  cases at_ : b.pc with
  | outside =>
    have inside : ¬ b.dev.priv.txbufSize ≤ (nextCall blockSize b.dev).wr := by
      rw [BitVec.le_def, held.next_call, Nat.not_le]
      exact Nat.mod_lt _ held.positive
    have entered : writeStep blockSize (nextCall blockSize b.dev) .outside b.dev =
        ⟨.waiting (nextCall blockSize b.dev).wr, b.dev, none⟩ := by
      simp only [writeStep, inside, if_false]
      rfl
    refine Or.inl ⟨by rw [entered], by rw [entered], .waiting (nextCall blockSize b.dev).wr,
      b.passedEqual, ?_⟩
    simp only [transmitWriter, at_, entered]
  | waiting wr =>
    refine Or.inl ?_
    cases room : hasRoom blockSize b.dev wr
    all_goals
      simp only [writeStep, transmitWriter, at_, room, isOpen, Bool.or_false, Bool.false_eq_true,
        if_true, if_false, true_and]
      exact ⟨_, _, rfl⟩
  | publishing wr =>
    refine Or.inr ⟨rfl, wr, rfl, rfl, ?_⟩
    simp only [transmitWriter, at_]
    rfl

/-- The block in progress lies in the ring without passing its end. -/
theorem block_fits {b : TxBench} (held : Flow blockSize b) :
    b.published % b.size + blockSize.toNat ≤ b.size :=
  step_fits held.whole (offset_aligned held.whole held.publishedBlocks)
    (Nat.mod_lt _ held.positive)

/-- Publishing writes back the whole block: in a ring of several blocks the offset asked
for differs from the one before. -/
theorem block_written_back {b : TxBench} (held : Flow blockSize b)
    (several : 2 * blockSize.toNat ≤ b.size) {wr : BitVec 32}
    (requested : wr.toNat = (b.published + blockSize.toNat) % b.size) :
    ∀ position, b.published ≤ position → position < b.published + blockSize.toNat →
      (maintained b.dev (publish b.dev wr)).any (covers b.dev.priv.txbufPhys (position % b.size)) =
        true := by
  intro position after before
  have block := held.block
  have fits := block_fits held
  have startBelow : b.published % b.size < b.size := Nat.mod_lt _ held.positive
  have writerAt : b.dev.priv.txWrPtr.toNat = b.published % b.size := held.writerAt
  have stop : wr.toNat = (b.published % b.size + blockSize.toNat) % b.size := by
    rw [requested, Nat.mod_add_mod]
  have flushed : maintained b.dev (publish b.dev wr) = flush b.dev wr := List.drop_left
  have exact : ExactFlush blockSize b.dev.priv.txbufPhys b.size
      ⟨b.dev.priv.txWrPtr, wr, flush b.dev wr⟩ := by
    apply flush_exact
    · rw [BitVec.lt_def, writerAt]
      exact startBelow
    · rw [BitVec.lt_def, requested]
      exact Nat.mod_lt _ held.positive
    · rw [writerAt, stop]
      exact forward_step fits block
  rw [flushed]
  apply (exact.interval _ (Nat.mod_lt _ held.positive)).mpr
  have none : forward b.size (b.published % b.size) (b.published % b.size) = 0 := by
    simp [forward]
  have ahead : forward b.size (b.published % b.size) (position % b.size) =
      position - b.published := by
    obtain ⟨k, rfl⟩ := Nat.exists_eq_add_of_le after
    rw [← Nat.mod_add_mod, forward_further startBelow startBelow, none, Nat.zero_add,
      Nat.add_sub_cancel_left, Nat.mod_eq_of_lt (by omega)]
  have whole : forward b.size (b.published % b.size) wr.toNat = blockSize.toNat := by
    rw [stop, forward_further startBelow startBelow, none, Nat.zero_add,
      Nat.mod_eq_of_lt (by omega)]
  change forward b.size b.dev.priv.txWrPtr.toNat _ < forward b.size b.dev.priv.txWrPtr.toNat _
  rw [writerAt, ahead, whole]
  omega

/-- A prefix goes on with the next element of the whole. -/
theorem prefix_concat {α : Type*} {taken whole : List α} (sofar : taken <+: whole)
    (more : taken.length < whole.length) (default : α) :
    taken ++ [whole.getD taken.length default] <+: whole := by
  obtain ⟨rest, rfl⟩ := sofar
  cases rest with
  | nil => simp at more
  | cons next rest => exact ⟨rest, by simp⟩

/-- The hardware transmits only what has been shown, so the silence comes first. -/
theorem Streams.fetch (kept : Streams blockSize mapSize s) (on : s.transmits = true)
    (some : s.played.length < s.bench.published) :
    Streams blockSize mapSize (fetchByte s) := by
  obtain ⟨found, carried⟩ := kept.carried.read_one some
  have more : s.played.length < (outgoing blockSize s.received).length :=
    Nat.lt_of_lt_of_le some (Nat.le_trans kept.carried.backed kept.within)
  refine { kept with carried := ?_, inOrder := ?_, primed := ?_, placed := ?_ }
  · rw [show (fetchByte s).played.length = s.played.length + 1 from List.length_append]
    exact carried
  · change s.played ++ [s.ring.memory (s.played.length % s.bench.size)] <+: _
    rw [found]
    exact prefix_concat kept.inOrder more 0
  · intro _
    exact kept.primed (Or.inl on)
  · exact kept.placed

/-- A report frees what has been read. -/
theorem Streams.report (kept : Streams blockSize mapSize s) {bytes : Nat}
    (read : s.bench.consumed + bytes ≤ s.played.length) :
    Streams blockSize mapSize
      { s with bench := transmit blockSize s.bench (.hardware bytes) } where
  flow := kept.flow.consume (Nat.le_trans read kept.carried.behind)
  several := kept.several
  mapped := kept.mapped
  carried := kept.carried.give (Nat.le_add_right _ _) read
  within := kept.within
  inOrder := kept.inOrder
  primed := kept.primed
  counted := kept.counted
  placed := kept.placed

theorem Streams.writeBack (kept : Streams blockSize mapSize s) (marked : Nat → Bool) :
    Streams blockSize mapSize { s with ring := s.ring.clean marked } :=
  { kept with carried := kept.carried.clean marked, placed := kept.placed }

theorem Streams.close (kept : Streams blockSize mapSize s) :
    Streams blockSize mapSize { s with fdOpen := false } :=
  { kept with placed := kept.placed }

/-- Everything shown beyond the silence has been counted. -/
def Even (blockSize : BitVec 32) (s : TxSession) : Prop :=
  s.statBytes = BitVec.ofNat 64 (s.bench.published - prefillBytes blockSize)

theorem Streams.even (kept : Streams blockSize mapSize s) (all : s.pc.uncounted blockSize = 0) :
    Even blockSize s := by
  have counted := kept.counted
  rwa [all, Nat.sub_zero] at counted

/-- Where nothing is promised about the place the thread may end up. -/
theorem Streams.leave (kept : Streams blockSize mapSize s) {pc : TxSessionPc}
    (even : Even blockSize s) (all : pc.uncounted blockSize = 0)
    (placed : Placed blockSize { s with pc := pc }) :
    Streams blockSize mapSize { s with pc := pc } :=
  { kept with counted := by rw [all, Nat.sub_zero]; exact even, placed := placed }

/-- Into a call that the descriptor may refuse. -/
theorem Streams.enter (kept : Streams blockSize mapSize s) {pc : TxSessionPc}
    (even : Even blockSize s) (all : pc.uncounted blockSize = 0)
    (placed : Placed blockSize { s with pc := pc }) :
    Streams blockSize mapSize { s with pc := if s.fdOpen then pc else .ended } := by
  split
  · exact kept.leave even all placed
  · exact kept.leave even rfl trivial

/-- The offset one block on is the one the driver expects. -/
theorem Streams.next_wr (kept : Streams blockSize mapSize s)
    (apart : Apart s.bench.pc s.bench.dev.priv.txWrPtr s.wr) :
    (s.wr + blockSize) % mapSize = (nextCall blockSize s.bench.dev).wr := by
  rw [apart.wr, ← kept.mapped]
  rfl

/-- Bytes stored behind those of the block in progress. -/
theorem lay_block {b : TxBench} (held : Flow blockSize b) {stream : Nat → BitVec 8}
    {ring : Cached (BitVec 8)} {read stored done count : Nat} {wr : BitVec 32}
    (carried : Carries b.size stream ring b.consumed read b.published stored)
    (apart : Apart b.pc b.dev.priv.txWrPtr wr) (laid : stored = b.published + done)
    (inside : done + count ≤ blockSize.toNat) {source : Nat → BitVec 8}
    (next : ∀ k < count, source k = stream (stored + k)) :
    Carries b.size stream (ring.lay (wr.toNat + done) count source) b.consumed read b.published
      (stored + count) := by
  have fits := block_fits held
  have room := held.room
  rcases Nat.eq_zero_or_pos count with rfl | positive
  · rw [Cached.lay_none]
    exact carried
  · have place : stored % b.size = wr.toNat + done := by
      rw [laid, place_ahead (by omega), apart.wr, held.writerAt]
    rw [← place]
    refine carried.lay ?_ (by omega) next
    rw [laid, place_ahead (by omega)]
    omega

/-- Clearing a block of the prefill. -/
theorem Streams.clear (kept : Streams blockSize mapSize s) {left : Nat}
    (even : Even blockSize s)
    (apart : Apart s.bench.pc s.bench.dev.priv.txWrPtr s.wr)
    (shown : s.laid = s.bench.published) (silent : Silent blockSize (left + 1) s.received s.laid) :
    Streams blockSize mapSize
      { s with
        ring := s.ring.lay s.wr.toNat blockSize.toNat fun _ => 0
        laid := s.laid + blockSize.toNat
        wr := (s.wr + blockSize) % mapSize
        pc := .putting (some left) } := by
  have whole := silent.laid
  rw [Nat.succ_mul] at whole
  have silence : ∀ k < blockSize.toNat,
      (0 : BitVec 8) = byteAt blockSize s.received (s.laid + k) := by
    intro k below
    rw [byteAt, outgoing, silent.received, List.append_nil, List.getD_replicate _ (by omega)]
  have length : (outgoing blockSize s.received).length = prefillBytes blockSize := by
    simp [outgoing, silent.received]
  refine { kept with
    carried := lay_block kept.flow kept.carried apart
      (show s.laid = s.bench.published + 0 from shown) (by omega) silence
    within := ?_
    counted := even
    placed := ⟨⟨kept.next_wr apart, ?_⟩, silent.received, ?_⟩ }
  · change s.laid + blockSize.toNat ≤ (outgoing blockSize s.received).length
    omega
  · change s.laid + blockSize.toNat = s.bench.published + blockSize.toNat
    rw [shown]
  · change s.laid + blockSize.toNat + left * blockSize.toNat = _
    omega

/-- What `recv` brings extends the stream and the block. -/
theorem Streams.take (kept : Streams blockSize mapSize s) {done : Nat}
    (even : Even blockSize s)
    (apart : Apart s.bench.pc s.bench.dev.priv.txWrPtr s.wr)
    (laid : s.laid = s.bench.published + done)
    (streaming : Streaming blockSize s.bench.published s.received s.laid)
    {data : List (BitVec 8)} (inside : done + data.length ≤ blockSize.toNat) {pc : TxSessionPc}
    (all : pc.uncounted blockSize = 0)
    (placed : Placed blockSize
      { s with
        pc := pc
        ring := s.ring.lay (s.wr.toNat + done) data.length fun k => data.getD k 0
        laid := s.laid + data.length
        received := s.received ++ data }) :
    Streams blockSize mapSize
      { s with
        pc := pc
        ring := s.ring.lay (s.wr.toNat + done) data.length fun k => data.getD k 0
        laid := s.laid + data.length
        received := s.received ++ data } := by
  have longer : outgoing blockSize (s.received ++ data) =
      outgoing blockSize s.received ++ data := by
    simp only [outgoing, List.append_assoc]
  have length : (outgoing blockSize s.received).length = s.laid := by
    rw [streaming.laid]
    simp [outgoing]
  have same : ∀ position < s.laid,
      byteAt blockSize (s.received ++ data) position = byteAt blockSize s.received position := by
    intro position before
    rw [byteAt, byteAt, longer, List.getD_append _ _ _ _ (by omega)]
  have next : ∀ k < data.length,
      data.getD k 0 = byteAt blockSize (s.received ++ data) (s.laid + k) := by
    intro k below
    rw [byteAt, longer, List.getD_append_right _ _ _ _ (by omega), length,
      Nat.add_sub_cancel_left]
  refine { kept with
    carried := lay_block kept.flow (kept.carried.congr same) apart laid inside next
    within := ?_
    inOrder := ?_
    counted := by rw [all, Nat.sub_zero]; exact even
    placed := placed }
  · rw [longer, List.length_append, length]
  · rw [longer]
    exact kept.inOrder.trans (List.prefix_append _ _)

/-- One outcome of `recv`: the block grows, is complete, or is given up. -/
theorem Streams.receive (kept : Streams blockSize mapSize s) (outcome : Outcome)
    {data : List (BitVec 8)} (bytes : outcome.bytes = data.length)
    (admits : ∀ progress, s.pc = .receiving progress → Admits blockSize.toNat progress outcome) :
    Streams blockSize mapSize (receive blockSize outcome data s) := by
  have placed := kept.placed
  cases at_ : s.pc with
  | receiving progress =>
    cases progress with
    | running done =>
      simp only [Placed, at_] at placed
      obtain ⟨apart, laid, below, streaming⟩ := placed
      have even := kept.even (by rw [at_]; rfl)
      have longer : Streaming blockSize s.bench.published (s.received ++ data)
          (s.laid + data.length) := by
        refine ⟨?_, streaming.shown⟩
        rw [List.length_append, streaming.laid, Nat.add_assoc]
      have advanced := advance_running below (admits _ at_)
      rw [bytes] at advanced
      simp only [Ad9361Txrx.receive, at_]
      rcases advanced with ⟨next, inside⟩ | ⟨next, whole⟩ | ⟨next, none⟩
      all_goals rw [next]
      · refine kept.take even apart laid streaming (by omega) rfl ⟨apart, ?_, inside, longer⟩
        change s.laid + data.length = s.bench.published + (done + data.length)
        omega
      · refine kept.take even apart laid streaming (by omega) rfl ⟨apart, ?_, longer⟩
        change s.laid + data.length = s.bench.published + blockSize.toNat
        omega
      · exact kept.take even apart laid streaming (by omega) rfl trivial
    | returned success =>
      simpa only [Ad9361Txrx.receive, at_] using kept
  | _ => simpa only [Ad9361Txrx.receive, at_] using kept

/-- Inside `write` the block has been stored. -/
theorem Streams.calling (kept : Streams blockSize mapSize s) {left : Option Nat}
    (at_ : s.pc = .putting left) :
    Calling blockSize (nextCall blockSize s.bench.dev).wr s.wr s.bench.published s.laid := by
  have placed := kept.placed
  simp only [Placed, at_] at placed
  cases left with
  | none => exact placed.1
  | some left => exact placed.1

/-- Before `write` shows the block nothing that matters here changes. -/
theorem Streams.stay (kept : Streams blockSize mapSize s) {left : Option Nat}
    (at_ : s.pc = .putting left) {pc : WritePc} {passedEqual : Option Nat}
    (flow : Flow blockSize { s.bench with pc := pc, passedEqual := passedEqual })
    (marked : Nat → Bool) :
    Streams blockSize mapSize
      { s with
        bench := { s.bench with pc := pc, passedEqual := passedEqual }
        ring := s.ring.clean marked } := by
  refine { kept with flow := flow, carried := kept.carried.clean marked, placed := ?_ }
  have placed := kept.placed
  simp only [Placed, at_] at placed ⊢
  cases left with
  | none => exact placed
  | some left => exact placed

/-- The stored block is shown, whatever the thread goes on to do. -/
theorem Streams.show (kept : Streams blockSize mapSize s) {left : Option Nat} {wr : BitVec 32}
    (at_ : s.pc = .putting left) (publishing : s.bench.pc = .publishing wr)
    (flow : Flow blockSize (shownBench blockSize s.bench wr)) {pc : TxSessionPc}
    (counted : s.statBytes = BitVec.ofNat 64
      (s.bench.published + blockSize.toNat - prefillBytes blockSize - pc.uncounted blockSize))
    (placed : Placed blockSize { s with bench := shownBench blockSize s.bench wr, pc := pc }) :
    Streams blockSize mapSize
      { s with
        bench := shownBench blockSize s.bench wr
        ring := s.ring.clean fun place =>
          (maintained s.bench.dev (publish s.bench.dev wr)).any
            (covers s.bench.dev.priv.txbufPhys place)
        pc := pc } where
  flow := flow
  several := kept.several
  mapped := kept.mapped
  carried := by
    refine kept.carried.expose (Nat.le_add_right _ _) (Nat.le_of_eq (kept.calling at_).laid.symm) ?_
    exact block_written_back kept.flow kept.several (kept.flow.requested wr (Or.inr publishing))
  within := kept.within
  inOrder := kept.inOrder
  primed started := Nat.le_add_right_of_le (kept.primed started)
  counted := counted
  placed := placed

/-- The offset shown is the thread's. -/
theorem Streams.shown_wr (kept : Streams blockSize mapSize s) {left : Option Nat} {wr : BitVec 32}
    (at_ : s.pc = .putting left) (publishing : s.bench.pc = .publishing wr) : s.wr = wr := by
  rw [(kept.calling at_).wr]
  apply BitVec.eq_of_toNat_eq
  rw [kept.flow.next_call, kept.flow.requested wr (Or.inr publishing)]

/-- The session after the block of the call in progress has been shown. -/
def shownSession (blockSize : BitVec 32) (left : Option Nat) (s : TxSession) (wr : BitVec 32) :
    TxSession :=
  let shown :=
    { s with
      bench := shownBench blockSize s.bench wr
      ring := s.ring.clean fun place =>
        (maintained s.bench.dev (publish s.bench.dev wr)).any
          (covers s.bench.dev.priv.txbufPhys place) }
  match left with
  | some left => { shown with pc := .prefilling left }
  | none => { shown with pc := .counting }

/-- A step inside `write`: the block's call goes on, or shows the block and returns. -/
theorem Streams.put_step (kept : Streams blockSize mapSize s) {left : Option Nat}
    (at_ : s.pc = .putting left) :
    (∃ pc passedEqual marked,
      transmitWriter blockSize s.bench = { s.bench with pc := pc, passedEqual := passedEqual } ∧
        putStep blockSize left s =
          { s with
            bench := { s.bench with pc := pc, passedEqual := passedEqual }
            ring := s.ring.clean marked }) ∨
    ∃ wr, s.bench.pc = .publishing wr ∧
      transmitWriter blockSize s.bench = shownBench blockSize s.bench wr ∧
        putStep blockSize left s = shownSession blockSize left s wr := by
  have call : (⟨4, false, s.wr⟩ : WriteCall) = nextCall blockSize s.bench.dev := by
    rw [(kept.calling at_).wr]
    rfl
  have bench : follow blockSize s.bench
      (writeStep blockSize (nextCall blockSize s.bench.dev) s.bench.pc s.bench.dev) =
      transmitWriter blockSize s.bench := rfl
  unfold putStep
  rw [call]
  rcases put_cases kept.flow rfl with ⟨result, device, pc, passedEqual, moved⟩ |
    ⟨result, wr, device, publishing, moved⟩
  · refine Or.inl ⟨pc, passedEqual,
      fun place =>
        (maintained s.bench.dev s.bench.dev).any (covers s.bench.dev.priv.txbufPhys place),
      moved, ?_⟩
    simp only [bench, result, device, moved]
  · refine Or.inr ⟨wr, publishing, moved, ?_⟩
    simp only [bench, result, device, moved]
    cases left <;> rfl

/-- A step inside `write` keeps the stream. -/
theorem Streams.put (kept : Streams blockSize mapSize s) {left : Option Nat}
    (at_ : s.pc = .putting left) (read : BlockRead blockSize s.bench .writer) :
    Streams blockSize mapSize (putStep blockSize left s) := by
  have calling := kept.calling at_
  have flow := kept.flow.write kept.flow.writer_moves read
  have placed := kept.placed
  simp only [Placed, at_] at placed
  rcases kept.put_step at_ with ⟨pc, passedEqual, marked, moved, next⟩ |
    ⟨wr, publishing, moved, next⟩
  · rw [moved] at flow
    rw [next]
    exact kept.stay at_ flow marked
  · rw [moved] at flow
    rw [next]
    have apart : Apart .outside wr s.wr := ⟨rfl, kept.shown_wr at_ publishing⟩
    have even : Even blockSize s := kept.even (by rw [at_]; rfl)
    cases left with
    | some left =>
      have silent := placed.2
      refine kept.show at_ publishing flow ?_ ⟨apart, calling.laid, silent⟩
      have early : s.bench.published + blockSize.toNat ≤ prefillBytes blockSize := by
        have whole := silent.laid
        have laid := calling.laid
        omega
      rw [even, Nat.sub_eq_zero_of_le early, Nat.sub_eq_zero_of_le (by omega), Nat.zero_sub]
    | none =>
      have streaming := placed.2
      have shown := streaming.shown
      have later : Streaming blockSize (s.bench.published + blockSize.toNat) s.received s.laid :=
        ⟨streaming.laid, Nat.le_add_right_of_le shown⟩
      refine kept.show at_ publishing flow ?_
        ⟨apart, calling.laid, Nat.add_le_add_right shown _, later⟩
      have uncounted : s.bench.published + blockSize.toNat - prefillBytes blockSize -
          blockSize.toNat = s.bench.published - prefillBytes blockSize := by
        omega
      rw [TxSessionPc.uncounted, uncounted]
      exact even

/-- The block that has been shown is counted. -/
theorem Streams.count (kept : Streams blockSize mapSize s) (at_ : s.pc = .counting) :
    Streams blockSize mapSize
      { s with
        statBytes := s.statBytes + blockSize.setWidth 64
        pc := .receiving (begin blockSize.toNat) } := by
  have placed := kept.placed
  have counted := kept.counted
  simp only [Placed, at_] at placed
  obtain ⟨apart, laid, whole, streaming⟩ := placed
  rw [at_, TxSessionPc.uncounted] at counted
  refine { kept with counted := ?_, placed := ?_ }
  · have further : s.bench.published - prefillBytes blockSize =
        s.bench.published - prefillBytes blockSize - blockSize.toNat + blockSize.toNat := by
      omega
    have widened : blockSize.setWidth 64 = BitVec.ofNat 64 blockSize.toNat :=
      (BitVec.ofNat_toNat 64 blockSize).symm
    change s.statBytes + blockSize.setWidth 64 =
      BitVec.ofNat 64 (s.bench.published - prefillBytes blockSize)
    rw [further, BitVec.ofNat_add, counted, widened]
  · rw [begin, if_pos kept.flow.block]
    exact ⟨apart, laid, kept.flow.block, streaming⟩

/-- A step of ENABLE. Its last one lets the hardware transmit, with the whole prefill
shown. -/
theorem Streams.enable (kept : Streams blockSize mapSize s) {at_ : EnablePc} {pc : TxSessionPc}
    (even : Even blockSize s) (all : pc.uncounted blockSize = 0)
    (laid : s.laid = s.bench.published) (silent : Silent blockSize 0 s.received s.laid)
    (placed : Placed blockSize
      { s with bench := { s.bench with dev := (enableStep at_ s.bench.dev).2 }, pc := pc }) :
    Streams blockSize mapSize
      { s with bench := { s.bench with dev := (enableStep at_ s.bench.dev).2 }, pc := pc } := by
  obtain ⟨ctrl, rd, timer, blocks, same⟩ := enableStep_frame at_ s.bench.dev
  rw [same] at placed ⊢
  refine { kept with
    flow := { kept.flow with }, primed := ?_, counted := ?_, placed := placed }
  · intro _
    have whole := silent.laid
    change prefillBytes blockSize ≤ s.bench.published
    omega
  · rw [all, Nat.sub_zero]
    exact even

/-- Every step of the thread keeps the stream. -/
theorem Streams.thread (kept : Streams blockSize mapSize s)
    (rule : TxSessionRule blockSize s .thread) :
    Streams blockSize mapSize (sessionThread blockSize mapSize s) := by
  have placed := kept.placed
  unfold sessionThread
  cases at_ : s.pc with
  | prefilling left =>
    simp only [Placed, at_] at placed
    obtain ⟨apart, shown, silent⟩ := placed
    have even := kept.even (by rw [at_]; rfl)
    cases left with
    | zero =>
      have next : Placed blockSize { s with pc := .enabling .chooseCtrl } := ⟨apart, shown, silent⟩
      exact kept.enter even rfl next
    | succ left =>
      have cleared := kept.clear even apart shown silent
      exact cleared.enter even rfl cleared.placed
  | putting left => exact kept.put at_ (rule (by rw [at_]; rfl))
  | counting => exact kept.count at_
  | enabling place =>
    simp only [Placed, at_] at placed
    obtain ⟨apart, shown, silent⟩ := placed
    have all : (match (enableStep place s.bench.dev).1 with
        | .returned => TxSessionPc.receiving (begin blockSize.toNat)
        | next => .enabling next).uncounted blockSize = 0 := by
      cases (enableStep place s.bench.dev).1 <;> rfl
    refine kept.enable (kept.even (by rw [at_]; rfl)) all shown silent ?_
    obtain ⟨ctrl, rd, timer, blocks, same⟩ := enableStep_frame place s.bench.dev
    have streaming : Streaming blockSize s.bench.published s.received s.laid := by
      have whole := silent.laid
      refine ⟨?_, by omega⟩
      rw [silent.received, List.length_nil]
      omega
    rw [same]
    cases (enableStep place s.bench.dev).1 with
    | returned =>
      simp only [begin, if_pos kept.flow.block]
      exact ⟨apart, shown, kept.flow.block, streaming⟩
    | _ => exact ⟨apart, shown, silent⟩
  | receiving progress =>
    cases progress with
    | running done => exact kept
    | returned success =>
      have even := kept.even (by rw [at_]; rfl)
      cases success with
      | false => exact kept.leave even rfl trivial
      | true =>
        simp only [Placed, at_] at placed
        obtain ⟨apart, laid, streaming⟩ := placed
        have advanced : Streams blockSize mapSize
            { s with wr := (s.wr + blockSize) % mapSize, pc := .putting none } :=
          { kept with counted := even, placed := ⟨⟨kept.next_wr apart, laid⟩, streaming⟩ }
        exact advanced.enter even rfl advanced.placed
  | ended => exact kept

theorem Streams.step (kept : Streams blockSize mapSize s) (e : TxSessionEvent)
    (rule : TxSessionRule blockSize s e) :
    Streams blockSize mapSize (txSession blockSize mapSize s e) := by
  cases e with
  | thread => exact kept.thread rule
  | recv data =>
    refine kept.receive _ rfl ?_
    intro progress at_
    simpa only [TxSessionRule, Asked, at_] using rule
  | recvInterrupted => exact kept.receive _ rfl fun progress _ => by cases progress <;> trivial
  | recvFailed => exact kept.receive _ rfl fun progress _ => by cases progress <;> trivial
  | close => exact kept.close
  | writeBack place => exact kept.writeBack _
  | fetch => exact kept.fetch rule.1 rule.2
  | report bytes => exact kept.report rule

/-- Before the first block is cleared nothing has happened. -/
theorem streams_opened (d : Device) (ring : Cached (BitVec 8)) (block : 0 < blockSize.toNat)
    (several : 2 * blockSize.toNat ≤ d.priv.txbufSize.toNat)
    (whole : blockSize.toNat ∣ d.priv.txbufSize.toNat) :
    Streams blockSize d.priv.txbufSize (sessionOpened blockSize d ring) where
  flow := flow_opened _ block (by change 0 < d.priv.txbufSize.toNat; omega) whole
  several := several
  mapped := rfl
  carried := carries_nothing _ _ _
  within := Nat.zero_le _
  inOrder := List.nil_prefix
  primed := by
    rintro (on | started)
    · exact absurd on (by simp [TxSession.transmits, sessionOpened, openedBench])
    · exact absurd rfl started
  counted := by simp [sessionOpened, openedBench]
  placed := ⟨⟨rfl, rfl⟩, rfl, rfl, Nat.zero_add _⟩

/-- The hardware reads the silence of the prefill and behind it what the client has
sent, every byte once and in order. It reads nothing before the whole prefill has
been shown, is shown no more than has come, and `g_tx_stats` counts exactly the
client's share of what it has been shown, but for a block just shown.

Stores, write-backs and the cleaning of `write` interleave with the hardware's reads
in any order: the block being filled is none of those shown. -/
theorem session_in_order (call : MmapCall) (opened mapped : Device) (block : 0 < blockSize.toNat)
    (page : call.vmPgoff = 1) (several : 2 * blockSize.toNat ≤ call.size.toNat)
    (accepted : mmap blockSize call opened = .ok mapped) (ring : Cached (BitVec 8))
    (events : List TxSessionEvent)
    (follows : Follows (TxSessionRule blockSize) (txSession blockSize call.size)
      (sessionOpened blockSize mapped ring) events) :
    let session := run (txSession blockSize call.size) (sessionOpened blockSize mapped ring) events
    session.played <+: List.replicate (prefillBytes blockSize) 0 ++ session.received ∧
      (session.played ≠ [] → prefillBytes blockSize ≤ session.bench.published) ∧
      session.bench.published ≤ prefillBytes blockSize + session.received.length ∧
      session.statBytes = BitVec.ofNat 64
        (session.bench.published - prefillBytes blockSize - session.pc.uncounted blockSize) := by
  obtain ⟨whole, size⟩ := mmap_transmit_ring page accepted
  have initial : Streams blockSize call.size (sessionOpened blockSize mapped ring) := by
    rw [← size] at several whole ⊢
    exact streams_opened mapped ring block several whole
  have preserved : ∀ s e, Streams blockSize call.size s → TxSessionRule blockSize s e →
      Streams blockSize call.size (txSession blockSize call.size s e) :=
    fun _ e held rule => held.step e rule
  have kept := invariant preserved initial events follows
  refine ⟨kept.inOrder, fun started => kept.primed (Or.inr started), ?_, kept.counted⟩
  have shown := Nat.le_trans kept.carried.backed kept.within
  simpa only [outgoing, List.length_append, List.length_replicate] using shown

end Steps

/-- A ring of four blocks, each as long as the prefill. -/
def fourBlockMap : MmapCall := ⟨0x2000000, 1, true⟩

def fourBlocks : Device := mmapRegister fourBlockMap (mmapSize fourBlockMap (reserved 0x08000000))

/-- The prefill and ENABLE, two bytes of the client, and the first byte of silence. -/
def firstBytes : List TxSessionEvent :=
  List.replicate 11 .thread ++
    [.recv [1, 2], .recvInterrupted, .fetch, .writeBack 0x800000, .report 1, .close]

theorem session_in_order_started :
    let session := run (txSession 0x800000 fourBlockMap.size)
      (sessionOpened 0x800000 fourBlocks ⟨fun _ => 7, fun _ => 9⟩) firstBytes
    session.played <+: List.replicate (prefillBytes 0x800000) 0 ++ session.received ∧
      (session.played ≠ [] → prefillBytes 0x800000 ≤ session.bench.published) ∧
      session.bench.published ≤ prefillBytes 0x800000 + session.received.length ∧
      session.statBytes = BitVec.ofNat 64
        (session.bench.published - prefillBytes 0x800000 - session.pc.uncounted 0x800000) :=
  session_in_order fourBlockMap (reserved 0x08000000) fourBlocks (by decide) rfl (by decide) rfl
    ⟨fun _ => 7, fun _ => 9⟩ firstBytes (by decide +kernel)

end Zyndra.Ad9361Txrx
