import Zyndra.CacheRanges
import Zyndra.CachedRing
import Zyndra.RxIntact
import Zyndra.SessionStart
import Zyndra.Transfers

/-!
# A receive session, from the hardware's stores to the client's socket

`rx_tcp_session` asks the driver for one block after another, drops as many of them
as the prefill has, and sends every later one straight out of the mapped ring. The
mapping is cached: `read` invalidates the block it hands out, and the cache may load
any place at any time. The hardware goes on storing round the ring, ahead of the
pointer it shows.

The session starts once ENABLE has returned. The thread is a program counter over
the steps of `read` and of `tcp_send`; the hardware, the timer, the cache, the client
and the transmit thread's `driver_close` interleave with it.
-/

namespace Zyndra.Ad9361Txrx

open Runs Driver CachedRing SlotRing CyclicRing Transfers

/-- Where the session stands, with the blocks still to drop, or with the offset of
the block being sent; `recording` is behind `read`, before `g_rx_stats`. -/
inductive ReceivePc where
  | calling (drops : Nat)
  | reading (drops : Nat)
  | recording (drops : Nat) (r : RxRead)
  | sending (rd : BitVec 32) (progress : Progress)
  | ended

def ReceivePc.reads : ReceivePc → Bool
  | .reading _ => true
  | _ => false

/-- A block is being sent, or is to be sent next. -/
def ReceivePc.sends : ReceivePc → Bool
  | .recording drops _ => drops == 0
  | .sending _ _ => true
  | _ => false

/-- Lost bytes that `read` has returned and `g_rx_stats` has not added. -/
def ReceivePc.unrecorded : ReceivePc → BitVec 64
  | .recording _ r => r.lostBytes.setWidth 64
  | _ => 0

/-- The driver with its positions, the descriptor, the thread's place, the ring and
`g_rx_stats`. `stored` counts the bytes the hardware has put into memory, and `sent`
is what the client has got. -/
structure ReceiveSession where
  bench : RxBench
  fdOpen : Bool
  pc : ReceivePc
  ring : Cached (BitVec 8)
  statBytes : BitVec 64
  statOverrun : BitVec 64
  statUsed : BitVec 32
  stored : Nat
  sent : List (BitVec 8)

inductive ReceiveEvent where
  | thread
  | sent (bytes : Nat)
  | sendInterrupted
  | sendFailed
  | close
  | store (bytes : Nat)
  | report (bytes : Nat)
  | tick
  | load (place : Nat)
  deriving DecidableEq

/-- A place of the ring lies in a range given back to the processor. -/
def invalidates (phys : BitVec 32) (place : Nat) : DmaSync → Bool
  | .forCpu addr length =>
    decide ((addr - phys).toNat ≤ place ∧ place < (addr - phys).toNat + length.toNat)
  | .forDevice _ _ => false

/-- `ringbuf_used`. -/
def ringbufUsed (rd hwWr size : BitVec 32) : BitVec 32 := cyclicDistance size rd hwWr

section Thread

variable (blockSize rxBufSize : BitVec 32) (stream : Nat → BitVec 8)

/-- One step of `driver_rx_get_block`. -/
def getStep (drops : Nat) (s : ReceiveSession) : ReceiveSession :=
  let taken := readStep blockSize success s.bench.pc s.bench.dev
  let moved :=
    { s with
      bench := observeReader blockSize s.bench
      ring := s.ring.load fun place =>
        (taken.device.synced.drop s.bench.dev.synced.length).any
          (invalidates s.bench.dev.priv.rxbufPhys place) }
  match taken.result with
  | none => moved
  | some (.error _) => { moved with pc := .ended }
  | some (.ok r) => { moved with pc := .recording drops r }

/-- The statistics follow every block, dropped or not. -/
def record (drops : Nat) (r : RxRead) (s : ReceiveSession) : ReceiveSession :=
  { s with
    statUsed := ringbufUsed r.rd r.hwWr rxBufSize
    statOverrun := s.statOverrun + r.lostBytes.setWidth 64
    pc := match drops with
      | 0 => .sending r.rd (begin blockSize.toNat)
      | drops + 1 => .calling drops }

/-- One step of the thread outside `send`. -/
def receiveThread (s : ReceiveSession) : ReceiveSession :=
  match s.pc with
  | .calling drops => { s with pc := if s.fdOpen then .reading drops else .ended }
  | .reading drops => getStep blockSize drops s
  | .recording drops r => record blockSize rxBufSize drops r s
  | .sending _ (.running _) => s
  | .sending _ (.returned true) =>
    { s with statBytes := s.statBytes + blockSize.setWidth 64, pc := .calling 0 }
  | .sending _ (.returned false) => { s with pc := .ended }
  | .ended => s

/-- The outcome of one `send` of `tcp_send`, from `map + rd` and what is behind it. -/
def sendOut (outcome : Outcome) (s : ReceiveSession) : ReceiveSession :=
  match s.pc with
  | .sending rd (.running done) =>
    { s with
      pc := .sending rd (advance blockSize.toNat (.running done) outcome)
      sent := s.sent ++
        (List.range outcome.bytes).map fun k => s.ring.view (rd.toNat + done + k) }
  | _ => s

def receiveSession (s : ReceiveSession) : ReceiveEvent → ReceiveSession
  | .thread => receiveThread blockSize rxBufSize s
  | .sent bytes => sendOut blockSize (.moved bytes) s
  | .sendInterrupted => sendOut blockSize .interrupted s
  | .sendFailed => sendOut blockSize .failed s
  | .close => { s with fdOpen := false }
  | .store bytes =>
    { s with
      ring := { s.ring with memory := store s.bench.size stream s.ring.memory s.stored bytes }
      stored := s.stored + bytes }
  | .report bytes => { s with bench := observe blockSize s.bench (.hardware bytes) }
  | .tick => { s with bench := observe blockSize s.bench .tick }
  | .load place => { s with ring := s.ring.load fun other => other == place }

/-- A `send` takes at most what is left. -/
def Offered (bytes : Nat) : ReceivePc → Prop
  | .sending _ progress => Admits blockSize.toNat progress (.moved bytes)
  | _ => True

/-- What the driver's account needs of a step inside `read`: no counter overflows, the
snap finds its block announced, less than a ring is skipped, and the hardware has not
come round the block handed out. -/
structure InTime (s : ReceiveSession) : Prop where
  announced : SnapAnnounced blockSize s.bench .reader
  skipped : LagBelowRing blockSize s.bench .reader
  ahead : s.bench.pc.responds = true → s.stored ≤ s.bench.start + s.bench.size

/-- The hardware shows what it has stored, and does not come round the block that is
being sent or is sent next. -/
def ReceiveRule (s : ReceiveSession) : ReceiveEvent → Prop
  | .thread => s.pc.reads = true → InTime blockSize s
  | .sent bytes => Offered blockSize bytes s.pc
  | .store bytes => s.pc.sends = true →
      ∀ h ∈ s.bench.handed.head?, s.stored + bytes ≤ h.start + s.bench.size
  | .report bytes => s.bench.written + bytes ≤ s.stored
  | .tick => TickFits blockSize s.bench .tick
  | _ => True

instance (bytes : Nat) : (pc : ReceivePc) → Decidable (Offered blockSize bytes pc)
  | .sending _ _ => inferInstanceAs (Decidable (Admits _ _ _))
  | .calling _ => isTrue trivial
  | .reading _ => isTrue trivial
  | .recording _ _ => isTrue trivial
  | .ended => isTrue trivial

instance (s : ReceiveSession) : Decidable (InTime blockSize s) :=
  decidable_of_iff
    (SnapAnnounced blockSize s.bench .reader ∧ LagBelowRing blockSize s.bench .reader ∧
      (s.bench.pc.responds = true → s.stored ≤ s.bench.start + s.bench.size))
    ⟨fun ⟨announced, skipped, ahead⟩ => ⟨announced, skipped, ahead⟩,
      fun ⟨announced, skipped, ahead⟩ => ⟨announced, skipped, ahead⟩⟩

instance (s : ReceiveSession) : (e : ReceiveEvent) → Decidable (ReceiveRule blockSize s e)
  | .thread => inferInstanceAs (Decidable (_ → _))
  | .sent _ => inferInstanceAs (Decidable (Offered _ _ _))
  | .store _ => inferInstanceAs (Decidable (_ → ∀ h ∈ s.bench.handed.head?, _))
  | .report _ => inferInstanceAs (Decidable (_ ≤ _))
  | .tick => inferInstanceAs (Decidable (TickFits blockSize s.bench .tick))
  | .sendInterrupted => isTrue trivial
  | .sendFailed => isTrue trivial
  | .close => isTrue trivial
  | .load _ => isTrue trivial

/-- The session on return from ENABLE, with a mapped ring. -/
def receiveStarted (d : Device) (ring : Cached (BitVec 8)) : ReceiveSession where
  bench := enabledBench d
  fdOpen := true
  pc := .calling (prefillBlocks blockSize)
  ring := ring
  statBytes := 0
  statOverrun := 0
  statUsed := 0
  stored := 0
  sent := []

/-- The bytes of the block handed out. -/
def blockBytes (h : Handout) : List (BitVec 8) :=
  (List.range blockSize.toNat).map fun k => stream (h.place + k)

/-- What the blocks behind the dropped ones hold, in the order they were handed out. -/
def forwarded (handed : List Handout) : List (BitVec 8) :=
  (handed.reverse.drop (prefillBlocks blockSize)).flatMap (blockBytes blockSize stream)

end Thread

/-! ## What every step keeps -/

section Invariant

variable (blockSize : BitVec 32) (stream : Nat → BitVec 8)

/-- Between two blocks all that was to be sent has been. -/
structure Level (drops : Nat) (s : ReceiveSession) : Prop where
  enough : prefillBlocks blockSize ≤ s.bench.handed.length + drops
  dropping : 0 < drops → s.bench.handed.length + drops = prefillBlocks blockSize
  sent : s.sent = forwarded blockSize stream s.bench.handed
  counted : s.statBytes = BitVec.ofNat 64 s.sent.length

/-- A block is being sent: the cache shows it, and so much of it is out. -/
structure Sending (rd : BitVec 32) (done : Nat) (s : ReceiveSession) (h : Handout)
    (older : List Handout) : Prop where
  handed : s.bench.handed = h :: older
  behind : prefillBlocks blockSize ≤ older.length
  offset : rd.toNat = h.start % s.bench.size
  fits : h.start % s.bench.size + blockSize.toNat ≤ s.bench.size
  shown : Keeps s.bench.size stream s.ring.view h.start (h.start + blockSize.toNat)
  inside : s.stored ≤ h.start + s.bench.size
  sent : s.sent = forwarded blockSize stream older ++ (blockBytes blockSize stream h).take done
  counted : s.statBytes = BitVec.ofNat 64 (forwarded blockSize stream older).length

/-- What the client has got of the blocks, and what the statistics say. -/
structure Delivered (s : ReceiveSession) : Prop where
  sent : s.sent <+: forwarded blockSize stream s.bench.handed
  counted : ∃ whole, s.statBytes = BitVec.ofNat 64 whole ∧ whole ≤ s.sent.length ∧
    s.sent.length ≤ whole + blockSize.toNat

/-- What holds at each place of the thread. -/
def Standing (s : ReceiveSession) : Prop :=
  match s.pc with
  | .calling drops => Level blockSize stream drops s
  | .reading drops => Level blockSize stream drops s
  | .recording 0 r => ∃ h older, Sending blockSize stream r.rd 0 s h older
  | .recording (drops + 1) _ => Level blockSize stream drops s
  | .sending rd (.running done) =>
    done < blockSize.toNat ∧ ∃ h older, Sending blockSize stream rd done s h older
  | .sending rd (.returned true) => ∃ h older, Sending blockSize stream rd blockSize.toNat s h older
  | .sending _ (.returned false) => Delivered blockSize stream s
  | .ended => Delivered blockSize stream s

structure Forwards (s : ReceiveSession) : Prop where
  ledger : Ledger blockSize s.bench
  stands : Stands blockSize s.bench
  stored : s.bench.written ≤ s.stored
  ring : Holds s.bench.size stream s.ring.memory s.stored
  placed : ∀ h ∈ s.bench.handed, h.place = h.start ∧ h.start + blockSize.toNat ≤ s.stored
  counted : s.statOverrun + s.pc.unrecorded =
    BitVec.ofNat 64 (s.bench.handed.map Handout.lost).sum
  standing : Standing blockSize stream s

end Invariant

section Steps

variable {blockSize rxBufSize : BitVec 32} {stream : Nat → BitVec 8} {s : ReceiveSession}

/-- A step of `read` makes up a response or returns nothing yet. -/
theorem read_cases {b : RxBench} (held : Books blockSize b) :
    ((readStep blockSize success b.pc b.dev).result = none ∧ b.pc.responds = false) ∨
      ∃ lost, b.pc = .responding lost ∧ readStep blockSize success b.pc b.dev =
        ⟨.outside, advanceRd blockSize (invalidate blockSize (trackStats b.dev)),
          some (.ok ⟨b.dev.priv.rdPtr, b.dev.regs.rxBufWr, lost⟩)⟩ := by
  have isOpen := held.isOpen
  cases at_ : b.pc with
  | responding lost => exact Or.inr ⟨lost, rfl, rfl⟩
  | outside => exact Or.inl ⟨rfl, rfl⟩
  | waiting limit =>
    refine Or.inl ⟨?_, rfl⟩
    simp only [readStep, isOpen, Bool.or_false, Bool.false_eq_true, if_false]
    split <;> rfl
  | testing limit =>
    refine Or.inl ⟨?_, rfl⟩
    simp only [readStep]
    split <;> rfl
  | _ => exact Or.inl ⟨rfl, rfl⟩

/-- The response invalidates the whole block at the driver's offset. -/
theorem block_invalidated {d : Device} {position start size : Nat}
    (offset : d.priv.rdPtr.toNat = start % size) (fits : start % size + blockSize.toNat ≤ size)
    (after : start ≤ position) (before : position < start + blockSize.toNat) :
    ((advanceRd blockSize (invalidate blockSize (trackStats d))).synced.drop d.synced.length).any
      (invalidates d.priv.rxbufPhys (position % size)) = true := by
  have issued : (advanceRd blockSize (invalidate blockSize (trackStats d))).synced.drop
      d.synced.length = [.forCpu (d.priv.rxbufPhys + d.priv.rdPtr) blockSize] := List.drop_left
  have relative : d.priv.rxbufPhys + d.priv.rdPtr - d.priv.rxbufPhys = d.priv.rdPtr := by
    rw [BitVec.add_comm, BitVec.add_sub_cancel]
  obtain ⟨k, rfl⟩ := Nat.exists_eq_add_of_le after
  have place : (start + k) % size = start % size + k := place_ahead (by omega)
  rw [issued, List.any_cons, List.any_nil, Bool.or_false, invalidates, relative, offset, place,
    decide_eq_true_iff]
  omega

/-- One block more has been handed out and sent. -/
theorem forwarded_cons {h : Handout} {older : List Handout}
    (behind : prefillBlocks blockSize ≤ older.length) :
    forwarded blockSize stream (h :: older) =
      forwarded blockSize stream older ++ blockBytes blockSize stream h := by
  simp only [forwarded, List.reverse_cons]
  rw [List.drop_append_of_le_length (by rwa [List.length_reverse]), List.flatMap_append,
    List.flatMap_singleton]

/-- Nothing is sent of the blocks dropped. -/
theorem forwarded_dropped {handed : List Handout}
    (few : handed.length ≤ prefillBlocks blockSize) : forwarded blockSize stream handed = [] := by
  rw [forwarded, List.drop_eq_nil_of_le (by rwa [List.length_reverse]), List.flatMap_nil]

theorem blockBytes_length (h : Handout) :
    (blockBytes blockSize stream h).length = blockSize.toNat := by
  simp [blockBytes]

/-- A block stored holds the bytes of any stream that agrees so far. -/
theorem blockBytes_congr {later : Nat → BitVec 8} {stored : Nat} {h : Handout}
    (same : ∀ position < stored, later position = stream position)
    (complete : h.place + blockSize.toNat ≤ stored) :
    blockBytes blockSize later h = blockBytes blockSize stream h := by
  apply List.map_congr_left
  intro k member
  have below := List.mem_range.mp member
  exact same _ (by omega)

theorem forwarded_congr {later : Nat → BitVec 8} {stored : Nat} {handed : List Handout}
    (same : ∀ position < stored, later position = stream position)
    (complete : ∀ h ∈ handed, h.place + blockSize.toNat ≤ stored) :
    forwarded blockSize later handed = forwarded blockSize stream handed := by
  apply List.flatMap_congr
  intro h member
  exact blockBytes_congr same (complete h (List.mem_reverse.mp (List.mem_of_mem_drop member)))

/-- A step that hands out no block and sends nothing leaves the thread where it stands,
if it does not disturb the block being sent. The stream may go on in another way. -/
theorem Standing.update {later : ReceiveSession} {onward : Nat → BitVec 8}
    (standing : Standing blockSize stream s)
    (same : forwarded blockSize onward s.bench.handed = forwarded blockSize stream s.bench.handed)
    (pc : later.pc = s.pc) (handed : later.bench.handed = s.bench.handed)
    (sent : later.sent = s.sent) (stat : later.statBytes = s.statBytes)
    (sending : s.pc.sends = true → ∀ rd done h older,
      Sending blockSize stream rd done s h older → Sending blockSize onward rd done later h older) :
    Standing blockSize onward later := by
  have level : ∀ drops, Level blockSize stream drops s → Level blockSize onward drops later := by
    rintro drops ⟨enough, dropping, all, counted⟩
    exact ⟨by rwa [handed], by rwa [handed], by rwa [sent, handed, same], by rwa [stat, sent]⟩
  have delivered : Delivered blockSize stream s → Delivered blockSize onward later := by
    rintro ⟨some, counted⟩
    exact ⟨by rwa [sent, handed, same], by rwa [stat, sent]⟩
  unfold Standing at standing ⊢
  rw [pc]
  cases at_ : s.pc with
  | calling drops =>
    simp only [at_] at standing
    exact level drops standing
  | reading drops =>
    simp only [at_] at standing
    exact level drops standing
  | recording drops r =>
    cases drops with
    | zero =>
      simp only [at_] at standing sending
      obtain ⟨h, older, block⟩ := standing
      exact ⟨h, older, sending rfl r.rd 0 h older block⟩
    | succ drops =>
      simp only [at_] at standing
      exact level drops standing
  | sending rd progress =>
    simp only [at_] at standing sending
    have moves := sending rfl rd
    cases progress with
    | running done =>
      obtain ⟨below, h, older, block⟩ := standing
      exact ⟨below, h, older, moves _ _ _ block⟩
    | returned success =>
      cases success with
      | true =>
        obtain ⟨h, older, block⟩ := standing
        exact ⟨h, older, moves _ _ _ block⟩
      | false => exact delivered standing
  | ended =>
    simp only [at_] at standing
    exact delivered standing

theorem Forwards.close (kept : Forwards blockSize stream s) :
    Forwards blockSize stream { s with fdOpen := false } :=
  { kept with
    standing := kept.standing.update rfl rfl rfl rfl rfl fun _ _ _ _ _ block => { block with } }

/-- The hardware shows what it has stored. -/
theorem Forwards.report (kept : Forwards blockSize stream s) {bytes : Nat}
    (backed : s.bench.written + bytes ≤ s.stored) :
    Forwards blockSize stream
      { s with bench := observe blockSize s.bench (.hardware bytes) } where
  ledger := kept.ledger.observe (.hardware bytes) trivial trivial
  stands := kept.stands.observe kept.ledger.books (.hardware bytes) trivial
  stored := backed
  ring := kept.ring
  placed := kept.placed
  counted := kept.counted
  standing := kept.standing.update rfl rfl rfl rfl rfl fun _ _ _ _ _ block => { block with }

theorem Forwards.tick (kept : Forwards blockSize stream s)
    (fits : TickFits blockSize s.bench .tick) :
    Forwards blockSize stream { s with bench := observe blockSize s.bench .tick } := by
  have size : (observe blockSize s.bench .tick).size = s.bench.size := tick_size s.bench
  refine
    { ledger := kept.ledger.observe .tick fits trivial
      stands := kept.stands.observe kept.ledger.books .tick trivial
      stored := kept.stored
      ring := ?_
      placed := kept.placed
      counted := kept.counted
      standing := kept.standing.update rfl rfl rfl rfl rfl ?_ }
  · rw [size]
    exact kept.ring
  · intro _ rd done h older block
    refine { block with offset := ?_, fits := ?_, shown := ?_, inside := ?_ }
    · rw [size]
      exact block.offset
    · rw [size]
      exact block.fits
    · rw [size]
      exact block.shown
    · rw [size]
      exact block.inside

/-- What the cache loads by itself is what is there already. -/
theorem Forwards.load (kept : Forwards blockSize stream s) (marked : Nat → Bool) :
    Forwards blockSize stream { s with ring := s.ring.load marked } := by
  refine { kept with standing := kept.standing.update rfl rfl rfl rfl rfl ?_ }
  intro _ rd done h older block
  have complete := (kept.placed h (block.handed ▸ List.mem_cons_self)).2
  exact { block with shown := loaded_again kept.ring complete block.inside block.shown marked }

/-- The memory holds more of the stream, ahead of the block being sent. What it does not
hold yet may come in another way. -/
theorem Forwards.fill (kept : Forwards blockSize stream s) {onward memory : Nat → BitVec 8}
    {stored : Nat} (same : ∀ position < s.stored, onward position = stream position)
    (more : s.stored ≤ stored) (held : Holds s.bench.size onward memory stored)
    (ahead : s.pc.sends = true → ∀ h ∈ s.bench.handed.head?, stored ≤ h.start + s.bench.size) :
    Forwards blockSize onward
      { s with ring := { s.ring with memory := memory }, stored := stored } := by
  have complete : ∀ h ∈ s.bench.handed, h.place + blockSize.toNat ≤ s.stored := by
    intro h member
    rw [(kept.placed h member).1]
    exact (kept.placed h member).2
  refine
    { ledger := kept.ledger
      stands := kept.stands
      stored := Nat.le_trans kept.stored more
      ring := held
      placed := fun h member =>
        ⟨(kept.placed h member).1, Nat.le_trans (kept.placed h member).2 more⟩
      counted := kept.counted
      standing := kept.standing.update (forwarded_congr same complete) rfl rfl rfl rfl ?_ }
  intro sends rd done h older block
  have member : h ∈ s.bench.handed := block.handed ▸ List.mem_cons_self
  have before : forwarded blockSize onward older = forwarded blockSize stream older :=
    forwarded_congr same fun other older =>
      complete other (block.handed ▸ List.mem_cons_of_mem _ older)
  refine { block with shown := ?_, inside := ?_, sent := ?_, counted := ?_ }
  · intro position after below
    rw [same position (Nat.lt_of_lt_of_le below (kept.placed h member).2)]
    exact block.shown position after below
  · exact ahead sends h (by rw [block.handed]; rfl)
  · rw [before, blockBytes_congr same (complete h member)]
    exact block.sent
  · rw [before]
    exact block.counted

/-- Stores ahead of the block being sent. -/
theorem Forwards.store (kept : Forwards blockSize stream s) {bytes : Nat}
    (rule : ReceiveRule blockSize s (.store bytes)) :
    Forwards blockSize stream
      { s with
        ring := { s.ring with
          memory := CyclicRing.store s.bench.size stream s.ring.memory s.stored bytes }
        stored := s.stored + bytes } :=
  kept.fill (fun _ _ => rfl) (Nat.le_add_right _ _) (kept.ring.store bytes) rule

/-- The reader leaves the hardware's position. -/
theorem reader_written {b b' : RxBench} (moved : ReaderMoves blockSize b b') :
    b'.written = b.written := by
  cases moved <;> rfl

/-- What is true of the block handed out: it is the copy it was taken for, complete, and
at the driver's offset. -/
structure HandsOut (blockSize : BitVec 32) (b : RxBench) (lost : BitVec 32) : Prop where
  place : (b.handout blockSize lost).place = b.start
  complete : b.start + blockSize.toNat ≤ b.written
  offset : b.dev.priv.rdPtr.toNat = b.start % b.size
  fits : b.start % b.size + blockSize.toNat ≤ b.size

/-- A response in time hands out the block on the account, which is whole in memory. -/
theorem Forwards.hands_out (kept : Forwards blockSize stream s) {lost : BitVec 32}
    (at_ : s.bench.pc = .responding lost) (ahead : s.stored ≤ s.bench.start + s.bench.size) :
    HandsOut blockSize s.bench lost := by
  have books := kept.ledger.books
  obtain ⟨announced, _⟩ := kept.stands.chosen (by simp [at_, ReadPc.chosen])
  have complete : s.bench.start + blockSize.toNat ≤ s.bench.written :=
    Nat.le_trans announced books.behind
  obtain ⟨rings, laps⟩ := kept.stands.laps
  have offset : s.bench.dev.priv.rdPtr.toNat = s.bench.start % s.bench.size := by
    rw [books.readerAt, laps, Nat.add_mul_mod_self_right]
  have whole : blockSize.toNat ∣ s.bench.size := books.ring.whole
  refine ⟨?_, complete, offset, ?_⟩
  · have stored := kept.stored
    have block := books.ring.block
    apply (latestCopy_eq_iff books.ring.positive offset complete).mpr
    change s.bench.written < s.bench.start + s.bench.size + _
    omega
  · rw [← offset]
    refine step_fits whole ?_ ?_
    · rw [books.readerAt]
      exact offset_aligned whole books.accountedBlocks
    · rw [offset]
      exact Nat.mod_lt _ books.ring.positive

/-- All that `read` has returned is in the statistics. -/
theorem Forwards.recorded (kept : Forwards blockSize stream s) (none : s.pc.unrecorded = 0) :
    s.statOverrun = BitVec.ofNat 64 (s.bench.handed.map Handout.lost).sum := by
  have counted := kept.counted
  rw [none] at counted
  exact (BitVec.add_zero _).symm.trans counted

/-- Between two places with nothing to record the thread sends, and counts what it sent. -/
theorem Forwards.move (kept : Forwards blockSize stream s) (none : s.pc.unrecorded = 0)
    {pc : ReceivePc} {sent : List (BitVec 8)} {statBytes : BitVec 64} (still : pc.unrecorded = 0)
    (standing :
      Standing blockSize stream { s with pc := pc, sent := sent, statBytes := statBytes }) :
    Forwards blockSize stream { s with pc := pc, sent := sent, statBytes := statBytes } := by
  refine { kept with counted := ?_, standing := standing }
  change s.statOverrun + pc.unrecorded = _
  rw [still]
  exact (BitVec.add_zero _).trans (kept.recorded none)

/-- A step of `driver_rx_get_block` in time. -/
theorem Forwards.get (kept : Forwards blockSize stream s) {drops : Nat}
    (at_ : s.pc = .reading drops) (inTime : InTime blockSize s) :
    Forwards blockSize stream (getStep blockSize drops s) := by
  have recorded := kept.recorded (by rw [at_]; rfl)
  have books := kept.ledger.books
  have moved := books.reader_moves
  have size := moved.size
  have written := reader_written moved
  have ledger : Ledger blockSize (observeReader blockSize s.bench) :=
    kept.ledger.observe .reader trivial inTime.skipped
  have stands : Stands blockSize (observeReader blockSize s.bench) :=
    kept.stands.observe books .reader inTime.announced
  have level := kept.standing
  simp only [Standing, at_] at level
  rcases read_cases books with ⟨result, silent⟩ | ⟨lost, responding, taken⟩
  · have handed : (observeReader blockSize s.bench).handed = s.bench.handed :=
      observeReader_silent silent
    simp only [getStep, result]
    refine
      { ledger := ledger
        stands := stands
        stored := written.symm ▸ kept.stored
        ring := by rw [size]; exact kept.ring
        placed := by rw [handed]; exact kept.placed
        counted := by rw [handed]; exact kept.counted
        standing := kept.standing.update rfl rfl handed rfl rfl ?_ }
    intro sends
    exact absurd sends (by simp [at_, ReceivePc.sends])
  · have handed : (observeReader blockSize s.bench).handed =
        s.bench.handout blockSize lost :: s.bench.handed := observeReader_response responding
    have ahead := inTime.ahead (by rw [responding]; rfl)
    have block := kept.hands_out responding ahead
    simp only [getStep, taken]
    refine
      { ledger := ledger
        stands := stands
        stored := written.symm ▸ kept.stored
        ring := by rw [size]; exact kept.ring
        placed := ?_
        counted := ?_
        standing := ?_ }
    · rw [handed]
      intro h member
      rcases List.mem_cons.mp member with rfl | earlier
      · exact ⟨block.place, Nat.le_trans block.complete kept.stored⟩
      · exact kept.placed h earlier
    · have widened : lost.setWidth 64 = BitVec.ofNat 64 lost.toNat :=
        (BitVec.ofNat_toNat 64 lost).symm
      rw [handed, List.map_cons, List.sum_cons, Nat.add_comm, BitVec.ofNat_add, ← recorded]
      exact congrArg (s.statOverrun + ·) widened
    · cases drops with
      | zero =>
        refine ⟨_, _, handed, level.enough, ?_, ?_, ?_, ?_, ?_, ?_⟩
        · rw [size]
          exact block.offset
        · rw [size]
          exact block.fits
        · rw [size]
          exact loaded kept.ring (Nat.le_trans block.complete kept.stored) ahead
            fun position after before => block_invalidated block.offset block.fits after before
        · rw [size]
          exact ahead
        · rw [List.take_zero, List.append_nil]
          exact level.sent
        · rw [← level.sent]
          exact level.counted
      | succ drops =>
        have few := level.dropping (Nat.succ_pos drops)
        have none : s.sent = [] := level.sent.trans (forwarded_dropped (by omega))
        have length : (observeReader blockSize s.bench).handed.length =
            s.bench.handed.length + 1 := by rw [handed, List.length_cons]
        refine ⟨?_, ?_, ?_, level.counted⟩
        · change prefillBlocks blockSize ≤ (observeReader blockSize s.bench).handed.length + drops
          omega
        · intro _
          change (observeReader blockSize s.bench).handed.length + drops = _
          omega
        · refine none.trans (forwarded_dropped ?_).symm
          change (observeReader blockSize s.bench).handed.length ≤ _
          omega

/-- The block is on the statistics, and is sent next or dropped. -/
theorem Forwards.record (kept : Forwards blockSize stream s) {drops : Nat} {r : RxRead}
    (at_ : s.pc = .recording drops r) :
    Forwards blockSize stream (Ad9361Txrx.record blockSize rxBufSize drops r s) := by
  have counted := kept.counted
  have standing := kept.standing
  simp only [at_, ReceivePc.unrecorded] at counted
  cases drops with
  | zero =>
    simp only [Standing, at_] at standing
    obtain ⟨h, older, block⟩ := standing
    have some := kept.ledger.books.ring.block
    have begun : begin blockSize.toNat = .running 0 := if_pos some
    refine { kept with counted := (BitVec.add_zero _).trans counted, standing := ?_ }
    simp only [Ad9361Txrx.record, begun]
    exact ⟨some, h, older, { block with }⟩
  | succ drops =>
    simp only [Standing, at_] at standing
    exact
      { kept with
        counted := (BitVec.add_zero _).trans counted
        standing := { standing with } }

/-- The client gets the bytes the cache shows of the block. -/
theorem Sending.more {rd : BitVec 32} {done : Nat} {h : Handout} {older : List Handout}
    (block : Sending blockSize stream rd done s h older) (place : h.place = h.start)
    {bytes : Nat} (within : done + bytes ≤ blockSize.toNat) :
    s.sent ++ ((List.range bytes).map fun k => s.ring.view (rd.toNat + done + k)) =
      forwarded blockSize stream older ++
        (blockBytes blockSize stream h).take (done + bytes) := by
  have next : (List.range bytes).map (fun k => s.ring.view (rd.toNat + done + k)) =
      ((blockBytes blockSize stream h).drop done).take bytes := by
    apply List.ext_getElem
    · simp only [List.length_map, List.length_range, List.length_take, List.length_drop,
        blockBytes_length]
      omega
    · intro k below _
      rw [List.length_map, List.length_range] at below
      have inside : (h.start + (done + k)) % s.bench.size = h.start % s.bench.size + (done + k) :=
        place_ahead (by have := block.fits; omega)
      have seen := block.shown (h.start + (done + k)) (by omega) (by omega)
      rw [inside] at seen
      simp only [List.getElem_map, List.getElem_range, List.getElem_take, List.getElem_drop,
        blockBytes, block.offset, place, Nat.add_assoc]
      exact seen
  rw [block.sent, List.append_assoc, next, List.take_add]

/-- A block given up on has been sent in part. -/
theorem Sending.delivered {rd : BitVec 32} {done : Nat} {h : Handout} {older : List Handout}
    (block : Sending blockSize stream rd done s h older) (inside : done ≤ blockSize.toNat) :
    Delivered blockSize stream s := by
  have taken : ((blockBytes blockSize stream h).take done).length = done := by
    rw [List.length_take, blockBytes_length, Nat.min_eq_left inside]
  refine ⟨?_, (forwarded blockSize stream older).length, block.counted, ?_, ?_⟩
  · rw [block.sent, block.handed, forwarded_cons block.behind]
    exact (List.prefix_append_right_inj _).mpr (List.take_prefix _ _)
  · rw [block.sent, List.length_append]
    exact Nat.le_add_right _ _
  · rw [block.sent, List.length_append, taken]
    omega

/-- One outcome of `send`: more of the block is out, all of it, or the session fails. -/
theorem Forwards.send (kept : Forwards blockSize stream s) (outcome : Outcome)
    (admits : ∀ rd progress, s.pc = .sending rd progress →
      Admits blockSize.toNat progress outcome) :
    Forwards blockSize stream (sendOut blockSize outcome s) := by
  have standing := kept.standing
  cases at_ : s.pc with
  | sending rd progress =>
    cases progress with
    | running done =>
      simp only [Standing, at_] at standing
      obtain ⟨below, h, older, block⟩ := standing
      have member : h ∈ s.bench.handed := block.handed ▸ List.mem_cons_self
      have advanced := advance_running below (admits _ _ at_)
      have within : done + outcome.bytes ≤ blockSize.toNat := by
        rcases advanced with ⟨_, inside⟩ | ⟨_, whole⟩ | ⟨_, none⟩ <;> omega
      have more := block.more (kept.placed h member).1 within
      simp only [sendOut, at_]
      refine kept.move (by rw [at_]; rfl) rfl ?_
      rcases advanced with ⟨next, inside⟩ | ⟨next, whole⟩ | ⟨next, none⟩
      · rw [next]
        exact ⟨inside, h, older, { block with sent := more }⟩
      · rw [next]
        rw [whole] at more
        exact ⟨h, older, { block with sent := more }⟩
      · rw [next]
        have given : Sending blockSize stream rd (done + outcome.bytes)
            { s with
              sent := s.sent ++
                (List.range outcome.bytes).map fun k => s.ring.view (rd.toNat + done + k) }
            h older := { block with sent := more }
        exact { given.delivered within with }
    | returned success => simpa only [sendOut, at_] using kept
  | _ => simpa only [sendOut, at_] using kept

/-- A session that ends between two blocks has sent all it was to send. -/
theorem Level.delivered {drops : Nat} (level : Level blockSize stream drops s) :
    Delivered blockSize stream s :=
  ⟨level.sent ▸ List.prefix_refl _, s.sent.length, level.counted, Nat.le_refl _,
    Nat.le_add_right _ _⟩

/-- With the block sent as a whole the session is level again. -/
theorem Sending.complete {rd : BitVec 32} {h : Handout} {older : List Handout}
    (block : Sending blockSize stream rd blockSize.toNat s h older) :
    Level blockSize stream 0
      { s with statBytes := s.statBytes + blockSize.setWidth 64, pc := .calling 0 } := by
  have whole : s.sent = forwarded blockSize stream older ++ blockBytes blockSize stream h := by
    rw [block.sent, List.take_of_length_le (Nat.le_of_eq (blockBytes_length h))]
  have widened : blockSize.setWidth 64 = BitVec.ofNat 64 blockSize.toNat :=
    (BitVec.ofNat_toNat 64 blockSize).symm
  refine ⟨?_, fun more => absurd more (Nat.lt_irrefl 0), ?_, ?_⟩
  · change prefillBlocks blockSize ≤ s.bench.handed.length
    rw [block.handed]
    exact Nat.le_succ_of_le block.behind
  · change s.sent = forwarded blockSize stream s.bench.handed
    rw [whole, block.handed, forwarded_cons block.behind]
  · change s.statBytes + blockSize.setWidth 64 = BitVec.ofNat 64 s.sent.length
    rw [whole, List.length_append, blockBytes_length, BitVec.ofNat_add, block.counted, widened]

/-- Every step of the thread in time keeps the client's bytes those of the blocks. -/
theorem Forwards.thread (kept : Forwards blockSize stream s)
    (rule : ReceiveRule blockSize s .thread) :
    Forwards blockSize stream (receiveThread blockSize rxBufSize s) := by
  have standing := kept.standing
  unfold receiveThread
  cases at_ : s.pc with
  | calling drops =>
    simp only [Standing, at_] at standing
    dsimp only
    by_cases opened : s.fdOpen = true
    · rw [if_pos opened]
      exact kept.move (by rw [at_]; rfl) rfl { standing with }
    · rw [if_neg opened]
      exact kept.move (by rw [at_]; rfl) rfl { standing.delivered with }
  | reading drops => exact kept.get at_ (rule (by rw [at_]; rfl))
  | recording drops r => exact kept.record at_
  | sending rd progress =>
    cases progress with
    | running done => exact kept
    | returned success =>
      cases success with
      | false =>
        simp only [Standing, at_] at standing
        exact kept.move (by rw [at_]; rfl) rfl { standing with }
      | true =>
        simp only [Standing, at_] at standing
        obtain ⟨h, older, block⟩ := standing
        exact kept.move (by rw [at_]; rfl) rfl block.complete
  | ended => exact kept

theorem Forwards.step (kept : Forwards blockSize stream s) (e : ReceiveEvent)
    (rule : ReceiveRule blockSize s e) :
    Forwards blockSize stream (receiveSession blockSize rxBufSize stream s e) := by
  cases e with
  | thread => exact kept.thread rule
  | sent bytes =>
    refine kept.send _ ?_
    intro rd progress at_
    simpa only [ReceiveRule, Offered, at_] using rule
  | sendInterrupted => exact kept.send _ fun _ progress _ => by cases progress <;> trivial
  | sendFailed => exact kept.send _ fun _ progress _ => by cases progress <;> trivial
  | close => exact kept.close
  | store bytes => exact kept.store rule
  | report bytes => exact kept.report rule
  | tick => exact kept.tick rule
  | load place => exact kept.load _

/-- Wherever the session stands, what has been sent is a prefix of what was to be. -/
theorem Forwards.delivered (kept : Forwards blockSize stream s) : Delivered blockSize stream s := by
  have standing := kept.standing
  cases at_ : s.pc with
  | calling drops =>
    simp only [Standing, at_] at standing
    exact standing.delivered
  | reading drops =>
    simp only [Standing, at_] at standing
    exact standing.delivered
  | recording drops r =>
    cases drops with
    | zero =>
      simp only [Standing, at_] at standing
      obtain ⟨h, older, block⟩ := standing
      exact block.delivered (Nat.zero_le _)
    | succ drops =>
      simp only [Standing, at_] at standing
      exact standing.delivered
  | sending rd progress =>
    cases progress with
    | running done =>
      simp only [Standing, at_] at standing
      obtain ⟨below, h, older, block⟩ := standing
      exact block.delivered (Nat.le_of_lt below)
    | returned success =>
      cases success with
      | true =>
        simp only [Standing, at_] at standing
        obtain ⟨h, older, block⟩ := standing
        exact block.delivered (Nat.le_refl _)
      | false =>
        simp only [Standing, at_] at standing
        exact standing
  | ended =>
    simp only [Standing, at_] at standing
    exact standing

theorem forwards_started (d : Device) (ring : BlockRing blockSize d.priv.rxbufSize)
    (cached : Cached (BitVec 8)) :
    Forwards blockSize stream (receiveStarted blockSize d cached) where
  ledger := ledger_enabled d ring
  stands := (intact_enabled d ring).stands
  stored := Nat.le_refl 0
  ring _ before := absurd before (Nat.not_lt_zero _)
  placed _ member := absurd member List.not_mem_nil
  counted := rfl
  standing := ⟨Nat.le_of_eq (Nat.zero_add _).symm, fun _ => Nat.zero_add _,
    (forwarded_dropped (Nat.zero_le _)).symm, rfl⟩

/-- The client gets the blocks behind the dropped ones as the hardware stored them, in
order and from their first byte on, with nothing between two blocks but the bytes
reported lost; `g_rx_stats` adds up the lost bytes of all blocks, but for a block just
returned, and, but for a block just sent, the bytes sent.

The hardware's stores, its reports, the timer, loads of the cache and partial sends
interleave in any order, as long as the hardware comes round no block between its
response and its last byte, less than a ring is skipped, and no counter overflows. -/
theorem forwarded_in_order (d : Device) (ring : BlockRing blockSize d.priv.rxbufSize)
    (rxBufSize : BitVec 32) (stream : Nat → BitVec 8) (cached : Cached (BitVec 8))
    (events : List ReceiveEvent)
    (follows : Follows (ReceiveRule blockSize) (receiveSession blockSize rxBufSize stream)
      (receiveStarted blockSize d cached) events) :
    let session := run (receiveSession blockSize rxBufSize stream)
      (receiveStarted blockSize d cached) events
    session.sent <+: forwarded blockSize stream session.bench.handed ∧
      Exact blockSize.toNat session.bench.handed ∧
      session.statOverrun + session.pc.unrecorded =
        BitVec.ofNat 64 (session.bench.handed.map Handout.lost).sum ∧
      ∃ whole, session.statBytes = BitVec.ofNat 64 whole ∧ whole ≤ session.sent.length ∧
        session.sent.length ≤ whole + blockSize.toNat := by
  have preserved : ∀ s e, Forwards blockSize stream s → ReceiveRule blockSize s e →
      Forwards blockSize stream (receiveSession blockSize rxBufSize stream s e) :=
    fun _ e held rule => held.step e rule
  have kept := invariant preserved (forwards_started d ring cached) events follows
  have delivered := kept.delivered
  exact ⟨delivered.sent, kept.ledger.accounted.exact, kept.counted, delivered.counted⟩

end Steps

/-- A ring of four blocks, each as long as the prefill. The hardware stores two of them,
the first is dropped, and three bytes of the second are sent. -/
def secondBlock : List ReceiveEvent :=
  [.store 0x1000000, .report 0x1000000, .tick] ++ List.replicate 14 .thread ++
    [.sent 3, .load 0, .sendInterrupted, .close]

theorem forwarded_in_order_second :
    let session := run (receiveSession 0x800000 0x2000000 fun position => BitVec.ofNat 8 position)
      (receiveStarted 0x800000 (mapped 0x2000000) ⟨fun _ => 7, fun _ => 9⟩) secondBlock
    session.sent <+:
        forwarded 0x800000 (fun position => BitVec.ofNat 8 position) session.bench.handed ∧
      Exact (0x800000 : BitVec 32).toNat session.bench.handed ∧
      session.statOverrun + session.pc.unrecorded =
        BitVec.ofNat 64 (session.bench.handed.map Handout.lost).sum ∧
      ∃ whole, session.statBytes = BitVec.ofNat 64 whole ∧ whole ≤ session.sent.length ∧
        session.sent.length ≤ whole + (0x800000 : BitVec 32).toNat :=
  forwarded_in_order (mapped 0x2000000) ⟨by decide, by decide, by decide, by decide⟩ 0x2000000
    (fun position => BitVec.ofNat 8 position) ⟨fun _ => 7, fun _ => 9⟩ secondBlock
    (by decide +kernel)

end Zyndra.Ad9361Txrx
