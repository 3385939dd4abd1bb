import Zyndra.ReadMemory
import Zyndra.TxWords

/-!
# The transmit path from memory to the link

Software lays words round the ring, the reader fetches them and sends their halves
into the transmit FIFO, and the sample side takes one word for each slot. The FIFO
crosses two unrelated clocks: a word sent shows on the other side at any later clock.
Whatever the interleaving, the words taken for the slots are the halves of the words
laid, in order.
-/

namespace Zyndra.Ad936xAxi

open AxiMasterRd Runs

/-- The reader with memory and software, the words on their way through the FIFO, and
the sample side. -/
structure Player where
  memory : MemoryBench (List (BitVec 64))
  crossing : List (BitVec 32)
  path : TxPath

/-- Something on the side of the engine, or a clock of the samples on which so many words
show at the read side of the FIFO. -/
inductive PlayerEvent where
  | engine (e : MemoryEvent)
  | iqClock (sTxEnable : Bool) (arrivals : Nat)

section Player

variable (g : Generics)

/-- The word the reader sends on an event, when it sends one. -/
def sentOn (m : MemoryBench (List (BitVec 64))) : MemoryEvent → List (BitVec 32)
  | .clock c => AxiMasterRd.sentWord (g := g) m.ring.bench.dut c.inputs
  | _ => []

def Player.step (p : Player) : PlayerEvent → Player
  | .engine e =>
    { p with
      memory := play g (idealFifo g) p.memory e
      crossing := p.crossing ++ sentOn g p.memory e }
  | .iqClock sTxEnable arrivals =>
    { p with
      crossing := p.crossing.drop arrivals
      path := transmit p.path ⟨sTxEnable, p.crossing.take arrivals⟩ }

def PlayerRule (p : Player) : PlayerEvent → Prop
  | .engine e => ReadMemoryRule g (idealFifo g) p.memory e
  | .iqClock _ _ => True

instance (p : Player) : (e : PlayerEvent) → Decidable (PlayerRule g p e)
  | .engine _ => inferInstanceAs (Decidable (ReadMemoryRule _ _ _ _))
  | .iqClock _ _ => isTrue trivial

/-- Out of reset, with the sample side configured and nothing in the FIFO. -/
def playerStart (memory : Nat → BitVec 64) (tx : Ad936xTxrx.TxRegs) : Player :=
  ⟨memoryStart [] memory, [], configuredPath tx⟩

/-- What the parts keep: the words the reader has sent are those that have arrived and
those on their way. -/
structure Transmits (p : Player) : Prop where
  plays : Plays g p.memory
  buffered : Buffered g p.memory.ring.bench
  sending : Sending p.path
  crossed : p.path.arrived ++ p.crossing = p.memory.ring.bench.words

variable {g} {p : Player}

/-- On the side of the engine words only leave the reader on its clocks. -/
theorem sentOn_words (m : MemoryBench (List (BitVec 64))) (e : MemoryEvent) :
    (play g (idealFifo g) m e).ring.bench.words = m.ring.bench.words ++ sentOn g m e := by
  cases e with
  | clock c => rfl
  | _ => exact (List.append_nil _).symm

theorem Transmits.step (held : Transmits g p) {e : PlayerEvent} (rule : PlayerRule g p e) :
    Transmits g (p.step g e) := by
  cases e with
  | engine e =>
    refine ⟨held.plays.play (idealFifo g) rule, ?_, held.sending, ?_⟩
    · cases e with
      | clock c => exact held.buffered.observe c.inputs rule.1.1
      | _ => exact held.buffered
    · change p.path.arrived ++ (p.crossing ++ sentOn g p.memory e) =
        (play g (idealFifo g) p.memory e).ring.bench.words
      rw [sentOn_words, ← held.crossed, List.append_assoc]
  | iqClock sTxEnable arrivals =>
    refine ⟨held.plays, held.buffered, held.sending.transmit _, ?_⟩
    change p.path.arrived ++ p.crossing.take arrivals ++ p.crossing.drop arrivals = _
    rw [List.append_assoc, List.take_append_drop]
    exact held.crossed

end Player

/-- In every run of the transmit path in which a burst chained on a last beat is published,
whatever the interleaving of the clocks, of the slave and of software: the words taken
for the slots, sent or discarded, are the first halves of the words laid in memory, in
order, none lost, repeated or changed; and the link shows each slot as `SentOnce` says. -/
theorem memory_to_link (g : Generics) (memory : Nat → BitVec 64) (underrun : Bool)
    (dataRise dataFall : BitVec 6) (frameRise frameFall : Ad936xTxrx.StdLogic)
    (events : List PlayerEvent)
    (follows : Follows (PlayerRule g) (Player.step g)
      (playerStart memory
        (Ad936xTxrx.configuredTx underrun dataRise dataFall frameRise frameFall)) events) :
    let p := run (Player.step g)
      (playerStart memory
        (Ad936xTxrx.configuredTx underrun dataRise dataFall frameRise frameFall)) events
    p.path.slots.filterMap WordSlot.popped <+:
      (p.memory.earlier ++ (List.range p.memory.taken.length).map p.memory.session.stream).flatMap
        halves ∧
    SentOnce p.path := by
  intro p
  have held : Transmits g p :=
    invariant (fun _ _ held rule => held.step rule)
      ⟨memoryStart_plays [] memory, buffered_reset g, ⟨rfl, rfl, rfl, rfl, rfl, rfl⟩, rfl⟩ events
      follows
  refine ⟨?_, held.sending.sentOnce⟩
  have stream := held.buffered.conserves.stream
  rw [← held.plays.beats, ← held.plays.all, ← stream, ← held.crossed, ← held.sending.queue,
    ← held.sending.words]
  simp only [List.append_assoc]
  exact List.prefix_append _ _

/-- A burst from memory, and three slots: one before a word has arrived, two after. -/
def threeSlots : List PlayerEvent :=
  playedBurst.map .engine ++
    [.iqClock true 0, .iqClock true 2, .iqClock true 0, .iqClock true 0, .iqClock true 0]

theorem memory_to_link_slots :
    let p := run (Player.step .ad936xAxi)
      (playerStart (fun _ => 0) (Ad936xTxrx.configuredTx false 0 0 .other .other)) threeSlots
    p.path.slots = [.repeated, .word 0, .word 0] ∧
      p.path.slots.filterMap WordSlot.popped <+:
        (p.memory.earlier ++
          (List.range p.memory.taken.length).map p.memory.session.stream).flatMap halves :=
  have played := memory_to_link .ad936xAxi (fun _ => 0) false 0 0 .other .other threeSlots
    (by decide +kernel)
  ⟨by decide +kernel, played.1⟩

end Zyndra.Ad936xAxi
