import Zyndra.Peripheral
import Zyndra.TxMemory
import Zyndra.TxRegisters

/-!
# The transmit session and the transmit path, joined

What one of them asks of its surroundings is here what the other does: the driver's
register writes are posted; the engine reads the registers as they have arrived, and
the words of its bursts from the memory behind the cache; the driver sees the offset
the engine shows. The client and the cache interleave with them as before.
-/

namespace Zyndra.TxChain

open Runs CyclicRing Ad936xAxi AxiLite Ad9361Txrx

/-- A word of the memory port, and a word of the stream to the FIFO, from their bytes. -/
def wordOf (bytes : Nat → BitVec 8) : BitVec 64 :=
  bytes 7 ++ bytes 6 ++ bytes 5 ++ bytes 4 ++ (bytes 3 ++ bytes 2 ++ bytes 1 ++ bytes 0)

def halfOf (bytes : Nat → BitVec 8) : BitVec 32 := bytes 3 ++ bytes 2 ++ bytes 1 ++ bytes 0

/-- The memory as the port addresses it, one word at a time, with the ring at its base. -/
def portMemory (base : BitVec 32) (memory : Nat → BitVec 8) (word : Nat) : BitVec 64 :=
  wordOf fun k => memory (8 * word + k - base.toNat)

structure Chain where
  session : TxSession
  regs : Registers
  posted : List Posted
  engine : AxiMasterRd.Entity (List (BitVec 64))
  slave : AxiMasterRd.Slave
  /-- Words on their way through the FIFO, and the sample side. -/
  crossing : List (BitVec 32)
  path : TxPath

/-- `report` is the driver's read of the engine's offset. -/
inductive ChainEvent where
  | software (e : TxSessionEvent)
  | arrive
  | clock (i : PeripheralInputs)
  | fetch
  | report
  | iqClock (sTxEnable : Bool) (arrivals : Nat)

section Chain

variable (blockSize mapSize : BitVec 32)

/-- The engine's inputs on a clock. -/
def Chain.ports (c : Chain) (i : PeripheralInputs) : AxiMasterRd.Inputs :=
  axiMasterRdInst c.regs i

/-- How far the engine's offset is ahead of the one the driver has read. -/
def Chain.unseen (c : Chain) : BitVec 32 :=
  cyclicDistance c.session.bench.dev.priv.txbufSize c.session.bench.dev.regs.txBufRd
    c.engine.regs.sRdPtr

def Chain.step (c : Chain) : ChainEvent → Chain
  | .software e =>
    let next := txSession blockSize mapSize c.session e
    { c with
      session := next
      posted := c.posted ++ written c.session.bench.dev.regs next.bench.dev.regs }
  | .arrive =>
    match c.posted with
    | [] => c
    | w :: others => { c with regs := c.regs.assign w.addr w.data, posted := others }
  | .clock i =>
    { c with
      engine := AxiMasterRd.clock .ad936xAxi (AxiMasterRd.idealFifo .ad936xAxi) c.engine (c.ports i)
      slave := c.slave.clock .ad936xAxi c.engine.regs (c.ports i)
      crossing := c.crossing ++ AxiMasterRd.sentWord (g := .ad936xAxi) c.engine (c.ports i) }
  | .fetch =>
    if c.slave.left = 0 then c
    else
      { c with
        slave := c.slave.fetch
          (portMemory c.session.bench.dev.priv.txbufPhys c.session.ring.memory)
        session := fetchByte^[8] c.session }
  | .report =>
    { c with session := txSession blockSize mapSize c.session (.report c.unseen.toNat) }
  | .iqClock sTxEnable arrivals =>
    { c with
      crossing := c.crossing.drop arrivals
      path := transmit c.path ⟨sTxEnable, c.crossing.take arrivals⟩ }

/-- What the client sends is its stream. -/
def FromClient (client : Nat → BitVec 8) (s : TxSession) : TxSessionEvent → Prop
  | .recv data => data = (List.range data.length).map fun k => client (s.received.length + k)
  | _ => True

instance (client : Nat → BitVec 8) (s : TxSession) :
    (e : TxSessionEvent) → Decidable (FromClient client s e)
  | .recv _ => inferInstanceAs (Decidable (_ = _))
  | .fetch => isTrue trivial
  | .report _ => isTrue trivial
  | .thread => isTrue trivial
  | .recvInterrupted => isTrue trivial
  | .recvFailed => isTrue trivial
  | .close => isTrue trivial
  | .writeBack _ => isTrue trivial

/-- The slave gives the words of a burst in order as it has read them, and marks the
last one. -/
def Returns (s : AxiMasterRd.Slave) (i : PeripheralInputs) : Prop :=
  i.iRvalid = true →
    s.buffer.head? = some i.iRdata ∧ (i.iRlast = true ↔ s.left + s.buffer.length = 1)

/-- When a burst is chained on the last beat of another, what is available, which still
counts the burst just received, is two bursts. -/
def TwoAvailable (e : AxiMasterRd.Entity (List (BitVec 64))) (i : AxiMasterRd.Inputs) : Prop :=
  e.regs.sState = .rRecv → i.iRvalid = true → i.iRlast = true →
    (AxiMasterRd.idealFifo .ad936xAxi).progFull e.fifo = false →
      AxiMasterRd.sHasBurst .ad936xAxi e.regs i = true →
        2 * Generics.ad936xAxi.burst ≤ (AxiMasterRd.sDataAvail e.regs i).toNat

instance (s : AxiMasterRd.Slave) (i : PeripheralInputs) : Decidable (Returns s i) :=
  inferInstanceAs (Decidable (_ → _))

instance (e : AxiMasterRd.Entity (List (BitVec 64))) (i : AxiMasterRd.Inputs) :
    Decidable (TwoAvailable e i) :=
  inferInstanceAs (Decidable (_ → _ → _ → _ → _ → _))

/-- The client, the slave, and the two conditions under which the parts work: no call
publishes the last free block of the ring, and a chained burst is published. -/
def ChainRule (client : Nat → BitVec 8) (c : Chain) : ChainEvent → Prop
  | .software e =>
    TxSessionRule blockSize c.session e ∧ OfSoftware e ∧ FromClient client c.session e
  | .clock i => i.lite.aresetn = true ∧ Returns c.slave i ∧ TwoAvailable c.engine (c.ports i)
  | _ => True

instance (client : Nat → BitVec 8) (c : Chain) :
    (e : ChainEvent) → Decidable (ChainRule blockSize client c e)
  | .software _ => inferInstanceAs (Decidable (_ ∧ _ ∧ _))
  | .clock _ => inferInstanceAs (Decidable (_ ∧ _ ∧ _))
  | .arrive => isTrue trivial
  | .fetch => isTrue trivial
  | .report => isTrue trivial
  | .iqClock _ _ => isTrue trivial

/-- The session behind `open` and `mmap`, whose register writes have arrived, in front of
an engine out of reset. -/
def chainStart (mapped : Driver.Device) (ring : CachedRing.Cached (BitVec 8))
    (tx : Ad936xTxrx.TxRegs) : Chain where
  session := sessionOpened blockSize mapped ring
  regs := mirror (sessionOpened blockSize mapped ring).bench.dev.regs
  posted := []
  engine := ⟨AxiMasterRd.resetRegisters, []⟩
  slave := ⟨0, 0, 0, []⟩
  crossing := []
  path := configuredPath tx

/-- The stream to the link: the silence of the prefill, and behind it the client. -/
def outward (client : Nat → BitVec 8) (position : Nat) : BitVec 8 :=
  if position < prefillBytes blockSize then 0 else client (position - prefillBytes blockSize)

end Chain

/-! ## What the client has sent -/

section Heard

variable {blockSize mapSize : BitVec 32} {client : Nat → BitVec 8} {s : TxSession}

theorem put_received (left : Option Nat) : (putStep blockSize left s).received = s.received := by
  unfold putStep
  dsimp only
  split <;> rfl

/-- Outside `recv` nothing comes from the client. -/
theorem thread_received : (sessionThread blockSize mapSize s).received = s.received := by
  unfold sessionThread
  split
  case h_3 => exact put_received _
  all_goals rfl

/-- More of the client's stream behind its beginning is its beginning. -/
theorem heard_more {data : List (BitVec 8)}
    (heard : s.received = (List.range s.received.length).map client)
    (next : data = (List.range data.length).map fun k => client (s.received.length + k)) :
    s.received ++ data = (List.range (s.received ++ data).length).map client := by
  rw [List.length_append, List.range_add, List.map_append, List.map_map, ← heard]
  exact congrArg (s.received ++ ·) next

/-- What the client has sent is the beginning of its stream. -/
theorem heard_step (heard : s.received = (List.range s.received.length).map client)
    (e : TxSessionEvent) (from_ : FromClient client s e) :
    (txSession blockSize mapSize s e).received =
      (List.range (txSession blockSize mapSize s e).received.length).map client := by
  have nothing : s.received ++ [] = (List.range (s.received ++ []).length).map client := by
    rwa [List.append_nil]
  have outcome : ∀ (o : Transfers.Outcome) (data : List (BitVec 8)),
      s.received ++ data = (List.range (s.received ++ data).length).map client →
      (receive blockSize o data s).received =
        (List.range (receive blockSize o data s).received.length).map client := by
    intro o data more
    unfold receive
    split
    · exact more
    · exact heard
  cases e with
  | thread =>
    change (sessionThread blockSize mapSize s).received =
      (List.range (sessionThread blockSize mapSize s).received.length).map client
    rw [thread_received]
    exact heard
  | recv data => exact outcome _ data (heard_more heard from_)
  | recvInterrupted => exact outcome _ [] nothing
  | recvFailed => exact outcome _ [] nothing
  | close => exact heard
  | writeBack place => exact heard
  | fetch => exact heard
  | report bytes => exact heard

/-- The byte at a position that has come is the stream's. -/
theorem byteAt_outward (heard : s.received = (List.range s.received.length).map client)
    {position : Nat} (come : position < (outgoing blockSize s.received).length) :
    byteAt blockSize s.received position = outward blockSize client position := by
  have length : (outgoing blockSize s.received).length =
      prefillBytes blockSize + s.received.length := by simp [outgoing]
  rw [length] at come
  unfold byteAt outgoing outward
  split
  · rename_i silent
    rw [List.getD_append _ _ _ _ (by rwa [List.length_replicate])]
    exact List.getD_replicate _ silent
  · rename_i behind
    rw [List.getD_append_right _ _ _ _ (by rw [List.length_replicate]; omega),
      List.length_replicate, heard, List.getD_eq_getElem _ _ (by simp; omega)]
    simp

end Heard

end Zyndra.TxChain
