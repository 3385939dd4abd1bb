import Zyndra.Runs
import Zyndra.SlotRing
import Mathlib.Data.List.GetD

/-!
# The relay from the receive ring to the network

`ad9361_rx` polls the write pointer, copies every block that is complete into a
slot of `tx_buf` and passes it to a transmit thread. When no slot is free it gives
up what is available and counts the bytes. The copy is made byte by byte here and
the hardware goes on writing meanwhile; the transmit thread appears through what
it does to the semaphores and to the count of blocks sent.

The bench follows how far the hardware has written, how far it has published, and
the stream position behind `rd_ptr`. It notes where each block passed on started.
As long as the hardware stays less than a ring ahead of `rd_ptr`, every byte is in
a block passed on or counted as lost, and each block is in its slot unharmed until
it has been sent.
-/

namespace Zyndra.Ad9361Rx

open CyclicRing Runs SlotRing

/-- The globals set from the arguments, and the size of the receive ring. -/
structure Cfg where
  sBufCnt : Nat
  sBufSize : BitVec 32
  rxBufSize : BitVec 32

/-- What main chooses for `--tcp` and for `--udp`, for a ring of the given size. -/
def tcpCfg (rxBufSize : BitVec 32) : Cfg := ⟨1024, 32768, rxBufSize⟩
def udpCfg (rxBufSize : BitVec 32) : Cfg := ⟨1024, 1472, rxBufSize⟩

/-- Where main is in its loop: at the read of `rx_buf_wr`, at `sem_trywait`, so many
bytes into the copies, or behind `sem_post` and before `s_pass_cnt`. -/
inductive MainPc where
  | polling
  | trying (wrPtr bytesAvailable : BitVec 32)
  | copying (copied : Nat)
  | counting
  deriving DecidableEq, Repr

/-- The variables of main and those it shares with the transmit thread. -/
structure Relay where
  pc : MainPc
  rdPtr : BitVec 32
  bufNr : Nat
  semSlotUsed : Nat
  semSlotFree : Nat
  txBuf : Nat → BitVec 8
  sSendCnt : BitVec 32
  sPassCnt : BitVec 32
  sBufWaitCnt : BitVec 32
  sLostBytes : BitVec 32

section Main

variable (cfg : Cfg)

def Cfg.size : Nat := cfg.rxBufSize.toNat

def Cfg.block : Nat := cfg.sBufSize.toNat

/-- Where byte `k` of a block is read: from the tail of the ring and then from its
head when the ring ends inside the block. -/
def copyFrom (rdPtr : BitVec 32) (k : Nat) : Nat :=
  let bytesBeforeWrap := (cfg.rxBufSize - rdPtr).toNat
  if bytesBeforeWrap < cfg.block then
    if k < bytesBeforeWrap then rdPtr.toNat + k else k - bytesBeforeWrap
  else rdPtr.toNat + k

/-- One step of main's loop, with the ring and the register as they are now. -/
def mainStep (rxBuf : Nat → BitVec 8) (rxBufWr : BitVec 32) (r : Relay) : Relay :=
  match r.pc with
  | .polling =>
    let bytesAvailable := cyclicDistance cfg.rxBufSize r.rdPtr rxBufWr
    if bytesAvailable < cfg.sBufSize then { r with sBufWaitCnt := r.sBufWaitCnt + 1 }
    else { r with pc := .trying rxBufWr bytesAvailable }
  | .trying wrPtr bytesAvailable =>
    if r.semSlotFree = 0 then
      { r with
        pc := .polling
        sLostBytes := r.sLostBytes + bytesAvailable
        rdPtr := wrPtr }
    else { r with pc := .copying 0, semSlotFree := r.semSlotFree - 1 }
  | .copying copied =>
    if copied < cfg.block then
      { r with
        pc := .copying (copied + 1)
        txBuf := Function.update r.txBuf (r.bufNr * cfg.block + copied)
          (rxBuf (copyFrom cfg r.rdPtr copied)) }
    else
      { r with
        pc := .counting
        rdPtr := (r.rdPtr + cfg.sBufSize) % cfg.rxBufSize
        semSlotUsed := r.semSlotUsed + 1
        bufNr := (r.bufNr + 1) % cfg.sBufCnt }
  | .counting => { r with pc := .polling, sPassCnt := r.sPassCnt + 1 }

end Main

/-! ## The bench -/

structure Bench where
  prog : Relay
  /-- The receive ring, and how far the hardware has written and published. -/
  memory : Nat → BitVec 8
  written : Nat
  published : Nat
  /-- Position behind `rd_ptr`. -/
  position : Nat
  /-- Where the blocks passed on started, oldest first, and the bytes given up. -/
  starts : List Nat
  lost : Nat
  /-- Slots taken by the transmit thread and given back by it. -/
  taken : Nat
  freed : Nat

/-- `wait`, `post` and `count` are what the transmit thread does: it waits for a
slot in use, gives one back, and adds to `s_send_cnt`. -/
inductive Event where
  | write (bytes : Nat)
  | publish (position : Nat)
  | main
  | wait
  | post
  | count (blocks : BitVec 32)
  deriving DecidableEq, Repr

/-- `rx_buf_wr` as main reads it. -/
def Bench.rxBufWr (cfg : Cfg) (b : Bench) : BitVec 32 := BitVec.ofNat 32 (b.published % cfg.size)

/-- Main's step, with the positions brought up to date. -/
def observeMain (cfg : Cfg) (b : Bench) : Bench :=
  let moved := { b with prog := mainStep cfg b.memory (b.rxBufWr cfg) b.prog }
  match b.prog.pc with
  | .polling => moved
  | .trying _ bytesAvailable =>
    if b.prog.semSlotFree = 0 then
      { moved with
        position := b.position + bytesAvailable.toNat
        lost := b.lost + bytesAvailable.toNat }
    else moved
  | .copying copied =>
    if copied < cfg.block then moved
    else
      { moved with
        position := b.position + cfg.block
        starts := b.starts ++ [b.position] }
  | .counting => moved

def observe (cfg : Cfg) (stream : Nat → BitVec 8) (b : Bench) : Event → Bench
  | .write bytes =>
    { b with
      memory := store cfg.size stream b.memory b.written bytes
      written := b.written + bytes }
  | .publish position => { b with published := position }
  | .main => observeMain cfg b
  | .wait =>
    if b.prog.semSlotUsed = 0 then b
    else
      { b with
        prog := { b.prog with semSlotUsed := b.prog.semSlotUsed - 1 }
        taken := b.taken + 1 }
  | .post =>
    { b with
      prog := { b.prog with semSlotFree := b.prog.semSlotFree + 1 }
      freed := b.freed + 1 }
  | .count blocks => { b with prog := { b.prog with sSendCnt := b.prog.sSendCnt + blocks } }

/-- The relay when the block has been enabled. -/
def started (cfg : Cfg) (memory txBuf : Nat → BitVec 8) : Bench where
  prog :=
    { pc := .polling, rdPtr := 0, bufNr := 0, semSlotUsed := 0, semSlotFree := cfg.sBufCnt
      txBuf := txBuf, sSendCnt := 0, sPassCnt := 0, sBufWaitCnt := 0, sLostBytes := 0 }
  memory := memory
  written := 0
  published := 0
  position := 0
  starts := []
  lost := 0
  taken := 0
  freed := 0

/-- The hardware stays less than a ring ahead of `rd_ptr` and publishes only what it
has written; the transmit thread gives back slots it has taken. -/
def Rule (cfg : Cfg) (b : Bench) : Event → Prop
  | .write bytes => b.written + bytes < b.position + cfg.size
  | .publish position => b.published ≤ position ∧ position ≤ b.written
  | .post => b.freed < b.taken
  | _ => True

instance (cfg : Cfg) (b : Bench) : (e : Event) → Decidable (Rule cfg b e)
  | .write _ => inferInstanceAs (Decidable (_ < _))
  | .publish _ => inferInstanceAs (Decidable (_ ∧ _))
  | .post => inferInstanceAs (Decidable (_ < _))
  | .main => isTrue trivial
  | .wait => isTrue trivial
  | .count _ => isTrue trivial

/-- Slots and blocks that are not empty, and a ring whose offsets leave room for a
block in 32 bits. -/
structure Cfg.Sound (cfg : Cfg) : Prop where
  slots : 0 < cfg.sBufCnt
  block : 0 < cfg.block
  size : 0 < cfg.size
  fits : cfg.size + cfg.block ≤ 2 ^ 32

/-- The blocks passed on so far. -/
def Bench.passed (b : Bench) : Nat := b.starts.length

/-- A slot main has taken and not passed on. -/
def MainPc.held : MainPc → Nat
  | .copying _ => 1
  | _ => 0

/-- Bytes of the next block that are in its slot. -/
def MainPc.copied : MainPc → Nat
  | .copying copied => copied
  | _ => 0

/-- A block passed on and not yet counted. -/
def MainPc.uncounted : MainPc → Nat
  | .counting => 1
  | _ => 0

/-- The stream of the bytes passed on, with the blocks starting at the given
positions. -/
def passedByte (stream : Nat → BitVec 8) (block : Nat) (starts : List Nat) (index : Nat) :
    BitVec 8 :=
  stream (starts.getD (index / block) 0 + index % block)

/-! ## One step of main -/

section Step

variable {cfg : Cfg}

/-- What a step of main can do: it waits for a block, sees one, gives up what it saw,
takes a slot, copies a byte, passes the block on, or counts it. -/
inductive MainMove (cfg : Cfg) (b : Bench) : Bench → Prop where
  | waits (at_ : b.prog.pc = .polling)
      (short : cyclicDistance cfg.rxBufSize b.prog.rdPtr (b.rxBufWr cfg) < cfg.sBufSize) :
      MainMove cfg b { b with prog := { b.prog with sBufWaitCnt := b.prog.sBufWaitCnt + 1 } }
  | sees (at_ : b.prog.pc = .polling)
      (enough : cfg.sBufSize ≤ cyclicDistance cfg.rxBufSize b.prog.rdPtr (b.rxBufWr cfg)) :
      MainMove cfg b
        { b with prog := { b.prog with
            pc := .trying (b.rxBufWr cfg)
              (cyclicDistance cfg.rxBufSize b.prog.rdPtr (b.rxBufWr cfg)) } }
  | givesUp {wrPtr bytesAvailable : BitVec 32} (at_ : b.prog.pc = .trying wrPtr bytesAvailable)
      (none : b.prog.semSlotFree = 0) :
      MainMove cfg b
        { b with
          prog := { b.prog with
            pc := .polling
            sLostBytes := b.prog.sLostBytes + bytesAvailable
            rdPtr := wrPtr }
          position := b.position + bytesAvailable.toNat
          lost := b.lost + bytesAvailable.toNat }
  | takes {wrPtr bytesAvailable : BitVec 32} (at_ : b.prog.pc = .trying wrPtr bytesAvailable)
      (some : 0 < b.prog.semSlotFree) :
      MainMove cfg b
        { b with prog := { b.prog with
            pc := .copying 0
            semSlotFree := b.prog.semSlotFree - 1 } }
  | copies {copied : Nat} (at_ : b.prog.pc = .copying copied) (inside : copied < cfg.block) :
      MainMove cfg b
        { b with prog := { b.prog with
            pc := .copying (copied + 1)
            txBuf := Function.update b.prog.txBuf (b.prog.bufNr * cfg.block + copied)
              (b.memory (copyFrom cfg b.prog.rdPtr copied)) } }
  | passes {copied : Nat} (at_ : b.prog.pc = .copying copied) (whole : cfg.block ≤ copied) :
      MainMove cfg b
        { b with
          prog := { b.prog with
            pc := .counting
            rdPtr := (b.prog.rdPtr + cfg.sBufSize) % cfg.rxBufSize
            semSlotUsed := b.prog.semSlotUsed + 1
            bufNr := (b.prog.bufNr + 1) % cfg.sBufCnt }
          position := b.position + cfg.block
          starts := b.starts ++ [b.position] }
  | counts (at_ : b.prog.pc = .counting) :
      MainMove cfg b
        { b with prog := { b.prog with pc := .polling, sPassCnt := b.prog.sPassCnt + 1 } }

theorem observeMain_moves (cfg : Cfg) (b : Bench) : MainMove cfg b (observeMain cfg b) := by
  cases at_ : b.prog.pc with
  | polling =>
    by_cases short : cyclicDistance cfg.rxBufSize b.prog.rdPtr (b.rxBufWr cfg) < cfg.sBufSize
    · simpa only [observeMain, mainStep, at_, if_pos short] using MainMove.waits at_ short
    · simpa only [observeMain, mainStep, at_, if_neg short] using
        MainMove.sees at_ (BitVec.not_lt.mp short)
  | trying wrPtr bytesAvailable =>
    rcases Nat.eq_zero_or_pos b.prog.semSlotFree with none | some
    · simpa only [observeMain, mainStep, at_, if_pos none] using MainMove.givesUp at_ none
    · simpa only [observeMain, mainStep, at_, if_neg (Nat.ne_of_gt some)] using
        MainMove.takes at_ some
  | copying copied =>
    by_cases inside : copied < cfg.block
    · simpa only [observeMain, mainStep, at_, if_pos inside] using MainMove.copies at_ inside
    · simpa only [observeMain, mainStep, at_, if_neg inside] using
        MainMove.passes at_ (Nat.le_of_not_lt inside)
  | counting => simpa only [observeMain, mainStep, at_] using MainMove.counts at_

/-- The address copied from is the place of the byte in the ring. -/
theorem copyFrom_place {rdPtr : BitVec 32} {position : Nat} (k : Nat)
    (offset : rdPtr.toNat = position % cfg.size) (positive : 0 < cfg.size)
    (inside : k < cfg.block) (short : cfg.block < cfg.size) :
    copyFrom cfg rdPtr k = (position + k) % cfg.size := by
  have below : rdPtr.toNat < cfg.size := by
    rw [offset]
    exact Nat.mod_lt _ positive
  have remaining : (cfg.rxBufSize - rdPtr).toNat = cfg.size - rdPtr.toNat :=
    BitVec.toNat_sub_of_le (Nat.le_of_lt below)
  have reduced : (position + k) % cfg.size = (rdPtr.toNat + k) % cfg.size := by
    rw [offset, Nat.mod_add_mod]
  rw [copyFrom, remaining, reduced]
  have within : rdPtr.toNat + k < 2 * cfg.size := by omega
  obtain ⟨passes, moved⟩ | ⟨inside, moved⟩ := offset_moved within
  · rw [moved, if_pos (by omega), if_neg (by omega)]
    omega
  · rw [moved]
    split
    · exact if_pos (by omega)
    · rfl

/-- A block that has been passed on keeps its bytes in the stream when others follow. -/
theorem passedByte_append (stream : Nat → BitVec 8) {block index : Nat} (starts more : List Nat)
    (before : index < starts.length * block) :
    passedByte stream block (starts ++ more) index = passedByte stream block starts index := by
  have inside : index / block < starts.length := Nat.div_lt_of_lt_mul (by rwa [Nat.mul_comm])
  simp only [passedByte, List.getD_append _ _ _ _ inside]

/-- Byte `k` of a block, in the stream of the bytes passed on. -/
theorem passedByte_block (stream : Nat → BitVec 8) {block number k : Nat} (starts : List Nat)
    (inside : k < block) :
    passedByte stream block starts (number * block + k) = stream (starts.getD number 0 + k) := by
  have positive : 0 < block := by omega
  rw [passedByte, Nat.mul_add_mod', Nat.mod_eq_of_lt inside, Nat.mul_comm number,
    Nat.mul_add_div positive, Nat.div_eq_of_lt inside, Nat.add_zero]

end Step

/-! ## Where main stands in the stream -/

/-- What main has seen is complete in the ring, and the pointer it has read is the
end of it. -/
def MainPc.Fits (cfg : Cfg) (position published : Nat) : MainPc → Prop
  | .polling => True
  | .trying wrPtr bytesAvailable =>
    cfg.block ≤ bytesAvailable.toNat ∧ position + bytesAvailable.toNat ≤ published ∧
      wrPtr.toNat = (position + bytesAvailable.toNat) % cfg.size
  | .copying copied => copied ≤ cfg.block ∧ position + cfg.block ≤ published
  | .counting => True

/-- The two pointers of main are the places of their positions, and the hardware has
not lapped it. -/
structure Placed (cfg : Cfg) (b : Bench) : Prop where
  offset : b.prog.rdPtr.toNat = b.position % cfg.size
  slot : b.prog.bufNr = b.passed % cfg.sBufCnt
  reached : b.position ≤ b.published
  behind : b.published ≤ b.written
  ahead : b.written < b.position + cfg.size
  fits : b.prog.pc.Fits cfg b.position b.published

/-- More bytes published leave what has been seen complete. -/
theorem MainPc.Fits.later {cfg : Cfg} {position published later : Nat} {pc : MainPc}
    (fits : pc.Fits cfg position published) (ordered : published ≤ later) :
    pc.Fits cfg position later := by
  cases pc with
  | polling => trivial
  | trying wrPtr bytesAvailable => exact ⟨fits.1, Nat.le_trans fits.2.1 ordered, fits.2.2⟩
  | copying copied => exact ⟨fits.1, Nat.le_trans fits.2 ordered⟩
  | counting => trivial

section Places

variable {cfg : Cfg} {stream : Nat → BitVec 8} {b after : Bench}

theorem rxBufWr_toNat (sound : cfg.Sound) (b : Bench) :
    (b.rxBufWr cfg).toNat = b.published % cfg.size := by
  have below : b.published % cfg.size < 2 ^ 32 :=
    Nat.lt_trans (Nat.mod_lt _ sound.size) cfg.rxBufSize.isLt
  rw [Bench.rxBufWr, BitVec.toNat_ofNat, Nat.mod_eq_of_lt below]

/-- The bytes available are the bytes published from main's position on. -/
theorem Placed.available (placed : Placed cfg b) (sound : cfg.Sound) :
    (cyclicDistance cfg.rxBufSize b.prog.rdPtr (b.rxBufWr cfg)).toNat =
      b.published - b.position := by
  have within : b.published - b.position < cfg.size := by
    have := placed.behind
    have := placed.ahead
    have := sound.size
    omega
  rw [cyclicDistance_positions sound.size placed.reached placed.offset (rxBufWr_toNat sound b)]
  exact Nat.mod_eq_of_lt within

/-- A complete block is shorter than the ring. -/
theorem Placed.short (placed : Placed cfg b) (complete : b.position + cfg.block ≤ b.published) :
    cfg.block < cfg.size := by
  have := placed.behind
  have := placed.ahead
  omega

theorem Placed.main (placed : Placed cfg b) (sound : cfg.Sound) (moved : MainMove cfg b after) :
    Placed cfg after := by
  have fits := placed.fits
  cases moved with
  | waits at_ short => exact ⟨placed.offset, placed.slot, placed.reached, placed.behind,
      placed.ahead, fits⟩
  | sees at_ enough =>
    have exact_ := placed.available sound
    have joined : b.position + (b.published - b.position) = b.published :=
      Nat.add_sub_cancel' placed.reached
    refine ⟨placed.offset, placed.slot, placed.reached, placed.behind, placed.ahead,
      BitVec.le_def.mp enough, ?_, ?_⟩
    · exact Nat.le_of_eq (by rw [exact_, joined])
    · rw [exact_, joined]
      exact rxBufWr_toNat sound b
  | givesUp at_ none =>
    rw [at_] at fits
    exact ⟨fits.2.2, placed.slot, fits.2.1, placed.behind,
      Nat.lt_of_lt_of_le placed.ahead (by dsimp only; omega), trivial⟩
  | takes at_ some =>
    rw [at_] at fits
    exact ⟨placed.offset, placed.slot, placed.reached, placed.behind, placed.ahead,
      Nat.zero_le _, Nat.le_trans (Nat.add_le_add_left fits.1 _) fits.2.1⟩
  | copies at_ inside =>
    rw [at_] at fits
    exact ⟨placed.offset, placed.slot, placed.reached, placed.behind, placed.ahead,
      inside, fits.2⟩
  | passes at_ whole =>
    rw [at_] at fits
    have width := sound.fits
    have below : b.prog.rdPtr.toNat < cfg.size := by
      rw [placed.offset]
      exact Nat.mod_lt _ sound.size
    have sum : (b.prog.rdPtr + cfg.sBufSize).toNat = b.prog.rdPtr.toNat + cfg.block := by
      have room : b.prog.rdPtr.toNat + cfg.block < 2 ^ 32 := by omega
      rw [BitVec.toNat_add]
      exact Nat.mod_eq_of_lt room
    refine ⟨?_, ?_, fits.2, placed.behind,
      Nat.lt_of_lt_of_le placed.ahead (by dsimp only; omega), trivial⟩
    · rw [BitVec.toNat_umod, sum, placed.offset]
      exact Nat.mod_add_mod _ _ _
    · simp only [Bench.passed, List.length_append, List.length_singleton, placed.slot,
        Nat.mod_add_mod]
  | counts at_ => exact ⟨placed.offset, placed.slot, placed.reached, placed.behind,
      placed.ahead, trivial⟩

theorem Placed.observe (placed : Placed cfg b) (sound : cfg.Sound) {e : Event}
    (rule : Rule cfg b e) : Placed cfg (observe cfg stream b e) := by
  cases e with
  | write bytes =>
    exact ⟨placed.offset, placed.slot, placed.reached,
      Nat.le_trans placed.behind (Nat.le_add_right _ _), rule, placed.fits⟩
  | publish position =>
    exact ⟨placed.offset, placed.slot, Nat.le_trans placed.reached rule.1, rule.2, placed.ahead,
      placed.fits.later rule.1⟩
  | main => exact placed.main sound (observeMain_moves cfg b)
  | wait =>
    dsimp only [Ad9361Rx.observe]
    split
    · exact placed
    · exact ⟨placed.offset, placed.slot, placed.reached, placed.behind, placed.ahead, placed.fits⟩
  | post =>
    exact ⟨placed.offset, placed.slot, placed.reached, placed.behind, placed.ahead, placed.fits⟩
  | count blocks =>
    exact ⟨placed.offset, placed.slot, placed.reached, placed.behind, placed.ahead, placed.fits⟩

end Places

/-! ## The slots -/

/-- The two semaphores count the slots in use and the free ones. -/
def Counted (cfg : Cfg) (b : Bench) : Prop :=
  Permits cfg.sBufCnt b.passed b.taken b.freed b.prog.semSlotUsed b.prog.semSlotFree b.prog.pc.held

/-- The ring holds the last bytes of the stream, and `tx_buf` every block not given
back and the part of the next one that has been copied. -/
structure Stored (cfg : Cfg) (stream : Nat → BitVec 8) (b : Bench) : Prop where
  ring : Holds cfg.size stream b.memory b.written
  slots : Keeps (cfg.sBufCnt * cfg.block)
    (passedByte stream cfg.block (b.starts ++ [b.position])) b.prog.txBuf
    (b.freed * cfg.block) (b.passed * cfg.block + b.prog.pc.copied)

section Slots

variable {cfg : Cfg} {stream : Nat → BitVec 8} {b after : Bench}

theorem Counted.main (counted : Counted cfg b) (moved : MainMove cfg b after) :
    Counted cfg after := by
  unfold Counted at *
  cases moved with
  | waits at_ short => exact counted
  | sees at_ enough =>
    rw [at_] at counted
    exact counted
  | givesUp at_ none =>
    rw [at_] at counted
    exact counted
  | takes at_ some =>
    rw [at_] at counted
    exact counted.reserve some
  | copies at_ inside =>
    rw [at_] at counted
    exact counted
  | passes at_ whole =>
    rw [at_] at counted
    have total : (b.starts ++ [b.position]).length = b.passed + 1 := List.length_append
    simp only [Bench.passed] at total ⊢
    rw [total]
    exact counted.pass
  | counts at_ =>
    rw [at_] at counted
    exact counted

theorem Counted.observe (counted : Counted cfg b) {e : Event} (rule : Rule cfg b e) :
    Counted cfg (observe cfg stream b e) := by
  cases e with
  | write bytes => exact counted
  | publish position => exact counted
  | main => exact counted.main (observeMain_moves cfg b)
  | wait =>
    dsimp only [Ad9361Rx.observe]
    split
    · exact counted
    · rename_i some
      exact counted.take (Nat.pos_of_ne_zero some)
  | post => exact counted.give rule
  | count blocks => exact counted

/-- The blocks passed on, and the start of the next one, when it is given up or
passed on in its turn. -/
theorem passedByte_next (stream : Nat → BitVec 8) {block index : Nat} (starts more : List Nat)
    (before : index < starts.length * block) :
    passedByte stream block (starts ++ more) index =
      passedByte stream block (starts ++ [b.position]) index := by
  rw [passedByte_append stream starts more before, passedByte_append stream starts _ before]

theorem Stored.main (stored : Stored cfg stream b) (sound : cfg.Sound) (placed : Placed cfg b)
    (counted : Counted cfg b) (moved : MainMove cfg b after) : Stored cfg stream after := by
  have slots := stored.slots
  have fits := placed.fits
  unfold Counted at counted
  refine ⟨?_, ?_⟩
  · cases moved <;> exact stored.ring
  cases moved with
  | waits at_ short => exact slots
  | sees at_ enough =>
    rw [at_] at slots
    exact slots
  | givesUp at_ none =>
    rw [at_] at slots
    exact slots.congr fun index before => passedByte_next stream b.starts _ before
  | takes at_ some =>
    rw [at_] at slots
    exact slots
  | @copies copied at_ inside =>
    rw [at_] at slots fits counted
    have complete : b.position + cfg.block ≤ b.published := fits.2
    have place : b.prog.bufNr * cfg.block + copied =
        (b.passed * cfg.block + copied) % (cfg.sBufCnt * cfg.block) := by
      rw [slot_place inside, placed.slot]
    have byte : b.memory (copyFrom cfg b.prog.rdPtr copied) =
        passedByte stream cfg.block (b.starts ++ [b.position])
          (b.passed * cfg.block + copied) := by
      have last : (b.starts ++ [b.position]).getD b.passed 0 = b.position := by
        simp [Bench.passed]
      rw [copyFrom_place copied placed.offset sound.size inside (placed.short complete),
        passedByte_block stream _ inside, last]
      have := placed.behind
      have := placed.ahead
      exact stored.ring (b.position + copied) (by omega) (by omega)
    have room : b.passed * cfg.block + copied <
        b.freed * cfg.block + cfg.sBufCnt * cfg.block := by
      calc b.passed * cfg.block + copied < (b.passed + 1) * cfg.block := by
            rw [Nat.succ_mul]
            omega
        _ ≤ (b.freed + cfg.sBufCnt) * cfg.block := Nat.mul_le_mul_right _ counted.room
        _ = b.freed * cfg.block + cfg.sBufCnt * cfg.block := Nat.add_mul _ _ _
    dsimp only
    rw [place, byte]
    exact slots.store_one room
  | @passes copied at_ whole =>
    rw [at_] at slots fits
    have full : copied = cfg.block := Nat.le_antisymm fits.1 whole
    have length : (b.starts ++ [b.position]).length * cfg.block =
        b.passed * cfg.block + copied := by
      rw [List.length_append, List.length_singleton, Nat.succ_mul, full, Bench.passed]
    have passed : Keeps (cfg.sBufCnt * cfg.block)
        (passedByte stream cfg.block (b.starts ++ [b.position])) b.prog.txBuf (b.freed * cfg.block)
        ((b.starts ++ [b.position]).length * cfg.block) := by
      simpa only [MainPc.copied, Bench.passed, length, Nat.add_zero] using slots
    exact passed.congr fun index before =>
      passedByte_append stream (b.starts ++ [b.position]) _ before
  | counts at_ =>
    rw [at_] at slots
    exact slots

theorem Stored.observe (stored : Stored cfg stream b) (sound : cfg.Sound) (placed : Placed cfg b)
    (counted : Counted cfg b) {e : Event} (rule : Rule cfg b e) :
    Stored cfg stream (observe cfg stream b e) := by
  cases e with
  | write bytes => exact ⟨stored.ring.store bytes, stored.slots⟩
  | publish position => exact ⟨stored.ring, stored.slots⟩
  | main => exact stored.main sound placed counted (observeMain_moves cfg b)
  | wait =>
    dsimp only [Ad9361Rx.observe]
    split
    · exact stored
    · exact ⟨stored.ring, stored.slots⟩
  | post =>
    exact ⟨stored.ring, stored.slots.release (Nat.mul_le_mul_right _ (Nat.le_succ _))⟩
  | count blocks => exact ⟨stored.ring, stored.slots⟩

end Slots

/-! ## The books -/

/-- The blocks passed on lie one after the other in the stream, all of them before
main's position. What is before it and in none of them has been given up. -/
structure Booked (cfg : Cfg) (b : Bench) : Prop where
  ordered : b.starts.Pairwise fun earlier later => earlier + cfg.block ≤ later
  ended : ∀ start ∈ b.starts, start + cfg.block ≤ b.position
  balance : b.passed * cfg.block + b.lost = b.position
  lostBytes : b.prog.sLostBytes = BitVec.ofNat 32 b.lost
  passCnt : b.prog.sPassCnt + BitVec.ofNat 32 b.prog.pc.uncounted = BitVec.ofNat 32 b.passed

section Books

variable {cfg : Cfg} {stream : Nat → BitVec 8} {b after : Bench}

theorem Booked.main (booked : Booked cfg b) (moved : MainMove cfg b after) : Booked cfg after := by
  have balance := booked.balance
  have passCnt := booked.passCnt
  cases moved with
  | waits at_ short =>
    exact ⟨booked.ordered, booked.ended, balance, booked.lostBytes, passCnt⟩
  | sees at_ enough =>
    rw [at_] at passCnt
    exact ⟨booked.ordered, booked.ended, balance, booked.lostBytes, passCnt⟩
  | @givesUp wrPtr bytesAvailable at_ none =>
    rw [at_] at passCnt
    refine ⟨booked.ordered, fun start member => ?_, ?_, ?_, passCnt⟩
    · exact Nat.le_trans (booked.ended start member) (Nat.le_add_right _ _)
    · rw [← balance]
      exact (Nat.add_assoc _ _ _).symm
    · dsimp only
      rw [booked.lostBytes, BitVec.ofNat_add, BitVec.ofNat_toNat, BitVec.setWidth_eq]
  | takes at_ some =>
    rw [at_] at passCnt
    exact ⟨booked.ordered, booked.ended, balance, booked.lostBytes, passCnt⟩
  | copies at_ inside =>
    rw [at_] at passCnt
    exact ⟨booked.ordered, booked.ended, balance, booked.lostBytes, passCnt⟩
  | passes at_ whole =>
    have total : (b.starts ++ [b.position]).length = b.passed + 1 := List.length_append
    have before : b.prog.sPassCnt = BitVec.ofNat 32 b.passed := by
      rw [at_] at passCnt
      exact (BitVec.add_zero _).symm.trans passCnt
    refine ⟨?_, fun start member => ?_, ?_, booked.lostBytes, ?_⟩
    · refine List.pairwise_append.mpr ⟨booked.ordered, List.pairwise_singleton _ _, ?_⟩
      intro earlier before later last
      rw [List.mem_singleton.mp last]
      exact booked.ended earlier before
    · rcases List.mem_append.mp member with before | last
      · exact Nat.le_trans (booked.ended start before) (Nat.le_add_right _ _)
      · rw [List.mem_singleton.mp last]
    · simp only [Bench.passed, total, Nat.succ_mul]
      simp only [Bench.passed] at balance
      omega
    · dsimp only [Bench.passed, MainPc.uncounted]
      rw [total, before]
      exact (BitVec.ofNat_add _ _).symm
  | counts at_ =>
    rw [at_] at passCnt
    refine ⟨booked.ordered, booked.ended, balance, booked.lostBytes, ?_⟩
    exact (BitVec.add_zero _).trans passCnt

theorem Booked.observe (booked : Booked cfg b) (e : Event) :
    Booked cfg (observe cfg stream b e) := by
  cases e with
  | main => exact booked.main (observeMain_moves cfg b)
  | wait =>
    dsimp only [Ad9361Rx.observe]
    split
    · exact booked
    · exact ⟨booked.ordered, booked.ended, booked.balance, booked.lostBytes, booked.passCnt⟩
  | _ => exact ⟨booked.ordered, booked.ended, booked.balance, booked.lostBytes, booked.passCnt⟩

end Books

/-! ## Whole runs -/

/-- What holds of the relay at any time. -/
structure Intact (cfg : Cfg) (stream : Nat → BitVec 8) (b : Bench) : Prop where
  placed : Placed cfg b
  counted : Counted cfg b
  stored : Stored cfg stream b
  booked : Booked cfg b

theorem Intact.observe {cfg : Cfg} {stream : Nat → BitVec 8} {b : Bench}
    (intact : Intact cfg stream b) (sound : cfg.Sound) {e : Event} (rule : Rule cfg b e) :
    Intact cfg stream (observe cfg stream b e) where
  placed := intact.placed.observe sound rule
  counted := intact.counted.observe rule
  stored := intact.stored.observe sound intact.placed intact.counted rule
  booked := intact.booked.observe e

/-- A slot not given back shows the block it was filled with. -/
theorem Intact.slot_byte {cfg : Cfg} {stream : Nat → BitVec 8} {b : Bench}
    (intact : Intact cfg stream b) {number k : Nat} (waiting : b.freed ≤ number)
    (before : number < b.starts.length) (inside : k < cfg.block) :
    b.prog.txBuf (number % cfg.sBufCnt * cfg.block + k) =
      passedByte stream cfg.block b.starts (number * cfg.block + k) := by
  have kept : Keeps (cfg.sBufCnt * cfg.block)
      (passedByte stream cfg.block (b.starts ++ [b.position])) b.prog.txBuf
      (b.freed * cfg.block) (b.starts.length * cfg.block) :=
    fun index after ahead => intact.stored.slots index after
      (Nat.lt_of_lt_of_le ahead (Nat.le_add_right _ _))
  have stop : number * cfg.block + cfg.block ≤ b.starts.length * cfg.block := by
    rw [← Nat.succ_mul]
    exact Nat.mul_le_mul_right _ before
  rw [kept.slot waiting before inside, passedByte_append stream _ _ (by omega)]

theorem started_intact {cfg : Cfg} (sound : cfg.Sound) (stream memory txBuf : Nat → BitVec 8) :
    Intact cfg stream (started cfg memory txBuf) where
  placed :=
    { offset := (Nat.zero_mod _).symm
      slot := (Nat.zero_mod _).symm
      reached := Nat.le_refl 0
      behind := Nat.le_refl 0
      ahead := Nat.lt_of_lt_of_le sound.size (Nat.le_add_left _ _)
      fits := trivial }
  counted := Permits.initial cfg.sBufCnt
  stored := ⟨fun _ before => absurd before (Nat.not_lt_zero _), Keeps.none _ _ _ _⟩
  booked := ⟨List.Pairwise.nil, by simp [started], by simp [started, Bench.passed], rfl, rfl⟩

theorem run_intact {cfg : Cfg} (sound : cfg.Sound) (stream memory txBuf : Nat → BitVec 8)
    (events : List Event)
    (follows : Follows (Rule cfg) (observe cfg stream) (started cfg memory txBuf) events) :
    Intact cfg stream (run (observe cfg stream) (started cfg memory txBuf) events) :=
  invariant (fun _ _ intact rule => intact.observe sound rule)
    (started_intact sound stream memory txBuf) events follows

/-- Every byte up to main's position is in exactly one block passed on or counted as
given up, the counters are the totals modulo the machine word, but for a block main is
about to count, and `tx_buf` shows each
block that has not been given back as the bytes of the stream it started at. -/
theorem relay_accounts {cfg : Cfg} (sound : cfg.Sound) (stream memory txBuf : Nat → BitVec 8)
    (events : List Event)
    (follows : Follows (Rule cfg) (observe cfg stream) (started cfg memory txBuf) events) :
    let b := run (observe cfg stream) (started cfg memory txBuf) events
    (b.starts.Pairwise (fun earlier later => earlier + cfg.block ≤ later) ∧
      (∀ start ∈ b.starts, start + cfg.block ≤ b.position) ∧
      b.starts.length * cfg.block + b.lost = b.position ∧
      b.position ≤ b.published ∧ b.published < b.position + cfg.size) ∧
    (b.prog.sLostBytes = BitVec.ofNat 32 b.lost ∧
      b.prog.sPassCnt + BitVec.ofNat 32 b.prog.pc.uncounted = BitVec.ofNat 32 b.starts.length) ∧
    ∀ number k, b.freed ≤ number → number < b.starts.length → k < cfg.block →
      b.prog.txBuf (number % cfg.sBufCnt * cfg.block + k) =
        stream (b.starts.getD number 0 + k) := by
  intro b
  have intact : Intact cfg stream b := run_intact sound stream memory txBuf events follows
  have placed := intact.placed
  have booked := intact.booked
  refine ⟨⟨booked.ordered, booked.ended, booked.balance, placed.reached,
    Nat.lt_of_le_of_lt placed.behind placed.ahead⟩, ⟨booked.lostBytes, booked.passCnt⟩, ?_⟩
  intro number k waiting before inside
  rw [intact.slot_byte waiting before inside, passedByte_block stream _ inside]

/-- One slot of two bytes in front of a ring of eight: a block, then seven bytes given up
but two while it waits, then a block that wraps. -/
def wrapped : List Event :=
  [.write 7, .publish 7] ++ List.replicate 6 .main ++ [.main, .main, .wait, .post] ++
    [.write 4, .publish 11] ++ List.replicate 5 .main

theorem relay_accounts_wrapped :
    let b := run (observe ⟨1, 2, 8⟩ (BitVec.ofNat 8)) (started ⟨1, 2, 8⟩ (fun _ => 0) (fun _ => 0))
      wrapped
    (b.starts = [0, 7] ∧ b.lost = 5) ∧ b.prog.sLostBytes = BitVec.ofNat 32 b.lost ∧
      b.prog.txBuf 1 = 8 := by
  have sound : Cfg.Sound ⟨1, 2, 8⟩ := ⟨by decide, by decide, by decide, by decide⟩
  obtain ⟨-, ⟨lost, -⟩, slots⟩ :=
    relay_accounts sound (BitVec.ofNat 8) (fun _ => 0) (fun _ => 0) wrapped (by decide)
  exact ⟨by decide, lost, slots 1 1 (by decide) (by decide) (by decide)⟩

end Zyndra.Ad9361Rx
