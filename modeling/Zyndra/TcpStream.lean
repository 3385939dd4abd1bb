import Zyndra.CyclicRing
import Zyndra.Runs
import Zyndra.TcpRegs

/-!
# One connection of the streaming driver

`stream_to_client` polls the write pointer until a block is available, hands the
block to `ksock_send` and advances its own pointer. `ksock_send` offers what is
left of the block until the socket has taken all of it. The hardware stores its
byte stream round the ring and publishes how far it has come. The bench keeps the
memory behind the ring, the positions in the stream, the bytes the socket has
taken, and the ranges handed to `ksock_send`.

The driver's pointer is meant to pass the ring in whole blocks. A block that is
taken where less than a block is left before the end of the ring reaches behind it.
-/

namespace Zyndra.Ad936xTcp

open CyclicRing Runs

/-- Where `stream_to_client` stands: between two blocks, in `ksock_send` with its
`data` as an offset and its `len`, or behind its loop. -/
inductive Pc where
  | polling
  | sending (data len : BitVec 32)
  | stopped
  deriving DecidableEq, Repr

/-- The socket takes no more than it is offered. -/
def Pc.Offers : Pc → Int → Prop
  | .sending _ len, sent => sent ≤ len.toNat
  | _, _ => True

/-- A call of `ksock_send`: its range, with what had been sent and what had been
written then. -/
structure Handed where
  start : BitVec 32
  length : BitVec 32
  sent : Nat
  written : Nat
  deriving DecidableEq, Repr

structure Connection where
  priv : Priv
  pc : Pc
  rxBufWr : BitVec 32
  /-- The memory from the start of the ring on, and behind its end. -/
  memory : Nat → BitVec 8
  /-- Bytes the hardware has written since enable. -/
  written : Nat
  /-- Of them, those the write pointer counts. -/
  published : Nat
  /-- Bytes of the blocks the driver has advanced over. -/
  taken : Nat
  /-- What the socket has taken, and the ranges it was taken from. -/
  output : List (BitVec 8)
  handed : List Handed

/-- The hardware writes or publishes, the loop polls, the socket answers, or the
thread is asked to stop. -/
inductive Event where
  | hardware (bytes : Nat)
  | publish (bytes : Nat)
  | poll
  | sendmsg (sent : Int)
  | stop
  deriving DecidableEq, Repr

section Connection

variable (blockSize : BitVec 32) (samples : Nat → BitVec 8)

/-- Bytes between the driver's pointer and the hardware's. -/
def avail (c : Connection) : BitVec 32 :=
  cyclicDistance c.priv.rxbufSize c.priv.rdPtr c.rxBufWr

/-- The bytes of the memory from an offset on. -/
def bytesAt (memory : Nat → BitVec 8) (start count : Nat) : List (BitVec 8) :=
  (List.range count).map fun k => memory (start + k)

/-- One answer of `kernel_sendmsg` in `ksock_send`, and what its caller does when
the block is out. -/
def sendmsg (c : Connection) (data len : BitVec 32) (sent : Int) : Connection :=
  if sent ≤ 0 then { c with pc := .stopped }
  else
    let count := sent.toNat
    let output := c.output ++ bytesAt c.memory data.toNat count
    let left := len - BitVec.ofNat 32 count
    if 0 < left then
      { c with output := output, pc := .sending (data + BitVec.ofNat 32 count) left }
    else
      { c with
        output := output
        priv := { c.priv with rdPtr := wrapNext c.priv.rxbufSize c.priv.rdPtr blockSize }
        taken := c.taken + blockSize.toNat
        pc := .polling }

def step (c : Connection) (e : Event) : Connection :=
  match e, c.pc with
  | .hardware bytes, _ =>
    { c with
      memory := store c.priv.rxbufSize.toNat samples c.memory c.written bytes
      written := c.written + bytes }
  | .publish bytes, _ =>
    { c with
      published := c.published + bytes
      rxBufWr := BitVec.ofNat 32 ((c.published + bytes) % c.priv.rxbufSize.toNat) }
  | .poll, .polling =>
    if avail c < blockSize then c
    else
      { c with
        pc := .sending c.priv.rdPtr blockSize
        handed := c.handed ++ [⟨c.priv.rdPtr, blockSize, c.output.length, c.written⟩] }
  | .sendmsg sent, .sending data len => sendmsg blockSize c data len sent
  | .stop, .polling => { c with pc := .stopped }
  | _, _ => c

/-- The connection when `fpga_reset_and_enable` has returned and the hardware starts
at the beginning of the ring. -/
def enabled (priv : Priv) (memory : Nat → BitVec 8) : Connection where
  priv := (fpgaResetAndEnable priv).2
  pc := .polling
  rxBufWr := 0
  memory := memory
  written := 0
  published := 0
  taken := 0
  output := []
  handed := []

/-- The hardware stays less than one ring ahead of the reader and publishes only what
it has written, and the socket takes no more than it is offered. -/
def Rule (c : Connection) : Event → Prop
  | .hardware bytes => c.written + bytes < c.taken + c.priv.rxbufSize.toNat
  | .publish bytes => c.published + bytes ≤ c.written
  | .sendmsg sent => c.pc.Offers sent
  | _ => True

/-- The range lies in the ring, and the bytes following those sent before are in it,
written in full. -/
structure Handed.Whole (size : Nat) (h : Handed) : Prop where
  inside : h.start.toNat + h.length.toNat ≤ size
  written : h.sent + h.length.toNat ≤ h.written
  place : h.start.toNat = h.sent % size

/-- Every range handed out is whole, and what has been sent is the beginning of the
hardware's stream. -/
structure Streamed (c : Connection) : Prop where
  whole : ∀ h ∈ c.handed, h.Whole c.priv.rxbufSize.toNat
  beginning : c.output = (List.range c.output.length).map samples
  written : c.output.length ≤ c.written

/-- A block that is taken ends inside the ring. -/
def Tiles (c : Connection) : Event → Prop
  | .poll => c.pc = .polling → blockSize ≤ avail c →
    c.priv.rdPtr.toNat + blockSize.toNat ≤ c.priv.rxbufSize.toNat
  | _ => True

instance : (pc : Pc) → (sent : Int) → Decidable (pc.Offers sent)
  | .sending _ _, _ => inferInstanceAs (Decidable (_ ≤ _))
  | .polling, _ => isTrue trivial
  | .stopped, _ => isTrue trivial

instance (c : Connection) : (e : Event) → Decidable (Rule c e)
  | .hardware _ => inferInstanceAs (Decidable (_ < _))
  | .publish _ => inferInstanceAs (Decidable (_ ≤ _))
  | .sendmsg _ => inferInstanceAs (Decidable (Pc.Offers _ _))
  | .poll => isTrue trivial
  | .stop => isTrue trivial

instance (c : Connection) : (e : Event) → Decidable (Tiles blockSize c e)
  | .poll => inferInstanceAs (Decidable (_ → _))
  | .hardware _ => isTrue trivial
  | .publish _ => isTrue trivial
  | .sendmsg _ => isTrue trivial
  | .stop => isTrue trivial

/-- The pointers stand for the positions, and the ring holds the stream. -/
structure Paced (c : Connection) : Prop where
  positive : 0 < c.priv.rxbufSize.toNat
  reader : c.priv.rdPtr.toNat = c.taken % c.priv.rxbufSize.toNat
  writer : c.rxBufWr.toNat = c.published % c.priv.rxbufSize.toNat
  behind : c.taken ≤ c.published
  stored : c.published ≤ c.written
  ahead : c.written < c.taken + c.priv.rxbufSize.toNat
  contents : Holds c.priv.rxbufSize.toNat samples c.memory c.written

/-- What `ksock_send` has left of the block at the driver's pointer. -/
structure Left (c : Connection) (data len : BitVec 32) : Prop where
  positive : 0 < len.toNat
  within : len.toNat ≤ blockSize.toNat
  inside : c.priv.rdPtr.toNat + blockSize.toNat ≤ c.priv.rxbufSize.toNat
  available : c.taken + blockSize.toNat ≤ c.published
  place : data.toNat = c.priv.rdPtr.toNat + (blockSize.toNat - len.toNat)
  sent : c.output.length = c.taken + (blockSize.toNat - len.toNat)

/-- How far the driver has come with the block it stands at. -/
def Progress (c : Connection) : Prop :=
  match c.pc with
  | .polling => c.output.length = c.taken
  | .sending data len => Left blockSize c data len
  | .stopped => True

structure Sound (c : Connection) : Prop where
  paced : Paced samples c
  progress : Progress blockSize c
  streamed : Streamed samples c

/-- The driver stands at a whole number of blocks in a ring of whole blocks. -/
structure Aligned (c : Connection) : Prop where
  sound : Sound blockSize samples c
  ring : blockSize.toNat ∣ c.priv.rxbufSize.toNat
  taken : blockSize.toNat ∣ c.taken

variable {blockSize samples} {c : Connection}

/-- The distance of the pointers is exact while the hardware is not a ring ahead. -/
theorem Paced.avail_exact (held : Paced samples c) :
    (avail c).toNat = c.published - c.taken := by
  have distance := cyclicDistance_positions held.positive held.behind held.reader held.writer
  have below : c.published - c.taken < c.priv.rxbufSize.toNat := by
    have behind := held.behind
    have stored := held.stored
    have ahead := held.ahead
    omega
  rw [avail, distance, Nat.mod_eq_of_lt below]

/-- The hardware writes into places the reader has left. -/
theorem Sound.hardware (held : Sound blockSize samples c) {bytes : Nat}
    (rule : c.written + bytes < c.taken + c.priv.rxbufSize.toNat) :
    Sound blockSize samples (step blockSize samples c (.hardware bytes)) where
  paced :=
    { held.paced with
      stored := Nat.le_add_right_of_le held.paced.stored
      ahead := rule
      contents := held.paced.contents.store bytes }
  progress := by
    have progress := held.progress
    unfold Progress at progress ⊢
    simp only [step]
    cases standing : c.pc with
    | polling => rwa [standing] at progress
    | sending data len =>
      rw [standing] at progress
      exact { progress with }
    | stopped => trivial
  streamed :=
    { held.streamed with written := Nat.le_add_right_of_le held.streamed.written }

theorem Sound.publish (held : Sound blockSize samples c) {bytes : Nat}
    (rule : c.published + bytes ≤ c.written) :
    Sound blockSize samples (step blockSize samples c (.publish bytes)) where
  paced :=
    { held.paced with
      writer := by
        have below : (c.published + bytes) % c.priv.rxbufSize.toNat < 2 ^ 32 :=
          (Nat.mod_lt _ held.paced.positive).trans c.priv.rxbufSize.isLt
        exact Nat.mod_eq_of_lt below
      behind := Nat.le_add_right_of_le held.paced.behind
      stored := rule }
  progress := by
    have progress := held.progress
    unfold Progress at progress ⊢
    simp only [step]
    cases standing : c.pc with
    | polling => rwa [standing] at progress
    | sending data len =>
      rw [standing] at progress
      exact { progress with available := Nat.le_add_right_of_le progress.available }
    | stopped => trivial
  streamed := { held.streamed with }

/-- A block that is available is handed out whole exactly when it ends inside the ring. -/
theorem Sound.block_whole_iff (held : Sound blockSize samples c) (standing : c.pc = .polling)
    (enough : blockSize ≤ avail c) :
    Handed.Whole c.priv.rxbufSize.toNat ⟨c.priv.rdPtr, blockSize, c.output.length, c.written⟩ ↔
      c.priv.rdPtr.toNat + blockSize.toNat ≤ c.priv.rxbufSize.toNat := by
  have progress : c.output.length = c.taken := by
    have progress := held.progress
    rwa [Progress, standing] at progress
  have available : blockSize.toNat ≤ c.published - c.taken :=
    held.paced.avail_exact ▸ BitVec.le_def.mp enough
  have behind := held.paced.behind
  have stored := held.paced.stored
  constructor
  · intro whole
    exact whole.inside
  · intro inside
    have place : c.priv.rdPtr.toNat = c.output.length % c.priv.rxbufSize.toNat := by
      rw [progress]
      exact held.paced.reader
    have written : c.output.length + blockSize.toNat ≤ c.written := by omega
    exact ⟨inside, written, place⟩

/-- A poll keeps what has been sent and handed out in order exactly when the block it
takes, if it takes one, ends inside the ring. -/
theorem Sound.poll_iff (held : Sound blockSize samples c) :
    Streamed samples (step blockSize samples c .poll) ↔ Tiles blockSize c .poll := by
  by_cases polls : c.pc = .polling ∧ blockSize ≤ avail c
  · obtain ⟨standing, enough⟩ := polls
    have decided := held.block_whole_iff standing enough
    have notBelow : ¬ avail c < blockSize := BitVec.not_lt.mpr enough
    simp only [step, standing, notBelow, if_false, Tiles, enough, true_imp_iff]
    rw [← decided]
    constructor
    · intro streamed
      exact streamed.whole _ (List.mem_append_right _ List.mem_cons_self)
    · intro whole
      refine { held.streamed with whole := fun h member => ?_ }
      rcases List.mem_append.mp member with before | last
      · exact held.streamed.whole h before
      · rw [List.mem_singleton.mp last]
        exact whole
  · have kept : step blockSize samples c .poll = c := by
      cases standing : c.pc with
      | polling =>
        have below : avail c < blockSize :=
          BitVec.not_le.mp fun enough => polls ⟨standing, enough⟩
        simp only [step, standing, below, if_true]
      | sending data len => simp only [step, standing]
      | stopped => simp only [step, standing]
    rw [kept]
    exact ⟨fun _ standing enough => absurd ⟨standing, enough⟩ polls, fun _ => held.streamed⟩

/-- A poll whose block ends inside the ring leaves all of the block to be sent. -/
theorem Sound.poll (held : Sound blockSize samples c) (positive : 0 < blockSize.toNat)
    (tiles : Tiles blockSize c .poll) :
    Sound blockSize samples (step blockSize samples c .poll) := by
  have streamed := held.poll_iff.mpr tiles
  cases standing : c.pc with
  | polling =>
    have progress : c.output.length = c.taken := by
      have progress := held.progress
      rwa [Progress, standing] at progress
    by_cases below : avail c < blockSize
    · simpa only [step, standing, below, if_true] using held
    · have enough : blockSize ≤ avail c := BitVec.not_lt.mp below
      have available : blockSize.toNat ≤ c.published - c.taken :=
        held.paced.avail_exact ▸ BitVec.le_def.mp enough
      have behind := held.paced.behind
      simp only [step, standing, below, if_false] at streamed ⊢
      exact
        { paced := { held.paced with }
          progress :=
            { positive := positive
              within := Nat.le_refl _
              inside := tiles standing enough
              available := by show c.taken + blockSize.toNat ≤ c.published; omega
              place := by simp
              sent := by simpa using progress }
          streamed := streamed }
  | sending data len => simpa only [step, standing] using held
  | stopped => simpa only [step, standing] using held

/-- The bytes the socket takes are the next ones of the stream. -/
theorem Left.next_bytes {data len : BitVec 32} (left : Left blockSize c data len)
    (paced : Paced samples c) {count : Nat} (fits : count ≤ len.toNat) :
    c.output ++ bytesAt c.memory data.toNat count =
      c.output ++ (List.range count).map fun k => samples (c.output.length + k) := by
  have within := left.within
  have inside := left.inside
  have place := left.place
  have sent := left.sent
  have available := left.available
  have stored := paced.stored
  have ahead := paced.ahead
  have positive := left.positive
  have position : data.toNat = c.output.length % c.priv.rxbufSize.toNat := by
    rw [sent, ← Nat.mod_add_mod, ← paced.reader, place, Nat.mod_eq_of_lt (by omega)]
  rw [bytesAt, paced.contents.range position (by omega) (by omega) (by omega)]

/-- Appending the next elements of a stream to a beginning of it. -/
theorem beginning_append {output : List (BitVec 8)}
    (beginning : output = (List.range output.length).map samples) (count : Nat) :
    output ++ (List.range count).map (fun k => samples (output.length + k)) =
      (List.range (output.length + count)).map samples := by
  rw [List.range_add, List.map_append, List.map_map, ← beginning]
  rfl

/-- What has been sent stays a beginning of the stream. -/
theorem Left.streamed {data len : BitVec 32} (left : Left blockSize c data len)
    (held : Sound blockSize samples c) {count : Nat} (fits : count ≤ len.toNat) :
    (c.output ++ bytesAt c.memory data.toNat count).length = c.output.length + count ∧
      Streamed samples { c with output := c.output ++ bytesAt c.memory data.toNat count } := by
  have longer : (c.output ++ bytesAt c.memory data.toNat count).length =
      c.output.length + count := by simp [bytesAt]
  have within := left.within
  have available := left.available
  have sent := left.sent
  have stored := held.paced.stored
  refine ⟨longer, held.streamed.whole, ?_, ?_⟩
  · show c.output ++ bytesAt c.memory data.toNat count = (List.range _).map samples
    rw [longer, left.next_bytes held.paced fits]
    exact beginning_append held.streamed.beginning count
  · show (c.output ++ bytesAt c.memory data.toNat count).length ≤ c.written
    omega

/-- `len -= sent` does not go below zero. -/
theorem len_sub {len : BitVec 32} {count : Nat} (fits : count ≤ len.toNat) :
    (len - BitVec.ofNat 32 count).toNat = len.toNat - count := by
  have word : (BitVec.ofNat 32 count).toNat = count :=
    Nat.mod_eq_of_lt (Nat.lt_of_le_of_lt fits len.isLt)
  rw [BitVec.toNat_sub_of_le (by rwa [BitVec.le_def, word]), word]

/-- `data += sent` does not leave the words. -/
theorem data_add {data : BitVec 32} {count : Nat} (fits : data.toNat + count < 2 ^ 32) :
    (data + BitVec.ofNat 32 count).toNat = data.toNat + count := by
  rw [BitVec.toNat_add, BitVec.toNat_ofNat, Nat.add_mod_mod, Nat.mod_eq_of_lt fits]

/-- With a part of the block sent, the rest of it is left. -/
theorem Left.part {data len : BitVec 32} (left : Left blockSize c data len) {count : Nat}
    (fits : count ≤ len.toNat) (more : 0 < len - BitVec.ofNat 32 count)
    {output : List (BitVec 8)} (longer : output.length = c.output.length + count) :
    Left blockSize { c with output := output } (data + BitVec.ofNat 32 count)
      (len - BitVec.ofNat 32 count) := by
  have rest := len_sub fits
  have positive : 0 < (len - BitVec.ofNat 32 count).toNat := BitVec.lt_def.mp more
  have within := left.within
  have inside := left.inside
  have place := left.place
  have sent := left.sent
  have ring := c.priv.rxbufSize.isLt
  have moved : (data + BitVec.ofNat 32 count).toNat = data.toNat + count := data_add (by omega)
  exact
    { positive := positive
      within := by omega
      inside := inside
      available := left.available
      place := by
        show _ = c.priv.rdPtr.toNat + _
        omega
      sent := by
        show output.length = c.taken + _
        omega }

/-- With all of the block sent, the driver stands at the position behind it. -/
theorem Left.advanced {data len : BitVec 32} (left : Left blockSize c data len)
    (paced : Paced samples c) :
    Paced samples { c with
      priv := { c.priv with rdPtr := wrapNext c.priv.rxbufSize c.priv.rdPtr blockSize }
      taken := c.taken + blockSize.toNat } where
  positive := paced.positive
  reader := wrapNext_position paced.reader left.inside
  writer := paced.writer
  behind := left.available
  stored := paced.stored
  ahead := by
    have ahead := paced.ahead
    show c.written < c.taken + blockSize.toNat + c.priv.rxbufSize.toNat
    omega
  contents := paced.contents

/-- An answer of the socket sends the next bytes of the stream, and the driver
advances when the block is out. -/
theorem Sound.sendmsg {data len : BitVec 32} (held : Sound blockSize samples c)
    (standing : c.pc = .sending data len) {sent : Int} (rule : sent ≤ len.toNat) :
    Sound blockSize samples (sendmsg blockSize c data len sent) := by
  have left : Left blockSize c data len := by
    have progress := held.progress
    rwa [Progress, standing] at progress
  unfold Ad936xTcp.sendmsg
  by_cases failed : sent ≤ 0
  · simp only [failed, if_true]
    exact ⟨{ held.paced with }, trivial, { held.streamed with }⟩
  · obtain ⟨count, rfl⟩ : ∃ count : Nat, sent = count := ⟨sent.toNat, by omega⟩
    have fits : count ≤ len.toNat := by exact_mod_cast rule
    obtain ⟨longer, streamed⟩ := left.streamed held fits
    simp only [failed, if_false, Int.toNat_natCast]
    by_cases more : 0 < len - BitVec.ofNat 32 count
    · simp only [more, if_true]
      exact ⟨{ held.paced with }, { left.part fits more longer with }, { streamed with }⟩
    · simp only [more, if_false]
      have all : len.toNat ≤ count := by
        have none : ¬ 0 < (len - BitVec.ofNat 32 count).toNat := more
        rw [len_sub fits] at none
        omega
      have sent := left.sent
      have within := left.within
      have polling : (c.output ++ bytesAt c.memory data.toNat count).length =
          c.taken + blockSize.toNat := by omega
      exact ⟨{ left.advanced held.paced with }, polling, { streamed with }⟩

/-- Every step of a run keeps the driver in step as long as its blocks end inside the
ring. -/
theorem Sound.step (held : Sound blockSize samples c) (positive : 0 < blockSize.toNat)
    (e : Event) (rule : Rule c e) (tiles : Tiles blockSize c e) :
    Sound blockSize samples (step blockSize samples c e) := by
  cases e with
  | hardware bytes => exact held.hardware rule
  | publish bytes => exact held.publish rule
  | poll => exact held.poll positive tiles
  | sendmsg sent =>
    cases standing : c.pc with
    | sending data len =>
      have offered : sent ≤ len.toNat := by simpa only [Rule, standing, Pc.Offers] using rule
      simpa only [Ad936xTcp.step, standing] using held.sendmsg standing offered
    | polling => simpa only [Ad936xTcp.step, standing] using held
    | stopped => simpa only [Ad936xTcp.step, standing] using held
  | stop =>
    cases standing : c.pc with
    | polling =>
      simp only [Ad936xTcp.step, standing]
      exact ⟨{ held.paced with }, trivial, { held.streamed with }⟩
    | sending data len => simpa only [Ad936xTcp.step, standing] using held
    | stopped => simpa only [Ad936xTcp.step, standing] using held

/-- Only a poll can hand out a range. -/
theorem Sound.streamed_iff (held : Sound blockSize samples c) (positive : 0 < blockSize.toNat)
    (e : Event) (rule : Rule c e) :
    Streamed samples (Ad936xTcp.step blockSize samples c e) ↔ Tiles blockSize c e := by
  cases e with
  | poll => exact held.poll_iff
  | hardware bytes => exact iff_of_true (held.step positive _ rule trivial).streamed trivial
  | publish bytes => exact iff_of_true (held.step positive _ rule trivial).streamed trivial
  | sendmsg sent => exact iff_of_true (held.step positive _ rule trivial).streamed trivial
  | stop => exact iff_of_true (held.step positive _ rule trivial).streamed trivial

/-- A connection starts in step, whatever the memory holds. -/
theorem sound_enabled (priv : Priv) (memory : Nat → BitVec 8) (positive : 0 < blockSize.toNat)
    (ring : blockSize ≤ priv.rxbufSize) : Sound blockSize samples (enabled priv memory) where
  paced :=
    { positive := Nat.lt_of_lt_of_le positive ring
      reader := (Nat.zero_mod _).symm
      writer := (Nat.zero_mod _).symm
      behind := Nat.le_refl 0
      stored := Nat.le_refl 0
      ahead := by
        show 0 < 0 + priv.rxbufSize.toNat
        have room : blockSize.toNat ≤ priv.rxbufSize.toNat := ring
        omega
      contents := fun position before => absurd before (Nat.not_lt_zero position) }
  progress := rfl
  streamed := ⟨by simp [enabled], rfl, Nat.le_refl 0⟩

/-- A step leaves the size of the ring, and the driver where it was or a block
further on. -/
theorem step_taken (c : Connection) (e : Event) :
    (step blockSize samples c e).priv.rxbufSize = c.priv.rxbufSize ∧
      ((step blockSize samples c e).taken = c.taken ∨
        (step blockSize samples c e).taken = c.taken + blockSize.toNat) := by
  cases e with
  | hardware bytes => exact ⟨rfl, .inl rfl⟩
  | publish bytes => exact ⟨rfl, .inl rfl⟩
  | poll =>
    cases standing : c.pc with
    | polling =>
      simp only [step, standing]
      split <;> exact ⟨rfl, .inl rfl⟩
    | sending data len => simp [step, standing]
    | stopped => simp [step, standing]
  | sendmsg sent =>
    cases standing : c.pc with
    | sending data len =>
      simp only [step, standing, sendmsg]
      split
      · exact ⟨rfl, .inl rfl⟩
      · split
        · exact ⟨rfl, .inl rfl⟩
        · exact ⟨rfl, .inr rfl⟩
    | polling => simp [step, standing]
    | stopped => simp [step, standing]
  | stop => cases standing : c.pc <;> simp [step, standing]

/-- A block taken at a whole number of blocks ends inside the ring. -/
theorem Aligned.tiles (aligned : Aligned blockSize samples c) (e : Event) :
    Tiles blockSize c e := by
  cases e with
  | poll =>
    intro _ _
    have reader := aligned.sound.paced.reader
    have below : c.priv.rdPtr.toNat < c.priv.rxbufSize.toNat :=
      reader ▸ Nat.mod_lt _ aligned.sound.paced.positive
    exact step_fits aligned.ring (reader ▸ offset_aligned aligned.ring aligned.taken) below
  | _ => trivial

theorem Aligned.step (aligned : Aligned blockSize samples c) (positive : 1 ≤ blockSize.toNat)
    (e : Event) (rule : Rule c e) : Aligned blockSize samples (step blockSize samples c e) := by
  obtain ⟨size, taken⟩ := @step_taken blockSize samples c e
  have sound := aligned.sound.step positive e rule (aligned.tiles e)
  refine ⟨sound, size ▸ aligned.ring, ?_⟩
  rcases taken with same | further
  · exact same ▸ aligned.taken
  · exact further ▸ Nat.dvd_add aligned.taken (Nat.dvd_refl _)

variable (blockSize samples)

/-- A connection sends the hardware's stream and nothing else exactly when every
block it takes ends inside the ring. -/
theorem connection_streamed_iff (priv : Priv) (memory : Nat → BitVec 8) (events : List Event)
    (positive : 1 ≤ blockSize.toNat) (ring : blockSize ≤ priv.rxbufSize)
    (follows : Follows Rule (step blockSize samples) (enabled priv memory) events) :
    Always (Streamed samples) (step blockSize samples) (enabled priv memory) events ↔
      Follows (Tiles blockSize) (step blockSize samples) (enabled priv memory) events := by
  have initial : Sound blockSize samples (enabled priv memory) :=
    sound_enabled priv memory positive ring
  exact always_iff_follows (fun c e held rule => held.streamed_iff positive e rule)
    (fun c e held rule tiles => held.step positive e rule tiles) initial initial.streamed
    events follows

/-- Blocks whose size divides the ring always end inside it. -/
theorem blocks_tile (priv : Priv) (memory : Nat → BitVec 8) (events : List Event)
    (positive : 1 ≤ blockSize.toNat) (ring : blockSize ≤ priv.rxbufSize)
    (whole : blockSize.toNat ∣ priv.rxbufSize.toNat)
    (follows : Follows Rule (step blockSize samples) (enabled priv memory) events) :
    Follows (Tiles blockSize) (step blockSize samples) (enabled priv memory) events := by
  have initial : Aligned blockSize samples (enabled priv memory) :=
    ⟨sound_enabled priv memory positive ring, whole, Nat.dvd_zero _⟩
  exact follows_of_invariant (fun c e aligned rule => aligned.step positive e rule)
    (fun c e aligned _ => aligned.tiles e) initial events follows

/-- A block of three quarters of the ring, all of it sent, and a second one. The second
range starts inside the ring and ends behind it. -/
theorem block_behind_ring :
    Follows Rule (step 0xc00 fun _ => 0) (enabled ⟨0x10000000, 0x1000, 0⟩ fun _ => 0)
        [.hardware 0xc00, .publish 0xc00, .poll, .sendmsg 0xc00, .hardware 0xc00,
          .publish 0xc00, .poll] ∧
      ¬ Streamed (fun _ => 0) (run (step 0xc00 fun _ => 0)
        (enabled ⟨0x10000000, 0x1000, 0⟩ fun _ => 0)
        [.hardware 0xc00, .publish 0xc00, .poll, .sendmsg 0xc00, .hardware 0xc00,
          .publish 0xc00, .poll]) := by
  refine ⟨by decide, ?_⟩
  intro streamed
  have last := streamed.whole ⟨0xc00, 0xc00, 0xc00, 0x1800⟩ (by decide +kernel)
  exact absurd last.inside (by decide)

theorem block_streamed :
    Always (Streamed fun k => BitVec.ofNat 8 k) (step 3 fun k => BitVec.ofNat 8 k)
      (enabled ⟨0x10000000, 8, 0⟩ fun _ => 0)
      [.hardware 5, .publish 4, .poll, .sendmsg 1, .hardware 2, .sendmsg 2, .stop] :=
  (connection_streamed_iff 3 (fun k => BitVec.ofNat 8 k) _ _ _ (by decide) (by decide)
    (by decide)).mpr (by decide)

end Connection

end Zyndra.Ad936xTcp
