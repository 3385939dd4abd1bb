import Zyndra.Batches
import Mathlib.Data.Int.GCD
import Mathlib.Data.List.Induction
import Mathlib.Tactic.Ring

/-!
# Blocks of the ring as UDP datagrams

`udp_send_ring` cuts a block into datagrams and carries what is left over in a
static buffer, which the next block completes first. It completes it whatever the
length of that block, and it copies what is left over whatever its length; at most
64 datagrams are sent in one call. Copies are made with their bounds here, so a
call that would read or write outside them is an error.

Between calls the bytes carried are the total modulo the datagram size. With
blocks of one length these are the multiples of a common divisor, and the two
copies stay within their bounds exactly when the smallest of them can always be
completed and the largest still fits.
-/

namespace Zyndra.Net

open Batches

/-- `DATAGRAM_SIZE`, and the length of `msgs` and `iovs`. -/
def datagramSize : Nat := 1472
def msgsLength : Nat := 64

/-- The buffer between calls: an array of `DATAGRAM_SIZE` bytes. -/
structure WrapBuf where
  bytes : List (BitVec 8)
  sized : bytes.length = datagramSize

/-- The static variables of `udp_send_ring`. -/
structure UdpState where
  sWrapBuf : WrapBuf
  sWrapPos : Nat

/-- An access outside the block or outside the buffer. -/
inductive Fault where
  | readOutside
  | writeOutside
  deriving DecidableEq, Repr

/-- `memcpy` into the buffer at an offset, from the start of the given bytes. -/
def WrapBuf.memcpy (buf : WrapBuf) (offset : Nat) (data : List (BitVec 8)) (length : Nat) :
    Except Fault WrapBuf :=
  if short : data.length < length then .error .readOutside
  else if long : datagramSize < offset + length then .error .writeOutside
  else
    .ok
      { bytes := buf.bytes.take offset ++ data.take length ++ buf.bytes.drop (offset + length)
        sized := by
          have sized := buf.sized
          simp only [List.length_append, List.length_take, List.length_drop]
          omega }

/-- The first datagram, completed from what was carried: the state after it, the
datagram, and the bytes of the block left. -/
def completeFirst (s : UdpState) (data : List (BitVec 8)) :
    Except Fault (UdpState × List (List (BitVec 8)) × List (BitVec 8)) :=
  if 0 < s.sWrapPos then do
    let need := datagramSize - s.sWrapPos
    let buf ← s.sWrapBuf.memcpy s.sWrapPos data need
    return (⟨buf, 0⟩, [buf.bytes], data.drop need)
  else return (s, [], data)

/-- `udp_send_ring`: the state after the call and the datagrams sent. -/
def udpSendRing (s : UdpState) (data : List (BitVec 8)) :
    Except Fault (UdpState × List (List (BitVec 8))) := do
  let (s, first, data) ← completeFirst s data
  let (more, rest) := batch datagramSize (msgsLength - first.length) data
  if 0 < rest.length then
    let buf ← s.sWrapBuf.memcpy 0 rest rest.length
    return (⟨buf, rest.length⟩, first ++ more)
  else return (s, first ++ more)

/-- Consecutive calls: the state after them and the datagrams sent by each. -/
def sendAll (s : UdpState) : List (List (BitVec 8)) →
    Except Fault (UdpState × List (List (List (BitVec 8))))
  | [] => .ok (s, [])
  | block :: blocks => do
    let (s, sent) ← udpSendRing s block
    let (s, later) ← sendAll s blocks
    return (s, sent :: later)

/-- The static variables at the start of the process. -/
def loaded : UdpState := ⟨⟨List.replicate datagramSize 0, List.length_replicate⟩, 0⟩

/-- The bytes carried to the next call. -/
def UdpState.carried (s : UdpState) : List (BitVec 8) := s.sWrapBuf.bytes.take s.sWrapPos

/-- What consecutive calls should have done: no copy outside its bounds, less than
a datagram carried, whole datagrams sent with an entry of the arrays for each, and
every byte sent or carried, in order. -/
structure Preserves (blocks : List (List (BitVec 8))) (s : UdpState)
    (sent : List (List (List (BitVec 8)))) : Prop where
  carries : s.sWrapPos < datagramSize
  fits : ∀ datagrams ∈ sent, datagrams.length ≤ msgsLength
  whole : ∀ datagrams ∈ sent, ∀ datagram ∈ datagrams, datagram.length = datagramSize
  stream : sent.flatten.flatten ++ s.carried = blocks.flatten

/-- Every call succeeds and the stream is preserved. -/
def StreamPreserved (blocks : List (List (BitVec 8))) : Prop :=
  ∃ s sent, sendAll loaded blocks = .ok (s, sent) ∧ Preserves blocks s sent

/-! ## One call -/

section Call

variable {s : UdpState} {data : List (BitVec 8)}

/-- A copy within its bounds replaces the bytes from the offset on. -/
theorem memcpy_ok (buf : WrapBuf) {offset length : Nat} (long : length ≤ data.length)
    (fits : offset + length ≤ datagramSize) :
    ∃ copied, buf.memcpy offset data length = .ok copied ∧
      copied.bytes = buf.bytes.take offset ++ data.take length ++
        buf.bytes.drop (offset + length) := by
  simp only [WrapBuf.memcpy, dif_neg (Nat.not_lt.mpr long), dif_neg (Nat.not_lt.mpr fits)]
  exact ⟨_, rfl, rfl⟩

theorem memcpy_short (buf : WrapBuf) {offset length : Nat} (short : data.length < length) :
    buf.memcpy offset data length = .error .readOutside := by
  simp only [WrapBuf.memcpy, dif_pos short]

theorem memcpy_long (buf : WrapBuf) {offset length : Nat} (long : length ≤ data.length)
    (beyond : datagramSize < offset + length) :
    buf.memcpy offset data length = .error .writeOutside := by
  simp only [WrapBuf.memcpy, dif_neg (Nat.not_lt.mpr long), dif_pos beyond]

/-- As many bytes are carried as the position says. -/
theorem carried_length (carries : s.sWrapPos < datagramSize) :
    s.carried.length = s.sWrapPos := by
  rw [UdpState.carried, List.length_take, s.sWrapBuf.sized]
  exact Nat.min_eq_left (Nat.le_of_lt carries)

/-- A block too short to complete what is carried is read beyond its end. -/
theorem udpSendRing_short (some : 0 < s.sWrapPos)
    (short : data.length < datagramSize - s.sWrapPos) :
    udpSendRing s data = .error .readOutside := by
  have first : completeFirst s data = .error .readOutside := by
    simp only [completeFirst, if_pos some, memcpy_short s.sWrapBuf short]
    rfl
  simp only [udpSendRing, first]
  rfl

/-- A block long enough, cut after what is carried: the first datagram is the one
completed, and the others are cut from the rest of the block. -/
theorem completeFirst_ok (carries : s.sWrapPos < datagramSize)
    (enough : 0 < s.sWrapPos → datagramSize - s.sWrapPos ≤ data.length) :
    ∃ emptied first left, completeFirst s data = .ok (emptied, first, left) ∧
      emptied.sWrapPos = 0 ∧
      batch datagramSize msgsLength (s.carried ++ data) =
        (first ++ (batch datagramSize (msgsLength - first.length) left).1,
          (batch datagramSize (msgsLength - first.length) left).2) := by
  have length := carried_length carries
  rcases Nat.eq_zero_or_pos s.sWrapPos with none | some
  · have nothing : s.carried = [] := by simp [UdpState.carried, none]
    refine ⟨s, [], data, ?_, none, ?_⟩
    · simp only [completeFirst, none, Nat.lt_irrefl, if_false]
      rfl
    · simp [nothing]
  · have long := enough some
    obtain ⟨copied, done, bytes⟩ := memcpy_ok s.sWrapBuf long
      (Nat.le_of_eq (Nat.add_sub_cancel' (Nat.le_of_lt carries)))
    have full : copied.bytes = (s.carried ++ data).take datagramSize := by
      have beyond : s.sWrapBuf.bytes.drop (s.sWrapPos + (datagramSize - s.sWrapPos)) = [] := by
        rw [Nat.add_sub_cancel' (Nat.le_of_lt carries)]
        exact List.drop_eq_nil_of_le (Nat.le_of_eq s.sWrapBuf.sized)
      have front : s.carried.take datagramSize = s.carried :=
        List.take_of_length_le (by omega)
      rw [bytes, beyond, List.append_nil, List.take_append, length, front]
      rfl
    have rest : data.drop (datagramSize - s.sWrapPos) = (s.carried ++ data).drop datagramSize := by
      have front : s.carried.drop datagramSize = [] := List.drop_eq_nil_of_le (by omega)
      rw [List.drop_append, length, front, List.nil_append]
    refine ⟨⟨copied, 0⟩, [copied.bytes], data.drop (datagramSize - s.sWrapPos), ?_, rfl, ?_⟩
    · simp only [completeFirst, if_pos some, done]
      rfl
    · have whole : datagramSize ≤ (s.carried ++ data).length := by
        rw [List.length_append, length]
        omega
      rw [full, rest]
      exact batch_first datagramSize 63 _ whole

/-- What a call does once the first datagram is complete. -/
theorem udpSendRing_completed {emptied : UdpState} {first : List (List (BitVec 8))}
    {left : List (BitVec 8)} (completed : completeFirst s data = .ok (emptied, first, left)) :
    udpSendRing s data =
      if 0 < (batch datagramSize (msgsLength - first.length) left).2.length then do
        let buf ← emptied.sWrapBuf.memcpy 0
          (batch datagramSize (msgsLength - first.length) left).2
          (batch datagramSize (msgsLength - first.length) left).2.length
        return (⟨buf, (batch datagramSize (msgsLength - first.length) left).2.length⟩,
          first ++ (batch datagramSize (msgsLength - first.length) left).1)
      else return (emptied, first ++ (batch datagramSize (msgsLength - first.length) left).1) := by
  simp only [udpSendRing, completed]
  rfl

/-- A call within the bounds sends the datagrams cut from what was carried and the
block, and carries the rest. -/
theorem udpSendRing_ok (carries : s.sWrapPos < datagramSize)
    (enough : 0 < s.sWrapPos → datagramSize - s.sWrapPos ≤ data.length)
    (fits : (batch datagramSize msgsLength (s.carried ++ data)).2.length ≤ datagramSize) :
    ∃ after, udpSendRing s data =
        .ok (after, (batch datagramSize msgsLength (s.carried ++ data)).1) ∧
      after.carried = (batch datagramSize msgsLength (s.carried ++ data)).2 ∧
      after.sWrapPos = (batch datagramSize msgsLength (s.carried ++ data)).2.length := by
  obtain ⟨emptied, first, left, completed, zero, cut⟩ := completeFirst_ok carries enough
  rw [udpSendRing_completed completed]
  rw [cut] at fits ⊢
  dsimp only at fits ⊢
  generalize batch datagramSize (msgsLength - first.length) left = batched at fits ⊢
  split
  · obtain ⟨copied, done, bytes⟩ := memcpy_ok emptied.sWrapBuf (Nat.le_refl batched.2.length)
      (show 0 + batched.2.length ≤ datagramSize by omega)
    refine ⟨⟨copied, batched.2.length⟩, ?_, ?_, rfl⟩
    · rw [done]
      rfl
    · simp [UdpState.carried, bytes]
  · rename_i none
    have nothing : batched.2.length = 0 := Nat.eq_zero_of_not_pos none
    refine ⟨emptied, rfl, ?_, ?_⟩
    · rw [List.length_eq_zero_iff.mp nothing, UdpState.carried, zero, List.take_zero]
    · rw [nothing, zero]

/-- A rest longer than the buffer is written beyond its end. -/
theorem udpSendRing_long (carries : s.sWrapPos < datagramSize)
    (enough : 0 < s.sWrapPos → datagramSize - s.sWrapPos ≤ data.length)
    (beyond : datagramSize < (batch datagramSize msgsLength (s.carried ++ data)).2.length) :
    udpSendRing s data = .error .writeOutside := by
  obtain ⟨emptied, first, left, completed, zero, cut⟩ := completeFirst_ok carries enough
  rw [udpSendRing_completed completed]
  rw [cut] at beyond
  dsimp only at beyond
  generalize batch datagramSize (msgsLength - first.length) left = batched at beyond ⊢
  have some : 0 < batched.2.length := Nat.lt_of_le_of_lt (Nat.zero_le _) beyond
  have outside := memcpy_long emptied.sWrapBuf (Nat.le_refl batched.2.length)
    (show datagramSize < 0 + batched.2.length by omega)
  rw [if_pos some, outside]
  rfl

end Call

/-! ## Consecutive calls -/

section Calls

variable {blocks : List (List (BitVec 8))} {block : List (BitVec 8)}

/-- One call more, after calls that succeeded. -/
theorem sendAll_append (s : UdpState) (blocks : List (List (BitVec 8)))
    (block : List (BitVec 8)) :
    sendAll s (blocks ++ [block]) = (do
      let (after, sent) ← sendAll s blocks
      let (last, datagrams) ← udpSendRing after block
      return (last, sent ++ [datagrams])) := by
  induction blocks generalizing s with
  | nil =>
    simp only [List.nil_append, sendAll, bind, Except.bind]
  | cons first others inductionHypothesis =>
    rw [List.cons_append, sendAll, sendAll]
    cases udpSendRing s first with
    | error fault => rfl
    | ok result =>
      simp only [bind, Except.bind, inductionHypothesis]
      cases sendAll result.1 others with
      | error fault => rfl
      | ok later =>
        simp only [pure, Except.pure]
        cases udpSendRing later.1 block <;> rfl

/-- With blocks of one length the bytes carried are the total modulo the datagram
size: everything else has been sent in whole datagrams. -/
theorem Preserves.position {s : UdpState} {sent : List (List (List (BitVec 8)))} {len : Nat}
    (preserves : Preserves blocks s sent) (uniform : ∀ block ∈ blocks, block.length = len) :
    s.sWrapPos = blocks.length * len % datagramSize := by
  have datagrams : sent.flatten.flatten.length = sent.flatten.length * datagramSize := by
    apply flatten_length
    intro datagram member
    obtain ⟨call, sentThen, inCall⟩ := List.mem_flatten.mp member
    exact preserves.whole call sentThen datagram inCall
  have stream := congrArg List.length preserves.stream
  rw [List.length_append, carried_length preserves.carries, datagrams, flatten_length uniform]
    at stream
  rw [← stream, Nat.mul_comm, Nat.mul_add_mod, Nat.mod_eq_of_lt preserves.carries]

/-- A call whose bounds hold preserves the stream. -/
theorem Preserves.call {s : UdpState} {sent : List (List (List (BitVec 8)))}
    (preserves : Preserves blocks s sent)
    (enough : 0 < s.sWrapPos → datagramSize - s.sWrapPos ≤ block.length)
    (few : s.sWrapPos + block.length < datagramSize * (msgsLength + 1)) :
    ∃ after datagrams, udpSendRing s block = .ok (after, datagrams) ∧
      Preserves (blocks ++ [block]) after (sent ++ [datagrams]) := by
  have length := carried_length preserves.carries
  have short : (batch datagramSize msgsLength (s.carried ++ block)).2.length < datagramSize := by
    rw [batch_rest, List.length_append, length]
    exact few
  obtain ⟨after, done, carried, position⟩ :=
    udpSendRing_ok preserves.carries enough (Nat.le_of_lt short)
  refine ⟨after, _, done, position ▸ short, ?_, ?_, ?_⟩
  · intro datagrams member
    rcases List.mem_append.mp member with earlier | last
    · exact preserves.fits datagrams earlier
    · rw [List.mem_singleton.mp last]
      exact batch_room _ _ _
  · intro datagrams member
    rcases List.mem_append.mp member with earlier | last
    · exact preserves.whole datagrams earlier
    · rw [List.mem_singleton.mp last]
      exact batch_size _ _ _
  · have conserved := batch_conserves datagramSize msgsLength (s.carried ++ block)
    simp only [List.flatten_append, List.flatten_cons, List.flatten_nil, List.append_nil,
      ← preserves.stream, carried, List.append_assoc]
    rw [conserved]

/-- Without any call there is nothing to preserve. -/
theorem streamPreserved_nil : StreamPreserved [] :=
  ⟨loaded, [], rfl, ⟨by decide, by simp, by simp, rfl⟩⟩

/-- After blocks of one length, another one preserves the stream exactly when it
completes what is carried, and leaves less than a datagram behind 64 of them. -/
theorem streamPreserved_append (block : List (BitVec 8)) (len : Nat)
    (preserved : StreamPreserved blocks) (uniform : ∀ block ∈ blocks, block.length = len) :
    StreamPreserved (blocks ++ [block]) ↔
      (0 < blocks.length * len % datagramSize →
        datagramSize - blocks.length * len % datagramSize ≤ block.length) ∧
      blocks.length * len % datagramSize + block.length < datagramSize * (msgsLength + 1) := by
  obtain ⟨s, sent, done, preserves⟩ := preserved
  rw [← preserves.position uniform]
  have next : sendAll loaded (blocks ++ [block]) = (do
      let (last, datagrams) ← udpSendRing s block
      return (last, sent ++ [datagrams])) := by
    rw [sendAll_append, done]
    rfl
  constructor
  · rintro ⟨after, all, called, appended⟩
    rw [next] at called
    have enough : 0 < s.sWrapPos → datagramSize - s.sWrapPos ≤ block.length := by
      intro some
      by_contra short
      rw [udpSendRing_short some (Nat.lt_of_not_le short)] at called
      cases called
    refine ⟨enough, ?_⟩
    by_contra many
    have long : ¬ (batch datagramSize msgsLength (s.carried ++ block)).2.length < datagramSize := by
      rw [batch_rest, List.length_append, carried_length preserves.carries]
      exact many
    by_cases beyond : datagramSize < (batch datagramSize msgsLength (s.carried ++ block)).2.length
    · rw [udpSendRing_long preserves.carries enough beyond] at called
      cases called
    · obtain ⟨last, sends, _, position⟩ :=
        udpSendRing_ok preserves.carries enough (Nat.le_of_not_lt beyond)
      rw [sends] at called
      cases called
      have carries := appended.carries
      rw [position] at carries
      exact long carries
  · rintro ⟨enough, few⟩
    obtain ⟨after, datagrams, called, preserves⟩ := preserves.call enough few
    refine ⟨after, sent ++ [datagrams], ?_, preserves⟩
    rw [next, called]
    rfl

end Calls

/-! ## The lengths that work -/

/-- The datagram size holds a common divisor with any length, and is no smaller. -/
theorem divisor_le (len : Nat) :
    0 < Nat.gcd len datagramSize ∧ Nat.gcd len datagramSize ≤ datagramSize :=
  ⟨Nat.gcd_pos_of_pos_right len (by decide),
    Nat.le_of_dvd (by decide) (Nat.gcd_dvd_right len datagramSize)⟩

section Lengths

variable {len : Nat}

/-- Every multiple of the common divisor below the datagram size is carried at
some time. -/
theorem carried_somewhere {offset : Nat} (divides : Nat.gcd len datagramSize ∣ offset)
    (below : offset < datagramSize) : ∃ calls, calls * len % datagramSize = offset := by
  rcases Nat.lt_or_eq_of_le (divisor_le len).2 with proper | whole
  · obtain ⟨calls, _, divisor⟩ := Nat.exists_mul_mod_eq_gcd proper
    obtain ⟨times, rfl⟩ := divides
    refine ⟨calls * times, ?_⟩
    calc calls * times * len % datagramSize
        = len * calls * times % datagramSize := by ring_nf
      _ = len * calls % datagramSize * times % datagramSize := (Nat.mod_mul_mod _ _ _).symm
      _ = Nat.gcd len datagramSize * times := by rw [divisor, Nat.mod_eq_of_lt below]
  · rw [whole] at divides
    refine ⟨0, ?_⟩
    rw [Nat.zero_mul, Nat.zero_mod, Nat.eq_zero_of_dvd_of_lt divides below]

/-- What is carried is a multiple of the common divisor. -/
theorem carried_divides (calls : Nat) :
    Nat.gcd len datagramSize ∣ calls * len % datagramSize :=
  (Nat.dvd_mod_iff (Nat.gcd_dvd_right _ _)).mpr
    (Dvd.dvd.mul_left (Nat.gcd_dvd_left _ _) calls)

/-- The bounds hold at every call exactly when they hold for the smallest and for
the largest number of bytes carried. -/
theorem bounds_iff :
    (∀ calls,
      (0 < calls * len % datagramSize →
        datagramSize - calls * len % datagramSize ≤ len) ∧
      calls * len % datagramSize + len < datagramSize * (msgsLength + 1)) ↔
      datagramSize - Nat.gcd len datagramSize ≤ len ∧ len ≤ datagramSize * msgsLength := by
  obtain ⟨positive, most⟩ := divisor_le len
  have datagram : 0 < datagramSize := by decide
  have spread : datagramSize * (msgsLength + 1) = datagramSize * msgsLength + datagramSize :=
    Nat.mul_succ _ _
  constructor
  · intro bounds
    constructor
    · rcases Nat.lt_or_eq_of_le most with proper | whole
      · obtain ⟨calls, smallest⟩ := carried_somewhere (Nat.dvd_refl _) proper
        have completes := (bounds calls).1
        rw [smallest] at completes
        exact completes positive
      · omega
    · obtain ⟨calls, largest⟩ := carried_somewhere
        (Nat.dvd_sub (Nat.gcd_dvd_right len datagramSize) (Nat.dvd_refl _))
        (show datagramSize - Nat.gcd len datagramSize < datagramSize by omega)
      have few := (bounds calls).2
      rw [largest] at few
      by_contra more
      have apart : Nat.gcd len datagramSize ∣ len - datagramSize * msgsLength :=
        Nat.dvd_sub (Nat.gcd_dvd_left _ _) (Dvd.dvd.mul_right (Nat.gcd_dvd_right _ _) _)
      have least := Nat.le_of_dvd (by omega) apart
      omega
  · rintro ⟨completes, few⟩ calls
    have below := Nat.mod_lt (calls * len) datagram
    have divides : Nat.gcd len datagramSize ∣ calls * len % datagramSize := carried_divides calls
    constructor
    · intro some
      have least := Nat.le_of_dvd some divides
      omega
    · have left : Nat.gcd len datagramSize ∣ datagramSize - calls * len % datagramSize :=
        Nat.dvd_sub (Nat.gcd_dvd_right _ _) divides
      have least := Nat.le_of_dvd (by omega) left
      omega

end Lengths

/-- Blocks of a length are sent as one stream, however many of them, exactly when
the length completes the smallest remainder that can be carried and exceeds no 64
datagrams. -/
theorem udp_stream_preserved_iff (len : Nat) :
    (∀ blocks : List (List (BitVec 8)), (∀ block ∈ blocks, block.length = len) →
      StreamPreserved blocks) ↔
      datagramSize - Nat.gcd len datagramSize ≤ len ∧ len ≤ datagramSize * msgsLength := by
  rw [← bounds_iff]
  constructor
  · intro preserved calls
    have uniform : ∀ count, ∀ block ∈ List.replicate count (List.replicate len (0 : BitVec 8)),
        block.length = len := by
      intro count block member
      rw [List.eq_of_mem_replicate member, List.length_replicate]
    have appended := preserved
      (List.replicate calls (List.replicate len 0) ++ [List.replicate len 0]) (by
        rw [← List.replicate_succ']
        exact uniform (calls + 1))
    rw [streamPreserved_append _ len (preserved _ (uniform calls)) (uniform calls)] at appended
    simpa using appended
  · intro bounds blocks uniform
    induction blocks using List.reverseRecOn with
    | nil => exact streamPreserved_nil
    | append_singleton blocks block inductionHypothesis =>
      have before : ∀ block ∈ blocks, block.length = len :=
        fun other member => uniform other (List.mem_append_left _ member)
      have last : block.length = len := uniform block (by simp)
      rw [streamPreserved_append block len (inductionHypothesis before) before, last]
      exact bounds blocks.length

/-- The driver's default block size is one of them. -/
example : datagramSize - Nat.gcd 65536 datagramSize ≤ 65536 ∧
    65536 ≤ datagramSize * msgsLength := by
  decide

/-- A block of zeros. -/
def zeroBlock (len : Nat) : List (BitVec 8) := List.replicate len 0

theorem zeroBlock_length (len : Nat) : (zeroBlock len).length = len := List.length_replicate

/-- A block of twice the default size leaves more behind 64 datagrams than the
buffer holds. A block of 512 bytes is carried, and the next one cannot complete it. -/
theorem wide_and_narrow_blocks_fail :
    ¬ StreamPreserved [zeroBlock 131072] ∧ ¬ StreamPreserved [zeroBlock 512, zeroBlock 512] := by
  have wide := streamPreserved_append (zeroBlock 131072) 131072 streamPreserved_nil (by simp)
  have first := streamPreserved_append (zeroBlock 512) 512 streamPreserved_nil (by simp)
  rw [List.nil_append, zeroBlock_length] at wide first
  have carried : StreamPreserved [zeroBlock 512] := first.mpr (by decide +kernel)
  have second := streamPreserved_append (zeroBlock 512) 512 carried (by simp [zeroBlock_length])
  rw [List.singleton_append, zeroBlock_length] at second
  exact ⟨mt wide.mp (by decide +kernel), mt second.mp (by decide +kernel)⟩

end Zyndra.Net
