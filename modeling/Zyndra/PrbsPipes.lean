import Zyndra.Circulation
import Zyndra.PrbsChecker
import Zyndra.PrbsTable
import Zyndra.Transfers

/-!
# The checker and the generator of the host, each between two threads

`recv_prbs_check` reads the stream of the target in one thread and verifies it in
another, and `send_prbs_gen` generates in one thread what it transmits in another. Both
pass sixteen buffers round over two channels. The checker's two counters are printed and
cleared whenever a second has passed; its seed goes on.

Reading and writing the socket may fail at any time, which ends the thread. `write_all`
writes a buffer in as many calls as it takes, and may fail behind a part of it.
-/

namespace Zyndra.PrbsTool

open Runs Circulation Prbs Transfers

def bufferLength : Nat := 65536
def bufferCount : Nat := 16

/-- `vec![0u8; 65536]`, sixteen times in the channel of free buffers. -/
def channels : Circle (List (BitVec 8)) :=
  start (List.replicate bufferCount (List.replicate bufferLength 0))

/-! ## `recv_prbs_check` -/

/-- What the threads share, the verifier's `Checker`, and the samples and errors of each
line it has printed. -/
structure PrbsCheck where
  circle : Circle (List (BitVec 8))
  checker : Checker
  printed : List (Nat × Nat)

/-- A step of a thread, with the success of `read_exact`, or whether a second has passed. -/
inductive CheckEvent where
  | receiver (arrives : Bool)
  | verifier (due : Bool)

/-- What the `k`-th successful `read_exact` reads. -/
def piece (stream : Nat → BitVec 8) (k : Nat) : List (BitVec 8) :=
  (List.range bufferLength).map fun j => stream (bufferLength * k + j)

theorem piece_length (stream : Nat → BitVec 8) (k : Nat) :
    (piece stream k).length = bufferLength := by
  rw [piece, List.length_map, List.length_range]

/-- One step of a thread of `recv_prbs_check`. A panic in `verify` would end the
verifier. -/
def recvPrbsCheck (stream : Nat → BitVec 8) (c : PrbsCheck) : CheckEvent → PrbsCheck
  | .receiver arrives =>
    { c with
      circle := c.circle.step
        (.filler (if arrives then some (piece stream c.circle.filler.done.length) else none)) }
  | .verifier due =>
    match c.circle.drainer.pc with
    | .working buf =>
      match c.checker.verify buf with
      | some next => { c with circle := c.circle.step (.drainer true), checker := next }
      | none => { c with circle := c.circle.step (.drainer false) }
    | .passing _ =>
      if due && !c.circle.filler.pc.isEnded then
        { circle := c.circle.step (.drainer true)
          checker := { c.checker with errors := 0, samples := 0 }
          printed := c.printed ++ [(c.checker.samples, c.checker.errors)] }
      else { c with circle := c.circle.step (.drainer true) }
    | _ => { c with circle := c.circle.step (.drainer true) }

def checkStart : PrbsCheck := ⟨channels, Checker.fresh, []⟩

/-- The pieces read first, as the checker's blocks. -/
def pieceBlock (stream : Nat → BitVec 8) (k : Nat) : Block :=
  ⟨piece stream k, by simp [piece, bufferLength], by simp [piece, bufferLength]⟩

def pieces (stream : Nat → BitVec 8) (count : Nat) : List Block :=
  (List.range count).map (pieceBlock stream)

theorem verify_bytes (c : Checker) (block : Block) :
    c.verify block.bytes = some (c.after (marked block.bytes)) := by
  obtain ⟨seed, -, -, verified⟩ := verify_block c block
  exact verified

theorem verify_piece (stream : Nat → BitVec 8) (c : Checker) (k : Nat) :
    c.verify (piece stream k) = some (c.after (marked (piece stream k))) := by
  have verified := verify_bytes c (pieceBlock stream k)
  simpa only [pieceBlock] using verified

/-- One checker for all of them. -/
def whole (stream : Nat → BitVec 8) (count : Nat) : Checker :=
  Checker.fresh.after (markedStream (pieces stream count))

theorem whole_succ (stream : Nat → BitVec 8) (count : Nat) :
    whole stream (count + 1) = (whole stream count).after (marked (piece stream count)) := by
  unfold whole pieces markedStream
  rw [List.range_succ, List.map_append, List.flatMap_append, Checker.after, List.foldl_append]
  simp [Checker.after, pieceBlock]

/-- What the checker counts from a seed on does not depend on what it has counted. -/
theorem after_shift {c d : Checker} (seed : c.seed = d.seed) (xs : List Marked) :
    (c.after xs).seed = (d.after xs).seed ∧
      (c.after xs).errors + d.errors = (d.after xs).errors + c.errors ∧
      (c.after xs).samples + d.samples = (d.after xs).samples + c.samples := by
  induction xs generalizing c d with
  | nil => exact ⟨seed, Nat.add_comm _ _, Nat.add_comm _ _⟩
  | cons x rest inductionHypothesis =>
    have next : (c.meet x).seed = (d.meet x).seed := by
      simp only [Checker.meet, Checker.compare, seed]
    have samples : (c.meet x).samples = c.samples + 1 ∧ (d.meet x).samples = d.samples + 1 :=
      ⟨rfl, rfl⟩
    have errors : (c.meet x).errors + d.errors = (d.meet x).errors + c.errors := by
      simp only [Checker.meet, Checker.compare, seed]
      split <;> omega
    obtain ⟨later, counted, taken⟩ := inductionHypothesis next
    rw [after_cons, after_cons]
    refine ⟨later, ?_, ?_⟩ <;> omega

section Check

variable (stream : Nat → BitVec 8)

/-- The samples and the errors that have been printed. -/
def PrbsCheck.total (c : PrbsCheck) (count : Nat × Nat → Nat) : Nat := (c.printed.map count).sum

/-- The buffers read are the pieces of the stream, and the checker with what it has printed
is one checker for those verified. -/
structure Checks (c : PrbsCheck) : Prop where
  circulates : Circulates bufferCount c.circle
  received : c.circle.filler.done =
    (List.range c.circle.filler.done.length).map (piece stream)
  last : c.circle.drainer.pc.isEnded = true → c.circle.filler.pc.isEnded = true
  seed : c.checker.seed = (whole stream c.circle.drainer.done.length).seed
  samples : c.total Prod.fst + c.checker.samples =
    (whole stream c.circle.drainer.done.length).samples
  errors : c.total Prod.snd + c.checker.errors =
    (whole stream c.circle.drainer.done.length).errors

variable {stream} {c : PrbsCheck}

theorem checks_start : Checks stream checkStart :=
  ⟨circulates_start _ List.length_replicate, rfl, nofun, rfl, rfl, rfl⟩

/-- The receiver takes its next step, with the next piece if any. -/
theorem Checks.fill (held : Checks stream c) {read : Option (List (BitVec 8))}
    (next : ∀ buf, read = some buf → buf = piece stream c.circle.filler.done.length) :
    Checks stream { c with circle := c.circle.step (.filler read) } where
  circulates := held.circulates.step (.filler read)
  received := by
    have received := held.received
    rcases filler_done c.circle read with same | ⟨buf, some, more⟩
    · rw [same]
      exact received
    · rw [more, List.length_append, List.range_add, List.map_append, ← received, next buf some]
      rfl
  last ended := by
    have gone := held.last ended
    rw [filler_ended (isEnded_iff.mp gone)]
    exact gone
  seed := held.seed
  samples := held.samples
  errors := held.errors

/-- The verifier takes a step that verifies nothing. -/
theorem Checks.idle (held : Checks stream c) (idle : c.circle.drainer.pc.inWork = []) :
    Checks stream { c with circle := c.circle.step (.drainer true) } := by
  have same : (c.circle.step (.drainer true)).drainer.done = c.circle.drainer.done := by
    rw [drainer_done, if_pos rfl, idle, List.append_nil]
  refine ⟨held.circulates.step (.drainer true), held.received,
    drainer_last c.circle held.last, ?_, ?_, ?_⟩
  · rw [same]
    exact held.seed
  · rw [same]
    exact held.samples
  · rw [same]
    exact held.errors

/-- The verifier verifies its buffer, which is the next piece. -/
theorem Checks.verify (held : Checks stream c) {buf : List (BitVec 8)}
    (at_ : c.circle.drainer.pc = .working buf) :
    ∃ next, c.checker.verify buf = some next ∧
      Checks stream { c with circle := c.circle.step (.drainer true), checker := next } := by
  have buf_eq : buf = piece stream c.circle.drainer.done.length := by
    have read := held.circulates.next at_
    rw [held.received, List.getElem?_map, Option.map_eq_some_iff] at read
    obtain ⟨k, index, rfl⟩ := read
    rw [(List.getElem?_eq_some_iff.mp index).2.symm, List.getElem_range]
  have done : (c.circle.step (.drainer true)).drainer.done.length =
      c.circle.drainer.done.length + 1 := by
    rw [drainer_done, if_pos rfl, at_]
    exact List.length_append
  obtain ⟨seed, errors, samples⟩ := after_shift held.seed
    (marked (piece stream c.circle.drainer.done.length))
  refine ⟨c.checker.after (marked (piece stream c.circle.drainer.done.length)), ?_,
    held.circulates.step (.drainer true), held.received, drainer_last c.circle held.last,
    ?_, ?_, ?_⟩
  · rw [buf_eq]
    exact verify_piece stream c.checker _
  · rw [done, whole_succ]
    exact seed
  · have before := held.samples
    rw [done, whole_succ]
    simp only [PrbsCheck.total] at before ⊢
    omega
  · have before := held.errors
    rw [done, whole_succ]
    simp only [PrbsCheck.total] at before ⊢
    omega

/-- The counters are printed and cleared. -/
theorem Checks.print (held : Checks stream c) :
    Checks stream
      { c with
        checker := { c.checker with errors := 0, samples := 0 }
        printed := c.printed ++ [(c.checker.samples, c.checker.errors)] } where
  circulates := held.circulates
  received := held.received
  last := held.last
  seed := held.seed
  samples := by
    rw [← held.samples]
    simp [PrbsCheck.total]
  errors := by
    rw [← held.errors]
    simp [PrbsCheck.total]

theorem Checks.step (held : Checks stream c) (e : CheckEvent) :
    Checks stream (recvPrbsCheck stream c e) := by
  cases e with
  | receiver arrives =>
    refine held.fill ?_
    intro buf read
    cases arrives with
    | true => exact (Option.some.inj read).symm
    | false => cases read
  | verifier due =>
    cases at_ : c.circle.drainer.pc with
    | working buf =>
      obtain ⟨next, verified, kept⟩ := held.verify at_
      simpa only [recvPrbsCheck, at_, verified] using kept
    | passing buf =>
      have idle := held.idle (by rw [at_]; rfl)
      simp only [recvPrbsCheck, at_]
      split
      · exact idle.print
      · exact idle
    | taking => simpa only [recvPrbsCheck, at_] using held.idle (by rw [at_]; rfl)
    | ended => simpa only [recvPrbsCheck, at_] using held.idle (by rw [at_]; rfl)

theorem checks_run (stream : Nat → BitVec 8) (events : List CheckEvent) :
    Checks stream (run (recvPrbsCheck stream) checkStart events) :=
  invariant (fun _ e held _ => held.step e) checks_start events
    (follows_unruled _ checkStart events)

/-- Every whole sample of a buffer is received. -/
theorem received_length (buf : List (BitVec 8)) : (received buf).length = buf.length / 4 := by
  induction buf using received.induct with
  | case1 b₀ b₁ b₂ b₃ rest inductionHypothesis =>
    simp only [received, List.length_cons, inductionHypothesis]
    omega
  | case2 buf short =>
    rw [received.eq_2 buf short]
    rcases buf with _ | ⟨b₀, _ | ⟨b₁, _ | ⟨b₂, _ | ⟨b₃, rest⟩⟩⟩⟩
    · simp
    · simp
    · simp
    · simp
    · exact absurd rfl (short b₀ b₁ b₂ b₃ rest)

theorem marked_length (buf : List (BitVec 8)) : (marked buf).length = buf.length / 4 := by
  rw [← received_length, marked]
  cases received buf with
  | nil => rfl
  | cons first rest => simp

theorem after_samples (c : Checker) (xs : List Marked) :
    (c.after xs).samples = c.samples + xs.length := by
  induction xs generalizing c with
  | nil => rfl
  | cons x rest inductionHypothesis =>
    rw [after_cons, inductionHypothesis, List.length_cons]
    change c.samples + 1 + rest.length = _
    omega

/-- Every piece holds 16384 samples. -/
theorem whole_samples (count : Nat) : (whole stream count).samples = 16384 * count := by
  induction count with
  | zero => rfl
  | succ count inductionHypothesis =>
    rw [whole_succ, after_samples, inductionHypothesis, marked_length, piece_length]
    rfl

/-- From the true state on a checker counts no error in what a register has carried, and
follows it. -/
theorem synced_after {c : Checker} {s : BitVec 16} {xs : List Marked}
    (carried : Carried s (xs.map Prod.snd)) (synced : c.seed = s) :
    (c.after xs).errors = c.errors ∧ (c.after xs).seed = lfsrNext^[xs.length] s := by
  induction xs generalizing c s with
  | nil => exact ⟨rfl, synced⟩
  | cons x rest inductionHypothesis =>
    obtain ⟨first, later⟩ := carried_cons.mp carried
    have seeded : seedFor c.seed x = s := by
      rw [synced]
      exact (seedFor_cases first).elim id id
    have met := meet_synced first seeded
    obtain ⟨errors, seed⟩ := inductionHypothesis later met.2
    rw [after_cons]
    exact ⟨errors.trans met.1, seed⟩

/-- A fresh one takes the true state from the first sample. -/
theorem fresh_after {s : BitVec 16} {blocks : List Block}
    (carried : Carried s (Prbs.stream blocks)) :
    (Checker.fresh.after (markedStream blocks)).errors = 0 ∧
      (Prbs.stream blocks ≠ [] → (Checker.fresh.after (markedStream blocks)).seed =
        lfsrNext^[(Prbs.stream blocks).length] s) := by
  rw [← markedStream_samples] at carried ⊢
  rcases markedStream_cases blocks with empty | ⟨x, rest, opened⟩
  · rw [empty]
    exact ⟨rfl, fun some => absurd rfl some⟩
  · rw [opened] at carried ⊢
    obtain ⟨first, later⟩ := carried_cons.mp carried
    have seeded : seedFor Checker.fresh.seed (true, x) = s := by
      have true_sample : x = sampleOf s := first
      rw [seedFor, if_pos ⟨rfl, rfl⟩, true_sample]
      exact stateFromIq_sampleOf s
    have met := meet_synced first seeded
    obtain ⟨errors, seed⟩ := synced_after later met.2
    rw [after_cons, List.map_cons, List.length_cons, List.length_map]
    exact ⟨errors.trans met.1, fun _ => seed⟩

end Check

/-- In every interleaving, wherever reading fails and whenever a second has passed: the
buffers verified are the first pieces of the stream, whole, in order and none twice; at
most sixteen pieces have been read that are not verified; what has been printed and the
two counters add up to what one checker counts on all of them at once, whose seed is the
checker's. The threads never wait for each other, and the verifier ends only behind the
receiver. Of what a register has carried no error is ever printed or counted. -/
theorem check_in_order (stream : Nat → BitVec 8) (events : List CheckEvent) :
    let c := run (recvPrbsCheck stream) checkStart events
    let verified := c.circle.drainer.done
    let read := c.circle.filler.done
    (verified = (List.range verified.length).map (piece stream) ∧ verified <+: read ∧
      read.length ≤ verified.length + bufferCount) ∧
    (∃ one, verifyAll Checker.fresh (pieces stream verified.length) = some one ∧
      c.checker.seed = one.seed ∧ c.total Prod.snd + c.checker.errors = one.errors ∧
      c.total Prod.fst + c.checker.samples = 16384 * verified.length) ∧
    (∀ s, Carried s (Prbs.stream (pieces stream verified.length)) →
      c.total Prod.snd + c.checker.errors = 0) ∧
    ((c.circle.drainer.pc.isEnded = true → c.circle.filler.pc.isEnded = true) ∧
      (c.circle.drainer.pc.isEnded = false → Moves c.circle)) := by
  intro c verified read
  have held : Checks stream c := checks_run stream events
  refine ⟨⟨held.circulates.order held.received, held.circulates.behind, held.circulates.within⟩,
    ⟨whole stream verified.length, verifyAll_eq _ _, held.seed, held.errors, ?_⟩,
    fun s carried => held.errors.trans (fresh_after carried).1,
    held.last, fun running => held.circulates.moves (by decide) (.inr running)⟩
  rw [held.samples, whole_samples]

def CheckEvent.isVerifier : CheckEvent → Bool
  | .verifier _ => true
  | .receiver _ => false

/-- A step of the verifier is one of the drainer. -/
theorem verifier_circle (stream : Nat → BitVec 8) (c : PrbsCheck) (due : Bool) :
    ∃ succeeds, (recvPrbsCheck stream c (.verifier due)).circle =
      c.circle.step (.drainer succeeds) := by
  cases at_ : c.circle.drainer.pc with
  | working buf =>
    cases verified : c.checker.verify buf with
    | some next => exact ⟨true, by simp only [recvPrbsCheck, at_, verified]⟩
    | none => exact ⟨false, by simp only [recvPrbsCheck, at_, verified]⟩
  | passing buf =>
    refine ⟨true, ?_⟩
    simp only [recvPrbsCheck, at_]
    split <;> rfl
  | taking => exact ⟨true, by simp only [recvPrbsCheck, at_]⟩
  | ended => exact ⟨true, by simp only [recvPrbsCheck, at_]⟩

/-- What the threads share, the generator, the bytes written to the socket and how many of
them are of the buffer that `write_all` is at, the samples counted since the last line, and
those of each line printed. -/
structure PrbsGen where
  circle : Circle (List (BitVec 8))
  generator : Generator
  sent : List (BitVec 8)
  written : Nat
  samples : Nat
  printed : List Nat

/-- A step of a thread: one call of `write` by `write_all`, or a step of the transmitter
outside it, with whether a second has passed. -/
inductive GenEvent where
  | generator
  | write (outcome : Outcome)
  | transmitter (due : Bool)

/-- One step of a thread of `send_prbs_gen`. -/
def sendPrbsGen (c : PrbsGen) : GenEvent → PrbsGen
  | .generator =>
    match c.circle.filler.pc with
    | .working buf =>
      { c with
        circle := c.circle.step (.filler (some (c.generator.fill buf).2))
        generator := (c.generator.fill buf).1 }
    | _ => { c with circle := c.circle.step (.filler none) }
  | .write outcome =>
    match c.circle.drainer.pc with
    | .working buf =>
      let returned := outcome.upTo (buf.length - c.written)
      let out := { c with sent := c.sent ++ (buf.drop c.written).take returned.bytes }
      match advance buf.length (.running c.written) returned with
      | .running written => { out with written := written }
      | .returned true =>
        { out with
          circle := c.circle.step (.drainer true)
          written := 0
          samples := c.samples + buf.length / 4 }
      | .returned false => { out with circle := c.circle.step (.drainer false) }
    | _ => c
  | .transmitter due =>
    match c.circle.drainer.pc with
    | .working _ => c
    | .passing _ =>
      if due && !c.circle.filler.pc.isEnded then
        { c with
          circle := c.circle.step (.drainer true)
          samples := 0
          printed := c.printed ++ [c.samples] }
      else { c with circle := c.circle.step (.drainer true) }
    | _ => { c with circle := c.circle.step (.drainer true) }

def genStart : PrbsGen := ⟨channels, Generator.default, [], 0, 0, []⟩

/-- The bytes of consecutive samples, from the `first` behind the generator's start on. -/
def prbsBytes (first count : Nat) : List (BitVec 8) :=
  (List.range count).flatMap fun k =>
    (Ad9361Txrx.entryOf (lfsrNext^[first + k] Generator.default.state)).bytes

section Generate

variable {c : PrbsGen}

theorem prbsBytes_add (first count more : Nat) :
    prbsBytes first (count + more) = prbsBytes first count ++ prbsBytes (first + count) more := by
  unfold prbsBytes
  rw [List.range_add, List.flatMap_append, List.flatMap_map]
  simp only [Nat.add_assoc]

theorem prbsBytes_length (first count : Nat) : (prbsBytes first count).length = 4 * count := by
  simp [prbsBytes, List.length_flatMap, Ad9361Txrx.PrbsIq.bytes, toLeBytes, Nat.mul_comm]

/-- A whole buffer filled holds the next 16384 samples. -/
theorem fill_bytes {g : Generator} {first : Nat}
    (at_ : g.state = lfsrNext^[first] Generator.default.state) {buf : List (BitVec 8)}
    (length : buf.length = bufferLength) :
    (g.fill buf).2 = prbsBytes first 16384 ∧
      (g.fill buf).1.state = lfsrNext^[first + 16384] Generator.default.state := by
  obtain ⟨filled, state⟩ := Ad9361Txrx.fill_eq g (n := 16384) length
  rw [filled, state, at_]
  refine ⟨?_, ?_⟩
  · apply List.flatMap_congr
    intro k _
    rw [← Function.iterate_add_apply, Nat.add_comm k first]
  · rw [← Function.iterate_add_apply, Nat.add_comm]

/-- What the `k`-th buffer is filled with. -/
def genPiece (k : Nat) : List (BitVec 8) := prbsBytes (16384 * k) 16384

theorem genPieces_flatten (count : Nat) :
    ((List.range count).map genPiece).flatten = prbsBytes 0 (16384 * count) := by
  induction count with
  | zero => simp [prbsBytes]
  | succ count inductionHypothesis =>
    rw [List.range_succ, List.map_append, List.flatten_append, inductionHypothesis, Nat.mul_succ,
      prbsBytes_add, Nat.zero_add, List.map_singleton, List.flatten_singleton, genPiece]

/-- What is out beyond the buffers transmitted: so much of the buffer being written, a
part of one if that has failed, else nothing. -/
def Beyond (pc : Pc (List (BitVec 8))) (written : Nat) (part : List (BitVec 8)) : Prop :=
  match pc with
  | .working buf => part = buf.take written ∧ written < bufferLength
  | .ended => part.length < bufferLength
  | _ => part = [] ∧ written = 0

/-- Less than a buffer is out, and anything only of the buffer being written or of one
that has failed. -/
theorem Beyond.part {pc : Pc (List (BitVec 8))} {written : Nat} {part : List (BitVec 8)}
    (beyond : Beyond pc written part) :
    part.length < bufferLength ∧
      (part ≠ [] → pc = .ended ∨ ∃ buf, pc = .working buf ∧ part = buf.take written) := by
  cases pc with
  | working buf =>
    obtain ⟨rfl, short⟩ := beyond
    refine ⟨?_, fun _ => .inr ⟨buf, rfl, rfl⟩⟩
    rw [List.length_take]
    omega
  | ended => exact ⟨beyond, fun _ => .inl rfl⟩
  | taking =>
    obtain ⟨rfl, -⟩ := beyond
    exact ⟨by decide, fun more => absurd rfl more⟩
  | passing buf =>
    obtain ⟨rfl, -⟩ := beyond
    exact ⟨by decide, fun more => absurd rfl more⟩

/-- All buffers have their length, what has been generated are the first samples of the
generator, and what has been sent is what the transmitter has worked on, with a part of
one more buffer while that is written, or if it has failed. -/
structure Generates (c : PrbsGen) : Prop where
  circulates : Circulates bufferCount c.circle
  sized : ∀ buf ∈ c.circle.buffers, buf.length = bufferLength
  generated : c.circle.filler.done =
    (List.range c.circle.filler.done.length).map genPiece
  state : c.generator.state =
    lfsrNext^[16384 * c.circle.filler.done.length] Generator.default.state
  last : c.circle.filler.pc.isEnded = true → c.circle.drainer.pc.isEnded = true
  sent : ∃ part, c.sent = c.circle.drainer.done.flatten ++ part ∧
    Beyond c.circle.drainer.pc c.written part ∧ c.sent <+: c.circle.filler.done.flatten
  counted : c.printed.sum + c.samples = 16384 * c.circle.drainer.done.length

theorem generates_start : Generates genStart where
  circulates := circulates_start _ List.length_replicate
  sized buf member := by
    have inside :
        buf ∈ List.replicate bufferCount (List.replicate bufferLength (0 : BitVec 8)) := by
      simpa [genStart, channels, start, Circle.buffers] using member
    rw [List.eq_of_mem_replicate inside, List.length_replicate]
  generated := rfl
  state := rfl
  last := nofun
  sent := ⟨[], rfl, ⟨rfl, rfl⟩, List.prefix_refl _⟩
  counted := rfl

/-- The generator takes a step in which it fills nothing. -/
theorem Generates.rest (held : Generates c) (idle : c.circle.filler.pc.inWork = []) :
    Generates { c with circle := c.circle.step (.filler none) } := by
  have same : (c.circle.step (.filler none)).filler.done = c.circle.filler.done := by
    rcases filler_done c.circle none with same | ⟨buf, some, -⟩
    · exact same
    · cases some
  refine ⟨held.circulates.step (.filler none), fun buf member => ?_, ?_, ?_, ?_, ?_,
    held.counted⟩
  · rcases step_buffers c.circle (.filler none) member with before | filled
    · exact held.sized buf before
    · cases filled
  · rw [same]
    exact held.generated
  · rw [same]
    exact held.state
  · exact filler_last c.circle (fun working => absurd idle working) held.last
  · rw [same]
    exact held.sent

/-- The generator fills its buffer with the samples that come next. -/
theorem Generates.fill (held : Generates c) {buf : List (BitVec 8)}
    (at_ : c.circle.filler.pc = .working buf) :
    Generates
      { c with
        circle := c.circle.step (.filler (some (c.generator.fill buf).2))
        generator := (c.generator.fill buf).1 } := by
  have length : buf.length = bufferLength :=
    held.sized buf (by simp [Circle.buffers, at_])
  obtain ⟨bytes, state⟩ := fill_bytes held.state length
  have more := filler_works at_ (c.generator.fill buf).2
  have filled : (c.generator.fill buf).2.length = bufferLength := by
    rw [bytes, prbsBytes_length]
    rfl
  refine ⟨held.circulates.step (.filler (some _)), fun other member => ?_, ?_, ?_, ?_, ?_,
    held.counted⟩
  · rcases step_buffers c.circle (.filler (some _)) member with before | new
    · exact held.sized other before
    · injection new with new
      rw [← Option.some.inj new]
      exact filled
  · have generated := held.generated
    rw [more, List.length_append, List.range_add, List.map_append, ← generated, bytes]
    rfl
  · rw [more, List.length_append, Nat.mul_add]
    exact state
  · exact filler_last c.circle (fun _ => Option.some_ne_none _) held.last
  · obtain ⟨part, sent, beyond, within⟩ := held.sent
    refine ⟨part, sent, beyond, ?_⟩
    rw [more, List.flatten_append]
    exact within.trans (List.prefix_append _ _)

/-- A step of the transmitter leaves the buffers their length. -/
theorem Generates.sizedBehind (held : Generates c) (succeeds : Bool) :
    ∀ buf ∈ (c.circle.step (.drainer succeeds)).buffers, buf.length = bufferLength := by
  intro buf member
  rcases step_buffers c.circle (.drainer succeeds) member with before | filled
  · exact held.sized buf before
  · cases filled

/-- A step outside the work of the drainer leaves what is out. -/
theorem Beyond.idle {circle : Circle (List (BitVec 8))} {written : Nat} {part : List (BitVec 8)}
    (beyond : Beyond circle.drainer.pc written part) (idle : circle.drainer.pc.inWork = []) :
    Beyond (circle.step (.drainer true)).drainer.pc written part := by
  have turned := turn_cases ⟨circle.drainer, circle.used, circle.free⟩ circle.filler.pc.isEnded
    fun buffer => if true then some buffer else none
  dsimp only [Circle.step]
  generalize Stage.turn _ _ _ = s at turned ⊢
  cases turned with
  | takes buffer others at_ some =>
    change circle.drainer.pc = .taking at at_
    rw [at_] at beyond
    obtain ⟨rfl, rfl⟩ := beyond
    exact ⟨rfl, by decide⟩
  | waits at_ none waited => exact beyond
  | abandons at_ none left =>
    change circle.drainer.pc = .taking at at_
    rw [at_] at beyond
    obtain ⟨rfl, -⟩ := beyond
    exact (by decide : 0 < bufferLength)
  | works buffer worked at_ succeeds =>
    change circle.drainer.pc = .working buffer at at_
    rw [at_] at idle
    cases idle
  | fails buffer at_ nothing => cases nothing
  | passes buffer at_ there =>
    change circle.drainer.pc = .passing buffer at at_
    rw [at_] at beyond
    exact beyond
  | drops buffer at_ left =>
    change circle.drainer.pc = .passing buffer at at_
    rw [at_] at beyond
    obtain ⟨rfl, -⟩ := beyond
    exact (by decide : 0 < bufferLength)
  | rests at_ => exact beyond

/-- The transmitter takes a step that sends nothing. -/
theorem Generates.idle (held : Generates c) (idle : c.circle.drainer.pc.inWork = []) :
    Generates { c with circle := c.circle.step (.drainer true) } := by
  have same : (c.circle.step (.drainer true)).drainer.done = c.circle.drainer.done := by
    rw [drainer_done, if_pos rfl, idle, List.append_nil]
  have stays : c.circle.drainer.pc.isEnded = true →
      (c.circle.step (.drainer true)).drainer.pc.isEnded = true := by
    intro gone
    rw [drainer_ended (isEnded_iff.mp gone)]
    exact gone
  obtain ⟨part, sent, beyond, within⟩ := held.sent
  refine ⟨held.circulates.step (.drainer true), held.sizedBehind true, held.generated, held.state,
    fun gone => stays (held.last gone), ⟨part, ?_, beyond.idle idle, within⟩, ?_⟩
  · rw [same]
    exact sent
  · rw [same]
    exact held.counted

/-- A transmitter at work has sent whole buffers and so much of the one it works on, which
is the next of those generated. -/
theorem Generates.working (held : Generates c) {buf : List (BitVec 8)}
    (at_ : c.circle.drainer.pc = .working buf) :
    (buf.length = bufferLength ∧ c.written < buf.length) ∧
      c.sent = c.circle.drainer.done.flatten ++ buf.take c.written ∧
      c.circle.drainer.done.flatten ++ buf <+: c.circle.filler.done.flatten := by
  obtain ⟨part, sent, beyond, -⟩ := held.sent
  have length : buf.length = bufferLength := held.sized buf (by simp [Circle.buffers, at_])
  simp only [Beyond, at_] at beyond
  obtain ⟨rfl, short⟩ := beyond
  refine ⟨⟨length, length ▸ short⟩, sent, ?_⟩
  have behind := (held.circulates.step (.drainer true)).behind
  rw [drainer_done, if_pos rfl, at_, inWork_working] at behind
  have flat := behind.flatten
  rw [List.flatten_append, List.flatten_singleton] at flat
  exact flat

/-- More of the buffer is written, and not all of it. -/
theorem Generates.more (held : Generates c) {buf : List (BitVec 8)}
    (at_ : c.circle.drainer.pc = .working buf) {bytes : Nat}
    (inside : c.written + bytes < buf.length) :
    Generates
      { c with
        sent := c.sent ++ (buf.drop c.written).take bytes
        written := c.written + bytes } := by
  obtain ⟨⟨length, -⟩, sent, within⟩ := held.working at_
  have out : c.sent ++ (buf.drop c.written).take bytes =
      c.circle.drainer.done.flatten ++ buf.take (c.written + bytes) := by
    rw [sent, List.append_assoc, List.take_add]
  refine { held with sent := ⟨buf.take (c.written + bytes), out, ?_, ?_⟩ }
  · change Beyond c.circle.drainer.pc _ _
    rw [at_]
    exact ⟨rfl, length ▸ inside⟩
  · have started : c.circle.drainer.done.flatten ++ buf.take (c.written + bytes) <+:
        c.circle.drainer.done.flatten ++ buf :=
      (List.prefix_append_right_inj _).mpr (List.take_prefix _ _)
    change c.sent ++ _ <+: _
    rw [out]
    exact started.trans within

/-- All of the buffer is written. -/
theorem Generates.transmit (held : Generates c) {buf : List (BitVec 8)}
    (at_ : c.circle.drainer.pc = .working buf) {bytes : Nat}
    (all : c.written + bytes = buf.length) :
    Generates
      { c with
        circle := c.circle.step (.drainer true)
        sent := c.sent ++ (buf.drop c.written).take bytes
        written := 0
        samples := c.samples + buf.length / 4 } := by
  obtain ⟨⟨length, -⟩, sent, within⟩ := held.working at_
  have done : (c.circle.step (.drainer true)).drainer.done = c.circle.drainer.done ++ [buf] := by
    rw [drainer_done, if_pos rfl, at_, inWork_working]
  have passes : (c.circle.step (.drainer true)).drainer.pc = .passing buf := by
    simp only [Circle.step, Stage.turn, at_, if_true]
  have out : c.sent ++ (buf.drop c.written).take bytes = c.circle.drainer.done.flatten ++ buf := by
    rw [sent, List.append_assoc, ← List.take_add, all, List.take_length]
  refine ⟨held.circulates.step (.drainer true), held.sizedBehind true, held.generated, held.state,
    fun gone => ?_, ⟨[], ?_, ?_, ?_⟩, ?_⟩
  · have ended := held.last gone
    rw [at_] at ended
    cases ended
  · rw [done, List.flatten_append, List.flatten_singleton, List.append_nil]
    exact out
  · rw [passes]
    exact ⟨rfl, rfl⟩
  · change c.sent ++ _ <+: _
    rw [out]
    exact within
  · have counted := held.counted
    rw [done, List.length_append, length]
    simp only [bufferLength, List.length_singleton]
    omega

/-- A write that fails writes nothing more, and ends the transmitter. -/
theorem Generates.breakOff (held : Generates c) {buf : List (BitVec 8)}
    (at_ : c.circle.drainer.pc = .working buf) :
    Generates { c with circle := c.circle.step (.drainer false) } := by
  obtain ⟨⟨length, short⟩, sent, within⟩ := held.working at_
  have same : (c.circle.step (.drainer false)).drainer.done = c.circle.drainer.done := by
    rw [drainer_done, if_neg Bool.false_ne_true, List.append_nil]
  have gone : (c.circle.step (.drainer false)).drainer.pc = .ended := drainer_fails at_
  obtain ⟨-, -, -, before⟩ := held.sent
  refine ⟨held.circulates.step (.drainer false), held.sizedBehind false, held.generated,
    held.state, fun _ => isEnded_iff.mpr gone, ⟨buf.take c.written, ?_, ?_, before⟩, ?_⟩
  · rw [same]
    exact sent
  · rw [gone]
    change (buf.take c.written).length < bufferLength
    rw [List.length_take]
    omega
  · rw [same]
    exact held.counted

/-- The samples are printed and cleared. -/
theorem Generates.print (held : Generates c) :
    Generates { c with samples := 0, printed := c.printed ++ [c.samples] } where
  circulates := held.circulates
  sized := held.sized
  generated := held.generated
  state := held.state
  last := held.last
  sent := held.sent
  counted := by
    rw [← held.counted]
    simp

theorem Generates.step (held : Generates c) (e : GenEvent) : Generates (sendPrbsGen c e) := by
  cases e with
  | generator =>
    cases at_ : c.circle.filler.pc with
    | working buf => simpa only [sendPrbsGen, at_] using held.fill at_
    | taking => simpa only [sendPrbsGen, at_] using held.rest (by rw [at_, inWork_taking])
    | passing buf => simpa only [sendPrbsGen, at_] using held.rest (by rw [at_, inWork_passing])
    | ended => simpa only [sendPrbsGen, at_] using held.rest (by rw [at_, inWork_ended])
  | write outcome =>
    cases at_ : c.circle.drainer.pc with
    | working buf =>
      obtain ⟨⟨-, short⟩, -, -⟩ := held.working at_
      have advanced := advance_running short (admits_upTo buf.length c.written outcome)
      simp only [sendPrbsGen, at_]
      rcases advanced with ⟨next, inside⟩ | ⟨next, all⟩ | ⟨next, none⟩
      · rw [next]
        exact held.more at_ inside
      · rw [next]
        exact held.transmit at_ all
      · rw [next, none, List.take_zero, List.append_nil]
        exact held.breakOff at_
    | _ => simpa only [sendPrbsGen, at_] using held
  | transmitter due =>
    cases at_ : c.circle.drainer.pc with
    | working buf => simpa only [sendPrbsGen, at_] using held
    | passing buf =>
      have idle := held.idle (by rw [at_, inWork_passing])
      simp only [sendPrbsGen, at_]
      split
      · exact idle.print
      · exact idle
    | taking => simpa only [sendPrbsGen, at_] using held.idle (by rw [at_, inWork_taking])
    | ended => simpa only [sendPrbsGen, at_] using held.idle (by rw [at_, inWork_ended])

theorem generates_run (events : List GenEvent) : Generates (run sendPrbsGen genStart events) :=
  invariant (fun _ e held _ => held.step e) generates_start events
    (follows_unruled _ genStart events)

/-- What has been sent is what the generator begins with. -/
theorem Generates.within (held : Generates c) :
    c.sent <+: prbsBytes 0 (16384 * c.circle.filler.done.length) := by
  obtain ⟨-, -, -, within⟩ := held.sent
  rw [held.generated, genPieces_flatten] at within
  exact within

end Generate

/-- In every interleaving, wherever writing fails and whenever a second has passed: what
has been sent are the first bytes of the generator's samples, none left out or repeated,
namely the buffers transmitted and so much of the next one as is written, or has been when
writing it failed; the generator is never more than sixteen buffers ahead; and what has been printed and the
counter add up to the samples of the buffers transmitted. The threads never wait for each
other, and the generator ends only behind the transmitter. -/
theorem gen_in_order (events : List GenEvent) :
    let c := run sendPrbsGen genStart events
    let transmitted := c.circle.drainer.done
    let generated := c.circle.filler.done
    (c.sent <+: prbsBytes 0 (16384 * generated.length) ∧
      generated.length ≤ transmitted.length + bufferCount) ∧
    (∃ part, c.sent = prbsBytes 0 (16384 * transmitted.length) ++ part ∧
      part.length < bufferLength ∧
      (part ≠ [] → c.circle.drainer.pc = .ended ∨
        ∃ buf, c.circle.drainer.pc = .working buf ∧ part = buf.take c.written)) ∧
    c.printed.sum + c.samples = 16384 * transmitted.length ∧
    ((c.circle.filler.pc = .ended → c.circle.drainer.pc = .ended) ∧
      (c.circle.filler.pc.isEnded = false → Moves c.circle)) := by
  intro c transmitted generated
  have held : Generates c := generates_run events
  obtain ⟨part, sent, beyond, -⟩ := held.sent
  obtain ⟨short, where_⟩ := beyond.part
  refine ⟨⟨held.within, held.circulates.within⟩, ⟨part, ?_, short, where_⟩, held.counted,
    fun gone => isEnded_iff.mp (held.last (isEnded_iff.mpr gone)),
    fun running => held.circulates.moves (by decide) (.inl running)⟩
  rw [sent, held.circulates.order held.generated, genPieces_flatten]

/-! ## One behind the other -/

/-- Whole samples in front are received by themselves. -/
theorem received_append {first : List (BitVec 8)} (whole : 4 ∣ first.length)
    (rest : List (BitVec 8)) : received (first ++ rest) = received first ++ received rest := by
  induction first using received.induct with
  | case1 b₀ b₁ b₂ b₃ more inductionHypothesis =>
    have shorter : 4 ∣ more.length := by
      simp only [List.length_cons] at whole
      omega
    simp only [List.cons_append, received, inductionHypothesis shorter]
  | case2 short notWhole =>
    have empty : short = [] := by
      rcases short with _ | ⟨b₀, _ | ⟨b₁, _ | ⟨b₂, _ | ⟨b₃, more⟩⟩⟩⟩
      · rfl
      · simp at whole
      · simp at whole
      · simp at whole
      · exact absurd rfl (notWhole b₀ b₁ b₂ b₃ more)
    rw [empty]
    rfl

theorem received_within {first all : List (BitVec 8)} (whole : 4 ∣ first.length)
    (within : first <+: all) : received first <+: received all := by
  obtain ⟨rest, rfl⟩ := within
  rw [received_append whole]
  exact List.prefix_append _ _

theorem carried_of_prefix {s : BitVec 16} {xs ys : List Iq} (within : xs <+: ys)
    (carried : Carried s ys) : Carried s xs := by
  obtain ⟨rest, rfl⟩ := within
  intro k x at_k
  apply carried k x
  rw [List.getElem?_append_left (List.getElem?_eq_some_iff.mp at_k).1]
  exact at_k

/-- The generator's bytes carry its register. -/
theorem prbsBytes_carried (first count : Nat) :
    Carried (lfsrNext^[first] Generator.default.state) (received (prbsBytes first count)) := by
  have length : (List.replicate (4 * count) (0 : BitVec 8)).length = 4 * count :=
    List.length_replicate
  obtain ⟨filled, -⟩ := Ad9361Txrx.fill_eq ⟨lfsrNext^[first] Generator.default.state⟩ length
  have bytes : prbsBytes first count =
      (Generator.fill ⟨lfsrNext^[first] Generator.default.state⟩
        (List.replicate (4 * count) 0)).2 := by
    rw [filled]
    apply List.flatMap_congr
    intro k _
    rw [← Function.iterate_add_apply, Nat.add_comm k first]
  rw [bytes]
  exact fill_carried _ _

theorem pieces_length (stream : Nat → BitVec 8) (count : Nat) :
    ((List.range count).map (piece stream)).flatten.length = bufferLength * count := by
  induction count with
  | zero => rfl
  | succ count inductionHypothesis =>
    rw [List.range_succ, List.map_append, List.flatten_append, List.length_append,
      inductionHypothesis, List.map_singleton, List.flatten_singleton, piece_length, Nat.mul_succ]

/-- The samples of the pieces are those of their bytes. -/
theorem stream_pieces (stream : Nat → BitVec 8) (count : Nat) :
    Prbs.stream (pieces stream count) =
      received ((List.range count).map (piece stream)).flatten := by
  induction count with
  | zero => rfl
  | succ count inductionHypothesis =>
    have whole : 4 ∣ ((List.range count).map (piece stream)).flatten.length := by
      rw [pieces_length]
      exact Dvd.dvd.mul_right (by decide) count
    have more : Prbs.stream (pieces stream (count + 1)) =
        Prbs.stream (pieces stream count) ++ received (piece stream count) := by
      simp [Prbs.stream, pieces, List.range_succ, pieceBlock]
    rw [more, inductionHypothesis, List.range_succ, List.map_append, List.flatten_append,
      received_append whole, List.map_singleton, List.flatten_singleton]

theorem stream_pieces_length (stream : Nat → BitVec 8) (count : Nat) :
    (Prbs.stream (pieces stream count)).length = 16384 * count := by
  rw [stream_pieces, received_length, pieces_length, bufferLength]
  omega

/-- Without its first samples a stretch of the generator's bytes is one that begins later. -/
theorem prbsBytes_drop (skipped count : Nat) :
    (prbsBytes 0 count).drop (4 * skipped) = prbsBytes skipped (count - skipped) := by
  by_cases inside : skipped ≤ count
  · obtain ⟨rest, rfl⟩ := Nat.exists_eq_add_of_le inside
    rw [prbsBytes_add, List.drop_left' (prbsBytes_length 0 skipped), Nat.zero_add,
      Nat.add_sub_cancel_left]
  · have none : count - skipped = 0 := by omega
    rw [none, List.drop_eq_nil_of_le]
    · rfl
    · rw [prbsBytes_length]
      omega

/-- The checker behind the generator, on a link that begins with any of the generator's
samples and loses nothing from there on. Wherever both programs are, no line that has been
printed shows an error and none is counted, and with the first buffer verified the checker
has the register of the generator as many samples ahead as it has verified. -/
theorem gen_to_check (stream : Nat → BitVec 8) (sending : List GenEvent)
    (checking : List CheckEvent) (skipped : Nat)
    (link : (run (recvPrbsCheck stream) checkStart checking).circle.filler.done.flatten <+:
      (run sendPrbsGen genStart sending).sent.drop (4 * skipped)) :
    let c := run (recvPrbsCheck stream) checkStart checking
    let verified := c.circle.drainer.done
    (∀ line ∈ c.printed, line.2 = 0) ∧ c.checker.errors = 0 ∧
      (verified ≠ [] → c.checker.seed =
        lfsrNext^[skipped + 16384 * verified.length] Generator.default.state) := by
  intro c verified
  have held : Checks stream c := checks_run stream checking
  have flat : ((List.range verified.length).map (piece stream)).flatten <+:
      prbsBytes skipped
        (16384 * (run sendPrbsGen genStart sending).circle.filler.done.length - skipped) := by
    have sent := (generates_run sending).within.drop (4 * skipped)
    rw [prbsBytes_drop] at sent
    rw [← held.circulates.order held.received]
    exact (held.circulates.behind.flatten.trans link).trans sent
  have whole : 4 ∣ ((List.range verified.length).map (piece stream)).flatten.length := by
    rw [pieces_length]
    exact Dvd.dvd.mul_right (by decide) _
  have carried : Carried (lfsrNext^[skipped] Generator.default.state)
      (Prbs.stream (pieces stream verified.length)) := by
    rw [stream_pieces]
    exact carried_of_prefix (received_within whole flat) (prbsBytes_carried _ _)
  obtain ⟨errors, seed⟩ := fresh_after carried
  have none : c.total Prod.snd + c.checker.errors = 0 := held.errors.trans errors
  refine ⟨fun line printed => ?_, by omega, fun some => ?_⟩
  · have lines : (c.printed.map Prod.snd).sum = 0 := by
      rw [PrbsCheck.total] at none
      omega
    exact List.sum_eq_zero_iff_forall_eq_nat.mp lines _ (List.mem_map_of_mem printed)
  · have samples : Prbs.stream (pieces stream verified.length) ≠ [] := by
      rw [← List.length_pos_iff, stream_pieces_length]
      have counted := List.length_pos_iff.mpr some
      omega
    have followed := held.seed.trans (seed samples)
    rw [stream_pieces_length, ← Function.iterate_add_apply, Nat.add_comm] at followed
    exact followed

/-- A buffer written by one call. -/
theorem transmit_whole {c : PrbsGen} {buf : List (BitVec 8)}
    (at_ : c.circle.drainer.pc = .working buf) (none : c.written = 0)
    (length : buf.length = 65536) :
    sendPrbsGen c (.write (.moved 65536)) =
      { c with
        circle := c.circle.step (.drainer true)
        sent := c.sent ++ buf
        written := 0
        samples := c.samples + buf.length / 4 } := by
  have all : buf.take 65536 = buf := List.take_of_length_le (Nat.le_of_eq length)
  simp only [sendPrbsGen, at_, none, length, Outcome.upTo, Outcome.bytes, advance, List.drop_zero]
  simp [all]

/-- The first buffer comes to the transmitter. -/
def firstTaken : List GenEvent := [.generator, .generator, .generator, .transmitter false]

/-- Behind the first buffer comes the next one. -/
def nextTaken : List GenEvent :=
  [.generator, .generator, .generator, .transmitter false, .transmitter false]

/-- The buffers that the transmitter takes one after the other. -/
theorem buffers_taken (g : Generator) (first next : List (BitVec 8))
    (free : List (List (BitVec 8))) (sent : List (BitVec 8)) (samples : Nat) :
    let one := run sendPrbsGen ⟨start (first :: next :: free), g, [], 0, 0, []⟩ firstTaken
    let two := run sendPrbsGen
      { one with
        circle := one.circle.step (.drainer true)
        sent := sent
        written := 0
        samples := samples }
      nextTaken
    (one.circle.drainer.pc = .working (g.fill first).2 ∧ one.written = 0 ∧ one.sent = []) ∧
      two.circle.drainer.pc = .working ((g.fill first).1.fill next).2 ∧ two.written = 0 ∧
        two.sent = sent :=
  ⟨⟨rfl, rfl, rfl⟩, rfl, rfl, rfl⟩

/-- Two buffers are filled and transmitted. -/
def buffersSent : List GenEvent :=
  firstTaken ++ [.write (.moved 65536)] ++ nextTaken ++ [.write (.moved 65536)]

theorem buffersSent_bytes : (run sendPrbsGen genStart buffersSent).sent = prbsBytes 0 32768 := by
  have length : (List.replicate bufferLength (0 : BitVec 8)).length = bufferLength :=
    List.length_replicate
  have start : Generator.default.state = lfsrNext^[0] Generator.default.state := rfl
  obtain ⟨first, further⟩ := fill_bytes start length
  obtain ⟨second, -⟩ := fill_bytes further length
  have single : ∀ c e, run sendPrbsGen c [e] = sendPrbsGen c e := fun _ _ => rfl
  have taken := buffers_taken Generator.default (List.replicate bufferLength 0)
    (List.replicate bufferLength 0) (List.replicate 14 (List.replicate bufferLength 0))
  obtain ⟨⟨oneWorks, oneNone, nothing⟩, -⟩ := taken [] 0
  have oneSent := transmit_whole oneWorks oneNone (by rw [first, prbsBytes_length])
  rw [nothing, List.nil_append] at oneSent
  obtain ⟨-, twoWorks, twoNone, before⟩ := taken (Generator.default.fill (List.replicate bufferLength 0)).2 _
  have twoSent := transmit_whole twoWorks twoNone (by rw [second, prbsBytes_length])
  have begins : genStart =
      ⟨Circulation.start (List.replicate bufferLength 0 :: List.replicate bufferLength 0 ::
        List.replicate 14 (List.replicate bufferLength 0)), Generator.default, [], 0, 0, []⟩ := rfl
  rw [begins, buffersSent, run_append, run_append, run_append, single, single, oneSent, twoSent]
  dsimp only
  rw [before, first, second]
  exact (prbsBytes_add 0 16384 16384).symm

/-- What a link that begins with the second sample brings. -/
def bufferOnLink (j : Nat) : BitVec 8 := (prbsBytes 1 16384).getD j 0

theorem map_getD_range {bytes : List (BitVec 8)} {n : Nat} (length : bytes.length = n) :
    ((List.range n).map fun j => bytes.getD j 0) = bytes := by
  apply List.ext_getElem
  · rw [List.length_map, List.length_range, length]
  · intro j _ inside
    rw [List.getElem_map, List.getElem_range, List.getD_eq_getElem?_getD,
      List.getElem?_eq_getElem inside]
    rfl

theorem piece_bufferOnLink : piece bufferOnLink 0 = prbsBytes 1 16384 := by
  have all := map_getD_range (prbsBytes_length 1 16384)
  unfold piece bufferOnLink
  simp only [Nat.mul_zero, Nat.zero_add]
  exact all

/-- It is read and verified. -/
def bufferVerified : List CheckEvent :=
  [.receiver true, .receiver true, .receiver true, .verifier false, .verifier false]

theorem bufferVerified_done :
    (run (recvPrbsCheck bufferOnLink) checkStart bufferVerified).circle.filler.done =
        [piece bufferOnLink 0] ∧
      (run (recvPrbsCheck bufferOnLink) checkStart bufferVerified).circle.drainer.done =
        [piece bufferOnLink 0] := by
  have at_ : (run (recvPrbsCheck bufferOnLink) checkStart [.receiver true, .receiver true,
      .receiver true, .verifier false]).circle.drainer.pc = .working (piece bufferOnLink 0) := rfl
  obtain ⟨next, verified, -⟩ := (checks_run bufferOnLink _).verify at_
  have last : bufferVerified =
      [.receiver true, .receiver true, .receiver true, .verifier false] ++ [.verifier false] := rfl
  have single : ∀ c e, run (recvPrbsCheck bufferOnLink) c [e] = recvPrbsCheck bufferOnLink c e :=
    fun _ _ => rfl
  rw [last, run_append, single]
  simp only [recvPrbsCheck, at_, verified]
  constructor
  · rfl
  · rw [drainer_done, if_pos rfl, at_]
    rfl

/-- A buffer that begins with the second sample generated is read and verified. -/
theorem gen_to_check_buffer :
    (run (recvPrbsCheck bufferOnLink) checkStart bufferVerified).checker.errors = 0 ∧
      (run (recvPrbsCheck bufferOnLink) checkStart bufferVerified).checker.seed =
        lfsrNext^[1 + 16384] Generator.default.state := by
  obtain ⟨read, verified⟩ := bufferVerified_done
  have link : (run (recvPrbsCheck bufferOnLink) checkStart
      bufferVerified).circle.filler.done.flatten <+:
        (run sendPrbsGen genStart buffersSent).sent.drop (4 * 1) := by
    have rest : prbsBytes 1 (32768 - 1) = prbsBytes 1 16384 ++ prbsBytes (1 + 16384) 16383 :=
      prbsBytes_add 1 16384 16383
    rw [read, buffersSent_bytes, prbsBytes_drop, rest, List.flatten_singleton, piece_bufferOnLink]
    exact List.prefix_append _ _
  obtain ⟨-, errors, seed⟩ := gen_to_check bufferOnLink buffersSent bufferVerified 1 link
  refine ⟨errors, ?_⟩
  rw [verified, List.length_singleton, Nat.mul_one] at seed
  exact seed (List.cons_ne_nil _ _)

end Zyndra.PrbsTool
