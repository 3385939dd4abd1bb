import Zyndra.Runs

/-!
# Buffers that circulate between two threads

Two threads share some buffers over two channels. One of them takes an empty buffer,
fills it and passes it on; the other takes it, drains it and passes it back. A channel
holds any number of buffers: passing one on never waits, and taking one waits until
there is one. What a thread holds of the channels goes when the thread ends. From then
on nothing can be passed to it any more, and nothing is waited for that it could send.

Work on a buffer may fail, which ends the thread that does it. The buffers drained are
always the first of those filled, in order and unchanged, and no more of them are filled
in advance than there are buffers. The threads never wait for each other. When one of
them has ended, the other works on one more buffer at most, and ends.
-/

namespace Zyndra.Circulation

open Runs

variable {Buffer : Type*}

/-- Where a thread stands in its loop. -/
inductive Pc (Buffer : Type*) where
  | taking
  | working (buffer : Buffer)
  | passing (buffer : Buffer)
  | ended

def Pc.isEnded : Pc Buffer → Bool
  | .ended => true
  | _ => false

theorem isEnded_iff {pc : Pc Buffer} : pc.isEnded = true ↔ pc = .ended := by
  cases pc <;> simp [Pc.isEnded]

/-- The buffer being worked on, and the one that is to be passed on. -/
def Pc.inWork : Pc Buffer → List Buffer
  | .working buffer => [buffer]
  | _ => []

def Pc.inPass : Pc Buffer → List Buffer
  | .passing buffer => [buffer]
  | _ => []

@[simp] theorem isEnded_taking : (Pc.taking : Pc Buffer).isEnded = false := rfl
@[simp] theorem isEnded_working (b : Buffer) : (Pc.working b : Pc Buffer).isEnded = false := rfl
@[simp] theorem isEnded_passing (b : Buffer) : (Pc.passing b : Pc Buffer).isEnded = false := rfl
@[simp] theorem isEnded_ended : (Pc.ended : Pc Buffer).isEnded = true := rfl
@[simp] theorem inWork_taking : (Pc.taking : Pc Buffer).inWork = [] := rfl
@[simp] theorem inWork_working (b : Buffer) : (Pc.working b : Pc Buffer).inWork = [b] := rfl
@[simp] theorem inWork_passing (b : Buffer) : (Pc.passing b : Pc Buffer).inWork = [] := rfl
@[simp] theorem inWork_ended : (Pc.ended : Pc Buffer).inWork = [] := rfl
@[simp] theorem inPass_taking : (Pc.taking : Pc Buffer).inPass = [] := rfl
@[simp] theorem inPass_working (b : Buffer) : (Pc.working b : Pc Buffer).inPass = [] := rfl
@[simp] theorem inPass_passing (b : Buffer) : (Pc.passing b : Pc Buffer).inPass = [b] := rfl
@[simp] theorem inPass_ended : (Pc.ended : Pc Buffer).inPass = [] := rfl

/-- A thread, and the buffers it has done its work on. -/
structure Worker (Buffer : Type*) where
  pc : Pc Buffer
  done : List Buffer

/-- A thread between the channel it takes from and the one it passes to. -/
structure Stage (Buffer : Type*) where
  worker : Worker Buffer
  inbox : List Buffer
  outbox : List Buffer

/-- One step of a thread. `gone` tells whether the other thread has ended. -/
def Stage.turn (s : Stage Buffer) (gone : Bool) (work : Buffer → Option Buffer) : Stage Buffer :=
  match s.worker.pc with
  | .taking =>
    match s.inbox with
    | buffer :: others =>
      { s with worker := { s.worker with pc := .working buffer }, inbox := others }
    | [] => { s with worker := { s.worker with pc := if gone then .ended else .taking } }
  | .working buffer =>
    match work buffer with
    | some worked =>
      { s with worker := ⟨.passing worked, s.worker.done ++ [worked]⟩ }
    | none => { s with worker := { s.worker with pc := .ended } }
  | .passing buffer =>
    if gone then { s with worker := { s.worker with pc := .ended } }
    else { s with worker := { s.worker with pc := .taking }, outbox := s.outbox ++ [buffer] }
  | .ended => s

structure Circle (Buffer : Type*) where
  filler : Worker Buffer
  drainer : Worker Buffer
  free : List Buffer
  used : List Buffer

/-- A step of a thread, with what its work comes to if the step is one of work. -/
inductive Event (Buffer : Type*) where
  | filler (filled : Option Buffer)
  | drainer (succeeds : Bool)

def Circle.step (c : Circle Buffer) : Event Buffer → Circle Buffer
  | .filler filled =>
    let s := Stage.turn ⟨c.filler, c.free, c.used⟩ c.drainer.pc.isEnded fun _ => filled
    { c with filler := s.worker, free := s.inbox, used := s.outbox }
  | .drainer succeeds =>
    let s := Stage.turn ⟨c.drainer, c.used, c.free⟩ c.filler.pc.isEnded fun buffer =>
      if succeeds then some buffer else none
    { c with drainer := s.worker, used := s.inbox, free := s.outbox }

/-- All buffers empty, in the channel to the thread that fills them. -/
def start (buffers : List Buffer) : Circle Buffer := ⟨⟨.taking, []⟩, ⟨.taking, []⟩, buffers, []⟩

/-! ## What every step keeps -/

/-- What holds with `n` buffers. They are all somewhere while both threads run, and the
ones filled are those drained, those on their way and no others. -/
structure Circulates (n : Nat) (c : Circle Buffer) : Prop where
  all : c.filler.pc.isEnded = false → c.drainer.pc.isEnded = false →
    c.free.length + c.filler.pc.inWork.length + c.filler.pc.inPass.length + c.used.length +
      c.drainer.pc.inWork.length + c.drainer.pc.inPass.length = n
  inOrder : c.drainer.pc.isEnded = false →
    c.filler.done = c.drainer.done ++ (c.drainer.pc.inWork ++ c.used ++ c.filler.pc.inPass)
  behind : c.drainer.done <+: c.filler.done
  ahead : c.filler.done.length + c.free.length + c.filler.pc.inWork.length +
    c.drainer.pc.inPass.length ≤ c.drainer.done.length + n

theorem circulates_start {n : Nat} (buffers : List Buffer) (count : buffers.length = n) :
    Circulates n (start buffers) where
  all _ _ := count
  inOrder _ := rfl
  behind := List.prefix_refl _
  ahead := by simp [start, count]

/-- What a step of a thread comes to. -/
inductive Turns (gone : Bool) (work : Buffer → Option Buffer) (s : Stage Buffer) :
    Stage Buffer → Prop where
  | takes (buffer : Buffer) (others : List Buffer) (at_ : s.worker.pc = .taking)
      (some : s.inbox = buffer :: others) :
      Turns gone work s ⟨⟨.working buffer, s.worker.done⟩, others, s.outbox⟩
  | waits (at_ : s.worker.pc = .taking) (none : s.inbox = []) (waited : gone = false) :
      Turns gone work s s
  | abandons (at_ : s.worker.pc = .taking) (none : s.inbox = []) (left : gone = true) :
      Turns gone work s ⟨⟨.ended, s.worker.done⟩, s.inbox, s.outbox⟩
  | works (buffer worked : Buffer) (at_ : s.worker.pc = .working buffer)
      (succeeds : work buffer = some worked) :
      Turns gone work s ⟨⟨.passing worked, s.worker.done ++ [worked]⟩, s.inbox, s.outbox⟩
  | fails (buffer : Buffer) (at_ : s.worker.pc = .working buffer) (nothing : work buffer = none) :
      Turns gone work s ⟨⟨.ended, s.worker.done⟩, s.inbox, s.outbox⟩
  | passes (buffer : Buffer) (at_ : s.worker.pc = .passing buffer) (there : gone = false) :
      Turns gone work s ⟨⟨.taking, s.worker.done⟩, s.inbox, s.outbox ++ [buffer]⟩
  | drops (buffer : Buffer) (at_ : s.worker.pc = .passing buffer) (left : gone = true) :
      Turns gone work s ⟨⟨.ended, s.worker.done⟩, s.inbox, s.outbox⟩
  | rests (at_ : s.worker.pc = .ended) : Turns gone work s s

theorem turn_cases (s : Stage Buffer) (gone : Bool) (work : Buffer → Option Buffer) :
    Turns gone work s (s.turn gone work) := by
  unfold Stage.turn
  split
  case h_1 at_ =>
    split
    case h_1 buffer others inbox => exact .takes buffer others at_ inbox
    case h_2 inbox =>
      cases gone with
      | true => exact .abandons at_ inbox rfl
      | false =>
        have same : s = { s with worker := { s.worker with pc := .taking } } := by rw [← at_]
        rw [if_neg Bool.false_ne_true, ← same]
        exact .waits at_ inbox rfl
  case h_2 buffer at_ =>
    split
    case h_1 worked succeeds => exact .works buffer worked at_ succeeds
    case h_2 nothing => exact .fails buffer at_ nothing
  case h_3 buffer at_ =>
    cases gone with
    | true => exact .drops buffer at_ rfl
    | false => exact .passes buffer at_ rfl
  case h_4 at_ => exact .rests at_

section Steps

variable {n : Nat} {c : Circle Buffer}

theorem Circulates.filler (held : Circulates n c) (filled : Option Buffer) :
    Circulates n (c.step (.filler filled)) := by
  obtain ⟨⟨pc, done⟩, drainer, free, used⟩ := c
  obtain ⟨all, inOrder, behind, ahead⟩ := held
  have turned := turn_cases ⟨⟨pc, done⟩, free, used⟩ drainer.pc.isEnded fun _ => filled
  dsimp only [Circle.step]
  generalize Stage.turn _ _ _ = s at turned ⊢
  cases turned with
  | takes buffer others at_ some =>
    subst at_ some
    refine ⟨fun _ there => ?_, inOrder, behind, ?_⟩
    · have counted := all rfl there
      simp at counted ⊢
      omega
    · simp at ahead ⊢
      omega
  | waits at_ none waited => exact ⟨all, inOrder, behind, ahead⟩
  | abandons at_ none left =>
    subst at_
    exact ⟨fun running => absurd running (by simp), inOrder, behind, ahead⟩
  | works buffer worked at_ succeeds =>
    subst at_
    refine ⟨fun _ there => ?_, fun there => ?_, behind.trans (List.prefix_append _ _), ?_⟩
    · have counted := all rfl there
      simp at counted ⊢
      omega
    · have before := inOrder there
      simp at before ⊢
      simp [before]
    · simp at ahead ⊢
      omega
  | fails buffer at_ nothing =>
    subst at_
    refine ⟨fun running => absurd running (by simp), inOrder, behind, ?_⟩
    simp at ahead ⊢
    omega
  | passes buffer at_ there =>
    subst at_
    refine ⟨fun _ there => ?_, fun there => ?_, behind, ahead⟩
    · have counted := all rfl there
      simp at counted ⊢
      omega
    · have before := inOrder there
      simp at before ⊢
      simp [before]
  | drops buffer at_ left =>
    subst at_
    refine ⟨fun running => absurd running (by simp), fun there => ?_, behind, ahead⟩
    rw [left] at there
    exact absurd there (by simp)
  | rests at_ => exact ⟨all, inOrder, behind, ahead⟩

theorem Circulates.drainer (held : Circulates n c) (succeeds : Bool) :
    Circulates n (c.step (.drainer succeeds)) := by
  obtain ⟨filler, ⟨pc, done⟩, free, used⟩ := c
  obtain ⟨all, inOrder, behind, ahead⟩ := held
  have turned := turn_cases ⟨⟨pc, done⟩, used, free⟩ filler.pc.isEnded fun buffer =>
    if succeeds then some buffer else none
  dsimp only [Circle.step]
  generalize Stage.turn _ _ _ = s at turned ⊢
  cases turned with
  | takes buffer others at_ some =>
    subst at_ some
    refine ⟨fun there _ => ?_, fun _ => ?_, behind, ahead⟩
    · have counted := all there rfl
      simp at counted ⊢
      omega
    · have before := inOrder rfl
      simp at before ⊢
      simp [before]
  | waits at_ none waited => exact ⟨all, inOrder, behind, ahead⟩
  | abandons at_ none left =>
    subst at_
    exact ⟨fun _ running => absurd running (by simp), fun running => absurd running (by simp),
      behind, ahead⟩
  | works buffer worked at_ unharmed =>
    subst at_
    obtain rfl : buffer = worked := by
      cases succeeds with
      | true => exact Option.some.inj unharmed
      | false => cases unharmed
    have before := inOrder rfl
    simp at before
    refine ⟨fun there _ => ?_, fun _ => ?_, ?_, ?_⟩
    · have counted := all there rfl
      simp at counted ⊢
      omega
    · simp [before]
    · simp [before]
    · simp at ahead ⊢
      omega
  | fails buffer at_ nothing =>
    subst at_
    exact ⟨fun _ running => absurd running (by simp), fun running => absurd running (by simp),
      behind, ahead⟩
  | passes buffer at_ there =>
    subst at_
    refine ⟨fun there _ => ?_, fun _ => ?_, behind, ?_⟩
    · have counted := all there rfl
      simp at counted ⊢
      omega
    · have before := inOrder rfl
      simp at before ⊢
      simp [before]
    · simp at ahead ⊢
      omega
  | drops buffer at_ left =>
    subst at_
    refine ⟨fun _ running => absurd running (by simp), fun running => absurd running (by simp),
      behind, ?_⟩
    simp at ahead ⊢
    omega
  | rests at_ => exact ⟨all, inOrder, behind, ahead⟩

theorem Circulates.step (held : Circulates n c) (e : Event Buffer) : Circulates n (c.step e) := by
  cases e with
  | filler filled => exact held.filler filled
  | drainer succeeds => exact held.drainer succeeds

/-- A step of the filler adds to what has been filled, if anything, what its work came to. -/
theorem filler_done (c : Circle Buffer) (filled : Option Buffer) :
    (c.step (.filler filled)).filler.done = c.filler.done ∨
      ∃ buffer, filled = some buffer ∧
        (c.step (.filler filled)).filler.done = c.filler.done ++ [buffer] := by
  have turned := turn_cases ⟨c.filler, c.free, c.used⟩ c.drainer.pc.isEnded fun _ => filled
  dsimp only [Circle.step]
  generalize Stage.turn _ _ _ = s at turned ⊢
  cases turned with
  | works buffer worked at_ succeeds => exact .inr ⟨worked, succeeds, rfl⟩
  | _ => exact .inl rfl

/-- Work of the filler that succeeds adds to what has been filled. -/
theorem filler_works {c : Circle Buffer} {buffer : Buffer} (at_ : c.filler.pc = .working buffer)
    (filled : Buffer) :
    (c.step (.filler (some filled))).filler.done = c.filler.done ++ [filled] := by
  simp only [Circle.step, Stage.turn, at_]

/-- Work of the drainer that fails ends it. -/
theorem drainer_fails {c : Circle Buffer} {buffer : Buffer} (at_ : c.drainer.pc = .working buffer) :
    (c.step (.drainer false)).drainer.pc = .ended := by
  simp only [Circle.step, Stage.turn, at_, Bool.false_eq_true, if_false]

/-- A drainer that has ended does nothing. -/
theorem drainer_ended {c : Circle Buffer} (gone : c.drainer.pc = .ended) (succeeds : Bool) :
    c.step (.drainer succeeds) = c := by
  obtain ⟨filler, ⟨pc, done⟩, free, used⟩ := c
  subst gone
  rfl

/-- A step of the drainer adds the buffer it works on, if the work succeeds. -/
theorem drainer_done (c : Circle Buffer) (succeeds : Bool) :
    (c.step (.drainer succeeds)).drainer.done =
      c.drainer.done ++ if succeeds then c.drainer.pc.inWork else [] := by
  have turned := turn_cases ⟨c.drainer, c.used, c.free⟩ c.filler.pc.isEnded fun buffer =>
    if succeeds then some buffer else none
  dsimp only [Circle.step]
  generalize Stage.turn _ _ _ = s at turned ⊢
  cases succeeds <;> cases turned <;> simp_all

/-- A drainer whose work succeeds ends only when the filler has ended. -/
theorem drainer_last (c : Circle Buffer)
    (last : c.drainer.pc.isEnded = true → c.filler.pc.isEnded = true) :
    (c.step (.drainer true)).drainer.pc.isEnded = true → c.filler.pc.isEnded = true := by
  have turned := turn_cases ⟨c.drainer, c.used, c.free⟩ c.filler.pc.isEnded fun buffer =>
    if true then some buffer else none
  dsimp only [Circle.step]
  generalize Stage.turn _ _ _ = s at turned ⊢
  intro ended
  cases turned with
  | takes => cases ended
  | waits => exact last ended
  | abandons at_ none left => exact left
  | works => cases ended
  | fails buffer at_ nothing => cases nothing
  | passes => cases ended
  | drops buffer at_ left => exact left
  | rests at_ => exact last ended

/-- A filler whose work succeeds ends only when the drainer has ended. -/
theorem filler_last (c : Circle Buffer) {filled : Option Buffer}
    (works : c.filler.pc.inWork ≠ [] → filled ≠ none)
    (last : c.filler.pc.isEnded = true → c.drainer.pc.isEnded = true) :
    (c.step (.filler filled)).filler.pc.isEnded = true → c.drainer.pc.isEnded = true := by
  have turned := turn_cases ⟨c.filler, c.free, c.used⟩ c.drainer.pc.isEnded fun _ => filled
  dsimp only [Circle.step]
  generalize Stage.turn _ _ _ = s at turned ⊢
  intro ended
  cases turned with
  | takes => cases ended
  | waits => exact last ended
  | abandons at_ none left => exact left
  | works => cases ended
  | fails buffer at_ nothing =>
    have at_work : c.filler.pc = .working buffer := at_
    exact absurd nothing (works (by simp [at_work]))
  | passes => cases ended
  | drops buffer at_ left => exact left
  | rests at_ => exact last ended

/-- The buffers that are somewhere in the circle. -/
def Circle.buffers (c : Circle Buffer) : List Buffer :=
  c.free ++ c.filler.pc.inWork ++ c.filler.pc.inPass ++ c.used ++ c.drainer.pc.inWork ++
    c.drainer.pc.inPass

/-- A step brings no buffer into the circle but the one just filled. -/
theorem step_buffers (c : Circle Buffer) (e : Event Buffer) {buffer : Buffer}
    (member : buffer ∈ (c.step e).buffers) : buffer ∈ c.buffers ∨ e = .filler (some buffer) := by
  cases e with
  | filler filled =>
    obtain ⟨⟨pc, done⟩, drainer, free, used⟩ := c
    have turned := turn_cases ⟨⟨pc, done⟩, free, used⟩ drainer.pc.isEnded fun _ => filled
    dsimp only [Circle.step] at member
    generalize Stage.turn _ _ _ = s at turned member
    cases turned with
    | takes _ _ at_ some =>
      subst at_ some
      simp [Circle.buffers] at member ⊢
      tauto
    | works _ _ at_ succeeds =>
      subst at_ succeeds
      simp [Circle.buffers] at member ⊢
      tauto
    | passes _ at_ _ =>
      subst at_
      simp [Circle.buffers] at member ⊢
      tauto
    | abandons at_ _ _ | fails _ at_ _ | drops _ at_ _ =>
      subst at_
      simp [Circle.buffers] at member ⊢
      tauto
    | waits | rests => exact .inl member
  | drainer succeeds =>
    obtain ⟨filler, ⟨pc, done⟩, free, used⟩ := c
    have turned := turn_cases ⟨⟨pc, done⟩, used, free⟩ filler.pc.isEnded fun buffer =>
      if succeeds then some buffer else none
    dsimp only [Circle.step] at member
    generalize Stage.turn _ _ _ = s at turned member
    cases turned with
    | takes _ _ at_ some =>
      subst at_ some
      simp [Circle.buffers] at member ⊢
      tauto
    | works buffer worked at_ unharmed =>
      subst at_
      obtain rfl : buffer = worked := by
        cases succeeds with
        | true => exact Option.some.inj unharmed
        | false => cases unharmed
      simp [Circle.buffers] at member ⊢
      tauto
    | passes _ at_ _ =>
      subst at_
      simp [Circle.buffers] at member ⊢
      tauto
    | abandons at_ _ _ | fails _ at_ _ | drops _ at_ _ =>
      subst at_
      simp [Circle.buffers] at member ⊢
      tauto
    | waits | rests => exact .inl member

/-- The buffer that the drainer works on is the next of those filled. -/
theorem Circulates.next (held : Circulates n c) {buffer : Buffer}
    (at_ : c.drainer.pc = .working buffer) :
    c.filler.done[c.drainer.done.length]? = some buffer := by
  have order := held.inOrder (by rw [at_]; rfl)
  rw [order, at_]
  simp

/-- If the filler takes what it passes on from a sequence, the drainer has worked on what
that begins with. -/
theorem Circulates.order (held : Circulates n c) {piece : Nat → Buffer}
    (filled : c.filler.done = (List.range c.filler.done.length).map piece) :
    c.drainer.done = (List.range c.drainer.done.length).map piece := by
  have first := List.prefix_iff_eq_take.mp held.behind
  rw [filled, ← List.map_take, List.take_range, Nat.min_eq_left held.behind.length_le] at first
  exact first

/-- No more buffers are filled in advance than there are. -/
theorem Circulates.within (held : Circulates n c) :
    c.filler.done.length ≤ c.drainer.done.length + n := by
  have ahead := held.ahead
  omega

/-! ## Waiting -/

/-- A thread has to wait: its channel is empty, and the other thread is still there. -/
def Waits (worker : Worker Buffer) (inbox : List Buffer) (other : Worker Buffer) : Prop :=
  worker.pc = .taking ∧ inbox = [] ∧ other.pc.isEnded = false

/-- A thread that has not ended moves. -/
def Moves (c : Circle Buffer) : Prop :=
  (c.filler.pc.isEnded = false ∧ ¬ Waits c.filler c.free c.drainer) ∨
    (c.drainer.pc.isEnded = false ∧ ¬ Waits c.drainer c.used c.filler)

/-- With any buffer at all, one of the threads can go on, until both have ended. -/
theorem Circulates.moves (held : Circulates n c) (some : 0 < n)
    (running : c.filler.pc.isEnded = false ∨ c.drainer.pc.isEnded = false) : Moves c := by
  by_cases filler : c.filler.pc.isEnded = false
  · by_cases drainer : c.drainer.pc.isEnded = false
    · by_contra stuck
      have both : Waits c.filler c.free c.drainer ∧ Waits c.drainer c.used c.filler := by
        simpa only [Moves, filler, drainer, true_and, not_or, not_not] using stuck
      obtain ⟨⟨takes, free, -⟩, drains, used, -⟩ := both
      have counted := held.all filler drainer
      rw [takes, drains, free, used] at counted
      simp at counted
      omega
    · exact .inl ⟨filler, fun waits => drainer waits.2.2⟩
  · exact .inr ⟨running.resolve_left filler, fun waits => filler waits.2.2⟩

/-! ## One thread alone

The other thread has ended. A thread that works on a buffer or finds one in its channel
does one more piece of work at most, and it ends within three steps. -/

/-- The steps that are left to a thread alone. -/
def Stage.stepsLeft (s : Stage Buffer) : Nat :=
  match s.worker.pc with
  | .taking => if s.inbox = [] then 1 else 3
  | .working _ => 2
  | .passing _ => 1
  | .ended => 0

/-- The buffers that it can still do its work on. -/
def Stage.workLeft (s : Stage Buffer) : Nat := min 1 (s.stepsLeft - 1)

/-- The drainer between its channels. -/
def Circle.drainerStage (c : Circle Buffer) : Stage Buffer := ⟨c.drainer, c.used, c.free⟩

/-- A filler that has ended does nothing. -/
theorem filler_ended (gone : c.filler.pc = .ended) (filled : Option Buffer) :
    c.step (.filler filled) = c := by
  obtain ⟨⟨pc, done⟩, drainer, free, used⟩ := c
  subst gone
  rfl

/-- Behind a filler that has ended, a step of the drainer is one of a thread alone. -/
theorem drainer_alone (gone : c.filler.pc = .ended) (succeeds : Bool) :
    ∃ work, (c.step (.drainer succeeds)).drainerStage = c.drainerStage.turn true work := by
  refine ⟨fun buffer => if succeeds then some buffer else none, ?_⟩
  simp only [Circle.step, Circle.drainerStage, gone, isEnded_ended]

theorem Stage.ended_of_none {s : Stage Buffer} (none : s.stepsLeft = 0) : s.worker.pc = .ended := by
  unfold Stage.stepsLeft at none
  split at none
  · split at none <;> cases none
  · cases none
  · cases none
  · assumption

theorem Stage.stepsLeft_le (s : Stage Buffer) : s.stepsLeft ≤ 3 := by
  unfold Stage.stepsLeft
  split
  · split <;> decide
  all_goals decide

/-- Without the other thread every step brings the end closer, and the work done is taken
from the work left. -/
theorem turn_alone (s : Stage Buffer) (work : Buffer → Option Buffer) :
    (s.turn true work).stepsLeft ≤ s.stepsLeft - 1 ∧
      (s.turn true work).worker.done.length + (s.turn true work).workLeft ≤
        s.worker.done.length + s.workLeft := by
  have turned := turn_cases s true work
  generalize s.turn true work = next at turned ⊢
  cases turned with
  | takes buffer others at_ some => simp [Stage.workLeft, Stage.stepsLeft, at_, some]
  | waits at_ none waited => cases waited
  | abandons at_ none left => simp [Stage.workLeft, Stage.stepsLeft]
  | works buffer worked at_ succeeds => simp [Stage.workLeft, Stage.stepsLeft, at_]
  | fails buffer at_ nothing => simp [Stage.workLeft, Stage.stepsLeft]
  | passes buffer at_ there => cases there
  | drops buffer at_ left => simp [Stage.workLeft, Stage.stepsLeft]
  | rests at_ => simp [Stage.stepsLeft, at_]

/-- A thread alone in any system, in which it moves by its own steps only.

Induct along the run. Every step of the thread takes one of the steps left to it. -/
theorem alone_run {State Step : Type*} (stage : State → Stage Buffer) (mine : Step → Bool)
    {step : State → Step → State} {alone : State → Prop}
    (kept : ∀ s e, alone s → alone (step s e))
    (turns : ∀ s e, alone s → mine e = true →
      ∃ work, stage (step s e) = (stage s).turn true work)
    (rests : ∀ s e, alone s → mine e = false → stage (step s e) = stage s)
    {first : State} (left : alone first) (events : List Step) :
    (stage (run step first events)).stepsLeft ≤ (stage first).stepsLeft - events.countP mine ∧
      (stage (run step first events)).worker.done.length ≤
        (stage first).worker.done.length + (stage first).workLeft := by
  induction events generalizing first with
  | nil => exact ⟨Nat.le_refl _, Nat.le_add_right _ _⟩
  | cons e rest inductionHypothesis =>
    obtain ⟨steps, work⟩ := inductionHypothesis (kept first e left)
    change (stage (run step (step first e) rest)).stepsLeft ≤ _ ∧
      (stage (run step (step first e) rest)).worker.done.length ≤ _
    cases own : mine e with
    | true =>
      obtain ⟨worked, turned⟩ := turns first e left own
      obtain ⟨closer, taken⟩ := turn_alone (stage first) worked
      rw [turned] at steps work
      rw [List.countP_cons_of_pos own]
      omega
    | false =>
      rw [rests first e left own] at steps work
      rw [List.countP_cons_of_neg (by simp [own])]
      exact ⟨steps, work⟩

end Steps

end Zyndra.Circulation
