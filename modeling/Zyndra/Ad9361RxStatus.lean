import Zyndra.Ad9361RxTcp
import Mathlib.Data.BitVec
import Mathlib.Tactic.LinearCombination

/-!
# The status line of the relay

Once a second `status_thread` reads four counters, one after the other, while main and
the transmit thread go on. It prints by how much each has grown since its last line
and, under `inbuf`, the blocks passed on less the blocks sent. Both counters follow
their semaphores: main counts a block behind the `sem_post` that passes it on, the
transmit thread behind the one that gives its slot back. So the line can show one
block less than there are in the slots, down to -1 when there is none, and it shows
more when slots are given back between its two reads.

The bench keeps, with each line, the relay as it was at these two reads.
-/

namespace Zyndra.Ad9361Rx

open Runs

/-- A status line, without the rate it derives from `send` and the time. -/
structure StatusLine where
  send : BitVec 32
  pass : BitVec 32
  wait : BitVec 32
  inbuf : BitVec 32
  lost : BitVec 32
  deriving DecidableEq, Repr

/-- Where the thread is: before its reads, or behind the first ones. -/
inductive StatusPc where
  | sleeping
  | sendRead (udpSendCnt : BitVec 32)
  | passRead (udpSendCnt udpPassCnt : BitVec 32)
  | waitRead (udpSendCnt udpPassCnt bufWaitCnt : BitVec 32)
  deriving DecidableEq, Repr

structure Status where
  pc : StatusPc
  prevSendCnt : BitVec 32
  prevPassCnt : BitVec 32
  prevBufWaitCnt : BitVec 32
  prevLostBytes : BitVec 32

/-- One read of the status thread. The last one is followed by the line. -/
def statusStep (prog : Relay) (s : Status) : Status × Option StatusLine :=
  match s.pc with
  | .sleeping => ({ s with pc := .sendRead prog.sSendCnt }, none)
  | .sendRead udpSendCnt => ({ s with pc := .passRead udpSendCnt prog.sPassCnt }, none)
  | .passRead udpSendCnt udpPassCnt =>
    ({ s with pc := .waitRead udpSendCnt udpPassCnt prog.sBufWaitCnt }, none)
  | .waitRead udpSendCnt udpPassCnt bufWaitCnt =>
    ({ pc := .sleeping
       prevSendCnt := udpSendCnt
       prevPassCnt := udpPassCnt
       prevBufWaitCnt := bufWaitCnt
       prevLostBytes := prog.sLostBytes },
     some
      { send := udpSendCnt - s.prevSendCnt
        pass := udpPassCnt - s.prevPassCnt
        wait := bufWaitCnt - s.prevBufWaitCnt
        inbuf := udpPassCnt - udpSendCnt
        lost := prog.sLostBytes - s.prevLostBytes })

/-! ## The bench -/

/-- A line printed, and the relay at the reads of `s_send_cnt` and of `s_pass_cnt`. -/
structure Shown where
  line : StatusLine
  atSend : TcpRelay
  atPass : TcpRelay

structure StatusRelay where
  relay : TcpRelay
  status : Status
  /-- The relay at the last two such reads, and the lines so far, newest first. -/
  atSend : TcpRelay
  atPass : TcpRelay
  shown : List Shown

inductive StatusEvent where
  | relay (e : TcpEvent)
  | status
  deriving DecidableEq, Repr

/-- A step of the relay, or a read of the status thread. -/
def watch (cfg : Cfg) (stream : Nat → BitVec 8) (w : StatusRelay) : StatusEvent → StatusRelay
  | .relay e => { w with relay := tcpStep cfg stream w.relay e }
  | .status =>
    let next := statusStep w.relay.bench.prog w.status
    { w with
      status := next.1
      atSend := match w.status.pc with
        | .sleeping => w.relay
        | _ => w.atSend
      atPass := match w.status.pc with
        | .sendRead _ => w.relay
        | _ => w.atPass
      shown := match next.2 with
        | some line => ⟨line, w.atSend, w.atPass⟩ :: w.shown
        | none => w.shown }

/-- Both threads at their start. -/
def statusStarted (cfg : Cfg) (memory txBuf : Nat → BitVec 8) : StatusRelay where
  relay := tcpStarted cfg memory txBuf
  status := ⟨.sleeping, 0, 0, 0, 0⟩
  atSend := tcpStarted cfg memory txBuf
  atPass := tcpStarted cfg memory txBuf
  shown := []

/-- The relay keeps its rule; the status thread may read at any time. -/
def StatusRule (cfg : Cfg) (w : StatusRelay) : StatusEvent → Prop
  | .relay e => TcpRule cfg w.relay e
  | .status => True

instance (cfg : Cfg) (w : StatusRelay) : (e : StatusEvent) → Decidable (StatusRule cfg w e)
  | .relay _ => inferInstanceAs (Decidable (TcpRule _ _ _))
  | .status => isTrue trivial

/-- What `inbuf` comes to: the slots not given back, those given back between the two
reads, a block for every client that had ended, and the blocks on their way into the two
counters. -/
def Shown.inbuf (s : Shown) : Int :=
  (s.atPass.bench.passed - s.atPass.bench.freed : Nat) +
    (s.atPass.bench.freed - s.atSend.bench.freed : Nat) + s.atSend.ended.length +
    s.atSend.pc.uncounted - s.atPass.bench.prog.pc.uncounted

/-- A line tells the difference of the two counters as they were, and that is not less
than -1. -/
structure Shown.Tells (cfg : Cfg) (s : Shown) : Prop where
  inbuf : s.line.inbuf = BitVec.ofInt 32 s.inbuf
  kept : s.atPass.bench.passed - s.atPass.bench.freed ≤ cfg.sBufCnt
  least : -1 ≤ s.inbuf

/-! ## Two reads -/

/-- What has happened to the relay by a later time: slots have been given back, and
blocks counted. -/
structure Later (first second : TcpRelay) : Prop where
  freed : first.bench.freed ≤ second.bench.freed
  counted : first.bench.passed - first.bench.prog.pc.uncounted ≤
    second.bench.passed - second.bench.prog.pc.uncounted

theorem Later.refl (r : TcpRelay) : Later r r := ⟨Nat.le_refl _, Nat.le_refl _⟩

theorem Later.trans {first second third : TcpRelay} (one : Later first second)
    (two : Later second third) : Later first third :=
  ⟨Nat.le_trans one.freed two.freed, Nat.le_trans one.counted two.counted⟩

section Reads

variable {cfg : Cfg} {stream : Nat → BitVec 8} {r first second : TcpRelay} {e : TcpEvent}

/-- Main counts a block only behind passing it on. -/
theorem main_counted {b after : Bench} (moved : MainMove cfg b after) :
    b.passed - b.prog.pc.uncounted ≤ after.passed - after.prog.pc.uncounted := by
  cases moved with
  | waits at_ short => exact Nat.le_refl _
  | passes at_ whole => simp [Bench.passed, MainPc.uncounted, at_]
  | counts at_ => simp [Bench.passed, MainPc.uncounted, at_]
  | sees at_ enough => simp [Bench.passed, MainPc.uncounted, at_]
  | givesUp at_ none => simp [Bench.passed, MainPc.uncounted, at_]
  | takes at_ some => simp [Bench.passed, MainPc.uncounted, at_]
  | copies at_ inside => simp [Bench.passed, MainPc.uncounted, at_]

theorem later_step (cfg : Cfg) (stream : Nat → BitVec 8) (r : TcpRelay) (e : TcpEvent) :
    Later r (tcpStep cfg stream r e) := by
  have moved := tcpStep_moves cfg stream r e
  generalize tcpStep cfg stream r e = after at moved
  cases moved with
  | feeds f =>
    obtain ⟨-, freed, -⟩ := feed_frame cfg stream r.bench f
    refine ⟨Nat.le_of_eq freed.symm, ?_⟩
    cases f with
    | main => exact main_counted (observeMain_moves cfg r.bench)
    | _ => exact Nat.le_refl _
  | posts at_ => exact ⟨Nat.le_succ _, Nat.le_refl _⟩
  | closes at_ => exact ⟨Nat.le_succ _, Nat.le_refl _⟩
  | _ => exact ⟨Nat.le_refl _, Nat.le_refl _⟩

/-- The difference of two counters that lag behind their totals. -/
theorem counters_differ {passCnt sendCnt : BitVec 32} {passed uncounted freed short : Nat}
    (pass : passCnt + BitVec.ofNat 32 uncounted = BitVec.ofNat 32 passed)
    (send : sendCnt + BitVec.ofNat 32 short = BitVec.ofNat 32 freed) :
    passCnt - sendCnt = BitVec.ofInt 32 ((passed : Int) - uncounted - (freed - short)) := by
  have natural : ∀ n : Nat, BitVec.ofNat 32 n = (n : BitVec 32) := fun _ => rfl
  have whole : ∀ z : Int, BitVec.ofInt 32 z = (z : BitVec 32) := fun _ => rfl
  rw [natural, natural] at pass send
  rw [whole]
  push_cast
  linear_combination pass - send

/-- Two reads make a line that tells the difference. -/
theorem tells (before : TcpIntact cfg stream first) (after : TcpIntact cfg stream second)
    (later : Later first second) {line : StatusLine}
    (inbuf : line.inbuf = second.bench.prog.sPassCnt - first.bench.prog.sSendCnt) :
    Shown.Tells cfg ⟨line, first, second⟩ := by
  have given : ∀ {r : TcpRelay}, TcpIntact cfg stream r → r.bench.freed ≤ r.bench.passed :=
    fun held => Nat.le_trans held.intact.counted.given held.intact.counted.taken_le
  have firstGiven := given before
  have secondGiven := given after
  obtain ⟨freed, counted⟩ := later
  have sum : Shown.inbuf ⟨line, first, second⟩ =
      (second.bench.passed : Int) - second.bench.prog.pc.uncounted -
        (first.bench.freed - (first.ended.length + first.pc.uncounted : Nat)) := by
    simp only [Shown.inbuf]
    omega
  have one : ∀ pc : MainPc, pc.uncounted ≤ 1 := by
    intro pc
    cases pc <;> simp [MainPc.uncounted]
  refine ⟨?_, ?_, ?_⟩
  · rw [sum]
    exact inbuf.trans (counters_differ after.intact.booked.passCnt before.counted)
  · have within := after.intact.counted.within
    dsimp only
    omega
  · have main := one first.bench.prog.pc
    have late := one second.bench.prog.pc
    rw [sum]
    omega

end Reads

/-! ## Whole runs -/

/-- What the thread has read is what the counters were. -/
def StatusRelay.Reads (w : StatusRelay) : Prop :=
  match w.status.pc with
  | .sleeping => True
  | .sendRead udpSendCnt =>
    udpSendCnt = w.atSend.bench.prog.sSendCnt ∧ Later w.atSend w.relay
  | .passRead udpSendCnt udpPassCnt =>
    udpSendCnt = w.atSend.bench.prog.sSendCnt ∧ udpPassCnt = w.atPass.bench.prog.sPassCnt ∧
      Later w.atSend w.atPass
  | .waitRead udpSendCnt udpPassCnt _ =>
    udpSendCnt = w.atSend.bench.prog.sSendCnt ∧ udpPassCnt = w.atPass.bench.prog.sPassCnt ∧
      Later w.atSend w.atPass

/-- The lines add up to the counters as last read. -/
structure StatusRelay.Adds (w : StatusRelay) : Prop where
  send : (w.shown.map fun s => s.line.send).sum = w.status.prevSendCnt
  pass : (w.shown.map fun s => s.line.pass).sum = w.status.prevPassCnt
  last : ∀ s ∈ w.shown.head?, w.status.prevSendCnt = s.atSend.bench.prog.sSendCnt ∧
    w.status.prevPassCnt = s.atPass.bench.prog.sPassCnt

/-- What holds while the relay is watched. -/
structure Watched (cfg : Cfg) (stream : Nat → BitVec 8) (w : StatusRelay) : Prop where
  relay : TcpIntact cfg stream w.relay
  atSend : TcpIntact cfg stream w.atSend
  atPass : TcpIntact cfg stream w.atPass
  reads : w.Reads
  tells : ∀ s ∈ w.shown, s.Tells cfg
  adds : w.Adds

section Runs

variable {cfg : Cfg} {stream : Nat → BitVec 8} {w : StatusRelay}

/-- A step of the relay comes behind the reads made. -/
theorem StatusRelay.Reads.relay (reads : w.Reads) (cfg : Cfg) (stream : Nat → BitVec 8)
    (e : TcpEvent) : (watch cfg stream w (.relay e)).Reads := by
  cases at_ : w.status.pc with
  | sendRead udpSendCnt =>
    simp only [StatusRelay.Reads, watch, at_] at reads ⊢
    exact ⟨reads.1, reads.2.trans (later_step cfg stream w.relay e)⟩
  | sleeping => simp only [StatusRelay.Reads, watch, at_]
  | passRead udpSendCnt udpPassCnt =>
    simpa only [StatusRelay.Reads, watch, at_] using reads
  | waitRead udpSendCnt udpPassCnt bufWaitCnt =>
    simpa only [StatusRelay.Reads, watch, at_] using reads

/-- A read, or the line behind the last one. -/
theorem Watched.status (held : Watched cfg stream w) :
    Watched cfg stream (watch cfg stream w .status) := by
  have reads := held.reads
  cases at_ : w.status.pc with
  | sleeping =>
    simp only [watch, statusStep, at_]
    exact { held with
      atSend := held.relay
      reads := ⟨rfl, Later.refl _⟩
      adds := ⟨held.adds.send, held.adds.pass, held.adds.last⟩ }
  | sendRead udpSendCnt =>
    simp only [StatusRelay.Reads, at_] at reads
    simp only [watch, statusStep, at_]
    exact { held with
      atPass := held.relay
      reads := ⟨reads.1, rfl, reads.2⟩
      adds := ⟨held.adds.send, held.adds.pass, held.adds.last⟩ }
  | passRead udpSendCnt udpPassCnt =>
    simp only [StatusRelay.Reads, at_] at reads
    simp only [watch, statusStep, at_]
    exact { held with
      reads := reads
      adds := ⟨held.adds.send, held.adds.pass, held.adds.last⟩ }
  | waitRead udpSendCnt udpPassCnt bufWaitCnt =>
    simp only [StatusRelay.Reads, at_] at reads
    obtain ⟨send, pass, later⟩ := reads
    simp only [watch, statusStep, at_]
    refine { held with reads := trivial, tells := ?_, adds := ⟨?_, ?_, ?_⟩ }
    · rintro s (_ | ⟨_, member⟩)
      · exact Zyndra.Ad9361Rx.tells held.atSend held.atPass later (by rw [send, pass])
      · exact held.tells s member
    · rw [List.map_cons, List.sum_cons, held.adds.send, BitVec.sub_add_cancel]
    · rw [List.map_cons, List.sum_cons, held.adds.pass, BitVec.sub_add_cancel]
    · rintro s (_ | _)
      exact ⟨send, pass⟩

theorem Watched.step (held : Watched cfg stream w) (sound : cfg.Sound) {e : StatusEvent}
    (rule : StatusRule cfg w e) : Watched cfg stream (watch cfg stream w e) := by
  cases e with
  | relay e =>
    exact { held with
      relay := held.relay.step sound rule (tcpStep_moves cfg stream w.relay e)
      reads := held.reads.relay cfg stream e
      adds := ⟨held.adds.send, held.adds.pass, held.adds.last⟩ }
  | status => exact held.status

theorem statusStarted_watched (sound : cfg.Sound) (stream memory txBuf : Nat → BitVec 8) :
    Watched cfg stream (statusStarted cfg memory txBuf) where
  relay := tcpStarted_intact sound stream memory txBuf
  atSend := tcpStarted_intact sound stream memory txBuf
  atPass := tcpStarted_intact sound stream memory txBuf
  reads := trivial
  tells _ member := absurd member List.not_mem_nil
  adds := ⟨rfl, rfl, fun _ member => by cases member⟩

end Runs

/-- Every line shows under `inbuf` the slots not given back at the read of `s_pass_cnt`,
and more by those given back since the read of `s_send_cnt`, by one for every client that
had ended then, whose last block is passed on and never counted as sent, and by a slot given
back and not counted yet; less by a block passed on and not counted yet. That is never less
than -1. The lines add up to the counters as they were read. -/
theorem tcp_inbuf {cfg : Cfg} (sound : cfg.Sound) {stream : Nat → BitVec 8}
    (memory txBuf : Nat → BitVec 8) (events : List StatusEvent)
    (follows : Follows (StatusRule cfg) (watch cfg stream) (statusStarted cfg memory txBuf)
      events) :
    let w := run (watch cfg stream) (statusStarted cfg memory txBuf) events
    (∀ s ∈ w.shown, s.line.inbuf = BitVec.ofInt 32 s.inbuf ∧ -1 ≤ s.inbuf ∧
      s.atPass.bench.passed - s.atPass.bench.freed ≤ cfg.sBufCnt) ∧
    ∀ s ∈ w.shown.head?,
      (w.shown.map fun s => s.line.send).sum = s.atSend.bench.prog.sSendCnt ∧
      (w.shown.map fun s => s.line.pass).sum = s.atPass.bench.prog.sPassCnt := by
  intro w
  have held : Watched cfg stream w :=
    invariant (fun _ _ held rule => held.step sound rule)
      (statusStarted_watched sound stream memory txBuf) events follows
  refine ⟨fun s member => ?_, fun s member => ?_⟩
  · have told := held.tells s member
    exact ⟨told.inbuf, told.least, told.kept⟩
  · have last := held.adds.last s member
    exact ⟨held.adds.send.trans last.1, held.adds.pass.trans last.2⟩

/-- Two slots of two bytes. The client gets the first block before main has counted it, as
the first line shows; its end leaves the second block uncounted for good. -/
def uncountedBlock : List StatusEvent :=
  [.relay (.feed (.write 4)), .relay (.feed (.publish 4))] ++
    List.replicate 5 (.relay (.feed .main)) ++
    [.relay .accept, .relay .wait, .relay (.send (.moved 2)), .relay .post, .relay .count] ++
    List.replicate 4 .status ++ List.replicate 7 (.relay (.feed .main)) ++
    [.relay .wait, .relay (.send .failed), .relay .post] ++ List.replicate 4 .status

theorem tcp_inbuf_uncounted :
    let w := run (watch ⟨2, 2, 8⟩ (BitVec.ofNat 8))
      (statusStarted ⟨2, 2, 8⟩ (fun _ => 0) (fun _ => 0)) uncountedBlock
    (w.shown.map fun s => s.line.inbuf) = [1, -1] ∧ (w.shown.map Shown.inbuf) = [1, -1] ∧
      ∀ s ∈ w.shown, s.line.inbuf = BitVec.ofInt 32 s.inbuf ∧ -1 ≤ s.inbuf ∧
        s.atPass.bench.passed - s.atPass.bench.freed ≤ Cfg.sBufCnt ⟨2, 2, 8⟩ := by
  have sound : Cfg.Sound ⟨2, 2, 8⟩ := ⟨by decide, by decide, by decide, by decide⟩
  exact ⟨by decide, by decide, (tcp_inbuf sound _ _ uncountedBlock (by decide)).1⟩

end Zyndra.Ad9361Rx
