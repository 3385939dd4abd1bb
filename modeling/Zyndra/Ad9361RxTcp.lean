import Zyndra.Ad9361Rx
import Zyndra.Transfers

/-!
# The relay serving TCP clients

`transmit_thread_tcp` accepts one client after the other and sends it the blocks
as they are passed on, until a call of `send` fails. The slot to send comes from a
pointer of its own. The pointer starts at zero with every client, although the ring
of slots goes on where the last client left it: the thread sends the block it has
taken exactly while every client finds the ring at its first slot.
-/

namespace Zyndra.Ad9361Rx

open CyclicRing Runs SlotRing Transfers

/-- Where the thread is: in `accept`, in `sem_wait` with its pointer, in `tcp_send` and
after it, or behind `sem_post` and before `s_send_cnt`. -/
inductive TcpPc where
  | accepting
  | waiting (bufNr : Nat)
  | sending (bufNr : Nat) (res : Progress)
  | counting (bufNr : Nat)
  deriving DecidableEq, Repr

/-- Blocks taken before a client was accepted, and the bytes sent to it. -/
structure Client where
  first : Nat
  output : List (BitVec 8)

structure TcpRelay where
  bench : Bench
  pc : TcpPc
  /-- The client connected, and those before it, newest first. -/
  client : Client
  ended : List Client

/-- What the hardware and main do. -/
inductive Feed where
  | write (bytes : Nat)
  | publish (position : Nat)
  | main
  deriving DecidableEq, Repr

def Feed.event : Feed → Event
  | .write bytes => .write bytes
  | .publish position => .publish position
  | .main => .main

inductive TcpEvent where
  | feed (f : Feed)
  | accept
  | wait
  | send (o : Outcome)
  | post
  | count
  deriving DecidableEq, Repr

/-- Bytes of a slot from an offset on. -/
def slotBytes (cfg : Cfg) (txBuf : Nat → BitVec 8) (bufNr offset count : Nat) :
    List (BitVec 8) :=
  (List.range count).map fun k => txBuf (bufNr * cfg.block + (offset + k))

/-- One step of the relay: the hardware and main, or the thread at a call. A call it
does not stand at does nothing, nor does `sem_wait` without a slot. -/
def tcpStep (cfg : Cfg) (stream : Nat → BitVec 8) (r : TcpRelay) : TcpEvent → TcpRelay
  | .feed f => { r with bench := observe cfg stream r.bench f.event }
  | .accept =>
    match r.pc with
    | .accepting => { r with pc := .waiting 0, client := ⟨r.bench.taken, []⟩ }
    | _ => r
  | .wait =>
    match r.pc with
    | .waiting bufNr =>
      if r.bench.prog.semSlotUsed = 0 then r
      else
        { r with
          bench := observe cfg stream r.bench .wait
          pc := .sending bufNr (begin cfg.block) }
    | _ => r
  | .send o =>
    match r.pc with
    | .sending bufNr (.running done) =>
      { r with
        pc := .sending bufNr (advance cfg.block (.running done) o)
        client :=
          { r.client with
            output := r.client.output ++
              slotBytes cfg r.bench.prog.txBuf bufNr done o.bytes } }
    | _ => r
  | .post =>
    match r.pc with
    | .sending bufNr (.returned true) =>
      { r with
        bench := observe cfg stream r.bench .post
        pc := .counting ((bufNr + 1) % cfg.sBufCnt) }
    | .sending _ (.returned false) =>
      { r with
        bench := observe cfg stream r.bench .post
        pc := .accepting
        ended := r.client :: r.ended }
    | _ => r
  | .count =>
    match r.pc with
    | .counting bufNr =>
      { r with bench := observe cfg stream r.bench (.count 1), pc := .waiting bufNr }
    | _ => r

/-- The relay with no client yet. -/
def tcpStarted (cfg : Cfg) (memory txBuf : Nat → BitVec 8) : TcpRelay :=
  ⟨started cfg memory txBuf, .accepting, ⟨0, []⟩, []⟩

/-- The hardware keeps its rule, and `send` takes no more than it is offered. -/
def TcpRule (cfg : Cfg) (r : TcpRelay) : TcpEvent → Prop
  | .feed f => Rule cfg r.bench f.event
  | .send o =>
    match r.pc with
    | .sending _ res => Admits cfg.block res o
    | _ => True
  | _ => True

/-- A client is accepted only when the ring of slots is at its first slot. -/
def AcceptsWhole (cfg : Cfg) (r : TcpRelay) : TcpEvent → Prop
  | .accept => r.pc = .accepting → cfg.sBufCnt ∣ r.bench.taken
  | _ => True

instance (cfg : Cfg) (r : TcpRelay) : (e : TcpEvent) → Decidable (TcpRule cfg r e)
  | .feed _ => inferInstanceAs (Decidable (Rule _ _ _))
  | .send o =>
    match at_ : r.pc with
    | .sending _ res => decidable_of_iff (Admits cfg.block res o) (by simp [TcpRule, at_])
    | .accepting => isTrue (by simp [TcpRule, at_])
    | .waiting _ => isTrue (by simp [TcpRule, at_])
    | .counting _ => isTrue (by simp [TcpRule, at_])
  | .accept => isTrue trivial
  | .wait => isTrue trivial
  | .post => isTrue trivial
  | .count => isTrue trivial

instance (cfg : Cfg) (r : TcpRelay) : (e : TcpEvent) → Decidable (AcceptsWhole cfg r e)
  | .accept => inferInstanceAs (Decidable (_ → _))
  | .feed _ => isTrue trivial
  | .wait => isTrue trivial
  | .send _ => isTrue trivial
  | .post => isTrue trivial
  | .count => isTrue trivial

/-- The pointer is at the slot of the block the thread takes next, or has taken. -/
def Aligned (cfg : Cfg) (r : TcpRelay) : Prop :=
  match r.pc with
  | .accepting => True
  | .waiting bufNr => bufNr = r.bench.taken % cfg.sBufCnt
  | .sending bufNr _ => bufNr = r.bench.freed % cfg.sBufCnt
  | .counting bufNr => bufNr = r.bench.taken % cfg.sBufCnt

instance (cfg : Cfg) (r : TcpRelay) : Decidable (Aligned cfg r) :=
  match at_ : r.pc with
  | .accepting => isTrue (by simp [Aligned, at_])
  | .waiting bufNr =>
    decidable_of_iff (bufNr = r.bench.taken % cfg.sBufCnt) (by simp [Aligned, at_])
  | .sending bufNr _ =>
    decidable_of_iff (bufNr = r.bench.freed % cfg.sBufCnt) (by simp [Aligned, at_])
  | .counting bufNr =>
    decidable_of_iff (bufNr = r.bench.taken % cfg.sBufCnt) (by simp [Aligned, at_])

/-- Slots the thread has taken and not given back. -/
def TcpPc.holds : TcpPc → Nat
  | .sending _ _ => 1
  | _ => 0

/-- A slot given back and not yet counted as sent. -/
def TcpPc.uncounted : TcpPc → Nat
  | .counting _ => 1
  | _ => 0

/-- What `tcp_send` has moved is less than the block while it runs. -/
def TcpPc.Inside (cfg : Cfg) : TcpPc → Prop
  | .sending _ res => res.Inside cfg.block
  | _ => True

/-- What a step of the thread can do. -/
inductive TcpMove (cfg : Cfg) (stream : Nat → BitVec 8) (r : TcpRelay) :
    TcpEvent → TcpRelay → Prop where
  | idle (e : TcpEvent) (stays : e = .accept → r.pc ≠ .accepting) : TcpMove cfg stream r e r
  | feeds (f : Feed) :
      TcpMove cfg stream r (.feed f) { r with bench := observe cfg stream r.bench f.event }
  | accepts (at_ : r.pc = .accepting) :
      TcpMove cfg stream r .accept { r with pc := .waiting 0, client := ⟨r.bench.taken, []⟩ }
  | takes {bufNr : Nat} (at_ : r.pc = .waiting bufNr) (some : 0 < r.bench.prog.semSlotUsed) :
      TcpMove cfg stream r .wait
        { r with
          bench := { r.bench with
            prog := { r.bench.prog with semSlotUsed := r.bench.prog.semSlotUsed - 1 }
            taken := r.bench.taken + 1 }
          pc := .sending bufNr (begin cfg.block) }
  | sends {bufNr done : Nat} (at_ : r.pc = .sending bufNr (.running done)) (o : Outcome) :
      TcpMove cfg stream r (.send o)
        { r with
          pc := .sending bufNr (advance cfg.block (.running done) o)
          client :=
            { r.client with
              output := r.client.output ++
                slotBytes cfg r.bench.prog.txBuf bufNr done o.bytes } }
  | posts {bufNr : Nat} (at_ : r.pc = .sending bufNr (.returned true)) :
      TcpMove cfg stream r .post
        { r with
          bench := observe cfg stream r.bench .post
          pc := .counting ((bufNr + 1) % cfg.sBufCnt) }
  | counts {bufNr : Nat} (at_ : r.pc = .counting bufNr) :
      TcpMove cfg stream r .count
        { r with bench := observe cfg stream r.bench (.count 1), pc := .waiting bufNr }
  | closes {bufNr : Nat} (at_ : r.pc = .sending bufNr (.returned false)) :
      TcpMove cfg stream r .post
        { r with
          bench := observe cfg stream r.bench .post
          pc := .accepting
          ended := r.client :: r.ended }

theorem tcpStep_moves (cfg : Cfg) (stream : Nat → BitVec 8) (r : TcpRelay) (e : TcpEvent) :
    TcpMove cfg stream r e (tcpStep cfg stream r e) := by
  cases e with
  | feed f => exact .feeds f
  | accept =>
    cases at_ : r.pc with
    | accepting => simpa only [tcpStep, at_] using TcpMove.accepts at_
    | _ => simpa only [tcpStep, at_] using .idle .accept (by simp [at_])
  | wait =>
    cases at_ : r.pc with
    | waiting bufNr =>
      rcases Nat.eq_zero_or_pos r.bench.prog.semSlotUsed with none | some
      · simpa only [tcpStep, at_, if_pos none] using .idle .wait (by simp)
      · simpa only [tcpStep, observe, at_, if_neg (Nat.ne_of_gt some)] using
          TcpMove.takes at_ some
    | _ => simpa only [tcpStep, at_] using .idle .wait (by simp)
  | send o =>
    cases at_ : r.pc with
    | sending bufNr res =>
      cases res with
      | running done => simpa only [tcpStep, at_] using TcpMove.sends at_ o
      | returned success => simpa only [tcpStep, at_] using .idle (.send o) (by simp)
    | _ => simpa only [tcpStep, at_] using .idle (.send o) (by simp)
  | post =>
    cases at_ : r.pc with
    | sending bufNr res =>
      cases res with
      | running done => simpa only [tcpStep, at_] using .idle .post (by simp)
      | returned success =>
        cases success with
        | true => simpa only [tcpStep, at_] using TcpMove.posts at_
        | false => simpa only [tcpStep, at_] using TcpMove.closes at_
    | _ => simpa only [tcpStep, at_] using .idle .post (by simp)
  | count =>
    cases at_ : r.pc with
    | counting bufNr => simpa only [tcpStep, at_] using TcpMove.counts at_
    | _ => simpa only [tcpStep, at_] using .idle .count (by simp)

/-! ## The slots the thread holds -/

/-- What holds of the relay whether or not the pointer is right: the thread holds the
slot it has not given back, and `s_send_cnt` falls short of the slots given back by
the clients that have ended and a slot about to be counted. -/
structure TcpIntact (cfg : Cfg) (stream : Nat → BitVec 8) (r : TcpRelay) : Prop where
  intact : Intact cfg stream r.bench
  holding : r.bench.freed + r.pc.holds = r.bench.taken
  inside : r.pc.Inside cfg
  counted : r.bench.prog.sSendCnt + BitVec.ofNat 32 (r.ended.length + r.pc.uncounted) =
    BitVec.ofNat 32 r.bench.freed

/-- What the hardware and main leave as it is. -/
theorem feed_frame (cfg : Cfg) (stream : Nat → BitVec 8) (b : Bench) (f : Feed) :
    (observe cfg stream b f.event).taken = b.taken ∧
      (observe cfg stream b f.event).freed = b.freed ∧
      (observe cfg stream b f.event).prog.sSendCnt = b.prog.sSendCnt := by
  cases f with
  | write bytes => exact ⟨rfl, rfl, rfl⟩
  | publish position => exact ⟨rfl, rfl, rfl⟩
  | main =>
    have moved := observeMain_moves cfg b
    dsimp only [Feed.event, observe]
    generalize observeMain cfg b = after at moved
    cases moved <;> exact ⟨rfl, rfl, rfl⟩

section Threads

variable {cfg : Cfg} {stream : Nat → BitVec 8} {r after : TcpRelay} {e : TcpEvent}

/-- One slot more is given back, and is not counted. -/
theorem sent_more {sendCnt : BitVec 32} {short freed : Nat}
    (counted : sendCnt + BitVec.ofNat 32 short = BitVec.ofNat 32 freed) :
    sendCnt + BitVec.ofNat 32 (short + 1) = BitVec.ofNat 32 (freed + 1) := by
  rw [BitVec.ofNat_add, BitVec.ofNat_add, ← counted, BitVec.add_assoc]

theorem TcpIntact.step (held : TcpIntact cfg stream r) (sound : cfg.Sound)
    (rule : TcpRule cfg r e) (moved : TcpMove cfg stream r e after) :
    TcpIntact cfg stream after := by
  have holding := held.holding
  have inside := held.inside
  have counted := held.counted
  cases moved with
  | idle e stays => exact held
  | feeds f =>
    obtain ⟨taken, freed, count⟩ := feed_frame cfg stream r.bench f
    refine ⟨held.intact.observe sound rule, ?_, inside, ?_⟩
    · simpa only [taken, freed] using holding
    · simpa only [count, freed] using counted
  | accepts at_ =>
    rw [at_] at holding counted
    exact ⟨held.intact, holding, trivial, counted⟩
  | takes at_ some =>
    rw [at_] at holding counted
    have waited := held.intact.observe sound (e := .wait) trivial
    simp only [observe, if_neg (Nat.ne_of_gt some)] at waited
    refine ⟨waited, ?_, begin_inside cfg.block, counted⟩
    simp only [TcpPc.holds] at holding ⊢
    omega
  | sends at_ o =>
    rw [at_] at holding inside counted
    simp only [TcpRule, at_] at rule
    exact ⟨held.intact, holding, Progress.Inside.advance (p := .running _) inside rule, counted⟩
  | posts at_ =>
    rw [at_] at holding counted
    refine ⟨held.intact.observe sound (e := .post) (Nat.lt_of_succ_le (Nat.le_of_eq holding)),
      holding, trivial, ?_⟩
    exact sent_more counted
  | counts at_ =>
    rw [at_] at holding counted
    refine ⟨held.intact.observe sound (e := .count 1) trivial, holding, trivial, ?_⟩
    dsimp only [observe, TcpPc.uncounted] at counted ⊢
    rw [← counted, Nat.add_zero, BitVec.ofNat_add, BitVec.add_assoc]
    exact congrArg (r.bench.prog.sSendCnt + ·) (BitVec.add_comm _ _)
  | closes at_ =>
    rw [at_] at holding counted
    refine ⟨held.intact.observe sound (e := .post) (Nat.lt_of_succ_le (Nat.le_of_eq holding)),
      holding, trivial, ?_⟩
    exact sent_more counted

theorem tcpStarted_intact (sound : cfg.Sound) (stream memory txBuf : Nat → BitVec 8) :
    TcpIntact cfg stream (tcpStarted cfg memory txBuf) :=
  ⟨started_intact sound stream memory txBuf, rfl, trivial, rfl⟩

/-- The pointer is right after a step exactly when the step accepts no client at
another slot than the first. -/
theorem aligned_step (held : TcpIntact cfg stream r) (aligned : Aligned cfg r)
    (moved : TcpMove cfg stream r e after) : Aligned cfg after ↔ AcceptsWhole cfg r e := by
  have holding := held.holding
  cases moved with
  | idle e stays =>
    refine iff_of_true aligned ?_
    cases e with
    | accept => exact fun at_ => absurd at_ (stays rfl)
    | _ => trivial
  | feeds f =>
    obtain ⟨taken, freed, -⟩ := feed_frame cfg stream r.bench f
    refine iff_of_true ?_ trivial
    simpa only [Aligned, taken, freed] using aligned
  | accepts at_ =>
    have first : Aligned cfg { r with pc := .waiting 0, client := ⟨r.bench.taken, []⟩ } ↔
        r.bench.taken % cfg.sBufCnt = 0 := eq_comm
    rw [first, ← Nat.dvd_iff_mod_eq_zero]
    exact ⟨fun whole _ => whole, fun whole => whole at_⟩
  | takes at_ some =>
    refine iff_of_true ?_ trivial
    simp only [Aligned, at_] at aligned ⊢
    simp only [at_, TcpPc.holds] at holding
    rw [aligned, ← holding, Nat.add_zero]
  | sends at_ o =>
    refine iff_of_true ?_ trivial
    simpa only [Aligned, at_] using aligned
  | posts at_ =>
    refine iff_of_true ?_ trivial
    simp only [Aligned, at_] at aligned ⊢
    simp only [at_, TcpPc.holds] at holding
    dsimp only [observe]
    rw [aligned, Nat.mod_add_mod, holding]
  | counts at_ =>
    refine iff_of_true ?_ trivial
    simpa only [Aligned, at_, observe] using aligned
  | closes at_ => exact iff_of_true trivial trivial

/-- In a run of the relay the thread's pointer is always at the slot of the block it
has taken exactly when no client is accepted in the middle of the ring of slots. -/
theorem tcp_aligned_iff (sound : cfg.Sound) (memory txBuf : Nat → BitVec 8)
    (events : List TcpEvent)
    (follows : Follows (TcpRule cfg) (tcpStep cfg stream) (tcpStarted cfg memory txBuf) events) :
    Always (Aligned cfg) (tcpStep cfg stream) (tcpStarted cfg memory txBuf) events ↔
      Follows (AcceptsWhole cfg) (tcpStep cfg stream) (tcpStarted cfg memory txBuf) events := by
  have decides : ∀ r e, TcpIntact cfg stream r ∧ Aligned cfg r → TcpRule cfg r e →
      (Aligned cfg (tcpStep cfg stream r e) ↔ AcceptsWhole cfg r e) :=
    fun r e held _ => aligned_step held.1 held.2 (tcpStep_moves cfg stream r e)
  have preserved : ∀ r e, TcpIntact cfg stream r ∧ Aligned cfg r → TcpRule cfg r e →
      AcceptsWhole cfg r e →
      TcpIntact cfg stream (tcpStep cfg stream r e) ∧ Aligned cfg (tcpStep cfg stream r e) := by
    intro r e held rule whole
    have moved := tcpStep_moves cfg stream r e
    exact ⟨held.1.step sound rule moved, (aligned_step held.1 held.2 moved).mpr whole⟩
  exact always_iff_follows decides preserved
    ⟨tcpStarted_intact sound stream memory txBuf, trivial⟩ trivial events follows

end Threads

/-! ## The bytes the clients get -/

/-- Behind the last byte sent to a client, in the stream of the bytes passed on. -/
def Client.stop (cfg : Cfg) (c : Client) : Nat := c.first * cfg.block + c.output.length

/-- What a client was sent is the bytes passed on, from the first block taken for it. -/
def Client.Gets (cfg : Cfg) (stream : Nat → BitVec 8) (starts : List Nat) (c : Client) : Prop :=
  c.output = (List.range c.output.length).map fun k =>
    passedByte stream cfg.block starts (c.first * cfg.block + k)

/-- The clients so far, newest first. -/
def TcpRelay.served (r : TcpRelay) : List Client :=
  match r.pc with
  | .accepting => r.ended
  | _ => r.client :: r.ended

/-- How far the client connected has been sent the blocks. -/
def TcpPc.Reached (cfg : Cfg) (freed stop : Nat) : TcpPc → Prop
  | .accepting => True
  | .waiting _ => stop = freed * cfg.block
  | .sending _ (.running done) => stop = freed * cfg.block + done
  | .sending _ (.returned true) => stop = freed * cfg.block + cfg.block
  | .sending _ (.returned false) => True
  | .counting _ => stop = freed * cfg.block

/-- Every client got a stretch of the bytes passed on, and the stretches follow one
another. -/
structure Stretches (cfg : Cfg) (stream : Nat → BitVec 8) (b : Bench) (served : List Client) :
    Prop where
  gets : ∀ c ∈ served, c.Gets cfg stream b.starts
  within : ∀ c ∈ served, c.stop cfg ≤ b.taken * cfg.block
  ordered : served.Pairwise fun newer older => older.stop cfg ≤ newer.first * cfg.block

/-- What the clients have been sent, and how far the one connected is. -/
structure Sent (cfg : Cfg) (stream : Nat → BitVec 8) (r : TcpRelay) : Prop where
  stretches : Stretches cfg stream r.bench r.served
  reached : r.pc.Reached cfg r.bench.freed (r.client.stop cfg)

section Bytes

variable {cfg : Cfg} {stream : Nat → BitVec 8} {r after : TcpRelay} {e : TcpEvent}

/-- More blocks passed on change nothing about those a client got. -/
theorem Client.Gets.later {starts : List Nat} {c : Client} (gets : c.Gets cfg stream starts)
    (more : List Nat) (inside : c.stop cfg ≤ starts.length * cfg.block) :
    c.Gets cfg stream (starts ++ more) := by
  unfold Client.stop at inside
  refine gets.trans (List.map_congr_left fun k member => ?_)
  have below : k < c.output.length := List.mem_range.mp member
  exact (passedByte_append stream starts more (by omega)).symm

/-- The next bytes of the stream, sent to a client. -/
theorem Client.Gets.more {starts : List Nat} {c : Client} (gets : c.Gets cfg stream starts)
    {count : Nat} {bytes : List (BitVec 8)}
    (next : bytes = (List.range count).map fun k =>
      passedByte stream cfg.block starts (c.stop cfg + k)) :
    Client.Gets cfg stream starts { c with output := c.output ++ bytes } := by
  have length : bytes.length = count := by rw [next, List.length_map, List.length_range]
  unfold Client.Gets
  rw [List.length_append, length, List.range_add, List.map_append, List.map_map, ← gets, next]
  simp only [Function.comp_def, Client.stop, Nat.add_assoc]

theorem Client.stop_more {starts : List Nat} {c : Client} {count : Nat}
    {bytes : List (BitVec 8)}
    (next : bytes = (List.range count).map fun k =>
      passedByte stream cfg.block starts (c.stop cfg + k)) :
    Client.stop cfg { c with output := c.output ++ bytes } = c.stop cfg + count := by
  have length : bytes.length = count := by rw [next, List.length_map, List.length_range]
  unfold Client.stop
  rw [List.length_append, length, Nat.add_assoc]

/-- Main only ever adds to the blocks passed on. -/
theorem feed_starts (cfg : Cfg) (stream : Nat → BitVec 8) (b : Bench) (f : Feed) :
    ∃ more, (observe cfg stream b f.event).starts = b.starts ++ more := by
  cases f with
  | write bytes => exact ⟨[], (List.append_nil _).symm⟩
  | publish position => exact ⟨[], (List.append_nil _).symm⟩
  | main =>
    have moved := observeMain_moves cfg b
    dsimp only [Feed.event, observe]
    generalize observeMain cfg b = after at moved
    cases moved with
    | passes at_ whole => exact ⟨[b.position], rfl⟩
    | _ => exact ⟨[], (List.append_nil _).symm⟩

/-- What the thread reads from the slot it holds is the block it has taken. -/
theorem slotBytes_held {b : Bench} (intact : Intact cfg stream b) (holds : b.freed < b.taken)
    {offset count : Nat} (inside : offset + count ≤ cfg.block) :
    slotBytes cfg b.prog.txBuf (b.freed % cfg.sBufCnt) offset count =
      (List.range count).map fun k =>
        passedByte stream cfg.block b.starts (b.freed * cfg.block + offset + k) := by
  apply List.map_congr_left
  intro k member
  have below : k < count := List.mem_range.mp member
  have before : b.freed < b.starts.length := Nat.lt_of_lt_of_le holds intact.counted.taken_le
  rw [intact.slot_byte (Nat.le_refl _) before (by omega), Nat.add_assoc]

/-- The stretches stay what they are when more blocks are passed on or taken. -/
theorem Stretches.later {b next : Bench} {served : List Client} (counted : Counted cfg b)
    (stretches : Stretches cfg stream b served) {more : List Nat}
    (starts : next.starts = b.starts ++ more) (taken : b.taken ≤ next.taken) :
    Stretches cfg stream next served where
  gets c member := by
    have passed : b.taken * cfg.block ≤ b.starts.length * cfg.block :=
      Nat.mul_le_mul_right _ counted.taken_le
    rw [starts]
    exact (stretches.gets c member).later more (Nat.le_trans (stretches.within c member) passed)
  within c member := Nat.le_trans (stretches.within c member) (Nat.mul_le_mul_right _ taken)
  ordered := stretches.ordered

/-- A new client starts behind all that the others got. -/
theorem Stretches.connect {b : Bench} {served : List Client}
    (stretches : Stretches cfg stream b served) :
    Stretches cfg stream b (⟨b.taken, []⟩ :: served) where
  gets := by
    rintro c (_ | ⟨_, member⟩)
    · rfl
    · exact stretches.gets c member
  within := by
    rintro c (_ | ⟨_, member⟩)
    · exact Nat.le_refl _
    · exact stretches.within c member
  ordered := List.pairwise_cons.mpr ⟨stretches.within, stretches.ordered⟩

/-- The client connected gets the next bytes of the stream. -/
theorem Stretches.more {b : Bench} {client : Client} {ended : List Client}
    (stretches : Stretches cfg stream b (client :: ended)) {count : Nat}
    {bytes : List (BitVec 8)}
    (next : bytes = (List.range count).map fun k =>
      passedByte stream cfg.block b.starts (client.stop cfg + k))
    (inside : client.stop cfg + count ≤ b.taken * cfg.block) :
    Stretches cfg stream b ({ client with output := client.output ++ bytes } :: ended) where
  gets := by
    rintro c (_ | ⟨_, member⟩)
    · exact (stretches.gets client List.mem_cons_self).more next
    · exact stretches.gets c (List.mem_cons_of_mem _ member)
  within := by
    rintro c (_ | ⟨_, member⟩)
    · rwa [Client.stop_more next]
    · exact stretches.within c (List.mem_cons_of_mem _ member)
  ordered := List.pairwise_cons.mpr (List.pairwise_cons.mp stretches.ordered)

theorem Sent.step (sent : Sent cfg stream r) (held : TcpIntact cfg stream r)
    (aligned : Aligned cfg r) (rule : TcpRule cfg r e) (moved : TcpMove cfg stream r e after) :
    Sent cfg stream after := by
  have counted := held.intact.counted
  have holding := held.holding
  have stretches := sent.stretches
  have reached := sent.reached
  have same : r.bench.starts = r.bench.starts ++ [] := (List.append_nil _).symm
  cases moved with
  | idle e stays => exact sent
  | feeds f =>
    obtain ⟨taken, freed, -⟩ := feed_frame cfg stream r.bench f
    obtain ⟨more, starts⟩ := feed_starts cfg stream r.bench f
    exact ⟨stretches.later counted starts (Nat.le_of_eq taken.symm), by rwa [freed]⟩
  | accepts at_ =>
    simp only [TcpRelay.served, at_] at stretches
    have none : r.bench.freed = r.bench.taken := by
      simpa only [at_, TcpPc.holds, Nat.add_zero] using holding
    refine ⟨stretches.connect, ?_⟩
    simp [TcpPc.Reached, Client.stop, none]
  | takes at_ some =>
    simp only [TcpRelay.served, at_] at stretches
    rw [at_] at reached
    refine ⟨stretches.later counted same (Nat.le_succ _), ?_⟩
    unfold begin
    split
    · exact reached
    · rename_i empty
      have none : cfg.block = 0 := by omega
      simpa only [TcpPc.Reached, none, Nat.add_zero] using reached
  | @sends bufNr done at_ o =>
    simp only [TcpRelay.served, at_] at stretches
    have inside := held.inside
    rw [at_] at reached holding inside
    simp only [TcpRule, at_] at rule
    simp only [Aligned, at_] at aligned
    have holds : r.bench.freed + 1 = r.bench.taken := holding
    have stop : r.client.stop cfg = r.bench.freed * cfg.block + done := reached
    have next := advance_running inside rule
    have room : done + o.bytes ≤ cfg.block := by
      have below : done < cfg.block := inside
      omega
    have bytes := slotBytes_held held.intact (Nat.lt_of_succ_le (Nat.le_of_eq holds)) room
    rw [← aligned, ← stop] at bytes
    have last : r.bench.taken * cfg.block = r.bench.freed * cfg.block + cfg.block := by
      rw [← holds, Nat.succ_mul]
    refine ⟨stretches.more bytes (by omega), ?_⟩
    have further := Client.stop_more bytes
    rw [stop, Nat.add_assoc] at further
    dsimp only
    obtain ⟨moved, -⟩ | ⟨moved, whole⟩ | ⟨moved, -⟩ := next
    · rw [moved]
      exact further
    · rw [moved]
      rw [whole] at further
      exact further
    · rw [moved]
      trivial
  | posts at_ =>
    simp only [TcpRelay.served, at_] at stretches
    rw [at_] at reached
    refine ⟨stretches.later counted same (Nat.le_refl _), ?_⟩
    simpa only [TcpPc.Reached, observe, Nat.succ_mul] using reached
  | counts at_ =>
    simp only [TcpRelay.served, at_] at stretches
    rw [at_] at reached
    exact ⟨stretches.later counted same (Nat.le_refl _), reached⟩
  | closes at_ =>
    simp only [TcpRelay.served, at_] at stretches
    exact ⟨stretches.later counted same (Nat.le_refl _), trivial⟩

end Bytes

/-! ## Whole runs -/

/-- When no client is accepted in the middle of the ring of slots, every client gets the
bytes passed on from the first block taken for it, in order and unharmed, and no byte
goes to two clients. -/
theorem tcp_in_order {cfg : Cfg} (sound : cfg.Sound) {stream : Nat → BitVec 8}
    (memory txBuf : Nat → BitVec 8) (events : List TcpEvent)
    (follows : Follows (TcpRule cfg) (tcpStep cfg stream) (tcpStarted cfg memory txBuf) events)
    (whole : Follows (AcceptsWhole cfg) (tcpStep cfg stream) (tcpStarted cfg memory txBuf) events) :
    let r := run (tcpStep cfg stream) (tcpStarted cfg memory txBuf) events
    (∀ c ∈ r.served, c.output = (List.range c.output.length).map fun k =>
      passedByte stream cfg.block r.bench.starts (c.first * cfg.block + k)) ∧
    (∀ c ∈ r.served, c.first * cfg.block + c.output.length ≤ r.bench.passed * cfg.block) ∧
    r.served.Pairwise fun newer older =>
      older.first * cfg.block + older.output.length ≤ newer.first * cfg.block := by
  intro r
  let kept : TcpRelay → Prop := fun r =>
    (TcpIntact cfg stream r ∧ Aligned cfg r) ∧ Sent cfg stream r
  have preserved : ∀ r e, kept r → TcpRule cfg r e ∧ AcceptsWhole cfg r e →
      kept (tcpStep cfg stream r e) := by
    rintro r e ⟨⟨intact, aligned⟩, sent⟩ ⟨rule, accepts⟩
    have moved := tcpStep_moves cfg stream r e
    exact ⟨⟨intact.step sound rule moved, (aligned_step intact aligned moved).mpr accepts⟩,
      sent.step intact aligned rule moved⟩
  have initial : kept (tcpStarted cfg memory txBuf) :=
    ⟨⟨tcpStarted_intact sound stream memory txBuf, trivial⟩,
      ⟨⟨by simp [tcpStarted, TcpRelay.served], by simp [tcpStarted, TcpRelay.served],
        List.Pairwise.nil⟩, trivial⟩⟩
  have all : kept r := invariant preserved initial events (follows.both whole)
  have stretches := all.2.stretches
  have passed := Nat.mul_le_mul_right cfg.block all.1.1.intact.counted.taken_le
  exact ⟨stretches.gets, fun c member => Nat.le_trans (stretches.within c member) passed,
    stretches.ordered⟩

/-- Two slots of two bytes. A client gets one block and part of the next; another one
comes when both have been given back, or when only the first has. -/
def twoBlocks : List TcpEvent :=
  [.feed (.write 4), .feed (.publish 4)] ++ List.replicate 12 (.feed .main)

def reconnected : List TcpEvent :=
  twoBlocks ++ [.accept, .wait, .send (.moved 2), .post, .count, .wait,
    .send (.moved 1), .send .interrupted, .send .failed, .post, .accept]

def reconnectedEarly : List TcpEvent :=
  twoBlocks ++ [.accept, .wait, .send .failed, .post, .accept, .wait]

theorem tcp_aligned_iff_early :
    ¬ Always (Aligned ⟨2, 2, 8⟩) (tcpStep ⟨2, 2, 8⟩ (BitVec.ofNat 8))
      (tcpStarted ⟨2, 2, 8⟩ (fun _ => 0) (fun _ => 0)) reconnectedEarly := by
  have sound : Cfg.Sound ⟨2, 2, 8⟩ := ⟨by decide, by decide, by decide, by decide⟩
  rw [tcp_aligned_iff sound _ _ reconnectedEarly (by decide)]
  decide

theorem tcp_in_order_reconnected :
    let r := run (tcpStep ⟨2, 2, 8⟩ (BitVec.ofNat 8))
      (tcpStarted ⟨2, 2, 8⟩ (fun _ => 0) (fun _ => 0)) reconnected
    r.served.map Client.output = [[], [0, 1, 2]] ∧
      r.served.Pairwise fun newer older =>
        older.first * Cfg.block ⟨2, 2, 8⟩ + older.output.length ≤
          newer.first * Cfg.block ⟨2, 2, 8⟩ := by
  have sound : Cfg.Sound ⟨2, 2, 8⟩ := ⟨by decide, by decide, by decide, by decide⟩
  exact ⟨by decide, (tcp_in_order sound _ _ reconnected (by decide) (by decide)).2.2⟩

end Zyndra.Ad9361Rx
