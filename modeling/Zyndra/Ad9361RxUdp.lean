import Zyndra.Ad9361RxTcp

/-!
# The relay sending datagrams

`transmit_thread_udp` waits for a batch of slots, hands them to one call of
`sendmmsg` and gives all of them back. The call may end early; its result is not
looked at, and the blocks it leaves out are counted as sent.
-/

namespace Zyndra.Ad9361Rx

open CyclicRing Runs SlotRing

/-- `UDP_BATCH`. -/
def udpBatch : Nat := 32

/-- Where the thread is: waiting for the slots of a batch, in `sendmmsg` with so many
datagrams sent, giving back the slots left, or before `s_send_cnt`. -/
inductive UdpPc where
  | gathering (buf : Nat) (iovs : List Nat)
  | sending (buf : Nat) (iovs : List Nat) (sent : Nat)
  | posting (buf left : Nat)
  | counting (buf : Nat)
  deriving DecidableEq, Repr

/-- A datagram: the number of the block it stands for among those taken, and its bytes. -/
structure Datagram where
  number : Nat
  bytes : List (BitVec 8)

structure UdpRelay where
  bench : Bench
  pc : UdpPc
  /-- The datagrams sent, oldest first, and how many `sendmmsg` has left out. -/
  handed : List Datagram
  skipped : Nat

inductive UdpEvent where
  | feed (f : Feed)
  | wait
  | datagram
  | returns
  | post
  | count
  deriving DecidableEq, Repr

/-- One step of the relay. -/
def udpStep (cfg : Cfg) (stream : Nat → BitVec 8) (r : UdpRelay) : UdpEvent → UdpRelay
  | .feed f => { r with bench := observe cfg stream r.bench f.event }
  | .wait =>
    match r.pc with
    | .gathering buf iovs =>
      if r.bench.prog.semSlotUsed = 0 then r
      else
        { r with
          bench := observe cfg stream r.bench .wait
          pc :=
            if iovs.length + 1 < udpBatch then
              .gathering ((buf + 1) % cfg.sBufCnt) (iovs ++ [buf])
            else .sending ((buf + 1) % cfg.sBufCnt) (iovs ++ [buf]) 0 }
    | _ => r
  | .datagram =>
    match r.pc with
    | .sending buf iovs sent =>
      if sent < udpBatch then
        { r with
          pc := .sending buf iovs (sent + 1)
          handed := r.handed ++
            [⟨r.bench.freed + sent,
              slotBytes cfg r.bench.prog.txBuf (iovs.getD sent 0) 0 cfg.block⟩] }
      else r
    | _ => r
  | .returns =>
    match r.pc with
    | .sending buf _ sent =>
      { r with pc := .posting buf udpBatch, skipped := r.skipped + (udpBatch - sent) }
    | _ => r
  | .post =>
    match r.pc with
    | .posting buf left =>
      { r with
        bench := observe cfg stream r.bench .post
        pc := if left = 1 then .counting buf else .posting buf (left - 1) }
    | _ => r
  | .count =>
    match r.pc with
    | .counting buf =>
      { r with
        bench := observe cfg stream r.bench (.count (BitVec.ofNat 32 udpBatch))
        pc := .gathering buf [] }
    | _ => r

def udpStarted (cfg : Cfg) (memory txBuf : Nat → BitVec 8) : UdpRelay :=
  ⟨started cfg memory txBuf, .gathering 0 [], [], 0⟩

/-- The hardware keeps its rule. -/
def UdpRule (cfg : Cfg) (r : UdpRelay) : UdpEvent → Prop
  | .feed f => Rule cfg r.bench f.event
  | _ => True

instance (cfg : Cfg) (r : UdpRelay) : (e : UdpEvent) → Decidable (UdpRule cfg r e)
  | .feed _ => inferInstanceAs (Decidable (Rule _ _ _))
  | .wait => isTrue trivial
  | .datagram => isTrue trivial
  | .returns => isTrue trivial
  | .post => isTrue trivial
  | .count => isTrue trivial

/-- What a step of the thread can do. -/
inductive UdpMove (cfg : Cfg) (stream : Nat → BitVec 8) (r : UdpRelay) :
    UdpEvent → UdpRelay → Prop where
  | idle (e : UdpEvent) : UdpMove cfg stream r e r
  | feeds (f : Feed) :
      UdpMove cfg stream r (.feed f) { r with bench := observe cfg stream r.bench f.event }
  | gathers {buf : Nat} {iovs : List Nat} (at_ : r.pc = .gathering buf iovs)
      (some : 0 < r.bench.prog.semSlotUsed) :
      UdpMove cfg stream r .wait
        { r with
          bench := { r.bench with
            prog := { r.bench.prog with semSlotUsed := r.bench.prog.semSlotUsed - 1 }
            taken := r.bench.taken + 1 }
          pc :=
            if iovs.length + 1 < udpBatch then
              .gathering ((buf + 1) % cfg.sBufCnt) (iovs ++ [buf])
            else .sending ((buf + 1) % cfg.sBufCnt) (iovs ++ [buf]) 0 }
  | sends {buf sent : Nat} {iovs : List Nat} (at_ : r.pc = .sending buf iovs sent)
      (below : sent < udpBatch) :
      UdpMove cfg stream r .datagram
        { r with
          pc := .sending buf iovs (sent + 1)
          handed := r.handed ++
            [⟨r.bench.freed + sent,
              slotBytes cfg r.bench.prog.txBuf (iovs.getD sent 0) 0 cfg.block⟩] }
  | returns {buf sent : Nat} {iovs : List Nat} (at_ : r.pc = .sending buf iovs sent) :
      UdpMove cfg stream r .returns
        { r with pc := .posting buf udpBatch, skipped := r.skipped + (udpBatch - sent) }
  | posts {buf left : Nat} (at_ : r.pc = .posting buf left) (more : left ≠ 1) :
      UdpMove cfg stream r .post
        { r with bench := observe cfg stream r.bench .post, pc := .posting buf (left - 1) }
  | finishes {buf left : Nat} (at_ : r.pc = .posting buf left) (last : left = 1) :
      UdpMove cfg stream r .post
        { r with bench := observe cfg stream r.bench .post, pc := .counting buf }
  | counts {buf : Nat} (at_ : r.pc = .counting buf) :
      UdpMove cfg stream r .count
        { r with
          bench := observe cfg stream r.bench (.count (BitVec.ofNat 32 udpBatch))
          pc := .gathering buf [] }

theorem udpStep_moves (cfg : Cfg) (stream : Nat → BitVec 8) (r : UdpRelay) (e : UdpEvent) :
    UdpMove cfg stream r e (udpStep cfg stream r e) := by
  cases e with
  | feed f => exact .feeds f
  | wait =>
    cases at_ : r.pc with
    | gathering buf iovs =>
      rcases Nat.eq_zero_or_pos r.bench.prog.semSlotUsed with none | some
      · simpa only [udpStep, at_, if_pos none] using .idle .wait
      · simpa only [udpStep, observe, at_, if_neg (Nat.ne_of_gt some)] using
          UdpMove.gathers at_ some
    | _ => simpa only [udpStep, at_] using .idle .wait
  | datagram =>
    cases at_ : r.pc with
    | sending buf iovs sent =>
      by_cases below : sent < udpBatch
      · simpa only [udpStep, at_, if_pos below] using UdpMove.sends at_ below
      · simpa only [udpStep, at_, if_neg below] using .idle .datagram
    | _ => simpa only [udpStep, at_] using .idle .datagram
  | returns =>
    cases at_ : r.pc with
    | sending buf iovs sent => simpa only [udpStep, at_] using UdpMove.returns at_
    | _ => simpa only [udpStep, at_] using .idle .returns
  | post =>
    cases at_ : r.pc with
    | posting buf left =>
      by_cases last : left = 1
      · simpa only [udpStep, at_, if_pos last] using UdpMove.finishes at_ last
      · simpa only [udpStep, at_, if_neg last] using UdpMove.posts at_ last
    | _ => simpa only [udpStep, at_] using .idle .post
  | count =>
    cases at_ : r.pc with
    | counting buf => simpa only [udpStep, at_] using UdpMove.counts at_
    | _ => simpa only [udpStep, at_] using .idle .count

/-! ## The slots of a batch -/

/-- Slots the thread has taken and not given back. -/
def UdpPc.holds : UdpPc → Nat
  | .gathering _ iovs => iovs.length
  | .sending _ _ _ => udpBatch
  | .posting _ left => left
  | .counting _ => 0

/-- The slots of the blocks from a number on. -/
def batchSlots (cfg : Cfg) (first count : Nat) : List Nat :=
  (List.range count).map fun k => (first + k) % cfg.sBufCnt

/-- The pointer is at the slot behind those taken, the slots gathered are those taken,
and batches begin at whole batches. -/
def UdpPc.Stands (cfg : Cfg) (taken freed : Nat) : UdpPc → Prop
  | .gathering buf iovs =>
    buf = taken % cfg.sBufCnt ∧ iovs = batchSlots cfg freed iovs.length ∧
      iovs.length < udpBatch ∧ udpBatch ∣ freed
  | .sending buf iovs sent =>
    buf = taken % cfg.sBufCnt ∧ iovs = batchSlots cfg freed udpBatch ∧ sent ≤ udpBatch ∧
      udpBatch ∣ freed
  | .posting buf left => buf = taken % cfg.sBufCnt ∧ 0 < left ∧ left ≤ udpBatch ∧ udpBatch ∣ taken
  | .counting buf => buf = taken % cfg.sBufCnt ∧ 0 < taken ∧ udpBatch ∣ taken

/-- The number of the block sent next: batches are sent before their slots are given
back. -/
def UdpPc.next (taken freed : Nat) : UdpPc → Nat
  | .gathering _ _ => freed
  | .sending _ _ sent => freed + sent
  | .posting _ _ => taken
  | .counting _ => taken

/-- Blocks counted as sent: those of the batches that are through. -/
def UdpPc.through (taken freed : Nat) : UdpPc → Nat
  | .posting _ _ => taken - udpBatch
  | .counting _ => taken - udpBatch
  | _ => freed

structure UdpIntact (cfg : Cfg) (stream : Nat → BitVec 8) (r : UdpRelay) : Prop where
  intact : Intact cfg stream r.bench
  holding : r.bench.freed + r.pc.holds = r.bench.taken
  stands : r.pc.Stands cfg r.bench.taken r.bench.freed
  counted : r.bench.prog.sSendCnt = BitVec.ofNat 32 (r.pc.through r.bench.taken r.bench.freed)

section Threads

variable {cfg : Cfg} {stream : Nat → BitVec 8} {r after : UdpRelay} {e : UdpEvent}

theorem batchSlots_succ (cfg : Cfg) (first count : Nat) :
    batchSlots cfg first (count + 1) =
      batchSlots cfg first count ++ [(first + count) % cfg.sBufCnt] := by
  simp only [batchSlots, List.range_succ, List.map_append, List.map_cons, List.map_nil]

theorem UdpIntact.step (held : UdpIntact cfg stream r) (sound : cfg.Sound)
    (rule : UdpRule cfg r e) (moved : UdpMove cfg stream r e after) :
    UdpIntact cfg stream after := by
  have holding := held.holding
  have stands := held.stands
  have counted := held.counted
  cases moved with
  | idle e => exact held
  | feeds f =>
    obtain ⟨taken, freed, count⟩ := feed_frame cfg stream r.bench f
    refine ⟨held.intact.observe sound rule, ?_, ?_, ?_⟩
    · simpa only [taken, freed] using holding
    · simpa only [taken, freed] using stands
    · simpa only [taken, freed, count] using counted
  | @gathers buf iovs at_ some =>
    rw [at_] at holding stands counted
    obtain ⟨place, slots, short, whole⟩ := stands
    have holds : r.bench.freed + iovs.length = r.bench.taken := holding
    have waited := held.intact.observe sound (e := .wait) trivial
    simp only [observe, if_neg (Nat.ne_of_gt some)] at waited
    have pointer : (buf + 1) % cfg.sBufCnt = (r.bench.taken + 1) % cfg.sBufCnt := by
      rw [place, Nat.mod_add_mod]
    have gathered : iovs ++ [buf] = batchSlots cfg r.bench.freed (iovs.length + 1) := by
      rw [batchSlots_succ, holds, ← place, ← slots]
    have length : (iovs ++ [buf]).length = iovs.length + 1 := List.length_append
    dsimp only
    split
    · rename_i below
      refine ⟨waited, ?_, ⟨pointer, ?_, ?_, whole⟩, counted⟩
      · dsimp only [UdpPc.holds]
        omega
      · rwa [length]
      · rwa [length]
    · rename_i full
      have filled : iovs.length + 1 = udpBatch := by omega
      refine ⟨waited, ?_, ⟨pointer, ?_, Nat.zero_le _, whole⟩, counted⟩
      · dsimp only [UdpPc.holds]
        omega
      · rw [← filled]
        exact gathered
  | sends at_ below =>
    rw [at_] at holding stands counted
    exact ⟨held.intact, holding, ⟨stands.1, stands.2.1, below, stands.2.2.2⟩, counted⟩
  | returns at_ =>
    rw [at_] at holding stands counted
    have holds : r.bench.freed + udpBatch = r.bench.taken := holding
    refine ⟨held.intact, holding, ⟨stands.1, by decide, Nat.le_refl _, ?_⟩, ?_⟩
    · rw [← holds]
      exact Nat.dvd_add stands.2.2.2 (Nat.dvd_refl _)
    · dsimp only [UdpPc.through]
      rw [← holds, Nat.add_sub_cancel]
      exact counted
  | @posts buf left at_ more =>
    rw [at_] at holding stands counted
    obtain ⟨place, some, within, whole⟩ := stands
    have holds : r.bench.freed + left = r.bench.taken := holding
    refine ⟨held.intact.observe sound (e := .post) (by dsimp only [Rule]; omega), ?_,
      ⟨place, by omega, by omega, whole⟩, counted⟩
    dsimp only [observe, UdpPc.holds]
    omega
  | @finishes buf left at_ last =>
    rw [at_] at holding stands counted
    obtain ⟨place, some, within, whole⟩ := stands
    have holds : r.bench.freed + 1 = r.bench.taken := last ▸ holding
    exact ⟨held.intact.observe sound (e := .post) (Nat.lt_of_succ_le (Nat.le_of_eq holds)), holds,
      ⟨place, Nat.lt_of_lt_of_le (Nat.succ_pos _) (Nat.le_of_eq holds), whole⟩, counted⟩
  | @counts buf at_ =>
    rw [at_] at holding stands counted
    obtain ⟨place, some, whole⟩ := stands
    have all : r.bench.freed = r.bench.taken := holding
    have batch : r.bench.taken - udpBatch + udpBatch = r.bench.taken :=
      Nat.sub_add_cancel (Nat.le_of_dvd some whole)
    refine ⟨held.intact.observe sound (e := .count _) trivial, holding,
      ⟨place, rfl, by decide, ?_⟩, ?_⟩
    · dsimp only [observe]
      rwa [all]
    · dsimp only [observe, UdpPc.through] at counted ⊢
      rw [counted, ← BitVec.ofNat_add, batch, all]

theorem udpStarted_intact (sound : cfg.Sound) (stream memory txBuf : Nat → BitVec 8) :
    UdpIntact cfg stream (udpStarted cfg memory txBuf) :=
  ⟨started_intact sound stream memory txBuf, rfl,
    ⟨(Nat.zero_mod _).symm, rfl, by decide, Nat.dvd_zero _⟩, rfl⟩

end Threads

/-! ## The datagrams -/

/-- A datagram is the block of its number, whole. -/
def Datagram.Whole (cfg : Cfg) (stream : Nat → BitVec 8) (starts : List Nat) (d : Datagram) :
    Prop :=
  d.bytes = (List.range cfg.block).map fun k =>
    passedByte stream cfg.block starts (d.number * cfg.block + k)

/-- The datagrams are blocks passed on, in the order of the stream and none of them
twice. Those left out are what is missing among them. -/
structure Handed (cfg : Cfg) (stream : Nat → BitVec 8) (r : UdpRelay) : Prop where
  whole : ∀ d ∈ r.handed, d.Whole cfg stream r.bench.starts
  before : ∀ d ∈ r.handed, d.number < r.pc.next r.bench.taken r.bench.freed
  ordered : r.handed.Pairwise fun earlier later => earlier.number < later.number
  balance : r.handed.length + r.skipped = r.pc.next r.bench.taken r.bench.freed
  gapless : r.skipped = 0 → r.handed.map Datagram.number = List.range r.handed.length

section Datagrams

variable {cfg : Cfg} {stream : Nat → BitVec 8} {r after : UdpRelay} {e : UdpEvent}

/-- What is sent next has been taken. -/
theorem UdpIntact.next_le (held : UdpIntact cfg stream r) :
    r.pc.next r.bench.taken r.bench.freed ≤ r.bench.taken := by
  have holding := held.holding
  have stands := held.stands
  cases at_ : r.pc with
  | gathering buf iovs => exact Nat.le.intro holding
  | sending buf iovs sent =>
    rw [at_] at holding stands
    have holds : r.bench.freed + udpBatch = r.bench.taken := holding
    have within : sent ≤ udpBatch := stands.2.2.1
    dsimp only [UdpPc.next]
    omega
  | posting buf left => exact Nat.le_refl _
  | counting buf => exact Nat.le_refl _

/-- More blocks passed on change nothing about a block sent. -/
theorem Datagram.Whole.later {starts : List Nat} {d : Datagram} (whole : d.Whole cfg stream starts)
    (more : List Nat) (before : d.number < starts.length) :
    d.Whole cfg stream (starts ++ more) := by
  refine whole.trans (List.map_congr_left fun k member => ?_)
  have below : k < cfg.block := List.mem_range.mp member
  have stop : d.number * cfg.block + cfg.block ≤ starts.length * cfg.block := by
    rw [← Nat.succ_mul]
    exact Nat.mul_le_mul_right _ before
  exact (passedByte_append stream starts more (by omega)).symm

/-- A slot of the batch shows the block it holds. -/
theorem slotBytes_batch {b : Bench} (intact : Intact cfg stream b) {sent : Nat}
    (holds : b.freed + udpBatch = b.taken) (below : sent < udpBatch) :
    slotBytes cfg b.prog.txBuf ((batchSlots cfg b.freed udpBatch).getD sent 0) 0 cfg.block =
      (List.range cfg.block).map fun k =>
        passedByte stream cfg.block b.starts ((b.freed + sent) * cfg.block + k) := by
  have slot : (batchSlots cfg b.freed udpBatch).getD sent 0 = (b.freed + sent) % cfg.sBufCnt := by
    simp [batchSlots, below]
  rw [slot]
  apply List.map_congr_left
  intro k member
  have inside : k < cfg.block := List.mem_range.mp member
  have before : b.freed + sent < b.starts.length := by
    have taken : b.taken ≤ b.starts.length := intact.counted.taken_le
    omega
  rw [Nat.zero_add]
  exact intact.slot_byte (Nat.le_add_right _ _) before inside

theorem Handed.step (handed : Handed cfg stream r) (held : UdpIntact cfg stream r)
    (moved : UdpMove cfg stream r e after) : Handed cfg stream after := by
  have holding := held.holding
  have stands := held.stands
  have before := handed.before
  have balance := handed.balance
  cases moved with
  | idle e => exact handed
  | feeds f =>
    obtain ⟨taken, freed, -⟩ := feed_frame cfg stream r.bench f
    obtain ⟨more, starts⟩ := feed_starts cfg stream r.bench f
    have passed : r.pc.next r.bench.taken r.bench.freed ≤ r.bench.starts.length :=
      Nat.le_trans held.next_le held.intact.counted.taken_le
    refine ⟨fun d member => ?_, ?_, handed.ordered, ?_, handed.gapless⟩
    · simp only [starts]
      exact (handed.whole d member).later more (Nat.lt_of_lt_of_le (before d member) passed)
    · simpa only [taken, freed] using before
    · simpa only [taken, freed] using balance
  | @gathers buf iovs at_ some =>
    rw [at_] at before balance
    dsimp only
    split
    · exact ⟨handed.whole, before, handed.ordered, balance, handed.gapless⟩
    · exact ⟨handed.whole, before, handed.ordered, balance, handed.gapless⟩
  | @sends buf sent iovs at_ below =>
    rw [at_] at holding stands before balance
    have slots : iovs = batchSlots cfg r.bench.freed udpBatch := stands.2.1
    have length : ∀ last : Datagram, (r.handed ++ [last]).length = r.handed.length + 1 :=
      fun _ => List.length_append
    rw [slots]
    refine ⟨?_, ?_, ?_, ?_, fun none => ?_⟩
    · intro d member
      rcases List.mem_append.mp member with earlier | last
      · exact handed.whole d earlier
      · rw [List.mem_singleton.mp last]
        exact slotBytes_batch held.intact holding below
    · intro d member
      rcases List.mem_append.mp member with earlier | last
      · exact Nat.lt_succ_of_lt (before d earlier)
      · rw [List.mem_singleton.mp last]
        exact Nat.lt_succ_self _
    · refine List.pairwise_append.mpr ⟨handed.ordered, List.pairwise_singleton _ _, ?_⟩
      intro d earlier d' last
      rw [List.mem_singleton.mp last]
      exact before d earlier
    · dsimp only [UdpPc.next] at balance ⊢
      rw [length]
      omega
    · dsimp only [UdpPc.next] at balance none
      rw [none, Nat.add_zero] at balance
      rw [length, List.map_append, handed.gapless none, List.range_succ, List.map_singleton,
        balance]
  | @returns buf sent iovs at_ =>
    rw [at_] at holding stands before balance
    have holds : r.bench.freed + udpBatch = r.bench.taken := holding
    have within : sent ≤ udpBatch := stands.2.2.1
    dsimp only [UdpPc.next] at before balance
    refine ⟨handed.whole, fun d member => ?_, handed.ordered, ?_, fun none => ?_⟩
    · have earlier := before d member
      dsimp only [UdpPc.next]
      omega
    · dsimp only [UdpPc.next]
      omega
    · dsimp only at none
      exact handed.gapless (by omega)
  | @posts buf left at_ more =>
    rw [at_] at before balance
    exact ⟨handed.whole, before, handed.ordered, balance, handed.gapless⟩
  | @finishes buf left at_ last =>
    rw [at_] at before balance
    exact ⟨handed.whole, before, handed.ordered, balance, handed.gapless⟩
  | @counts buf at_ =>
    rw [at_] at holding before balance
    have all : r.bench.freed = r.bench.taken := holding
    refine ⟨handed.whole, ?_, handed.ordered, ?_, handed.gapless⟩
    · simpa only [UdpPc.next, observe, all] using before
    · simpa only [UdpPc.next, observe, all] using balance

end Datagrams

/-- In every run each datagram is one block passed on, whole and unharmed; they are
sent in the order of the stream and none is sent twice. The blocks `sendmmsg` leaves
out are counted in `s_send_cnt` all the same; when it leaves out none, the datagrams
are the first blocks passed on without a gap. -/
theorem udp_in_order {cfg : Cfg} (sound : cfg.Sound) {stream : Nat → BitVec 8}
    (memory txBuf : Nat → BitVec 8) (events : List UdpEvent)
    (follows : Follows (UdpRule cfg) (udpStep cfg stream) (udpStarted cfg memory txBuf) events) :
    let r := run (udpStep cfg stream) (udpStarted cfg memory txBuf) events
    (∀ d ∈ r.handed, d.number < r.bench.passed ∧
      d.bytes = (List.range cfg.block).map fun k =>
        passedByte stream cfg.block r.bench.starts (d.number * cfg.block + k)) ∧
    (r.handed.Pairwise fun earlier later => earlier.number < later.number) ∧
    (r.skipped = 0 → r.handed.map Datagram.number = List.range r.handed.length) ∧
    (∀ buf iovs, r.pc = .gathering buf iovs →
      r.bench.prog.sSendCnt = BitVec.ofNat 32 (r.handed.length + r.skipped)) := by
  intro r
  let kept : UdpRelay → Prop := fun r => UdpIntact cfg stream r ∧ Handed cfg stream r
  have preserved : ∀ r e, kept r → UdpRule cfg r e → kept (udpStep cfg stream r e) := by
    rintro r e ⟨intact, handed⟩ rule
    have moved := udpStep_moves cfg stream r e
    exact ⟨intact.step sound rule moved, handed.step intact moved⟩
  have initial : kept (udpStarted cfg memory txBuf) :=
    ⟨udpStarted_intact sound stream memory txBuf,
      ⟨by simp [udpStarted], by simp [udpStarted], List.Pairwise.nil, rfl, fun _ => rfl⟩⟩
  have all : kept r := invariant preserved initial events follows
  obtain ⟨held, handed⟩ := all
  refine ⟨fun d member => ⟨?_, handed.whole d member⟩, handed.ordered, handed.gapless, ?_⟩
  · exact Nat.lt_of_lt_of_le (handed.before d member)
      (Nat.le_trans held.next_le held.intact.counted.taken_le)
  · intro buf iovs at_
    have counted := held.counted
    have balance := handed.balance
    rw [at_] at counted balance
    rw [counted, balance]
    rfl

/-- Thirty-two blocks of one byte pass through a ring of as many slots as one batch, of
which the last datagram is left out. -/
def shortBatch : List UdpEvent :=
  [.feed (.write 32), .feed (.publish 32)] ++ List.replicate 160 (.feed .main) ++
    List.replicate 32 .wait ++ List.replicate 31 .datagram ++ [.returns] ++
    List.replicate 32 .post ++ [.count]

theorem udp_in_order_short :
    let r := run (udpStep ⟨32, 1, 64⟩ (BitVec.ofNat 8))
      (udpStarted ⟨32, 1, 64⟩ (fun _ => 0) (fun _ => 0)) shortBatch
    (r.handed.length = 31 ∧ r.skipped = 1 ∧ r.bench.passed = 32) ∧
      (r.handed.Pairwise fun earlier later => earlier.number < later.number) ∧
      r.bench.prog.sSendCnt = BitVec.ofNat 32 (r.handed.length + r.skipped) := by
  have sound : Cfg.Sound ⟨32, 1, 64⟩ := ⟨by decide, by decide, by decide, by decide⟩
  have follows : Follows (UdpRule ⟨32, 1, 64⟩) (udpStep ⟨32, 1, 64⟩ (BitVec.ofNat 8))
      (udpStarted ⟨32, 1, 64⟩ (fun _ => 0) (fun _ => 0)) shortBatch := by
    decide +kernel
  obtain ⟨-, ordered, -, counted⟩ := udp_in_order sound _ _ shortBatch follows
  exact ⟨by decide +kernel, ordered, counted 0 [] (by decide +kernel)⟩

end Zyndra.Ad9361Rx
