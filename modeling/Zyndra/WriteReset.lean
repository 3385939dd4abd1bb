import Zyndra.WriteBench

/-!
# The writer's dues under a soft reset

The reset of the engine comes from a register and the memory port does not see
it. The dues are counted on the port through every reset: whether an address was
left unaccepted, how many beats the slave expects, how many bursts it has not
answered. A reset clears the engine's own records of all three.

One clock keeps the dues exactly when a reset falls between bursts, and when a
session begins with a pending count that the last reset has not falsified.
-/

namespace Zyndra.AxiMasterWr

/-- What the engine owes the memory port, and what the port owes it. -/
structure Dues where
  /-- An address was offered on the last clock and not accepted. -/
  refused : Bool
  /-- Beats still to be sent for accepted addresses. -/
  beats : Nat
  /-- Addresses accepted less responses received. -/
  outstanding : Nat
  /-- How many were outstanding as a reset last cleared the pending count. -/
  forgotten : Nat
  /-- The pending count was right whenever the engine left STANDBY. -/
  settled : Bool
  deriving DecidableEq

/-- The engine leaves STANDBY on this clock, which is not one in reset. -/
def leaves (sm : SmRegisters) (i : Inputs) : Bool := begins sm i && i.iAresetn

/-- The bursts outstanding after a clock. -/
def Dues.answer (d : Dues) (sm : SmRegisters) (i : Inputs) : Nat :=
  d.outstanding + (awHandshake sm i).toNat - (bHandshake i).toNat

/-- The dues after a clock that finds the given registers and inputs. -/
def Dues.count (g : Generics) (d : Dues) (r : Registers) (i : Inputs) : Dues where
  refused := oAwvalid r.sm && !i.iAwready
  beats := d.beats + (if awHandshake r.sm i then g.gBurstLen else 0) - (wHandshake r.sm i).toNat
  outstanding := d.answer r.sm i
  forgotten := if i.iAresetn then d.forgotten else d.answer r.sm i
  settled := d.settled && (!leaves r.sm i || decide (r.sPendingCnt.toNat = d.outstanding))

/-- Nothing due. -/
def noDues : Dues := ⟨false, 0, 0, 0, true⟩

/-- A response only for an accepted address. -/
def Answers (d : Dues) (i : Inputs) : Prop := i.iBvalid = true → 0 < d.outstanding

/-- The engine honours its dues. An address stays offered until it is accepted.
Data is offered exactly while beats are due, the last of them marked, and the
pending count was right whenever the engine left STANDBY. -/
structure Honoured (g : Generics) (r : Registers) (d : Dues) : Prop where
  offered : d.refused = true → oAwvalid r.sm = true
  sending : oWvalid r.sm = decide (0 < d.beats)
  last : oWvalid r.sm = true → oWlast g r.sm = decide (d.beats = 1)
  settled : d.settled = true

/-- A reset finds no address offered and no burst unfinished but for a last beat
that is accepted. A session begins with fewer bursts outstanding than the pending
count can tell apart, and as many forgotten as it cannot tell from none. -/
def Spared (g : Generics) (d : Dues) (r : Registers) (i : Inputs) : Prop :=
  (i.iAresetn = false → r.sm.sState ≠ .awSend ∧
      (r.sm.sState = .wSend → i.iWready = true ∧ oWlast g r.sm = true)) ∧
    (leaves r.sm i = true → d.outstanding < 16 ∧ 16 ∣ d.forgotten)

instance (d : Dues) (i : Inputs) : Decidable (Answers d i) := inferInstanceAs (Decidable (_ → _))

instance (g : Generics) (d : Dues) (r : Registers) (i : Inputs) : Decidable (Spared g d r i) :=
  inferInstanceAs (Decidable ((_ → _ ∧ (_ → _)) ∧ (_ → _)))

/-- The beat counter counts the due beats of a burst up, and the pending count is
that of the outstanding bursts less the forgotten ones, modulo its width. -/
structure InStep (g : Generics) (r : Registers) (d : Dues) : Prop where
  beats : r.sm.sState = .wSend → r.sm.sBeatCnt + d.beats = g.gBurstLen
  pending : (r.sPendingCnt.toNat + d.forgotten) % 16 = d.outstanding % 16

section Steps

variable {g : Generics} {r : Registers} {d : Dues} {i : Inputs}

/-- The pending count keeps up with the port but for the bursts it forgets. -/
theorem InStep.count_pending (inStep : InStep g r d) (answers : Answers d i) :
    ((pendingProcess r i).toNat + (d.count g r i).forgotten) % 16 =
      (d.count g r i).outstanding % 16 := by
  have pending := inStep.pending
  have responds : i.iBvalid = true → 0 < d.outstanding := answers
  simp only [Dues.count, Dues.answer, pendingProcess, awHandshake, bHandshake, oBready,
    Bool.and_true]
  cases running : i.iAresetn with
  | false => simp
  | true =>
    cases request : (oAwvalid r.sm && i.iAwready) <;> cases response : i.iBvalid <;>
      simp [response] at responds ⊢
    all_goals omega

/-- Beats are due in W_SEND and nowhere else. -/
theorem Honoured.due (held : Honoured g r d) : r.sm.sState = .wSend ↔ 0 < d.beats := by
  have sending := held.sending
  simp only [oWvalid, decide_eq_decide] at sending
  exact sending

/-- In W_SEND the beat marked last is the only one due. -/
theorem InStep.marks (inStep : InStep g r d) (state : r.sm.sState = .wSend) (due : 0 < d.beats) :
    oWlast g r.sm = decide (d.beats = 1) := by
  have beats := inStep.beats state
  have sameTest : r.sm.sBeatCnt = g.gBurstLen - 1 ↔ d.beats = 1 := by omega
  simp [oWlast, state, sameTest]

/-- The dues of a clock in each state. -/
theorem count_awSend (held : Honoured g r d) (state : r.sm.sState = .awSend) :
    (d.count g r i).refused = !i.iAwready ∧
      (d.count g r i).beats = if i.iAwready then g.gBurstLen else 0 := by
  have none : d.beats = 0 := by
    have due := held.due
    simp only [state, reduceCtorEq, false_iff] at due
    omega
  simp [Dues.count, awHandshake, wHandshake, oAwvalid, oWvalid, state, none]

theorem count_wSend (state : r.sm.sState = .wSend) :
    (d.count g r i).refused = false ∧ (d.count g r i).beats = d.beats - i.iWready.toNat := by
  simp [Dues.count, awHandshake, wHandshake, oAwvalid, oWvalid, state]

theorem count_elsewhere (held : Honoured g r d) (silent : r.sm.sState ≠ .awSend)
    (idle : r.sm.sState ≠ .wSend) :
    (d.count g r i).refused = false ∧ (d.count g r i).beats = 0 := by
  have none : d.beats = 0 := by
    have due := held.due
    simp only [idle, false_iff] at due
    omega
  simp [Dues.count, awHandshake, wHandshake, oAwvalid, oWvalid, silent, idle, none]

/-- With its own records in step, the engine is right about the bursts outstanding
exactly when they are fewer than sixteen and it has forgotten none modulo
sixteen. -/
theorem InStep.pending_exact (inStep : InStep g r d) :
    r.sPendingCnt.toNat = d.outstanding ↔ d.outstanding < 16 ∧ 16 ∣ d.forgotten := by
  have pending := inStep.pending
  have width : r.sPendingCnt.toNat < 16 := r.sPendingCnt.isLt
  omega

/-- The record of the pending count stays right exactly when the engine does not
leave STANDBY or knows the bursts outstanding. -/
theorem Honoured.settles_iff (held : Honoured g r d) (inStep : InStep g r d) :
    (d.count g r i).settled = true ↔
      (leaves r.sm i = true → d.outstanding < 16 ∧ 16 ∣ d.forgotten) := by
  rw [← inStep.pending_exact]
  cases leaving : leaves r.sm i <;> simp [Dues.count, held.settled, leaving]

/-- Back in STANDBY the engine offers nothing, so nothing may be due. -/
theorem Honoured.reset_iff (held : Honoured g r d) (reset : i.iAresetn = false) {r' : Registers}
    (standby : r'.sm.sState = .standby) :
    Honoured g r' (d.count g r i) ↔
      r.sm.sState ≠ .awSend ∧ (r.sm.sState = .wSend → i.iWready = true ∧ oWlast g r.sm = true) := by
  have settled : (d.count g r i).settled = true := by
    simp [Dues.count, held.settled, leaves, reset]
  have kept : Honoured g r' (d.count g r i) ↔
      (d.count g r i).refused = false ∧ (d.count g r i).beats = 0 := by
    constructor
    · intro after
      have offered := after.offered
      have sending := after.sending
      simp only [oAwvalid, oWvalid, standby, reduceCtorEq, decide_false] at offered sending
      exact ⟨by simpa using offered, by simpa using sending⟩
    · rintro ⟨accepted, sent⟩
      refine ⟨?_, ?_, ?_, settled⟩ <;> simp [oWvalid, standby, accepted, sent]
  rw [kept]
  by_cases offering : r.sm.sState = .awSend
  · obtain ⟨refused, beats⟩ := count_awSend (i := i) held offering
    have positive := g.positive
    cases ready : i.iAwready <;> simp [refused, beats, offering, ready]
    omega
  · by_cases sending : r.sm.sState = .wSend
    · obtain ⟨refused, beats⟩ := count_wSend (g := g) (d := d) (i := i) sending
      have due := held.due.mp sending
      have marked := held.last (by simp [oWvalid, sending])
      simp only [refused, beats, sending, marked]
      cases ready : i.iWready <;> simp
      all_goals omega
    · simp [count_elsewhere held offering sending, offering, sending]

/-- What the port is owed after a clock, and how far the burst has come. -/
structure Owing (g : Generics) (sm : SmRegisters) (d : Dues) : Prop where
  offered : d.refused = true → oAwvalid sm = true
  due : sm.sState = .wSend ↔ 0 < d.beats
  counted : sm.sState = .wSend → sm.sBeatCnt + d.beats = g.gBurstLen

/-- Nothing is owed in a state that does not send. -/
theorem owing_silent {sm : SmRegisters} {d : Dues} (taken : d.refused = false)
    (none : d.beats = 0) (idle : sm.sState ≠ .wSend) : Owing g sm d := by
  constructor <;> simp [taken, none, idle]

/-- Out of reset the engine goes on with what it owes. -/
theorem Honoured.running_port (held : Honoured g r d) (inStep : InStep g r d) {progFull : Bool}
    {sm' : SmRegisters} (moved : Moves g progFull r.sPendingCnt i r.sm sm') :
    Owing g sm' (d.count g r i) := by
  have positive := g.positive
  cases moved with
  | rests state _ =>
    obtain ⟨taken, none⟩ := count_elsewhere (i := i) held (by simp [state]) (by simp [state])
    exact owing_silent taken none (by simp [state])
  | starts state _ =>
    obtain ⟨taken, none⟩ := count_elsewhere (i := i) held (by simp [state]) (by simp [state])
    exact owing_silent taken none (by simp)
  | stops state _ =>
    obtain ⟨taken, none⟩ := count_elsewhere (i := i) held (by simp [state]) (by simp [state])
    exact owing_silent taken none (by simp)
  | waits state _ _ =>
    obtain ⟨taken, none⟩ := count_elsewhere (i := i) held (by simp [state]) (by simp [state])
    exact owing_silent taken none (by simp [state])
  | commits state _ _ =>
    obtain ⟨taken, none⟩ := count_elsewhere (i := i) held (by simp [state]) (by simp [state])
    exact owing_silent taken none (by simp)
  | offers state refused =>
    obtain ⟨_, none⟩ := count_awSend (i := i) held state
    constructor <;> simp [none, refused, oAwvalid, state]
  | addressed state accepted =>
    obtain ⟨taken, whole⟩ := count_awSend (i := i) held state
    constructor <;> simp [taken, whole, accepted, positive]
  | stalls state refused =>
    obtain ⟨taken, same⟩ := count_wSend (g := g) (d := d) (i := i) state
    have due := held.due.mp state
    have beats := inStep.beats state
    constructor <;> simp [taken, same, refused, state, due, beats]
  | sends state accepted more =>
    obtain ⟨taken, fewer⟩ := count_wSend (g := g) (d := d) (i := i) state
    have due := held.due.mp state
    have beats := inStep.beats state
    rw [accepted, Bool.toNat_true] at fewer
    constructor
    · simp [taken]
    · simp only [fewer, state, true_iff]
      omega
    · intro _
      rw [fewer]
      change r.sm.sBeatCnt + 1 + (d.beats - 1) = g.gBurstLen
      omega
  | finishes next state accepted last continued =>
    obtain ⟨taken, fewer⟩ := count_wSend (g := g) (d := d) (i := i) state
    obtain ⟨left, _⟩ := chained_elsewhere continued
    have beats := inStep.beats state
    have none : (d.count g r i).beats = 0 := by
      rw [fewer, accepted, Bool.toNat_true]
      omega
    exact owing_silent taken none left
  | drains state _ =>
    obtain ⟨taken, none⟩ := count_elsewhere (i := i) held (by simp [state]) (by simp [state])
    exact owing_silent taken none (by simp [state])
  | retires state _ =>
    obtain ⟨taken, none⟩ := count_elsewhere (i := i) held (by simp [state]) (by simp [state])
    exact owing_silent taken none (by simp)

/-- A clock in reset leaves the engine in STANDBY. -/
theorem procSm_standby (progFull : Bool) (pending : BitVec 4) (sm : SmRegisters)
    (reset : i.iAresetn = false) : (procSm g sm pending i progFull).sState = .standby := by
  simp [procSm, reset]

/-- The engine's own records stay in step through every clock, in reset and out of it. -/
theorem InStep.clock {Fifo : Type} (xpm : XpmFifoSync (BitVec 64) Fifo) {e : Entity Fifo}
    (inStep : InStep g e.regs d) (held : Honoured g e.regs d) (answers : Answers d i) :
    InStep g (clock g xpm e i).regs (d.count g e.regs i) := by
  refine ⟨?_, inStep.count_pending answers⟩
  cases running : i.iAresetn with
  | false =>
    intro sending
    have standby := procSm_standby (g := g) (xpm.progFull e.fifo) e.regs.sPendingCnt e.regs.sm
      running
    exact absurd (standby.symm.trans sending) (by simp)
  | true =>
    exact (held.running_port inStep (procSm_moves g (xpm.progFull e.fifo) e.regs.sPendingCnt i
      e.regs.sm running)).counted

/-- The dues stay honoured over a clock exactly when its reset spares them and the
session it begins knows the bursts outstanding. -/
theorem Honoured.clock_iff {Fifo : Type} (xpm : XpmFifoSync (BitVec 64) Fifo) {e : Entity Fifo}
    (held : Honoured g e.regs d) (inStep : InStep g e.regs d) (answers : Answers d i) :
    Honoured g (clock g xpm e i).regs (d.count g e.regs i) ↔ Spared g d e.regs i := by
  have records := inStep.clock xpm held answers
  cases running : i.iAresetn with
  | false =>
    have standby := procSm_standby (g := g) (xpm.progFull e.fifo) e.regs.sPendingCnt e.regs.sm
      running
    rw [held.reset_iff running standby]
    simp [Spared, leaves, running]
  | true =>
    have owing := held.running_port inStep
      (procSm_moves g (xpm.progFull e.fifo) e.regs.sPendingCnt i e.regs.sm running)
    have spared : Spared g d e.regs i ↔
        (leaves e.regs.sm i = true → d.outstanding < 16 ∧ 16 ∣ d.forgotten) := by
      simp [Spared, running]
    rw [spared, ← held.settles_iff inStep]
    constructor
    · intro after
      exact after.settled
    · intro settled
      refine ⟨owing.offered, ?_, ?_, settled⟩
      · exact decide_eq_decide.mpr owing.due
      · intro sending
        have state := of_decide_eq_true sending
        exact records.marks state (owing.due.mp state)

/-- Out of its reset the engine owes nothing. -/
theorem honoured_reset (sWrPtr sPrevTdata : BitVec 32) :
    Honoured g (resetRegisters sWrPtr sPrevTdata) noDues ∧
      InStep g (resetRegisters sWrPtr sPrevTdata) noDues := by
  refine ⟨⟨?_, ?_, ?_, rfl⟩, ⟨?_, rfl⟩⟩ <;> simp [resetRegisters, resetSm, noDues, oWvalid]

end Steps

end Zyndra.AxiMasterWr
