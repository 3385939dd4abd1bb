import Zyndra.AxiMasterWr
import Zyndra.Runs

/-!
# The writer on a memory port, with a scoreboard

The bench counts addresses accepted, bursts whose last beat has been accepted
and responses received, and notes the ring presented when a session begins. It
also keeps every word accepted from the stream and every beat accepted by the
slave. The counts towards the slave run on across sessions; those of a session
start again with it.

The slave answers each burst once, after its last beat, and holds at most
fifteen bursts. Every other input is unconstrained.
-/

namespace Zyndra.AxiMasterWr

open CyclicRing

/-- What the observer counts on the memory port. -/
structure Tally where
  /-- Addresses accepted and not yet answered. -/
  outstanding : Nat
  /-- Bursts accepted to the last beat and not yet answered. -/
  unanswered : Nat
  /-- Sessions begun since the reset. -/
  sessions : Nat
  /-- Addresses accepted and responses received in this session. -/
  addressed : Nat
  answered : Nat
  /-- Base and size presented when the session began. -/
  base : BitVec 32
  size : BitVec 32

structure Bench (Fifo : Type) where
  dut : Entity Fifo
  tally : Tally
  /-- All words accepted from the stream and all beats accepted by the slave. -/
  words : List (BitVec 32)
  beats : List (BitVec 64)

/-- The engine leaves STANDBY on this clock. -/
def begins (sm : SmRegisters) (i : Inputs) : Bool := decide (sm.sState = .standby) && i.iEnable

def awHandshake (sm : SmRegisters) (i : Inputs) : Bool := oAwvalid sm && i.iAwready

def wHandshake (sm : SmRegisters) (i : Inputs) : Bool := oWvalid sm && i.iWready

def bHandshake (i : Inputs) : Bool := i.iBvalid && oBready

section Wires

variable {sm : SmRegisters} {i : Inputs}

/-- A session begins from STANDBY only. -/
theorem begins_active (active : sm.sState ≠ .standby) : begins sm i = false := by
  simp [begins, active]

/-- An address passes in AW_SEND only. -/
theorem awHandshake_elsewhere (other : sm.sState ≠ .awSend) : awHandshake sm i = false := by
  simp [awHandshake, oAwvalid, other]

/-- A beat passes in W_SEND only. -/
theorem wHandshake_elsewhere (other : sm.sState ≠ .wSend) : wHandshake sm i = false := by
  simp [wHandshake, oWvalid, other]

/-- The last beat of a burst leaves W_SEND for a state of the same session. -/
theorem chained_elsewhere {next : TState} {chained : Bool}
    (continued : next = if chained then .awSend else .idle) :
    next ≠ .wSend ∧ next ≠ .standby := by
  rw [continued]
  split <;> simp

end Wires

section Bench

variable {Fifo : Type} (g : Generics) (xpm : XpmFifoSync (BitVec 64) Fifo)

/-- The tally after a clock that finds the given registers and inputs. -/
def Tally.count (t : Tally) (sm : SmRegisters) (i : Inputs) : Tally where
  outstanding := t.outstanding + (awHandshake sm i).toNat - (bHandshake i).toNat
  unanswered := t.unanswered + (wHandshake sm i && oWlast g sm).toNat - (bHandshake i).toNat
  sessions := t.sessions + (begins sm i).toNat
  addressed := if begins sm i then 0 else t.addressed + (awHandshake sm i).toNat
  answered := if begins sm i then 0 else t.answered + (bHandshake i).toNat
  base := if begins sm i then i.iBaseAddr else t.base
  size := if begins sm i then i.iBufSize else t.size

/-- One clock of the engine, with the scoreboard brought up to date. -/
def observe (b : Bench Fifo) (i : Inputs) : Bench Fifo where
  dut := clock g xpm b.dut i
  tally := b.tally.count g b.dut.regs.sm i
  words := b.words ++ (if i.iTvalid && oTready xpm b.dut then [i.iTdata] else [])
  beats := b.beats ++ (if wHandshake b.dut.regs.sm i then [oWdata xpm b.dut] else [])

/-- The bench out of reset, with nothing counted yet. -/
def resetBench (sWrPtr sPrevTdata : BitVec 32) (fifo : Fifo) : Bench Fifo where
  dut := ⟨resetRegisters sWrPtr sPrevTdata, fifo⟩
  tally := ⟨0, 0, 0, 0, 0, 0, 0⟩
  words := []
  beats := []

/-- No soft reset. -/
def Running (_ : Bench Fifo) (i : Inputs) : Prop := i.iAresetn = true

/-- A response only for a burst accepted to its last beat, and at most fifteen
bursts held once this clock's address and response are counted. -/
def SlaveRule (b : Bench Fifo) (i : Inputs) : Prop :=
  i.iAresetn = true ∧ (i.iBvalid = true → 0 < b.tally.unanswered) ∧
    b.tally.outstanding + (awHandshake b.dut.regs.sm i).toNat ≤ 15 + (bHandshake i).toNat

instance (b : Bench Fifo) (i : Inputs) : Decidable (Running b i) :=
  inferInstanceAs (Decidable (_ = _))

instance (b : Bench Fifo) (i : Inputs) : Decidable (SlaveRule b i) :=
  inferInstanceAs (Decidable (_ ∧ _ ∧ _))

/-- The tally after a response, or without one. -/
def Tally.respond (t : Tally) (i : Inputs) : Tally :=
  { t with
    outstanding := t.outstanding - (bHandshake i).toNat
    unanswered := t.unanswered - (bHandshake i).toNat
    answered := t.answered + (bHandshake i).toNat }

/-- What one clock out of reset does to the state machine and the tally. On each
of them a response may arrive as well. All clocks on which the state machine
stays where it is are one case. -/
inductive Advances (g : Generics) (progFull : Bool) (pending : BitVec 4) (i : Inputs)
    (sm : SmRegisters) (t : Tally) : SmRegisters → Tally → Prop where
  | quiet (noBegin : begins sm i = false) (noAddress : awHandshake sm i = false)
      (noBeat : wHandshake sm i = false) :
      Advances g progFull pending i sm t sm (t.respond i)
  | starts (state : sm.sState = .standby) (enabled : i.iEnable = true) :
      Advances g progFull pending i sm t
        { sm with
          sBaseAddr := i.iBaseAddr, sAwAddr := i.iBaseAddr
          sTopAddr := i.iBaseAddr + i.iBufSize, sBufSize := i.iBufSize, sState := .idle }
        { t.respond i with
          sessions := t.sessions + 1, addressed := 0, answered := 0
          base := i.iBaseAddr, size := i.iBufSize }
  | stops (state : sm.sState = .idle) (disabled : i.iEnable = false) :
      Advances g progFull pending i sm t { sm with sState := .waitOutstanding } (t.respond i)
  | commits (state : sm.sState = .idle) (enabled : i.iEnable = true) (stocked : progFull = true) :
      Advances g progFull pending i sm t { sm with sState := .awSend } (t.respond i)
  | addressed (state : sm.sState = .awSend) (accepted : i.iAwready = true) :
      Advances g progFull pending i sm t
        { sm with sBeatCnt := 0, sState := .wSend, sAwAddr := sm.sAwAddr + g.cBurstBytes }
        { t.respond i with
          outstanding := t.outstanding + 1 - (bHandshake i).toNat
          addressed := t.addressed + 1 }
  | sends (state : sm.sState = .wSend) (accepted : i.iWready = true)
      (more : sm.sBeatCnt ≠ g.gBurstLen - 1) :
      Advances g progFull pending i sm t { sm with sBeatCnt := sm.sBeatCnt + 1 } (t.respond i)
  | finishes (next : TState) (state : sm.sState = .wSend) (accepted : i.iWready = true)
      (last : sm.sBeatCnt = g.gBurstLen - 1)
      (continued : next = if progFull then .awSend else .idle) :
      Advances g progFull pending i sm t
        { sm with
          sAwAddr := if sm.sTopAddr ≤ sm.sAwAddr then sm.sBaseAddr else sm.sAwAddr
          sState := next }
        { t.respond i with unanswered := t.unanswered + 1 - (bHandshake i).toNat }
  | retires (state : sm.sState = .waitOutstanding) (settled : pending = 0) :
      Advances g progFull pending i sm t { sm with sState := .standby } (t.respond i)

/-- A clock without an address, a last beat and a new session only counts its
response. -/
theorem Tally.count_quiet (t : Tally) (sm : SmRegisters) (i : Inputs)
    (noBegin : begins sm i = false) (noAddress : awHandshake sm i = false)
    (noLast : (wHandshake sm i && oWlast g sm) = false) : t.count g sm i = t.respond i := by
  simp [Tally.count, Tally.respond, noBegin, noAddress, noLast]

/-- Every clock out of reset is one of the listed advances. -/
theorem observe_advances (b : Bench Fifo) (i : Inputs) (running : i.iAresetn = true) :
    Advances g (xpm.progFull b.dut.fifo) b.dut.regs.sPendingCnt i b.dut.regs.sm b.tally
      (observe g xpm b i).dut.regs.sm (observe g xpm b i).tally := by
  have moved := procSm_moves g (xpm.progFull b.dut.fifo) b.dut.regs.sPendingCnt i b.dut.regs.sm
    running
  change Advances g _ _ i b.dut.regs.sm b.tally
    (procSm g b.dut.regs.sm b.dut.regs.sPendingCnt i (xpm.progFull b.dut.fifo))
    (b.tally.count g b.dut.regs.sm i)
  generalize procSm g b.dut.regs.sm b.dut.regs.sPendingCnt i (xpm.progFull b.dut.fifo) = after
    at moved
  generalize b.dut.regs.sm = sm at moved ⊢
  -- Outside STANDBY, AW_SEND and W_SEND nothing is counted but a response.
  have noBegin : sm.sState ≠ .standby → begins sm i = false := begins_active
  have noAddress : sm.sState ≠ .awSend → awHandshake sm i = false := awHandshake_elsewhere
  have noBeat : sm.sState ≠ .wSend → wHandshake sm i = false := wHandshake_elsewhere
  have noLast : sm.sState ≠ .wSend → (wHandshake sm i && oWlast g sm) = false := by
    intro other
    rw [noBeat other, Bool.false_and]
  cases moved with
  | rests state disabled =>
    have begun : begins after i = false := by simp [begins, disabled]
    rw [Tally.count_quiet g _ _ _ begun (noAddress (by simp [state])) (noLast (by simp [state]))]
    exact .quiet begun (noAddress (by simp [state])) (noBeat (by simp [state]))
  | starts state enabled =>
    have counted : b.tally.count g sm i =
        { b.tally.respond i with
          sessions := b.tally.sessions + 1, addressed := 0, answered := 0
          base := i.iBaseAddr, size := i.iBufSize } := by
      simp [Tally.count, Tally.respond, begins, awHandshake, wHandshake, oAwvalid, oWvalid, state,
        enabled]
    rw [counted]
    exact .starts state enabled
  | stops state disabled =>
    rw [Tally.count_quiet g _ _ _ (noBegin (by simp [state])) (noAddress (by simp [state]))
      (noLast (by simp [state]))]
    exact .stops state disabled
  | waits state enabled short =>
    rw [Tally.count_quiet g _ _ _ (noBegin (by simp [state])) (noAddress (by simp [state]))
      (noLast (by simp [state]))]
    exact .quiet (noBegin (by simp [state])) (noAddress (by simp [state]))
      (noBeat (by simp [state]))
  | commits state enabled stocked =>
    rw [Tally.count_quiet g _ _ _ (noBegin (by simp [state])) (noAddress (by simp [state]))
      (noLast (by simp [state]))]
    exact .commits state enabled stocked
  | offers state refused =>
    have none : awHandshake after i = false := by simp [awHandshake, refused]
    rw [Tally.count_quiet g _ _ _ (noBegin (by simp [state])) none (noLast (by simp [state]))]
    exact .quiet (noBegin (by simp [state])) none (noBeat (by simp [state]))
  | addressed state accepted =>
    have counted : b.tally.count g sm i =
        { b.tally.respond i with
          outstanding := b.tally.outstanding + 1 - (bHandshake i).toNat
          addressed := b.tally.addressed + 1 } := by
      simp [Tally.count, Tally.respond, begins, awHandshake, wHandshake, oAwvalid, oWvalid, state,
        accepted]
    rw [counted]
    exact .addressed state accepted
  | stalls state refused =>
    have none : wHandshake after i = false := by simp [wHandshake, refused]
    rw [Tally.count_quiet g _ _ _ (noBegin (by simp [state])) (noAddress (by simp [state]))
      (by simp [none])]
    exact .quiet (noBegin (by simp [state])) (noAddress (by simp [state])) none
  | sends state accepted more =>
    have none : (wHandshake sm i && oWlast g sm) = false := by simp [oWlast, more]
    rw [Tally.count_quiet g _ _ _ (noBegin (by simp [state])) (noAddress (by simp [state])) none]
    exact .sends state accepted more
  | finishes next state accepted last continued =>
    have counted : b.tally.count g sm i =
        { b.tally.respond i with
          unanswered := b.tally.unanswered + 1 - (bHandshake i).toNat } := by
      simp [Tally.count, Tally.respond, begins, awHandshake, wHandshake, oAwvalid, oWvalid, oWlast,
        state, accepted, last]
    rw [counted]
    exact .finishes next state accepted last continued
  | drains state outstanding =>
    rw [Tally.count_quiet g _ _ _ (noBegin (by simp [state])) (noAddress (by simp [state]))
      (noLast (by simp [state]))]
    exact .quiet (noBegin (by simp [state])) (noAddress (by simp [state]))
      (noBeat (by simp [state]))
  | retires state settled =>
    rw [Tally.count_quiet g _ _ _ (noBegin (by simp [state])) (noAddress (by simp [state]))
      (noLast (by simp [state]))]
    exact .retires state settled

/-- What the slave and the writer keep between them. A burst is outstanding from
its accepted address on, and only the one being sent cannot be answered yet. The
session's addresses are its responses and the bursts outstanding, which are all
answered before the engine returns to STANDBY. -/
structure Lockstep (g : Generics) (sm : SmRegisters) (t : Tally) : Prop where
  sent : t.outstanding = t.unanswered + (decide (sm.sState = .wSend)).toNat
  counted : t.addressed = t.answered + t.outstanding
  retired : sm.sState = .standby → t.outstanding = 0
  beats : sm.sState = .wSend → sm.sBeatCnt < g.gBurstLen

theorem lockstep_reset (sWrPtr sPrevTdata : BitVec 32) (fifo : Fifo) :
    Lockstep g (resetBench sWrPtr sPrevTdata fifo).dut.regs.sm
      (resetBench sWrPtr sPrevTdata fifo).tally where
  sent := rfl
  counted := rfl
  retired _ := rfl
  beats impossible := by simp [resetBench, resetRegisters, resetSm] at impossible

/-- The pending count steps with the wires: fifteen is never incremented and zero
never decremented. -/
theorem pending_step {r : Registers} {t : Tally} {i : Inputs}
    (exact : r.sPendingCnt.toNat = t.outstanding) (running : i.iAresetn = true)
    (answers : i.iBvalid = true → 0 < t.outstanding)
    (most : t.outstanding + (awHandshake r.sm i).toNat ≤ 15 + (bHandshake i).toNat) :
    (pendingProcess r i).toNat =
      t.outstanding + (awHandshake r.sm i).toNat - (bHandshake i).toNat := by
  change t.outstanding + (oAwvalid r.sm && i.iAwready).toNat ≤ 15 + (i.iBvalid && oBready).toNat
    at most
  change _ = t.outstanding + (oAwvalid r.sm && i.iAwready).toNat - (i.iBvalid && oBready).toNat
  have bound : t.outstanding < 16 := exact ▸ r.sPendingCnt.isLt
  cases request : (oAwvalid r.sm && i.iAwready) <;> cases response : i.iBvalid <;>
    simp only [pendingProcess, running, request, response, oBready, Bool.not_true, Bool.not_false,
      Bool.and_true, Bool.and_false, Bool.false_eq_true, if_false, if_true, Bool.toNat_true,
      Bool.toNat_false, exact] at most ⊢
  · omega
  · have some : 0 < t.outstanding := answers response
    rw [BitVec.toNat_sub_of_le (BitVec.le_def.mpr (by rw [exact]; exact some)), exact]
    rfl
  · rw [BitVec.toNat_add, exact]
    exact Nat.mod_eq_of_lt (by change t.outstanding + 1 < 16; omega)
  · omega

variable {g}

/-- An address adds one outstanding burst, a response takes one; a last beat makes
one more of them answerable. Leaving STANDBY finds none. -/
theorem Lockstep.advance {progFull : Bool} {pending : BitVec 4} {i : Inputs}
    {sm sm' : SmRegisters} {t t' : Tally} (held : Lockstep g sm t)
    (exact : pending.toNat = t.outstanding) (answers : i.iBvalid = true → 0 < t.unanswered)
    (advanced : Advances g progFull pending i sm t sm' t') : Lockstep g sm' t' := by
  have positive : 0 < g.gBurstLen := g.positive
  have sent := held.sent
  have counted := held.counted
  have response : (bHandshake i).toNat ≤ t.unanswered := by
    cases valid : i.iBvalid with
    | false => simp [bHandshake, valid]
    | true => rw [bHandshake, valid]; exact answers valid
  cases advanced with
  | quiet noBegin noAddress noBeat =>
    refine ⟨?_, ?_, ?_, held.beats⟩ <;> simp only [Tally.respond]
    · omega
    · omega
    · intro state
      have none := held.retired state
      omega
  | starts state enabled =>
    have none : t.outstanding = 0 := held.retired state
    have settled : (bHandshake i).toNat = 0 := by omega
    simp only [state, reduceCtorEq, decide_false, Bool.toNat_false, Nat.add_zero] at sent
    refine ⟨?_, ?_, by simp, by simp⟩
    · simp [Tally.respond, settled, sent]
    · simp [Tally.respond, none]
  | stops state disabled =>
    simp only [state, reduceCtorEq, decide_false, Bool.toNat_false, Nat.add_zero] at sent
    refine ⟨?_, ?_, by simp, by simp⟩
    · simp [Tally.respond, sent]
    · simp only [Tally.respond]
      omega
  | commits state enabled stocked =>
    simp only [state, reduceCtorEq, decide_false, Bool.toNat_false, Nat.add_zero] at sent
    refine ⟨?_, ?_, by simp, by simp⟩
    · simp [Tally.respond, sent]
    · simp only [Tally.respond]
      omega
  | addressed state accepted =>
    simp only [state, reduceCtorEq, decide_false, Bool.toNat_false, Nat.add_zero] at sent
    refine ⟨?_, ?_, by simp, ?_⟩ <;> simp only [Tally.respond, decide_true, Bool.toNat_true]
    · omega
    · omega
    · intro _
      exact positive
  | sends state accepted more =>
    have within := held.beats state
    refine ⟨?_, ?_, by simp [state], ?_⟩ <;> simp only [Tally.respond]
    · omega
    · omega
    · intro _
      omega
  | finishes next state accepted last continued =>
    obtain ⟨left, active⟩ := chained_elsewhere continued
    simp only [state, decide_true, Bool.toNat_true] at sent
    refine ⟨?_, ?_, ?_, ?_⟩ <;> simp only [Tally.respond, left, decide_false, Bool.toNat_false]
    · omega
    · omega
    · intro back
      exact absurd back active
    · intro back
      exact back.elim
  | retires state settled =>
    simp only [state, reduceCtorEq, decide_false, Bool.toNat_false, Nat.add_zero] at sent
    have none : t.outstanding = 0 := by
      rw [← exact, settled]
      rfl
    refine ⟨?_, ?_, ?_, by simp⟩ <;>
      simp only [Tally.respond, reduceCtorEq, decide_false, Bool.toNat_false]
    · omega
    · omega
    · intro _
      omega

end Bench

/-- Input ports of an enabled engine on a 256-byte ring, for runs on fixed inputs. -/
def ports (awready wready bvalid tvalid : Bool) (tdata : BitVec 32) : Inputs where
  iAresetn := true
  iEnable := true
  iBaseAddr := 0x10000000
  iBufSize := 256
  iAwready := awready
  iWready := wready
  iBvalid := bvalid
  iTdata := tdata
  iTvalid := tvalid

/-- The words `1, 2, … count` on the stream, one on each clock. -/
def streamIn (count : Nat) : List Inputs :=
  (List.range count).map (fun k => ports false false false true (BitVec.ofNat 32 (k + 1)))

/-- One address and sixteen beats accepted by the slave. -/
def burstOnBus : List Inputs :=
  ports true false false false 0 :: List.replicate 16 (ports false true false false 0)

end Zyndra.AxiMasterWr
