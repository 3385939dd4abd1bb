import Zyndra.DisableStop
import Zyndra.EnablePulse
import Zyndra.WriteReset

/-!
# Enabling an engine again

Software restarts an engine by writing an enable of 0 and then of 1. The engine takes
the ring and its start from the ports as it leaves STANDBY, and it goes there only
when it finds the enable low in IDLE. A low enable during a burst is not seen, and the
engine goes on in its ring as if nothing had been written.

Every edge of the enable restarts the reader when it finds it in STANDBY, and the
writer when it finds it there or in WAIT_OUTSTANDING on the way. The ring registers
have to be left alone until the engine takes them, and no response of the session
before may come to the writer in the new one.
-/

namespace Zyndra.Ad936xAxi

/-- The ring that the base and size registers give. -/
structure RingRegisters where
  base : BitVec 32
  size : BitVec 32
  deriving DecidableEq, Repr

end Zyndra.Ad936xAxi

namespace Zyndra.AxiMasterWr

open Ad936xAxi EnablePulse Runs

section Sessions

variable {Fifo : Type} (g : Generics) (xpm : XpmFifoSync (BitVec 64) Fifo)

def Inputs.ring (i : Inputs) : RingRegisters := ⟨i.iBaseAddr, i.iBufSize⟩

/-- The address at offset 0 of the ring is the one that comes next, and the ring is the
one that the engine has taken. -/
structure AtStart (ring : RingRegisters) (sm : SmRegisters) : Prop where
  address : sm.sAwAddr = ring.base
  base : sm.sBaseAddr = ring.base
  top : sm.sTopAddr = ring.base + ring.size
  size : sm.sBufSize = ring.size

/-- The writer as a machine whose sessions an enable begins. -/
def sessions : Machine (Port Fifo) Inputs RingRegisters where
  step := Port.clock g xpm
  enable := Inputs.iEnable
  resource := Inputs.ring
  offers p := oAwvalid p.dut.regs.sm
  unfinished := Port.outstanding
  completes _ i := bHandshake i
  first ring p := AtStart ring p.dut.regs.sm
  unmoved p := p.dut.regs.sWrPtr = 0

/-- A response only for an accepted address. Resets may come at any time. -/
def Answered (p : Port Fifo) (i : Inputs) : Prop := i.iBvalid = true → 0 < p.outstanding

/-- An edge of the enable finds the writer in reset, in STANDBY or on the way there. As
it leaves STANDBY the registers are those of the edge, and no response is outstanding. -/
structure Sampled (w : Watch (Port Fifo) RingRegisters) (i : Inputs) : Prop where
  edge : i.iAresetn = true → i.iEnable = true → w.enabled = false →
    w.state.dut.regs.sm.sState = .standby ∨ w.state.dut.regs.sm.sState = .waitOutstanding
  held : leaves w.state.dut.regs.sm i = true → w.enabled = true →
    w.due = none ∨ w.due = some i.ring
  settled : leaves w.state.dut.regs.sm i = true → w.state.outstanding = 0

instance (p : Port Fifo) (i : Inputs) : Decidable (Answered p i) :=
  inferInstanceAs (Decidable (_ → _))

instance (w : Watch (Port Fifo) RingRegisters) (i : Inputs) : Decidable (Sampled w i) :=
  decidable_of_iff
    ((i.iAresetn = true → i.iEnable = true → w.enabled = false →
        w.state.dut.regs.sm.sState = .standby ∨ w.state.dut.regs.sm.sState = .waitOutstanding) ∧
      (leaves w.state.dut.regs.sm i = true → w.enabled = true →
        w.due = none ∨ w.due = some i.ring) ∧
      (leaves w.state.dut.regs.sm i = true → w.state.outstanding = 0))
    ⟨fun all => ⟨all.1, all.2.1, all.2.2⟩,
      fun sampled => ⟨sampled.edge, sampled.held, sampled.settled⟩⟩

/-- A writer that is on its way to STANDBY, or at the start of a session on the ring. -/
def FreshOn (ring : RingRegisters) (p : Port Fifo) : Prop :=
  p.dut.regs.sm.sState = .standby ∨ p.dut.regs.sm.sState = .waitOutstanding ∨
    (p.dut.regs.sm.sState = .idle ∨ p.dut.regs.sm.sState = .awSend) ∧
      AtStart ring p.dut.regs.sm ∧ p.dut.regs.sWrPtr = 0 ∧ p.outstanding = 0

/-- Without a response the reported pointer stays or returns to 0. -/
theorem wrPtr_unmoved {p : Port Fifo} {i : Inputs} (silent : bHandshake i = false)
    (unmoved : p.dut.regs.sWrPtr = 0) : (p.clock g xpm i).dut.regs.sWrPtr = 0 := by
  change wrPtrProcess g p.dut.regs i = 0
  change (i.iBvalid && oBready) = false at silent
  unfold wrPtrProcess
  split
  · rfl
  · simpa [silent] using unmoved

/-- With nothing outstanding no response comes, and nothing becomes outstanding but by an
address. -/
theorem nothing_outstanding {p : Port Fifo} {i : Inputs} (answered : Answered p i)
    (none : p.outstanding = 0) (noAddress : awHandshake p.dut.regs.sm i = false) :
    bHandshake i = false ∧ (p.clock g xpm i).outstanding = 0 := by
  have noResponse : i.iBvalid = false := by
    cases response : i.iBvalid with
    | false => rfl
    | true => exact absurd (answered response) (by omega)
  refine ⟨by simp [bHandshake, noResponse], ?_⟩
  simp [Port.clock, none, noAddress]

/-- Leaving STANDBY, the writer takes the ring and its start. -/
theorem fresh_begins {p : Port Fifo} {i : Inputs} (answered : Answered p i)
    (running : i.iAresetn = true) (enabled : i.iEnable = true)
    (standby : p.dut.regs.sm.sState = .standby) (none : p.outstanding = 0) :
    FreshOn i.ring (p.clock g xpm i) := by
  have next : (p.clock g xpm i).dut.regs.sm =
      { p.dut.regs.sm with
        sBaseAddr := i.iBaseAddr, sAwAddr := i.iBaseAddr
        sTopAddr := i.iBaseAddr + i.iBufSize, sBufSize := i.iBufSize, sState := .idle } := by
    simp [Port.clock, clock, procSm, running, standby, enabled]
  have noAddress : awHandshake p.dut.regs.sm i = false :=
    awHandshake_elsewhere (by simp [standby])
  refine .inr (.inr ⟨.inl (by rw [next]), ?_, if_pos ⟨standby, enabled⟩,
    (nothing_outstanding g xpm answered none noAddress).2⟩)
  rw [next]
  exact ⟨rfl, rfl, rfl, rfl⟩

/-- In WAIT_OUTSTANDING it stays, or goes to STANDBY. -/
theorem fresh_waits {p : Port Fifo} {i : Inputs} (running : i.iAresetn = true)
    (waiting : p.dut.regs.sm.sState = .waitOutstanding) (ring : RingRegisters) :
    FreshOn ring (p.clock g xpm i) := by
  by_cases settled : p.dut.regs.sPendingCnt = 0#4
  · exact .inl (by simp [Port.clock, clock, procSm, running, waiting, settled])
  · exact .inr (.inl (by simp [Port.clock, clock, procSm, running, waiting, settled]))

/-- In IDLE it stays at the start of its session, or offers the first address. -/
theorem fresh_idles {p : Port Fifo} {i : Inputs} (answered : Answered p i)
    (running : i.iAresetn = true) (enabled : i.iEnable = true)
    (state : p.dut.regs.sm.sState = .idle) {ring : RingRegisters}
    (start : AtStart ring p.dut.regs.sm) (unmoved : p.dut.regs.sWrPtr = 0)
    (none : p.outstanding = 0) :
    FreshOn ring (p.clock g xpm i) := by
  have noAddress : awHandshake p.dut.regs.sm i = false :=
    awHandshake_elsewhere (by simp [state])
  obtain ⟨noResponse, none⟩ := nothing_outstanding g xpm answered none noAddress
  have kept := wrPtr_unmoved g xpm noResponse unmoved
  cases stocked : xpm.progFull p.dut.fifo with
  | false =>
    have next : (p.clock g xpm i).dut.regs.sm = p.dut.regs.sm := by
      simp [Port.clock, clock, procSm, running, state, enabled, stocked]
    exact .inr (.inr ⟨.inl (by rw [next, state]), by rwa [next], kept, none⟩)
  | true =>
    have next : (p.clock g xpm i).dut.regs.sm = { p.dut.regs.sm with sState := .awSend } := by
      simp [Port.clock, clock, procSm, running, state, enabled, stocked]
    refine .inr (.inr ⟨.inr (by rw [next]), ?_, kept, none⟩)
    rw [next]
    exact { start with }

/-- A reset leads to STANDBY. -/
theorem reset_standby (p : Port Fifo) {i : Inputs} (reset : i.iAresetn = false) :
    (p.clock g xpm i).dut.regs.sm.sState = .standby :=
  procSm_standby (xpm.progFull p.dut.fifo) p.dut.regs.sPendingCnt p.dut.regs.sm reset

/-- Out of reset, a writer that is fresh for the ring named stays so. -/
theorem fresh_clock {w : Watch (Port Fifo) RingRegisters} {i : Inputs} {ring : RingRegisters}
    (answered : Answered w.state i) (sampled : Sampled w i) (running : i.iAresetn = true)
    (enabled : i.iEnable = true)
    (named : leaves w.state.dut.regs.sm i = true → i.ring = ring)
    (fresh : FreshOn ring w.state) (silent : w.state.dut.regs.sm.sState ≠ .awSend) :
    FreshOn ring (w.state.clock g xpm i) := by
  rcases fresh with standby | waiting | ⟨idle | offering, start, unmoved, none⟩
  · have leaving : leaves w.state.dut.regs.sm i = true := by
      simp [leaves, begins, standby, enabled, running]
    rw [← named leaving]
    exact fresh_begins g xpm answered running enabled standby (sampled.settled leaving)
  · exact fresh_waits g xpm running waiting ring
  · exact fresh_idles g xpm answered running enabled idle start unmoved none
  · exact absurd offering silent

/-- What an edge that is sampled leads to. -/
theorem sessions_restart : (sessions g xpm).Restarts Answered Sampled (fun _ => True) FreshOn where
  preserved _ _ _ _ := trivial
  due w i ring _ answered sampled due earlier := by
    obtain ⟨on, edge⟩ := Machine.dueNow_eq_some (sessions g xpm) |>.mp due
    have enabled : i.iEnable = true := on
    cases running : i.iAresetn with
    | false =>
      have standby := reset_standby g xpm w.state running
      exact ⟨fun _ => decide_eq_false (by simp [sessions, standby]), .inl standby⟩
    | true =>
      have named : leaves w.state.dut.regs.sm i = true → i.ring = ring :=
        fun leaving => Machine.resource_now (sessions g xpm) due (sampled.held leaving)
      have place : w.state.dut.regs.sm.sState ≠ .awSend ∧ FreshOn ring w.state := by
        rcases edge with ⟨high, _⟩ | ⟨low, _⟩
        · obtain ⟨fresh, silent⟩ := earlier high
          exact ⟨of_decide_eq_false silent, fresh⟩
        · rcases sampled.edge running enabled low with standby | waiting
          · exact ⟨by simp [standby], .inl standby⟩
          · exact ⟨by simp [waiting], .inr (.inl waiting)⟩
      obtain ⟨silent, fresh⟩ := place
      exact ⟨fun standing => absurd (of_decide_eq_true standing) silent,
        fresh_clock g xpm answered sampled running enabled named fresh silent⟩
  offered ring p _ fresh standing := by
    have state : p.dut.regs.sm.sState = .awSend := of_decide_eq_true standing
    rcases fresh with standby | waiting | ⟨_, start, unmoved, none⟩
    · rw [state] at standby; cases standby
    · rw [state] at waiting; cases waiting
    · exact ⟨start, none, unmoved⟩
  unmoved p i _ _ silent unmoved := wrPtr_unmoved g xpm silent unmoved

/-- Within a session on a ring that has been taken. -/
def Within (base size : BitVec 32) (sm : SmRegisters) : Prop :=
  (sm.sState ≠ .standby ∧ sm.sState ≠ .waitOutstanding) ∧ sm.sBaseAddr = base ∧ sm.sBufSize = size

/-- The input of an enabled engine out of reset. -/
def Enabled (_ : Port Fifo) (i : Inputs) : Prop := i.iAresetn = true ∧ i.iEnable = true

theorem Moves.within {g : Generics} {progFull : Bool} {pending : BitVec 4} {i : Inputs}
    {sm sm' : SmRegisters} (moved : Moves g progFull pending i sm sm') (enabled : i.iEnable = true)
    {base size : BitVec 32} (within : Within base size sm) : Within base size sm' := by
  obtain ⟨⟨session, sending⟩, ring⟩ := within
  cases moved with
  | rests state _ => exact absurd state session
  | starts state _ => exact absurd state session
  | stops _ disabled => rw [enabled] at disabled; cases disabled
  | waits _ _ _ => exact ⟨⟨session, sending⟩, ring⟩
  | commits _ _ _ => exact ⟨by simp, ring⟩
  | offers _ _ => exact ⟨⟨session, sending⟩, ring⟩
  | addressed _ _ => exact ⟨by simp, ring⟩
  | stalls _ _ => exact ⟨⟨session, sending⟩, ring⟩
  | sends _ _ _ => exact ⟨⟨session, sending⟩, ring⟩
  | finishes next _ _ _ continued =>
    refine ⟨?_, ring⟩
    rw [continued]
    split <;> simp
  | drains state _ => exact absurd state sending
  | retires state _ => exact absurd state sending

/-- An enable that finds the writer within a session keeps it there, on the ring it has
taken, until it is low again. -/
theorem session_kept (p : Port Fifo) {base size : BitVec 32}
    (within : Within base size p.dut.regs.sm) (inputs : List Inputs)
    (high : Follows Enabled (Port.clock g xpm) p inputs) :
    Within base size (run (Port.clock g xpm) p inputs).dut.regs.sm := by
  have preserved (p : Port Fifo) (i : Inputs) (within : Within base size p.dut.regs.sm)
      (high : Enabled p i) : Within base size (p.clock g xpm i).dut.regs.sm :=
    (procSm_moves g (xpm.progFull p.dut.fifo) p.dut.regs.sPendingCnt i p.dut.regs.sm
      high.1).within high.2 within
  exact invariant preserved within inputs high

end Sessions

end Zyndra.AxiMasterWr

namespace Zyndra.AxiMasterRd

open Ad936xAxi EnablePulse Runs

section Sessions

variable {Fifo : Type} (g : Generics) (xpm : XpmFifoSync (BitVec 64) Fifo)

def Inputs.ring (i : Inputs) : RingRegisters := ⟨i.iBaseAddr, i.iBufSize⟩

/-- The address at offset 0 of the ring is the one that comes next, and the ring is the
one that the engine has taken. -/
structure AtStart (ring : RingRegisters) (r : Registers) : Prop where
  address : r.sArAddr = ring.base
  base : r.sBaseAddr = ring.base
  top : r.sTopAddr = ring.base + ring.size
  size : r.sBufSize = ring.size

/-- The reader as a machine whose sessions an enable begins. It has one burst under way
at a time, so none is before the one offered. -/
def sessions : Machine (Entity Fifo) Inputs RingRegisters where
  step := clock g xpm
  enable := Inputs.iEnable
  resource := Inputs.ring
  offers e := oArvalid e.regs
  unfinished _ := 0
  completes e i := oRready e.regs && i.iRvalid && i.iRlast
  first ring e := AtStart ring e.regs
  unmoved e := e.regs.sRdPtr = 0

/-- The engine leaves STANDBY on this clock, which is not one in reset. -/
def leaves (r : Registers) (i : Inputs) : Bool := begins r i && i.iAresetn

/-- An edge of the enable finds the reader in reset or in STANDBY. As it leaves STANDBY
the registers are those of the edge. -/
structure Sampled (w : Watch (Entity Fifo) RingRegisters) (i : Inputs) : Prop where
  edge : i.iAresetn = true → i.iEnable = true → w.enabled = false →
    w.state.regs.sState = .standby
  held : leaves w.state.regs i = true → w.enabled = true → w.due = none ∨ w.due = some i.ring

instance (w : Watch (Entity Fifo) RingRegisters) (i : Inputs) : Decidable (Sampled w i) :=
  decidable_of_iff
    ((i.iAresetn = true → i.iEnable = true → w.enabled = false →
        w.state.regs.sState = .standby) ∧
      (leaves w.state.regs i = true → w.enabled = true → w.due = none ∨ w.due = some i.ring))
    ⟨fun both => ⟨both.1, both.2⟩, fun sampled => ⟨sampled.edge, sampled.held⟩⟩

/-- A reader in STANDBY, or at the start of a session on the ring. -/
def FreshOn (ring : RingRegisters) (e : Entity Fifo) : Prop :=
  e.regs.sState = .standby ∨
    (e.regs.sState = .idle ∨ e.regs.sState = .arSend) ∧ AtStart ring e.regs ∧ e.regs.sRdPtr = 0

/-- Until a burst is complete the reported pointer stays or returns to 0. -/
theorem rdPtr_unmoved {e : Entity Fifo} {i : Inputs}
    (unfinished : (oRready e.regs && i.iRvalid && i.iRlast) = false)
    (unmoved : e.regs.sRdPtr = 0) : (clock g xpm e i).regs.sRdPtr = 0 := by
  change rdPtrProcess g e.regs i = 0
  have notLast : ¬ (e.regs.sState = .rRecv ∧ i.iRvalid = true ∧ i.iRlast = true) := by
    rintro ⟨state, valid, last⟩
    simp [oRready, state, valid, last] at unfinished
  simp only [rdPtrProcess, if_neg notLast, unmoved, ite_self]

/-- Leaving STANDBY, the reader takes the ring and its start. -/
theorem fresh_begins {e : Entity Fifo} {i : Inputs} (running : i.iAresetn = true)
    (enabled : i.iEnable = true) (standby : e.regs.sState = .standby) :
    FreshOn i.ring (clock g xpm e i) := by
  have next : procSm g e.regs i (xpm.progFull e.fifo) =
      { e.regs with
        sBaseAddr := i.iBaseAddr, sArAddr := i.iBaseAddr
        sTopAddr := i.iBaseAddr + i.iBufSize, sBufSize := i.iBufSize, sState := .idle } := by
    simp [procSm, running, standby, enabled]
  have returned : (clock g xpm e i).regs.sRdPtr = 0 := by
    simp [clock, rdPtrProcess, running, standby, enabled]
  refine .inr ⟨.inl ?_, ⟨?_, ?_, ?_, ?_⟩, returned⟩ <;> simp [clock, next, Inputs.ring]

/-- In IDLE it stays at the start of its session, or offers the first address. -/
theorem fresh_idles {e : Entity Fifo} {i : Inputs} (running : i.iAresetn = true)
    (enabled : i.iEnable = true) (state : e.regs.sState = .idle) {ring : RingRegisters}
    (start : AtStart ring e.regs) (unmoved : e.regs.sRdPtr = 0) :
    FreshOn ring (clock g xpm e i) := by
  have kept := rdPtr_unmoved g xpm (i := i) (by simp [oRready, state]) unmoved
  cases ready : (!xpm.progFull e.fifo && sHasBurst g e.regs i) with
  | false =>
    have next : procSm g e.regs i (xpm.progFull e.fifo) = e.regs := by
      simp [procSm, running, state, enabled, ready]
    refine .inr ⟨.inl ?_, ⟨?_, ?_, ?_, ?_⟩, kept⟩ <;>
      simp [clock, next, state, start.address, start.base, start.top, start.size]
  | true =>
    have next : procSm g e.regs i (xpm.progFull e.fifo) = { e.regs with sState := .arSend } := by
      simp [procSm, running, state, enabled, ready]
    refine .inr ⟨.inr ?_, ⟨?_, ?_, ?_, ?_⟩, kept⟩ <;>
      simp [clock, next, start.address, start.base, start.top, start.size]

/-- Out of reset, a reader that is fresh for the ring named stays so. -/
theorem fresh_clock {e : Entity Fifo} {i : Inputs} {ring : RingRegisters}
    (running : i.iAresetn = true) (enabled : i.iEnable = true)
    (named : leaves e.regs i = true → i.ring = ring) (fresh : FreshOn ring e)
    (silent : e.regs.sState ≠ .arSend) : FreshOn ring (clock g xpm e i) := by
  rcases fresh with standby | ⟨idle | offering, start, unmoved⟩
  · have leaving : leaves e.regs i = true := by simp [leaves, begins, standby, enabled, running]
    rw [← named leaving]
    exact fresh_begins g xpm running enabled standby
  · exact fresh_idles g xpm running enabled idle start unmoved
  · exact absurd offering silent

/-- What an edge that is sampled leads to. -/
theorem sessions_restart :
    (sessions g xpm).Restarts (fun _ _ => True) Sampled (fun _ => True) FreshOn where
  preserved _ _ _ _ := trivial
  due w i ring _ _ sampled due earlier := by
    obtain ⟨on, edge⟩ := Machine.dueNow_eq_some (sessions g xpm) |>.mp due
    have enabled : i.iEnable = true := on
    cases running : i.iAresetn with
    | false =>
      have standby : (clock g xpm w.state i).regs.sState = .standby := by
        rw [reset_clock g xpm w.state i running]
        rfl
      exact ⟨fun _ => decide_eq_false (by simp [sessions, standby]), .inl standby⟩
    | true =>
      have named : leaves w.state.regs i = true → i.ring = ring :=
        fun leaving => Machine.resource_now (sessions g xpm) due (sampled.held leaving)
      have place : w.state.regs.sState ≠ .arSend ∧ FreshOn ring w.state := by
        rcases edge with ⟨high, _⟩ | ⟨low, _⟩
        · obtain ⟨fresh, silent⟩ := earlier high
          exact ⟨of_decide_eq_false silent, fresh⟩
        · have standby := sampled.edge running enabled low
          exact ⟨by simp [standby], .inl standby⟩
      obtain ⟨silent, fresh⟩ := place
      exact ⟨fun standing => absurd (of_decide_eq_true standing) silent,
        fresh_clock g xpm running enabled named fresh silent⟩
  offered ring e _ fresh standing := by
    have state : e.regs.sState = .arSend := of_decide_eq_true standing
    rcases fresh with standby | ⟨_, start, unmoved⟩
    · rw [state] at standby; cases standby
    · exact ⟨start, rfl, unmoved⟩
  unmoved e i _ _ unfinished unmoved := rdPtr_unmoved g xpm unfinished unmoved

/-- Within a session on a ring that has been taken. -/
def Within (base size : BitVec 32) (r : Registers) : Prop :=
  r.sState ≠ .standby ∧ r.sBaseAddr = base ∧ r.sBufSize = size

/-- The input of an enabled engine out of reset. -/
def Enabled (_ : Entity Fifo) (i : Inputs) : Prop := i.iAresetn = true ∧ i.iEnable = true

theorem Moves.within {g : Generics} {progFull : Bool} {i : Inputs} {r r' : Registers}
    (moved : Moves g progFull i r r') (enabled : i.iEnable = true) {base size : BitVec 32}
    (within : Within base size r) : Within base size r' := by
  obtain ⟨session, ring⟩ := within
  cases moved with
  | rests _ state _ => exact absurd state session
  | starts _ state _ => exact absurd state session
  | stops _ _ disabled => rw [enabled] at disabled; cases disabled
  | waits _ _ _ => exact ⟨session, ring⟩
  | commits _ _ _ _ => exact ⟨by simp, ring⟩
  | offers _ _ _ => exact ⟨session, ring⟩
  | addressed _ _ _ => exact ⟨by simp, ring⟩
  | receives _ _ _ => exact ⟨session, ring⟩
  | finishes _ next _ _ _ continued =>
    refine ⟨?_, ring⟩
    rw [continued]
    split <;> simp

/-- An enable that finds the reader within a session keeps it there, on the ring it has
taken, until it is low again. -/
theorem session_kept (e : Entity Fifo) {base size : BitVec 32} (within : Within base size e.regs)
    (inputs : List Inputs) (high : Follows Enabled (clock g xpm) e inputs) :
    Within base size (run (clock g xpm) e inputs).regs := by
  have preserved (e : Entity Fifo) (i : Inputs) (within : Within base size e.regs)
      (high : Enabled e i) : Within base size (clock g xpm e i).regs :=
    (clock_moves g xpm e i high.1).within high.2 within
  exact invariant preserved within inputs high

end Sessions

end Zyndra.AxiMasterRd

namespace Zyndra.Ad936xAxi

open EnablePulse Runs

/-- Every edge of the enable that the engines sample restarts them, in every run out of
their reset. -/
theorem enable_edges_restart {WrFifo RdFifo : Type} (g : Generics)
    (wr : XpmFifoSync (BitVec 64) WrFifo) (rd : XpmFifoSync (BitVec 64) RdFifo)
    (sWrPtr sPrevTdata : BitVec 32) (wrFifo : WrFifo) (rdFifo : RdFifo)
    (inputs : List AxiMasterWr.Inputs) (readerInputs : List AxiMasterRd.Inputs)
    (sampled : Follows (fun w i => AxiMasterWr.Answered w.state i ∧ AxiMasterWr.Sampled w i)
      (AxiMasterWr.sessions g wr).observe (watch (AxiMasterWr.resetPort sWrPtr sPrevTdata wrFifo))
      inputs)
    (readerSampled : Follows (fun w i => True ∧ AxiMasterRd.Sampled w i)
      (AxiMasterRd.sessions g rd).observe (watch ⟨AxiMasterRd.resetRegisters, rdFifo⟩)
      readerInputs) :
    Always (Restarted (AxiMasterWr.sessions g wr)) (AxiMasterWr.sessions g wr).observe
        (watch (AxiMasterWr.resetPort sWrPtr sPrevTdata wrFifo)) inputs ∧
      Always (Restarted (AxiMasterRd.sessions g rd)) (AxiMasterRd.sessions g rd).observe
        (watch ⟨AxiMasterRd.resetRegisters, rdFifo⟩) readerInputs :=
  ⟨restarts_always (AxiMasterWr.sessions_restart g wr) trivial inputs sampled,
    restarts_always (AxiMasterRd.sessions_restart g rd) trivial readerInputs readerSampled⟩

/-- With the enable low for one clock during a burst, both engines go on behind it. -/
theorem enable_pulse_missed :
    Follows (fun w => AxiMasterWr.Answered (Watch.state w))
        (AxiMasterWr.sessions .ad936xAxi (AxiMasterWr.idealFifo .ad936xAxi)).observe
        (watch (AxiMasterWr.resetPort 0 0 []))
        (wrMidBurst 64 ++ [wrDisabled false false, AxiMasterWr.ports false true false false 0]) ∧
      ¬ Always (Restarted (AxiMasterWr.sessions .ad936xAxi (AxiMasterWr.idealFifo .ad936xAxi)))
        (AxiMasterWr.sessions .ad936xAxi (AxiMasterWr.idealFifo .ad936xAxi)).observe
        (watch (AxiMasterWr.resetPort 0 0 []))
        (wrMidBurst 64 ++ [wrDisabled false false, AxiMasterWr.ports false true false false 0]) ∧
      ¬ Always (Restarted (AxiMasterRd.sessions .ad936xAxi (AxiMasterRd.idealFifo .ad936xAxi)))
        (AxiMasterRd.sessions .ad936xAxi (AxiMasterRd.idealFifo .ad936xAxi)).observe
        (watch ⟨AxiMasterRd.resetRegisters, []⟩)
        (rdMidBurst ++ [rdDisabled false 128, AxiMasterRd.ports false true true false 0]) := by
  refine ⟨by decide +kernel, ?_, ?_⟩
  · intro always
    have elsewhere : ∃ f ∈ (run
        (AxiMasterWr.sessions .ad936xAxi (AxiMasterWr.idealFifo .ad936xAxi)).observe
        (watch (AxiMasterWr.resetPort 0 0 []))
        (wrMidBurst 64 ++ [wrDisabled false false,
          AxiMasterWr.ports false true false false 0])).firsts,
        f.2.dut.regs.sm.sAwAddr ≠ f.1.base := by decide +kernel
    obtain ⟨f, member, apart⟩ := elsewhere
    exact apart (always.last.first f member).address
  · intro always
    have elsewhere : ∃ f ∈ (run
        (AxiMasterRd.sessions .ad936xAxi (AxiMasterRd.idealFifo .ad936xAxi)).observe
        (watch ⟨AxiMasterRd.resetRegisters, []⟩)
        (rdMidBurst ++ [rdDisabled false 128,
          AxiMasterRd.ports false true true false 0])).firsts,
        f.2.regs.sArAddr ≠ f.1.base := by decide +kernel
    obtain ⟨f, member, apart⟩ := elsewhere
    exact apart (always.last.first f member).address

/-- With the enable low until both engines have stopped, a second session begins as the
first one did. -/
theorem enable_edges_sampled :
    Always (Restarted (AxiMasterWr.sessions .ad936xAxi (AxiMasterWr.idealFifo .ad936xAxi)))
        (AxiMasterWr.sessions .ad936xAxi (AxiMasterWr.idealFifo .ad936xAxi)).observe
        (watch (AxiMasterWr.resetPort 0 0 []))
        (wrMidBurst 32 ++ [wrDisabled true false, wrDisabled false true, wrDisabled false false] ++
          wrMidBurst 32) ∧
      Always (Restarted (AxiMasterRd.sessions .ad936xAxi (AxiMasterRd.idealFifo .ad936xAxi)))
        (AxiMasterRd.sessions .ad936xAxi (AxiMasterRd.idealFifo .ad936xAxi)).observe
        (watch ⟨AxiMasterRd.resetRegisters, []⟩)
        (rdMidBurst ++ [rdDisabled true 0, rdDisabled false 0] ++ rdMidBurst) :=
  enable_edges_restart .ad936xAxi (AxiMasterWr.idealFifo .ad936xAxi)
    (AxiMasterRd.idealFifo .ad936xAxi) 0 0 [] [] _ _ (by decide +kernel) (by decide +kernel)

end Zyndra.Ad936xAxi
