import Zyndra.CyclicRing
import Zyndra.FifoSync

/-!
# The AXI burst writer, clock by clock

`axi_master_wr` packs a stream of 32-bit words into bursts and writes them to a
ring in memory. As for the reader, signals keep their names and `clock` takes
one rising edge. The registers are grouped by the process that writes them: the
state machine has its own record, on which `Moves` lists what one edge can do
while the reset is released; the pending count, the reported pointer and the packing register
follow handshakes on the wires.

The reported pointer has no reset in the source. Its value before the first
session is left open, as is that of the packing register.
-/

namespace Zyndra.AxiMasterWr

open CyclicRing

inductive TState where
  | standby
  | idle
  | awSend
  | wSend
  | waitOutstanding
  deriving DecidableEq, Repr

/-- Input ports, sampled on a rising edge. -/
structure Inputs where
  iAresetn : Bool
  iEnable : Bool
  iBaseAddr : BitVec 32
  iBufSize : BitVec 32
  iAwready : Bool
  iWready : Bool
  iBvalid : Bool
  iTdata : BitVec 32
  iTvalid : Bool

/-- The registers written by the state machine process. -/
structure SmRegisters where
  sState : TState
  sBeatCnt : Nat
  sAwAddr : BitVec 32
  sBaseAddr : BitVec 32
  sTopAddr : BitVec 32
  sBufSize : BitVec 32
  deriving DecidableEq, Repr

structure Registers where
  sm : SmRegisters
  sWrPtr : BitVec 32
  sPendingCnt : BitVec 4
  sPrevTvalid : Bool
  sPrevTdata : BitVec 32
  deriving DecidableEq, Repr

/-- The entity: its own registers and the FIFO instance it contains. -/
structure Entity (Fifo : Type) where
  regs : Registers
  fifo : Fifo

def oAwvalid (sm : SmRegisters) : Bool := decide (sm.sState = .awSend)

/-- Write data is valid from the state alone. -/
def oWvalid (sm : SmRegisters) : Bool := decide (sm.sState = .wSend)

def oWlast (g : Generics) (sm : SmRegisters) : Bool :=
  decide (sm.sState = .wSend) && decide (sm.sBeatCnt = g.gBurstLen - 1)

def oBready : Bool := true

/-- The head word is given up for each beat the slave accepts. -/
def sFifoRd (sm : SmRegisters) (i : Inputs) : Bool := decide (sm.sState = .wSend) && i.iWready

section Streaming

variable {Fifo : Type} (xpm : XpmFifoSync (BitVec 64) Fifo)

/-- A first half is always taken in a session; a second one needs FIFO room. -/
def oTready (e : Entity Fifo) : Bool :=
  if e.regs.sm.sState = .standby then false
  else if !e.regs.sPrevTvalid then true
  else !xpm.full e.fifo && !xpm.wrRstBusy e.fifo

def sFifoWr (e : Entity Fifo) (i : Inputs) : Bool :=
  e.regs.sPrevTvalid && i.iTvalid && oTready xpm e

def oWdata (e : Entity Fifo) : BitVec 64 := xpm.dout e.fifo

/-- The packing process: the next `s_prev_tvalid` and `s_prev_tdata`. -/
def packProcess (e : Entity Fifo) (i : Inputs) : Bool × BitVec 32 :=
  if !i.iAresetn then (false, e.regs.sPrevTdata)
  else if i.iTvalid && oTready xpm e then
    if e.regs.sPrevTvalid then (false, e.regs.sPrevTdata) else (true, i.iTdata)
  else (e.regs.sPrevTvalid, e.regs.sPrevTdata)

/-- The first half of a word whose second half has not arrived. -/
def packed (sPrevTvalid : Bool) (sPrevTdata : BitVec 32) : List (BitVec 32) :=
  if sPrevTvalid then [sPrevTdata] else []

/-- The packing register between the stream and the FIFO, with any FIFO: the half
held, followed by the word accepted, is the word stored followed by the half held
afterwards. -/
theorem packProcess_conserves (e : Entity Fifo) (i : Inputs) (running : i.iAresetn = true) :
    (BoundedQueue.offered (sFifoWr xpm e i) (i.iTdata ++ e.regs.sPrevTdata)).flatMap halves ++
        packed (packProcess xpm e i).1 (packProcess xpm e i).2 =
      packed e.regs.sPrevTvalid e.regs.sPrevTdata ++
        BoundedQueue.offered (i.iTvalid && oTready xpm e) i.iTdata := by
  cases half : e.regs.sPrevTvalid <;> cases accepted : (i.iTvalid && oTready xpm e) <;>
    simp [BoundedQueue.offered, packed, packProcess, sFifoWr, running, half, accepted, halves_pack]

end Streaming

/-- The state machine process. It reads the pending count of the other process. -/
def procSm (g : Generics) (sm : SmRegisters) (sPendingCnt : BitVec 4) (i : Inputs)
    (sFifoProgFull : Bool) : SmRegisters :=
  let next : SmRegisters := match sm.sState with
    | .standby =>
      if i.iEnable then
        { sm with
          sBaseAddr := i.iBaseAddr
          sAwAddr := i.iBaseAddr
          sTopAddr := i.iBaseAddr + i.iBufSize
          sBufSize := i.iBufSize
          sState := .idle }
      else sm
    | .idle =>
      if !i.iEnable then { sm with sState := .waitOutstanding }
      else if sFifoProgFull then { sm with sState := .awSend }
      else sm
    | .awSend =>
      if i.iAwready then
        { sm with sBeatCnt := 0, sState := .wSend, sAwAddr := sm.sAwAddr + g.cBurstBytes }
      else sm
    | .wSend =>
      if i.iWready then
        if sm.sBeatCnt = g.gBurstLen - 1 then
          { sm with
            sAwAddr := if sm.sTopAddr ≤ sm.sAwAddr then sm.sBaseAddr else sm.sAwAddr
            sState := if sFifoProgFull then .awSend else .idle }
        else { sm with sBeatCnt := sm.sBeatCnt + 1 }
      else sm
    | .waitOutstanding =>
      if sPendingCnt = 0 then { sm with sState := .standby } else sm
  if !i.iAresetn then
    { sState := .standby
      sBeatCnt := 0
      sAwAddr := 0
      sBaseAddr := 0
      sBufSize := 0
      sTopAddr := 0 }
  else next

/-- The pending process, first part: the next `s_pending_cnt`. -/
def pendingProcess (r : Registers) (i : Inputs) : BitVec 4 :=
  let vReq := oAwvalid r.sm && i.iAwready
  let vRsp := i.iBvalid && oBready
  if !i.iAresetn then 0
  else if vReq && !vRsp then r.sPendingCnt + 1
  else if !vReq && vRsp then r.sPendingCnt - 1
  else r.sPendingCnt

/-- The pending process, second part: the next `s_wr_ptr`, which the reset does
not touch. -/
def wrPtrProcess (g : Generics) (r : Registers) (i : Inputs) : BitVec 32 :=
  if r.sm.sState = .standby ∧ i.iEnable = true then 0
  else if i.iBvalid && oBready then wrapNext r.sm.sBufSize r.sWrPtr g.cBurstBytes
  else r.sWrPtr

/-- The ideal FIFO with the writer's depth and threshold. -/
def idealFifo (g : Generics) : XpmFifoSync (BitVec 64) (List (BitVec 64)) :=
  XpmFifoSync.ideal g.cFifoDepth g.gBurstLen 0

section Clock

variable {Fifo : Type} (g : Generics) (xpm : XpmFifoSync (BitVec 64) Fifo)

/-- One rising edge of the whole entity. -/
def clock (e : Entity Fifo) (i : Inputs) : Entity Fifo where
  regs :=
    { sm := procSm g e.regs.sm e.regs.sPendingCnt i (xpm.progFull e.fifo)
      sWrPtr := wrPtrProcess g e.regs i
      sPendingCnt := pendingProcess e.regs i
      sPrevTvalid := (packProcess xpm e i).1
      sPrevTdata := (packProcess xpm e i).2 }
  fifo := xpm.clock e.fifo (!i.iAresetn) (sFifoWr xpm e i) (i.iTdata ++ e.regs.sPrevTdata)
    (sFifoRd e.regs.sm i)

/-- The state machine's registers after a reset. -/
def resetSm : SmRegisters where
  sState := .standby
  sBeatCnt := 0
  sAwAddr := 0
  sBaseAddr := 0
  sTopAddr := 0
  sBufSize := 0

/-- The registers after a reset; the pointer and the packed half are whatever
they were. -/
def resetRegisters (sWrPtr sPrevTdata : BitVec 32) : Registers where
  sm := resetSm
  sWrPtr := sWrPtr
  sPendingCnt := 0
  sPrevTvalid := false
  sPrevTdata := sPrevTdata

/-- One idle clock in reset gives the reset registers, from any state. -/
theorem reset_clock (e : Entity Fifo) (i : Inputs) (inReset : i.iAresetn = false)
    (noResponse : i.iBvalid = false) (noBegin : i.iEnable = false) :
    (clock g xpm e i).regs = resetRegisters e.regs.sWrPtr e.regs.sPrevTdata := by
  simp [clock, procSm, pendingProcess, wrPtrProcess, packProcess, inReset, noResponse, noBegin,
    resetRegisters, resetSm]

/-- What one edge out of reset can do to the state machine's registers. -/
inductive Moves (g : Generics) (progFull : Bool) (pending : BitVec 4) (i : Inputs)
    (sm : SmRegisters) : SmRegisters → Prop where
  | rests (state : sm.sState = .standby) (disabled : i.iEnable = false) :
      Moves g progFull pending i sm sm
  | starts (state : sm.sState = .standby) (enabled : i.iEnable = true) :
      Moves g progFull pending i sm
        { sm with
          sBaseAddr := i.iBaseAddr, sAwAddr := i.iBaseAddr
          sTopAddr := i.iBaseAddr + i.iBufSize, sBufSize := i.iBufSize, sState := .idle }
  | stops (state : sm.sState = .idle) (disabled : i.iEnable = false) :
      Moves g progFull pending i sm { sm with sState := .waitOutstanding }
  | waits (state : sm.sState = .idle) (enabled : i.iEnable = true) (short : progFull = false) :
      Moves g progFull pending i sm sm
  | commits (state : sm.sState = .idle) (enabled : i.iEnable = true) (stocked : progFull = true) :
      Moves g progFull pending i sm { sm with sState := .awSend }
  | offers (state : sm.sState = .awSend) (refused : i.iAwready = false) :
      Moves g progFull pending i sm sm
  | addressed (state : sm.sState = .awSend) (accepted : i.iAwready = true) :
      Moves g progFull pending i sm
        { sm with sBeatCnt := 0, sState := .wSend, sAwAddr := sm.sAwAddr + g.cBurstBytes }
  | stalls (state : sm.sState = .wSend) (refused : i.iWready = false) :
      Moves g progFull pending i sm sm
  | sends (state : sm.sState = .wSend) (accepted : i.iWready = true)
      (more : sm.sBeatCnt ≠ g.gBurstLen - 1) :
      Moves g progFull pending i sm { sm with sBeatCnt := sm.sBeatCnt + 1 }
  | finishes (next : TState) (state : sm.sState = .wSend) (accepted : i.iWready = true)
      (last : sm.sBeatCnt = g.gBurstLen - 1)
      (continued : next = if progFull then .awSend else .idle) :
      Moves g progFull pending i sm
        { sm with
          sAwAddr := if sm.sTopAddr ≤ sm.sAwAddr then sm.sBaseAddr else sm.sAwAddr
          sState := next }
  | drains (state : sm.sState = .waitOutstanding) (outstanding : pending ≠ 0) :
      Moves g progFull pending i sm sm
  | retires (state : sm.sState = .waitOutstanding) (settled : pending = 0) :
      Moves g progFull pending i sm { sm with sState := .standby }

/-- Every edge out of reset is one of the listed moves. -/
theorem procSm_moves (progFull : Bool) (pending : BitVec 4) (i : Inputs) (sm : SmRegisters)
    (running : i.iAresetn = true) :
    Moves g progFull pending i sm (procSm g sm pending i progFull) := by
  cases state : sm.sState with
  | standby =>
    cases enable : i.iEnable with
    | false =>
      have same : procSm g sm pending i progFull = sm := by simp [procSm, running, state, enable]
      rw [same]
      exact .rests state enable
    | true =>
      simp only [procSm, running, state, enable, Bool.not_true, Bool.false_eq_true, if_false,
        if_true]
      exact .starts state enable
  | idle =>
    cases enable : i.iEnable with
    | false =>
      simp only [procSm, running, state, enable, Bool.not_true, Bool.not_false, Bool.false_eq_true,
        if_false, if_true]
      exact .stops state enable
    | true =>
      cases stocked : progFull with
      | false =>
        have same : procSm g sm pending i false = sm := by simp [procSm, running, state, enable]
        rw [same]
        exact .waits state enable rfl
      | true =>
        simp only [procSm, running, state, enable, Bool.not_true, Bool.false_eq_true, if_false,
          if_true]
        exact .commits state enable rfl
  | awSend =>
    cases accepted : i.iAwready with
    | false =>
      have same : procSm g sm pending i progFull = sm := by simp [procSm, running, state, accepted]
      rw [same]
      exact .offers state accepted
    | true =>
      simp only [procSm, running, state, accepted, Bool.not_true, Bool.false_eq_true, if_false,
        if_true]
      exact .addressed state accepted
  | wSend =>
    cases accepted : i.iWready with
    | false =>
      have same : procSm g sm pending i progFull = sm := by simp [procSm, running, state, accepted]
      rw [same]
      exact .stalls state accepted
    | true =>
      by_cases last : sm.sBeatCnt = g.gBurstLen - 1
      · simp only [procSm, running, state, accepted, Bool.not_true, Bool.false_eq_true, if_false,
          if_true, if_pos last]
        exact .finishes _ state accepted last rfl
      · have same : procSm g sm pending i progFull = { sm with sBeatCnt := sm.sBeatCnt + 1 } := by
          simp [procSm, running, state, accepted, last]
        rw [same]
        exact .sends state accepted last
  | waitOutstanding =>
    by_cases settled : pending = 0
    · simp only [procSm, running, state, Bool.not_true, Bool.false_eq_true, if_false,
        if_pos settled]
      exact .retires state settled
    · simp only [procSm, running, state, Bool.not_true, Bool.false_eq_true, if_false,
        if_neg settled]
      exact .drains state settled

end Clock

end Zyndra.AxiMasterWr
