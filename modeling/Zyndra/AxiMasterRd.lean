import Zyndra.CyclicRing
import Zyndra.FifoSync

/-!
# The AXI burst reader, clock by clock

`axi_master_rd` fetches bursts from a ring in memory and streams them out as
32-bit words. Every signal keeps its name in the source; `clock` takes one rising edge, on
which each process reads the registers as they were before it. Bits are
Booleans, vectors are bit vectors and arithmetic wraps at 32 bits as it does in
hardware. The response code and the fixed burst attributes are not read by
anything modelled and are left out.

Several processes write disjoint registers. `Moves` lists what one edge can do
to them while the reset is released; invariants are derived from that list
rather than from the processes.
-/

namespace Zyndra.AxiMasterRd

open CyclicRing

inductive TState where
  | standby
  | idle
  | arSend
  | rRecv
  deriving DecidableEq, Repr

/-- Input ports, sampled on a rising edge. -/
structure Inputs where
  iAresetn : Bool
  iEnable : Bool
  iBaseAddr : BitVec 32
  iBufSize : BitVec 32
  iWrPtr : BitVec 32
  iArready : Bool
  iRdata : BitVec 64
  iRlast : Bool
  iRvalid : Bool
  iTready : Bool

structure Registers where
  sState : TState
  sRdPtr : BitVec 32
  sArAddr : BitVec 32
  sBaseAddr : BitVec 32
  sTopAddr : BitVec 32
  sBufSize : BitVec 32
  sUnpackHi : Bool
  deriving DecidableEq, Repr

/-- The entity: its own registers and the FIFO instance it contains. -/
structure Entity (Fifo : Type) where
  regs : Registers
  fifo : Fifo

/-- The address channel is offered exactly in the send state. -/
def oArvalid (r : Registers) : Bool := decide (r.sState = .arSend)

/-- Read data is accepted while a burst is received, whatever the FIFO says. -/
def oRready (r : Registers) : Bool := decide (r.sState = .rRecv)

def sFifoWr (r : Registers) (i : Inputs) : Bool := i.iRvalid && oRready r

/-- Distance from the read pointer forward to the software write pointer. -/
def sDataAvail (r : Registers) (i : Inputs) : BitVec 32 :=
  cyclicDistance r.sBufSize r.sRdPtr i.iWrPtr

def sHasBurst (g : Generics) (r : Registers) (i : Inputs) : Bool :=
  decide (g.cBurstBytes ≤ sDataAvail r i)

section Streaming

variable {Fifo : Type} (xpm : XpmFifoSync (BitVec 64) Fifo)

/-- The low half of the head word goes first. -/
def oTdata (e : Entity Fifo) : BitVec 32 :=
  if e.regs.sUnpackHi then (xpm.dout e.fifo).extractLsb' 32 32
  else (xpm.dout e.fifo).extractLsb' 0 32

def oTvalid (e : Entity Fifo) : Bool := !xpm.empty e.fifo

/-- The head word is given up with its high half. -/
def sFifoRd (e : Entity Fifo) (i : Inputs) : Bool :=
  !xpm.empty e.fifo && i.iTready && e.regs.sUnpackHi

/-- The half toggle: the next value of `s_unpack_hi`. -/
def unpackProcess (e : Entity Fifo) (i : Inputs) : Bool :=
  if !i.iAresetn then false
  else if !xpm.empty e.fifo && i.iTready then !e.regs.sUnpackHi
  else e.regs.sUnpackHi

end Streaming

/-- The state machine process. It reads `s_rd_ptr` as it was before the edge,
also on the edge on which the read pointer process advances it. -/
def procSm (g : Generics) (r : Registers) (i : Inputs) (sFifoProgFull : Bool) : Registers :=
  let next : Registers := match r.sState with
    | .standby =>
      if i.iEnable then
        { r with
          sBaseAddr := i.iBaseAddr
          sArAddr := i.iBaseAddr
          sTopAddr := i.iBaseAddr + i.iBufSize
          sBufSize := i.iBufSize
          sState := .idle }
      else r
    | .idle =>
      if !i.iEnable then { r with sState := .standby }
      else if !sFifoProgFull && sHasBurst g r i then { r with sState := .arSend }
      else r
    | .arSend =>
      if i.iArready then { r with sState := .rRecv, sArAddr := r.sArAddr + g.cBurstBytes }
      else r
    | .rRecv =>
      if i.iRvalid && i.iRlast then
        { r with
          sArAddr := if r.sTopAddr ≤ r.sArAddr then r.sBaseAddr else r.sArAddr
          sState := if !sFifoProgFull && sHasBurst g r i then .arSend else .idle }
      else r
  if !i.iAresetn then
    { next with
      sState := .standby
      sArAddr := 0
      sBaseAddr := 0
      sBufSize := 0
      sTopAddr := 0 }
  else next

/-- The read pointer process: the next value of `s_rd_ptr`. -/
def rdPtrProcess (g : Generics) (r : Registers) (i : Inputs) : BitVec 32 :=
  if !i.iAresetn then 0
  else if r.sState = .standby ∧ i.iEnable = true then 0
  else if r.sState = .rRecv ∧ i.iRvalid = true ∧ i.iRlast = true then
    wrapNext r.sBufSize r.sRdPtr g.cBurstBytes
  else r.sRdPtr

/-- The ideal FIFO with the reader's depth and threshold. -/
def idealFifo (g : Generics) : XpmFifoSync (BitVec 64) (List (BitVec 64)) :=
  XpmFifoSync.ideal g.cFifoDepth (3 * g.gBurstLen) 0

section Clock

variable {Fifo : Type} (g : Generics) (xpm : XpmFifoSync (BitVec 64) Fifo)

/-- One rising edge of the whole entity. -/
def clock (e : Entity Fifo) (i : Inputs) : Entity Fifo where
  regs :=
    { procSm g e.regs i (xpm.progFull e.fifo) with
      sUnpackHi := unpackProcess xpm e i
      sRdPtr := rdPtrProcess g e.regs i }
  fifo := xpm.clock e.fifo (!i.iAresetn) (sFifoWr e.regs i) i.iRdata (sFifoRd xpm e i)

/-- The registers after a reset. -/
def resetRegisters : Registers where
  sState := .standby
  sRdPtr := 0
  sArAddr := 0
  sBaseAddr := 0
  sTopAddr := 0
  sBufSize := 0
  sUnpackHi := false

/-- One clock in reset gives the reset registers, from any state and inputs. -/
theorem reset_clock (e : Entity Fifo) (i : Inputs) (inReset : i.iAresetn = false) :
    (clock g xpm e i).regs = resetRegisters := by
  simp [clock, procSm, rdPtrProcess, unpackProcess, inReset, resetRegisters]

/-- What one edge out of reset can do to the registers. The half toggle `hi` is
free here; it touches nothing that the addresses and pointers depend on. -/
inductive Moves (g : Generics) (progFull : Bool) (i : Inputs) (r : Registers) :
    Registers → Prop where
  | rests (hi : Bool) (state : r.sState = .standby) (disabled : i.iEnable = false) :
      Moves g progFull i r { r with sUnpackHi := hi }
  | starts (hi : Bool) (state : r.sState = .standby) (enabled : i.iEnable = true) :
      Moves g progFull i r
        { sState := .idle, sRdPtr := 0, sArAddr := i.iBaseAddr, sBaseAddr := i.iBaseAddr
          sTopAddr := i.iBaseAddr + i.iBufSize, sBufSize := i.iBufSize, sUnpackHi := hi }
  | stops (hi : Bool) (state : r.sState = .idle) (disabled : i.iEnable = false) :
      Moves g progFull i r { r with sState := .standby, sUnpackHi := hi }
  | waits (hi : Bool) (state : r.sState = .idle)
      (blocked : progFull = true ∨ sHasBurst g r i = false) :
      Moves g progFull i r { r with sUnpackHi := hi }
  | commits (hi : Bool) (state : r.sState = .idle) (room : progFull = false)
      (available : sHasBurst g r i = true) :
      Moves g progFull i r { r with sState := .arSend, sUnpackHi := hi }
  | offers (hi : Bool) (state : r.sState = .arSend) (refused : i.iArready = false) :
      Moves g progFull i r { r with sUnpackHi := hi }
  | addressed (hi : Bool) (state : r.sState = .arSend) (accepted : i.iArready = true) :
      Moves g progFull i r
        { r with sState := .rRecv, sArAddr := r.sArAddr + g.cBurstBytes, sUnpackHi := hi }
  | receives (hi : Bool) (state : r.sState = .rRecv)
      (unfinished : (i.iRvalid && i.iRlast) = false) :
      Moves g progFull i r { r with sUnpackHi := hi }
  | finishes (hi : Bool) (next : TState) (state : r.sState = .rRecv) (valid : i.iRvalid = true)
      (last : i.iRlast = true)
      (continued : next = if !progFull && sHasBurst g r i then .arSend else .idle) :
      Moves g progFull i r
        { r with
          sState := next
          sRdPtr := wrapNext r.sBufSize r.sRdPtr g.cBurstBytes
          sArAddr := if r.sTopAddr ≤ r.sArAddr then r.sBaseAddr else r.sArAddr
          sUnpackHi := hi }

/-- Every edge out of reset is one of the listed moves. -/
theorem clock_moves (e : Entity Fifo) (i : Inputs) (running : i.iAresetn = true) :
    Moves g (xpm.progFull e.fifo) i e.regs (clock g xpm e i).regs := by
  let hi : Bool := unpackProcess xpm e i
  cases state : e.regs.sState with
  | standby =>
    cases enable : i.iEnable with
    | false =>
      have same : (clock g xpm e i).regs = { e.regs with sUnpackHi := hi } := by
        simp [clock, procSm, rdPtrProcess, running, state, enable, hi]
      rw [same]
      exact .rests hi state enable
    | true =>
      have same : (clock g xpm e i).regs =
          { sState := .idle, sRdPtr := 0, sArAddr := i.iBaseAddr, sBaseAddr := i.iBaseAddr
            sTopAddr := i.iBaseAddr + i.iBufSize, sBufSize := i.iBufSize, sUnpackHi := hi } := by
        simp [clock, procSm, rdPtrProcess, running, state, enable, hi]
      rw [same]
      exact .starts hi state enable
  | idle =>
    cases enable : i.iEnable with
    | false =>
      have same : (clock g xpm e i).regs =
          { e.regs with sState := .standby, sUnpackHi := hi } := by
        simp [clock, procSm, rdPtrProcess, running, state, enable, hi]
      rw [same]
      exact .stops hi state enable
    | true =>
      cases ready : (!xpm.progFull e.fifo && sHasBurst g e.regs i) with
      | false =>
        have same : (clock g xpm e i).regs = { e.regs with sUnpackHi := hi } := by
          simp [clock, procSm, rdPtrProcess, running, state, enable, ready, hi]
        have blocked : xpm.progFull e.fifo = true ∨ sHasBurst g e.regs i = false := by
          simpa only [Bool.and_eq_false_iff, Bool.not_eq_false'] using ready
        rw [same]
        exact .waits hi state blocked
      | true =>
        have same : (clock g xpm e i).regs =
            { e.regs with sState := .arSend, sUnpackHi := hi } := by
          simp [clock, procSm, rdPtrProcess, running, state, enable, ready, hi]
        obtain ⟨room, available⟩ : xpm.progFull e.fifo = false ∧ sHasBurst g e.regs i = true := by
          simpa only [Bool.and_eq_true, Bool.not_eq_true'] using ready
        rw [same]
        exact .commits hi state room available
  | arSend =>
    cases accepted : i.iArready with
    | false =>
      have same : (clock g xpm e i).regs = { e.regs with sUnpackHi := hi } := by
        simp [clock, procSm, rdPtrProcess, running, state, accepted, hi]
      rw [same]
      exact .offers hi state accepted
    | true =>
      have same : (clock g xpm e i).regs =
          { e.regs with
            sState := .rRecv, sArAddr := e.regs.sArAddr + g.cBurstBytes, sUnpackHi := hi } := by
        simp [clock, procSm, rdPtrProcess, running, state, accepted, hi]
      rw [same]
      exact .addressed hi state accepted
  | rRecv =>
    cases finished : (i.iRvalid && i.iRlast) with
    | false =>
      have notLast : ¬ (i.iRvalid = true ∧ i.iRlast = true) := by
        rw [← Bool.and_eq_true, finished]
        decide
      have same : (clock g xpm e i).regs = { e.regs with sUnpackHi := hi } := by
        simp [clock, procSm, rdPtrProcess, running, state, finished, notLast, hi]
      rw [same]
      exact .receives hi state finished
    | true =>
      obtain ⟨valid, last⟩ : i.iRvalid = true ∧ i.iRlast = true := by
        simpa only [Bool.and_eq_true] using finished
      have same : (clock g xpm e i).regs =
          { e.regs with
            sState := if !xpm.progFull e.fifo && sHasBurst g e.regs i then .arSend else .idle
            sRdPtr := wrapNext e.regs.sBufSize e.regs.sRdPtr g.cBurstBytes
            sArAddr := if e.regs.sTopAddr ≤ e.regs.sArAddr then e.regs.sBaseAddr
              else e.regs.sArAddr
            sUnpackHi := hi } := by
        simp [clock, procSm, rdPtrProcess, running, state, valid, last, hi]
      rw [same]
      exact .finishes hi _ state valid last rfl

end Clock

end Zyndra.AxiMasterRd
