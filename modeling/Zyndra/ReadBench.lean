import Zyndra.AxiMasterRd
import Zyndra.Runs

/-!
# The reader on a memory port, with a scoreboard

The bench puts `axi_master_rd` between a memory slave and a stream sink and counts
what passes on the wires: beats the slave still owes, bursts and beats of the
session, every beat received and every word sent on. A session begins on the
clock on which the engine leaves STANDBY; the ring presented on that clock is
noted by the observer, independently of the registers that latch it. The
scoreboard only watches: no signal of the engine depends on it.

The slave returns exactly one burst of beats for each accepted address, the last
one marked, with any timing. Every other input is unconstrained.
-/

namespace Zyndra.AxiMasterRd

open CyclicRing

/-- What the observer counts on the memory port. -/
structure Tally where
  /-- Beats still to be returned for the accepted address. -/
  owed : Nat
  /-- Bursts received completely since the session began. -/
  bursts : Nat
  /-- Beats received since the session began. -/
  fetched : Nat
  /-- Base and size presented when the session began. -/
  base : BitVec 32
  size : BitVec 32

structure Bench (Fifo : Type) where
  dut : Entity Fifo
  tally : Tally
  /-- All beats received and all words sent since the reset. -/
  beats : List (BitVec 64)
  words : List (BitVec 32)

section Bench

variable {Fifo : Type} (g : Generics) (xpm : XpmFifoSync (BitVec 64) Fifo)

/-- The engine leaves STANDBY on this clock. -/
def begins (r : Registers) (i : Inputs) : Bool := decide (r.sState = .standby) && i.iEnable

def arHandshake (r : Registers) (i : Inputs) : Bool := oArvalid r && i.iArready

def rHandshake (r : Registers) (i : Inputs) : Bool := i.iRvalid && oRready r

section Wires

variable {r : Registers} {i : Inputs}

/-- A session begins from STANDBY only. -/
theorem begins_active (active : r.sState ≠ .standby) : begins r i = false := by
  simp [begins, active]

/-- An address passes in AR_SEND only. -/
theorem arHandshake_elsewhere (other : r.sState ≠ .arSend) : arHandshake r i = false := by
  simp [arHandshake, oArvalid, other]

/-- A beat passes in R_RECV only. -/
theorem rHandshake_elsewhere (other : r.sState ≠ .rRecv) : rHandshake r i = false := by
  simp [rHandshake, oRready, other]

/-- The last beat of a burst leaves R_RECV for a state of the same session. -/
theorem chained_elsewhere {next : TState} {chained : Bool}
    (continued : next = if chained then .arSend else .idle) :
    next ≠ .rRecv ∧ next ≠ .standby := by
  rw [continued]
  split <;> simp

end Wires

/-- The tally after a clock that finds the given registers and inputs. -/
def Tally.count (t : Tally) (r : Registers) (i : Inputs) : Tally where
  owed := t.owed + (if arHandshake r i then g.gBurstLen else 0) - (rHandshake r i).toNat
  bursts := if begins r i then 0 else t.bursts + (rHandshake r i && i.iRlast).toNat
  fetched := if begins r i then 0 else t.fetched + (rHandshake r i).toNat
  base := if begins r i then i.iBaseAddr else t.base
  size := if begins r i then i.iBufSize else t.size

/-- One clock of the engine, with the scoreboard brought up to date. -/
def observe (b : Bench Fifo) (i : Inputs) : Bench Fifo where
  dut := clock g xpm b.dut i
  tally := b.tally.count g b.dut.regs i
  beats := b.beats ++ (if rHandshake b.dut.regs i then [i.iRdata] else [])
  words := b.words ++ (if oTvalid xpm b.dut && i.iTready then [oTdata xpm b.dut] else [])

/-- The bench out of reset, with nothing counted yet. -/
def resetBench (fifo : Fifo) : Bench Fifo where
  dut := ⟨resetRegisters, fifo⟩
  tally := ⟨0, 0, 0, 0, 0⟩
  beats := []
  words := []

/-- No soft reset, and read data only for an accepted address, the last beat of
the burst and no other marked as last. -/
def SlaveRule (b : Bench Fifo) (i : Inputs) : Prop :=
  i.iAresetn = true ∧ (i.iRvalid = true → 0 < b.tally.owed ∧ (i.iRlast = true ↔ b.tally.owed = 1))

instance (b : Bench Fifo) (i : Inputs) : Decidable (SlaveRule b i) :=
  inferInstanceAs (Decidable (_ ∧ _))

/-- What one clock under the slave's rule does to the registers and the tally.
All clocks on which nothing passes on the memory port and the state machine
stays where it is are one case. -/
inductive Advances (g : Generics) (progFull : Bool) (i : Inputs) (r : Registers) (t : Tally) :
    Registers → Tally → Prop where
  | quiet (hi : Bool) (noBegin : begins r i = false) (noData : rHandshake r i = false) :
      Advances g progFull i r t { r with sUnpackHi := hi } t
  | starts (hi : Bool) (state : r.sState = .standby) (enabled : i.iEnable = true) :
      Advances g progFull i r t
        { sState := .idle, sRdPtr := 0, sArAddr := i.iBaseAddr, sBaseAddr := i.iBaseAddr
          sTopAddr := i.iBaseAddr + i.iBufSize, sBufSize := i.iBufSize, sUnpackHi := hi }
        { owed := t.owed, bursts := 0, fetched := 0, base := i.iBaseAddr, size := i.iBufSize }
  | stops (hi : Bool) (state : r.sState = .idle) (disabled : i.iEnable = false) :
      Advances g progFull i r t { r with sState := .standby, sUnpackHi := hi } t
  | commits (hi : Bool) (state : r.sState = .idle) (room : progFull = false)
      (available : sHasBurst g r i = true) :
      Advances g progFull i r t { r with sState := .arSend, sUnpackHi := hi } t
  | addressed (hi : Bool) (state : r.sState = .arSend) (accepted : i.iArready = true) :
      Advances g progFull i r t
        { r with sState := .rRecv, sArAddr := r.sArAddr + g.cBurstBytes, sUnpackHi := hi }
        { t with owed := t.owed + g.gBurstLen }
  | receives (hi : Bool) (state : r.sState = .rRecv) (valid : i.iRvalid = true)
      (more : 1 < t.owed) :
      Advances g progFull i r t { r with sUnpackHi := hi }
        { t with owed := t.owed - 1, fetched := t.fetched + 1 }
  | finishes (hi : Bool) (next : TState) (state : r.sState = .rRecv) (valid : i.iRvalid = true)
      (last : i.iRlast = true) (final : t.owed = 1)
      (continued : next = if !progFull && sHasBurst g r i then .arSend else .idle) :
      Advances g progFull i r t
        { r with
          sState := next
          sRdPtr := wrapNext r.sBufSize r.sRdPtr g.cBurstBytes
          sArAddr := if r.sTopAddr ≤ r.sArAddr then r.sBaseAddr else r.sArAddr
          sUnpackHi := hi }
        { t with owed := 0, bursts := t.bursts + 1, fetched := t.fetched + 1 }

/-- A clock without a handshake and without a new session leaves the tally. -/
theorem Tally.count_quiet (t : Tally) (r : Registers) (i : Inputs) (noBegin : begins r i = false)
    (noAddress : arHandshake r i = false) (noData : rHandshake r i = false) : t.count g r i = t := by
  simp [Tally.count, noBegin, noAddress, noData]

/-- Every clock under the slave's rule is one of the listed advances. -/
theorem observe_advances (b : Bench Fifo) (i : Inputs) (rule : SlaveRule b i) :
    Advances g (xpm.progFull b.dut.fifo) i b.dut.regs b.tally
      (observe g xpm b i).dut.regs (observe g xpm b i).tally := by
  obtain ⟨running, data⟩ := rule
  have moved := clock_moves g xpm b.dut i running
  change Advances g _ i b.dut.regs b.tally (clock g xpm b.dut i).regs
    (b.tally.count g b.dut.regs i)
  generalize (clock g xpm b.dut i).regs = after at moved
  -- Outside STANDBY, AR_SEND and R_RECV nothing is counted.
  have noBegin : b.dut.regs.sState ≠ .standby → begins b.dut.regs i = false := begins_active
  have noAddress : b.dut.regs.sState ≠ .arSend → arHandshake b.dut.regs i = false :=
    arHandshake_elsewhere
  have noData : b.dut.regs.sState ≠ .rRecv → rHandshake b.dut.regs i = false := rHandshake_elsewhere
  cases moved with
  | rests hi state disabled =>
    have none : begins b.dut.regs i = false := by simp [begins, disabled]
    rw [Tally.count_quiet g _ _ _ none (noAddress (by simp [state])) (noData (by simp [state]))]
    exact .quiet hi none (noData (by simp [state]))
  | starts hi state enabled =>
    have counted : b.tally.count g b.dut.regs i =
        { owed := b.tally.owed, bursts := 0, fetched := 0
          base := i.iBaseAddr, size := i.iBufSize } := by
      simp [Tally.count, begins, arHandshake, rHandshake, oArvalid, oRready, state, enabled]
    rw [counted]
    exact .starts hi state enabled
  | stops hi state disabled =>
    rw [Tally.count_quiet g _ _ _ (noBegin (by simp [state])) (noAddress (by simp [state]))
      (noData (by simp [state]))]
    exact .stops hi state disabled
  | waits hi state blocked =>
    rw [Tally.count_quiet g _ _ _ (noBegin (by simp [state])) (noAddress (by simp [state]))
      (noData (by simp [state]))]
    exact .quiet hi (noBegin (by simp [state])) (noData (by simp [state]))
  | commits hi state room available =>
    rw [Tally.count_quiet g _ _ _ (noBegin (by simp [state])) (noAddress (by simp [state]))
      (noData (by simp [state]))]
    exact .commits hi state room available
  | offers hi state refused =>
    have none : arHandshake b.dut.regs i = false := by simp [arHandshake, refused]
    rw [Tally.count_quiet g _ _ _ (noBegin (by simp [state])) none (noData (by simp [state]))]
    exact .quiet hi (noBegin (by simp [state])) (noData (by simp [state]))
  | addressed hi state accepted =>
    have counted : b.tally.count g b.dut.regs i =
        { b.tally with owed := b.tally.owed + g.gBurstLen } := by
      simp [Tally.count, begins, arHandshake, rHandshake, oArvalid, oRready, state, accepted]
    rw [counted]
    exact .addressed hi state accepted
  | receives hi state unfinished =>
    cases valid : i.iRvalid with
    | false =>
      have none : rHandshake b.dut.regs i = false := by simp [rHandshake, valid]
      rw [Tally.count_quiet g _ _ _ (noBegin (by simp [state])) (noAddress (by simp [state])) none]
      exact .quiet hi (noBegin (by simp [state])) none
    | true =>
      have notLast : i.iRlast = false := by simpa [valid] using unfinished
      obtain ⟨some, marked⟩ := data valid
      have notFinal : b.tally.owed ≠ 1 := by
        intro final
        have last := marked.mpr final
        simp [notLast] at last
      have more : 1 < b.tally.owed := by omega
      have counted : b.tally.count g b.dut.regs i =
          { b.tally with owed := b.tally.owed - 1, fetched := b.tally.fetched + 1 } := by
        simp [Tally.count, begins, arHandshake, rHandshake, oArvalid, oRready, state, valid, notLast]
      rw [counted]
      exact .receives hi state valid more
  | finishes hi next state valid last continued =>
    have final : b.tally.owed = 1 := (data valid).2.mp last
    have counted : b.tally.count g b.dut.regs i =
        { b.tally with
          owed := 0, bursts := b.tally.bursts + 1, fetched := b.tally.fetched + 1 } := by
      simp [Tally.count, begins, arHandshake, rHandshake, oArvalid, oRready, state, valid, last, final]
    rw [counted]
    exact .finishes hi next state valid last final continued

/-- What the slave and the state machine keep between them: data is owed exactly
while a burst is received, and the beats of the session are its complete bursts
and the received part of the current one. -/
structure Lockstep (r : Registers) (t : Tally) : Prop where
  receiving : r.sState = .rRecv → 0 < t.owed ∧ t.owed ≤ g.gBurstLen
  settled : r.sState ≠ .rRecv → t.owed = 0
  fetched : t.fetched + t.owed = g.gBurstLen * (t.bursts + (decide (r.sState = .rRecv)).toNat)

theorem lockstep_reset (fifo : Fifo) :
    Lockstep g (resetBench fifo).dut.regs (resetBench fifo).tally where
  receiving impossible := by simp [resetBench, resetRegisters] at impossible
  settled _ := rfl
  fetched := by simp [resetBench, resetRegisters]

variable {g}

/-- An accepted address makes one burst of beats owed and starts reception; each
beat received pays one, and the marked one, which is the last owed, ends it. -/
theorem Lockstep.advance {progFull : Bool} {i : Inputs} {r r' : Registers} {t t' : Tally}
    (held : Lockstep g r t) (advanced : Advances g progFull i r t r' t') : Lockstep g r' t' := by
  have positive : 0 < g.gBurstLen := g.positive
  have counted := held.fetched
  cases advanced with
  | quiet hi noBegin noData => exact ⟨held.receiving, held.settled, held.fetched⟩
  | starts hi state enabled =>
    have none : t.owed = 0 := held.settled (by simp [state])
    refine ⟨?_, ?_, ?_⟩
    · intro impossible
      cases impossible
    · intro _
      exact none
    · simp [none]
  | stops hi state disabled =>
    have none : t.owed = 0 := held.settled (by simp [state])
    refine ⟨?_, ?_, ?_⟩
    · intro impossible
      cases impossible
    · intro _
      exact none
    · simpa [state] using counted
  | commits hi state room available =>
    have none : t.owed = 0 := held.settled (by simp [state])
    refine ⟨?_, ?_, ?_⟩
    · intro impossible
      cases impossible
    · intro _
      exact none
    · simpa [state] using counted
  | addressed hi state accepted =>
    have none : t.owed = 0 := held.settled (by simp [state])
    refine ⟨?_, ?_, ?_⟩
    · intro _
      constructor
      · simpa [none] using positive
      · simp [none]
    · intro impossible
      exact absurd rfl impossible
    · simp only [state, none] at counted
      simp only [none, decide_true, Bool.toNat_true, Nat.mul_add]
      simpa using counted
  | receives hi state valid more =>
    obtain ⟨some, most⟩ := held.receiving state
    refine ⟨?_, ?_, ?_⟩
    · intro _
      change 0 < t.owed - 1 ∧ t.owed - 1 ≤ g.gBurstLen
      omega
    · intro impossible
      exact absurd state impossible
    · simp only [state] at counted ⊢
      omega
  | finishes hi next state valid last final continued =>
    obtain ⟨left, _⟩ := chained_elsewhere continued
    refine ⟨?_, ?_, ?_⟩
    · intro impossible
      exact absurd impossible left
    · intro _
      rfl
    · simp only [state, decide_true, Bool.toNat_true] at counted
      simp only [left, decide_false, Bool.toNat_false, Nat.add_zero]
      omega

end Bench

/-- Input ports of an enabled engine on a 256-byte ring with one burst of 128
bytes published, for runs on fixed inputs. -/
def ports (arready rvalid rlast tready : Bool) (rdata : BitVec 64) : Inputs where
  iAresetn := true
  iEnable := true
  iBaseAddr := 0x18000000
  iBufSize := 256
  iWrPtr := 128
  iArready := arready
  iRdata := rdata
  iRlast := rlast
  iRvalid := rvalid
  iTready := tready

/-- One burst of sixteen beats on the data channel, the last one marked. -/
def burstOnBus (tready : Bool) : List Inputs :=
  List.replicate 15 (ports false true false tready 0x200000001) ++
    [ports false true true tready 0x400000003]

end Zyndra.AxiMasterRd
