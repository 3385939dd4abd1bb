import Zyndra.ReadBench

/-!
# The reader's address and its published offset

The state machine keeps the address of the next burst, wrapped against the top
of the ring; another process keeps the offset software reads back, wrapped
against the size. The address is advanced when the slave accepts it, the offset
when the last beat has arrived. Both are related here to the number of bursts
completed in the session, for every FIFO, every timing of the slave and any
values on the base and size ports once a session has begun.
-/

namespace Zyndra.AxiMasterRd

open CyclicRing Runs

/-- A session begins only with a ring of whole bursts. -/
def SizeRule {Fifo : Type} (g : Generics) (b : Bench Fifo) (i : Inputs) : Prop :=
  begins b.dut.regs i = true → 0 < i.iBufSize.toNat ∧ g.burst ∣ i.iBufSize.toNat

/-- A session begins only with a ring that ends below the top of the address space. -/
def PlaceRule {Fifo : Type} (b : Bench Fifo) (i : Inputs) : Prop :=
  begins b.dut.regs i = true → i.iBaseAddr.toNat + i.iBufSize.toNat < 2 ^ 32

instance {Fifo : Type} (g : Generics) (b : Bench Fifo) (i : Inputs) : Decidable (SizeRule g b i) :=
  inferInstanceAs (Decidable (_ → _))

instance {Fifo : Type} (b : Bench Fifo) (i : Inputs) : Decidable (PlaceRule b i) :=
  inferInstanceAs (Decidable (_ → _))

/-- The latched size is the one presented, and the offset is that of the bursts
completed. The last session's values persist in STANDBY. -/
structure Tracks (g : Generics) (r : Registers) (t : Tally) : Prop where
  latched : r.sBufSize = t.size
  whole : r.sState ≠ .standby → 0 < t.size.toNat ∧ g.burst ∣ t.size.toNat
  offset : r.sRdPtr.toNat = g.burst * t.bursts % t.size.toNat

/-- The address register in each state of a session, without overflow: at the
offset while a burst is sought or presented, one burst past it during reception. -/
structure Addresses (g : Generics) (r : Registers) (t : Tally) : Prop where
  base : r.sState ≠ .standby → r.sBaseAddr = t.base
  top : r.sState ≠ .standby → r.sTopAddr.toNat = t.base.toNat + t.size.toNat
  place : r.sState ≠ .standby → t.base.toNat + t.size.toNat < 2 ^ 32
  presenting : r.sState = .idle ∨ r.sState = .arSend →
    r.sArAddr.toNat = t.base.toNat + r.sRdPtr.toNat
  receiving : r.sState = .rRecv →
    r.sArAddr.toNat = t.base.toNat + r.sRdPtr.toNat + g.burst

section Steps

variable {g : Generics} {progFull : Bool} {i : Inputs} {r r' : Registers} {t t' : Tally}

/-- In a session the constant the engine adds is the burst in bytes. -/
theorem Tracks.burst_bytes (tracked : Tracks g r t) (active : r.sState ≠ .standby) :
    g.cBurstBytes.toNat = g.burst :=
  g.burst_bytes_exact (tracked.whole active).1 (tracked.whole active).2

/-- In a session the next burst ends within the ring. -/
theorem Tracks.fits (tracked : Tracks g r t) (active : r.sState ≠ .standby) :
    r.sRdPtr.toNat + g.burst ≤ t.size.toNat := by
  obtain ⟨positive, whole⟩ := tracked.whole active
  rw [tracked.offset]
  exact step_fits whole (offset_aligned whole (Nat.dvd_mul_right _ _)) (Nat.mod_lt _ positive)

/-- A completed burst takes the offset one burst on, to zero at the end of the ring. -/
theorem Tracks.next_offset (tracked : Tracks g r t) (active : r.sState ≠ .standby) :
    (wrapNext r.sBufSize r.sRdPtr g.cBurstBytes).toNat =
      g.burst * (t.bursts + 1) % t.size.toNat := by
  have constant := tracked.burst_bytes active
  have held : r.sRdPtr.toNat = g.burst * t.bursts % r.sBufSize.toNat := by
    rw [tracked.latched, tracked.offset]
  have room : r.sRdPtr.toNat + g.cBurstBytes.toNat ≤ r.sBufSize.toNat := by
    rw [constant, tracked.latched]
    exact tracked.fits active
  rw [wrapNext_position held room, constant, tracked.latched, Nat.mul_add, Nat.mul_one]

theorem Tracks.advance (tracked : Tracks g r t) (advanced : Advances g progFull i r t r' t')
    (sized : begins r i = true → 0 < i.iBufSize.toNat ∧ g.burst ∣ i.iBufSize.toNat) :
    Tracks g r' t' := by
  cases advanced with
  | quiet hi noBegin noData => exact ⟨tracked.latched, tracked.whole, tracked.offset⟩
  | starts hi state enabled =>
    have ring := sized (by simp [begins, state, enabled])
    refine ⟨rfl, ?_, ?_⟩
    · intro _
      exact ring
    · simp
  | stops hi state disabled =>
    refine ⟨tracked.latched, ?_, tracked.offset⟩
    intro impossible
    exact absurd rfl impossible
  | commits hi state room available =>
    refine ⟨tracked.latched, ?_, tracked.offset⟩
    intro _
    apply tracked.whole
    simp [state]
  | addressed hi state accepted =>
    refine ⟨tracked.latched, ?_, tracked.offset⟩
    intro _
    apply tracked.whole
    simp [state]
  | receives hi state valid more =>
    exact ⟨tracked.latched, tracked.whole, tracked.offset⟩
  | finishes hi next state valid last final continued =>
    have active : r.sState ≠ .standby := by simp [state]
    refine ⟨tracked.latched, ?_, tracked.next_offset active⟩
    intro _
    exact tracked.whole active

/-- After a burst the address has reached the top of the ring exactly when the
offset has reached the size, so both wrap together. -/
theorem Addresses.wrap_together (tracked : Tracks g r t) (addressed : Addresses g r t)
    (state : r.sState = .rRecv) :
    (if r.sTopAddr ≤ r.sArAddr then r.sBaseAddr else r.sArAddr).toNat =
      t.base.toNat + (wrapNext r.sBufSize r.sRdPtr g.cBurstBytes).toNat := by
  have active : r.sState ≠ .standby := by simp [state]
  have constant := tracked.burst_bytes active
  have fits := tracked.fits active
  have top := addressed.top active
  have address := addressed.receiving state
  have size : r.sBufSize.toNat = t.size.toNat := congrArg BitVec.toNat tracked.latched
  have bounded := addressed.place active
  have sum : (r.sRdPtr + g.cBurstBytes).toNat = r.sRdPtr.toNat + g.burst := by
    rw [BitVec.toNat_add, constant, Nat.mod_eq_of_lt (by omega)]
  have sameTest : r.sTopAddr ≤ r.sArAddr ↔ r.sBufSize ≤ r.sRdPtr + g.cBurstBytes := by
    rw [BitVec.le_def, BitVec.le_def, top, address, sum, size]
    omega
  unfold wrapNext
  by_cases wraps : r.sTopAddr ≤ r.sArAddr
  · rw [if_pos wraps, if_pos (sameTest.mp wraps), addressed.base active]
    simp
  · have inside : ¬ r.sBufSize ≤ r.sRdPtr + g.cBurstBytes := by
      intro reached
      exact wraps (sameTest.mpr reached)
    rw [if_neg wraps, if_neg inside, sum, address]
    omega

theorem Addresses.advance (tracked : Tracks g r t) (addressed : Addresses g r t)
    (advanced : Advances g progFull i r t r' t')
    (placed : begins r i = true → i.iBaseAddr.toNat + i.iBufSize.toNat < 2 ^ 32) :
    Addresses g r' t' := by
  cases advanced with
  | quiet hi noBegin noData =>
    exact ⟨addressed.base, addressed.top, addressed.place, addressed.presenting,
      addressed.receiving⟩
  | starts hi state enabled =>
    have place := placed (by simp [begins, state, enabled])
    refine ⟨?_, ?_, ?_, by simp, by simp⟩
    · intro _
      rfl
    · intro _
      rw [BitVec.toNat_add, Nat.mod_eq_of_lt place]
    · intro _
      exact place
  | stops hi state disabled => constructor <;> simp
  | commits hi state room available =>
    have active : r.sState ≠ .standby := by simp [state]
    refine ⟨?_, ?_, ?_, ?_, by simp⟩
    · intro _
      exact addressed.base active
    · intro _
      exact addressed.top active
    · intro _
      exact addressed.place active
    · intro _
      exact addressed.presenting (Or.inl state)
  | addressed hi state accepted =>
    have active : r.sState ≠ .standby := by simp [state]
    have fits := tracked.fits active
    have place := addressed.place active
    refine ⟨?_, ?_, ?_, by simp, ?_⟩
    · intro _
      exact addressed.base active
    · intro _
      exact addressed.top active
    · intro _
      exact place
    · intro _
      have before := addressed.presenting (Or.inr state)
      change (r.sArAddr + g.cBurstBytes).toNat = t.base.toNat + r.sRdPtr.toNat + g.burst
      rw [BitVec.toNat_add, tracked.burst_bytes active, before, Nat.mod_eq_of_lt (by omega)]
  | receives hi state valid more =>
    exact ⟨addressed.base, addressed.top, addressed.place, addressed.presenting,
      addressed.receiving⟩
  | finishes hi next state valid last final continued =>
    have active : r.sState ≠ .standby := by simp [state]
    obtain ⟨left, _⟩ := chained_elsewhere continued
    have wrapped := addressed.wrap_together tracked state
    refine ⟨?_, ?_, ?_, ?_, ?_⟩
    · intro _
      exact addressed.base active
    · intro _
      exact addressed.top active
    · intro _
      exact addressed.place active
    · intro _
      exact wrapped
    · intro impossible
      exact absurd impossible left

end Steps

/-- What the bus and software see of the reader's two counters.

`released` counts in bytes: the offset has moved past complete bursts only, all of whose beats
have been received. -/
structure ReaderAgrees (g : Generics) (r : Registers) (t : Tally) : Prop where
  latchedSize : r.sBufSize = t.size
  latchedBase : r.sState ≠ .standby → r.sBaseAddr = t.base
  presenting : r.sState = .idle ∨ r.sState = .arSend →
    r.sArAddr.toNat = t.base.toNat + r.sRdPtr.toNat
  receiving : r.sState = .rRecv →
    r.sArAddr.toNat = t.base.toNat + r.sRdPtr.toNat + g.burst
  offset : r.sRdPtr.toNat = g.burst * t.bursts % t.size.toNat
  inside : r.sState ≠ .standby →
    t.base.toNat + r.sRdPtr.toNat + g.burst ≤ t.base.toNat + t.size.toNat
  released : g.burst * t.bursts ≤ 8 * t.fetched

section Runs

variable {Fifo : Type} (g : Generics) (xpm : XpmFifoSync (BitVec 64) Fifo)

/-- The environment of a reader whose rings are well placed. -/
def SessionRule (b : Bench Fifo) (i : Inputs) : Prop :=
  SlaveRule b i ∧ SizeRule g b i ∧ PlaceRule b i

instance (b : Bench Fifo) (i : Inputs) : Decidable (SessionRule g b i) :=
  inferInstanceAs (Decidable (_ ∧ _ ∧ _))

/-- The three invariants together. -/
structure Agreement (b : Bench Fifo) : Prop where
  lockstep : Lockstep g b.dut.regs b.tally
  tracks : Tracks g b.dut.regs b.tally
  addresses : Addresses g b.dut.regs b.tally

theorem agreement_reset (fifo : Fifo) : Agreement g (resetBench fifo) where
  lockstep := lockstep_reset g fifo
  tracks := ⟨rfl, by simp [resetBench, resetRegisters], by simp [resetBench, resetRegisters]⟩
  addresses := by constructor <;> simp [resetBench, resetRegisters]

variable {g}

theorem Agreement.observe {b : Bench Fifo} (held : Agreement g b) (i : Inputs)
    (rule : SessionRule g b i) : Agreement g (observe g xpm b i) := by
  obtain ⟨slave, sized, placed⟩ := rule
  have advanced := observe_advances g xpm b i slave
  exact ⟨held.lockstep.advance advanced, held.tracks.advance advanced sized,
    held.addresses.advance held.tracks advanced placed⟩

/-- Complete bursts are received whole. -/
theorem Lockstep.released {r : Registers} {t : Tally} (held : Lockstep g r t) :
    g.burst * t.bursts ≤ 8 * t.fetched := by
  have counted := held.fetched
  rw [g.burst_beats]
  by_cases state : r.sState = .rRecv
  · obtain ⟨_, most⟩ := held.receiving state
    simp only [state, decide_true, Bool.toNat_true, Nat.mul_add, Nat.mul_one] at counted
    omega
  · have none := held.settled state
    simp only [state, decide_false, Bool.toNat_false, Nat.add_zero] at counted
    omega

variable (g)

/-- In every state of every run of sessions, the address presented, the address
kept during reception and the offset shown to software agree with the number of
bursts completed, every burst lies inside the ring, and only bursts received to
the last beat have been released. -/
theorem reader_addresses_agree (fifo : Fifo) (events : List Inputs)
    (follows : Follows (SessionRule g) (observe g xpm) (resetBench fifo) events) :
    ReaderAgrees g (run (observe g xpm) (resetBench fifo) events).dut.regs
      (run (observe g xpm) (resetBench fifo) events).tally := by
  have held : Agreement g (run (observe g xpm) (resetBench fifo) events) :=
    invariant (fun _ i held rule => held.observe xpm i rule) (agreement_reset g fifo) events follows
  exact {
    latchedSize := held.tracks.latched
    latchedBase := held.addresses.base
    presenting := held.addresses.presenting
    receiving := held.addresses.receiving
    offset := held.tracks.offset
    inside := fun active => by have := held.tracks.fits active; omega
    released := held.lockstep.released }

end Runs

/-- Both bursts of a ring of two, fetched one after the other. -/
def wrapAround : List Inputs :=
  [ports false false false true 0, ports false false false true 0, ports true false false true 0] ++
    burstOnBus true ++ [ports true false false true 0] ++ burstOnBus true

theorem reader_agrees_wrapped :
    ReaderAgrees .ad936xAxi
      (run (observe .ad936xAxi (idealFifo .ad936xAxi)) (resetBench []) wrapAround).dut.regs
      (run (observe .ad936xAxi (idealFifo .ad936xAxi)) (resetBench []) wrapAround).tally ∧
    (run (observe .ad936xAxi (idealFifo .ad936xAxi)) (resetBench [])
      wrapAround).tally.bursts = 2 :=
  ⟨reader_addresses_agree _ _ _ _ (by decide +kernel), by decide +kernel⟩

end Zyndra.AxiMasterRd
