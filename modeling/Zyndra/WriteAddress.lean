import Zyndra.WriteBench

/-!
# The writer's address, its pending count and its published offset

The address of the next burst advances when the slave accepts one and wraps
against the top of the ring when the last beat is sent. The offset software
reads back advances when a response arrives and wraps against the size. The two
are never compared in the engine: each is related here to its own count of the
session, and the pending count to their difference. This holds for every FIFO, every delay of
addresses, beats and responses, and any values on the base and size ports once a
session has begun.
-/

namespace Zyndra.AxiMasterWr

open CyclicRing Runs

/-- A session begins only with a ring of whole bursts. -/
def SizeRule {Fifo : Type} (g : Generics) (b : Bench Fifo) (i : Inputs) : Prop :=
  begins b.dut.regs.sm i = true → 0 < i.iBufSize.toNat ∧ g.burst ∣ i.iBufSize.toNat

/-- A session begins only with a ring that ends below the top of the address space. -/
def PlaceRule {Fifo : Type} (b : Bench Fifo) (i : Inputs) : Prop :=
  begins b.dut.regs.sm i = true → i.iBaseAddr.toNat + i.iBufSize.toNat < 2 ^ 32

instance {Fifo : Type} (g : Generics) (b : Bench Fifo) (i : Inputs) : Decidable (SizeRule g b i) :=
  inferInstanceAs (Decidable (_ → _))

instance {Fifo : Type} (b : Bench Fifo) (i : Inputs) : Decidable (PlaceRule b i) :=
  inferInstanceAs (Decidable (_ → _))

/-- The ring presented at the start is the one the engine works on until the
session ends. -/
structure Latched (g : Generics) (sm : SmRegisters) (t : Tally) : Prop where
  size : sm.sBufSize = t.size
  base : sm.sState ≠ .standby → sm.sBaseAddr = t.base
  top : sm.sState ≠ .standby → sm.sTopAddr.toNat = t.base.toNat + t.size.toNat
  place : sm.sState ≠ .standby → t.base.toNat + t.size.toNat < 2 ^ 32
  whole : sm.sState ≠ .standby → 0 < t.size.toNat ∧ g.burst ∣ t.size.toNat

/-- The address register holds the place of the next burst, except while one is
sent: then it holds the end of that one, which may be the top of the ring. -/
structure Addresses (g : Generics) (sm : SmRegisters) (t : Tally) : Prop where
  next : sm.sState = .idle ∨ sm.sState = .awSend →
    sm.sAwAddr.toNat = t.base.toNat + g.burst * t.addressed % t.size.toNat
  sending : sm.sState = .wSend → ∃ k, t.addressed = k + 1 ∧
    sm.sAwAddr.toNat = t.base.toNat + g.burst * k % t.size.toNat + g.burst

section Steps

variable {g : Generics} {progFull : Bool} {pending : BitVec 4} {i : Inputs}
  {sm sm' : SmRegisters} {t t' : Tally}

theorem Latched.advance (latched : Latched g sm t)
    (advanced : Advances g progFull pending i sm t sm' t')
    (sized : begins sm i = true → 0 < i.iBufSize.toNat ∧ g.burst ∣ i.iBufSize.toNat)
    (placed : begins sm i = true → i.iBaseAddr.toNat + i.iBufSize.toNat < 2 ^ 32) :
    Latched g sm' t' := by
  obtain ⟨size, base, top, place, whole⟩ := latched
  -- A clock that stays in the session leaves all five of them.
  have kept (active : sm.sState ≠ .standby) :
      sm.sBaseAddr = t.base ∧ sm.sTopAddr.toNat = t.base.toNat + t.size.toNat ∧
        t.base.toNat + t.size.toNat < 2 ^ 32 ∧ 0 < t.size.toNat ∧ g.burst ∣ t.size.toNat :=
    ⟨base active, top active, place active, whole active⟩
  cases advanced with
  | quiet noBegin noAddress noBeat => exact ⟨size, base, top, place, whole⟩
  | starts state enabled =>
    have ring := sized (by simp [begins, state, enabled])
    have inside := placed (by simp [begins, state, enabled])
    refine ⟨rfl, fun _ => rfl, ?_, fun _ => inside, fun _ => ring⟩
    intro _
    rw [BitVec.toNat_add, Nat.mod_eq_of_lt inside]
  | stops state disabled =>
    obtain ⟨base, top, place, whole⟩ := kept (by simp [state])
    exact ⟨size, fun _ => base, fun _ => top, fun _ => place, fun _ => whole⟩
  | commits state enabled stocked =>
    obtain ⟨base, top, place, whole⟩ := kept (by simp [state])
    exact ⟨size, fun _ => base, fun _ => top, fun _ => place, fun _ => whole⟩
  | addressed state accepted =>
    obtain ⟨base, top, place, whole⟩ := kept (by simp [state])
    exact ⟨size, fun _ => base, fun _ => top, fun _ => place, fun _ => whole⟩
  | sends state accepted more => exact ⟨size, base, top, place, whole⟩
  | finishes next state accepted last continued =>
    obtain ⟨base, top, place, whole⟩ := kept (by simp [state])
    exact ⟨size, fun _ => base, fun _ => top, fun _ => place, fun _ => whole⟩
  | retires state settled => exact ⟨size, by simp, by simp, by simp, by simp⟩

/-- In a session the constant the engine adds is the burst in bytes. -/
theorem Latched.burst_bytes (latched : Latched g sm t) (active : sm.sState ≠ .standby) :
    g.cBurstBytes.toNat = g.burst :=
  g.burst_bytes_exact (latched.whole active).1 (latched.whole active).2

/-- In a session a burst at any multiple of the burst size ends within the ring. -/
theorem Latched.fits (latched : Latched g sm t) (active : sm.sState ≠ .standby) (k : Nat) :
    g.burst * k % t.size.toNat + g.burst ≤ t.size.toNat := by
  obtain ⟨positive, whole⟩ := latched.whole active
  exact step_fits whole (offset_aligned whole (Nat.dvd_mul_right _ _)) (Nat.mod_lt _ positive)

/-- After a burst the address wraps exactly when the burst ended at the top. -/
theorem Latched.wraps (latched : Latched g sm t) (active : sm.sState ≠ .standby) {k : Nat}
    (ended : sm.sAwAddr.toNat = t.base.toNat + g.burst * k % t.size.toNat + g.burst) :
    (if sm.sTopAddr ≤ sm.sAwAddr then sm.sBaseAddr else sm.sAwAddr).toNat =
      t.base.toNat + g.burst * (k + 1) % t.size.toNat := by
  have fits := latched.fits active k
  have top := latched.top active
  have onward : g.burst * (k + 1) % t.size.toNat =
      (g.burst * k % t.size.toNat + g.burst) % t.size.toNat := by
    rw [Nat.mod_add_mod, Nat.mul_add, Nat.mul_one]
  by_cases reached : sm.sTopAddr ≤ sm.sAwAddr
  · have passed : sm.sTopAddr.toNat ≤ sm.sAwAddr.toNat := reached
    have whole : g.burst * k % t.size.toNat + g.burst = t.size.toNat := by omega
    rw [if_pos reached, latched.base active, onward, whole, Nat.mod_self, Nat.add_zero]
  · have short : ¬ sm.sTopAddr.toNat ≤ sm.sAwAddr.toNat := reached
    have inner : g.burst * k % t.size.toNat + g.burst < t.size.toNat := by omega
    rw [if_neg reached, ended, onward, Nat.mod_eq_of_lt inner, Nat.add_assoc]

theorem Addresses.advance (latched : Latched g sm t) (addresses : Addresses g sm t)
    (advanced : Advances g progFull pending i sm t sm' t') : Addresses g sm' t' := by
  cases advanced with
  | quiet noBegin noAddress noBeat => exact ⟨addresses.next, addresses.sending⟩
  | starts state enabled => constructor <;> simp
  | stops state disabled => constructor <;> simp
  | commits state enabled stocked =>
    constructor
    · intro _
      exact addresses.next (Or.inl state)
    · simp
  | addressed state accepted =>
    have active : sm.sState ≠ .standby := by simp [state]
    have fits := latched.fits active t.addressed
    have place := latched.place active
    have before := addresses.next (Or.inr state)
    constructor
    · simp
    · intro _
      refine ⟨t.addressed, rfl, ?_⟩
      change (sm.sAwAddr + g.cBurstBytes).toNat = _
      rw [BitVec.toNat_add, latched.burst_bytes active, before, Nat.mod_eq_of_lt (by omega)]
      rfl
  | sends state accepted more =>
    constructor
    · simp [state]
    · exact addresses.sending
  | finishes next state accepted last continued =>
    have active : sm.sState ≠ .standby := by simp [state]
    obtain ⟨left, _⟩ := chained_elsewhere continued
    obtain ⟨k, current, ended⟩ := addresses.sending state
    constructor
    · intro _
      change _ = t.base.toNat + g.burst * t.addressed % t.size.toNat
      rw [current]
      exact latched.wraps active ended
    · intro back
      exact absurd back left
  | retires state settled => constructor <;> simp

end Steps

section Runs

variable {Fifo : Type} (g : Generics) (xpm : XpmFifoSync (BitVec 64) Fifo)

/-- The environment of a writer whose rings are well placed. -/
def SessionRule (b : Bench Fifo) (i : Inputs) : Prop :=
  SlaveRule b i ∧ SizeRule g b i ∧ PlaceRule b i

instance (b : Bench Fifo) (i : Inputs) : Decidable (SessionRule g b i) :=
  inferInstanceAs (Decidable (_ ∧ _ ∧ _))

/-- Everything that is kept between the slave, the state machine and the two
other processes. The pointer register has no reset, so it means nothing before
the first session. -/
structure Agreement (b : Bench Fifo) : Prop where
  lockstep : Lockstep g b.dut.regs.sm b.tally
  latched : Latched g b.dut.regs.sm b.tally
  addresses : Addresses g b.dut.regs.sm b.tally
  pending : b.dut.regs.sPendingCnt.toNat = b.tally.outstanding
  pointer : 0 < b.tally.sessions →
    b.dut.regs.sWrPtr.toNat = g.burst * b.tally.answered % b.tally.size.toNat

theorem agreement_reset (sWrPtr sPrevTdata : BitVec 32) (fifo : Fifo) :
    Agreement g (resetBench sWrPtr sPrevTdata fifo) where
  lockstep := lockstep_reset g sWrPtr sPrevTdata fifo
  latched := by constructor <;> simp [resetBench, resetRegisters, resetSm]
  addresses := by constructor <;> simp [resetBench, resetRegisters, resetSm]
  pending := rfl
  pointer none := absurd none (Nat.lt_irrefl 0)

variable {g}

/-- A response can only arrive in a session, since none is outstanding in STANDBY. -/
theorem Agreement.answered_active {b : Bench Fifo} (held : Agreement g b)
    (some : 0 < b.tally.unanswered) : b.dut.regs.sm.sState ≠ .standby := by
  intro resting
  have none := held.lockstep.retired resting
  have sent := held.lockstep.sent
  omega

/-- A response takes the offset one burst on, to zero at the end of the ring. -/
theorem Agreement.next_pointer {b : Bench Fifo} (held : Agreement g b)
    (begun : 0 < b.tally.sessions) (active : b.dut.regs.sm.sState ≠ .standby) :
    (wrapNext b.dut.regs.sm.sBufSize b.dut.regs.sWrPtr g.cBurstBytes).toNat =
      g.burst * (b.tally.answered + 1) % b.tally.size.toNat := by
  have constant := held.latched.burst_bytes active
  have offset : b.dut.regs.sWrPtr.toNat =
      g.burst * b.tally.answered % b.dut.regs.sm.sBufSize.toNat := by
    rw [held.latched.size, held.pointer begun]
  have room : b.dut.regs.sWrPtr.toNat + g.cBurstBytes.toNat ≤ b.dut.regs.sm.sBufSize.toNat := by
    rw [offset, constant, held.latched.size]
    exact held.latched.fits active _
  rw [wrapNext_position offset room, constant, held.latched.size, Nat.mul_add, Nat.mul_one]

/-- The offset follows the responses: cleared with the count when a session
begins, one burst on with each response, and otherwise left. -/
theorem Agreement.pointer_step {b : Bench Fifo} (held : Agreement g b) (i : Inputs)
    (rule : SessionRule g b i) :
    0 < (observe g xpm b i).tally.sessions →
      (observe g xpm b i).dut.regs.sWrPtr.toNat =
        g.burst * (observe g xpm b i).tally.answered % (observe g xpm b i).tally.size.toNat := by
  intro begun
  change (wrPtrProcess g b.dut.regs i).toNat =
    g.burst * (b.tally.count g b.dut.regs.sm i).answered %
      (b.tally.count g b.dut.regs.sm i).size.toNat
  by_cases starting : begins b.dut.regs.sm i = true
  · have leaving : b.dut.regs.sm.sState = .standby ∧ i.iEnable = true := by
      simpa [begins] using starting
    simp [Tally.count, starting, wrPtrProcess, leaving]
  · have staying : ¬ (b.dut.regs.sm.sState = .standby ∧ i.iEnable = true) := by
      simpa [begins] using starting
    have before : 0 < b.tally.sessions := by
      simpa [observe, Tally.count, starting] using begun
    simp only [Tally.count, starting, if_false, Bool.false_eq_true, wrPtrProcess, if_neg staying]
    cases response : i.iBvalid with
    | false => simpa [bHandshake, response] using held.pointer before
    | true =>
      simp only [bHandshake, oBready, Bool.and_true, if_true, response, Bool.toNat_true]
      exact held.next_pointer before (held.answered_active (rule.1.2.1 response))

theorem Agreement.observe {b : Bench Fifo} (held : Agreement g b) (i : Inputs)
    (rule : SessionRule g b i) : Agreement g (observe g xpm b i) := by
  have pointer := held.pointer_step xpm i rule
  obtain ⟨⟨running, answers, most⟩, sized, placed⟩ := rule
  have advanced := observe_advances g xpm b i running
  have owed : i.iBvalid = true → 0 < b.tally.outstanding := by
    intro response
    have some := answers response
    have sent := held.lockstep.sent
    omega
  exact {
    lockstep := held.lockstep.advance held.pending answers advanced
    latched := held.latched.advance advanced sized placed
    addresses := held.addresses.advance held.latched advanced
    pending := pending_step held.pending running owed most
    pointer := pointer }

end Runs

/-- What the slave, the memory and software see of the writer. `issue` gives the
address of the `k`-th burst of the session, `k` being the number of addresses
accepted before it; `page` concerns the documented burst lengths. -/
structure WriterAgrees (g : Generics) (r : Registers) (t : Tally) : Prop where
  latchedSize : r.sm.sBufSize = t.size
  latchedBase : r.sm.sState ≠ .standby → r.sm.sBaseAddr = t.base
  issue : oAwvalid r.sm = true →
    r.sm.sAwAddr.toNat = t.base.toNat + g.burst * t.addressed % t.size.toNat
  inside : oAwvalid r.sm = true → t.base.toNat ≤ r.sm.sAwAddr.toNat ∧
    r.sm.sAwAddr.toNat + g.burst ≤ t.base.toNat + t.size.toNat
  page : oAwvalid r.sm = true → g.Documented → 4096 ∣ t.base.toNat →
    r.sm.sAwAddr.toNat % 4096 + g.burst ≤ 4096
  pending : r.sPendingCnt.toNat + t.answered = t.addressed
  outstanding : r.sPendingCnt.toNat = t.outstanding
  pointer : 0 < t.sessions → r.sWrPtr.toNat = g.burst * t.answered % t.size.toNat
  retired : r.sm.sState = .standby → t.outstanding = 0

section Results

variable {Fifo : Type} (g : Generics) (xpm : XpmFifoSync (BitVec 64) Fifo)

/-- A burst at a multiple of its size from a page boundary does not cross the
next one. -/
theorem burst_in_page {g : Generics} {address base offset : Nat} (documented : g.Documented)
    (paged : 4096 ∣ base) (aligned : g.burst ∣ offset) (placed : address = base + offset) :
    address % 4096 + g.burst ≤ 4096 := by
  have divides := documented.divides_page
  have multiple : g.burst ∣ address := placed ▸ Nat.dvd_add (Nat.dvd_trans divides paged) aligned
  exact step_fits divides (offset_aligned divides multiple) (Nat.mod_lt _ (by decide))

/-- In every state of every run of sessions, the address presented is that of the
session's next burst and inside the ring, the pending count is the addresses less
the responses, the offset counts the responses, and STANDBY has none outstanding. -/
theorem writer_addresses_agree (sWrPtr sPrevTdata : BitVec 32) (fifo : Fifo)
    (events : List Inputs)
    (follows : Follows (SessionRule g) (observe g xpm) (resetBench sWrPtr sPrevTdata fifo) events) :
    WriterAgrees g (run (observe g xpm) (resetBench sWrPtr sPrevTdata fifo) events).dut.regs
      (run (observe g xpm) (resetBench sWrPtr sPrevTdata fifo) events).tally := by
  have held : Agreement g (run (observe g xpm) (resetBench sWrPtr sPrevTdata fifo) events) :=
    invariant (fun _ i held rule => held.observe xpm i rule) (agreement_reset g _ _ fifo) events
      follows
  generalize run (observe g xpm) (resetBench sWrPtr sPrevTdata fifo) events = b at held
  have presented (valid : oAwvalid b.dut.regs.sm = true) : b.dut.regs.sm.sState = .awSend := by
    simpa [oAwvalid] using valid
  have issued (valid : oAwvalid b.dut.regs.sm = true) :=
    held.addresses.next (Or.inr (presented valid))
  exact {
    latchedSize := held.latched.size
    latchedBase := held.latched.base
    issue := issued
    inside := fun valid => by
      have fits := held.latched.fits (by simp [presented valid]) b.tally.addressed
      have address := issued valid
      omega
    page := fun valid documented paged => by
      have whole := (held.latched.whole (by simp [presented valid])).2
      exact burst_in_page documented paged (offset_aligned whole (Nat.dvd_mul_right _ _))
        (issued valid)
    pending := by rw [held.pending, held.lockstep.counted, Nat.add_comm]
    outstanding := held.pending
    pointer := held.pointer
    retired := held.lockstep.retired }

end Results

/-- One burst streamed in, sent, and acknowledged. -/
def acknowledged : List Inputs :=
  ports false false false false 0 :: streamIn 32 ++ [ports false false false false 0] ++
    burstOnBus ++ [ports false false true false 0]

/-- The same engine with an arbitrary pointer before its first session. -/
theorem writer_agrees_acknowledged :
    WriterAgrees .ad936xAxi
      (run (observe .ad936xAxi (idealFifo .ad936xAxi)) (resetBench 77 5 []) acknowledged).dut.regs
      (run (observe .ad936xAxi (idealFifo .ad936xAxi)) (resetBench 77 5 []) acknowledged).tally ∧
    (run (observe .ad936xAxi (idealFifo .ad936xAxi)) (resetBench 77 5 [])
      acknowledged).dut.regs.sWrPtr = 128 :=
  ⟨writer_addresses_agree _ _ _ _ _ _ (by decide +kernel), by decide +kernel⟩

end Zyndra.AxiMasterWr
