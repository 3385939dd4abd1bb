import Zyndra.ReadBench

/-!
# The reader's dues under a soft reset

As for the writer, the dues are counted on the memory port through every reset:
whether an address was left unaccepted, and every beat the slave still owes with
the address it was asked for. The engine has no record of the beats. It takes
what arrives in R_RECV for the burst it asked for last, at its read pointer.

One clock keeps the dues exactly when a reset falls between bursts.
-/

namespace Zyndra.AxiMasterRd

open CyclicRing

/-- The beats asked for with one address: where each was read, and whether it is
the last. -/
def beatsAt (g : Generics) (araddr : BitVec 32) : List (BitVec 32 × Bool) :=
  (List.range g.gBurstLen).map fun k =>
    (araddr + BitVec.ofNat 32 (8 * k), decide (k + 1 = g.gBurstLen))

/-- What the engine owes the memory port, and what the port owes it. -/
structure Dues where
  /-- An address was offered on the last clock and not accepted. -/
  refused : Bool
  /-- The beats still to be returned, in order. -/
  owed : List (BitVec 32 × Bool)
  deriving DecidableEq

/-- The dues after a clock that finds the given registers and inputs. -/
def Dues.count (g : Generics) (d : Dues) (r : Registers) (i : Inputs) : Dues where
  refused := oArvalid r && !i.iArready
  owed := d.owed.drop (rHandshake r i).toNat ++ if arHandshake r i then beatsAt g r.sArAddr else []

/-- Nothing due. -/
def noDues : Dues := ⟨false, []⟩

/-- Data only for an accepted address, in order, and marked as its beat is. -/
def Returns (d : Dues) (i : Inputs) : Prop :=
  i.iRvalid = true → d.owed.head?.map Prod.snd = some i.iRlast

/-- The latched ring holds whole bursts and ends below the top of the address
space. -/
def WholeBursts (g : Generics) (r : Registers) : Prop :=
  0 < r.sBufSize.toNat ∧ g.burst ∣ r.sBufSize.toNat ∧
    r.sBaseAddr.toNat + r.sBufSize.toNat < 2 ^ 32

/-- The engine honours its dues. An address stays offered until it is accepted,
and every beat owed is accepted as it comes. It is a beat of the burst the
engine's own address points past, which in a ring of whole bursts is the one at
the read pointer. -/
structure Honoured (g : Generics) (r : Registers) (d : Dues) : Prop where
  offered : d.refused = true → oArvalid r = true
  accepted : d.owed ≠ [] → oRready r = true
  place : oRready r = true → d.owed <:+ beatsAt g (r.sArAddr - g.cBurstBytes)
  ring : WholeBursts g r → oRready r = true →
    r.sArAddr - g.cBurstBytes = r.sBaseAddr + r.sRdPtr

/-- A reset finds no address offered and no burst unfinished but for a last beat
that arrives. -/
def Spared (r : Registers) (i : Inputs) : Prop :=
  i.iAresetn = false → r.sState ≠ .arSend ∧
    (r.sState = .rRecv → i.iRvalid = true ∧ i.iRlast = true)

instance (d : Dues) (i : Inputs) : Decidable (Returns d i) := inferInstanceAs (Decidable (_ → _))

instance (r : Registers) (i : Inputs) : Decidable (Spared r i) :=
  inferInstanceAs (Decidable (_ → _ ∧ (_ → _)))

/-- In R_RECV beats are owed. In a ring of whole bursts the address register is at
the read pointer, or one burst past it in R_RECV. -/
structure InStep (g : Generics) (r : Registers) (d : Dues) : Prop where
  receiving : r.sState = .rRecv → d.owed ≠ []
  aligned : WholeBursts g r → r.sState ≠ .standby →
    g.burst ∣ r.sRdPtr.toNat ∧ r.sRdPtr.toNat < r.sBufSize.toNat ∧
      r.sTopAddr.toNat = r.sBaseAddr.toNat + r.sBufSize.toNat ∧
      r.sArAddr.toNat = r.sBaseAddr.toNat + r.sRdPtr.toNat +
        if r.sState = .rRecv then g.burst else 0

section Steps

variable {g : Generics} {r : Registers} {d : Dues} {i : Inputs}

/-- Of the beats that end a burst, the first is marked last when it is the only one. -/
theorem marked_last {araddr : BitVec 32} {beat : BitVec 32 × Bool} {rest : List (BitVec 32 × Bool)}
    (ending : beat :: rest <:+ beatsAt g araddr) : beat.2 = true ↔ rest = [] := by
  have count : (beatsAt g araddr).length = g.gBurstLen := by simp [beatsAt]
  have dropped := List.suffix_iff_eq_drop.mp ending
  have fits := ending.length_le
  simp only [List.length_cons, count] at dropped fits
  have first : (beatsAt g araddr)[g.gBurstLen - (rest.length + 1)]? = some beat := by
    rw [← List.head?_drop, ← dropped]
    rfl
  have within : g.gBurstLen - (rest.length + 1) < g.gBurstLen := by omega
  simp only [beatsAt, List.getElem?_map, List.getElem?_range within, Option.map_some,
    Option.some.injEq] at first
  rw [← first, decide_eq_true_iff, ← List.length_eq_zero_iff]
  omega

/-- A beat that arrives is the first owed, and ends the burst when none is left. -/
theorem Honoured.last_iff (held : Honoured g r d) (returns : Returns d i)
    (state : r.sState = .rRecv) (valid : i.iRvalid = true) :
    i.iRlast = true ↔ d.owed.drop 1 = [] := by
  have head := returns valid
  have ending := held.place (by simp [oRready, state])
  cases owing : d.owed with
  | nil => simp [owing] at head
  | cons beat rest =>
    rw [owing] at head ending
    have mark : beat.2 = i.iRlast := by simpa using head
    rw [← mark, marked_last ending]
    simp

/-- Outside R_RECV nothing is owed. -/
theorem Honoured.owes_none (held : Honoured g r d) (state : r.sState ≠ .rRecv) : d.owed = [] := by
  by_contra owing
  exact state (of_decide_eq_true (held.accepted owing))

/-- The dues of a clock in each state. -/
theorem count_arSend (held : Honoured g r d) (state : r.sState = .arSend) :
    (d.count g r i).refused = !i.iArready ∧
      (d.count g r i).owed = if i.iArready then beatsAt g r.sArAddr else [] := by
  have none := held.owes_none (by simp [state])
  simp [Dues.count, rHandshake, oRready, arHandshake, oArvalid, state, none]

theorem count_rRecv (state : r.sState = .rRecv) :
    (d.count g r i).refused = false ∧ (d.count g r i).owed = d.owed.drop i.iRvalid.toNat := by
  simp [Dues.count, rHandshake, oRready, arHandshake, oArvalid, state]

theorem count_elsewhere (held : Honoured g r d) (silent : r.sState ≠ .arSend)
    (idle : r.sState ≠ .rRecv) :
    (d.count g r i).refused = false ∧ (d.count g r i).owed = [] := by
  have none := held.owes_none idle
  simp [Dues.count, rHandshake, oRready, arHandshake, oArvalid, silent, idle, none]

/-- An engine that offers and accepts nothing honours its dues when it has none. -/
theorem honoured_silent {r' : Registers} {d' : Dues} (silent : r'.sState ≠ .arSend)
    (idle : r'.sState ≠ .rRecv) : Honoured g r' d' ↔ d'.refused = false ∧ d'.owed = [] := by
  have noAddress : oArvalid r' = false := by simp [oArvalid, silent]
  have noData : oRready r' = false := by simp [oRready, idle]
  constructor
  · intro after
    have offered := after.offered
    have accepted := after.accepted
    simp only [noAddress, noData] at offered accepted
    exact ⟨by simpa using offered, by simpa using accepted⟩
  · rintro ⟨taken, none⟩
    constructor <;> simp [noData, taken, none]

/-- Back in STANDBY the engine accepts nothing, so nothing may be due. -/
theorem Honoured.reset_iff (held : Honoured g r d) (inStep : InStep g r d) (returns : Returns d i)
    (reset : i.iAresetn = false) {r' : Registers} (standby : r'.sState = .standby) :
    Honoured g r' (d.count g r i) ↔ Spared r i := by
  rw [honoured_silent (by simp [standby]) (by simp [standby])]
  by_cases offering : r.sState = .arSend
  · obtain ⟨refused, owed⟩ := count_arSend (i := i) held offering
    have positive := g.positive
    cases ready : i.iArready <;> simp [Spared, refused, owed, offering, ready, reset, beatsAt]
    omega
  · by_cases receiving : r.sState = .rRecv
    · obtain ⟨refused, owed⟩ := count_rRecv (g := g) (d := d) (i := i) receiving
      have some := inStep.receiving receiving
      cases valid : i.iRvalid with
      | false => simp [Spared, refused, owed, receiving, valid, reset, some]
      | true =>
        have last := held.last_iff returns receiving valid
        simp [Spared, refused, owed, receiving, valid, reset, last]
    · simp [Spared, count_elsewhere held offering receiving, offering, receiving]

/-- In R_RECV the engine's address is one burst past the ring position reported. -/
theorem InStep.ring (inStep : InStep g r d) (whole : WholeBursts g r) (state : r.sState = .rRecv) :
    r.sArAddr - g.cBurstBytes = r.sBaseAddr + r.sRdPtr := by
  obtain ⟨aligned, below, _, address⟩ := inStep.aligned whole (by simp [state])
  obtain ⟨positive, divides, placed⟩ := whole
  have constant := g.burst_bytes_exact positive divides
  have fits := step_fits divides aligned below
  have past : r.sArAddr = r.sBaseAddr + r.sRdPtr + g.cBurstBytes := by
    apply BitVec.eq_of_toNat_eq
    rw [address, if_pos state, BitVec.toNat_add, BitVec.toNat_add, constant]
    omega
  rw [past, BitVec.add_sub_cancel]

/-- What the port is owed after a clock, and by which burst. -/
structure Owing (g : Generics) (r : Registers) (d : Dues) : Prop where
  offered : d.refused = true → r.sState = .arSend
  accepted : d.owed ≠ [] ↔ r.sState = .rRecv
  place : r.sState = .rRecv → d.owed <:+ beatsAt g (r.sArAddr - g.cBurstBytes)

/-- Nothing is owed in a state that neither offers nor receives. -/
theorem owing_silent {r' : Registers} {d' : Dues} (taken : d'.refused = false)
    (none : d'.owed = []) (idle : r'.sState ≠ .rRecv) : Owing g r' d' := by
  constructor <;> simp [taken, none, idle]

/-- Out of reset the engine goes on with what it owes. -/
theorem Honoured.running_port (held : Honoured g r d) (inStep : InStep g r d)
    (returns : Returns d i) {progFull : Bool} {r' : Registers}
    (moved : Moves g progFull i r r') : Owing g r' (d.count g r i) := by
  have positive := g.positive
  cases moved with
  | rests hi state _ =>
    obtain ⟨taken, none⟩ := count_elsewhere (i := i) held (by simp [state]) (by simp [state])
    exact owing_silent taken none (by simp [state])
  | starts hi state _ =>
    obtain ⟨taken, none⟩ := count_elsewhere (i := i) held (by simp [state]) (by simp [state])
    exact owing_silent taken none (by simp)
  | stops hi state _ =>
    obtain ⟨taken, none⟩ := count_elsewhere (i := i) held (by simp [state]) (by simp [state])
    exact owing_silent taken none (by simp)
  | waits hi state _ =>
    obtain ⟨taken, none⟩ := count_elsewhere (i := i) held (by simp [state]) (by simp [state])
    exact owing_silent taken none (by simp [state])
  | commits hi state _ _ =>
    obtain ⟨taken, none⟩ := count_elsewhere (i := i) held (by simp [state]) (by simp [state])
    exact owing_silent taken none (by simp)
  | offers hi state refused =>
    obtain ⟨_, none⟩ := count_arSend (i := i) held state
    constructor <;> simp [none, refused, state]
  | addressed hi state accepted =>
    obtain ⟨taken, whole⟩ := count_arSend (i := i) held state
    rw [accepted, if_pos rfl] at whole
    have some : beatsAt g r.sArAddr ≠ [] := by
      rw [← List.length_pos_iff]
      simpa [beatsAt] using positive
    have asked : (d.count g r i).owed =
        beatsAt g (r.sArAddr + g.cBurstBytes - g.cBurstBytes) := by
      rw [whole, BitVec.add_sub_cancel]
    exact ⟨by simp [taken, accepted], by simp [whole, some], fun _ => asked ▸ List.suffix_rfl⟩
  | receives hi state unfinished =>
    obtain ⟨taken, fewer⟩ := count_rRecv (g := g) (d := d) (i := i) state
    have some := inStep.receiving state
    have ending := held.place (by simp [oRready, state])
    refine ⟨by simp [taken], ?_, ?_⟩
    · simp only [fewer, state, iff_true]
      cases valid : i.iRvalid with
      | false => simpa using some
      | true =>
        have notLast : i.iRlast = false := by simpa [valid] using unfinished
        have last := held.last_iff returns state valid
        simpa [notLast] using last
    · intro _
      rw [fewer]
      exact (List.drop_suffix _ _).trans ending
  | finishes hi next state valid last continued =>
    obtain ⟨taken, fewer⟩ := count_rRecv (g := g) (d := d) (i := i) state
    obtain ⟨left, _⟩ := chained_elsewhere continued
    have none := (held.last_iff returns state valid).mp last
    exact owing_silent taken (by simpa [fewer, valid] using none) left

/-- In a ring of whole bursts the address register and the read pointer move, and
wrap, together. -/
theorem InStep.running_aligned (inStep : InStep g r d) {progFull : Bool} {r' : Registers}
    (moved : Moves g progFull i r r') (whole : WholeBursts g r') (active : r'.sState ≠ .standby) :
    g.burst ∣ r'.sRdPtr.toNat ∧ r'.sRdPtr.toNat < r'.sBufSize.toNat ∧
      r'.sTopAddr.toNat = r'.sBaseAddr.toNat + r'.sBufSize.toNat ∧
      r'.sArAddr.toNat = r'.sBaseAddr.toNat + r'.sRdPtr.toNat +
        if r'.sState = .rRecv then g.burst else 0 := by
  cases moved with
  | rests hi state _ => exact absurd state active
  | starts hi state _ =>
    obtain ⟨positive, _, place⟩ := whole
    have top : (i.iBaseAddr + i.iBufSize).toNat = i.iBaseAddr.toNat + i.iBufSize.toNat := by
      rw [BitVec.toNat_add, Nat.mod_eq_of_lt place]
    simp [top, positive]
  | stops hi state _ => exact absurd rfl active
  | waits hi state _ => exact inStep.aligned whole active
  | commits hi state _ _ =>
    simpa [state] using inStep.aligned whole (by simp [state])
  | offers hi state _ => exact inStep.aligned whole active
  | addressed hi state _ =>
    have same : WholeBursts g r := whole
    obtain ⟨positive, divides, place⟩ := same
    obtain ⟨aligned, below, top, address⟩ := inStep.aligned whole (by simp [state])
    have constant := g.burst_bytes_exact positive divides
    have fits := step_fits divides aligned below
    simp only [state, reduceCtorEq, if_false, Nat.add_zero] at address
    refine ⟨aligned, below, top, ?_⟩
    rw [BitVec.toNat_add, constant, address, if_pos rfl, Nat.mod_eq_of_lt (by omega)]
  | receives hi state _ => exact inStep.aligned whole active
  | finishes hi next state _ _ continued =>
    obtain ⟨left, _⟩ := chained_elsewhere continued
    have same : WholeBursts g r := whole
    obtain ⟨positive, divides, place⟩ := same
    obtain ⟨aligned, below, top, address⟩ := inStep.aligned whole (by simp [state])
    have constant := g.burst_bytes_exact positive divides
    have fits := step_fits divides aligned below
    have sum : (r.sRdPtr + g.cBurstBytes).toNat = r.sRdPtr.toNat + g.burst := by
      rw [BitVec.toNat_add, constant, Nat.mod_eq_of_lt (by omega)]
    simp only [state, if_true] at address
    have sameTest : r.sTopAddr ≤ r.sArAddr ↔ r.sBufSize ≤ r.sRdPtr + g.cBurstBytes := by
      rw [BitVec.le_def, BitVec.le_def, top, address, sum]
      omega
    simp only [left, if_false, wrapNext, sameTest]
    by_cases wraps : r.sBufSize ≤ r.sRdPtr + g.cBurstBytes
    · simp [wraps, positive, top]
    · have inside : (r.sRdPtr + g.cBurstBytes).toNat < r.sBufSize.toNat := by
        simpa [BitVec.le_def] using wraps
      simp only [wraps, if_false]
      refine ⟨?_, inside, top, ?_⟩
      · rw [sum]
        exact Nat.dvd_add aligned (Nat.dvd_refl _)
      · rw [address, sum]
        omega

/-- The engine's own records stay in step through every clock, in reset and out of it. -/
theorem InStep.clock {Fifo : Type} (xpm : XpmFifoSync (BitVec 64) Fifo) {e : Entity Fifo}
    (inStep : InStep g e.regs d) (held : Honoured g e.regs d) (returns : Returns d i) :
    InStep g (clock g xpm e i).regs (d.count g e.regs i) := by
  cases running : i.iAresetn with
  | false =>
    rw [reset_clock g xpm e i running]
    constructor <;> simp [resetRegisters]
  | true =>
    have moved := clock_moves g xpm e i running
    exact ⟨(held.running_port inStep returns moved).accepted.mpr, inStep.running_aligned moved⟩

/-- The dues stay honoured over a clock exactly when its reset spares them. -/
theorem Honoured.clock_iff {Fifo : Type} (xpm : XpmFifoSync (BitVec 64) Fifo) {e : Entity Fifo}
    (held : Honoured g e.regs d) (inStep : InStep g e.regs d) (returns : Returns d i) :
    Honoured g (clock g xpm e i).regs (d.count g e.regs i) ↔ Spared e.regs i := by
  cases running : i.iAresetn with
  | false =>
    rw [reset_clock g xpm e i running]
    exact held.reset_iff inStep returns running rfl
  | true =>
    have owing := held.running_port inStep returns (clock_moves g xpm e i running)
    have records := inStep.clock xpm held returns
    have spared : Spared e.regs i := by simp [Spared, running]
    refine iff_of_true ⟨?_, ?_, ?_, ?_⟩ spared
    · intro refused
      exact decide_eq_true (owing.offered refused)
    · intro some
      exact decide_eq_true (owing.accepted.mp some)
    · intro receiving
      exact owing.place (of_decide_eq_true receiving)
    · intro whole receiving
      exact records.ring whole (of_decide_eq_true receiving)

/-- Out of its reset the engine owes nothing. -/
theorem honoured_reset : Honoured g resetRegisters noDues ∧ InStep g resetRegisters noDues := by
  refine ⟨?_, ?_⟩ <;> constructor <;> simp [resetRegisters, noDues, oRready]

end Steps

end Zyndra.AxiMasterRd
