import Zyndra.ReadBench
import Zyndra.WindDown
import Zyndra.WriteBench

/-!
# Disabling an engine

Both engines look at `i_enable` between bursts, in IDLE. A burst that ends with the
next one at hand goes on to it directly, and no disable is seen on that way. For the
writer the next burst is at hand when its FIFO is filled to the threshold, for the
reader when its FIFO has room and the ring has data.

In WAIT_OUTSTANDING the writer looks at a count of four bits, which is zero with any
multiple of sixteen responses outstanding. It then goes to STANDBY before they arrive.

A disabled engine makes no new offer, finishes its burst and awaits its responses, and
then goes to STANDBY, exactly when no burst ends like that and the count is not zero with
responses outstanding. The writer takes two clocks after its last response, through
WAIT_OUTSTANDING, and the reader takes one after its last beat.
-/

namespace Zyndra.AxiMasterWr

open Runs WindDown

/-- The writer with the bursts that the slave has accepted and not answered. -/
structure Port (Fifo : Type) where
  dut : Entity Fifo
  outstanding : Nat

section Port

variable {Fifo : Type} (g : Generics) (xpm : XpmFifoSync (BitVec 64) Fifo)

def Port.clock (p : Port Fifo) (i : Inputs) : Port Fifo where
  dut := AxiMasterWr.clock g xpm p.dut i
  outstanding := p.outstanding + (awHandshake p.dut.regs.sm i).toNat - (bHandshake i).toNat

def resetPort (sWrPtr sPrevTdata : BitVec 32) (fifo : Fifo) : Port Fifo :=
  ⟨⟨resetRegisters sWrPtr sPrevTdata, fifo⟩, 0⟩

/-- No soft reset, and a response only for an accepted address. -/
def Served (p : Port Fifo) (i : Inputs) : Prop :=
  i.iAresetn = true ∧ (i.iBvalid = true → 0 < p.outstanding)

def Disabled (p : Port Fifo) (i : Inputs) : Prop := i.iEnable = false ∧ Served p i

/-- The writer as a machine that may be stopped. -/
def stopping : Machine (Port Fifo) Inputs where
  step := Port.clock g xpm
  offers p := oAwvalid p.dut.regs.sm
  busy p := oAwvalid p.dut.regs.sm || oWvalid p.dut.regs.sm || decide (p.outstanding ≠ 0)
  parked p := decide (p.dut.regs.sm.sState = .standby)

/-- A burst that ends on this clock leaves the FIFO short of another. -/
def EndsShort (p : Port Fifo) (i : Inputs) : Prop :=
  p.dut.regs.sm.sState = .wSend → i.iWready = true → p.dut.regs.sm.sBeatCnt = g.gBurstLen - 1 →
    xpm.progFull p.dut.fifo = false

/-- The four bits of the pending count tell the responses outstanding from none. -/
def Drains (p : Port Fifo) : Prop :=
  p.dut.regs.sm.sState = .waitOutstanding → p.outstanding ≠ 0 → p.outstanding % 16 ≠ 0

instance (p : Port Fifo) (i : Inputs) : Decidable (Served p i) :=
  inferInstanceAs (Decidable (_ ∧ (_ → _)))

instance (p : Port Fifo) (i : Inputs) : Decidable (Disabled p i) :=
  inferInstanceAs (Decidable (_ ∧ _))

instance (p : Port Fifo) (i : Inputs) : Decidable (EndsShort g xpm p i) :=
  inferInstanceAs (Decidable (_ → _ → _ → _))

instance (p : Port Fifo) : Decidable (Drains p) := inferInstanceAs (Decidable (_ → _ → _))

/-- The pending count is that of the outstanding bursts modulo its width. -/
def Counted (p : Port Fifo) : Prop := p.dut.regs.sPendingCnt.toNat = p.outstanding % 16

theorem Counted.clock {p : Port Fifo} {i : Inputs} (counted : Counted p) (served : Served p i) :
    Counted (p.clock g xpm i) := by
  obtain ⟨running, answers⟩ := served
  unfold Counted at *
  change (pendingProcess p.dut.regs i).toNat = (p.outstanding +
    (oAwvalid p.dut.regs.sm && i.iAwready).toNat - (i.iBvalid && oBready).toNat) % 16
  unfold pendingProcess oBready
  cases request : (oAwvalid p.dut.regs.sm && i.iAwready) <;> cases response : i.iBvalid <;>
    simp [running, response, counted] at answers ⊢
  all_goals omega

/-- Steps from the state to STANDBY, with nothing left to send. -/
def distance (p : Port Fifo) : Nat :=
  match p.dut.regs.sm.sState with
  | .standby => 0
  | .waitOutstanding => 1
  | _ => 2

/-- The state after a clock of a disabled writer. -/
theorem clock_disabled {p : Port Fifo} {i : Inputs} (disabled : Disabled p i) :
    (p.clock g xpm i).dut.regs.sm.sState =
      match p.dut.regs.sm.sState with
      | .standby => .standby
      | .idle => .waitOutstanding
      | .awSend => if i.iAwready then .wSend else .awSend
      | .wSend =>
        if i.iWready && decide (p.dut.regs.sm.sBeatCnt = g.gBurstLen - 1) then
          if xpm.progFull p.dut.fifo then .awSend else .idle
        else .wSend
      | .waitOutstanding => if p.dut.regs.sPendingCnt = 0 then .standby else .waitOutstanding := by
  obtain ⟨off, running, _⟩ := disabled
  have moved := procSm_moves g (xpm.progFull p.dut.fifo) p.dut.regs.sPendingCnt i p.dut.regs.sm
    running
  change (procSm g p.dut.regs.sm p.dut.regs.sPendingCnt i (xpm.progFull p.dut.fifo)).sState = _
  generalize procSm g p.dut.regs.sm p.dut.regs.sPendingCnt i (xpm.progFull p.dut.fifo) = after
    at moved ⊢
  cases moved with
  | rests state _ => simp [state]
  | starts _ enabled => simp [off] at enabled
  | stops state _ => simp [state]
  | waits _ enabled _ => simp [off] at enabled
  | commits _ enabled _ => simp [off] at enabled
  | offers state refused => simp [state, refused]
  | addressed state accepted => simp [state, accepted]
  | stalls state refused => simp [state, refused]
  | sends state _ more => simp [state, more]
  | finishes next state accepted last continued => simp [state, accepted, last, continued]
  | drains state outstanding => rw [state]; exact (if_neg outstanding).symm
  | retires state settled => rw [state]; exact (if_pos settled).symm

/-- The count is zero with a multiple of its width outstanding. -/
theorem Counted.zero_iff {p : Port Fifo} (counted : Counted p) :
    p.dut.regs.sPendingCnt = 0 ↔ p.outstanding % 16 = 0 := by
  rw [← counted, ← BitVec.toNat_inj]
  rfl

/-- A disabled writer offers no address unless a burst of its ends with another at hand. -/
theorem quiet_iff {p : Port Fifo} {i : Inputs} (rule : Disabled p i) :
    (stopping g xpm).Quiet p i ↔ EndsShort g xpm p i := by
  have next := clock_disabled g xpm rule
  simp only [Machine.Quiet, stopping, oAwvalid, decide_eq_false_iff_not, EndsShort, next]
  cases state : p.dut.regs.sm.sState with
  | standby => simp
  | idle => simp
  | awSend => simp
  | wSend =>
    by_cases last : p.dut.regs.sm.sBeatCnt = g.gBurstLen - 1 <;> cases i.iWready <;>
      cases xpm.progFull p.dut.fifo <;> simp [last]
  | waitOutstanding => by_cases settled : p.dut.regs.sPendingCnt = 0#4 <;> simp [settled]

/-- It goes to STANDBY with responses outstanding only when its count does not show them. -/
theorem patient_iff {p : Port Fifo} {i : Inputs} (counted : Counted p) (rule : Disabled p i) :
    (stopping g xpm).Patient p i ↔ Drains p := by
  have next := clock_disabled g xpm rule
  simp only [Machine.Patient, stopping, oAwvalid, oWvalid, decide_eq_false_iff_not, Drains, next]
  cases state : p.dut.regs.sm.sState with
  | standby => simp
  | idle => simp
  | awSend => cases i.iAwready <;> simp
  | wSend =>
    by_cases last : p.dut.regs.sm.sBeatCnt = g.gBurstLen - 1 <;> cases i.iWready <;>
      cases xpm.progFull p.dut.fifo <;> simp [last]
  | waitOutstanding =>
    have zero := counted.zero_iff
    by_cases settled : p.dut.regs.sPendingCnt = 0#4
    · simp [settled, zero.mp settled]
    · simp [settled, mt zero.mpr settled]

/-- What a clock does to a disabled writer. -/
theorem stopping_sinks :
    (stopping g xpm).Sinks Disabled (fun p i => EndsShort g xpm p i ∧ Drains p) Counted
      distance 2 where
  preserved p i counted rule := counted.clock g xpm rule.2
  bounded p := by
    unfold distance
    split <;> omega
  parked p none := by
    cases state : p.dut.regs.sm.sState <;> simp [distance, stopping, state] at none ⊢
  quiet p i counted rule := and_congr (quiet_iff g xpm rule) (patient_iff g xpm counted rule)
  falls p i counted rule idle := by
    have next := clock_disabled g xpm rule
    simp only [stopping, oAwvalid, oWvalid, Bool.or_eq_false_iff, decide_eq_false_iff_not,
      not_not] at idle
    obtain ⟨⟨noAddress, noBeat⟩, none⟩ := idle
    have settled : p.dut.regs.sPendingCnt = 0 := counted.zero_iff.mpr (by rw [none])
    change distance (p.clock g xpm i) ≤ distance p - 1
    unfold distance
    rw [next]
    cases state : p.dut.regs.sm.sState with
    | standby => simp
    | idle => simp
    | awSend => exact absurd state noAddress
    | wSend => exact absurd state noBeat
    | waitOutstanding => simp [settled]

end Port

end Zyndra.AxiMasterWr

namespace Zyndra.AxiMasterRd

open Runs WindDown

section Stop

variable {Fifo : Type} (g : Generics) (xpm : XpmFifoSync (BitVec 64) Fifo)

def Disabled (_ : Entity Fifo) (i : Inputs) : Prop := i.iEnable = false ∧ i.iAresetn = true

/-- The reader as a machine that may be stopped. -/
def stopping : Machine (Entity Fifo) Inputs where
  step := clock g xpm
  offers e := oArvalid e.regs
  busy e := oArvalid e.regs || oRready e.regs
  parked e := decide (e.regs.sState = .standby)

/-- A burst that ends on this clock leaves the FIFO without room or the ring without
another. -/
def EndsShort (e : Entity Fifo) (i : Inputs) : Prop :=
  e.regs.sState = .rRecv → i.iRvalid = true → i.iRlast = true →
    xpm.progFull e.fifo = true ∨ sHasBurst g e.regs i = false

instance (e : Entity Fifo) (i : Inputs) : Decidable (Disabled e i) :=
  inferInstanceAs (Decidable (_ ∧ _))

instance (e : Entity Fifo) (i : Inputs) : Decidable (EndsShort g xpm e i) :=
  inferInstanceAs (Decidable (_ → _ → _ → _))

/-- Steps from the state to STANDBY, with nothing left to receive. -/
def distance (e : Entity Fifo) : Nat := if e.regs.sState = .standby then 0 else 1

/-- The state after a clock of a disabled reader. -/
theorem clock_disabled {e : Entity Fifo} {i : Inputs} (disabled : Disabled e i) :
    (clock g xpm e i).regs.sState =
      match e.regs.sState with
      | .standby => .standby
      | .idle => .standby
      | .arSend => if i.iArready then .rRecv else .arSend
      | .rRecv =>
        if i.iRvalid && i.iRlast then
          if !xpm.progFull e.fifo && sHasBurst g e.regs i then .arSend else .idle
        else .rRecv := by
  obtain ⟨off, running⟩ := disabled
  cases state : e.regs.sState with
  | standby => simp [clock, procSm, off, running, state]
  | idle => simp [clock, procSm, off, running, state]
  | arSend => cases accepted : i.iArready <;> simp [clock, procSm, running, state, accepted]
  | rRecv =>
    cases ended : (i.iRvalid && i.iRlast) <;> simp [clock, procSm, running, state, ended]

/-- What a clock does to a disabled reader. -/
theorem stopping_sinks :
    (stopping g xpm).Sinks Disabled (EndsShort g xpm) (fun _ => True) distance 1 where
  preserved _ _ _ _ := trivial
  bounded e := by
    unfold distance
    split <;> omega
  parked e none := by
    simpa [distance, stopping] using none
  quiet e i _ rule := by
    have next := clock_disabled g xpm rule
    -- With a burst unfinished the reader stays between its two states or goes to IDLE.
    have patient : (stopping g xpm).Patient e i := by
      simp only [Machine.Patient, stopping, oArvalid, oRready, decide_eq_false_iff_not, next]
      cases state : e.regs.sState with
      | standby => simp
      | idle => simp
      | arSend => cases i.iArready <;> simp
      | rRecv =>
        cases i.iRvalid <;> cases i.iRlast <;> cases xpm.progFull e.fifo <;>
          cases sHasBurst g e.regs i <;> simp
    rw [and_iff_left patient]
    simp only [Machine.Quiet, stopping, oArvalid, decide_eq_false_iff_not, EndsShort, next]
    cases state : e.regs.sState with
    | standby => simp
    | idle => simp
    | arSend => simp
    | rRecv =>
      cases i.iRvalid <;> cases i.iRlast <;> cases xpm.progFull e.fifo <;>
        cases sHasBurst g e.regs i <;> simp
  falls e i _ rule idle := by
    have next := clock_disabled g xpm rule
    simp only [stopping, oArvalid, oRready, Bool.or_eq_false_iff, decide_eq_false_iff_not] at idle
    have parked : (clock g xpm e i).regs.sState = .standby := by
      cases state : e.regs.sState with
      | standby => rw [next, state]
      | idle => rw [next, state]
      | arSend => exact absurd state idle.1
      | rRecv => exact absurd state idle.2
    have after : distance (clock g xpm e i) = 0 := if_pos parked
    change distance (clock g xpm e i) ≤ _
    omega

end Stop

end Zyndra.AxiMasterRd

namespace Zyndra.Ad936xAxi

open Runs WindDown

section Engines

variable {WrFifo RdFifo : Type} (g : Generics) (wr : XpmFifoSync (BitVec 64) WrFifo)
  (rd : XpmFifoSync (BitVec 64) RdFifo)

/-- The writer in a state it has reached out of its reset, and the reader in any state,
wind down once they are disabled exactly when no burst of theirs ends with the next
one at hand and the writer's count shows what is outstanding. -/
theorem disabled_engines_stop_iff (sWrPtr sPrevTdata : BitVec 32) (fifo : WrFifo)
    (past inputs : List AxiMasterWr.Inputs) (e : AxiMasterRd.Entity RdFifo)
    (readerInputs : List AxiMasterRd.Inputs)
    (served : Follows AxiMasterWr.Served (AxiMasterWr.Port.clock g wr)
      (AxiMasterWr.resetPort sWrPtr sPrevTdata fifo) past)
    (disabled : Follows AxiMasterWr.Disabled (AxiMasterWr.Port.clock g wr)
      (run (AxiMasterWr.Port.clock g wr) (AxiMasterWr.resetPort sWrPtr sPrevTdata fifo) past)
      inputs)
    (readerDisabled : Follows AxiMasterRd.Disabled (AxiMasterRd.clock g rd) e readerInputs) :
    (Always (WindsDown (AxiMasterWr.stopping g wr) 2) (AxiMasterWr.stopping g wr).observe
        (watch (run (AxiMasterWr.Port.clock g wr)
          (AxiMasterWr.resetPort sWrPtr sPrevTdata fifo) past)) inputs ∧
      Always (WindsDown (AxiMasterRd.stopping g rd) 1) (AxiMasterRd.stopping g rd).observe
        (watch e) readerInputs) ↔
      Follows (fun p i => AxiMasterWr.EndsShort g wr p i ∧ AxiMasterWr.Drains p)
          (AxiMasterWr.Port.clock g wr)
          (run (AxiMasterWr.Port.clock g wr)
            (AxiMasterWr.resetPort sWrPtr sPrevTdata fifo) past) inputs ∧
        Follows (AxiMasterRd.EndsShort g rd) (AxiMasterRd.clock g rd) e readerInputs := by
  have counted := invariant
    (fun p i counted served => AxiMasterWr.Counted.clock g wr counted served)
    (rfl : AxiMasterWr.Counted (AxiMasterWr.resetPort sWrPtr sPrevTdata fifo)) past served
  have writer := winds_down_iff (AxiMasterWr.stopping_sinks g wr) counted inputs disabled
  have reader := winds_down_iff (AxiMasterRd.stopping_sinks g rd) trivial readerInputs
    readerDisabled
  exact and_congr writer reader

end Engines

/-! ## A burst of each engine, up to its last beat -/

/-- Some words taken from the stream, and all but the last beat of a burst sent. -/
def wrMidBurst (words : Nat) : List AxiMasterWr.Inputs :=
  AxiMasterWr.ports false false false false 0 :: AxiMasterWr.streamIn words ++
    AxiMasterWr.ports false false false false 0 :: AxiMasterWr.burstOnBus.take 16

/-- All but the last beat of a burst received, with more published in the ring. -/
def rdMidBurst : List AxiMasterRd.Inputs :=
  AxiMasterRd.ports false false false false 0 :: AxiMasterRd.ports false false false false 0 ::
    AxiMasterRd.ports true false false false 0 :: (AxiMasterRd.burstOnBus false).take 15

/-- A clock of the disabled writer, and one of the disabled reader. -/
def wrDisabled (wready bvalid : Bool) : AxiMasterWr.Inputs :=
  { AxiMasterWr.ports false wready bvalid false 0 with iEnable := false }

def rdDisabled (rlast : Bool) (wrPtr : BitVec 32) : AxiMasterRd.Inputs :=
  { AxiMasterRd.ports false rlast rlast false 0 with iEnable := false, iWrPtr := wrPtr }

/-- Sixteen bursts accepted, one after the other, and none of them answered. -/
def wrSixteenBursts : List AxiMasterWr.Inputs :=
  AxiMasterWr.ports false false false false 0 ::
    (List.replicate 16 (AxiMasterWr.streamIn 32 ++
      AxiMasterWr.ports false false false false 0 :: AxiMasterWr.burstOnBus.take 17)).flatten

/-- With a second burst at hand both offer its address after the last beat, and with
sixteen responses outstanding the writer goes to STANDBY at once. -/
theorem disabled_engines_go_on :
    Follows AxiMasterWr.Served
        (AxiMasterWr.Port.clock .ad936xAxi (AxiMasterWr.idealFifo .ad936xAxi))
        (AxiMasterWr.resetPort 0 0 []) (wrMidBurst 64) ∧
      ¬ Always (WindsDown (AxiMasterWr.stopping .ad936xAxi (AxiMasterWr.idealFifo .ad936xAxi)) 2)
        (AxiMasterWr.stopping .ad936xAxi (AxiMasterWr.idealFifo .ad936xAxi)).observe
        (watch (run (AxiMasterWr.Port.clock .ad936xAxi (AxiMasterWr.idealFifo .ad936xAxi))
          (AxiMasterWr.resetPort 0 0 []) (wrMidBurst 64))) [wrDisabled true false] ∧
      ¬ Always (WindsDown (AxiMasterRd.stopping .ad936xAxi (AxiMasterRd.idealFifo .ad936xAxi)) 1)
        (AxiMasterRd.stopping .ad936xAxi (AxiMasterRd.idealFifo .ad936xAxi)).observe
        (watch (run (AxiMasterRd.clock .ad936xAxi (AxiMasterRd.idealFifo .ad936xAxi))
          ⟨AxiMasterRd.resetRegisters, []⟩ rdMidBurst)) [rdDisabled true 128] ∧
      Follows AxiMasterWr.Served
        (AxiMasterWr.Port.clock .ad936xAxi (AxiMasterWr.idealFifo .ad936xAxi))
        (AxiMasterWr.resetPort 0 0 []) wrSixteenBursts ∧
      ¬ Always (WindsDown (AxiMasterWr.stopping .ad936xAxi (AxiMasterWr.idealFifo .ad936xAxi)) 2)
        (AxiMasterWr.stopping .ad936xAxi (AxiMasterWr.idealFifo .ad936xAxi)).observe
        (watch (run (AxiMasterWr.Port.clock .ad936xAxi (AxiMasterWr.idealFifo .ad936xAxi))
          (AxiMasterWr.resetPort 0 0 []) wrSixteenBursts))
        [wrDisabled false false, wrDisabled false false] :=
  ⟨by decide +kernel, by decide +kernel, by decide +kernel, by decide +kernel, by decide +kernel⟩

/-- With no second burst at hand both stop after it. -/
theorem disabled_engines_stop :
    Always (WindsDown (AxiMasterWr.stopping .ad936xAxi (AxiMasterWr.idealFifo .ad936xAxi)) 2)
        (AxiMasterWr.stopping .ad936xAxi (AxiMasterWr.idealFifo .ad936xAxi)).observe
        (watch (run (AxiMasterWr.Port.clock .ad936xAxi (AxiMasterWr.idealFifo .ad936xAxi))
          (AxiMasterWr.resetPort 0 0 []) (wrMidBurst 32)))
        [wrDisabled true false, wrDisabled false true, wrDisabled false false] ∧
      Always (WindsDown (AxiMasterRd.stopping .ad936xAxi (AxiMasterRd.idealFifo .ad936xAxi)) 1)
        (AxiMasterRd.stopping .ad936xAxi (AxiMasterRd.idealFifo .ad936xAxi)).observe
        (watch (run (AxiMasterRd.clock .ad936xAxi (AxiMasterRd.idealFifo .ad936xAxi))
          ⟨AxiMasterRd.resetRegisters, []⟩ rdMidBurst)) [rdDisabled true 0, rdDisabled false 0] :=
  (disabled_engines_stop_iff .ad936xAxi (AxiMasterWr.idealFifo .ad936xAxi)
    (AxiMasterRd.idealFifo .ad936xAxi) 0 0 [] (wrMidBurst 32) _ _ _ (by decide +kernel)
    (by decide +kernel) (by decide +kernel)).mpr (by decide +kernel)

end Zyndra.Ad936xAxi
