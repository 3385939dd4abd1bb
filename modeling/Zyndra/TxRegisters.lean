import Zyndra.AxiLite
import Zyndra.TxSession

/-!
# The transmit session's registers, from the driver to the slave

The driver's register writes are posted: they arrive at the register slave later, in
order. Until then the slave shows earlier values, an offset of the write pointer that
the ring had, and a control word from before ENABLE.

A session writes two registers. Each block it shows moves the write pointer, and ENABLE
sets the control word, once.
-/

namespace Zyndra.TxChain

open SlotRing AxiLite Ad9361Txrx

/-! ## Posted writes -/

/-- A register write on its way to the slave. -/
structure Posted where
  addr : TRegaddr
  data : BitVec 32
  deriving DecidableEq

/-- The registers of the slave when all that the driver has written has arrived. -/
def mirror (r : Driver.Regs) : Registers where
  sRxEn := r.ctrl.getLsbD cCtrlRxEnable
  sReset := r.ctrl.getLsbD cCtrlReset
  sTxEn := r.ctrl.getLsbD cCtrlTxEnable
  sRxBufBase := r.rxBufBase
  sRxBufSize := r.rxBufSize
  sTxBufBase := r.txBufBase
  sTxBufSize := r.txBufSize
  sTxBufWr := r.txBufWr

/-- What a step of the session writes to the registers. A write of the value that a
register has already is left out: it changes nothing when it arrives. -/
def written (before after : Driver.Regs) : List Posted :=
  (if after.ctrl = before.ctrl then [] else [⟨cRegCtrl, after.ctrl⟩]) ++
    if after.txBufWr = before.txBufWr then [] else [⟨cRegTxBufWr, after.txBufWr⟩]

/-- The register slave takes a write. -/
def take (r : Registers) (w : Posted) : Registers := r.assign w.addr w.data

/-- The offsets on their way are those of positions between the one whose offset has
arrived and the one published. -/
def InFlight (size : Nat) : Nat → List Posted → Nat → Prop
  | arrived, [], published => arrived = published
  | arrived, w :: others, published =>
    if w.addr = cRegTxBufWr then
      ∃ next, arrived ≤ next ∧ w.data.toNat = next % size ∧ InFlight size next others published
    else InFlight size arrived others published

section InFlight

variable {size arrived published : Nat} {posted : List Posted}

theorem InFlight.le (inFlight : InFlight size arrived posted published) :
    arrived ≤ published := by
  induction posted generalizing arrived with
  | nil => exact Nat.le_of_eq inFlight
  | cons w others inductionHypothesis =>
    unfold InFlight at inFlight
    split at inFlight
    · obtain ⟨next, later, -, rest⟩ := inFlight
      exact Nat.le_trans later (inductionHypothesis rest)
    · exact inductionHypothesis inFlight

/-- One more offset is posted behind the others. -/
theorem InFlight.publish (inFlight : InFlight size arrived posted published) {next : Nat}
    (later : published ≤ next) {data : BitVec 32} (offset : data.toNat = next % size) :
    InFlight size arrived (posted ++ [⟨cRegTxBufWr, data⟩]) next := by
  induction posted generalizing arrived with
  | nil =>
    have same : arrived = published := inFlight
    rw [List.nil_append, InFlight, if_pos rfl]
    exact ⟨next, same ▸ later, offset, rfl⟩
  | cons w others inductionHypothesis =>
    rw [List.cons_append]
    unfold InFlight at inFlight ⊢
    split at inFlight
    · rename_i pointer
      obtain ⟨middle, after, value, rest⟩ := inFlight
      rw [if_pos pointer]
      exact ⟨middle, after, value, inductionHypothesis rest⟩
    · rename_i other
      rw [if_neg other]
      exact inductionHypothesis inFlight

/-- A control word does not matter to them. -/
theorem InFlight.control (inFlight : InFlight size arrived posted published) (data : BitVec 32) :
    InFlight size arrived (posted ++ [⟨cRegCtrl, data⟩]) published := by
  induction posted generalizing arrived with
  | nil => exact inFlight
  | cons w others inductionHypothesis =>
    rw [List.cons_append]
    unfold InFlight at inFlight ⊢
    split at inFlight
    · rename_i pointer
      obtain ⟨middle, after, value, rest⟩ := inFlight
      rw [if_pos pointer]
      exact ⟨middle, after, value, inductionHypothesis rest⟩
    · rename_i other
      rw [if_neg other]
      exact inductionHypothesis inFlight

end InFlight

/-! ## What a session writes -/

/-- The events that are not the hardware's. -/
def OfSoftware : TxSessionEvent → Prop
  | .fetch => False
  | .report _ => False
  | _ => True

instance : (e : TxSessionEvent) → Decidable (OfSoftware e)
  | .thread => isTrue trivial
  | .recv _ => isTrue trivial
  | .recvInterrupted => isTrue trivial
  | .recvFailed => isTrue trivial
  | .close => isTrue trivial
  | .writeBack _ => isTrue trivial
  | .fetch => isFalse id
  | .report _ => isFalse id

/-- A control word that enables the transmit side and resets nothing. -/
structure Enabling (ctrl : BitVec 32) : Prop where
  on : ctrl.getLsbD cCtrlTxEnable = true
  noReset : ctrl.getLsbD cCtrlReset = false

/-- The control word an ENABLE in progress has chosen. -/
def Chosen : Driver.EnablePc → Prop
  | .disable ctrl => Enabling ctrl
  | .clearRd ctrl => Enabling ctrl
  | .clearTimer ctrl => Enabling ctrl
  | .clearBlocks ctrl => Enabling ctrl
  | .enable ctrl => Enabling ctrl
  | .chooseCtrl => True
  | .returned => True

/-- Up to the last step of ENABLE nothing is enabled. -/
def Quiet (s : TxSession) : Prop :=
  match s.pc with
  | .prefilling _ => s.bench.dev.regs.ctrl = 0
  | .putting (some _) => s.bench.dev.regs.ctrl = 0
  | .enabling at_ => s.bench.dev.regs.ctrl = 0 ∧ Chosen at_
  | _ => True

section Software

variable {blockSize mapSize : BitVec 32} {s s' : TxSession}

/-- What a step of software does to the registers: nothing, the offset behind the block
that is shown, or the control word of ENABLE. -/
inductive Writes (blockSize : BitVec 32) (s s' : TxSession) : Prop where
  | none (regs : s'.bench.dev.regs = s.bench.dev.regs)
      (published : s'.bench.published = s.bench.published)
  | shows (wr : BitVec 32)
      (regs : s'.bench.dev.regs = { s.bench.dev.regs with txBufWr := wr })
      (published : s'.bench.published = s.bench.published + blockSize.toNat)
  | enables (ctrl : BitVec 32) (enabling : Enabling ctrl) (before : s.bench.dev.regs.ctrl = 0)
      (regs : s'.bench.dev.regs = { s.bench.dev.regs with ctrl := ctrl })
      (published : s'.bench.published = s.bench.published)

/-- What a step of software leaves alone, and what it writes. -/
structure Moves (blockSize : BitVec 32) (s s' : TxSession) : Prop where
  played : s'.played = s.played
  consumed : s'.bench.consumed = s.bench.consumed
  phys : s'.bench.dev.priv.txbufPhys = s.bench.dev.priv.txbufPhys
  quiet : Quiet s'
  writes : Writes blockSize s s'

/-- Where the device and the positions stay, nothing is written. -/
theorem Moves.still (played : s'.played = s.played) (bench : s'.bench = s.bench)
    (quiet : Quiet s') : Moves blockSize s s' :=
  ⟨played, by rw [bench], by rw [bench], quiet, .none (by rw [bench]) (by rw [bench])⟩

/-- Into a call, or to the end of the thread when the descriptor refuses it. -/
theorem quiet_enter {pc : TxSessionPc} (quiet : Quiet { s with pc := pc }) :
    Quiet { s with pc := if s.fdOpen then pc else .ended } := by
  split
  · exact quiet
  · trivial

/-- A step of `write`. -/
theorem put_moves (kept : Streams blockSize mapSize s) (quiet : Quiet s) {left : Option Nat}
    (at_ : s.pc = .putting left) : Moves blockSize s (putStep blockSize left s) := by
  rcases kept.put_step at_ with ⟨pc, passedEqual, marked, -, next⟩ | ⟨wr, -, -, next⟩
  · rw [next]
    refine ⟨rfl, rfl, rfl, ?_, .none rfl rfl⟩
    simpa only [Quiet, at_] using quiet
  · rw [next]
    cases left with
    | some left =>
      have off : s.bench.dev.regs.ctrl = 0 := by simpa only [Quiet, at_] using quiet
      exact ⟨rfl, rfl, rfl, off, .shows wr rfl rfl⟩
    | none => exact ⟨rfl, rfl, rfl, trivial, .shows wr rfl rfl⟩

/-- With the ring mapped, the word ENABLE chooses lets the hardware transmit. -/
theorem enableCtrl_enabling {d : Driver.Device} (mapped : 0 < d.priv.txbufSize) :
    Enabling (Driver.enableCtrl d) := by
  unfold Driver.enableCtrl
  rw [if_pos mapped]
  split <;> exact ⟨by decide, by decide⟩

/-- A step of ENABLE. -/
theorem enable_moves (mapped : 0 < s.bench.dev.priv.txbufSize) {at_ : Driver.EnablePc}
    (quiet : s.bench.dev.regs.ctrl = 0 ∧ Chosen at_) :
    Moves blockSize s
      { s with
        bench := { s.bench with dev := (Driver.enableStep at_ s.bench.dev).2 }
        pc := match (Driver.enableStep at_ s.bench.dev).1 with
          | .returned => .receiving (Transfers.begin blockSize.toNat)
          | next => .enabling next } := by
  obtain ⟨off, chosen⟩ := quiet
  have same : { s.bench.dev.regs with ctrl := 0 } = s.bench.dev.regs := by rw [← off]
  cases at_ with
  | chooseCtrl => exact ⟨rfl, rfl, rfl, ⟨off, enableCtrl_enabling mapped⟩, .none rfl rfl⟩
  | disable ctrl => exact ⟨rfl, rfl, rfl, ⟨rfl, chosen⟩, .none same rfl⟩
  | clearRd ctrl => exact ⟨rfl, rfl, rfl, ⟨off, chosen⟩, .none rfl rfl⟩
  | clearTimer ctrl => exact ⟨rfl, rfl, rfl, ⟨off, chosen⟩, .none rfl rfl⟩
  | clearBlocks ctrl => exact ⟨rfl, rfl, rfl, ⟨off, chosen⟩, .none rfl rfl⟩
  | enable ctrl => exact ⟨rfl, rfl, rfl, trivial, .enables ctrl chosen off rfl rfl⟩
  | returned => exact ⟨rfl, rfl, rfl, trivial, .none rfl rfl⟩

/-- A step of the thread. -/
theorem thread_moves (kept : Streams blockSize mapSize s) (quiet : Quiet s) :
    Moves blockSize s (sessionThread blockSize mapSize s) := by
  unfold sessionThread
  cases at_ : s.pc with
  | prefilling left =>
    have off : s.bench.dev.regs.ctrl = 0 := by simpa only [Quiet, at_] using quiet
    cases left with
    | zero => exact .still rfl rfl (quiet_enter ⟨off, trivial⟩)
    | succ left => exact .still rfl rfl (quiet_enter off)
  | putting left => exact put_moves kept quiet at_
  | counting => exact .still rfl rfl trivial
  | enabling place =>
    exact enable_moves kept.flow.positive (by simpa only [Quiet, at_] using quiet)
  | receiving progress =>
    cases progress with
    | running done => exact .still rfl rfl quiet
    | returned success =>
      cases success with
      | true => exact .still rfl rfl (quiet_enter trivial)
      | false => exact .still rfl rfl trivial
  | ended => exact .still rfl rfl quiet

/-- An outcome of `recv`. -/
theorem receive_moves (quiet : Quiet s) (outcome : Transfers.Outcome) (data : List (BitVec 8)) :
    Moves blockSize s (receive blockSize outcome data s) := by
  unfold receive
  split
  · exact .still rfl rfl trivial
  · exact .still rfl rfl quiet

theorem software_moves (kept : Streams blockSize mapSize s) (quiet : Quiet s)
    (e : TxSessionEvent) (software : OfSoftware e) :
    Moves blockSize s (txSession blockSize mapSize s e) := by
  cases e with
  | thread => exact thread_moves kept quiet
  | recv data => exact receive_moves quiet _ _
  | recvInterrupted => exact receive_moves quiet _ _
  | recvFailed => exact receive_moves quiet _ _
  | close => exact .still rfl rfl quiet
  | writeBack place => exact .still rfl rfl quiet
  | fetch => exact software.elim
  | report bytes => exact software.elim

end Software

/-! ## The slave behind the driver -/

/-- A write a session posts: an offset, or the control word of ENABLE. -/
def Sent (s : TxSession) (w : Posted) : Prop :=
  w.addr = cRegTxBufWr ∨ w.addr = cRegCtrl ∧ Enabling w.data ∧ s.transmits = true

/-- The registers of the slave stay behind those of the driver. -/
structure Wired (s : TxSession) (regs : Registers) (posted : List Posted) (arrived : Nat) :
    Prop where
  mirrored : posted.foldl take regs = mirror s.bench.dev.regs
  sent : ∀ w ∈ posted, Sent s w
  base : regs.sTxBufBase = s.bench.dev.priv.txbufPhys
  size : regs.sTxBufSize = s.bench.dev.priv.txbufSize
  noReset : regs.sReset = false
  pointer : regs.sTxBufWr.toNat = arrived % s.bench.size
  inFlight : InFlight s.bench.size arrived posted s.bench.published
  enabled : regs.sTxEn = true → s.transmits = true

section Wired

variable {blockSize mapSize : BitVec 32} {s s' : TxSession} {regs : Registers}
  {posted : List Posted} {arrived : Nat}

/-- A control word with the enable bit lets the hardware transmit. -/
theorem enabling_transmits (enabling : Enabling s.bench.dev.regs.ctrl) : s.transmits = true := by
  unfold TxSession.transmits
  rw [bne_iff_ne]
  intro none
  have bit : (s.bench.dev.regs.ctrl &&& Driver.ctrlTxEnable).getLsbD cCtrlTxEnable = true := by
    rw [BitVec.getLsbD_and, enabling.on]
    rfl
  rw [none] at bit
  cases bit

/-- Once the hardware transmits it goes on. -/
theorem Moves.transmits (moves : Moves blockSize s s') (on : s.transmits = true) :
    s'.transmits = true := by
  cases moves.writes with
  | none regs published => rwa [TxSession.transmits, regs]
  | shows wr regs published => rwa [TxSession.transmits, regs]
  | enables ctrl enabling before regs published =>
    apply enabling_transmits
    rwa [regs]

/-- Writes posted by a step of software leave the slave's registers as they are. -/
theorem Wired.post (wired : Wired s regs posted arrived) (moves : Moves blockSize s s')
    (sameSize : s'.bench.dev.priv.txbufSize = s.bench.dev.priv.txbufSize) {more : List Posted}
    (mirrored : more.foldl take (mirror s.bench.dev.regs) = mirror s'.bench.dev.regs)
    (sent : ∀ w ∈ more, Sent s' w)
    (inFlight : InFlight s.bench.size arrived (posted ++ more) s'.bench.published) :
    Wired s' regs (posted ++ more) arrived := by
  have size : s'.bench.size = s.bench.size := congrArg BitVec.toNat sameSize
  refine ⟨?_, ?_, ?_, ?_, wired.noReset, ?_, ?_, fun on => moves.transmits (wired.enabled on)⟩
  · rw [List.foldl_append, wired.mirrored]
    exact mirrored
  · intro w member
    rcases List.mem_append.mp member with earlier | last
    · exact (wired.sent w earlier).imp_right fun control =>
        ⟨control.1, control.2.1, moves.transmits control.2.2⟩
    · exact sent w last
  · rw [moves.phys]
    exact wired.base
  · rw [sameSize]
    exact wired.size
  · rw [size]
    exact wired.pointer
  · rw [size]
    exact inFlight

/-- What a step of software writes is posted. -/
theorem Wired.software (wired : Wired s regs posted arrived)
    (before : Streams blockSize mapSize s) (after : Streams blockSize mapSize s')
    (moves : Moves blockSize s s') :
    Wired s' regs (posted ++ written s.bench.dev.regs s'.bench.dev.regs) arrived := by
  have sameSize : s'.bench.dev.priv.txbufSize = s.bench.dev.priv.txbufSize :=
    after.mapped.trans before.mapped.symm
  have size : s'.bench.size = s.bench.size := congrArg BitVec.toNat sameSize
  cases moves.writes with
  | none same published =>
    have nothing : written s.bench.dev.regs s'.bench.dev.regs = [] := by simp [written, same]
    rw [nothing]
    refine wired.post moves sameSize ?_ (fun w member => absurd member List.not_mem_nil) ?_
    · rw [same]
      rfl
    · rw [List.append_nil, published]
      exact wired.inFlight
  | shows wr same published =>
    have shown : s'.bench.dev.regs.txBufWr = wr := by rw [same]
    have offset := after.flow.shownAt
    rw [shown, size] at offset
    -- A block is less than the ring, so the offset changes.
    have differs : wr ≠ s.bench.dev.regs.txBufWr := by
      rintro rfl
      have block := before.flow.block
      have several := before.several
      rw [before.flow.shownAt, published] at offset
      exact places_differ (by omega) (by omega) offset
    have one : written s.bench.dev.regs s'.bench.dev.regs = [⟨cRegTxBufWr, wr⟩] := by
      simp [written, same, differs]
    rw [one]
    refine wired.post moves sameSize ?_ (fun w member => ?_) ?_
    · rw [same]
      rfl
    · rw [List.mem_singleton.mp member]
      exact Or.inl rfl
    · refine wired.inFlight.publish ?_ offset
      rw [published]
      exact Nat.le_add_right _ _
  | enables ctrl enabling off same published =>
    have differs : ctrl ≠ s.bench.dev.regs.ctrl := by
      rintro rfl
      have on := enabling.on
      rw [off] at on
      cases on
    have one : written s.bench.dev.regs s'.bench.dev.regs = [⟨cRegCtrl, ctrl⟩] := by
      simp [written, same, differs]
    rw [one]
    refine wired.post moves sameSize ?_ (fun w member => ?_) ?_
    · rw [same]
      rfl
    · rw [List.mem_singleton.mp member]
      refine Or.inr ⟨rfl, enabling, enabling_transmits ?_⟩
      rwa [same]
    · rw [published]
      exact wired.inFlight.control ctrl

/-- The oldest write arrives. -/
theorem Wired.arrive {w : Posted} (wired : Wired s regs (w :: posted) arrived) :
    ∃ next, arrived ≤ next ∧ Wired s (take regs w) posted next ∧
      (regs.sTxEn = true → (take regs w).sTxEn = true) := by
  obtain ⟨addr, data⟩ := w
  have mirrored := wired.mirrored
  have inFlight := wired.inFlight
  have others : ∀ w ∈ posted, Sent s w := fun w member =>
    wired.sent w (List.mem_cons_of_mem _ member)
  rcases wired.sent _ List.mem_cons_self with pointer | ⟨control, enabling, transmits⟩
  · change addr = cRegTxBufWr at pointer
    subst pointer
    rw [InFlight, if_pos rfl] at inFlight
    obtain ⟨next, later, offset, rest⟩ := inFlight
    exact ⟨next, later, ⟨mirrored, others, wired.base, wired.size, wired.noReset, offset, rest,
      wired.enabled⟩, id⟩
  · change addr = cRegCtrl at control
    subst control
    have other : cRegCtrl ≠ cRegTxBufWr := by decide
    rw [InFlight, if_neg other] at inFlight
    refine ⟨arrived, Nat.le_refl _, ⟨mirrored, others, wired.base, wired.size, enabling.noReset,
      wired.pointer, inFlight, fun _ => transmits⟩, fun _ => enabling.on⟩

end Wired

end Zyndra.TxChain
