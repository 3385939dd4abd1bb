import Zyndra.AxiLite
import Zyndra.Runs

/-!
# Register writes, none lost and none mispaired

Both ready signals are constantly high, so every address and every word that is
offered is accepted, and the master is bound by nothing. The slave has room for
one address, one word and one response. The scoreboard keeps what was accepted,
what was executed and how many responses were taken.

A run keeps every write exactly when no address is offered over a captured one,
no word over a captured one, and no write completes over a response that is not
taken in that clock.
-/

namespace Zyndra.AxiLite

open Runs

/-! ## The observer -/

/-- The slave with everything accepted and executed since the reset. -/
structure WriteBench where
  slave : Slave
  addresses : List TRegaddr
  words : List (BitVec 32)
  executed : List (TRegaddr × BitVec 32)
  /-- Responses taken by the master. -/
  responses : Nat
  deriving DecidableEq

/-- The register write that takes place on the next clock. -/
def executing (w : WriteChannel) : List (TRegaddr × BitVec 32) :=
  if w.complete then [(w.sWaddr, w.sWdata)] else []

/-- One clock of the slave, with the scoreboard brought up to date. -/
def WriteBench.observe (b : WriteBench) (i : Inputs) : WriteBench where
  slave := clock b.slave i
  addresses := b.addresses ++ held (i.awvalid && awready) (i.awaddr.setWidth 8)
  words := b.words ++ held (i.wvalid && wready) i.wdata
  executed := b.executed ++ executing b.slave.write
  responses := b.responses + (b.slave.write.bvalid && i.bready).toNat

/-- Nothing captured and nothing offered. -/
def WriteChannel.Idle (w : WriteChannel) : Prop :=
  w.sWen0 = false ∧ w.sWen1 = false ∧ w.bvalid = false

/-- The bench as the slave leaves its reset. -/
def released (slave : Slave) : WriteBench := ⟨slave, [], [], [], 0⟩

/-- No reset. -/
def WriteBench.Running (_ : WriteBench) (i : Inputs) : Prop := i.aresetn = true

/-- What is offered on this clock meets room: a free capture register, and for
the response of a write being executed, an offer that is free or taken. -/
def Room (b : WriteBench) (i : Inputs) : Prop :=
  (i.awvalid = true → b.slave.write.sWen0 = false) ∧
    (i.wvalid = true → b.slave.write.sWen1 = false) ∧
    (b.slave.write.complete = true → b.slave.write.bvalid = true → i.bready = true)

/-- The writes are neither lost nor mispaired. The first address goes with the
first word, and so on, each pair executed once and in order, the last of them
perhaps on this clock. An address or a word not yet executed is the one captured,
the registers are what the executed writes make of them, and each execution has
its response, taken or offered. -/
structure WritesKept (start : Registers) (b : WriteBench) : Prop where
  paired : b.executed ++ executing b.slave.write = b.addresses.zip b.words
  addresses : b.addresses =
    b.executed.map Prod.fst ++ held b.slave.write.sWen0 b.slave.write.sWaddr
  words : b.words = b.executed.map Prod.snd ++ held b.slave.write.sWen1 b.slave.write.sWdata
  effect : b.slave.regs = b.executed.foldl (fun regs write => regs.assign write.1 write.2) start
  responses : b.responses + b.slave.write.bvalid.toNat = b.executed.length

instance idleWriteDecidable (w : WriteChannel) : Decidable w.Idle :=
  inferInstanceAs (Decidable (_ ∧ _ ∧ _))

instance (b : WriteBench) (i : Inputs) : Decidable (b.Running i) :=
  inferInstanceAs (Decidable (_ = _))

instance (b : WriteBench) (i : Inputs) : Decidable (Room b i) :=
  inferInstanceAs (Decidable ((_ → _) ∧ (_ → _) ∧ (_ → _ → _)))

/-- A clock in reset leaves nothing captured and nothing offered. -/
theorem reset_idle (s : Slave) (i : Inputs) (reset : i.aresetn = false) :
    (clock s i).write.Idle := by
  simp [clock, procAxiWrite, WriteChannel.Idle, reset]

/-! ## One capture register -/

/-- A captured value is executed or stays, and a value offered in the meantime is
kept exactly when nothing was captured. -/
theorem capture_kept {α : Type} {accepted done : List α} {captured complete : Bool} {value : α}
    (offered : Bool) (new : α) (completes : complete = true → captured = true)
    (kept : accepted = done ++ held captured value) :
    accepted ++ held offered new =
        (done ++ held complete value) ++
          held (!complete && (captured || offered)) (if offered then new else value) ↔
      (offered = true → captured = false) := by
  subst kept
  cases captured <;> cases offered <;> cases complete <;> simp_all [held]

/-- The addresses and the words of some executed writes, followed by what is
captured, pair up to these writes and the one being executed. -/
theorem paired_captures (executed : List (TRegaddr × BitVec 32)) (w : WriteChannel) :
    executed ++ executing w =
      (executed.map Prod.fst ++ held w.sWen0 w.sWaddr).zip
        (executed.map Prod.snd ++ held w.sWen1 w.sWdata) := by
  have sameLength : (executed.map Prod.fst).length = (executed.map Prod.snd).length := by simp
  have pairs : (executed.map Prod.fst).zip (executed.map Prod.snd) = executed := by
    simp [List.zip_map']
  rw [List.zip_append sameLength, pairs, List.append_cancel_left_eq]
  cases captured : w.sWen0 <;> cases stored : w.sWen1 <;>
    simp [executing, held, WriteChannel.complete, captured, stored]

/-! ## Steps and runs -/

section Steps

variable {start : Registers} {b : WriteBench} {i : Inputs}

/-- The address, the word and the response of one clock are kept exactly when
each meets room. -/
theorem WritesKept.observe_iff (kept : WritesKept start b) (running : b.Running i) :
    WritesKept start (b.observe i) ↔ Room b i := by
  have channel := procAxiWrite_running b.slave.write running
  have completesAddress : b.slave.write.complete = true → b.slave.write.sWen0 = true := by
    simp +contextual [WriteChannel.complete]
  have completesWord : b.slave.write.complete = true → b.slave.write.sWen1 = true := by
    simp +contextual [WriteChannel.complete]
  have executedAddress : (executing b.slave.write).map Prod.fst =
      held b.slave.write.complete b.slave.write.sWaddr := by
    cases completed : b.slave.write.complete <;> simp [executing, held, completed]
  have executedWord : (executing b.slave.write).map Prod.snd =
      held b.slave.write.complete b.slave.write.sWdata := by
    cases completed : b.slave.write.complete <;> simp [executing, held, completed]
  have addressKept := capture_kept i.awvalid (i.awaddr.setWidth 8) completesAddress kept.addresses
  have wordKept := capture_kept i.wvalid i.wdata completesWord kept.words
  have responseKept :
      b.responses + (b.slave.write.bvalid && i.bready).toNat +
          (b.slave.write.complete || (b.slave.write.bvalid && !i.bready)).toNat =
        b.executed.length + (executing b.slave.write).length ↔
      (b.slave.write.complete = true → b.slave.write.bvalid = true → i.bready = true) := by
    rw [← kept.responses]
    cases completed : b.slave.write.complete <;> cases b.slave.write.bvalid <;>
      cases i.bready <;> simp [executing, completed]
  have effect : (clock b.slave i).regs =
      (b.executed ++ executing b.slave.write).foldl
        (fun regs write => regs.assign write.1 write.2) start := by
    rw [List.foldl_append, ← kept.effect]
    cases completed : b.slave.write.complete <;>
      simp [clock, procRegWrite_running _ _ running, executing, completed]
  constructor
  · rintro ⟨_, addresses, words, _, responses⟩
    simp only [WriteBench.observe, clock, channel, awready, wready, Bool.and_true, List.map_append,
      executedAddress, executedWord, List.length_append] at addresses words responses
    exact ⟨addressKept.mp addresses, wordKept.mp words, responseKept.mp responses⟩
  · rintro ⟨addressRoom, wordRoom, responseRoom⟩
    have addresses : (b.observe i).addresses = (b.observe i).executed.map Prod.fst ++
        held (b.observe i).slave.write.sWen0 (b.observe i).slave.write.sWaddr := by
      simpa only [WriteBench.observe, clock, channel, awready, Bool.and_true, List.map_append,
        executedAddress] using addressKept.mpr addressRoom
    have words : (b.observe i).words = (b.observe i).executed.map Prod.snd ++
        held (b.observe i).slave.write.sWen1 (b.observe i).slave.write.sWdata := by
      simpa only [WriteBench.observe, clock, channel, wready, Bool.and_true, List.map_append,
        executedWord] using wordKept.mpr wordRoom
    have responses : (b.observe i).responses + (b.observe i).slave.write.bvalid.toNat =
        (b.observe i).executed.length := by
      simpa only [WriteBench.observe, clock, channel, List.length_append]
        using responseKept.mpr responseRoom
    have paired := paired_captures (b.observe i).executed (b.observe i).slave.write
    rw [← addresses, ← words] at paired
    exact ⟨paired, addresses, words, effect, responses⟩

/-- Nothing accepted, nothing to lose. -/
theorem kept_released {slave : Slave} (idle : slave.write.Idle) :
    WritesKept slave.regs (released slave) := by
  obtain ⟨noAddress, noWord, noResponse⟩ := idle
  constructor <;>
    simp [released, executing, held, WriteChannel.complete, noAddress, noWord, noResponse]

end Steps

/-- Along every run of the slave out of its reset, whatever the master offers,
the writes are neither lost nor mispaired exactly when everything offered meets
room. -/
theorem writes_kept_iff (slave : Slave) (idle : slave.write.Idle) (inputs : List Inputs)
    (running : Follows WriteBench.Running WriteBench.observe (released slave) inputs) :
    Always (WritesKept slave.regs) WriteBench.observe (released slave) inputs ↔
      Follows Room WriteBench.observe (released slave) inputs := by
  have begins := kept_released idle
  have decides (b : WriteBench) (i : Inputs) (kept : WritesKept slave.regs b)
      (run : b.Running i) : WritesKept slave.regs (b.observe i) ↔ Room b i :=
    kept.observe_iff run
  have preserved (b : WriteBench) (i : Inputs) (kept : WritesKept slave.regs b)
      (run : b.Running i) (room : Room b i) : WritesKept slave.regs (b.observe i) :=
    (kept.observe_iff run).mpr room
  exact always_iff_follows decides preserved begins begins inputs running

/-- The rule of a master that offers nothing before the response to the write
before. -/
def Sequential (b : WriteBench) (i : Inputs) : Prop :=
  b.Running i ∧ (i.awvalid = true → b.addresses.length = b.responses) ∧
    (i.wvalid = true → b.words.length = b.responses)

/-- The writes are kept, and at most one address is ahead of the responses. -/
structure OneAhead (start : Registers) (b : WriteBench) : Prop where
  kept : WritesKept start b
  ahead : b.addresses.length ≤ b.responses + 1

section Sequential

variable {start : Registers} {b : WriteBench} {i : Inputs}

/-- With one address ahead of the responses at most, none is captured when the next
is offered, and none executed while a response is still offered. -/
theorem OneAhead.room (inOrder : OneAhead start b) (offers : Sequential b i) : Room b i := by
  obtain ⟨kept, ahead⟩ := inOrder
  obtain ⟨_, freeAddress, freeWord⟩ := offers
  have answered := kept.responses
  have addresses : b.addresses.length = b.executed.length + b.slave.write.sWen0.toNat := by
    simpa [length_held] using congrArg List.length kept.addresses
  have words : b.words.length = b.executed.length + b.slave.write.sWen1.toNat := by
    simpa [length_held] using congrArg List.length kept.words
  refine ⟨?_, ?_, ?_⟩
  · intro offered
    have none := freeAddress offered
    exact Bool.toNat_eq_zero.mp (by omega)
  · intro offered
    have none := freeWord offered
    exact Bool.toNat_eq_zero.mp (by omega)
  · intro completed responding
    simp only [WriteChannel.complete, Bool.and_eq_true] at completed
    rw [completed.1, Bool.toNat_true] at addresses
    rw [responding, Bool.toNat_true] at answered
    omega

theorem OneAhead.observe (inOrder : OneAhead start b) (offers : Sequential b i) :
    OneAhead start (b.observe i) := by
  refine ⟨(inOrder.kept.observe_iff offers.1).mpr (inOrder.room offers), ?_⟩
  have ahead := inOrder.ahead
  have freeAddress := offers.2.1
  simp only [WriteBench.observe, awready, Bool.and_true, List.length_append, length_held]
  cases offered : i.awvalid with
  | false =>
    rw [Bool.toNat_false]
    omega
  | true =>
    have none := freeAddress offered
    rw [Bool.toNat_true]
    omega

end Sequential

/-- A master that offers nothing before the response to the write before has every
write kept. -/
theorem sequential_writes_kept (slave : Slave) (idle : slave.write.Idle) (inputs : List Inputs)
    (sequential : Follows Sequential WriteBench.observe (released slave) inputs) :
    WritesKept slave.regs (run WriteBench.observe (released slave) inputs) := by
  have begins : OneAhead slave.regs (released slave) := ⟨kept_released idle, by simp [released]⟩
  have preserved : ∀ b i, OneAhead slave.regs b → Sequential b i →
      OneAhead slave.regs (b.observe i) := fun _ _ inOrder offers => inOrder.observe offers
  exact (invariant preserved begins inputs sequential).kept

/-! ## Two writes back to back -/

/-- Address and word of one write offered together. -/
def offerWrite (awaddr wdata : BitVec 32) : Inputs :=
  { quietBus with awvalid := true, awaddr := awaddr, wvalid := true, wdata := wdata }

/-- The base and the size of the receive buffer written in consecutive clocks. -/
def backToBack : List Inputs :=
  [offerWrite 0x10 0x10000000, offerWrite 0x14 0x1000, quietBus, quietBus]

/-- Both are accepted and the second is never executed. -/
theorem second_write_lost :
    quietSlave.write.Idle ∧
      Follows WriteBench.Running WriteBench.observe (released quietSlave) backToBack ∧
      ¬ Always (WritesKept quietSlave.regs) WriteBench.observe (released quietSlave)
        backToBack := by
  have running :
      Follows WriteBench.Running WriteBench.observe (released quietSlave) backToBack := by
    decide +kernel
  refine ⟨by decide, running, ?_⟩
  intro always
  have kept := always.last
  have paired := kept.paired
  revert paired
  decide +kernel

/-- The same writes, each offered once the one before has its response. -/
def oneByOne : List Inputs :=
  [offerWrite 0x10 0x10000000, quietBus, quietBus, offerWrite 0x14 0x1000, quietBus, quietBus]

/-- One by one they are kept. -/
theorem writes_kept_one_by_one :
    Always (WritesKept quietSlave.regs) WriteBench.observe (released quietSlave) oneByOne :=
  (writes_kept_iff quietSlave (by decide) oneByOne (by decide +kernel)).mpr (by decide +kernel)

end Zyndra.AxiLite
