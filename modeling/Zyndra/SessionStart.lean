import Zyndra.Runs
import Mathlib.Data.BitVec

/-!
# The start of a streaming session

`main` opens the driver, starts a receive and a transmit thread as the command
line asks, and joins them before it opens the driver again. Two things can hold
a thread for good. The transmit thread waits on `start_cond` until the receive
thread has set `rx_session_active`; the receive thread waits inside the driver's
`read` until the FPGA has been enabled. A `read` entered with a closed descriptor
returns, but closing the descriptor does not wake one in progress.

Each thread is a program counter with one step for each call that another thread
can observe or that can fail. An event names the thread that moves and whether
the call it makes succeeds, so a list of events is an interleaving with its
failures and its client connects.
-/

namespace Zyndra.Ad9361Txrx

open Runs

/-- `enum mode`. -/
inductive Mode where
  | none
  | tcp
  | udp
  deriving DecidableEq, Repr

/-- The modes of a `struct cli_cfg` that `main` takes to its reconnect loop. -/
structure CliCfg where
  rxMode : Mode
  txMode : Mode
  streaming : rxMode ≠ .none ∨ txMode ≠ .none

def sampleSize : BitVec 32 := 4
def txrxPrefillSamples : BitVec 32 := 16384 * 128

/-- Blocks that hold the prefill, rounded up: `drop_blocks` of the receiver and
`prefill_blocks` of the transmitter. -/
def prefillBlocks (blockSize : BitVec 32) : Nat :=
  ((txrxPrefillSamples * sampleSize + blockSize - 1) / blockSize).toNat

/-- Where the receive thread stands. `calling` is about to enter `read` and
`reading` is inside it, each with the blocks still to drop. -/
inductive RxPc where
  | mapping
  | accepting
  | starting
  | connecting
  | calling (drops : Nat)
  | reading (drops : Nat)
  | sending
  | resetting
  | closing
  | finished
  deriving DecidableEq, Repr

/-- Where the transmit thread stands. `waiting` is inside `pthread_cond_wait`. -/
inductive TxPc where
  | mapping
  | accepting
  | starting
  | waiting
  | prefilling (blocks : Nat)
  | enabling
  | receiving
  | putting
  | closing
  | finished
  deriving DecidableEq, Repr

/-- Where `main` stands in its reconnect loop. -/
inductive MainPc where
  | opening
  | running
  | exited
  deriving DecidableEq, Repr

/-- What the threads share, and where each of them stands. `enabled` holds once
ENABLE has succeeded in the current session. -/
structure App where
  rxSessionActive : Bool
  fdOpen : Bool
  enabled : Bool
  main : MainPc
  rx : RxPc
  tx : TxPc
  deriving DecidableEq, Repr

/-- A thread takes its next step; the flag says whether the call it makes succeeds. -/
inductive AppEvent where
  | main (succeeds : Bool)
  | rx (succeeds : Bool)
  | tx (succeeds : Bool)
  deriving DecidableEq, Repr

section Threads

variable (cfg : CliCfg) (blockSize : BitVec 32)

/-- The end of a session of the receiver: `done` of `rx_tcp_session`, `out` of
`rx_send_udp`. -/
def rxLeave : RxPc :=
  if cfg.rxMode = .tcp then .resetting else .closing

/-- One step of `rx_task`. Over TCP the thread hands the start to the transmitter
when there is one and enables the FPGA itself otherwise; over UDP it does neither. -/
def rxTask (app : App) (succeeds : Bool) : App :=
  match app.rx with
  | .mapping =>
    if app.fdOpen && succeeds then
      { app with rx := if cfg.rxMode = .tcp then .accepting else .connecting }
    else { app with rx := .closing }
  | .accepting => { app with rx := if succeeds then .starting else .closing }
  | .starting =>
    if cfg.txMode ≠ .none then
      { app with rxSessionActive := true, rx := .calling (prefillBlocks blockSize) }
    else if app.fdOpen && succeeds then
      { app with enabled := true, rx := .calling (prefillBlocks blockSize) }
    else { app with rx := .closing }
  | .connecting => { app with rx := if succeeds then .calling 0 else .closing }
  | .calling drops => { app with rx := if app.fdOpen then .reading drops else rxLeave cfg }
  | .reading drops =>
    if app.enabled then
      match drops with
      | 0 => { app with rx := if succeeds then .sending else rxLeave cfg }
      | drops + 1 => { app with rx := if succeeds then .calling drops else rxLeave cfg }
    else app
  | .sending => { app with rx := if succeeds then .calling 0 else rxLeave cfg }
  | .resetting =>
    { app with
      rxSessionActive := if cfg.txMode ≠ .none then false else app.rxSessionActive
      rx := .closing }
  | .closing => { app with fdOpen := false, rx := .finished }
  | .finished => app

/-- One step of `tx_task`. With a receiver beside it the thread waits for the flag
before it prefills the ring and enables the FPGA. -/
def txTask (app : App) (succeeds : Bool) : App :=
  match app.tx with
  | .mapping =>
    if app.fdOpen && succeeds then
      { app with tx := if cfg.txMode = .tcp then .accepting else .closing }
    else { app with tx := .closing }
  | .accepting => { app with tx := if succeeds then .starting else .closing }
  | .starting =>
    if cfg.rxMode ≠ .none ∧ app.rxSessionActive = false then { app with tx := .waiting }
    else { app with tx := .prefilling (prefillBlocks blockSize) }
  | .waiting =>
    if app.rxSessionActive then { app with tx := .prefilling (prefillBlocks blockSize) } else app
  | .prefilling blocks =>
    match blocks with
    | 0 => { app with tx := .enabling }
    | blocks + 1 =>
      { app with tx := if app.fdOpen && succeeds then .prefilling blocks else .closing }
  | .enabling =>
    if app.fdOpen && succeeds then { app with enabled := true, tx := .receiving }
    else { app with tx := .closing }
  | .receiving => { app with tx := if succeeds then .putting else .closing }
  | .putting => { app with tx := if app.fdOpen && succeeds then .receiving else .closing }
  | .closing => { app with fdOpen := false, tx := .finished }
  | .finished => app

/-- One step of the reconnect loop. `main` joins both threads before it closes the
driver and opens it again. -/
def mainLoop (app : App) (succeeds : Bool) : App :=
  match app.main with
  | .opening =>
    if succeeds then
      { rxSessionActive := false, fdOpen := true, enabled := false, main := .running
        rx := if cfg.rxMode = .none then .finished else .mapping
        tx := if cfg.txMode = .none then .finished else .mapping }
    else { app with rxSessionActive := false, main := .exited }
  | .running =>
    if app.rx = .finished ∧ app.tx = .finished then
      { app with fdOpen := false, main := .opening }
    else app
  | .exited => app

def step (app : App) : AppEvent → App
  | .main succeeds => mainLoop cfg app succeeds
  | .rx succeeds => rxTask cfg blockSize app succeeds
  | .tx succeeds => txTask cfg blockSize app succeeds

end Threads

/-- The process before its first session. -/
def launched : App := ⟨false, false, false, .opening, .finished, .finished⟩

/-! ## Deadlock -/

def RxPc.inRead : RxPc → Bool
  | .reading _ => true
  | _ => false

/-- The receiver is inside `read` and the FPGA has not been enabled. -/
def AwaitsEnable (app : App) : Prop := app.rx.inRead = true ∧ app.enabled = false

/-- The transmitter is inside `pthread_cond_wait` and the flag is down. -/
def AwaitsFlag (app : App) : Prop := app.tx = .waiting ∧ app.rxSessionActive = false

instance (app : App) : Decidable (AwaitsEnable app) := inferInstanceAs (Decidable (_ ∧ _))
instance (app : App) : Decidable (AwaitsFlag app) := inferInstanceAs (Decidable (_ ∧ _))

/-- A thread is unfinished, and every unfinished thread waits for the other. -/
def Deadlocked (app : App) : Prop :=
  (app.rx ≠ .finished ∨ app.tx ≠ .finished) ∧
    (app.rx = .finished ∨ AwaitsEnable app) ∧ (app.tx = .finished ∨ AwaitsFlag app)

instance (app : App) : Decidable (Deadlocked app) :=
  inferInstanceAs (Decidable ((_ ∨ _) ∧ (_ ∨ _) ∧ (_ ∨ _)))

/-- A thread begins to wait only while the other is on its way to wake it, and
ends only when the other does not wait for it. The receiver begins to wait when
it enters `read` before ENABLE, the transmitter when it finds the flag down. -/
def Wakes (cfg : CliCfg) (app : App) : AppEvent → Prop
  | .main _ => True
  | .rx _ =>
    match app.rx with
    | .calling _ =>
      app.fdOpen = true → app.enabled = false → app.tx ≠ .finished ∧ ¬ AwaitsFlag app
    | .closing => ¬ AwaitsFlag app
    | _ => True
  | .tx _ =>
    match app.tx with
    | .starting =>
      cfg.rxMode ≠ .none → app.rxSessionActive = false →
        app.rx ≠ .finished ∧ ¬ AwaitsEnable app
    | .closing => ¬ AwaitsEnable app
    | _ => True

/-- Threads run only inside a session. -/
def Joined (app : App) : Prop := app.main ≠ .running → app.rx = .finished ∧ app.tx = .finished

section Steps

variable {cfg : CliCfg} {blockSize : BitVec 32} {app : App}

/-- A receiver that can move on keeps the process alive. -/
theorem live_of_rx (unfinished : app.rx ≠ .finished) (moves : ¬ AwaitsEnable app) :
    ¬ Deadlocked app := by
  rintro ⟨_, finished | waits, _⟩
  · exact unfinished finished
  · exact moves waits

/-- A transmitter that can move on keeps the process alive. -/
theorem live_of_tx (unfinished : app.tx ≠ .finished) (moves : ¬ AwaitsFlag app) :
    ¬ Deadlocked app := by
  rintro ⟨_, _, finished | waits⟩
  · exact unfinished finished
  · exact moves waits

/-- Once both threads have finished there is nothing to wake. -/
theorem live_of_joined (rxFinished : app.rx = .finished) (txFinished : app.tx = .finished) :
    ¬ Deadlocked app := by
  rintro ⟨unfinished | unfinished, _⟩
  · exact unfinished rxFinished
  · exact unfinished txFinished

/-- With the receiver inside `read` before ENABLE, all depends on the transmitter. -/
theorem live_reading (waits : AwaitsEnable app) :
    ¬ Deadlocked app ↔ app.tx ≠ .finished ∧ ¬ AwaitsFlag app := by
  have unfinished : app.rx ≠ .finished := by
    intro finished
    have inside := waits.1
    rw [finished] at inside
    exact Bool.false_ne_true inside
  simp only [Deadlocked, waits, unfinished, ne_eq, not_false_eq_true, or_true, true_or, true_and,
    not_or]

/-- With the transmitter waiting for the flag, all depends on the receiver. -/
theorem live_waiting (waits : AwaitsFlag app) :
    ¬ Deadlocked app ↔ app.rx ≠ .finished ∧ ¬ AwaitsEnable app := by
  have unfinished : app.tx ≠ .finished := by
    rw [waits.1]
    exact TxPc.noConfusion
  simp only [Deadlocked, waits, unfinished, ne_eq, not_false_eq_true, or_true, true_and, not_or,
    and_true]

/-- With the receiver finished, the transmitter must not wait for the flag. -/
theorem live_rx_finished (finished : app.rx = .finished) :
    ¬ Deadlocked app ↔ ¬ AwaitsFlag app := by
  constructor
  · intro live waits
    exact ((live_waiting waits).mp live).1 finished
  · intro moves
    by_cases joined : app.tx = .finished
    · exact live_of_joined finished joined
    · exact live_of_tx joined moves

/-- With the transmitter finished, the receiver must not wait for ENABLE. -/
theorem live_tx_finished (finished : app.tx = .finished) :
    ¬ Deadlocked app ↔ ¬ AwaitsEnable app := by
  constructor
  · intro live waits
    exact ((live_reading waits).mp live).1 finished
  · intro moves
    by_cases joined : app.rx = .finished
    · exact live_of_joined joined finished
    · exact live_of_rx joined moves

/-- A step of the receiver keeps the process alive exactly when it wakes. Only
entering `read` and finishing can make the receiver the last thread to stop. -/
theorem rx_decides (live : ¬ Deadlocked app) (succeeds : Bool) :
    ¬ Deadlocked (rxTask cfg blockSize app succeeds) ↔ Wakes cfg app (.rx succeeds) := by
  cases place : app.rx with
  | calling drops =>
    by_cases waits : app.fdOpen = true ∧ app.enabled = false
    · have entered : rxTask cfg blockSize app succeeds = { app with rx := .reading drops } := by
        simp [rxTask, place, waits]
      have inside : AwaitsEnable (rxTask cfg blockSize app succeeds) := by
        rw [entered]
        exact ⟨rfl, waits.2⟩
      rw [live_reading inside, entered]
      simp [Wakes, place, waits, AwaitsFlag]
    · have moves : ¬ Deadlocked (rxTask cfg blockSize app succeeds) := by
        apply live_of_rx
        · simp only [rxTask, place, rxLeave]
          split_ifs <;> simp
        · simp only [rxTask, place, rxLeave, AwaitsEnable]
          split_ifs <;> simp_all [RxPc.inRead]
      simp only [Wakes, place, moves, true_iff, not_false_eq_true]
      exact fun opened disabled => absurd ⟨opened, disabled⟩ waits
  | closing =>
    have finished : (rxTask cfg blockSize app succeeds).rx = .finished := by simp [rxTask, place]
    rw [live_rx_finished finished]
    simp [rxTask, Wakes, place, AwaitsFlag]
  | reading drops =>
    simp only [Wakes, place, iff_true]
    by_cases enabled : app.enabled = true
    · apply live_of_rx
      · simp only [rxTask, place, enabled, rxLeave]
        cases drops <;> split_ifs <;> simp_all
      · intro waits
        have kept : (rxTask cfg blockSize app succeeds).enabled = true := by
          cases drops <;> simp [rxTask, place, enabled]
        exact Bool.false_ne_true (waits.2.symm.trans kept)
    · have still : rxTask cfg blockSize app succeeds = app := by
        simp [rxTask, place, enabled]
      rwa [still]
  | finished =>
    have still : rxTask cfg blockSize app succeeds = app := by simp [rxTask, place]
    simpa [still, Wakes, place] using live
  | _ =>
    simp only [Wakes, place, iff_true]
    apply live_of_rx
    · simp only [rxTask, place, rxLeave]
      grind
    · simp only [rxTask, place, rxLeave, AwaitsEnable]
      grind [RxPc.inRead]

/-- A step of the transmitter keeps the process alive exactly when it wakes. Only
finding the flag down and finishing can make it the last thread to stop. -/
theorem tx_decides (live : ¬ Deadlocked app) (succeeds : Bool) :
    ¬ Deadlocked (txTask cfg blockSize app succeeds) ↔ Wakes cfg app (.tx succeeds) := by
  cases place : app.tx with
  | starting =>
    by_cases waits : cfg.rxMode ≠ .none ∧ app.rxSessionActive = false
    · have entered : txTask cfg blockSize app succeeds = { app with tx := .waiting } := by
        simp [txTask, place, waits]
      have inside : AwaitsFlag (txTask cfg blockSize app succeeds) := by
        rw [entered]
        exact ⟨rfl, waits.2⟩
      rw [live_waiting inside, entered]
      simp [Wakes, place, waits, AwaitsEnable]
    · have moves : ¬ Deadlocked (txTask cfg blockSize app succeeds) := by
        apply live_of_tx
        · simp [txTask, place, waits]
        · simp [txTask, place, waits, AwaitsFlag]
      simp only [Wakes, place, moves, true_iff, not_false_eq_true]
      exact fun received down => absurd ⟨received, down⟩ waits
  | closing =>
    have finished : (txTask cfg blockSize app succeeds).tx = .finished := by simp [txTask, place]
    rw [live_tx_finished finished]
    simp [txTask, Wakes, place, AwaitsEnable]
  | waiting =>
    simp only [Wakes, place, iff_true]
    by_cases raised : app.rxSessionActive = true
    · apply live_of_tx
      · simp [txTask, place, raised]
      · simp [txTask, place, raised, AwaitsFlag]
    · have still : txTask cfg blockSize app succeeds = app := by simp [txTask, place, raised]
      rwa [still]
  | prefilling blocks =>
    simp only [Wakes, place, iff_true]
    apply live_of_tx
    · cases blocks <;> simp only [txTask, place] <;> grind
    · cases blocks <;> simp only [txTask, place, AwaitsFlag] <;> grind
  | finished =>
    have still : txTask cfg blockSize app succeeds = app := by simp [txTask, place]
    simpa [still, Wakes, place] using live
  | _ =>
    simp only [Wakes, place, iff_true]
    apply live_of_tx
    · simp only [txTask, place]
      grind
    · simp only [txTask, place, AwaitsFlag]
      grind

/-- `main` never stops the threads: it touches nothing while one of them runs, and
a new session starts each of them at its first call. -/
theorem main_live (joined : Joined app) (live : ¬ Deadlocked app) (succeeds : Bool) :
    ¬ Deadlocked (mainLoop cfg app succeeds) := by
  cases place : app.main with
  | opening =>
    have ⟨rxFinished, txFinished⟩ := joined (by simp [place])
    cases succeeds with
    | true =>
      simp only [mainLoop, place, Deadlocked, AwaitsEnable, AwaitsFlag]
      grind [RxPc.inRead]
    | false =>
      apply live_of_joined
      · simpa [mainLoop, place] using rxFinished
      · simpa [mainLoop, place] using txFinished
  | running =>
    by_cases both : app.rx = .finished ∧ app.tx = .finished
    · apply live_of_joined
      · simp [mainLoop, place, both]
      · simp [mainLoop, place, both]
    · have still : mainLoop cfg app succeeds = app := by simp [mainLoop, place, both]
      rwa [still]
  | exited =>
    have still : mainLoop cfg app succeeds = app := by simp [mainLoop, place]
    rwa [still]

/-- A finished receiver takes no more steps, and the receiver leaves `main` alone. -/
theorem rxTask_frame (cfg : CliCfg) (blockSize : BitVec 32) (app : App) (succeeds : Bool) :
    (rxTask cfg blockSize app succeeds).main = app.main ∧
      (rxTask cfg blockSize app succeeds).tx = app.tx ∧
      (app.rx = .finished → rxTask cfg blockSize app succeeds = app) := by
  cases place : app.rx with
  | reading drops => cases drops <;> simp only [rxTask, place] <;> grind
  | _ => simp only [rxTask, place]; grind

/-- A finished transmitter takes no more steps, and it leaves `main` alone. -/
theorem txTask_frame (cfg : CliCfg) (blockSize : BitVec 32) (app : App) (succeeds : Bool) :
    (txTask cfg blockSize app succeeds).main = app.main ∧
      (txTask cfg blockSize app succeeds).rx = app.rx ∧
      (app.tx = .finished → txTask cfg blockSize app succeeds = app) := by
  cases place : app.tx with
  | prefilling blocks => cases blocks <;> simp only [txTask, place] <;> grind
  | _ => simp only [txTask, place]; grind

/-- `main` leaves a session only once both threads have finished. -/
theorem mainLoop_joined (joined : Joined app) (succeeds : Bool) :
    Joined (mainLoop cfg app succeeds) := by
  cases place : app.main with
  | opening => cases succeeds <;> simp_all [mainLoop, Joined]
  | running => simp only [mainLoop, place, Joined]; grind
  | exited => simp_all [mainLoop, Joined]

/-- Every step keeps the threads inside their session. -/
theorem joined_step (joined : Joined app) (event : AppEvent) :
    Joined (step cfg blockSize app event) := by
  cases event with
  | main succeeds => exact mainLoop_joined joined succeeds
  | rx succeeds =>
    intro outside
    have ⟨main, tx, still⟩ := rxTask_frame cfg blockSize app succeeds
    have before := joined (main ▸ outside)
    exact ⟨by rw [step, still before.1]; exact before.1, tx.trans before.2⟩
  | tx succeeds =>
    intro outside
    have ⟨main, rx, still⟩ := txTask_frame cfg blockSize app succeeds
    have before := joined (main ▸ outside)
    exact ⟨rx.trans before.1, by rw [step, still before.2]; exact before.2⟩

/-- One step keeps the process alive exactly when it wakes. -/
theorem step_decides (joined : Joined app) (live : ¬ Deadlocked app) (event : AppEvent) :
    ¬ Deadlocked (step cfg blockSize app event) ↔ Wakes cfg app event := by
  cases event with
  | main succeeds => exact iff_of_true (main_live joined live succeeds) trivial
  | rx succeeds => exact rx_decides live succeeds
  | tx succeeds => exact tx_decides live succeeds

/-- A deadlock is for good: no step of any thread changes anything. -/
theorem deadlocked_forever (joined : Joined app) (dead : Deadlocked app) (event : AppEvent) :
    step cfg blockSize app event = app := by
  obtain ⟨unfinished, rxStuck, txStuck⟩ := dead
  have running : app.main = .running := by
    by_contra outside
    have ⟨rxFinished, txFinished⟩ := joined outside
    rcases unfinished with rx | tx
    · exact rx rxFinished
    · exact tx txFinished
  cases event with
  | main succeeds =>
    have apart : ¬ (app.rx = .finished ∧ app.tx = .finished) := by tauto
    simp [step, mainLoop, running, apart]
  | rx succeeds =>
    rcases rxStuck with finished | ⟨inside, disabled⟩
    · exact (rxTask_frame cfg blockSize app succeeds).2.2 finished
    · cases place : app.rx with
      | reading drops => simp [step, rxTask, place, disabled]
      | _ => simp [place, RxPc.inRead] at inside
  | tx succeeds =>
    rcases txStuck with finished | ⟨inside, down⟩
    · exact (txTask_frame cfg blockSize app succeeds).2.2 finished
    · simp [step, txTask, inside, down]

end Steps

/-! ## One direction over TCP

With a single thread nobody waits for the flag, and a receiver over TCP enables
the FPGA before its first `read`. -/

/-- A receiver past its start. -/
def RxPc.streams : RxPc → Bool
  | .calling _ => true
  | .reading _ => true
  | .sending => true
  | _ => false

/-- A thread that was not asked for has finished, a transmitter alone does not
wait, and a receiver alone streams only from an enabled FPGA. -/
structure OneDirection (cfg : CliCfg) (app : App) : Prop where
  joined : Joined app
  transmits : cfg.rxMode = .none → app.rx = .finished ∧ app.tx ≠ .waiting
  receives : cfg.txMode = .none → app.tx = .finished
  connects : app.rx ≠ .connecting
  enabled : cfg.txMode = .none → app.rx.streams = true → app.enabled = true

/-- A receiver inside `read` streams. -/
theorem streams_of_inRead {pc : RxPc} (inside : pc.inRead = true) : pc.streams = true := by
  cases pc with
  | reading drops => rfl
  | _ => simp [RxPc.inRead] at inside

section OneDirection

variable {cfg : CliCfg} {blockSize : BitVec 32} {app : App}

/-- A receiver over TCP enters its loops only from `starting`, and with no
transmitter that step has enabled the FPGA. -/
theorem rxTask_streams (blockSize : BitVec 32) (overTcp : cfg.rxMode = .tcp)
    (kept : OneDirection cfg app) (succeeds : Bool) :
    (rxTask cfg blockSize app succeeds).rx ≠ .connecting ∧
      (cfg.txMode = .none → (rxTask cfg blockSize app succeeds).rx.streams = true →
        (rxTask cfg blockSize app succeeds).enabled = true) := by
  have enabled := kept.enabled
  cases place : app.rx with
  | connecting => exact absurd place kept.connects
  | reading drops =>
    rw [place] at enabled
    cases drops <;> simp only [rxTask, place, rxLeave] <;> grind [RxPc.streams]
  | _ =>
    rw [place] at enabled
    simp only [rxTask, place, rxLeave]
    grind [RxPc.streams]

/-- Without a receiver the transmitter does not wait for one. -/
theorem txTask_waits (noReceiver : cfg.rxMode = .none) (moves : app.tx ≠ .waiting)
    (succeeds : Bool) : (txTask cfg blockSize app succeeds).tx ≠ .waiting := by
  cases place : app.tx with
  | waiting => exact absurd place moves
  | prefilling blocks => cases blocks <;> simp only [txTask, place] <;> grind
  | _ => simp only [txTask, place]; grind

/-- What holds of a single direction over TCP is kept by every step. -/
theorem oneDirection_step (overTcp : cfg.rxMode ≠ .udp) (kept : OneDirection cfg app)
    (event : AppEvent) : OneDirection cfg (step cfg blockSize app event) := by
  have joined : Joined (step cfg blockSize app event) := joined_step kept.joined event
  cases event with
  | main succeeds =>
    obtain ⟨_, transmits, receives, connects, enabled⟩ := kept
    refine ⟨joined, ?_, ?_, ?_, ?_⟩ <;> simp only [step, mainLoop] <;> grind [RxPc.streams]
  | rx succeeds =>
    have ⟨_, tx, still⟩ := rxTask_frame cfg blockSize app succeeds
    cases mode : cfg.rxMode with
    | none =>
      rw [step, still (kept.transmits mode).1]
      exact kept
    | tcp =>
      have ⟨connects, enabled⟩ := rxTask_streams blockSize mode kept succeeds
      refine ⟨joined, ?_, ?_, connects, enabled⟩
      · intro none
        exact absurd (none.symm.trans mode) (by decide)
      · intro none
        exact tx.trans (kept.receives none)
    | udp => exact absurd mode overTcp
  | tx succeeds =>
    have ⟨_, rx, still⟩ := txTask_frame cfg blockSize app succeeds
    refine ⟨joined, ?_, ?_, ?_, ?_⟩
    · intro none
      have ⟨finished, moves⟩ := kept.transmits none
      exact ⟨rx.trans finished, txTask_waits none moves succeeds⟩
    · intro none
      rw [step, still (kept.receives none)]
      exact kept.receives none
    · exact fun connects => kept.connects (rx.symm.trans connects)
    · intro none
      rw [step, still (kept.receives none)]
      exact kept.enabled none

/-- With one direction over TCP nobody is ever left waiting, in no reachable state. -/
theorem one_direction_live (single : cfg.rxMode = .none ∨ cfg.txMode = .none)
    (overTcp : cfg.rxMode ≠ .udp) (events : List AppEvent) :
    ¬ Deadlocked (run (step cfg blockSize) launched events) := by
  have preserved : ∀ app event, OneDirection cfg app → True →
      OneDirection cfg (step cfg blockSize app event) :=
    fun _ event kept _ => oneDirection_step overTcp kept event
  have begins : OneDirection cfg launched :=
    ⟨fun _ => ⟨rfl, rfl⟩, fun _ => ⟨rfl, by decide⟩, fun _ => rfl, by decide,
      fun _ streams => absurd streams (by decide)⟩
  have kept : OneDirection cfg (run (step cfg blockSize) launched events) :=
    invariant preserved begins events (follows_unruled _ _ _)
  rcases single with noReceiver | noTransmitter
  · have ⟨finished, moves⟩ := kept.transmits noReceiver
    rw [live_rx_finished finished]
    exact fun waits => moves waits.1
  · rw [live_tx_finished (kept.receives noTransmitter)]
    rintro ⟨inside, disabled⟩
    have enabled := kept.enabled noTransmitter (streams_of_inRead inside)
    exact Bool.false_ne_true (disabled.symm.trans enabled)

end OneDirection

/-! ## Every configuration -/

/-- No run of `main` deadlocks exactly when every one of its steps wakes. -/
theorem startup_live_iff (cfg : CliCfg) (blockSize : BitVec 32) (events : List AppEvent) :
    Always (fun app => ¬ Deadlocked app) (step cfg blockSize) launched events ↔
      Follows (Wakes cfg) (step cfg blockSize) launched events := by
  have decides : ∀ app event, Joined app ∧ ¬ Deadlocked app → True →
      (¬ Deadlocked (step cfg blockSize app event) ↔ Wakes cfg app event) :=
    fun _ event kept _ => step_decides kept.1 kept.2 event
  have preserved : ∀ app event, Joined app ∧ ¬ Deadlocked app → True → Wakes cfg app event →
      Joined (step cfg blockSize app event) ∧ ¬ Deadlocked (step cfg blockSize app event) :=
    fun app event kept trivially wakes =>
      ⟨joined_step kept.1 event, (decides app event kept trivially).mpr wakes⟩
  have begins : Joined launched ∧ ¬ Deadlocked launched :=
    ⟨fun _ => ⟨rfl, rfl⟩, live_of_joined rfl rfl⟩
  exact always_iff_follows decides preserved begins begins.2 events (follows_unruled _ _ _)

/-- A receiver over UDP and nothing else. -/
def udpAlone : CliCfg := ⟨.udp, .none, .inl (by decide)⟩

/-- Both directions over TCP. -/
def bothTcp : CliCfg := ⟨.tcp, .tcp, .inl (by decide)⟩

/-- Over UDP the first `read` of the first session never returns: nothing has
enabled the FPGA. With both directions over TCP and no failure but that of the
receiver's `accept`, the transmitter waits for a flag nobody will raise. -/
theorem reader_never_enabled :
    Deadlocked (run (step udpAlone 65536) launched [.main true, .rx true, .rx true, .rx true]) ∧
      Deadlocked (run (step bothTcp 65536) launched
        [.main true, .rx true, .tx true, .rx false, .rx true, .tx true, .tx true]) := by
  decide

end Zyndra.Ad9361Txrx
