import Zyndra.RxBooks

/-!
# What the reported lost bytes account for

Each block handed out is identified by the copy of it that is complete in memory
when the response is made up. The account is exact when every block follows the
one before it by its own size and the lost bytes reported with it.

A snap measures what it skips modulo the ring, and a ring that is lapped between
two ticks is not noticed at all. Either way the block handed out is a copy whole
rings ahead of the account. The account is exact in the runs in which, at every
response, the reader's lag beyond the block is less than a ring.
-/

namespace Zyndra.Driver

open CyclicRing Runs

/-- Where the block after the newest one starts. -/
def nextPlace (block : Nat) : List Handout → Nat
  | [] => 0
  | newest :: _ => newest.place + block

/-- Each block, newest first, starts where the one before ended, plus the lost
bytes reported with it. -/
def Exact (block : Nat) : List Handout → Prop
  | [] => True
  | newest :: earlier => newest.place = nextPlace block earlier + newest.lost ∧ Exact block earlier

/-- In an exact account a later block lies wholly beyond every earlier one, so none
is handed out twice. -/
theorem Exact.ordered {block : Nat} {handed : List Handout} (exact : Exact block handed) :
    handed.Pairwise (fun later earlier => earlier.place + block ≤ later.place) := by
  induction handed with
  | nil => exact .nil
  | cons newest earlier inductionHypothesis =>
    obtain ⟨chained, before⟩ := exact
    have ordered := inductionHypothesis before
    apply List.Pairwise.cons
    · intro other member
      cases earlier with
      | nil => cases member
      | cons previous older =>
        rw [nextPlace] at chained
        rcases List.mem_cons.mp member with same | further
        · subst same
          omega
        · have apart := List.rel_of_pairwise_cons ordered further
          omega
    · exact ordered

section Loss

variable (rxBlockSize : BitVec 32)

/-- Bytes the hardware has written beyond those announced. -/
def RxBench.unannounced (b : RxBench) : Nat := b.written - b.announced

/-- The account of the blocks handed out: exact, without repetition, and with less
than a ring of blocks ready after an overrun. -/
structure Accounted (b : RxBench) : Prop where
  exact : Exact rxBlockSize.toNat b.handed
  ordered : b.handed.Pairwise (fun later earlier =>
    earlier.place + rxBlockSize.toNat ≤ later.place)
  caughtUp : ∀ h ∈ b.handed, h.overrun = true →
    h.ready < (b.size / rxBlockSize.toNat : Nat)

/-- When a response is made up, the blocks ready and the unannounced bytes beyond
them are less than a ring. -/
def LagBelowRing (b : RxBench) : RxEvent → Prop
  | .reader => b.pc.responds = true → b.ready * rxBlockSize.toNat + b.unannounced < b.size
  | _ => True

instance (b : RxBench) : (e : RxEvent) → Decidable (LagBelowRing rxBlockSize b e)
  | .reader => inferInstanceAs (Decidable (_ → _))
  | .tick => isTrue trivial
  | .hardware _ => isTrue trivial

/-- The lost bytes a call in progress has put on the account. -/
def ReadPc.lost : ReadPc → Nat
  | .subtracting lost => lost.toNat
  | .decrementing lost => lost.toNat
  | .responding lost => lost.toNat
  | _ => 0

/-- What every state of a run with an exact account keeps. -/
structure Ledger (b : RxBench) : Prop where
  books : Books rxBlockSize b
  account : b.accounted = nextPlace rxBlockSize.toNat b.handed + b.pc.lost
  accounted : Accounted rxBlockSize b

variable {rxBlockSize}

/-- The block handed out is the one on the account exactly when the lag is less
than a ring. -/
theorem Books.place_accounted {b : RxBench} (held : Books rxBlockSize b) {lost : BitVec 32}
    (at_ : b.pc = .responding lost) :
    (b.handout rxBlockSize lost).place = b.accounted ↔
      LagBelowRing rxBlockSize b .reader := by
  have balanced := held.balanced
  have behind := held.behind
  rw [at_] at balanced
  simp only [Balanced, Nat.add_mul, Nat.one_mul] at balanced
  have complete : b.accounted + rxBlockSize.toNat ≤ b.written := by omega
  have lapped := latestCopy_eq_iff held.ring.positive held.readerAt complete
  change latestCopy b.size _ _ _ = _ ↔ _ at lapped
  change latestCopy b.size _ _ _ = _ ↔ _
  rw [lapped]
  simp only [LagBelowRing, at_, ReadPc.responds, forall_const, RxBench.unannounced]
  change b.written < b.accounted + b.size + rxBlockSize.toNat ↔ _
  omega

/-- An event that hands out no block leaves the account. -/
theorem Accounted.keep {b b' : RxBench} (held : Accounted rxBlockSize b)
    (size : b'.size = b.size) (handed : b'.handed = b.handed) : Accounted rxBlockSize b' where
  exact := handed ▸ held.exact
  ordered := handed ▸ held.ordered
  caughtUp := by
    rw [handed, size]
    exact held.caughtUp

/-- A response with less than a ring of lag is the next entry of an exact account. -/
theorem Ledger.respond {b : RxBench} (held : Ledger rxBlockSize b) {lost : BitVec 32}
    (at_ : b.pc = .responding lost) (below : LagBelowRing rxBlockSize b .reader) :
    Exact rxBlockSize.toNat (b.handout rxBlockSize lost :: b.handed) ∧
      (b.handout rxBlockSize lost).ready < (b.size / rxBlockSize.toNat : Nat) := by
  have account := held.account
  have place := (held.books.place_accounted at_).mpr below
  rw [at_] at account
  refine ⟨⟨place.trans account, held.accounted.exact⟩, ?_⟩
  have lag := below (by rw [at_]; rfl)
  have fewer : b.ready < b.size / rxBlockSize.toNat := by
    have ring : b.size / rxBlockSize.toNat * rxBlockSize.toNat = b.size :=
      held.books.ring.blocks_size
    apply Nat.lt_of_mul_lt_mul_right (a := rxBlockSize.toNat)
    omega
  change b.dev.priv.blocksReady.toInt < _
  rw [signed_small held.books.counted]
  exact Int.ofNat_lt.mpr fewer

/-- A step of the reader under the condition keeps the ledger. -/
theorem Ledger.read {b b' : RxBench} (held : Ledger rxBlockSize b)
    (moved : ReaderMoves rxBlockSize b b') (below : LagBelowRing rxBlockSize b .reader) :
    Ledger rxBlockSize b' := by
  have books := held.books.read moved
  have account := held.account
  cases moved with
  | enters at_ => exact ⟨books, by rwa [at_] at account, held.accounted.keep rfl rfl⟩
  | waits limit at_ none => exact held
  | wakes limit at_ some => exact ⟨books, by rwa [at_] at account, held.accounted.keep rfl rfl⟩
  | passes limit at_ keptUp => exact ⟨books, by rwa [at_] at account, held.accounted.keep rfl rfl⟩
  | overruns limit at_ fellBehind =>
    exact ⟨books, by rwa [at_] at account, held.accounted.keep rfl rfl⟩
  | snaps at_ =>
    rw [at_] at account
    refine ⟨books, ?_, held.accounted.keep rfl rfl⟩
    exact congrArg (· + (lostBytes rxBlockSize b.dev).toNat) account
  | subtracts lost at_ => exact ⟨books, by rwa [at_] at account, held.accounted.keep rfl rfl⟩
  | decrements lost at_ => exact ⟨books, by rwa [at_] at account, held.accounted.keep rfl rfl⟩
  | responds lost at_ =>
    obtain ⟨exact, fewer⟩ := held.respond at_ below
    have place := (held.books.place_accounted at_).mpr below
    refine ⟨books, ?_, exact, exact.ordered, ?_⟩
    · exact congrArg (· + rxBlockSize.toNat) place.symm
    · intro h member overrun
      rcases List.mem_cons.mp member with same | earlier
      · subst same
        exact fewer
      · exact held.accounted.caughtUp h earlier overrun

/-- Every event that meets the condition keeps the ledger. -/
theorem Ledger.observe {b : RxBench} (held : Ledger rxBlockSize b) (e : RxEvent)
    (fits : TickFits rxBlockSize b e) (below : LagBelowRing rxBlockSize b e) :
    Ledger rxBlockSize (observe rxBlockSize b e) := by
  have books := held.books.observe e fits
  cases e with
  | hardware bytes => exact ⟨books, held.account, held.accounted.keep rfl rfl⟩
  | tick => exact ⟨books, held.account, held.accounted.keep (tick_size b) rfl⟩
  | reader => exact held.read held.books.reader_moves below

/-- From an exact account, one event leaves it exact only when it meets the
condition: another copy is handed out than the one on the account. -/
theorem Ledger.needs {b : RxBench} (held : Ledger rxBlockSize b) (e : RxEvent)
    (accounted : Accounted rxBlockSize (Driver.observe rxBlockSize b e)) :
    LagBelowRing rxBlockSize b e := by
  cases e with
  | hardware bytes => trivial
  | tick => trivial
  | reader =>
    have account := held.account
    cases at_ : b.pc with
    | responding lost =>
      have chained : Exact rxBlockSize.toNat (b.handout rxBlockSize lost :: b.handed) := by
        rw [← observeReader_response at_]
        exact accounted.exact
      rw [at_] at account
      apply (held.books.place_accounted at_).mp
      exact chained.1.trans account.symm
    | _ => simp [LagBelowRing, ReadPc.responds, at_]

theorem ledger_enabled (d : Device) (ring : BlockRing rxBlockSize d.priv.rxbufSize) :
    Ledger rxBlockSize (enabledBench d) where
  books := books_enabled d ring
  account := rfl
  accounted := ⟨trivial, .nil, fun _ member => absurd member List.not_mem_nil⟩

/-- In every interleaving in which no tick overflows a counter, the lost bytes
reported are exactly those skipped, throughout, if and only if at every response
the reader lags by less than a ring. -/
theorem loss_exact_iff (d : Device) (ring : BlockRing rxBlockSize d.priv.rxbufSize)
    (events : List RxEvent)
    (fits : Follows (TickFits rxBlockSize) (observe rxBlockSize) (enabledBench d) events) :
    Always (Accounted rxBlockSize) (observe rxBlockSize) (enabledBench d) events ↔
      Follows (LagBelowRing rxBlockSize) (observe rxBlockSize) (enabledBench d) events := by
  have decides : ∀ b e, Ledger rxBlockSize b → TickFits rxBlockSize b e →
      (Accounted rxBlockSize (observe rxBlockSize b e) ↔ LagBelowRing rxBlockSize b e) := by
    intro b e held fits
    constructor
    · exact held.needs e
    · intro below
      exact (held.observe e fits below).accounted
  have preserved : ∀ b e, Ledger rxBlockSize b → TickFits rxBlockSize b e →
      LagBelowRing rxBlockSize b e → Ledger rxBlockSize (observe rxBlockSize b e) := by
    intro b e held fits below
    exact held.observe e fits below
  have initial := ledger_enabled d ring
  exact always_iff_follows decides preserved initial initial.accounted events fits

end Loss

/-- In a ring of two blocks the hardware writes three before the first read. -/
def lappedReader : List RxEvent :=
  [.hardware 128, .tick, .hardware 128, .tick, .hardware 128, .tick] ++ List.replicate 14 .reader

/-- The first snap skips a whole ring and reports no loss; the second read hands
out the same copy of the same block and reports a loss. -/
theorem block_delivered_twice :
    Follows LapRule (observe 128) (enabledBench (mapped 256)) lappedReader ∧
      ¬ Always (Accounted 128) (observe 128) (enabledBench (mapped 256)) lappedReader ∧
      (run (observe 128) (enabledBench (mapped 256)) lappedReader).handed.map
        (fun h => (h.place, h.lost)) = [(256, 128), (256, 0)] := by
  have twice : (run (observe 128) (enabledBench (mapped 256)) lappedReader).handed.map
      (fun h => (h.place, h.lost)) = [(256, 128), (256, 0)] := by decide +kernel
  refine ⟨by decide +kernel, ?_, twice⟩
  intro accounted
  have places : (run (observe 128) (enabledBench (mapped 256)) lappedReader).handed.map
      Handout.place = [256, 256] := by decide +kernel
  have apart : ((run (observe 128) (enabledBench (mapped 256)) lappedReader).handed.map
      Handout.place).Pairwise (fun later earlier => earlier + 128 ≤ later) :=
    List.pairwise_map.mpr accounted.last.ordered
  rw [places] at apart
  exact absurd apart (by decide)

/-- A read four blocks behind in a ring of three reports its two lost blocks. -/
theorem loss_exact_late :
    Always (Accounted 128) (observe 128) (enabledBench (mapped 384)) lateReader :=
  (loss_exact_iff (mapped 384) ⟨by decide, by decide, by decide, by decide⟩ lateReader
    (by decide +kernel)).mpr (by decide +kernel)

end Zyndra.Driver
