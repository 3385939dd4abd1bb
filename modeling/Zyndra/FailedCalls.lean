import Zyndra.CacheRanges
import Mathlib.Data.BitVec

/-!
# Calls that fail

A call to the driver is one of its four requests with what its caller passes in
and what user memory and the memory manager answer. Between its steps the timer,
the hardware, `release` and a thread that transmits may take theirs. A run with a
call is compared with the run of the others alone: what a failing call leaves
behind is the difference of the two.

Most exits come before anything is stored. Two come after: the copy of a `read`
response, made when the block has been counted out, and the mapping of the pages,
made when `mmap` has stored the ring size and shown it to the hardware.
-/

namespace Zyndra.Driver

open Runs

/-- The commands of `ad936x_axi_ioctl`; `unknown` is any other number. -/
inductive Command where
  | getRxBufsize
  | getBlocksize
  | getTxBufsize
  | enable
  | unknown
  deriving DecidableEq, Repr

/-- The negative results: a constant of the driver, `-ENOTTY`, or whatever
`remap_pfn_range` has returned. -/
inductive Failure where
  | errno (errno : Errno)
  | enotty
  | remapPfnRange
  deriving DecidableEq, Repr

/-- What a successful call hands back. -/
inductive Reply where
  | response (resp : RxRead)
  | accepted
  | value (stored : BitVec 32)
  | done
  deriving DecidableEq, Repr

inductive MmapPc where
  | checking
  | storing
  | showing
  | mapping
  deriving DecidableEq, Repr

/-- A call with the place it has reached. `remapFails` and `putFails` are the
answers of `remap_pfn_range` and `put_user`. -/
inductive Call where
  | read (call : ReadCall) (pc : ReadPc)
  | write (call : WriteCall) (pc : WritePc)
  | mmap (call : MmapCall) (remapFails : Bool) (pc : MmapPc)
  | ioctl (cmd : Command) (putFails : Bool)
  | enabling (pc : EnablePc)
  | returned (result : Except Failure Reply)

/-- The call has not taken a step. -/
def Call.Entered : Call → Prop
  | .read _ pc => pc = .outside
  | .write _ pc => pc = .outside
  | .mmap _ _ pc => pc = .checking
  | .ioctl _ _ => True
  | .enabling _ | .returned _ => False

/-- `put_user` of a value the driver keeps. -/
def putUser (value : BitVec 32) (putFails : Bool) : Except Failure Reply :=
  if putFails then .error (.errno .efault) else .ok (.value value)

section Calls

variable (rxBlockSize : BitVec 32)

/-- One step of a call, over the steps of its handler. -/
def callStep (call : Call) (d : Device) : Call × Device :=
  match call with
  | .read call pc =>
    let taken := readStep rxBlockSize call pc d
    match taken.result with
    | none => (.read call taken.pc, taken.device)
    | some (.ok resp) => (.returned (.ok (.response resp)), taken.device)
    | some (.error errno) => (.returned (.error (.errno errno)), taken.device)
  | .write call pc =>
    let taken := writeStep rxBlockSize call pc d
    match taken.result with
    | none => (.write call taken.pc, taken.device)
    | some (.ok ()) => (.returned (.ok .accepted), taken.device)
    | some (.error errno) => (.returned (.error (.errno errno)), taken.device)
  | .mmap call remapFails .checking =>
    match mmapCheck rxBlockSize call d with
    | .ok () => (.mmap call remapFails .storing, d)
    | .error errno => (.returned (.error (.errno errno)), d)
  | .mmap call remapFails .storing => (.mmap call remapFails .showing, mmapSize call d)
  | .mmap call remapFails .showing => (.mmap call remapFails .mapping, mmapRegister call d)
  | .mmap _ remapFails .mapping =>
    (.returned (if remapFails then .error .remapPfnRange else .ok .done), d)
  | .ioctl .getRxBufsize putFails => (.returned (putUser d.priv.rxbufSizeMax putFails), d)
  | .ioctl .getBlocksize putFails => (.returned (putUser rxBlockSize putFails), d)
  | .ioctl .getTxBufsize putFails => (.returned (putUser d.priv.txbufSizeMax putFails), d)
  | .ioctl .enable _ => (.enabling .chooseCtrl, d)
  | .ioctl .unknown _ => (.returned (.error .enotty), d)
  | .enabling .returned => (.returned (.ok .done), d)
  | .enabling pc => (.enabling (enableStep pc d).1, (enableStep pc d).2)
  | .returned result => (.returned result, d)

/-- The driver's data, and the call in progress. -/
structure Service where
  dev : Device
  call : Call

/-- The call takes its next step, or someone else does. -/
inductive Turn (Other : Type) where
  | own
  | other (event : Other)

/-- The steps of the others, the call left out. -/
def without {Other : Type} (turns : List (Turn Other)) : List Other :=
  turns.filterMap fun turn =>
    match turn with
    | .own => none
    | .other event => some event

def attend {Other : Type} (others : Device → Other → Device) (s : Service) :
    Turn Other → Service
  | .own => ⟨(callStep rxBlockSize s.call s.dev).2, (callStep rxBlockSize s.call s.dev).1⟩
  | .other event => { s with dev := others s.dev event }

/-- The others: the timer, the hardware's two pointers, the two halves of
`release`, and the publication of a thread that transmits. -/
inductive Concurrent where
  | tick
  | hardware (rxBufWr txBufRd : BitVec 32)
  | closing
  | released
  | publish (wr : BitVec 32)

def concurrently (d : Device) : Concurrent → Device
  | .tick => timer rxBlockSize d
  | .hardware rxBufWr txBufRd =>
    { d with regs := { d.regs with rxBufWr := rxBufWr, txBufRd := txBufRd } }
  | .closing => { d with priv := { d.priv with closing := true } }
  | .released =>
    { d with
      regs := { d.regs with ctrl := 0 }
      priv := { d.priv with inUse := false, timerActive := false } }
  | .publish wr => publish d wr

/-! ## The property and the condition -/

/-- The state both rings are run by. -/
structure RingState where
  rdPtr : BitVec 32
  blocksReady : BitVec 32
  timerWrPtr : BitVec 32
  txWrPtr : BitVec 32
  rxbufSize : BitVec 32
  txbufSize : BitVec 32
  overrunBytes : BitVec 64
  regs : Regs

def ringState (d : Device) : RingState where
  rdPtr := d.priv.rdPtr
  blocksReady := d.priv.blocksReady
  timerWrPtr := d.priv.timerWrPtr
  txWrPtr := d.priv.txWrPtr
  rxbufSize := d.priv.rxbufSize
  txbufSize := d.priv.txbufSize
  overrunBytes := d.priv.overrunBytes
  regs := d.regs

/-- The call has returned a negative error. -/
def Service.Failed (s : Service) : Prop := ∃ failure, s.call = .returned (.error failure)

/-- A `read` that waits goes on to hand out a block. -/
def BlockTaken (d : Device) : Prop :=
  BitVec.slt 0 d.priv.blocksReady = true ∧ d.priv.closing = false

/-- The size and the register of the ring a mapping is for. -/
def mappedSize (call : MmapCall) (d : Device) : BitVec 32 :=
  if call.vmPgoff = 0 then d.priv.rxbufSize else d.priv.txbufSize

def mappedRegister (call : MmapCall) (d : Device) : BitVec 32 :=
  if call.vmPgoff = 0 then d.regs.rxBufSize else d.regs.txBufSize

/-- No `read` whose buffer cannot be written takes a block, and no `mmap` whose
pages will not be mapped stores a size, in the driver or in the register, other
than the one already there. -/
def Spares {Other : Type} (s : Service) : Turn Other → Prop
  | .own =>
    match s.call with
    | .read call (.waiting _) => call.copyFails = true → ¬ BlockTaken s.dev
    | .mmap call true .storing => mappedSize call s.dev = call.size
    | .mmap call true .showing => mappedRegister call s.dev = mappedSize call s.dev
    | _ => True
  | .other _ => True

/-! ## What a call's steps do

A call is still open while it may fail without having stored anything new, and
bound once it can only succeed. A step out of an open call that meets the
condition leaves the device or binds the call. -/

/-- The call has stored nothing, or only what was there, and may yet fail. -/
def Call.Open : Call → Prop
  | .read _ .outside | .read _ (.waiting _) => True
  | .read _ _ => False
  | .write _ pc => ∀ wr, pc ≠ .publishing wr
  | .mmap _ remapFails pc => pc = .checking ∨ remapFails = true
  | .ioctl _ _ => True
  | .enabling _ => False
  | .returned result => ∃ failure, result = .error failure

/-- The call is past all its failures. -/
def Call.Bound : Call → Prop
  | .read _ .outside | .read _ (.waiting _) => False
  | .read call _ => call.copyFails = false
  | .write _ pc => ∃ wr, pc = .publishing wr
  | .mmap _ remapFails pc => pc ≠ .checking ∧ remapFails = false
  | .ioctl _ _ => False
  | .enabling _ => True
  | .returned result => ∃ reply, result = .ok reply

variable {rxBlockSize : BitVec 32}

theorem open_of_entered {call : Call} (entered : call.Entered) : call.Open := by
  cases call with
  | read call pc => subst entered; trivial
  | write call pc => subst entered; rintro wr ⟨⟩
  | mmap call remapFails pc => exact .inl entered
  | ioctl cmd putFails => trivial
  | enabling pc => exact entered.elim
  | returned result => exact entered.elim

/-- A bound call has not failed. -/
theorem not_failed_of_bound {s : Service} (bound : s.call.Bound) : ¬ s.Failed := by
  rintro ⟨failure, failed⟩
  rw [failed] at bound
  obtain ⟨reply, contradictory⟩ := bound
  cases contradictory

/-- A `read` whose wait ends takes a block when the device is not being closed. -/
theorem readStep_taken (call : ReadCall) (blocks : BitVec 32) {d : Device} (taken : BlockTaken d) :
    readStep rxBlockSize call (.waiting blocks) d = ⟨.testing blocks, d, none⟩ := by
  obtain ⟨some, closing⟩ := taken
  have passes : (BitVec.slt 0 d.priv.blocksReady || d.priv.closing) = true := by
    rw [some]
    rfl
  have stays : ¬ d.priv.closing = true := by
    rw [closing]
    decide
  rw [readStep, if_pos passes, if_neg stays]

/-- `read` takes its steps out of an open place without storing, unless it goes
on to take a block. -/
theorem read_open (call : ReadCall) (pc : ReadPc) (d : Device) (still : (Call.read call pc).Open)
    (spared : ∀ blocks, pc = .waiting blocks → call.copyFails = true → ¬ BlockTaken d) :
    ((callStep rxBlockSize (.read call pc) d).2 = d ∧
        (callStep rxBlockSize (.read call pc) d).1.Open) ∨
      (callStep rxBlockSize (.read call pc) d).1.Bound := by
  cases pc with
  | outside =>
    left
    by_cases short : call.count < 12
    · simp [callStep, readStep, short, Call.Open]
    · simp [callStep, readStep, short, Call.Open]
  | waiting blocks =>
    by_cases closing : d.priv.closing = true
    · left
      simp [callStep, readStep, closing, Call.Open]
    · by_cases some : BitVec.slt 0#32 d.priv.blocksReady = true
      · have taken : BlockTaken d := ⟨some, by simpa using closing⟩
        have copied : call.copyFails = false := by
          by_contra fails
          exact spared blocks rfl (by simpa using fails) taken
        right
        simp only [callStep, readStep_taken call blocks taken]
        exact copied
      · left
        simp [callStep, readStep, closing, some, Call.Open]
  | _ => exact still.elim

/-- `write` takes its steps out of an open place without storing. -/
theorem write_open (call : WriteCall) (pc : WritePc) (d : Device)
    (still : (Call.write call pc).Open) :
    ((callStep rxBlockSize (.write call pc) d).2 = d ∧
        (callStep rxBlockSize (.write call pc) d).1.Open) ∨
      (callStep rxBlockSize (.write call pc) d).1.Bound := by
  cases pc with
  | outside =>
    left
    simp only [callStep, writeStep]
    split_ifs <;> simp [Call.Open]
  | waiting wr =>
    by_cases closing : d.priv.closing = true
    · left
      simp [callStep, writeStep, closing, Call.Open]
    · by_cases room : hasRoom rxBlockSize d wr = true
      · right
        simp [callStep, writeStep, closing, room, Call.Bound]
      · left
        simp [callStep, writeStep, closing, room, Call.Open]
  | publishing wr => exact (still wr rfl).elim

/-- Storing the size that is there changes nothing. -/
theorem mmapSize_same {call : MmapCall} {d : Device} (same : mappedSize call d = call.size) :
    mmapSize call d = d := by
  unfold mappedSize at same
  unfold mmapSize
  split_ifs at same ⊢ <;> rw [← same]

theorem mmapRegister_same {call : MmapCall} {d : Device}
    (same : mappedRegister call d = mappedSize call d) : mmapRegister call d = d := by
  unfold mappedRegister mappedSize at same
  unfold mmapRegister
  split_ifs at same ⊢ <;> rw [← same]

/-- `mmap` leaves the device until its checks have passed, and after them when it
stores what is there or goes on to map the pages. -/
theorem mmap_open (call : MmapCall) (remapFails : Bool) (pc : MmapPc) (d : Device)
    (still : (Call.mmap call remapFails pc).Open)
    (sized : remapFails = true → pc = .storing → mappedSize call d = call.size)
    (shown : remapFails = true → pc = .showing → mappedRegister call d = mappedSize call d) :
    ((callStep rxBlockSize (.mmap call remapFails pc) d).2 = d ∧
        (callStep rxBlockSize (.mmap call remapFails pc) d).1.Open) ∨
      (callStep rxBlockSize (.mmap call remapFails pc) d).1.Bound := by
  have fails : pc ≠ .checking → remapFails = true := by
    intro past
    exact still.resolve_left past
  cases pc with
  | checking =>
    simp only [callStep]
    cases mmapCheck rxBlockSize call d with
    | error errno => exact .inl ⟨rfl, .errno errno, rfl⟩
    | ok _ =>
      cases remapFails with
      | false => exact .inr ⟨nofun, rfl⟩
      | true => exact .inl ⟨rfl, .inr rfl⟩
  | storing =>
    have failing := fails nofun
    exact .inl ⟨mmapSize_same (sized failing rfl), .inr failing⟩
  | showing =>
    have failing := fails nofun
    exact .inl ⟨mmapRegister_same (shown failing rfl), .inr failing⟩
  | mapping =>
    have failing := fails nofun
    exact .inl ⟨rfl, .remapPfnRange, by rw [failing]; rfl⟩

/-- `put_user` leaves the device, whatever it answers. -/
theorem putUser_open (value : BitVec 32) (putFails : Bool) :
    (Call.returned (putUser value putFails)).Open ∨
      (Call.returned (putUser value putFails)).Bound := by
  cases putFails with
  | false => exact .inr ⟨.value value, rfl⟩
  | true => exact .inl ⟨.errno .efault, rfl⟩

theorem ioctl_open (cmd : Command) (putFails : Bool) (d : Device) :
    ((callStep rxBlockSize (.ioctl cmd putFails) d).2 = d ∧
        (callStep rxBlockSize (.ioctl cmd putFails) d).1.Open) ∨
      (callStep rxBlockSize (.ioctl cmd putFails) d).1.Bound := by
  cases cmd with
  | getRxBufsize => exact (putUser_open _ putFails).imp_left fun still => ⟨rfl, still⟩
  | getBlocksize => exact (putUser_open _ putFails).imp_left fun still => ⟨rfl, still⟩
  | getTxBufsize => exact (putUser_open _ putFails).imp_left fun still => ⟨rfl, still⟩
  | enable => exact .inr trivial
  | unknown => exact .inl ⟨rfl, .enotty, rfl⟩

/-- A step out of an open call that meets the condition leaves the device and the
call open, or binds the call. -/
theorem callStep_open {Other : Type} {s : Service} (still : s.call.Open)
    (spared : Spares s (.own : Turn Other)) :
    ((callStep rxBlockSize s.call s.dev).2 = s.dev ∧
        (callStep rxBlockSize s.call s.dev).1.Open) ∨
      (callStep rxBlockSize s.call s.dev).1.Bound := by
  obtain ⟨d, call⟩ := s
  cases call with
  | read call pc =>
    apply read_open call pc d still
    rintro blocks rfl
    exact spared
  | write call pc => exact write_open call pc d still
  | mmap call remapFails pc =>
    apply mmap_open call remapFails pc d still
    · rintro rfl rfl
      exact spared
    · rintro rfl rfl
      exact spared
  | ioctl cmd putFails => exact ioctl_open cmd putFails d
  | enabling pc => exact still.elim
  | returned result => exact .inl ⟨rfl, still⟩

/-- A bound call stays bound. -/
theorem callStep_bound {call : Call} (d : Device) (bound : call.Bound) :
    (callStep rxBlockSize call d).1.Bound := by
  cases call with
  | read call pc =>
    cases pc with
    | outside => exact bound.elim
    | waiting blocks => exact bound.elim
    | testing maxBlocks =>
      have copied : call.copyFails = false := bound
      simp only [callStep, readStep]
      split_ifs <;> exact copied
    | responding lost =>
      have copied : call.copyFails = false := bound
      simp [callStep, readStep, copied, Call.Bound]
    | snapping => exact bound
    | subtracting lost => exact bound
    | decrementing lost => exact bound
  | write call pc =>
    obtain ⟨wr, rfl⟩ := bound
    exact ⟨.accepted, rfl⟩
  | mmap call remapFails pc =>
    obtain ⟨past, maps⟩ := bound
    cases pc with
    | checking => exact (past rfl).elim
    | storing => exact ⟨by simp, maps⟩
    | showing => exact ⟨by simp, maps⟩
    | mapping => exact ⟨.done, by rw [maps]; rfl⟩
  | ioctl cmd putFails => exact bound.elim
  | enabling pc =>
    cases pc with
    | returned => exact ⟨.done, rfl⟩
    | _ => trivial
  | returned result => exact bound

/-! ## What a failing call leaves

A `read` that fails after its wait has counted a block out; when it has skipped
blocks as well, it has added them to the overrun counter. The others add to both
counts without looking at them, so the difference stays. -/

/-- The device is where the others alone would have brought it, but for a `read`
that has counted `lost` bytes as lost and `taken` blocks as taken. -/
structure Behind (d alone : Device) (lost taken : BitVec 32) : Prop where
  regs : d.regs = alone.regs
  size : d.priv.rxbufSize = alone.priv.rxbufSize
  timer : d.priv.timerWrPtr = alone.priv.timerWrPtr
  overrun : d.priv.overrunBytes = alone.priv.overrunBytes + lost.setWidth 64
  blocks : d.priv.blocksReady = alone.priv.blocksReady - taken

/-- The ring a mapping is for differs in its size or in its register. -/
def Resized (call : MmapCall) (d alone : Device) : Prop :=
  mappedSize call d ≠ mappedSize call alone ∨ mappedRegister call d ≠ mappedRegister call alone

/-- The call is past a step that did not meet the condition. -/
def Parted (rxBlockSize : BitVec 32) (call : Call) (d alone : Device) : Prop :=
  match call with
  | .read call pc =>
    call.copyFails = true ∧
      match pc with
      | .outside | .waiting _ => False
      | .testing _ | .snapping => Behind d alone 0 0
      | .subtracting lost => Behind d alone lost 0
      | .decrementing lost => Behind d alone lost (lost / rxBlockSize)
      | .responding lost => Behind d alone lost (lost / rxBlockSize + 1)
  | .mmap call remapFails pc =>
    remapFails = true ∧
      match pc with
      | .checking | .storing => False
      | .showing => mappedSize call d ≠ mappedSize call alone
      | .mapping => Resized call d alone
  | .returned (.error _) =>
    (∃ lost, Behind d alone lost (lost / rxBlockSize + 1)) ∨
      ∃ call, Resized call d alone
  | _ => False

/-- The steps of the others keep what a `read` has left behind. -/
theorem Behind.concurrently {d alone : Device} {lost taken : BitVec 32}
    (behind : Behind d alone lost taken) (event : Concurrent) :
    Behind (concurrently rxBlockSize d event) (concurrently rxBlockSize alone event) lost
      taken := by
  have sameBlocks : newBlocks rxBlockSize d = newBlocks rxBlockSize alone := by
    rw [newBlocks, newBlocks, behind.regs, behind.size, behind.timer]
  cases event with
  | tick =>
    simp only [Driver.concurrently, Driver.timer, sameBlocks, behind.size]
    split_ifs
    · constructor
      · exact behind.regs
      · rfl
      · simp only [behind.timer]
      · exact behind.overrun
      · simp only [behind.blocks]
        exact sub_add_eq_add_sub _ _ _
    · exact behind
  | hardware rxBufWr txBufRd =>
    exact ⟨congrArg (fun regs : Regs => { regs with rxBufWr := rxBufWr, txBufRd := txBufRd })
      behind.regs, behind.size, behind.timer, behind.overrun, behind.blocks⟩
  | closing => exact ⟨behind.regs, behind.size, behind.timer, behind.overrun, behind.blocks⟩
  | released =>
    exact ⟨congrArg (fun regs : Regs => { regs with ctrl := 0 }) behind.regs, behind.size,
      behind.timer, behind.overrun, behind.blocks⟩
  | publish wr =>
    exact ⟨congrArg (fun regs : Regs => { regs with txBufWr := wr }) behind.regs, behind.size,
      behind.timer, behind.overrun, behind.blocks⟩

/-- The others leave the sizes of the rings and their registers. -/
theorem concurrently_mapped (call : MmapCall) (d : Device) (event : Concurrent) :
    mappedSize call (concurrently rxBlockSize d event) = mappedSize call d ∧
      mappedRegister call (concurrently rxBlockSize d event) = mappedRegister call d := by
  cases event with
  | tick =>
    simp only [concurrently, timer]
    split_ifs <;> exact ⟨rfl, rfl⟩
  | hardware rxBufWr txBufRd => exact ⟨rfl, rfl⟩
  | closing => exact ⟨rfl, rfl⟩
  | released => exact ⟨rfl, rfl⟩
  | publish wr => exact ⟨rfl, rfl⟩

theorem Resized.concurrently {call : MmapCall} {d alone : Device}
    (resized : Resized call d alone) (event : Concurrent) :
    Resized call (concurrently rxBlockSize d event) (concurrently rxBlockSize alone event) := by
  rw [Resized, (concurrently_mapped call d event).1, (concurrently_mapped call d event).2,
    (concurrently_mapped call alone event).1, (concurrently_mapped call alone event).2]
  exact resized

/-- A snap adds the lost bytes to the overrun counter and moves the read offset. -/
theorem Behind.snap {d alone : Device} (behind : Behind d alone 0 0) :
    Behind (snap rxBlockSize d) alone (lostBytes rxBlockSize d) 0 where
  regs := behind.regs
  size := behind.size
  timer := behind.timer
  overrun := by
    have before : d.priv.overrunBytes = alone.priv.overrunBytes := by
      rw [behind.overrun]
      exact BitVec.add_zero _
    exact congrArg (· + (lostBytes rxBlockSize d).setWidth 64) before
  blocks := behind.blocks

/-- Taking blocks out of the count adds to those taken. -/
theorem Behind.take {d alone : Device} {lost taken : BitVec 32}
    (behind : Behind d alone lost taken) (more : BitVec 32) :
    Behind { d with priv := { d.priv with blocksReady := d.priv.blocksReady - more } } alone lost
      (taken + more) where
  regs := behind.regs
  size := behind.size
  timer := behind.timer
  overrun := behind.overrun
  blocks := by
    have before := behind.blocks
    simp only [before]
    exact sub_sub (alone.priv.blocksReady) taken more

/-- A parted call stays parted through its own steps. -/
theorem parted_own {call : Call} {d alone : Device} (parted : Parted rxBlockSize call d alone) :
    Parted rxBlockSize (callStep rxBlockSize call d).1 (callStep rxBlockSize call d).2 alone := by
  cases call with
  | read call pc =>
    obtain ⟨fails, parted⟩ := parted
    cases pc with
    | outside => exact parted.elim
    | waiting blocks => exact parted.elim
    | testing maxBlocks =>
      have none : (0 : BitVec 32) / rxBlockSize = 0 := BitVec.zero_udiv
      simp only [callStep, readStep]
      split_ifs
      · exact ⟨fails, parted⟩
      · refine ⟨fails, ?_⟩
        simp only [none]
        exact parted
    | snapping => exact ⟨fails, parted.snap⟩
    | subtracting lost =>
      have taken := Behind.take parted (lost / rxBlockSize)
      have sum : 0 + lost / rxBlockSize = lost / rxBlockSize := BitVec.zero_add _
      rw [sum] at taken
      exact ⟨fails, taken⟩
    | decrementing lost => exact ⟨fails, Behind.take parted 1⟩
    | responding lost =>
      simp only [callStep, readStep, fails, if_true]
      exact .inl ⟨lost, parted.regs, parted.size, parted.timer, parted.overrun, parted.blocks⟩
  | mmap call remapFails pc =>
    obtain ⟨rfl, parted⟩ := parted
    cases pc with
    | checking => exact parted.elim
    | storing => exact parted.elim
    | showing => exact ⟨rfl, .inl parted⟩
    | mapping => exact .inr ⟨call, parted⟩
  | returned result => exact parted
  | write call pc => exact parted.elim
  | ioctl cmd putFails => exact parted.elim
  | enabling pc => exact parted.elim

/-- The others leave a call parted. -/
theorem parted_other {call : Call} {d alone : Device} (parted : Parted rxBlockSize call d alone)
    (event : Concurrent) :
    Parted rxBlockSize call (concurrently rxBlockSize d event)
      (concurrently rxBlockSize alone event) := by
  cases call with
  | read call pc =>
    obtain ⟨fails, parted⟩ := parted
    refine ⟨fails, ?_⟩
    cases pc with
    | outside => exact parted.elim
    | waiting blocks => exact parted.elim
    | _ => exact parted.concurrently event
  | mmap call remapFails pc =>
    obtain ⟨fails, parted⟩ := parted
    refine ⟨fails, ?_⟩
    cases pc with
    | checking => exact parted.elim
    | storing => exact parted.elim
    | showing =>
      simp only [(concurrently_mapped call d event).1, (concurrently_mapped call alone event).1]
      exact parted
    | mapping => exact parted.concurrently event
  | returned result =>
    cases result with
    | ok reply => exact parted.elim
    | error failure =>
      rcases parted with ⟨lost, behind⟩ | ⟨call, resized⟩
      · exact .inl ⟨lost, behind.concurrently event⟩
      · exact .inr ⟨call, resized.concurrently event⟩
  | write call pc => exact parted.elim
  | ioctl cmd putFails => exact parted.elim
  | enabling pc => exact parted.elim

/-- Nothing is lost and nothing taken where nothing has happened. -/
theorem Behind.refl (d : Device) : Behind d d 0 0 where
  regs := rfl
  size := rfl
  timer := rfl
  overrun := (BitVec.add_zero _).symm
  blocks := (BitVec.sub_zero _).symm

/-- A step of an open call that misses the condition parts it. -/
theorem parted_of_not_spared {Other : Type} {call : Call} {d : Device} (still : call.Open)
    (missed : ¬ Spares ⟨d, call⟩ (.own : Turn Other)) :
    Parted rxBlockSize (callStep rxBlockSize call d).1 (callStep rxBlockSize call d).2 d := by
  cases call with
  | read call pc =>
    cases pc with
    | waiting blocks =>
      simp only [Spares, Classical.not_imp, not_not] at missed
      obtain ⟨fails, taken⟩ := missed
      simp only [callStep, readStep_taken call blocks taken]
      exact ⟨fails, Behind.refl d⟩
    | _ => exact (missed trivial).elim
  | mmap call remapFails pc =>
    cases remapFails with
    | false =>
      cases pc <;> exact (missed trivial).elim
    | true =>
      cases pc with
      | checking => exact (missed trivial).elim
      | storing =>
        refine ⟨rfl, ?_⟩
        have stored : mappedSize call (mmapSize call d) = call.size := by
          unfold mappedSize mmapSize
          split_ifs <;> rfl
        intro same
        exact missed (same.symm.trans stored)
      | showing =>
        refine ⟨rfl, .inr ?_⟩
        have shown : mappedRegister call (mmapRegister call d) = mappedSize call d := by
          unfold mappedRegister mmapRegister mappedSize
          split_ifs <;> rfl
        intro same
        exact missed (same.symm.trans shown)
      | mapping => exact (missed trivial).elim
  | write call pc => exact (missed trivial).elim
  | ioctl cmd putFails => exact (missed trivial).elim
  | enabling pc => exact (missed trivial).elim
  | returned result => exact (missed trivial).elim

/-- A parted call that has failed has changed the ring state: had it lost nothing,
it would still have taken one block. -/
theorem parted_differs {failure : Failure} {d alone : Device}
    (parted : Parted rxBlockSize (.returned (.error failure)) d alone) :
    ringState d ≠ ringState alone := by
  intro same
  rcases parted with ⟨lost, behind⟩ | ⟨call, resized⟩
  · have overrun : d.priv.overrunBytes = alone.priv.overrunBytes :=
      congrArg RingState.overrunBytes same
    have blocks : d.priv.blocksReady = alone.priv.blocksReady :=
      congrArg RingState.blocksReady same
    rw [behind.overrun] at overrun
    rw [behind.blocks] at blocks
    have noneLost : lost.setWidth 64 = 0 := by simpa using overrun
    have nothing : lost = 0 := widened_zero noneLost
    have noneTaken : lost / rxBlockSize + 1 = 0 := by simpa using blocks
    rw [nothing, BitVec.ofNat_eq_ofNat, BitVec.zero_udiv] at noneTaken
    exact absurd noneTaken (by decide)
  · have sizes : mappedSize call d = mappedSize call alone := by
      unfold mappedSize
      rw [show d.priv.rxbufSize = alone.priv.rxbufSize from congrArg RingState.rxbufSize same,
        show d.priv.txbufSize = alone.priv.txbufSize from congrArg RingState.txbufSize same]
    have registers : mappedRegister call d = mappedRegister call alone := by
      unfold mappedRegister
      rw [show d.regs = alone.regs from congrArg RingState.regs same]
    exact resized.elim (fun differ => differ sizes) (fun differ => differ registers)

/-! ## Runs -/

/-- A bound call does not fail. -/
theorem run_bound {Other : Type} {others : Device → Other → Device} {s : Service}
    (bound : s.call.Bound) (turns : List (Turn Other)) :
    ¬ (run (attend rxBlockSize others) s turns).Failed := by
  induction turns generalizing s with
  | nil => exact not_failed_of_bound bound
  | cons turn rest inductionHypothesis =>
    cases turn with
    | own =>
      exact inductionHypothesis (s := attend _ _ s .own) (callStep_bound s.dev bound)
    | other event => exact inductionHypothesis (s := attend _ _ s (.other event)) bound

/-- A parted call ends parted. -/
theorem run_parted {s : Service} {alone : Device} (parted : Parted rxBlockSize s.call s.dev alone)
    (turns : List (Turn Concurrent)) :
    Parted rxBlockSize (run (attend rxBlockSize (concurrently rxBlockSize)) s turns).call
      (run (attend rxBlockSize (concurrently rxBlockSize)) s turns).dev
      (run (concurrently rxBlockSize) alone (without turns)) := by
  induction turns generalizing s alone with
  | nil => exact parted
  | cons turn rest inductionHypothesis =>
    cases turn with
    | own => exact inductionHypothesis (s := attend _ _ s .own) (parted_own parted)
    | other event =>
      exact inductionHypothesis (s := attend _ _ s (.other event)) (parted_other parted event)

/-- Whatever the others do, a failing call that meets the condition is not seen:
the device is where they alone would have brought it. -/
theorem spared_call_unseen {Other : Type} (others : Device → Other → Device) {s : Service}
    (still : s.call.Open) (turns : List (Turn Other))
    (failed : (run (attend rxBlockSize others) s turns).Failed)
    (spares : Follows Spares (attend rxBlockSize others) s turns) :
    (run (attend rxBlockSize others) s turns).dev = run others s.dev (without turns) := by
  induction turns generalizing s with
  | nil => rfl
  | cons turn rest inductionHypothesis =>
    obtain ⟨spared, later⟩ := spares
    cases turn with
    | own =>
      rcases callStep_open still spared with ⟨same, next⟩ | bound
      · have rested := inductionHypothesis (s := attend rxBlockSize others s .own) next failed later
        have started : (attend rxBlockSize others s .own).dev = s.dev := same
        rw [started] at rested
        exact rested
      · exact (run_bound (s := attend rxBlockSize others s .own) bound rest failed).elim
    | other event =>
      exact inductionHypothesis (s := attend rxBlockSize others s (.other event)) still failed later

/-- A failing call that misses the condition ends parted from the others. -/
theorem parted_of_not_follows {s : Service} (still : s.call.Open) (turns : List (Turn Concurrent))
    (failed : (run (attend rxBlockSize (concurrently rxBlockSize)) s turns).Failed)
    (missed : ¬ Follows Spares (attend rxBlockSize (concurrently rxBlockSize)) s turns) :
    Parted rxBlockSize (run (attend rxBlockSize (concurrently rxBlockSize)) s turns).call
      (run (attend rxBlockSize (concurrently rxBlockSize)) s turns).dev
      (run (concurrently rxBlockSize) s.dev (without turns)) := by
  induction turns generalizing s with
  | nil => exact (missed trivial).elim
  | cons turn rest inductionHypothesis =>
    cases turn with
    | own =>
      by_cases spared : Spares s (.own : Turn Concurrent)
      · have later : ¬ Follows Spares (attend rxBlockSize (concurrently rxBlockSize))
            (attend rxBlockSize (concurrently rxBlockSize) s .own) rest :=
          fun follows => missed ⟨spared, follows⟩
        rcases callStep_open still spared with ⟨same, next⟩ | bound
        · have parted := inductionHypothesis next failed later
          have started : (attend rxBlockSize (concurrently rxBlockSize) s .own).dev = s.dev := same
          rw [started] at parted
          exact parted
        · exact (run_bound (s := attend rxBlockSize _ s .own) bound rest failed).elim
      · exact run_parted (s := attend rxBlockSize _ s .own) (parted_of_not_spared still spared) rest
    | other event =>
      have later : ¬ Follows Spares (attend rxBlockSize (concurrently rxBlockSize))
          (attend rxBlockSize (concurrently rxBlockSize) s (.other event)) rest :=
        fun follows => missed ⟨trivial, follows⟩
      exact inductionHypothesis (s := attend rxBlockSize _ s (.other event)) still failed later

/-- A call that fails leaves the ring state as it would be without it exactly
when each of its steps meets the condition.

Induct along the run. As long as every step has met the condition the device is
where the others alone would have brought it; a step that misses it parts the two
for good. -/
theorem failed_call_unseen_iff (rxBlockSize : BitVec 32) (d : Device) (call : Call)
    (entered : call.Entered) (turns : List (Turn Concurrent))
    (failed : (run (attend rxBlockSize (concurrently rxBlockSize)) ⟨d, call⟩ turns).Failed) :
    ringState (run (attend rxBlockSize (concurrently rxBlockSize)) ⟨d, call⟩ turns).dev =
        ringState (run (concurrently rxBlockSize) d (without turns)) ↔
      Follows Spares (attend rxBlockSize (concurrently rxBlockSize)) ⟨d, call⟩ turns := by
  constructor
  · intro same
    by_contra missed
    have parted :=
      parted_of_not_follows (s := ⟨d, call⟩) (open_of_entered entered) turns failed missed
    obtain ⟨failure, returned⟩ := failed
    rw [returned] at parted
    exact parted_differs parted same
  · intro spares
    exact congrArg ringState (spared_call_unseen _ (open_of_entered entered) turns failed spares)

end Calls

/-! ## A response that cannot be copied out -/

/-- ENABLE, from its first statement to its last. -/
def enableRun (d : Device) : Device :=
  (run (fun (place : EnablePc × Device) (_ : Unit) => enableStep place.1 place.2) (.chooseCtrl, d)
    (List.replicate 6 ())).2

/-- The driver is opened, a receive ring of two blocks mapped and enabled, one
block written and announced. -/
def oneBlock : Device :=
  let opened := (openRun (reserved 0x08000000)).2
  let enabled := enableRun (mapRequest 65536 ⟨131072, 0, false⟩ opened)
  run (concurrently 65536) enabled [.hardware 65536 0, .tick]

/-- `read` is called with a buffer that cannot be written. -/
def badBuffer : Service := ⟨oneBlock, .read ⟨12, true⟩ .outside⟩

/-- The block announced has been counted out, although it was never handed over:
the call returns `-EFAULT` with none left. -/
theorem failed_read_takes_block :
    oneBlock.priv.blocksReady = 1 ∧
      let after := run (attend 65536 (concurrently 65536)) badBuffer (List.replicate 5 .own)
      after.Failed ∧ after.dev.priv.rdPtr = 0 ∧ after.dev.priv.blocksReady = 0 ∧
        ringState after.dev ≠ ringState (run (concurrently 65536) oneBlock
          (without (List.replicate 5 .own))) := by
  refine ⟨by decide, ⟨.errno .efault, rfl⟩, by decide, by decide, ?_⟩
  intro same
  exact absurd (congrArg RingState.blocksReady same) (by decide)

/-- The offset of a `write` is outside its ring; a block is written and announced meanwhile. -/
theorem failed_write_unseen :
    let turns : List (Turn Concurrent) := [.other (.hardware 0 0), .other .tick, .own]
    ringState (run (attend 65536 (concurrently 65536))
        ⟨oneBlock, .write ⟨4, false, 131072⟩ .outside⟩ turns).dev =
      ringState (run (concurrently 65536) oneBlock [.hardware 0 0, .tick]) :=
  (failed_call_unseen_iff 65536 oneBlock (.write ⟨4, false, 131072⟩ .outside) rfl
    [.other (.hardware 0 0), .other .tick, .own] ⟨.errno .einval, rfl⟩).mpr
    ⟨trivial, trivial, trivial, trivial⟩

end Zyndra.Driver
