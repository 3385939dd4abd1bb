import Zyndra.CyclicRing

/-!
# The kernel driver's bookkeeping, statement by statement

`ad936x-axi.c` keeps the two rings with 32-bit words: register values and ring
offsets are `u32`, sizes are `size_t` of a 32-bit kernel, and the count of ready
blocks is a 32-bit `atomic_t` compared as a signed number. Fields and functions
keep their names. `cyclicDistance` and `wrapNext` are the two expressions the
driver repeats for distances and for the next offset.

A call that shares data with the timer is a program counter with one step for
each access to a register or to a shared counter, so that other actors may run in
between; a step that finds its wait condition false stays where it is. The timer
handler runs as a whole.
-/

namespace Zyndra.Driver

open CyclicRing

/-- A word widened to 64 bits is zero only when it was. -/
theorem widened_zero {value : BitVec 32} (zero : value.setWidth 64 = 0#64) : value = 0#32 := by
  apply BitVec.eq_of_toNat_eq
  rw [← BitVec.toNat_setWidth_of_le (by decide : 32 ≤ 64), zero]
  rfl

/-- The registers the driver reads or writes. -/
structure Regs where
  ctrl : BitVec 32
  rxBufBase : BitVec 32
  rxBufSize : BitVec 32
  rxBufWr : BitVec 32
  txBufBase : BitVec 32
  txBufSize : BitVec 32
  txBufRd : BitVec 32
  txBufWr : BitVec 32

def ctrlReset : BitVec 32 := 1
def ctrlRxEnable : BitVec 32 := 2
def ctrlTxEnable : BitVec 32 := 4

/-- `struct ad936x_axi`, less the kernel's own objects and the time stamps.
`timerActive` stands for the state of the `hrtimer`. -/
structure Priv where
  txbufPhys : BitVec 32
  txbufSize : BitVec 32
  txbufSizeMax : BitVec 32
  txWrPtr : BitVec 32
  rxbufPhys : BitVec 32
  rxbufSize : BitVec 32
  rxbufSizeMax : BitVec 32
  rdPtr : BitVec 32
  inUse : Bool
  closing : Bool
  timerActive : Bool
  blocksReady : BitVec 32
  timerWrPtr : BitVec 32
  totalBytesWritten : BitVec 64
  prevWrPtr : BitVec 32
  bufUsedPeak : BitVec 32
  readCount : BitVec 64
  overrunBytes : BitVec 64

/-- A range handed to the cache maintenance functions. -/
inductive DmaSync where
  | forCpu (addr length : BitVec 32)
  | forDevice (addr length : BitVec 32)
  deriving DecidableEq, Repr

/-- The registers, the driver's data, and the cache operations issued so far. -/
structure Device where
  regs : Regs
  priv : Priv
  synced : List DmaSync

inductive Errno where
  | ebusy
  | einval
  | enodev
  | efault
  | eperm
  deriving DecidableEq, Repr

section Driver

variable (rxBlockSize : BitVec 32)

/-- Whole blocks between the timer's last accepted pointer and the hardware's. -/
def newBlocks (d : Device) : BitVec 32 :=
  cyclicDistance d.priv.rxbufSize d.priv.timerWrPtr d.regs.rxBufWr / rxBlockSize

/-- `ad936x_axi_timer`. The guard holds until `mmap` has set the ring size. -/
def timer (d : Device) : Device :=
  if 0 < d.priv.rxbufSize ∧ 0 < newBlocks rxBlockSize d then
    let advance := newBlocks rxBlockSize d * rxBlockSize
    { d with priv :=
      { d.priv with
        timerWrPtr := (d.priv.timerWrPtr + advance) % d.priv.rxbufSize
        blocksReady := d.priv.blocksReady + newBlocks rxBlockSize d } }
  else d

/-! ### What a tick does

The hardware and the timer show the offsets of two stream positions; a tick sees
their distance modulo the ring. -/

section Tick

variable {rxBlockSize : BitVec 32} {d : Device} {announced written : Nat}

/-- The blocks a tick finds are the whole ones of the hardware's lead, modulo the ring. -/
theorem newBlocks_toNat (positive : 0 < d.priv.rxbufSize.toNat) (behind : announced ≤ written)
    (timerAt : d.priv.timerWrPtr.toNat = announced % d.priv.rxbufSize.toNat)
    (hardwareAt : d.regs.rxBufWr.toNat = written % d.priv.rxbufSize.toNat) :
    (newBlocks rxBlockSize d).toNat =
      (written - announced) % d.priv.rxbufSize.toNat / rxBlockSize.toNat := by
  rw [newBlocks, BitVec.toNat_udiv, cyclicDistance_positions positive behind timerAt hardwareAt]

/-- A tick never announces more than the hardware has written. -/
theorem newBlocks_behind (positive : 0 < d.priv.rxbufSize.toNat) (behind : announced ≤ written)
    (timerAt : d.priv.timerWrPtr.toNat = announced % d.priv.rxbufSize.toNat)
    (hardwareAt : d.regs.rxBufWr.toNat = written % d.priv.rxbufSize.toNat) :
    announced + (newBlocks rxBlockSize d).toNat * rxBlockSize.toNat ≤ written := by
  rw [newBlocks_toNat positive behind timerAt hardwareAt]
  have whole := Nat.div_mul_le_self ((written - announced) % d.priv.rxbufSize.toNat)
    rxBlockSize.toNat
  have reduced := Nat.mod_le (written - announced) d.priv.rxbufSize.toNat
  omega

/-- A tick that finds no block leaves the device. -/
theorem timer_still (none : newBlocks rxBlockSize d = 0) : timer rxBlockSize d = d := by
  simp [timer, none]

/-- A tick that finds blocks in a mapped ring advances the pointer and the count. -/
theorem timer_moves (mapped : 0 < d.priv.rxbufSize) (some : 0 < newBlocks rxBlockSize d) :
    (timer rxBlockSize d).priv.timerWrPtr =
        (d.priv.timerWrPtr + newBlocks rxBlockSize d * rxBlockSize) % d.priv.rxbufSize ∧
      (timer rxBlockSize d).priv.blocksReady = d.priv.blocksReady + newBlocks rxBlockSize d := by
  have guarded : 0 < d.priv.rxbufSize ∧ 0 < newBlocks rxBlockSize d := ⟨mapped, some⟩
  rw [timer, if_pos guarded]
  exact ⟨rfl, rfl⟩

/-- Without a positive count there are no blocks. -/
theorem newBlocks_none (some : ¬ 0 < newBlocks rxBlockSize d) : newBlocks rxBlockSize d = 0 := by
  apply BitVec.eq_of_toNat_eq
  simpa [BitVec.lt_def] using some

/-- The timer's pointer moves on by the blocks found, when the sum does not
overflow. Without new blocks it stays, which is the same. -/
theorem timer_pointer (positive : 0 < d.priv.rxbufSize.toNat)
    (timerAt : d.priv.timerWrPtr.toNat = announced % d.priv.rxbufSize.toNat)
    (fits : d.priv.timerWrPtr.toNat + (newBlocks rxBlockSize d).toNat * rxBlockSize.toNat <
      2 ^ 32) :
    (timer rxBlockSize d).priv.timerWrPtr.toNat =
      (announced + (newBlocks rxBlockSize d).toNat * rxBlockSize.toNat) %
        d.priv.rxbufSize.toNat := by
  by_cases some : 0 < newBlocks rxBlockSize d
  · have advance : (newBlocks rxBlockSize d * rxBlockSize).toNat =
        (newBlocks rxBlockSize d).toNat * rxBlockSize.toNat := BitVec.toNat_mul_of_lt (by omega)
    rw [(timer_moves positive some).1, BitVec.toNat_umod, BitVec.toNat_add, advance,
      Nat.mod_eq_of_lt fits, timerAt]
    exact Nat.mod_add_mod _ _ _
  · have none := newBlocks_none some
    rw [timer_still none, none, timerAt]
    simp

/-- The count grows by the blocks found, modulo the machine word. -/
theorem timer_count (positive : 0 < d.priv.rxbufSize.toNat) :
    (timer rxBlockSize d).priv.blocksReady = d.priv.blocksReady + newBlocks rxBlockSize d := by
  by_cases some : 0 < newBlocks rxBlockSize d
  · exact (timer_moves positive some).2
  · have none := newBlocks_none some
    rw [timer_still none, none]
    simp

/-- The timer leaves everything but its pointer and the count. -/
theorem timer_frame (rxBlockSize : BitVec 32) (d : Device) :
    (timer rxBlockSize d).regs = d.regs ∧
      (timer rxBlockSize d).priv.rxbufSize = d.priv.rxbufSize ∧
      (timer rxBlockSize d).priv.closing = d.priv.closing ∧
      (timer rxBlockSize d).priv.rdPtr = d.priv.rdPtr := by
  unfold timer
  split <;> exact ⟨rfl, rfl, rfl, rfl⟩

end Tick

/-! ## `ad936x_axi_read` -/

/-- `struct ad936x_axi_rx_read`. -/
structure RxRead where
  rd : BitVec 32
  hwWr : BitVec 32
  lostBytes : BitVec 32
  deriving DecidableEq, Repr

/-- What a call passes in: its length, and whether its buffer can be written. -/
structure ReadCall where
  count : Nat
  copyFails : Bool

/-- Where a `read` stands, with the local variables it still needs. -/
inductive ReadPc where
  | outside
  | waiting (maxBlocks : BitVec 32)
  | testing (maxBlocks : BitVec 32)
  | snapping
  | subtracting (lostBytes : BitVec 32)
  | decrementing (lostBytes : BitVec 32)
  | responding (lostBytes : BitVec 32)
  deriving DecidableEq, Repr

/-- One step of a call: where it stands then, the device, and what it returned. -/
structure ReadStep where
  pc : ReadPc
  device : Device
  result : Option (Except Errno RxRead)

/-- The snap target: half a ring behind the hardware, rounded down to a block. -/
def newRd (d : Device) : BitVec 32 :=
  cyclicDistance d.priv.rxbufSize (d.priv.rxbufSize / 2) d.regs.rxBufWr / rxBlockSize * rxBlockSize

/-- Bytes from the old read offset forward to the snap target. -/
def lostBytes (d : Device) : BitVec 32 :=
  cyclicDistance d.priv.rxbufSize d.priv.rdPtr (newRd rxBlockSize d)

/-- The overrun branch up to its counter update. -/
def snap (d : Device) : Device :=
  { d with priv :=
    { d.priv with
      overrunBytes := d.priv.overrunBytes + (lostBytes rxBlockSize d).setWidth 64
      rdPtr := newRd rxBlockSize d } }

/-- The statistics block, with the value sampled for the response. -/
def trackStats (d : Device) : Device :=
  let delta := cyclicDistance d.priv.rxbufSize d.priv.prevWrPtr d.regs.rxBufWr
  let used := cyclicDistance d.priv.rxbufSize d.priv.rdPtr d.regs.rxBufWr
  { d with priv :=
    { d.priv with
      totalBytesWritten := d.priv.totalBytesWritten + delta.setWidth 64
      prevWrPtr := d.regs.rxBufWr
      bufUsedPeak := if d.priv.bufUsedPeak < used then used else d.priv.bufUsedPeak
      readCount := d.priv.readCount + 1 } }

/-- Invalidate the cached copy of the block handed out. -/
def invalidate (d : Device) : Device :=
  { d with synced := d.synced ++ [.forCpu (d.priv.rxbufPhys + d.priv.rdPtr) rxBlockSize] }

/-- Take the read offset one block on. -/
def advanceRd (d : Device) : Device :=
  { d with priv :=
    { d.priv with rdPtr := wrapNext d.priv.rxbufSize d.priv.rdPtr rxBlockSize } }

/-- One step of `ad936x_axi_read`. The offset advances only after the response
has been copied out. -/
def readStep (call : ReadCall) (pc : ReadPc) (d : Device) : ReadStep :=
  match pc with
  | .outside =>
    if call.count < 12 then ⟨.outside, d, some (.error .einval)⟩
    else ⟨.waiting (d.priv.rxbufSize / rxBlockSize), d, none⟩
  | .waiting maxBlocks =>
    if BitVec.slt 0 d.priv.blocksReady || d.priv.closing then
      if d.priv.closing then ⟨.outside, d, some (.error .enodev)⟩
      else ⟨.testing maxBlocks, d, none⟩
    else ⟨.waiting maxBlocks, d, none⟩
  | .testing maxBlocks =>
    if BitVec.sle maxBlocks d.priv.blocksReady then ⟨.snapping, d, none⟩
    else ⟨.decrementing 0, d, none⟩
  | .snapping => ⟨.subtracting (lostBytes rxBlockSize d), snap rxBlockSize d, none⟩
  | .subtracting lost =>
    ⟨.decrementing lost,
      { d with priv :=
        { d.priv with blocksReady := d.priv.blocksReady - lost / rxBlockSize } }, none⟩
  | .decrementing lost =>
    ⟨.responding lost,
      { d with priv := { d.priv with blocksReady := d.priv.blocksReady - 1 } }, none⟩
  | .responding lost =>
    let handed := invalidate rxBlockSize (trackStats d)
    if call.copyFails then ⟨.outside, handed, some (.error .efault)⟩
    else ⟨.outside, advanceRd rxBlockSize handed, some (.ok ⟨d.priv.rdPtr, d.regs.rxBufWr, lost⟩)⟩

/-- What a step of a call can change, and where it can move the read offset. -/
theorem readStep_device (call : ReadCall) (pc : ReadPc) (d : Device) :
    ∃ overrun rd blocks total prev peak count synced,
      (readStep rxBlockSize call pc d).device =
        { d with
          priv := { d.priv with
            overrunBytes := overrun
            rdPtr := rd
            blocksReady := blocks
            totalBytesWritten := total
            prevWrPtr := prev
            bufUsedPeak := peak
            readCount := count }
          synced := synced } ∧
        (rd = d.priv.rdPtr ∨ rd = newRd rxBlockSize d ∨
          rd = wrapNext d.priv.rxbufSize d.priv.rdPtr rxBlockSize) := by
  cases pc with
  | outside =>
    simp only [readStep]
    split <;> exact ⟨_, _, _, _, _, _, _, _, rfl, .inl rfl⟩
  | waiting maxBlocks =>
    simp only [readStep]
    split_ifs <;> exact ⟨_, _, _, _, _, _, _, _, rfl, .inl rfl⟩
  | testing maxBlocks =>
    simp only [readStep]
    split <;> exact ⟨_, _, _, _, _, _, _, _, rfl, .inl rfl⟩
  | snapping => exact ⟨_, _, _, _, _, _, _, _, rfl, .inr (.inl rfl)⟩
  | subtracting lost => exact ⟨_, _, _, _, _, _, _, _, rfl, .inl rfl⟩
  | decrementing lost => exact ⟨_, _, _, _, _, _, _, _, rfl, .inl rfl⟩
  | responding lost =>
    simp only [readStep]
    split
    · exact ⟨_, _, _, _, _, _, _, _, rfl, .inl rfl⟩
    · exact ⟨_, _, _, _, _, _, _, _, rfl, .inr (.inr rfl)⟩

/-- A call leaves the registers and the size of the ring. -/
theorem readStep_frame (call : ReadCall) (pc : ReadPc) (d : Device) :
    (readStep rxBlockSize call pc d).device.regs = d.regs ∧
      (readStep rxBlockSize call pc d).device.priv.rxbufSize = d.priv.rxbufSize := by
  obtain ⟨_, _, _, _, _, _, _, _, same, _⟩ := readStep_device rxBlockSize call pc d
  rw [same]
  exact ⟨rfl, rfl⟩

/-! ## `ad936x_axi_write` -/

/-- `struct ad936x_axi_tx_write`, with the length of the call and whether its
buffer can be read. -/
structure WriteCall where
  count : Nat
  copyFails : Bool
  wr : BitVec 32

inductive WritePc where
  | outside
  | waiting (wr : BitVec 32)
  | publishing (wr : BitVec 32)
  deriving DecidableEq, Repr

structure WriteStep where
  pc : WritePc
  device : Device
  result : Option (Except Errno Unit)

/-- The wait condition on a requested offset, against the offset the hardware
shows. -/
def hasRoom (d : Device) (wr : BitVec 32) : Bool :=
  decide (cyclicDistance d.priv.txbufSize d.regs.txBufRd wr ≤ d.priv.txbufSize - rxBlockSize)

/-- Clean the cached copy of the bytes between the old offset and the new one, in
two pieces when they wrap. -/
def flush (d : Device) (wr : BitVec 32) : List DmaSync :=
  let flushLen := cyclicDistance d.priv.txbufSize d.priv.txWrPtr wr
  let toEnd := d.priv.txbufSize - d.priv.txWrPtr
  let chunk := if flushLen < toEnd then flushLen else toEnd
  if 0 < flushLen then
    .forDevice (d.priv.txbufPhys + d.priv.txWrPtr) chunk ::
      if chunk < flushLen then [.forDevice d.priv.txbufPhys (flushLen - chunk)] else []
  else []

/-- What a flush issues: nothing, one range from the old offset on, or a range up to
the end of the ring and one from its start. -/
theorem flush_cases (d : Device) (wr : BitVec 32) {flushLen toEnd : Nat}
    (length : (cyclicDistance d.priv.txbufSize d.priv.txWrPtr wr).toNat = flushLen)
    (rest : (d.priv.txbufSize - d.priv.txWrPtr).toNat = toEnd) :
    (flushLen = 0 ∧ flush d wr = []) ∨
      (0 < flushLen ∧ flushLen ≤ toEnd ∧ ∃ chunk : BitVec 32, chunk.toNat = flushLen ∧
        flush d wr = [.forDevice (d.priv.txbufPhys + d.priv.txWrPtr) chunk]) ∨
      (toEnd < flushLen ∧ ∃ chunk around : BitVec 32, chunk.toNat = toEnd ∧
        around.toNat = flushLen - toEnd ∧
        flush d wr = [.forDevice (d.priv.txbufPhys + d.priv.txWrPtr) chunk,
          .forDevice d.priv.txbufPhys around]) := by
  subst length rest
  unfold flush
  generalize cyclicDistance d.priv.txbufSize d.priv.txWrPtr wr = flushLen
  generalize d.priv.txbufSize - d.priv.txWrPtr = toEnd
  by_cases positive : 0 < flushLen
  · have positiveNat : 0 < flushLen.toNat := positive
    simp only [if_pos positive]
    by_cases more : toEnd < flushLen
    · have short : ¬ flushLen < toEnd := BitVec.not_lt.mpr (BitVec.le_of_lt more)
      simp only [if_neg short, if_pos more]
      exact .inr (.inr ⟨more, toEnd, flushLen - toEnd, rfl,
        BitVec.toNat_sub_of_le (BitVec.le_of_lt more), rfl⟩)
    · have within : flushLen.toNat ≤ toEnd.toNat := Nat.le_of_not_lt more
      have least : (if flushLen < toEnd then flushLen else toEnd) = flushLen := by
        split
        · rfl
        · rename_i short
          exact BitVec.le_antisymm (BitVec.not_lt.mp short) within
      have single : ¬ flushLen < flushLen := BitVec.lt_irrefl _
      simp only [least, if_neg single]
      exact .inr (.inl ⟨positiveNat, within, flushLen, rfl, rfl⟩)
  · have nothing : flushLen.toNat = 0 := Nat.eq_zero_of_not_pos positive
    rw [if_neg positive]
    exact .inl ⟨nothing, rfl⟩

/-- Flush, remember the offset, and show it to the hardware. -/
def publish (d : Device) (wr : BitVec 32) : Device where
  regs := { d.regs with txBufWr := wr }
  priv := { d.priv with txWrPtr := wr }
  synced := d.synced ++ flush d wr

/-- One step of `ad936x_axi_write`. -/
def writeStep (call : WriteCall) (pc : WritePc) (d : Device) : WriteStep :=
  match pc with
  | .outside =>
    if call.count < 4 then ⟨.outside, d, some (.error .einval)⟩
    else if call.copyFails then ⟨.outside, d, some (.error .efault)⟩
    else if d.priv.txbufSize ≤ call.wr then ⟨.outside, d, some (.error .einval)⟩
    else ⟨.waiting call.wr, d, none⟩
  | .waiting wr =>
    if hasRoom rxBlockSize d wr || d.priv.closing then
      if d.priv.closing then ⟨.outside, d, some (.error .enodev)⟩
      else ⟨.publishing wr, d, none⟩
    else ⟨.waiting wr, d, none⟩
  | .publishing wr => ⟨.outside, publish d wr, some (.ok ())⟩

/-! ## `ad936x_axi_mmap` -/

structure MmapCall where
  size : BitVec 32
  vmPgoff : Nat
  vmWrite : Bool

/-- The checks made before anything is stored. -/
def mmapCheck (call : MmapCall) (d : Device) : Except Errno Unit :=
  if call.size % rxBlockSize ≠ 0 then .error .einval
  else match call.vmPgoff with
    | 0 =>
      if call.vmWrite then .error .eperm
      else if d.priv.rxbufSizeMax < call.size then .error .einval
      else .ok ()
    | 1 => if d.priv.txbufSizeMax < call.size then .error .einval else .ok ()
    | _ => .error .einval

/-- The ring size of an accepted call, in the driver and then in its register. -/
def mmapSize (call : MmapCall) (d : Device) : Device :=
  { d with priv := if call.vmPgoff = 0 then { d.priv with rxbufSize := call.size }
    else { d.priv with txbufSize := call.size } }

def mmapRegister (call : MmapCall) (d : Device) : Device :=
  { d with regs := if call.vmPgoff = 0 then { d.regs with rxBufSize := d.priv.rxbufSize }
    else { d.regs with txBufSize := d.priv.txbufSize } }

/-- `ad936x_axi_mmap` up to the mapping of the pages. -/
def mmap (call : MmapCall) (d : Device) : Except Errno Device := do
  mmapCheck rxBlockSize call d
  return mmapRegister call (mmapSize call d)

/-- An accepted mapping has passed its checks and set its ring. -/
theorem mmap_ok {rxBlockSize : BitVec 32} {call : MmapCall} {d mapped : Device}
    (accepted : mmap rxBlockSize call d = .ok mapped) :
    mmapCheck rxBlockSize call d = .ok () ∧ mapped = mmapRegister call (mmapSize call d) := by
  cases checked : mmapCheck rxBlockSize call d with
  | error errno => simp [mmap, checked, bind, Except.bind] at accepted
  | ok passed =>
    have same : mmapRegister call (mmapSize call d) = mapped := by
      simpa [mmap, checked, bind, Except.bind, pure, Except.pure] using accepted
    exact ⟨rfl, same.symm⟩

/-- What `mmap` checks: whole blocks, one of two pages, and the reserved size. -/
theorem mmapCheck_ok {rxBlockSize : BitVec 32} {call : MmapCall} {d : Device}
    (accepted : mmapCheck rxBlockSize call d = .ok ()) :
    rxBlockSize.toNat ∣ call.size.toNat ∧
      (call.vmPgoff = 0 ∧ call.size.toNat ≤ d.priv.rxbufSizeMax.toNat ∨
        call.vmPgoff = 1 ∧ call.size.toNat ≤ d.priv.txbufSizeMax.toNat) := by
  unfold mmapCheck at accepted
  split at accepted
  · cases accepted
  · rename_i whole
    have wholeNat : call.size.toNat % rxBlockSize.toNat = 0 := by
      have reduced := congrArg BitVec.toNat (not_not.mp whole)
      rwa [BitVec.toNat_umod] at reduced
    refine ⟨Nat.dvd_of_mod_eq_zero wholeNat, ?_⟩
    split at accepted
    · rename_i page
      split_ifs at accepted with writes large
      exact .inl ⟨page, Nat.le_of_not_lt large⟩
    · rename_i page
      split_ifs at accepted with large
      exact .inr ⟨page, Nat.le_of_not_lt large⟩
    · cases accepted

/-! ## `ad936x_axi_open` and ENABLE -/

/-- Where `open` stands, with the pointer it has sampled. The steps before the
timer is started run alone. -/
inductive OpenPc where
  | guard
  | reset
  | bases
  | release
  | clearSizes
  | sample
  | clearState (hwWr : BitVec 32)
  | startTimer (hwWr : BitVec 32)
  | clearStats (hwWr : BitVec 32)
  | returned (result : Except Errno Unit)

/-- One step of `ad936x_axi_open`. -/
def openStep (pc : OpenPc) (d : Device) : OpenPc × Device :=
  match pc with
  | .guard =>
    if d.priv.inUse then (.returned (.error .ebusy), d)
    else (.reset, { d with priv := { d.priv with inUse := true } })
  | .reset => (.bases, { d with regs := { d.regs with ctrl := ctrlReset } })
  | .bases =>
    (.release,
      { d with
        regs :=
          { d.regs with
            rxBufBase := d.priv.rxbufPhys, txBufBase := d.priv.txbufPhys, txBufWr := 0 }
        priv := { d.priv with txWrPtr := 0 } })
  | .release => (.clearSizes, { d with regs := { d.regs with ctrl := 0 } })
  | .clearSizes => (.sample, { d with priv := { d.priv with rxbufSize := 0, txbufSize := 0 } })
  | .sample => (.clearState d.regs.rxBufWr, d)
  | .clearState hwWr =>
    (.startTimer hwWr,
      { d with priv :=
        { d.priv with closing := false, rdPtr := 0, timerWrPtr := hwWr, blocksReady := 0 } })
  | .startTimer hwWr => (.clearStats hwWr, { d with priv := { d.priv with timerActive := true } })
  | .clearStats hwWr =>
    (.returned (.ok ()),
      { d with priv :=
        { d.priv with
          totalBytesWritten := 0, prevWrPtr := hwWr, bufUsedPeak := 0, readCount := 0
          overrunBytes := 0 } })
  | .returned result => (.returned result, d)

/-- Where the ENABLE request stands, with the control word it will write. -/
inductive EnablePc where
  | chooseCtrl
  | disable (ctrl : BitVec 32)
  | clearRd (ctrl : BitVec 32)
  | clearTimer (ctrl : BitVec 32)
  | clearBlocks (ctrl : BitVec 32)
  | enable (ctrl : BitVec 32)
  | returned

/-- The enable bits of the rings that have been mapped. -/
def enableCtrl (d : Device) : BitVec 32 :=
  (if 0 < d.priv.rxbufSize then ctrlRxEnable else 0) |||
    (if 0 < d.priv.txbufSize then ctrlTxEnable else 0)

/-- One step of `AD936X_AXI_IOC_ENABLE`. -/
def enableStep (pc : EnablePc) (d : Device) : EnablePc × Device :=
  match pc with
  | .chooseCtrl => (.disable (enableCtrl d), d)
  | .disable ctrl => (.clearRd ctrl, { d with regs := { d.regs with ctrl := 0 } })
  | .clearRd ctrl => (.clearTimer ctrl, { d with priv := { d.priv with rdPtr := 0 } })
  | .clearTimer ctrl => (.clearBlocks ctrl, { d with priv := { d.priv with timerWrPtr := 0 } })
  | .clearBlocks ctrl => (.enable ctrl, { d with priv := { d.priv with blocksReady := 0 } })
  | .enable ctrl => (.returned, { d with regs := { d.regs with ctrl := ctrl } })
  | .returned => (.returned, d)

end Driver

/-- A closed device with memory set aside for each ring, for runs on fixed inputs. -/
def reserved (sizeMax : BitVec 32) : Device where
  regs := ⟨0, 0x10000000, 0, 0, 0x18000000, 0, 0, 0⟩
  priv := ⟨0x18000000, 0, sizeMax, 0, 0x10000000, 0, sizeMax, 0, false, false, false, 0, 0, 0, 0, 0,
    0, 0⟩
  synced := []

end Zyndra.Driver
