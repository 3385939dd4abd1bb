import Zyndra.CacheRanges

/-!
# The statistics file

`ad936x_axi_stats_show` prints the driver's counters, with the fill of both rings
and rates derived from the time since `open`. It divides by two quantities that can
be zero: the milliseconds since `open`, narrowed to 32 bits, while the guard looks at
the microseconds; and a hundredth of a ring, while the guard looks at the ring.

A fill is the distance between two offsets of one ring. An offset that an earlier,
larger ring has left beyond the end of the present one wraps the unsigned
difference, unless the other offset lies far enough from the start.
-/

namespace Zyndra.Driver

open CyclicRing Runs

/-! ## `ad936x_axi_stats_show` -/

/-- What a reading of the file finds beside the driver's data: the microseconds since
`open` and since the last `read`, and two counters of the hardware. -/
structure Reading where
  uptimeUs : BitVec 64
  ageUs : BitVec 64
  rxOverflow : BitVec 32
  txUnderrun : BitVec 32

structure RxStats where
  wr : BitVec 32
  rd : BitVec 32
  drops : BitVec 32
  overrunBytes : BitVec 64
  size : BitVec 32
  used : BitVec 32
  usedPercent : BitVec 32
  peak : BitVec 32
  peakPercent : BitVec 32
  readCount : BitVec 64
  lastReadAge : BitVec 64 × BitVec 32

structure TxStats where
  wr : BitVec 32
  rd : BitVec 32
  underruns : BitVec 32
  size : BitVec 32
  used : BitVec 32
  usedPercent : BitVec 32

/-- Times are printed in seconds and milliseconds; of the two rates, in Mbps and
MSPS, the whole part is kept. -/
structure LiveStats where
  uptime : BitVec 64 × BitVec 32
  rates : Option (BitVec 64 × BitVec 64)
  totalBytes : BitVec 64
  totalSamples : BitVec 64
  rx : Option RxStats
  tx : Option TxStats

inductive Stats where
  | idle
  | active (live : LiveStats)

/-- A division, which has no result by zero. -/
def divide {w : Nat} (op : BitVec w → BitVec w → BitVec w) (dividend divisor : BitVec w) :
    Option (BitVec w) :=
  if divisor = 0#w then none else some (op dividend divisor)

/-- A time as it is printed, by `div_s64_rem` and a division of the remainder. -/
def secondsOf (us : BitVec 64) : Option (BitVec 64 × BitVec 32) := do
  let s ← divide BitVec.sdiv us 1000000
  let rem := (us.srem 1000000).setWidth 32
  let ms ← divide BitVec.sdiv rem 1000
  return (s, ms)

/-- The rates, once a microsecond has passed. -/
def throughput (uptimeUs total : BitVec 64) : Option (Option (BitVec 64 × BitVec 64)) :=
  if BitVec.slt 0 uptimeUs then do
    let samples := total >>> 2
    let uptimeMs : BitVec 32 := (← divide BitVec.sdiv uptimeUs 1000).setWidth 32
    let mbpsX100 ← divide (· / ·) (total * 800) (uptimeMs.setWidth 64)
    let mspsX100 ← divide (· / ·) (samples * 100000) (uptimeMs.setWidth 64)
    let mbps ← divide (· / ·) mbpsX100 100
    let msps ← divide (· / ·) mspsX100 100
    return some (mbps, msps)
  else return none

/-- A share of a ring in hundredths of it. -/
def percentOf (used size : BitVec 32) : Option (BitVec 32) := do
  let hundredth ← divide (· / ·) size 100
  divide (· / ·) used hundredth

/-- The receive part, once the ring is mapped. -/
def rxStats (reading : Reading) (d : Device) : Option (Option RxStats) :=
  if 0 < d.priv.rxbufSize then do
    let used := cyclicDistance d.priv.rxbufSize d.priv.rdPtr d.regs.rxBufWr
    let usedPercent ← percentOf used d.priv.rxbufSize
    let peakPercent ← percentOf d.priv.bufUsedPeak d.priv.rxbufSize
    let lastReadAge ← secondsOf reading.ageUs
    return some
      { wr := d.regs.rxBufWr, rd := d.priv.rdPtr, drops := reading.rxOverflow
        overrunBytes := d.priv.overrunBytes, size := d.priv.rxbufSize, used, usedPercent
        peak := d.priv.bufUsedPeak, peakPercent, readCount := d.priv.readCount, lastReadAge }
  else return none

/-- The transmit part, once the ring is mapped. -/
def txStats (reading : Reading) (d : Device) : Option (Option TxStats) :=
  if 0 < d.priv.txbufSize then do
    let used := cyclicDistance d.priv.txbufSize d.regs.txBufRd d.priv.txWrPtr
    let usedPercent ← percentOf used d.priv.txbufSize
    return some
      { wr := d.priv.txWrPtr, rd := d.regs.txBufRd, underruns := reading.txUnderrun
        size := d.priv.txbufSize, used, usedPercent }
  else return none

/-- `ad936x_axi_stats_show`; nothing is returned when a divisor is zero. -/
def statsShow (reading : Reading) (d : Device) : Option Stats :=
  if d.priv.inUse then do
    let total := d.priv.totalBytesWritten
    let uptime ← secondsOf reading.uptimeUs
    let rates ← throughput reading.uptimeUs total
    let rx ← rxStats reading d
    let tx ← txStats reading d
    return .active { uptime, rates, totalBytes := total, totalSamples := total >>> 2, rx, tx }
  else return .idle

/-- No used value exceeds its ring. -/
def Stats.Possible : Stats → Prop
  | .idle => True
  | .active live =>
    (∀ rx ∈ live.rx, rx.used ≤ rx.size) ∧ ∀ tx ∈ live.tx, tx.used ≤ tx.size

instance : (stats : Stats) → Decidable stats.Possible
  | .idle => isTrue trivial
  | .active _ => inferInstanceAs (Decidable (_ ∧ _))

/-- Every divisor of a reading is non-zero, and what is printed is possible. -/
def Sound (shown : Option Stats) : Prop := ∃ stats, shown = some stats ∧ stats.Possible

instance : (shown : Option Stats) → Decidable (Sound shown)
  | none => isFalse fun ⟨_, missing, _⟩ => Option.some_ne_none _ missing.symm
  | some stats =>
    decidable_of_iff stats.Possible
      ⟨fun possible => ⟨stats, rfl, possible⟩, fun ⟨_, same, possible⟩ =>
        Option.some.inj same ▸ possible⟩

/-! ## When a reading is sound -/

/-- Either no microsecond has passed, or the milliseconds are not a multiple of 2^32. -/
def TimeFits (uptimeUs : BitVec 64) : Prop :=
  BitVec.slt 0 uptimeUs = true → uptimeUs.toNat / 1000 % 2 ^ 32 ≠ 0

/-- A mapped ring has a hundredth, and an offset beyond its end lies no further beyond
it than the other offset from its start. -/
def OffsetFits (size moved other : BitVec 32) : Prop :=
  0 < size →
    100 ≤ size.toNat ∧ (size ≤ moved → moved.toNat ≤ size.toNat + other.toNat)

instance (uptimeUs : BitVec 64) : Decidable (TimeFits uptimeUs) :=
  inferInstanceAs (Decidable (_ → _))

instance (size moved other : BitVec 32) : Decidable (OffsetFits size moved other) :=
  inferInstanceAs (Decidable (_ → _))

/-- The read offset against the hardware's, and the published offset against it. -/
def ReadingFits (reading : Reading) (d : Device) : Prop :=
  d.priv.inUse = true →
    TimeFits reading.uptimeUs ∧
      OffsetFits d.priv.rxbufSize d.priv.rdPtr d.regs.rxBufWr ∧
      OffsetFits d.priv.txbufSize d.priv.txWrPtr d.regs.txBufRd

instance (reading : Reading) (d : Device) : Decidable (ReadingFits reading d) :=
  inferInstanceAs (Decidable (_ → _))

/-- The hardware's pointers are offsets of the rings that are mapped. -/
structure PointersInside (d : Device) : Prop where
  received : 0 < d.priv.rxbufSize → d.regs.rxBufWr < d.priv.rxbufSize
  transmitted : 0 < d.priv.txbufSize → d.regs.txBufRd < d.priv.txbufSize

instance (d : Device) : Decidable (PointersInside d) :=
  decidable_of_iff
    ((0 < d.priv.rxbufSize → d.regs.rxBufWr < d.priv.rxbufSize) ∧
      (0 < d.priv.txbufSize → d.regs.txBufRd < d.priv.txbufSize))
    ⟨fun inside => ⟨inside.1, inside.2⟩, fun inside => ⟨inside.received, inside.transmitted⟩⟩

section Reading

variable {d : Device}

theorem divide_nonzero {w : Nat} (op : BitVec w → BitVec w → BitVec w) (dividend : BitVec w)
    {divisor : BitVec w} (nonzero : divisor ≠ 0#w) :
    divide op dividend divisor = some (op dividend divisor) := if_neg nonzero

theorem divide_zero {w : Nat} (op : BitVec w → BitVec w → BitVec w) (dividend : BitVec w) :
    divide op dividend 0#w = none := if_pos rfl

/-- Times divide by constants only. -/
theorem secondsOf_some (us : BitVec 64) : ∃ time, secondsOf us = some time := by
  have micro : (1000000 : BitVec 64) ≠ 0#64 := by decide
  have milli : (1000 : BitVec 32) ≠ 0#32 := by decide
  rw [secondsOf, divide_nonzero _ _ micro]
  simp only [divide_nonzero _ _ milli, bind, Option.bind]
  exact ⟨_, rfl⟩

/-- A ring has a hundredth from a hundred bytes on. -/
theorem percentOf_some_iff (used : BitVec 32) {size : BitVec 32} :
    (∃ percent, percentOf used size = some percent) ↔ 100 ≤ size.toNat := by
  have hundred : (100 : BitVec 32) ≠ 0#32 := by decide
  have part : (size / 100).toNat = size.toNat / 100 := BitVec.toNat_udiv
  simp only [percentOf, divide_nonzero _ _ hundred, bind, Option.bind]
  by_cases none : size / 100 = 0#32
  · have zero : size.toNat / 100 = 0 := by rw [← part, none]; rfl
    rw [none, divide_zero]
    simp
    omega
  · have some_ : size.toNat / 100 ≠ 0 := by
      rw [← part]
      simpa [BitVec.toNat_eq] using none
    rw [divide_nonzero _ _ none]
    refine iff_of_true ⟨_, rfl⟩ (by omega)

/-- The narrowed milliseconds of a positive time. -/
theorem uptimeMs_toNat {us : BitVec 64} (positive : BitVec.slt 0 us = true) :
    ((us.sdiv 1000).setWidth 32).toNat = us.toNat / 1000 % 2 ^ 32 := by
  have signed : (0#64).toInt < us.toInt := BitVec.slt_iff_toInt_lt.mp positive
  have clear : us.msb = false := by
    rw [BitVec.msb_eq_false_iff_two_mul_lt, ← BitVec.toInt_pos_iff]
    exact Int.le_of_lt signed
  have thousand : (1000 : BitVec 64).msb = false := by decide
  rw [BitVec.sdiv_eq, clear, thousand]
  exact BitVec.toNat_setWidth _ _

/-- The rates have a divisor exactly when the time fits. -/
theorem throughput_some_iff (us total : BitVec 64) :
    (∃ rates, throughput us total = some rates) ↔ TimeFits us := by
  have thousand : (1000 : BitVec 64) ≠ 0#64 := by decide
  have hundred : (100 : BitVec 64) ≠ 0#64 := by decide
  unfold throughput TimeFits
  by_cases positive : BitVec.slt 0 us = true
  · have milliseconds := uptimeMs_toNat positive
    simp only [divide_nonzero _ _ thousand, bind, Option.bind, forall_const,
      positive]
    rw [← milliseconds]
    generalize (us.sdiv 1000).setWidth 32 = uptimeMs
    by_cases none : uptimeMs = 0#32
    · have wide : (0#32).setWidth 64 = 0#64 := by decide
      rw [none, wide, divide_zero]
      simp
    · have wide : uptimeMs.setWidth 64 ≠ 0#64 := fun zero => none (widened_zero zero)
      simp only [divide_nonzero _ _ wide, divide_nonzero _ _ hundred]
      refine iff_of_true ⟨_, rfl⟩ ?_
      simpa [BitVec.toNat_eq] using none
  · rw [if_neg positive]
    exact iff_of_true ⟨_, rfl⟩ (fun now => absurd now positive)

/-- A ring without a hundredth has no share. -/
theorem percentOf_none {used size : BitVec 32} (small : ¬ 100 ≤ size.toNat) :
    percentOf used size = none := by
  rw [Option.eq_none_iff_forall_ne_some]
  intro percent shares
  exact small ((percentOf_some_iff used).mp ⟨percent, shares⟩)

/-- In a ring with a hundredth, only an offset beyond its end has to fit. -/
theorem offsetFits_iff {size moved other : BitVec 32} (large : 100 ≤ size.toNat) :
    OffsetFits size moved other ↔ moved.toNat ≤ size.toNat + other.toNat := by
  constructor
  · intro fits
    by_cases beyond : size ≤ moved
    · exact (fits (BitVec.lt_def.mpr (Nat.lt_of_lt_of_le (by decide) large))).2 beyond
    · have inside : moved.toNat < size.toNat := Nat.lt_of_not_le beyond
      omega
  · intro near _
    exact ⟨large, fun _ => near⟩

/-- The receive part is there, with a possible fill, exactly when its offsets fit. -/
theorem rxStats_sound_iff (reading : Reading)
    (inside : 0 < d.priv.rxbufSize → d.regs.rxBufWr < d.priv.rxbufSize) :
    (∃ part, rxStats reading d = some part ∧ ∀ rx ∈ part, rx.used ≤ rx.size) ↔
      OffsetFits d.priv.rxbufSize d.priv.rdPtr d.regs.rxBufWr := by
  by_cases mapped : 0 < d.priv.rxbufSize
  · by_cases large : 100 ≤ d.priv.rxbufSize.toNat
    · obtain ⟨usedPercent, used⟩ :=
        (percentOf_some_iff (cyclicDistance d.priv.rxbufSize d.priv.rdPtr d.regs.rxBufWr)).mpr large
      obtain ⟨peakPercent, peak⟩ := (percentOf_some_iff d.priv.bufUsedPeak).mpr large
      obtain ⟨lastReadAge, age⟩ := secondsOf_some reading.ageUs
      rw [offsetFits_iff large, ← cyclicDistance_within_iff (inside mapped), rxStats, if_pos mapped]
      simp [used, peak, age, BitVec.le_def]
    · rw [rxStats, if_pos mapped]
      simp only [percentOf_none large, bind, Option.bind]
      refine iff_of_false (by simp) (fun fits => large (fits mapped).1)
  · rw [rxStats, if_neg mapped]
    exact iff_of_true ⟨none, rfl, by simp⟩ (fun now => absurd now mapped)

/-- The transmit part likewise. -/
theorem txStats_sound_iff (reading : Reading)
    (inside : 0 < d.priv.txbufSize → d.regs.txBufRd < d.priv.txbufSize) :
    (∃ part, txStats reading d = some part ∧ ∀ tx ∈ part, tx.used ≤ tx.size) ↔
      OffsetFits d.priv.txbufSize d.priv.txWrPtr d.regs.txBufRd := by
  by_cases mapped : 0 < d.priv.txbufSize
  · by_cases large : 100 ≤ d.priv.txbufSize.toNat
    · obtain ⟨usedPercent, used⟩ :=
        (percentOf_some_iff (cyclicDistance d.priv.txbufSize d.regs.txBufRd d.priv.txWrPtr)).mpr
          large
      rw [offsetFits_iff large, ← cyclicDistance_from_within_iff (inside mapped), txStats,
        if_pos mapped]
      simp [used, BitVec.le_def]
    · rw [txStats, if_pos mapped]
      simp only [percentOf_none large, bind, Option.bind]
      refine iff_of_false (by simp) (fun fits => large (fits mapped).1)
  · rw [txStats, if_neg mapped]
    exact iff_of_true ⟨none, rfl, by simp⟩ (fun now => absurd now mapped)

/-- A reading is sound if and only if its time and the offsets of both rings fit. -/
theorem reading_sound_iff (reading : Reading)
    (pointers : d.priv.inUse = true → PointersInside d) :
    Sound (statsShow reading d) ↔ ReadingFits reading d := by
  by_cases active : d.priv.inUse = true
  · have inside := pointers active
    rw [Sound, ReadingFits, statsShow, if_pos active]
    simp only [bind, pure, Option.bind_eq_some_iff, Option.some.injEq, forall_const, active]
    constructor
    · rintro ⟨_, ⟨uptime, _, rates, rated, rx, received, tx, transmitted, rfl⟩, possible⟩
      exact ⟨(throughput_some_iff _ _).mp ⟨rates, rated⟩,
        (rxStats_sound_iff reading inside.received).mp ⟨rx, received, possible.1⟩,
        (txStats_sound_iff reading inside.transmitted).mp ⟨tx, transmitted, possible.2⟩⟩
    · rintro ⟨timely, rxFits, txFits⟩
      obtain ⟨uptime, time⟩ := secondsOf_some reading.uptimeUs
      obtain ⟨rates, rated⟩ := (throughput_some_iff _ d.priv.totalBytesWritten).mpr timely
      obtain ⟨rx, received, rxPossible⟩ :=
        (rxStats_sound_iff reading inside.received).mpr rxFits
      obtain ⟨tx, transmitted, txPossible⟩ :=
        (txStats_sound_iff reading inside.transmitted).mpr txFits
      exact ⟨_, ⟨uptime, time, rates, rated, rx, received, tx, transmitted, rfl⟩, rxPossible,
        txPossible⟩
  · have idle : statsShow reading d = some .idle := if_neg active
    rw [idle]
    exact iff_of_true ⟨_, rfl, trivial⟩ (fun now => absurd now active)

end Reading

/-! ## Runs -/

/-- The driver, and what has been read from its file, newest first. -/
structure StatsBench where
  driver : RangeBench
  shown : List (Option Stats)

/-- A step of the threads, the timer or the hardware; the file operations `open` and
`release`; or a reading of the statistics. -/
inductive StatsEvent where
  | driver (e : RangeEvent)
  | opens
  | releases
  | reads (reading : Reading)

section Runs

variable (rxBlockSize : BitVec 32)

/-- `ad936x_axi_release`. -/
def release (d : Device) : Device :=
  { d with
    regs := { d.regs with ctrl := 0 }
    priv := { d.priv with closing := true, timerActive := false, inUse := false } }

/-- An `open` of a device in use fails. Of a closed one no call is in progress. -/
def statsStep (b : StatsBench) : StatsEvent → StatsBench
  | .driver e => { b with driver := maintain rxBlockSize b.driver e }
  | .opens =>
    if b.driver.dev.priv.inUse then b
    else { b with driver := afterOpen b.driver.latched b.driver.dev }
  | .releases => { b with driver := { b.driver with dev := release b.driver.dev } }
  | .reads reading => { b with shown := statsShow reading b.driver.dev :: b.shown }

/-- A closed device, whatever earlier sessions have left. -/
def closedStats (latched : BitVec 32) (d : Device) : StatsBench where
  driver :=
    { dev := { d with priv := { d.priv with inUse := false } }
      reader := .outside
      writer := .outside
      enabler := .returned
      latched := latched }
  shown := []

/-- A reading finds the hardware's pointers within the rings. -/
def ReadInside (b : StatsBench) : StatsEvent → Prop
  | .reads _ => b.driver.dev.priv.inUse = true → PointersInside b.driver.dev
  | _ => True

/-- The condition on a reading. -/
def ReadFits (b : StatsBench) : StatsEvent → Prop
  | .reads reading => ReadingFits reading b.driver.dev
  | _ => True

instance (b : StatsBench) : (e : StatsEvent) → Decidable (ReadInside b e)
  | .reads _ => inferInstanceAs (Decidable (_ → _))
  | .driver _ => isTrue trivial
  | .opens => isTrue trivial
  | .releases => isTrue trivial

instance (b : StatsBench) : (e : StatsEvent) → Decidable (ReadFits b e)
  | .reads reading => inferInstanceAs (Decidable (ReadingFits reading b.driver.dev))
  | .driver _ => isTrue trivial
  | .opens => isTrue trivial
  | .releases => isTrue trivial

/-- Every reading so far has been sound. -/
def AllSound (b : StatsBench) : Prop := ∀ stats ∈ b.shown, Sound stats

instance (b : StatsBench) : Decidable (AllSound b) :=
  inferInstanceAs (Decidable (∀ stats ∈ b.shown, Sound stats))

variable {rxBlockSize}

/-- A step keeps all readings sound exactly when it is no reading or one that fits. -/
theorem allSound_step {b : StatsBench} (sound : AllSound b) (e : StatsEvent)
    (inside : ReadInside b e) : AllSound (statsStep rxBlockSize b e) ↔ ReadFits b e := by
  cases e with
  | driver e => exact iff_of_true sound trivial
  | opens =>
    refine iff_of_true ?_ trivial
    rw [statsStep]
    split <;> exact sound
  | releases => exact iff_of_true sound trivial
  | reads reading =>
    have reads := reading_sound_iff reading inside
    constructor
    · intro all
      exact reads.mp (all _ List.mem_cons_self)
    · intro fits stats member
      rcases List.mem_cons.mp member with rfl | earlier
      · exact reads.mpr fits
      · exact sound stats earlier

/-- In every run of `open`, mappings, ENABLE, reads, writes, ticks, `release` and the
hardware, with readings at any time that find the hardware's pointers within the
rings: no divisor is ever zero and no ring shown fuller than it is if and only if the
time and the offsets of every reading fit. -/
theorem readings_sound_iff (rxBlockSize latched : BitVec 32) (d : Device)
    (events : List StatsEvent)
    (follows : Follows ReadInside (statsStep rxBlockSize) (closedStats latched d) events) :
    Always AllSound (statsStep rxBlockSize) (closedStats latched d) events ↔
      Follows ReadFits (statsStep rxBlockSize) (closedStats latched d) events := by
  have decides : ∀ b e, AllSound b → ReadInside b e →
      (AllSound (statsStep rxBlockSize b e) ↔ ReadFits b e) := by
    intro b e sound inside
    exact allSound_step sound e inside
  have preserved : ∀ b e, AllSound b → ReadInside b e → ReadFits b e →
      AllSound (statsStep rxBlockSize b e) := by
    intro b e sound inside fits
    exact (allSound_step sound e inside).mpr fits
  have begins : AllSound (closedStats latched d) := by
    intro stats member
    exact absurd member List.not_mem_nil
  exact always_iff_follows decides preserved begins begins events follows

/-! ## A session that keeps its offsets inside -/

/-- The offsets, and the one a `write` was called with, lie in their rings or are zero; a
ring has a hundredth; and without a ring no `read` has passed its wait. -/
structure OffsetsInside (b : RangeBench) : Prop where
  readAt : b.dev.priv.rdPtr = 0#32 ∨ b.dev.priv.rdPtr < b.dev.priv.rxbufSize
  publishedAt : b.dev.priv.txWrPtr = 0#32 ∨ b.dev.priv.txWrPtr < b.dev.priv.txbufSize
  requestedAt : ∀ wr, b.writer.requested = some wr → wr < b.dev.priv.txbufSize
  rxLarge : 0 < b.dev.priv.rxbufSize → 100 ≤ b.dev.priv.rxbufSize.toNat
  txLarge : 0 < b.dev.priv.txbufSize → 100 ≤ b.dev.priv.txbufSize.toNat
  unmapped : b.dev.priv.rxbufSize = 0#32 →
    b.dev.priv.blocksReady = 0#32 ∧ b.reader.idle = true

/-- A mapping of a hundred bytes or more that reaches beyond the offsets of its ring. -/
structure Reaches (b : RangeBench) (call : MmapCall) : Prop where
  large : 100 ≤ call.size.toNat
  readAt : call.vmPgoff = 0 → b.dev.priv.rdPtr = 0#32 ∨ b.dev.priv.rdPtr < call.size
  publishedAt : call.vmPgoff = 1 → b.dev.priv.txWrPtr = 0#32 ∨ b.dev.priv.txWrPtr < call.size
  requestedAt : call.vmPgoff = 1 → ∀ wr, b.writer.requested = some wr → wr < call.size

/-- One session in which every mapping reaches beyond the offsets of its ring, and whose
calls and readings find the hardware's pointers within the rings. -/
def Orderly (b : StatsBench) : StatsEvent → Prop
  | .driver (.map call) => Reaches b.driver call
  | .driver (.read _) => PointersInside b.driver.dev
  | .driver _ => True
  | .reads _ => PointersInside b.driver.dev
  | .opens => False
  | .releases => False

/-- The condition on a reading in an orderly session. -/
def ReadTimely (b : StatsBench) : StatsEvent → Prop
  | .reads reading => b.driver.dev.priv.inUse = true → TimeFits reading.uptimeUs
  | _ => True

section Offsets

variable {b : RangeBench}

/-- The snap target lies in the ring when the hardware's pointer does. -/
theorem newRd_inside (rxBlockSize : BitVec 32) {d : Device}
    (inside : d.regs.rxBufWr < d.priv.rxbufSize) :
    newRd rxBlockSize d < d.priv.rxbufSize := by
  have insideNat : d.regs.rxBufWr.toNat < d.priv.rxbufSize.toNat := inside
  have half : (d.priv.rxbufSize / 2).toNat = d.priv.rxbufSize.toNat / 2 := BitVec.toNat_udiv
  have halfInside : d.priv.rxbufSize / 2 < d.priv.rxbufSize := by
    rw [BitVec.lt_def, half]
    omega
  have distance := cyclicDistance_lt halfInside inside
  rw [newRd, BitVec.lt_def, floor_toNat]
  exact Nat.lt_of_le_of_lt (Nat.div_mul_le_self _ _) distance

/-- The next offset lies in the ring, or is zero. -/
theorem wrapNext_inside (size offset step : BitVec 32) :
    wrapNext size offset step = 0#32 ∨ wrapNext size offset step < size := by
  unfold wrapNext
  split
  · exact .inl rfl
  · rename_i short
    exact .inr (BitVec.not_le.mp short)

/-- Past its wait a `read` has a ring. -/
theorem OffsetsInside.mapped (kept : OffsetsInside b) (busy : b.reader.idle = false) :
    b.dev.priv.rxbufSize ≠ 0#32 := by
  intro zero
  exact Bool.false_ne_true (busy.symm.trans (kept.unmapped zero).2)

/-- A `read` takes its offset on within the ring. -/
theorem offsets_read (kept : OffsetsInside b) (call : ReadCall) (inside : PointersInside b.dev) :
    OffsetsInside (maintain rxBlockSize b (.read call)) := by
  rw [maintain]
  cases idle : b.reader.idle with
  | true =>
    obtain ⟨same, stays⟩ := readStep_idle rxBlockSize call b.dev idle
    rw [same]
    exact { kept with
      unmapped := fun zero => ⟨(kept.unmapped zero).1, stays (kept.unmapped zero).1⟩ }
  | false =>
    have mapped := kept.mapped idle
    have positive : 0 < b.dev.priv.rxbufSize := by
      simpa [BitVec.lt_def, Nat.pos_iff_ne_zero, BitVec.toNat_eq] using mapped
    have target := newRd_inside rxBlockSize (inside.received positive)
    obtain ⟨_, _, _, _, _, _, _, _, same, moves⟩ :=
      readStep_device rxBlockSize call b.reader b.dev
    rw [same]
    refine { kept with
      readAt := ?_
      unmapped := fun zero => absurd zero mapped }
    rcases moves with rfl | rfl | rfl
    · exact kept.readAt
    · exact .inr target
    · exact wrapNext_inside _ _ _

/-- A `write` publishes the offset it was called with. -/
theorem offsets_write (kept : OffsetsInside b) (call : WriteCall) :
    OffsetsInside (maintain rxBlockSize b (.write call)) := by
  obtain ⟨_, _, _, same, published⟩ := writeStep_device rxBlockSize call b.writer b.dev
  rw [maintain, same]
  refine { kept with publishedAt := ?_, requestedAt := ?_ }
  · rcases published with rfl | asked
    · exact kept.publishedAt
    · exact .inr (kept.requestedAt _ asked)
  · intro wr requested
    rcases writeStep_requested requested with asked | below
    · exact kept.requestedAt wr asked
    · exact below

/-- A mapping that reaches beyond the offsets keeps them inside. -/
theorem offsets_map (kept : OffsetsInside b) {call : MmapCall} (reaches : Reaches b call) :
    OffsetsInside (maintain rxBlockSize b (.map call)) := by
  rw [maintain]
  cases checked : mmapCheck rxBlockSize call b.dev with
  | error errno =>
    rw [mmap_rejected call b.dev errno checked]
    exact kept
  | ok accepted =>
    rw [mmap_accepted call b.dev checked]
    obtain ⟨_, ⟨page, _⟩ | ⟨page, _⟩⟩ := mmapCheck_ok checked
    · simp only [mmapRegister, mmapSize, if_pos page]
      have large := reaches.large
      refine { kept with
        readAt := reaches.readAt page
        rxLarge := fun _ => large
        unmapped := ?_ }
      intro zero
      have empty : call.size = 0#32 := zero
      simp [empty] at large
    · have transmit : ¬ call.vmPgoff = 0 := by omega
      simp only [mmapRegister, mmapSize, if_neg transmit]
      exact { kept with
        publishedAt := reaches.publishedAt page
        requestedAt := reaches.requestedAt page
        txLarge := fun _ => reaches.large }

/-- Every step of an orderly session keeps the offsets inside. -/
theorem offsets_step {b : StatsBench} (kept : OffsetsInside b.driver) (e : StatsEvent)
    (orderly : Orderly b e) : OffsetsInside (statsStep rxBlockSize b e).driver := by
  cases e with
  | opens => exact orderly.elim
  | releases => exact orderly.elim
  | reads reading => exact kept
  | driver e =>
    cases e with
    | read call => exact offsets_read kept call orderly
    | write call => exact offsets_write kept call
    | map call => exact offsets_map kept orderly
    | enable =>
      simp only [statsStep, maintain]
      cases enableAgain b.driver.enabler with
      | clearRd ctrl => exact { kept with readAt := .inl rfl }
      | clearBlocks ctrl =>
        exact { kept with unmapped := fun zero => ⟨rfl, (kept.unmapped zero).2⟩ }
      | _ => exact { kept with }
    | tick =>
      simp only [statsStep, maintain, timer]
      split_ifs with mapped
      · refine { kept with unmapped := fun zero => ?_ }
        have empty : b.driver.dev.priv.rxbufSize = 0#32 := zero
        simp [empty] at mapped
      · exact kept
    | engineStarts => exact { kept with }
    | received wr => exact { kept with }
    | transmitted rd => exact { kept with }

/-- The session when `open` has returned, with nothing read from the file. -/
def openedStats (latched : BitVec 32) (d : Device) : StatsBench := ⟨afterOpen latched d, []⟩

theorem offsets_opened (latched : BitVec 32) {d : Device} (closed : d.priv.inUse = false) :
    OffsetsInside (openedStats latched d).driver := by
  rw [openedStats, afterOpen, openRun_closed d closed]
  refine ⟨.inl rfl, .inl rfl, ?_, by simp, by simp, fun _ => ⟨rfl, rfl⟩⟩
  intro wr requested
  cases requested

/-- An offset inside its ring fits. -/
theorem offsetFits_inside (other : BitVec 32) {size moved : BitVec 32}
    (inside : moved = 0#32 ∨ moved < size) (large : 0 < size → 100 ≤ size.toNat) :
    OffsetFits size moved other := by
  intro mapped
  refine ⟨large mapped, fun beyond => ?_⟩
  rcases inside with rfl | below
  · exact Nat.zero_le _
  · exact absurd beyond (BitVec.not_le.mpr below)

/-- With the offsets inside, only the time of a reading has to fit. -/
theorem readFits_iff {b : StatsBench} (kept : OffsetsInside b.driver) (e : StatsEvent) :
    ReadFits b e ↔ ReadTimely b e := by
  cases e with
  | reads reading =>
    have received := offsetFits_inside b.driver.dev.regs.rxBufWr kept.readAt kept.rxLarge
    have transmitted := offsetFits_inside b.driver.dev.regs.txBufRd kept.publishedAt kept.txLarge
    exact imp_congr_right fun _ => and_iff_left ⟨received, transmitted⟩
  | _ => exact Iff.rfl

/-- In an orderly session readings are sound if and only if they are made in the first
microsecond, or a millisecond or more after `open` but no multiple of 2^32 of them. -/
theorem orderly_readings_sound_iff (rxBlockSize latched : BitVec 32) (d : Device)
    (closed : d.priv.inUse = false) (events : List StatsEvent)
    (follows : Follows Orderly (statsStep rxBlockSize) (openedStats latched d) events) :
    Always AllSound (statsStep rxBlockSize) (openedStats latched d) events ↔
      Follows ReadTimely (statsStep rxBlockSize) (openedStats latched d) events := by
  have decides : ∀ b e, OffsetsInside b.driver ∧ AllSound b → Orderly b e →
      (AllSound (statsStep rxBlockSize b e) ↔ ReadTimely b e) := by
    rintro b e ⟨kept, sound⟩ orderly
    have inside : ReadInside b e := by
      cases e with
      | reads reading => exact fun _ => orderly
      | _ => trivial
    rw [allSound_step sound e inside, readFits_iff kept e]
  have preserved : ∀ b e, OffsetsInside b.driver ∧ AllSound b → Orderly b e → ReadTimely b e →
      OffsetsInside (statsStep rxBlockSize b e).driver ∧ AllSound (statsStep rxBlockSize b e) := by
    intro b e kept orderly timely
    exact ⟨offsets_step kept.1 e orderly, (decides b e kept orderly).mpr timely⟩
  have begins : AllSound (openedStats latched d) := by
    intro stats member
    exact absurd member List.not_mem_nil
  exact always_iff_follows decides preserved ⟨offsets_opened latched closed, begins⟩ begins events
    follows

end Offsets

end Runs

/-- A reading some microseconds after `open`, with nothing lost. -/
def readingAt (uptimeUs : BitVec 64) : StatsEvent := .reads ⟨uptimeUs, uptimeUs, 0, 0⟩

/-- One `read` of a block that is ready. -/
def readBlock : List StatsEvent := List.replicate 5 (.driver (.read ⟨12, false⟩))

/-- A ring of some blocks is mapped and the hardware started. -/
def started (size : BitVec 32) : List StatsEvent :=
  [.opens, .driver (.map ⟨size, 0, false⟩)] ++ List.replicate 6 (.driver .enable) ++
    [.driver .engineStarts]

/-- Three of four blocks are read; the ring is mapped again with one block, and the file
read when the hardware has come round. -/
def shrunk : List StatsEvent :=
  started 262144 ++ [.driver (.received 196608), .driver .tick] ++ readBlock ++ readBlock ++
    readBlock ++ [.driver (.received 0), .driver (.map ⟨65536, 0, false⟩), readingAt 1000000]

/-- Half a millisecond after `open`, and 2^32 milliseconds after it, the rates are
divided by zero; and an offset of three blocks in a ring of one gives a fill of
nearly the whole address space. -/
theorem readings_unsound :
    ¬ Always AllSound (statsStep 65536) (closedStats 0 (reserved 0x08000000))
        [.opens, readingAt 500] ∧
      ¬ Always AllSound (statsStep 65536) (closedStats 0 (reserved 0x08000000))
        [.opens, readingAt 4294967296000] ∧
      Follows ReadInside (statsStep 65536) (closedStats 0 (reserved 0x08000000)) shrunk ∧
      ¬ Always AllSound (statsStep 65536) (closedStats 0 (reserved 0x08000000)) shrunk := by
  decide +kernel

/-- A reading before `open`, one at a millisecond, and one with blocks unread. -/
theorem readings_sound_timely :
    Always AllSound (statsStep 65536) (closedStats 0 (reserved 0x08000000))
      ([readingAt 500] ++ started 262144 ++
        [readingAt 1000, .driver (.received 196608), .driver .tick, readingAt 2500]) :=
  (readings_sound_iff 65536 0 (reserved 0x08000000) _ (by decide +kernel)).mpr (by decide +kernel)

end Zyndra.Driver
