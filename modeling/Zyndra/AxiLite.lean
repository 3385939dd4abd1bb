import Mathlib.Data.BitVec

/-!
# The register slave

The AXI4-Lite side of `ad936x_axi.vhd`. Every process assigns its signals in
the order of the source, the conditions reading the values from before the
clock edge and the last assignment winning. The write channel captures an
address and a word separately and executes the write once both flags are set.
A read passes from the address register over the decoded value to the response.

The counters and pointers that are only read arrive as inputs of each clock.
-/

namespace Zyndra.AxiLite

/-! ## Addresses -/

/-- `t_regaddr`. -/
abbrev TRegaddr := BitVec 8

def cRegInfo : TRegaddr := 0x00
def cRegCtrl : TRegaddr := 0x04
def cRegTxUnderrun : TRegaddr := 0x08
def cRegRxOverflow : TRegaddr := 0x0C
def cRegRxBufBase : TRegaddr := 0x10
def cRegRxBufSize : TRegaddr := 0x14
def cRegRxBufWr : TRegaddr := 0x1C
def cRegTxBufBase : TRegaddr := 0x20
def cRegTxBufSize : TRegaddr := 0x24
def cRegTxBufRd : TRegaddr := 0x28
def cRegTxBufWr : TRegaddr := 0x2C

def cCtrlReset : Nat := 0
def cCtrlRxEnable : Nat := 1
def cCtrlTxEnable : Nat := 2

/-! ## Signals -/

/-- The registers that software writes. -/
structure Registers where
  sRxEn : Bool
  sReset : Bool
  sTxEn : Bool
  sRxBufBase : BitVec 32
  sRxBufSize : BitVec 32
  sTxBufBase : BitVec 32
  sTxBufSize : BitVec 32
  sTxBufWr : BitVec 32
  deriving DecidableEq, Repr

/-- The write channels: `s_wen`, one field a bit, and what they capture. -/
structure WriteChannel where
  sWen0 : Bool
  sWen1 : Bool
  sWaddr : TRegaddr
  sWdata : BitVec 32
  bvalid : Bool
  deriving DecidableEq, Repr

/-- The read channels. -/
structure ReadChannel where
  arready : Bool
  sRen : Bool
  sRaddr : TRegaddr
  sRack : Bool
  sRdata : BitVec 32
  rvalid : Bool
  rdata : BitVec 32
  deriving DecidableEq, Repr

structure Slave where
  regs : Registers
  write : WriteChannel
  read : ReadChannel
  deriving DecidableEq, Repr

/-- The inputs of one clock: the bus, and the values that are only read. -/
structure Inputs where
  aresetn : Bool
  awvalid : Bool
  awaddr : BitVec 32
  wvalid : Bool
  wdata : BitVec 32
  bready : Bool
  arvalid : Bool
  araddr : BitVec 32
  rready : Bool
  sTxUnderrunCnt : BitVec 32
  sRxOverflowCnt : BitVec 32
  sRxBufWr : BitVec 32
  sTxBufRd : BitVec 32
  deriving DecidableEq, Repr

/-! ## Writing -/

def awready : Bool := true

def wready : Bool := true

/-- `s_wen = "11"`. -/
def WriteChannel.complete (w : WriteChannel) : Bool := w.sWen0 && w.sWen1

def procAxiWrite (w : WriteChannel) (i : Inputs) : WriteChannel :=
  let next := w
  let next := if i.awvalid then { next with sWaddr := i.awaddr.setWidth 8, sWen0 := true } else next
  let next := if i.wvalid then { next with sWdata := i.wdata, sWen1 := true } else next
  if !i.aresetn then { next with bvalid := false, sWen0 := false, sWen1 := false }
  else if w.complete then { next with bvalid := true, sWen0 := false, sWen1 := false }
  else if w.bvalid && i.bready then { next with bvalid := false }
  else next

/-- The register write of one address with one word: the case statement on
`s_waddr`. -/
def Registers.assign (r : Registers) (sWaddr : TRegaddr) (sWdata : BitVec 32) : Registers :=
  if sWaddr = cRegCtrl then
    { r with
      sReset := sWdata.getLsbD cCtrlReset
      sRxEn := sWdata.getLsbD cCtrlRxEnable
      sTxEn := sWdata.getLsbD cCtrlTxEnable }
  else if sWaddr = cRegRxBufBase then { r with sRxBufBase := sWdata }
  else if sWaddr = cRegRxBufSize then { r with sRxBufSize := sWdata }
  else if sWaddr = cRegTxBufBase then { r with sTxBufBase := sWdata }
  else if sWaddr = cRegTxBufSize then { r with sTxBufSize := sWdata }
  else if sWaddr = cRegTxBufWr then { r with sTxBufWr := sWdata }
  else r

/-- The registers while `aresetn` is low. -/
def resetRegisters : Registers where
  sRxEn := false
  sReset := true
  sTxEn := false
  sRxBufBase := 0
  sRxBufSize := 0
  sTxBufBase := 0
  sTxBufSize := 0
  sTxBufWr := 0

def procRegWrite (r : Registers) (w : WriteChannel) (i : Inputs) : Registers :=
  let next := if w.complete then r.assign w.sWaddr w.sWdata else r
  if !i.aresetn then resetRegisters else next

/-! ## Reading -/

/-- A word with the given bit assigned and zeros elsewhere. -/
def assignBit (position : Nat) (value : Bool) : BitVec 32 := if value then 1 <<< position else 0

/-- The value decoded for an address: the case statement on `s_raddr`. -/
def Registers.decode (r : Registers) (i : Inputs) (sRaddr : TRegaddr) : BitVec 32 :=
  if sRaddr = cRegInfo then (0xAD93 : BitVec 16) ++ (0x0001 : BitVec 16)
  else if sRaddr = cRegCtrl then
    assignBit cCtrlReset r.sReset ||| assignBit cCtrlRxEnable r.sRxEn |||
      assignBit cCtrlTxEnable r.sTxEn
  else if sRaddr = cRegTxUnderrun then i.sTxUnderrunCnt
  else if sRaddr = cRegRxOverflow then i.sRxOverflowCnt
  else if sRaddr = cRegRxBufBase then r.sRxBufBase
  else if sRaddr = cRegRxBufSize then r.sRxBufSize
  else if sRaddr = cRegRxBufWr then i.sRxBufWr
  else if sRaddr = cRegTxBufBase then r.sTxBufBase
  else if sRaddr = cRegTxBufSize then r.sTxBufSize
  else if sRaddr = cRegTxBufRd then i.sTxBufRd
  else if sRaddr = cRegTxBufWr then r.sTxBufWr
  else 0xDEADBEEF

/-- `proc_axi_read`: the request and the response, from the signals before the
clock. -/
def procAxiRead (c : ReadChannel) (i : Inputs) : ReadChannel :=
  let next := { c with sRen := false, arready := false }
  let next :=
    if i.arvalid && !c.arready then
      { next with sRen := true, sRaddr := i.araddr.setWidth 8, arready := true }
    else next
  let next :=
    if c.sRack then { next with rvalid := true, rdata := c.sRdata }
    else if c.rvalid && i.rready then { next with rvalid := false }
    else next
  if !i.aresetn then { next with rvalid := false } else next

/-- `proc_reg_read`, which drives `s_rack` and `s_rdata`. -/
def procRegRead (r : Registers) (c : ReadChannel) (i : Inputs) : Bool × BitVec 32 :=
  if c.sRen then (true, r.decode i c.sRaddr) else (false, c.sRdata)

/-- One clock of the read channels. -/
def readClock (r : Registers) (c : ReadChannel) (i : Inputs) : ReadChannel :=
  let decoded := procRegRead r c i
  { procAxiRead c i with sRack := decoded.1, sRdata := decoded.2 }

/-! ## The clock -/

/-- One rising edge of `aclk`. -/
def clock (s : Slave) (i : Inputs) : Slave where
  regs := procRegWrite s.regs s.write i
  write := procAxiWrite s.write i
  read := readClock s.regs s.read i

section Clocked

variable {i : Inputs}

/-- The write channels after a clock out of reset. A capture sets its flag unless
the completed write clears both. -/
theorem procAxiWrite_running (w : WriteChannel) (running : i.aresetn = true) :
    procAxiWrite w i =
      { sWen0 := !w.complete && (w.sWen0 || i.awvalid)
        sWen1 := !w.complete && (w.sWen1 || i.wvalid)
        sWaddr := if i.awvalid then i.awaddr.setWidth 8 else w.sWaddr
        sWdata := if i.wvalid then i.wdata else w.sWdata
        bvalid := w.complete || (w.bvalid && !i.bready) } := by
  obtain ⟨sWen0, sWen1, sWaddr, sWdata, bvalid⟩ := w
  unfold procAxiWrite WriteChannel.complete
  cases i.awvalid <;> cases i.wvalid <;> cases sWen0 <;> cases sWen1 <;> cases bvalid <;>
    cases i.bready <;> simp [running]

/-- The registers after a clock out of reset. -/
theorem procRegWrite_running (r : Registers) (w : WriteChannel) (running : i.aresetn = true) :
    procRegWrite r w i = if w.complete then r.assign w.sWaddr w.sWdata else r := by
  simp [procRegWrite, running]

/-- The read channels after a clock out of reset. A decoded value replaces the
response whether or not it has been taken. -/
theorem readClock_running (r : Registers) (c : ReadChannel) (running : i.aresetn = true) :
    readClock r c i =
      { arready := i.arvalid && !c.arready
        sRen := i.arvalid && !c.arready
        sRaddr := if i.arvalid && !c.arready then i.araddr.setWidth 8 else c.sRaddr
        sRack := c.sRen
        sRdata := if c.sRen then r.decode i c.sRaddr else c.sRdata
        rvalid := c.sRack || (c.rvalid && !i.rready)
        rdata := if c.sRack then c.sRdata else c.rdata } := by
  unfold readClock procAxiRead procRegRead
  cases i.arvalid <;> cases c.arready <;> cases c.sRen <;> cases c.sRack <;>
    cases c.rvalid <;> cases i.rready <;> simp [running]

/-- The read channels after a clock in reset without an address. What was
requested before still passes on. -/
theorem readClock_reset (r : Registers) (c : ReadChannel) (reset : i.aresetn = false)
    (silent : i.arvalid = false) :
    (readClock r c i).arready = false ∧ (readClock r c i).sRen = false ∧
      (readClock r c i).sRack = c.sRen ∧ (readClock r c i).rvalid = false := by
  unfold readClock procAxiRead procRegRead
  cases c.sRen <;> cases c.sRack <;> cases c.rvalid <;> cases i.rready <;> simp [reset, silent]

end Clocked

/-! ## Registers with a flag -/

/-- What a register holds, when its flag is set. -/
def held {α : Type} (flag : Bool) (value : α) : List α := if flag then [value] else []

theorem length_held {α : Type} (flag : Bool) (value : α) :
    (held flag value).length = flag.toNat := by
  cases flag <;> rfl

/-! ## At rest -/

/-- A slave with its registers at their reset values and nothing in its channels. -/
def quietSlave : Slave where
  regs := resetRegisters
  write := ⟨false, false, 0, 0, false⟩
  read := ⟨false, false, 0, false, 0, false, 0⟩

/-- Nothing on the bus. -/
def quietBus : Inputs where
  aresetn := true
  awvalid := false
  awaddr := 0
  wvalid := false
  wdata := 0
  bready := true
  arvalid := false
  araddr := 0
  rready := true
  sTxUnderrunCnt := 0
  sRxOverflowCnt := 0
  sRxBufWr := 0
  sTxBufRd := 0

end Zyndra.AxiLite
