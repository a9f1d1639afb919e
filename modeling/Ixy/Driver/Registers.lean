import Ixy.Lib.Discipline
import Ixy.Driver.Rx
import Ixy.Driver.Tx

/-!
# The registers of the 82599 (`device.h`, `ixgbe_type.h`)

The driver as a whole programs registers of the card by their offsets. `DriverOp` lists its accesses: to a register,
or one that a function makes for a queue (`Op`), which may be to a register of that queue. The functions of
`ixgbe.c` that use nothing but registers are here, and the operations that the driver offers (`DriverCall`).
-/

namespace Ixy

open Lib

/-! ## Offsets and flags -/

namespace Ixgbe

def ctrl : Nat := 0x00000
def ctrlExt : Nat := 0x00018
def eimc : Nat := 0x00888
def rdrxctl : Nat := 0x02F00
def rxctrl : Nat := 0x03000
def rxpbsize (i : Nat) : Nat := 0x03C00 + i * 4
def gprc : Nat := 0x04074
def gptc : Nat := 0x04080
def gorcl : Nat := 0x04088
def gorch : Nat := 0x0408C
def gotcl : Nat := 0x04090
def gotch : Nat := 0x04094
def hlreg0 : Nat := 0x04240
def autoc : Nat := 0x042A0
def links : Nat := 0x042A4
def rttdcs : Nat := 0x04900
def dmatxctl : Nat := 0x04A80
def fctrl : Nat := 0x05080
def dtxmxszrq : Nat := 0x08100
def txpbsize (i : Nat) : Nat := 0x0CC00 + i * 4
def eec : Nat := 0x10010

/-- The registers of a receive queue are in two blocks. -/
def rxBlock (i offset : Nat) : Nat := if i < 64 then 0x01000 + offset + i * 0x40 else 0x0D000 + offset + (i - 64) * 0x40

def rdbal (i : Nat) : Nat := rxBlock i 0x00
def rdbah (i : Nat) : Nat := rxBlock i 0x04
def rdlen (i : Nat) : Nat := rxBlock i 0x08
def rdh (i : Nat) : Nat := rxBlock i 0x10
def rdt (i : Nat) : Nat := rxBlock i 0x18
def rxdctl (i : Nat) : Nat := rxBlock i 0x28
def srrctl (i : Nat) : Nat := if i ≤ 15 then 0x02100 + i * 4 else rxBlock i 0x14
def dcaRxctrl (i : Nat) : Nat := if i ≤ 15 then 0x02200 + i * 4 else rxBlock i 0x0C

def tdbal (i : Nat) : Nat := 0x06000 + i * 0x40
def tdbah (i : Nat) : Nat := 0x06004 + i * 0x40
def tdlen (i : Nat) : Nat := 0x06008 + i * 0x40
def tdh (i : Nat) : Nat := 0x06010 + i * 0x40
def tdt (i : Nat) : Nat := 0x06018 + i * 0x40
def txdctl (i : Nat) : Nat := 0x06028 + i * 0x40

/-- `IXGBE_CTRL_LNK_RST | IXGBE_CTRL_RST`. -/
def ctrlRstMask : Nat := 0x00000008 ||| 0x04000000
def eecArd : Nat := 0x00000200
def rdrxctlDmaidone : Nat := 0x00000008
def autocLmsMask : Nat := 0x7 <<< 13
def autocLms10gSerial : Nat := 0x3 <<< 13
def autoc10gPmaPmdMask : Nat := 0x00000180
def autoc10gXaui : Nat := 0x0 <<< 7
def autocAnRestart : Nat := 0x00001000
def rxctrlRxen : Nat := 0x00000001
def rxpbsize128kb : Nat := 0x00020000
def hlreg0Rxcrcstrp : Nat := 0x00000002
def rdrxctlCrcstrip : Nat := 0x00000002
def fctrlMpe : Nat := 0x00000100
def fctrlUpe : Nat := 0x00000200
def fctrlBam : Nat := 0x00000400
def srrctlDesctypeMask : Nat := 0x0E000000
def srrctlDesctypeAdvOnebuf : Nat := 0x02000000
def srrctlDropEn : Nat := 0x10000000
def ctrlExtNsDis : Nat := 0x00010000
def hlreg0Txcrcen : Nat := 0x00000001
def hlreg0Txpaden : Nat := 0x00000400
def txpbsize40kb : Nat := 0x0000A000
def rttdcsArbdis : Nat := 0x00000040
def dmatxctlTe : Nat := 0x1
def linksUp : Nat := 0x40000000
def linksSpeed82599 : Nat := 0x30000000
def linksSpeed10g82599 : Nat := 0x30000000
def linksSpeed1g82599 : Nat := 0x20000000
def linksSpeed10082599 : Nat := 0x10000000

end Ixgbe

/-- Where a register of a queue is. -/
def Reg.offset (i : Nat) : Reg → Nat
  | .rdh => Ixgbe.rdh i
  | .rdt => Ixgbe.rdt i
  | .rxdctl => Ixgbe.rxdctl i
  | .tdh => Ixgbe.tdh i
  | .tdt => Ixgbe.tdt i
  | .txdctl => Ixgbe.txdctl i

/-- `v & ~mask`. -/
def maskOut (v mask : Nat) : Nat := v &&& (0xFFFFFFFF ^^^ mask)

/-! ## Accesses -/

/-- The counters of `struct device_stats`. -/
inductive StatsField where
  | rxPkts
  | txPkts
  | rxBytes
  | txBytes
  deriving DecidableEq, Repr

/-- Accesses of the driver. An offset is an `int`, and stands here for its remainder modulo 2^32. `addStats` is one
`+=` of a counter; `discard` stands where values that were read go out of scope. -/
inductive DriverOp where
  | getReg32 (reg : Nat)
  | setReg32 (reg v : Nat)
  | on (i : Nat) (o : Op)
  | calloc (rxQueues txQueues : Nat)
  | allocateDma (size : Nat)
  | memset (virt size : Nat)
  | addStats (stats : Nat) (f : StatsField) (v : Nat)
  | clearStats (stats : Nat) (f : StatsField)
  | discard (v : StatsField → Nat)

@[reducible] def DriverRet : DriverOp → Type
  | .getReg32 _ => Nat
  | .on _ o => Ret o
  | .allocateDma _ => DmaMemory
  | _ => Unit

abbrev DriverCode := Prog DriverOp DriverRet

namespace Driver

def getReg32 (reg : Nat) : DriverCode Nat := Prog.access (DriverOp.getReg32 reg)
def setReg32 (reg v : Nat) : DriverCode Unit := Prog.access (DriverOp.setReg32 reg v)

/-- A function that works on queue `i`. -/
def onQueue {α : Type} (i : Nat) (p : Code α) : DriverCode α := p.relabel (DriverOp.on i) fun _ r => r

/-- `set_flags32`. -/
def setFlags32 (reg flags : Nat) : DriverCode Unit := do
  let v ← getReg32 reg
  setReg32 reg (v ||| flags)

/-- `clear_flags32`. -/
def clearFlags32 (reg flags : Nat) : DriverCode Unit := do
  let v ← getReg32 reg
  setReg32 reg (maskOut v flags)

/-- A loop that reads registers until a value is as wanted, each one `step` bytes behind the one before. -/
def scanRegs (step reg : Nat) (wanted : Nat → Bool) : DriverCode Unit :=
  Prog.iterate (fun reg => do
    let cur ← getReg32 reg
    if wanted cur then return .inr () else return .inl (reg + step)) reg

/-- A loop that polls one register. -/
def pollReg32 (reg : Nat) (wanted : Nat → Bool) : DriverCode Unit := scanRegs 0 reg wanted

/-- `wait_clear_reg32`. -/
def waitClearReg32 (reg mask : Nat) : DriverCode Unit := pollReg32 reg fun cur => cur &&& mask == 0

/-- `wait_set_reg32`. -/
def waitSetReg32 (reg mask : Nat) : DriverCode Unit := pollReg32 reg fun cur => cur &&& mask == mask

/-- A zero byte, which ends a string. -/
def hasZeroByte (v : Nat) : Bool :=
  v % 2 ^ 8 == 0 || v / 2 ^ 8 % 2 ^ 8 == 0 || v / 2 ^ 16 % 2 ^ 8 == 0 || v / 2 ^ 24 % 2 ^ 8 == 0

/-- `info("... %s", dev->addr)`. It is the registers that get printed as a string, from the first one on. In what units
the C library reads them, and whether it does so twice, is not modelled. -/
def printAddr : DriverCode Unit := scanRegs 4 0 hasZeroByte

/-! ## Link, promiscuous mode and statistics -/

/-- `init_link`. -/
def initLink : DriverCode Unit := do
  let v ← getReg32 Ixgbe.autoc
  setReg32 Ixgbe.autoc (maskOut v Ixgbe.autocLmsMask ||| Ixgbe.autocLms10gSerial)
  let v ← getReg32 Ixgbe.autoc
  setReg32 Ixgbe.autoc (maskOut v Ixgbe.autoc10gPmaPmdMask ||| Ixgbe.autoc10gXaui)
  -- negotiate link
  setFlags32 Ixgbe.autoc Ixgbe.autocAnRestart

/-- `ixgbe_get_link_speed`. -/
def ixgbeGetLinkSpeed : DriverCode Nat := do
  let links ← getReg32 Ixgbe.links
  if links &&& Ixgbe.linksUp = 0 then return 0
  else if links &&& Ixgbe.linksSpeed82599 = Ixgbe.linksSpeed10082599 then return 100
  else if links &&& Ixgbe.linksSpeed82599 = Ixgbe.linksSpeed1g82599 then return 1000
  else if links &&& Ixgbe.linksSpeed82599 = Ixgbe.linksSpeed10g82599 then return 10000
  else return 0

/-- `ixgbe_set_promisc`. -/
def ixgbeSetPromisc (enabled : Bool) : DriverCode Unit :=
  if enabled then setFlags32 Ixgbe.fctrl (Ixgbe.fctrlMpe ||| Ixgbe.fctrlUpe)
  else clearFlags32 Ixgbe.fctrl (Ixgbe.fctrlMpe ||| Ixgbe.fctrlUpe)

/-- One pass of the loop of `wait_for_link`. -/
def pollLink (maxWait : Nat) : DriverCode (Nat ⊕ Unit) := do
  let speed ← ixgbeGetLinkSpeed
  if speed = 0 ∧ maxWait > 0 then return .inl (maxWait - 100000) else return .inr ()

/-- `wait_for_link`. -/
def waitForLink : DriverCode Unit := do
  Prog.iterate pollLink 10000000
  -- the speed is printed
  let _ ← ixgbeGetLinkSpeed
  return ()

/-- Which of the two reads of `low + (high << 32)` comes first is up to the compiler, at each place. -/
structure ReadOrder where
  rxLowFirst : Bool
  txLowFirst : Bool
  deriving DecidableEq, Repr

/-- `get_reg32(low) + (((uint64_t) get_reg32(high)) << 32)`. -/
def getReg64 (lowFirst : Bool) (low high : Nat) : DriverCode Nat :=
  if lowFirst then do
    let l ← getReg32 low
    let h ← getReg32 high
    return (l + h * 2 ^ 32) % 2 ^ 64
  else do
    let h ← getReg32 high
    let l ← getReg32 low
    return (l + h * 2 ^ 32) % 2 ^ 64

/-- The end of `ixgbe_read_stats`: add up what was read, if there is a struct for it. -/
def accumulate (stats : Option Nat) (read : StatsField → Nat) : DriverCode Unit :=
  match stats with
  | none => Prog.access (DriverOp.discard read)
  | some stats => do
    Prog.access (DriverOp.addStats stats .rxPkts (read .rxPkts))
    Prog.access (DriverOp.addStats stats .txPkts (read .txPkts))
    Prog.access (DriverOp.addStats stats .rxBytes (read .rxBytes))
    Prog.access (DriverOp.addStats stats .txBytes (read .txBytes))

/-- `ixgbe_read_stats`. -/
def ixgbeReadStats (order : ReadOrder) (stats : Option Nat) : DriverCode Unit := do
  let rxPkts ← getReg32 Ixgbe.gprc
  let txPkts ← getReg32 Ixgbe.gptc
  let rxBytes ← getReg64 order.rxLowFirst Ixgbe.gorcl Ixgbe.gorch
  let txBytes ← getReg64 order.txLowFirst Ixgbe.gotcl Ixgbe.gotch
  accumulate stats fun
    | .rxPkts => rxPkts
    | .txPkts => txPkts
    | .rxBytes => rxBytes
    | .txBytes => txBytes

/-- `stats_init`. -/
def statsInit (order : ReadOrder) (dev : Bool) (stats : Nat) : DriverCode Unit := do
  Prog.access (DriverOp.clearStats stats .rxPkts)
  Prog.access (DriverOp.clearStats stats .txPkts)
  Prog.access (DriverOp.clearStats stats .rxBytes)
  Prog.access (DriverOp.clearStats stats .txBytes)
  if dev then ixgbeReadStats order none else return ()

end Driver

/-! ## Operations after the initialisation -/

inductive DriverCall where
  | rxPacket (i : Nat)
  | txPacket (i buf : Nat)
  | setPromisc (enabled : Bool)
  | getLinkSpeed
  | readStats (stats : Option Nat)

inductive CallResult where
  | received (buf : Option Nat)
  | sent (n : Nat)
  | speed (mbits : Nat)
  | unit
  deriving DecidableEq, Repr

/-- One operation after the other, with their results. -/
def callsWith (call : DriverCall → DriverCode CallResult) : List DriverCall → DriverCode (List CallResult)
  | [] => return []
  | c :: cs => do
    let result ← call c
    let results ← callsWith call cs
    return result :: results

def Driver.call (order : Driver.ReadOrder) : DriverCall → DriverCode CallResult
  | .rxPacket i => do return .received (← onQueue i ixgbeRxPacket)
  | .txPacket i buf => do return .sent (← onQueue i (ixgbeTxPacket buf))
  | .setPromisc enabled => do
    ixgbeSetPromisc enabled
    return .unit
  | .getLinkSpeed => do return .speed (← ixgbeGetLinkSpeed)
  | .readStats stats => do
    ixgbeReadStats order stats
    return .unit

def Driver.calls (order : Driver.ReadOrder) (cs : List DriverCall) : DriverCode (List CallResult) :=
  callsWith (Driver.call order) cs

end Ixy
