import Ixy.Lib.Prog
import Ixy.Lib.Ring
import Ixy.Memory.Mempool

/-!
# The driver's world: queues, descriptor rings, registers and the NIC

One receive and one transmit queue of the 82599 as `ixgbe.c` sees them: the queue structs, the
descriptor memory shared with the NIC, the head and tail registers, and the mempools. `Op` lists the
single accesses of the driver, `exec` performs one; `nicStep` are the moves of the NIC on registers and
descriptors, and `frameStep` are its moves with the frames that it writes to memory.

A descriptor is the union of what the driver writes and what the NIC writes back, so the fields of
the two views overlap here as they do in memory: `hdr_addr` of a receive descriptor covers the
status, length and vlan words, and `olinfo_status` of a transmit descriptor is the status word.

Fields marked as history record what happened and are never read by `exec`, `nicStep` or `frameStep`.
-/

namespace Ixy

open Lib

/-! ## Descriptors -/

/-- `union ixgbe_adv_rx_desc`, as two quadwords: `read.pkt_addr` or `wb.lower`, and
`read.hdr_addr` or `wb.upper`. -/
structure RxDesc where
  lo : Nat
  hi : Nat
  deriving DecidableEq, Repr

/-- `IXGBE_RXDADV_STAT_DD`. -/
def rxdadvStatDD : Nat := 0x01
/-- `IXGBE_RXDADV_STAT_EOP`. -/
def rxdadvStatEOP : Nat := 0x02

namespace RxDesc

/-- `wb.upper.status_error`. -/
def statusError (d : RxDesc) : Nat := d.hi % 2 ^ 32

/-- `wb.upper.length`. -/
def length (d : RxDesc) : Nat := d.hi / 2 ^ 32 % 2 ^ 16

/-- Descriptor done. -/
def dd (d : RxDesc) : Bool := (d.statusError &&& rxdadvStatDD) != 0

/-- End of packet. -/
def eop (d : RxDesc) : Bool := (d.statusError &&& rxdadvStatEOP) != 0

/-- The status, the flags and the length are in the second quadword. -/
theorem writeBack_congr {d e : RxDesc} (h : d.hi = e.hi) :
    d.dd = e.dd ∧ d.eop = e.eop ∧ d.length = e.length := by
  simp only [dd, eop, length, statusError, h, and_self]

/-- Writing 0 to `hdr_addr` resets the flags. -/
@[simp] theorem dd_hdrAddr_zero (lo : Nat) : RxDesc.dd ⟨lo, 0⟩ = false := by
  simp [dd, statusError]

end RxDesc

/-- `union ixgbe_adv_tx_desc`: `olinfoStatus` is `read.olinfo_status` and `wb.status`. -/
structure TxDesc where
  bufferAddr : Nat
  cmdTypeLen : Nat
  olinfoStatus : Nat
  deriving DecidableEq, Repr

/-- `IXGBE_ADVTXD_STAT_DD`. -/
def advtxdStatDD : Nat := 0x00000001
/-- `IXGBE_ADVTXD_DCMD_EOP | IXGBE_ADVTXD_DCMD_RS | IXGBE_ADVTXD_DCMD_IFCS |
IXGBE_ADVTXD_DCMD_DEXT | IXGBE_ADVTXD_DTYP_DATA`. -/
def advtxdFlags : Nat := 0x01000000 ||| 0x08000000 ||| 0x02000000 ||| 0x20000000 ||| 0x00300000
/-- `IXGBE_ADVTXD_PAYLEN_SHIFT`. -/
def advtxdPaylenShift : Nat := 14

namespace TxDesc

/-- Descriptor done. -/
def dd (d : TxDesc) : Bool := (d.olinfoStatus &&& advtxdStatDD) != 0

/-- The data length the NIC reads (`IXGBE_ADVTXD_DTALEN_MASK`). -/
def dtalen (d : TxDesc) : Nat := d.cmdTypeLen % 2 ^ 16

/-- The total payload length the NIC reads. -/
def paylen (d : TxDesc) : Nat := d.olinfoStatus / 2 ^ advtxdPaylenShift

end TxDesc

/-- Descriptors of both rings are 16 bytes long: the address of `descriptors + i`. -/
def descAddr (descriptors i : Nat) : Nat := descriptors + 16 * i

/-- The words of a receive descriptor that the driver writes. -/
inductive RxWord where
  | pktAddr
  | hdrAddr
  deriving DecidableEq, Repr

/-- The words of a transmit descriptor that the driver writes. -/
inductive TxWord where
  | bufferAddr
  | cmdTypeLen
  | olinfoStatus
  deriving DecidableEq, Repr

/-! ## Queue structs -/

/-- The fields of `struct ixgbe_rx_queue`. -/
inductive RxField where
  | descriptors
  | mempool
  | numEntries
  | rxIndex
  | virtualAddresses (i : Nat)
  deriving DecidableEq, Repr

/-- `struct ixgbe_rx_queue`. -/
structure RxQueue where
  descriptors : Nat
  mempool : Nat
  numEntries : Nat
  rxIndex : Nat
  virtualAddresses : Nat → Nat

def RxQueue.get (q : RxQueue) : RxField → Nat
  | .descriptors => q.descriptors
  | .mempool => q.mempool
  | .numEntries => q.numEntries
  | .rxIndex => q.rxIndex
  | .virtualAddresses i => q.virtualAddresses i

def RxQueue.set (q : RxQueue) : RxField → Nat → RxQueue
  | .descriptors, v => { q with descriptors := v }
  | .mempool, v => { q with mempool := v }
  | .numEntries, v => { q with numEntries := v % 2 ^ 16 }
  | .rxIndex, v => { q with rxIndex := v % 2 ^ 16 }
  | .virtualAddresses i, v => { q with virtualAddresses := Function.update q.virtualAddresses i v }

/-- The fields of `struct ixgbe_tx_queue`. -/
inductive TxField where
  | descriptors
  | numEntries
  | cleanIndex
  | txIndex
  | virtualAddresses (i : Nat)
  deriving DecidableEq, Repr

/-- `struct ixgbe_tx_queue`. -/
structure TxQueue where
  descriptors : Nat
  numEntries : Nat
  cleanIndex : Nat
  txIndex : Nat
  virtualAddresses : Nat → Nat

def TxQueue.get (q : TxQueue) : TxField → Nat
  | .descriptors => q.descriptors
  | .numEntries => q.numEntries
  | .cleanIndex => q.cleanIndex
  | .txIndex => q.txIndex
  | .virtualAddresses i => q.virtualAddresses i

def TxQueue.set (q : TxQueue) : TxField → Nat → TxQueue
  | .descriptors, v => { q with descriptors := v }
  | .numEntries, v => { q with numEntries := v % 2 ^ 16 }
  | .cleanIndex, v => { q with cleanIndex := v % 2 ^ 16 }
  | .txIndex, v => { q with txIndex := v % 2 ^ 16 }
  | .virtualAddresses i, v => { q with virtualAddresses := Function.update q.virtualAddresses i v }

/-- `inc_and_wrap_ring`: the arithmetic is that of `int`, so a ring size of 0 gives the mask -1. -/
def incAndWrapRing (index ringSize : Nat) : Nat :=
  ((index + 1) &&& ((ringSize + (2 ^ 32 - 1)) % 2 ^ 32)) % 2 ^ 16

/-- The number of entries of a ring that passes the driver's power-of-two check. -/
structure RingSize where
  num : Nat
  exp : Nat
  num_eq : num = 2 ^ exp
  exp_le : exp ≤ 15

namespace RingSize

theorem pos (n : RingSize) : 0 < n.num := by
  rw [n.num_eq]
  exact Nat.two_pow_pos _

theorem lt (n : RingSize) : n.num < 2 ^ 16 := by
  rw [n.num_eq]
  exact Nat.pow_lt_pow_right (by omega) (by have := n.exp_le; omega)

theorem incAndWrapRing_mod (n : RingSize) (k : Nat) :
    incAndWrapRing (k % n.num) n.num = (k + 1) % n.num := by
  have hpos := n.pos
  have hlt := n.lt
  have hmask : (n.num + (2 ^ 32 - 1)) % 2 ^ 32 = n.num - 1 := by omega
  have hmod : (k + 1) % n.num < n.num := Nat.mod_lt _ hpos
  rw [incAndWrapRing, hmask, land_mask n.num_eq, succ_mod_mod, Nat.mod_eq_of_lt (by omega)]

theorem mod_lt (n : RingSize) (k : Nat) : k % n.num < 2 ^ 16 :=
  lt_trans (Nat.mod_lt _ n.pos) n.lt

/-- The check of `start_rx_queue` and `start_tx_queue` accepts a power of two. -/
theorem check (n : RingSize) : n.num &&& (n.num - 1) = 0 := by
  rw [land_mask n.num_eq, Nat.mod_self]

/-- The descriptor of counter `k` in the ring at `base`. -/
def addr (n : RingSize) (base k : Nat) : Nat := descAddr base (k % n.num)

theorem addr_ne {n : RingSize} {base a i j : Nat} (hi : a ≤ i) (hi' : i < a + n.num)
    (hj : a ≤ j) (hj' : j < a + n.num) (h : i ≠ j) : n.addr base i ≠ n.addr base j := by
  have hne := mod_ne hi hi' hj hj' h
  unfold addr descAddr
  omega

theorem addr_lap (n : RingSize) (base k : Nat) : n.addr base (k + n.num) = n.addr base k := by
  rw [addr, Nat.add_mod_right, addr]

end RingSize

/-- `NUM_RX_QUEUE_ENTRIES` and `NUM_TX_QUEUE_ENTRIES`. -/
def queueEntries : RingSize := ⟨1024, 10, rfl, by decide⟩

/-! ## The rings -/

/-- One write-back of the NIC on the receive ring: where it went, the packet's length, and whether
the driver had reset the descriptor since the write-back before. -/
structure RxWriteBack where
  slot : Nat
  length : Nat
  wasReset : Bool
  deriving DecidableEq, Repr

/-- The receive ring and its registers. -/
structure RxRing where
  desc : Nat → RxDesc
  /-- `RDBAL`, `RDBAH`: where the NIC finds the ring. -/
  base : Nat
  /-- `RDLEN`, in descriptors. -/
  len : Nat
  rdh : Nat
  rdt : Nat
  rxdctl : Nat
  /-- History: the address the driver last wrote to a descriptor. -/
  lastPosted : Nat → Nat
  /-- History: the driver has written an address since the last write-back of a descriptor. -/
  fresh : Nat → Bool
  /-- History: the write-backs of the NIC. -/
  wbs : List RxWriteBack

/-- A packet handed to the NIC by a write of `TDT`, as its header was then. -/
structure TxEntry where
  buf : Nat
  phy : Nat
  size : Nat
  pool : Nat
  deriving DecidableEq, Repr

/-- A descriptor fetched by the NIC, with the frame found at its address. -/
structure TxFetch where
  slot : Nat
  desc : TxDesc
  frame : List UInt8
  deriving DecidableEq, Repr

/-- The transmit ring and its registers. -/
structure TxRing where
  desc : Nat → TxDesc
  base : Nat
  len : Nat
  tdh : Nat
  tdt : Nat
  txdctl : Nat
  /-- History: the packets handed to the NIC. -/
  accepted : List TxEntry
  /-- The descriptors fetched so far, in order. -/
  fetched : List TxFetch
  /-- The fetched ones (by position) that the NIC has set `DD` for. -/
  completed : List Nat
  /-- History: the buffers freed by `ixgbe_tx_packet`, with the pool they went to. -/
  reclaimed : List (Nat × Nat)

/-- The slot at an index of a ring. -/
def RxRing.slot (r : RxRing) (i : Nat) : RxDesc := r.desc (descAddr r.base i)
def TxRing.slot (r : TxRing) (i : Nat) : TxDesc := r.desc (descAddr r.base i)

/-- The packets handed over and not yet freed. -/
def TxRing.inFlight (r : TxRing) : List TxEntry := r.accepted.drop r.reclaimed.length

/-- All slots but the spare one are in use, and the oldest packet has not been reported. -/
def TxRing.Jammed (r : TxRing) : Prop :=
  r.inFlight.length + 1 = r.len ∧ r.reclaimed.length ∉ r.completed

instance (r : TxRing) : Decidable r.Jammed := inferInstanceAs (Decidable (_ ∧ _))

/-- Store one quadword of a receive descriptor. -/
def RxRing.store (r : RxRing) (a : Nat) : RxWord → Nat → RxRing
  | .pktAddr, v =>
    { r with
      desc := Function.update r.desc a { r.desc a with lo := v }
      lastPosted := Function.update r.lastPosted a v
      fresh := Function.update r.fresh a true }
  | .hdrAddr, v => { r with desc := Function.update r.desc a { r.desc a with hi := v } }

/-- Store one word of a transmit descriptor. -/
def TxRing.store (r : TxRing) (a : Nat) : TxWord → Nat → TxRing
  | .bufferAddr, v => { r with desc := Function.update r.desc a { r.desc a with bufferAddr := v } }
  | .cmdTypeLen, v => { r with desc := Function.update r.desc a { r.desc a with cmdTypeLen := v } }
  | .olinfoStatus, v => { r with desc := Function.update r.desc a { r.desc a with olinfoStatus := v } }

/-- `IXGBE_RXDCTL_ENABLE`, `IXGBE_TXDCTL_ENABLE`. -/
def queueEnable : Nat := 0x02000000

/-- The NIC receives a packet: if the queue is enabled and not empty, it writes back the descriptor
at `RDH` and advances `RDH`. -/
def RxRing.receive (r : RxRing) (wb : RxDesc) : Option RxRing :=
  let a := descAddr r.base r.rdh
  if r.rxdctl &&& queueEnable ≠ 0 ∧ r.rdh ≠ r.rdt ∧ wb.dd ∧ wb.eop then
    some { r with
      desc := Function.update r.desc a wb
      rdh := (r.rdh + 1) % r.len
      fresh := Function.update r.fresh a false
      wbs := r.wbs ++ [⟨r.rdh, wb.length, r.fresh a && !(r.desc a).dd⟩] }
  else none

/-- The NIC fetches the descriptor at `TDH` and reads the frame (`dma` is its view of memory). -/
def TxRing.fetch (r : TxRing) (dma : Nat → Nat → List UInt8) : Option TxRing :=
  if r.tdh ≠ r.tdt then
    let d := r.desc (descAddr r.base r.tdh)
    some { r with
      tdh := (r.tdh + 1) % r.len
      fetched := r.fetched ++ [⟨r.tdh, d, dma d.bufferAddr d.dtalen⟩] }
  else none

/-- The NIC reports the `k`-th descriptor it fetched as done. -/
def TxRing.complete (r : TxRing) (k : Nat) (wb : TxDesc) : Option TxRing :=
  match r.fetched[k]? with
  | none => none
  | some f =>
    if k ∉ r.completed ∧ wb.dd then
      some { r with
        desc := Function.update r.desc (descAddr r.base f.slot) wb
        completed := k :: r.completed }
    else none

/-! ## State -/

/-- What a receiving application asks for: poll, or free a buffer it holds. -/
inductive RxCall where
  | rx
  | free (buf : Nat)
  deriving DecidableEq, Repr

/-- What a sending application asks for. `write` is any use it makes of memory. -/
inductive TxCall where
  | tx (buf : Nat)
  | alloc (pool : Nat)
  | free (buf : Nat)
  | write (m : Mem)

/-- A call of `ixgbe_tx_packet` that has returned: its buffer, its result, and how many packets were in
flight then. -/
structure TxResult where
  buf : Nat
  ret : Nat
  inFlight : Nat
  deriving DecidableEq, Repr

/-- The application's side, and what it is yet to be given. -/
structure App where
  /-- What `malloc` and `memory_allocate_dma` will answer to the next mempools. -/
  supply : List (Nat × DmaMemory)
  rxScript : List RxCall
  txScript : List TxCall
  /-- History: inside a driver function. -/
  busy : Bool
  /-- History: the buffers `ixgbe_rx_packet` has returned and the application has not freed. -/
  held : List Nat
  /-- History: the buffers `ixgbe_rx_packet` has returned, with their `size` then. -/
  delivered : List (Nat × Nat)
  /-- History: the calls of `ixgbe_tx_packet` that have returned. -/
  returned : List TxResult
  /-- History: the number of its calls that have begun with the ring jammed. -/
  jams : Nat

/-- The whole state. -/
structure Dev where
  w : World
  rxq : RxQueue
  txq : TxQueue
  rx : RxRing
  tx : TxRing
  app : App
  /-- The memory the NIC reaches at a physical address. -/
  dmaView : Nat → Nat

/-! ## Accesses of the driver -/

inductive Reg where
  | rdh
  | rdt
  | rxdctl
  | tdh
  | tdt
  | txdctl
  deriving DecidableEq, Repr

/-- Single accesses. `reclaim` is the call of `pkt_buf_free` in `ixgbe_tx_packet`, `free` any other;
from `nextRx` on they are the application's side of a call. -/
inductive Op where
  | rxLd (f : RxField)
  | rxSt (f : RxField) (v : Nat)
  | txLd (f : TxField)
  | txSt (f : TxField) (v : Nat)
  | bufLd (b : Nat) (f : PktBuf.Field)
  | bufSt (b : Nat) (f : PktBuf.Field) (v : Nat)
  | dataSt (b i : Nat) (v : UInt8)
  | poolNew (numEntries entrySize : Nat)
  | alloc (pool : Nat)
  | free (b : Nat)
  | reclaim (b : Nat)
  | rxDescStatus (a : Nat)
  | rxDescLd (a : Nat) (w : RxWord)
  | rxDescSt (a : Nat) (w : RxWord) (v : Nat)
  | txDescStatus (a : Nat)
  | txDescSt (a : Nat) (w : TxWord) (v : Nat)
  | getReg (r : Reg)
  | setReg (r : Reg) (v : Nat)
  | nextRx
  | nextTx
  | write (m : Mem)
  | idle
  | txCall
  | rxReturn (r : Option Nat)
  | txReturn (b r : Nat)

@[reducible] def Ret : Op → Type
  | .rxLd _ | .txLd _ | .bufLd _ _ | .rxDescStatus _ | .txDescStatus _ | .getReg _
  | .poolNew _ _ | .rxDescLd _ _ => Nat
  | .alloc _ => Option Nat
  | .nextRx => RxCall
  | .nextTx => TxCall
  | _ => Unit

namespace Dev

/-- A buffer as its header describes it to the NIC. -/
def entry (m : Mem) (b : Nat) : TxEntry :=
  { buf := b
    phy := PktBuf.get m b .bufAddrPhy
    size := PktBuf.get m b .size
    pool := PktBuf.get m b .mempool }

/-- The packets handed over when `TDT` goes from its old value to `v`. -/
def handedOver (s : Dev) (v : Nat) : List TxEntry :=
  (List.range (ringDist s.tx.len s.tx.tdt v)).map fun j =>
    entry s.w.mem (s.txq.virtualAddresses ((s.tx.tdt + j) % s.tx.len))

def getReg (s : Dev) : Reg → Nat
  | .rdh => s.rx.rdh
  | .rdt => s.rx.rdt
  | .rxdctl => s.rx.rxdctl
  | .tdh => s.tx.tdh
  | .tdt => s.tx.tdt
  | .txdctl => s.tx.txdctl

/-- `set_reg32`; writing `TDT` hands packets to the NIC. -/
def setReg (s : Dev) : Reg → Nat → Dev
  | .rdh, v => { s with rx := { s.rx with rdh := v } }
  | .rdt, v => { s with rx := { s.rx with rdt := v } }
  | .rxdctl, v => { s with rx := { s.rx with rxdctl := v } }
  | .tdh, v => { s with tx := { s.tx with tdh := v } }
  | .tdt, v => { s with tx := { s.tx with tdt := v, accepted := s.tx.accepted ++ s.handedOver v } }
  | .txdctl, v => { s with tx := { s.tx with txdctl := v } }

def setMem (s : Dev) (m : Mem) : Dev := { s with w := { s.w with mem := m } }

/-- The application frees a buffer. -/
def free (s : Dev) (b : Nat) : Dev :=
  { s with w := pktBufFree s.w b, app := { s.app with held := s.app.held.erase b } }

/-- A mempool has been made, which left the world `w`. -/
def pooled (s : Dev) (w : World) (rest : List (Nat × DmaMemory)) : Dev :=
  { s with w := w, app := { s.app with supply := rest } }

/-- `ixgbe_tx_packet` frees a buffer that has been sent. -/
def reclaim (s : Dev) (b : Nat) : Dev :=
  { s with
    w := pktBufFree s.w b
    tx := { s.tx with reclaimed := s.tx.reclaimed ++ [(b, PktBuf.get s.w.mem b .mempool)] } }

/-- The driver is done with a request. -/
def idle (s : Dev) : Dev := { s with app := { s.app with busy := false } }

def withJams (s : Dev) (j : Nat) : Dev := { s with app := { s.app with jams := j } }

/-- `ixgbe_tx_packet` is called. -/
def txCall (s : Dev) : Dev := s.withJams (s.app.jams + if s.tx.Jammed then 1 else 0)

/-- `ixgbe_rx_packet` has returned. -/
def rxReturn (s : Dev) (r : Option Nat) : Dev :=
  { s with app := { s.app with
      busy := false
      held := r.toList ++ s.app.held
      delivered := s.app.delivered ++ (r.toList.map fun b => (b, PktBuf.get s.w.mem b .size)) } }

/-- `ixgbe_tx_packet` has returned. -/
def txReturn (s : Dev) (b r : Nat) : Dev :=
  { s with app := { s.app with
      busy := false
      returned := s.app.returned ++ [⟨b, r, s.tx.inFlight.length⟩] } }

/-- What a sending application may do: it transmits buffers that are out of their pool, not with the
NIC and of a legal size, frees only what is out and not with the NIC, and leaves the pool, index and
physical address in the headers alone. -/
def Admits (s : Dev) : TxCall → Prop
  | .tx b => b ∈ s.w.out ∧ b ∉ s.tx.inFlight.map (·.buf) ∧ PktBuf.get s.w.mem b .size < 2 ^ 16
  | .alloc p => p ∈ s.w.live
  | .free b => b ∈ s.w.out ∧ b ∉ s.tx.inFlight.map (·.buf)
  | .write m => ∀ p ∈ s.w.live, ∀ i < (s.w.pools p).numEntries,
      ∀ f ∈ [PktBuf.Field.bufAddrPhy, .mempool, .mempoolIdx],
        PktBuf.get m ((s.w.pools p).entryAddr i) f = PktBuf.get s.w.mem ((s.w.pools p).entryAddr i) f

instance (s : Dev) : DecidablePred s.Admits
  | .tx b => inferInstanceAs (Decidable (b ∈ s.w.out ∧ _ ∧ _))
  | .alloc p => inferInstanceAs (Decidable (p ∈ s.w.live))
  | .free b => inferInstanceAs (Decidable (b ∈ s.w.out ∧ _))
  | .write _ => inferInstanceAs (Decidable (∀ p ∈ s.w.live, _))

end Dev

/-- Perform one access. The only accesses refused are a mempool that cannot be made (the process
exits then) and a request that the application may not make. -/
def exec : (o : Op) → Dev → Option (Ret o × Dev)
  | .rxLd f, s => some (s.rxq.get f, s)
  | .rxSt f v, s => some ((), { s with rxq := s.rxq.set f v })
  | .txLd f, s => some (s.txq.get f, s)
  | .txSt f v, s => some ((), { s with txq := s.txq.set f v })
  | .bufLd b f, s => some (PktBuf.get s.w.mem b f, s)
  | .bufSt b f v, s => some ((), s.setMem (PktBuf.set s.w.mem b f v))
  | .dataSt b i v, s => some ((), s.setMem (Function.update s.w.mem (b + PktBuf.dataOffset + i) v))
  | .poolNew numEntries entrySize, s =>
    match s.app.supply with
    | [] => none
    | (ptr, dma) :: rest =>
      some (ptr, { s with
        w := memoryAllocateMempool s.w ptr dma numEntries entrySize
        app := { s.app with supply := rest } })
  | .alloc pool, s => some ((pktBufAlloc s.w pool).1, { s with w := (pktBufAlloc s.w pool).2 })
  | .free b, s => some ((), s.free b)
  | .reclaim b, s => some ((), s.reclaim b)
  | .rxDescStatus a, s => some ((s.rx.desc a).statusError, s)
  | .rxDescLd a .pktAddr, s => some ((s.rx.desc a).lo, s)
  | .rxDescLd a .hdrAddr, s => some ((s.rx.desc a).hi, s)
  | .rxDescSt a w v, s => some ((), { s with rx := s.rx.store a w v })
  | .txDescStatus a, s => some ((s.tx.desc a).olinfoStatus, s)
  | .txDescSt a w v, s => some ((), { s with tx := s.tx.store a w v })
  | .getReg r, s => some (s.getReg r, s)
  | .setReg r v, s => some ((), s.setReg r v)
  | .nextRx, s =>
    match s.app.rxScript with
    | .rx :: cs => some (.rx, { s with app := { s.app with rxScript := cs, busy := true } })
    | .free b :: cs =>
      if b ∈ s.app.held then
        some (.free b, { s with app := { s.app with rxScript := cs, busy := true } })
      else none
    | [] => none
  | .nextTx, s =>
    match s.app.txScript with
    | c :: cs =>
      if s.Admits c then some (c, { s with app := { s.app with txScript := cs, busy := true } })
      else none
    | [] => none
  | .write m, s => some ((), s.setMem m)
  | .idle, s => some ((), s.idle)
  | .txCall, s => some ((), s.txCall)
  | .rxReturn r, s => some ((), s.rxReturn r)
  | .txReturn b r, s => some ((), s.txReturn b r)

theorem exec_poolNew {s s' : Dev} {numEntries entrySize ptr : Nat}
    (h : exec (.poolNew numEntries entrySize) s = some (ptr, s')) :
    ∃ dma rest, s.app.supply = (ptr, dma) :: rest ∧
      s' = s.pooled (memoryAllocateMempool s.w ptr dma numEntries entrySize) rest := by
  simp only [exec] at h
  split at h
  · cases h
  · rename_i dma rest hsup
    cases h
    exact ⟨dma, rest, hsup, rfl⟩

theorem exec_poolNew_of {s : Dev} {ptr : Nat} {dma : DmaMemory} {rest : List (Nat × DmaMemory)}
    (h : s.app.supply = (ptr, dma) :: rest) (numEntries entrySize : Nat) :
    exec (.poolNew numEntries entrySize) s =
      some (ptr, s.pooled (memoryAllocateMempool s.w ptr dma numEntries entrySize) rest) := by
  simp [exec, h, Dev.pooled]

/-- Driver code. -/
abbrev Code := Prog Op Ret

def rxLd (f : RxField) : Code Nat := Prog.access (Op.rxLd f)
def rxSt (f : RxField) (v : Nat) : Code Unit := Prog.access (Op.rxSt f v)
def txLd (f : TxField) : Code Nat := Prog.access (Op.txLd f)
def txSt (f : TxField) (v : Nat) : Code Unit := Prog.access (Op.txSt f v)
def bufLd (b : Nat) (f : PktBuf.Field) : Code Nat := Prog.access (Op.bufLd b f)
def bufSt (b : Nat) (f : PktBuf.Field) (v : Nat) : Code Unit := Prog.access (Op.bufSt b f v)
def alloc (pool : Nat) : Code (Option Nat) := Prog.access (Op.alloc pool)
def free (buf : Nat) : Code Unit := Prog.access (Op.free buf)
def rxDescLd (a : Nat) (w : RxWord) : Code Nat := Prog.access (Op.rxDescLd a w)
def rxDescSt (a : Nat) (w : RxWord) (v : Nat) : Code Unit := Prog.access (Op.rxDescSt a w v)
def txDescSt (a : Nat) (w : TxWord) (v : Nat) : Code Unit := Prog.access (Op.txDescSt a w v)
def getReg32 (r : Reg) : Code Nat := Prog.access (Op.getReg r)
def setReg32 (r : Reg) (v : Nat) : Code Unit := Prog.access (Op.setReg r v)

/-- `set_flags32`. -/
def setFlags32 (r : Reg) (flags : Nat) : Code Unit := do
  let v ← getReg32 r
  setReg32 r (v ||| flags)

/-- `wait_set_reg32`: poll until the flags are set. -/
def waitSetReg32 (r : Reg) (mask : Nat) : Code Unit :=
  Prog.iterate (fun _ : Unit => do
    let cur ← getReg32 r
    if cur &&& mask ≠ mask then return .inl () else return .inr ()) ()

theorem or_and_self_right (v q : Nat) : (v ||| q) &&& q = q := by
  apply Nat.eq_of_testBit_eq
  intro i
  rw [Nat.testBit_and, Nat.testBit_or]
  cases q.testBit i <;> simp

theorem evals_waitSetReg32 {S : Type} {exec : (o : Op) → S → Option (Ret o × S)} {r : Reg} {mask v : Nat} {s u : S}
    (hread : exec (.getReg r) s = some (v, u)) (hv : v &&& mask = mask) :
    Prog.Evals exec (waitSetReg32 r mask) s (.done () u) := by
  refine .loop_exit (b := ()) (.op hread ?_) (.ret () u)
  change Prog.Evals _ (if v &&& mask ≠ mask then _ else _) _ _
  rw [if_neg (not_not.mpr hv)]
  exact .ret _ _

/-- The state that `init_rx` and `init_tx` leave for rings of `n` entries: every byte of the
descriptors is `0xFF`. -/
def bootDev (n : Nat) (supply : List (Nat × DmaMemory)) (rxScript : List RxCall) : Dev where
  w := ⟨fun _ => 0, fun _ => ⟨0, 0, 0, 0, 0, fun _ => 0⟩, [], []⟩
  rxq := ⟨0x10000, 0, n, 0, fun _ => 0⟩
  txq := ⟨0x20000, n, 0, 0, fun _ => 0⟩
  rx := ⟨fun _ => ⟨2 ^ 64 - 1, 2 ^ 64 - 1⟩, 0x10000, n, 0, 0, 0, fun _ => 0, fun _ => false, []⟩
  tx := ⟨fun _ => ⟨2 ^ 64 - 1, 2 ^ 32 - 1, 2 ^ 32 - 1⟩, 0x20000, n, 0, 0, 0, [], [], [], []⟩
  app := ⟨supply, rxScript, [], true, [], [], [], 0⟩
  dmaView := id

/-! ## Moves of the NIC -/

/-- The `n` bytes found from physical address `p` upwards. -/
def dmaRead (view : Nat → Nat) (m : Mem) (p n : Nat) : List UInt8 :=
  (List.range n).map fun j => m (view (p + j))

/-- What the NIC can do with registers and descriptors. What it writes back is its own choice, as long as `DD` (and,
for received packets, `EOP`) is set. -/
inductive NicAct where
  | rxdctl (v : Nat)
  | txdctl (v : Nat)
  | receive (wb : RxDesc)
  | fetch
  | complete (k : Nat) (wb : TxDesc)

def nicStep : NicAct → Dev → Option Dev
  | .rxdctl v, s => some { s with rx := { s.rx with rxdctl := v } }
  | .txdctl v, s => some { s with tx := { s.tx with txdctl := v } }
  | .receive wb, s => (s.rx.receive wb).map fun r => { s with rx := r }
  | .fetch, s => (s.tx.fetch (dmaRead s.dmaView s.w.mem)).map fun r => { s with tx := r }
  | .complete k wb, s => (s.tx.complete k wb).map fun r => { s with tx := r }

/-- A frame written from physical address `p` upwards. -/
def dmaWrite (view : Nat → Nat) (m : Mem) (p : Nat) : List UInt8 → Mem
  | [] => m
  | b :: bs => dmaWrite view (Function.update m (view p) b) (p + 1) bs

/-- The address the next frame will be written to. -/
def Dev.postedAddr (s : Dev) : Nat := (s.rx.desc (descAddr s.rx.base s.rx.rdh)).lo

end Ixy
