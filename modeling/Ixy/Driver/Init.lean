import Ixy.Lib.Run
import Ixy.Driver.QueueArea
import Ixy.Driver.Registers

/-!
# Initialisation (`ixgbe_init`, `reset_and_init`)

The whole register programming of the driver, up to the queues that are handed to the card. The card is any function
that answers a read from the history of all accesses (`Card`). The queue structs are records of their own here; that
they lie in each other's memory is the subject of `Ixy.Driver.QueueArea`.

`init_tx` and both calls of `calloc` count the receive queues. So when `ixgbe_init` returns, every queue has been
configured before it was enabled exactly if there are not more transmit than receive queues
(`Driver.ixgbeInit_safe`; `Ixy.Driver.Startup` has the result and the card for which it returns).
-/

namespace Ixy

open Lib

/-! ## The functions -/

namespace Driver

/-- The body of the loop of `init_rx`. -/
def initRxQueue (i : Nat) : DriverCode Unit := do
  let v ← getReg32 (Ixgbe.srrctl i)
  setReg32 (Ixgbe.srrctl i) (maskOut v Ixgbe.srrctlDesctypeMask ||| Ixgbe.srrctlDesctypeAdvOnebuf)
  setFlags32 (Ixgbe.srrctl i) Ixgbe.srrctlDropEn
  -- setup descriptor ring
  let ringSizeBytes := queueEntries.num * 16
  let mem ← Prog.access (DriverOp.allocateDma ringSizeBytes)
  Prog.access (DriverOp.memset mem.virt ringSizeBytes)
  setReg32 (Ixgbe.rdbal i) (mem.phy % 2 ^ 32)
  setReg32 (Ixgbe.rdbah i) (mem.phy / 2 ^ 32 % 2 ^ 32)
  setReg32 (Ixgbe.rdlen i) ringSizeBytes
  -- set ring to empty at start
  setReg32 (Ixgbe.rdh i) 0
  setReg32 (Ixgbe.rdt i) 0
  onQueue i do
    rxSt .numEntries queueEntries.num
    rxSt .rxIndex 0
    rxSt .descriptors mem.virt

/-- `init_rx`. -/
def initRx (rxQueues : Nat) : DriverCode Unit := do
  clearFlags32 Ixgbe.rxctrl Ixgbe.rxctrlRxen
  setReg32 (Ixgbe.rxpbsize 0) Ixgbe.rxpbsize128kb
  Prog.forRange 1 8 fun i => setReg32 (Ixgbe.rxpbsize i) 0
  setFlags32 Ixgbe.hlreg0 Ixgbe.hlreg0Rxcrcstrp
  setFlags32 Ixgbe.rdrxctl Ixgbe.rdrxctlCrcstrip
  -- accept broadcast packets
  setFlags32 Ixgbe.fctrl Ixgbe.fctrlBam
  Prog.forRange 0 rxQueues initRxQueue
  setFlags32 Ixgbe.ctrlExt Ixgbe.ctrlExtNsDis
  Prog.forRange 0 rxQueues fun i => clearFlags32 (Ixgbe.dcaRxctrl i) (1 <<< 12)
  -- start RX
  setFlags32 Ixgbe.rxctrl Ixgbe.rxctrlRxen

/-- The thresholds of a transmit queue. -/
def txThresholds (txdctl : Nat) : Nat := txdctl ||| (36 &&& 0x7F) ||| ((8 &&& 0x7F) <<< 8) ||| ((4 &&& 0x7F) <<< 16)

/-- The body of the loop of `init_tx`, where the two drivers set different thresholds. -/
def initTxQueueWith (thresholds : Nat → Nat) (i : Nat) : DriverCode Unit := do
  -- setup descriptor ring
  let ringSizeBytes := queueEntries.num * 16
  let mem ← Prog.access (DriverOp.allocateDma ringSizeBytes)
  Prog.access (DriverOp.memset mem.virt ringSizeBytes)
  setReg32 (Ixgbe.tdbal i) (mem.phy % 2 ^ 32)
  setReg32 (Ixgbe.tdbah i) (mem.phy / 2 ^ 32 % 2 ^ 32)
  setReg32 (Ixgbe.tdlen i) ringSizeBytes
  let txdctl ← getReg32 (Ixgbe.txdctl i)
  setReg32 (Ixgbe.txdctl i) (thresholds txdctl)
  onQueue i do
    txSt .numEntries queueEntries.num
    txSt .descriptors mem.virt

def initTxWith (thresholds : Nat → Nat) (rxQueues : Nat) : DriverCode Unit := do
  -- crc offload and small packet padding
  setFlags32 Ixgbe.hlreg0 (Ixgbe.hlreg0Txcrcen ||| Ixgbe.hlreg0Txpaden)
  setReg32 (Ixgbe.txpbsize 0) Ixgbe.txpbsize40kb
  Prog.forRange 1 8 fun i => setReg32 (Ixgbe.txpbsize i) 0
  -- required when not using DCB/VTd
  setReg32 Ixgbe.dtxmxszrq 0xFFFF
  clearFlags32 Ixgbe.rttdcs Ixgbe.rttdcsArbdis
  Prog.forRange 0 rxQueues (initTxQueueWith thresholds)
  -- final step: enable DMA
  setReg32 Ixgbe.dmatxctl Ixgbe.dmatxctlTe

/-- `init_tx`. Its loop counts the receive queues. -/
def initTx (rxQueues : Nat) : DriverCode Unit := initTxWith txThresholds rxQueues

/-- `reset_and_init` up to the link: reset the card and wait until it is ready. -/
def reset : DriverCode Unit := do
  printAddr
  setReg32 Ixgbe.eimc 0x7FFFFFFF
  setReg32 Ixgbe.ctrl Ixgbe.ctrlRstMask
  waitClearReg32 Ixgbe.ctrl Ixgbe.ctrlRstMask
  setReg32 Ixgbe.eimc 0x7FFFFFFF
  printAddr
  waitSetReg32 Ixgbe.eec Ixgbe.eecArd
  waitSetReg32 Ixgbe.rdrxctl Ixgbe.rdrxctlDmaidone

/-- `reset_and_init`, given the functions in which the two drivers differ. -/
def resetAndInitWith (link : DriverCode Unit) (thresholds : Nat → Nat) (order : ReadOrder)
    (rxQueues txQueues : Nat) : DriverCode Unit := do
  reset
  link
  -- reset-on-read registers, just read them once
  ixgbeReadStats order none
  initRx rxQueues
  initTxWith thresholds rxQueues
  -- enables queues after initializing everything
  Prog.forRange 0 rxQueues fun i => onQueue i startRxQueue
  Prog.forRange 0 txQueues fun i => onQueue i startTxQueue
  ixgbeSetPromisc true
  waitForLink

/-- `reset_and_init`. -/
def resetAndInit (order : ReadOrder) (rxQueues txQueues : Nat) : DriverCode Unit :=
  resetAndInitWith initLink txThresholds order rxQueues txQueues

/-- `ixgbe_init`. Both areas are for `rx_queues` queues. -/
def ixgbeInit (order : ReadOrder) (rxQueues txQueues : Nat) : DriverCode Unit := do
  if rxQueues > maxQueues then .abort s!"cannot configure {rxQueues} rx queues: limit is {maxQueues}"
  else if txQueues > maxQueues then .abort s!"cannot configure {txQueues} tx queues: limit is {maxQueues}"
  else do
    Prog.access (DriverOp.calloc rxQueues rxQueues)
    resetAndInit order rxQueues txQueues

end Driver

/-! ## The card and the driver's memory -/

/-- What the driver does to the card and to the memory that it shares with it. -/
inductive Access where
  | readReg (reg : Nat)
  | writeReg (reg v : Nat)
  | readRxStatus (a : Nat)
  | readRxDesc (a : Nat) (w : RxWord)
  | writeRxDesc (a : Nat) (w : RxWord) (v : Nat)
  | readTxDesc (a : Nat)
  | writeTxDesc (a : Nat) (w : TxWord) (v : Nat)
  | fill (virt size : Nat)
  deriving DecidableEq, Repr

/-- How a card behaves: what it answers after a history of accesses, and what it has made of the descriptors. -/
structure Card where
  reg : List Access → Nat → Nat
  rxDesc : List Access → Nat → RxDesc
  txDesc : List Access → Nat → TxDesc

structure DriverState where
  w : World
  /-- What `memory_allocate_mempool` and `memory_allocate_dma` will answer. -/
  poolSupply : List (Nat × DmaMemory)
  ringSupply : List DmaMemory
  /-- How many queues there is memory for. -/
  rxAllocated : Nat
  txAllocated : Nat
  rxq : Nat → RxQueue
  txq : Nat → TxQueue
  stats : Nat → StatsField → Nat
  /-- History: all accesses so far. -/
  log : List Access

namespace DriverState

def record (s : DriverState) (a : Access) : DriverState := { s with log := s.log ++ [a] }

@[simp] theorem record_txq (s : DriverState) (a : Access) : (s.record a).txq = s.txq := rfl

def setRxq (s : DriverState) (i : Nat) (f : RxField) (v : Nat) : DriverState :=
  { s with rxq := Function.update s.rxq i ((s.rxq i).set f v) }

@[simp] theorem setRxq_self (s : DriverState) (i : Nat) (f : RxField) (v : Nat) :
    (s.setRxq i f v).rxq i = (s.rxq i).set f v := Function.update_self _ _ _

def setTxq (s : DriverState) (i : Nat) (f : TxField) (v : Nat) : DriverState :=
  { s with txq := Function.update s.txq i ((s.txq i).set f v) }

@[simp] theorem setTxq_self (s : DriverState) (i : Nat) (f : TxField) (v : Nat) :
    (s.setTxq i f v).txq i = (s.txq i).set f v := Function.update_self _ _ _

/-- The areas from `calloc`. What is behind them is whatever was there. -/
def calloc (s : DriverState) (rxQueues txQueues : Nat) : DriverState :=
  { s with
    rxAllocated := rxQueues
    txAllocated := txQueues
    rxq := fun i => if i < rxQueues then ⟨0, 0, 0, 0, fun _ => 0⟩ else s.rxq i
    txq := fun i => if i < txQueues then ⟨0, 0, 0, 0, fun _ => 0⟩ else s.txq i }

end DriverState

section
variable (card : Card)

/-- The accesses of a function that works on queue `i`. -/
def execOnQueue (i : Nat) : (o : Op) → DriverState → Option (Ret o × DriverState)
  | .rxLd f, s => some ((s.rxq i).get f, s)
  | .rxSt f v, s => some ((), s.setRxq i f v)
  | .txLd f, s => some ((s.txq i).get f, s)
  | .txSt f v, s => some ((), s.setTxq i f v)
  | .bufLd b f, s => some (PktBuf.get s.w.mem b f, s)
  | .bufSt b f v, s => some ((), { s with w := { s.w with mem := PktBuf.set s.w.mem b f v } })
  | .poolNew numEntries entrySize, s =>
    match s.poolSupply with
    | [] => none
    | (ptr, dma) :: rest =>
      some (ptr, { s with w := memoryAllocateMempool s.w ptr dma numEntries entrySize, poolSupply := rest })
  | .alloc pool, s => some ((pktBufAlloc s.w pool).1, { s with w := (pktBufAlloc s.w pool).2 })
  | .free b, s => some ((), { s with w := pktBufFree s.w b })
  | .reclaim b, s => some ((), { s with w := pktBufFree s.w b })
  | .rxDescStatus a, s => some ((card.rxDesc s.log a).statusError, s.record (.readRxStatus a))
  | .rxDescLd a .pktAddr, s => some ((card.rxDesc s.log a).lo, s.record (.readRxDesc a .pktAddr))
  | .rxDescLd a .hdrAddr, s => some ((card.rxDesc s.log a).hi, s.record (.readRxDesc a .hdrAddr))
  | .rxDescSt a w v, s => some ((), s.record (.writeRxDesc a w v))
  | .txDescStatus a, s => some ((card.txDesc s.log a).olinfoStatus, s.record (.readTxDesc a))
  | .txDescSt a w v, s => some ((), s.record (.writeTxDesc a w v))
  | .getReg r, s => some (card.reg s.log (r.offset i) % 2 ^ 32, s.record (.readReg (r.offset i)))
  | .setReg r v, s => some ((), s.record (.writeReg (r.offset i) v))
  | _, _ => none

def execDriver : (o : DriverOp) → DriverState → Option (DriverRet o × DriverState)
  | .getReg32 reg, s => some (card.reg s.log reg % 2 ^ 32, s.record (.readReg reg))
  | .setReg32 reg v, s => some ((), s.record (.writeReg reg v))
  | .on i o, s => execOnQueue card i o s
  | .calloc rxQueues txQueues, s => some ((), s.calloc rxQueues txQueues)
  | .allocateDma _, s =>
    match s.ringSupply with
    | [] => none
    | mem :: rest => some (mem, { s with ringSupply := rest })
  | .memset virt size, s => some ((), s.record (.fill virt size))
  | .addStats i f v, s =>
    some ((), { s with
      stats := Function.update s.stats i (Function.update (s.stats i) f ((s.stats i f + v) % 2 ^ 64)) })
  | .clearStats i f, s =>
    some ((), { s with stats := Function.update s.stats i (Function.update (s.stats i) f 0) })
  | .discard _, s => some ((), s)

end

/-! ## Queues are configured before they are enabled -/

def enablesRx (i : Nat) : Access → Prop
  | .writeReg reg v => reg = Ixgbe.rxdctl i ∧ v &&& queueEnable ≠ 0
  | _ => False

def enablesTx (i : Nat) : Access → Prop
  | .writeReg reg v => reg = Ixgbe.txdctl i ∧ v &&& queueEnable ≠ 0
  | _ => False

/-- Descriptors are handed to the card. -/
def advancesRdt (i : Nat) : Access → Prop
  | .writeReg reg v => reg = Ixgbe.rdt i ∧ v ≠ 0
  | _ => False

/-- The card has been told where the ring is. -/
def RxProgrammed (i : Nat) (mem : DmaMemory) (l : List Access) : Prop :=
  .writeReg (Ixgbe.rdbal i) (mem.phy % 2 ^ 32) ∈ l ∧ .writeReg (Ixgbe.rdbah i) (mem.phy / 2 ^ 32 % 2 ^ 32) ∈ l ∧
    .writeReg (Ixgbe.rdlen i) (queueEntries.num * 16) ∈ l

def TxProgrammed (i : Nat) (mem : DmaMemory) (l : List Access) : Prop :=
  .writeReg (Ixgbe.tdbal i) (mem.phy % 2 ^ 32) ∈ l ∧ .writeReg (Ixgbe.tdbah i) (mem.phy / 2 ^ 32 % 2 ^ 32) ∈ l ∧
    .writeReg (Ixgbe.tdlen i) (queueEntries.num * 16) ∈ l

/-- A buffer has been posted in each of the first `n` descriptors. -/
def Posted (virt n : Nat) (l : List Access) : Prop :=
  ∀ j < n, (∃ phy, .writeRxDesc (descAddr virt j) .pktAddr phy ∈ l) ∧ .writeRxDesc (descAddr virt j) .hdrAddr 0 ∈ l

structure RxCovered (i : Nat) (mem : DmaMemory) (s : DriverState) : Prop where
  inside : i < s.rxAllocated
  numEntries : (s.rxq i).numEntries = queueEntries.num
  rxIndex : (s.rxq i).rxIndex = 0
  descriptors : (s.rxq i).descriptors = mem.virt
  enabled : ∃ a ∈ s.log, enablesRx i a
  ring : Before s.log (enablesRx i) (RxProgrammed i mem)
  started : .writeReg (Ixgbe.rdt i) (queueEntries.num - 1) ∈ s.log
  posted : Before s.log (advancesRdt i) fun l => RxProgrammed i mem l ∧ Posted mem.virt queueEntries.num l

structure TxCovered (i : Nat) (mem : DmaMemory) (s : DriverState) : Prop where
  inside : i < s.txAllocated
  numEntries : (s.txq i).numEntries = queueEntries.num
  cleanIndex : (s.txq i).cleanIndex = 0
  txIndex : (s.txq i).txIndex = 0
  descriptors : (s.txq i).descriptors = mem.virt
  enabled : ∃ a ∈ s.log, enablesTx i a
  ring : Before s.log (enablesTx i) (TxProgrammed i mem)

/-- Every queue has a ring of its own, and no queue is enabled without one. `rings` are the blocks that
`memory_allocate_dma` answers with. -/
structure InitCovers (rings : List DmaMemory) (rxQueues txQueues : Nat) (s : DriverState) : Prop where
  rx : ∀ i < rxQueues, ∃ mem, rings[i]? = some mem ∧ RxCovered i mem s
  tx : ∀ i < txQueues, ∃ mem, rings[rxQueues + i]? = some mem ∧ TxCovered i mem s
  rxRings : ∀ i < maxQueues, Before s.log (enablesRx i) fun l => ∃ mem ∈ rings, RxProgrammed i mem l
  txRings : ∀ i < maxQueues, Before s.log (enablesTx i) fun l => ∃ mem ∈ rings, TxProgrammed i mem l

/-! ## What the initialisation has done so far -/

structure RxConf (i : Nat) (mem : DmaMemory) (s : DriverState) : Prop where
  numEntries : (s.rxq i).numEntries = queueEntries.num
  rxIndex : (s.rxq i).rxIndex = 0
  descriptors : (s.rxq i).descriptors = mem.virt
  ring : RxProgrammed i mem s.log

structure TxConf (i : Nat) (mem : DmaMemory) (s : DriverState) : Prop where
  numEntries : (s.txq i).numEntries = queueEntries.num
  descriptors : (s.txq i).descriptors = mem.virt
  ring : TxProgrammed i mem s.log

/-- The first `k` receive and `l` transmit queues have been configured, and the first `m` and `n` of them enabled. -/
structure InitAt (rings : List DmaMemory) (queues k l m n : Nat) (s : DriverState) : Prop where
  rxAllocated : s.rxAllocated = queues
  txAllocated : s.txAllocated = queues
  txZero : ∀ i < queues, (s.txq i).cleanIndex = 0 ∧ (s.txq i).txIndex = 0
  rxConf : ∀ i < k, ∃ mem, rings[i]? = some mem ∧ RxConf i mem s
  txConf : ∀ i < l, ∃ mem, rings[queues + i]? = some mem ∧ TxConf i mem s
  rxEnabled : ∀ i < m, (∃ a ∈ s.log, enablesRx i a) ∧ .writeReg (Ixgbe.rdt i) (queueEntries.num - 1) ∈ s.log
  txEnabled : ∀ i < n, ∃ a ∈ s.log, enablesTx i a
  rxOrder : ∀ i < maxQueues, Before s.log (enablesRx i) fun l => ∃ mem, rings[i]? = some mem ∧ RxProgrammed i mem l
  rdtOrder : ∀ i < maxQueues, Before s.log (advancesRdt i) fun l =>
    ∃ mem, rings[i]? = some mem ∧ RxProgrammed i mem l ∧ Posted mem.virt queueEntries.num l
  txOrder : ∀ i < maxQueues, Before s.log (enablesTx i) fun l =>
    ∃ mem, rings[queues + i]? = some mem ∧ TxProgrammed i mem l

section
variable {rings : List DmaMemory} {queues k l m n i : Nat} {mem : DmaMemory} {s : DriverState} {a : Access}

theorem RxProgrammed.concat {l : List Access} (h : RxProgrammed i mem l) (a : Access) : RxProgrammed i mem (l ++ [a]) :=
  ⟨List.mem_append_left _ h.1, List.mem_append_left _ h.2.1, List.mem_append_left _ h.2.2⟩

theorem TxProgrammed.concat {l : List Access} (h : TxProgrammed i mem l) (a : Access) : TxProgrammed i mem (l ++ [a]) :=
  ⟨List.mem_append_left _ h.1, List.mem_append_left _ h.2.1, List.mem_append_left _ h.2.2⟩

theorem RxProgrammed.written (i : Nat) (mem : DmaMemory) (l : List Access) :
    RxProgrammed i mem (l ++ [.writeReg (Ixgbe.rdbal i) (mem.phy % 2 ^ 32)] ++
      [.writeReg (Ixgbe.rdbah i) (mem.phy / 2 ^ 32 % 2 ^ 32)] ++
      [.writeReg (Ixgbe.rdlen i) (queueEntries.num * 16)]) := by
  simp [RxProgrammed]

theorem TxProgrammed.written (i : Nat) (mem : DmaMemory) (l : List Access) :
    TxProgrammed i mem (l ++ [.writeReg (Ixgbe.tdbal i) (mem.phy % 2 ^ 32)] ++
      [.writeReg (Ixgbe.tdbah i) (mem.phy / 2 ^ 32 % 2 ^ 32)] ++
      [.writeReg (Ixgbe.tdlen i) (queueEntries.num * 16)]) := by
  simp [TxProgrammed]

namespace InitAt

theorem record (h : InitAt rings queues k l m n s)
    (hrx : ∀ i < maxQueues, enablesRx i a → i < k) (htx : ∀ i < maxQueues, enablesTx i a →
      ∃ mem, rings[queues + i]? = some mem ∧ TxProgrammed i mem s.log)
    (hrdt : ∀ i < maxQueues, advancesRdt i a →
      ∃ mem, rings[i]? = some mem ∧ RxProgrammed i mem s.log ∧ Posted mem.virt queueEntries.num s.log) :
    InitAt rings queues k l m n (s.record a) := by
  refine ⟨h.rxAllocated, h.txAllocated, h.txZero, fun i hi => ?_, fun i hi => ?_, fun i hi => ?_, fun i hi => ?_,
    fun i hi => (h.rxOrder i hi).concat fun ha => ?_, fun i hi => (h.rdtOrder i hi).concat (hrdt i hi),
    fun i hi => (h.txOrder i hi).concat (htx i hi)⟩
  · obtain ⟨mem, hmem, hconf⟩ := h.rxConf i hi
    exact ⟨mem, hmem, hconf.numEntries, hconf.rxIndex, hconf.descriptors, hconf.ring.concat a⟩
  · obtain ⟨mem, hmem, hconf⟩ := h.txConf i hi
    exact ⟨mem, hmem, hconf.numEntries, hconf.descriptors, hconf.ring.concat a⟩
  · obtain ⟨⟨b, hb, hen⟩, hrdt⟩ := h.rxEnabled i hi
    exact ⟨⟨b, List.mem_append_left _ hb, hen⟩, List.mem_append_left _ hrdt⟩
  · obtain ⟨b, hb, hen⟩ := h.txEnabled i hi
    exact ⟨b, List.mem_append_left _ hb, hen⟩
  · obtain ⟨mem, hmem, hconf⟩ := h.rxConf i (hrx i hi ha)
    exact ⟨mem, hmem, hconf.ring⟩

theorem frame (h : InitAt rings queues k l m n s) (w : World) (poolSupply : List (Nat × DmaMemory))
    (ringSupply : List DmaMemory) :
    InitAt rings queues k l m n { s with w := w, poolSupply := poolSupply, ringSupply := ringSupply } :=
  ⟨h.rxAllocated, h.txAllocated, h.txZero,
    fun i hi => (h.rxConf i hi).imp fun _ hc => ⟨hc.1, hc.2.1, hc.2.2, hc.2.3, hc.2.4⟩,
    fun i hi => (h.txConf i hi).imp fun _ hc => ⟨hc.1, hc.2.1, hc.2.2, hc.2.3⟩,
    h.rxEnabled, h.txEnabled, h.rxOrder, h.rdtOrder, h.txOrder⟩

/-- A queue that is not configured yet may be changed, and one that is may get a pool and buffers. -/
theorem setRxq (h : InitAt rings queues k l m n s) {f : RxField} {v : Nat}
    (hf : i < k → f = .mempool ∨ ∃ j, f = .virtualAddresses j) : InitAt rings queues k l m n (s.setRxq i f v) := by
  refine ⟨h.rxAllocated, h.txAllocated, h.txZero, fun j hj => ?_,
    fun i hi => (h.txConf i hi).imp fun _ hc => ⟨hc.1, hc.2.1, hc.2.2, hc.2.3⟩, h.rxEnabled, h.txEnabled, h.rxOrder,
    h.rdtOrder, h.txOrder⟩
  obtain ⟨mem, hmem, hconf⟩ := h.rxConf j hj
  have hq : (s.setRxq i f v).rxq j = if j = i then (s.rxq i).set f v else s.rxq j := Function.update_apply _ _ _ _
  refine ⟨mem, hmem, ?_⟩
  by_cases hji : j = i
  · subst hji
    rw [if_pos rfl] at hq
    refine ⟨?_, ?_, ?_, hconf.ring⟩
    all_goals
      rw [hq]
      rcases hf hj with rfl | ⟨i, rfl⟩
    · exact hconf.numEntries
    · exact hconf.numEntries
    · exact hconf.rxIndex
    · exact hconf.rxIndex
    · exact hconf.descriptors
    · exact hconf.descriptors
  · rw [if_neg hji] at hq
    refine ⟨?_, ?_, ?_, hconf.ring⟩
    all_goals rw [hq]
    · exact hconf.numEntries
    · exact hconf.rxIndex
    · exact hconf.descriptors

theorem setTxq (h : InitAt rings queues k l m n s) {f : TxField} {v : Nat} (hi : l ≤ i)
    (hf : f = .numEntries ∨ f = .descriptors) : InitAt rings queues k l m n (s.setTxq i f v) := by
  have hq : ∀ j, (s.setTxq i f v).txq j = if j = i then (s.txq i).set f v else s.txq j :=
    fun j => Function.update_apply _ _ _ _
  refine ⟨h.rxAllocated, h.txAllocated, fun j hj => ?_,
    fun i hi => (h.rxConf i hi).imp fun _ hc => ⟨hc.1, hc.2.1, hc.2.2, hc.2.3, hc.2.4⟩, fun j hj => ?_,
    h.rxEnabled, h.txEnabled, h.rxOrder, h.rdtOrder, h.txOrder⟩
  · rw [hq]
    split
    · rename_i hji
      subst hji
      rcases hf with rfl | rfl
      · exact h.txZero j hj
      · exact h.txZero j hj
    · exact h.txZero j hj
  · obtain ⟨mem, hmem, hconf⟩ := h.txConf j hj
    have hji : j ≠ i := by omega
    have hqj := hq j
    rw [if_neg hji] at hqj
    refine ⟨mem, hmem, ?_, ?_, hconf.ring⟩
    · rw [hqj]
      exact hconf.numEntries
    · rw [hqj]
      exact hconf.descriptors

theorem addRx (h : InitAt rings queues k l m n s) (hmem : rings[k]? = some mem) (hconf : RxConf k mem s) :
    InitAt rings queues (k + 1) l m n s := by
  refine ⟨h.rxAllocated, h.txAllocated, h.txZero, fun i hi => ?_, h.txConf, h.rxEnabled, h.txEnabled, h.rxOrder,
    h.rdtOrder, h.txOrder⟩
  rcases Nat.lt_succ_iff_lt_or_eq.mp hi with hi | rfl
  · exact h.rxConf i hi
  · exact ⟨mem, hmem, hconf⟩

theorem addTx (h : InitAt rings queues k l m n s) (hmem : rings[queues + l]? = some mem) (hconf : TxConf l mem s) :
    InitAt rings queues k (l + 1) m n s := by
  refine ⟨h.rxAllocated, h.txAllocated, h.txZero, h.rxConf, fun i hi => ?_, h.rxEnabled, h.txEnabled, h.rxOrder,
    h.rdtOrder, h.txOrder⟩
  rcases Nat.lt_succ_iff_lt_or_eq.mp hi with hi | rfl
  · exact h.txConf i hi
  · exact ⟨mem, hmem, hconf⟩

theorem addRxEnabled (h : InitAt rings queues k l m n s) (hen : ∃ a ∈ s.log, enablesRx m a)
    (hrdt : .writeReg (Ixgbe.rdt m) (queueEntries.num - 1) ∈ s.log) : InitAt rings queues k l (m + 1) n s := by
  refine ⟨h.rxAllocated, h.txAllocated, h.txZero, h.rxConf, h.txConf, fun i hi => ?_, h.txEnabled, h.rxOrder,
    h.rdtOrder, h.txOrder⟩
  rcases Nat.lt_succ_iff_lt_or_eq.mp hi with hi | rfl
  · exact h.rxEnabled i hi
  · exact ⟨hen, hrdt⟩

theorem addTxEnabled (h : InitAt rings queues k l m n s) (hen : ∃ a ∈ s.log, enablesTx n a) :
    InitAt rings queues k l m (n + 1) s := by
  refine ⟨h.rxAllocated, h.txAllocated, h.txZero, h.rxConf, h.txConf, h.rxEnabled, fun i hi => ?_, h.rxOrder,
    h.rdtOrder, h.txOrder⟩
  rcases Nat.lt_succ_iff_lt_or_eq.mp hi with hi | rfl
  · exact h.txEnabled i hi
  · exact hen

end InitAt

/-! ## Quiet accesses -/

/-- A register that enables nothing. -/
def QuietReg (reg : Nat) : Prop := ∀ i < maxQueues, reg ≠ Ixgbe.rxdctl i ∧ reg ≠ Ixgbe.txdctl i ∧ reg ≠ Ixgbe.rdt i

theorem rxBlock_eq (hi : i < maxQueues) (offset : Nat) : Ixgbe.rxBlock i offset = 0x01000 + offset + i * 0x40 :=
  if_pos hi

theorem quietReg_of_outside {reg : Nat} (hrx : reg < 0x1000 ∨ 0x2000 ≤ reg) (htx : reg < 0x6000 ∨ 0x7000 ≤ reg) :
    QuietReg reg := by
  intro i hi
  rw [Ixgbe.rxdctl, Ixgbe.rdt, rxBlock_eq hi, rxBlock_eq hi, Ixgbe.txdctl]
  unfold maxQueues at hi
  omega

theorem quietReg_rxBlock (hi : i < maxQueues) (offset : Nat) (hoffset : offset < 0x40) (hrdt : offset ≠ 0x18)
    (hrxdctl : offset ≠ 0x28) : QuietReg (Ixgbe.rxBlock i offset) := by
  intro j hj
  rw [rxBlock_eq hi, Ixgbe.rxdctl, Ixgbe.rdt, rxBlock_eq hj, rxBlock_eq hj, Ixgbe.txdctl]
  unfold maxQueues at hi hj
  omega

theorem quietReg_txBlock (hi : i < maxQueues) (offset : Nat) (hoffset : offset < 0x40) (htxdctl : offset ≠ 0x28) :
    QuietReg (0x06000 + offset + i * 0x40) := by
  intro j hj
  rw [Ixgbe.rxdctl, Ixgbe.rdt, rxBlock_eq hj, rxBlock_eq hj, Ixgbe.txdctl]
  unfold maxQueues at hi hj
  omega

theorem rdt_ne {j : Nat} (hi : i < maxQueues) (hj : j < maxQueues) :
    Ixgbe.rdt i ≠ Ixgbe.rxdctl j ∧ Ixgbe.rdt i ≠ Ixgbe.txdctl j ∧ (Ixgbe.rdt i = Ixgbe.rdt j → i = j) := by
  rw [Ixgbe.rdt, Ixgbe.rdt, Ixgbe.rxdctl, rxBlock_eq hi, rxBlock_eq hj, rxBlock_eq hj, Ixgbe.txdctl]
  unfold maxQueues at hi hj
  omega

theorem rxdctl_ne {j : Nat} (hi : i < maxQueues) (hj : j < maxQueues) :
    Ixgbe.rxdctl i ≠ Ixgbe.rdt j ∧ Ixgbe.rxdctl i ≠ Ixgbe.txdctl j ∧ (Ixgbe.rxdctl i = Ixgbe.rxdctl j → i = j) := by
  rw [Ixgbe.rdt, Ixgbe.rxdctl, Ixgbe.rxdctl, rxBlock_eq hi, rxBlock_eq hj, rxBlock_eq hj, Ixgbe.txdctl]
  unfold maxQueues at hi hj
  omega

theorem txdctl_ne {j : Nat} (hi : i < maxQueues) (hj : j < maxQueues) :
    Ixgbe.txdctl i ≠ Ixgbe.rdt j ∧ Ixgbe.txdctl i ≠ Ixgbe.rxdctl j ∧ (Ixgbe.txdctl i = Ixgbe.txdctl j → i = j) := by
  rw [Ixgbe.rdt, Ixgbe.rxdctl, rxBlock_eq hj, rxBlock_eq hj, Ixgbe.txdctl, Ixgbe.txdctl]
  unfold maxQueues at hi hj
  omega

/-- An access that enables nothing and hands nothing over. -/
def Quiet (a : Access) : Prop := ∀ i < maxQueues, ¬ enablesRx i a ∧ ¬ enablesTx i a ∧ ¬ advancesRdt i a

theorem QuietReg.quiet {reg : Nat} (h : QuietReg reg) (v : Nat) : Quiet (.writeReg reg v) :=
  fun i hi => ⟨fun he => (h i hi).1 he.1, fun he => (h i hi).2.1 he.1, fun he => (h i hi).2.2 he.1⟩

theorem quiet_rdt_zero (hi : i < maxQueues) : Quiet (.writeReg (Ixgbe.rdt i) 0) :=
  fun _ hj => ⟨fun he => (rdt_ne hi hj).1 he.1, fun he => (rdt_ne hi hj).2.1 he.1, fun he => he.2 rfl⟩

theorem InitAt.quiet (h : InitAt rings queues k l m n s) (ha : Quiet a) : InitAt rings queues k l m n (s.record a) :=
  h.record (fun i hi he => absurd he (ha i hi).1) (fun i hi he => absurd he (ha i hi).2.1)
    fun i hi he => absurd he (ha i hi).2.2

theorem InitAt.enableRx (h : InitAt rings queues k l m n s) (hi : i < maxQueues) (hk : i < k) (v : Nat) :
    InitAt rings queues k l m n (s.record (.writeReg (Ixgbe.rxdctl i) v)) := by
  refine h.record (fun j hj he => ?_) (fun j hj he => absurd he.1 (rxdctl_ne hi hj).2.1)
    fun j hj he => absurd he.1 (rxdctl_ne hi hj).1
  rw [← (rxdctl_ne hi hj).2.2 he.1]
  exact hk

theorem InitAt.enableTx (h : InitAt rings queues k l m n s) (hi : i < maxQueues)
    (hmem : rings[queues + i]? = some mem) (hring : TxProgrammed i mem s.log) (v : Nat) :
    InitAt rings queues k l m n (s.record (.writeReg (Ixgbe.txdctl i) v)) := by
  refine h.record (fun j hj he => absurd he.1 (txdctl_ne hi hj).2.1) (fun j hj he => ?_)
    fun j hj he => absurd he.1 (txdctl_ne hi hj).1
  rw [← (txdctl_ne hi hj).2.2 he.1]
  exact ⟨mem, hmem, hring⟩

theorem InitAt.advanceRdt (h : InitAt rings queues k l m n s) (hi : i < maxQueues) (hmem : rings[i]? = some mem)
    (hring : RxProgrammed i mem s.log) (hposted : Posted mem.virt queueEntries.num s.log) (v : Nat) :
    InitAt rings queues k l m n (s.record (.writeReg (Ixgbe.rdt i) v)) := by
  refine h.record (fun j hj he => absurd he.1 (rdt_ne hi hj).1) (fun j hj he => absurd he.1 (rdt_ne hi hj).2.1)
    fun j hj he => ?_
  rw [← (rdt_ne hi hj).2.2 he.1]
  exact ⟨mem, hmem, hring, hposted⟩

/-- Programs of accesses to quiet registers. -/
def quietOps : Discipline DriverOp DriverRet where
  allows
    | .getReg32 _ | .discard _ => True
    | .setReg32 reg _ => QuietReg reg
    | _ => False
  answers _ _ := True

theorem quiet_safe {card : Card} {α : Type} {p : DriverCode α} {K : DriverState → Prop}
    (hK : ∀ s a, K s → Quiet a → K (s.record a)) (hp : Obeys quietOps p fun _ => True) (hs : K s) :
    Safe (execDriver card) (alone DriverState) p (fun _ s => K s) s := by
  refine (Obeys.safe (stable_alone K) (fun _ _ => trivial) ?_ (fun _ _ _ => trivial) hp hs).mono fun _ _ h => h.2
  intro o s r s' hs ho he
  refine ⟨trivial, ?_⟩
  cases o with
  | getReg32 reg =>
    cases he
    exact hK s _ hs fun i _ => ⟨id, id, id⟩
  | setReg32 reg v =>
    cases he
    exact hK s _ hs (QuietReg.quiet ho v)
  | discard v =>
    cases he
    exact hs
  | on | calloc | allocateDma | memset | addStats | clearStats => exact ho.elim

/-! ## Functions that read registers -/

/-- Registers may be read, whatever they hold. -/
def AllowsReads (D : Discipline DriverOp DriverRet) : Prop := ∀ reg, D.allows (.getReg32 reg)

namespace AllowsReads
variable {D : Discipline DriverOp DriverRet}

theorem getReg32 (h : AllowsReads D) {reg : Nat} : Obeys D (Driver.getReg32 reg) fun _ => True :=
  Obeys.op (h reg) fun _ _ => Obeys.ret trivial

theorem scanRegs (h : AllowsReads D) {step reg : Nat} {wanted : Nat → Bool} :
    Obeys D (Driver.scanRegs step reg wanted) fun _ => True := by
  refine Obeys.loop (J := fun _ => True) (fun _ _ => h.getReg32.seq fun cur => ?_) trivial
  split
  · exact Obeys.ret (Obeys.ret trivial)
  · exact Obeys.ret trivial

theorem getReg64 (h : AllowsReads D) {lowFirst : Bool} {low high : Nat} :
    Obeys D (Driver.getReg64 lowFirst low high) fun _ => True := by
  unfold Driver.getReg64
  split
  · exact h.getReg32.seq fun _ => h.getReg32.seq fun _ => Obeys.ret trivial
  · exact h.getReg32.seq fun _ => h.getReg32.seq fun _ => Obeys.ret trivial

theorem ixgbeReadStats (h : AllowsReads D) {order : Driver.ReadOrder} {stats : Option Nat}
    (hstats : ∀ read, Obeys D (Driver.accumulate stats read) fun _ => True) :
    Obeys D (Driver.ixgbeReadStats order stats) fun _ => True := by
  refine h.getReg32.seq fun _ => ?_
  refine h.getReg32.seq fun _ => ?_
  refine h.getReg64.seq fun _ => ?_
  refine h.getReg64.seq fun _ => ?_
  exact hstats _

theorem ixgbeGetLinkSpeed (h : AllowsReads D) : Obeys D Driver.ixgbeGetLinkSpeed fun _ => True := by
  refine h.getReg32.seq fun _ => ?_
  repeat' split
  all_goals exact Obeys.ret trivial

theorem waitForLink (h : AllowsReads D) : Obeys D Driver.waitForLink fun _ => True := by
  refine Obeys.loop (J := fun _ => True) (fun maxWait _ => h.ixgbeGetLinkSpeed.seq fun speed => ?_) trivial
  split
  · exact Obeys.ret trivial
  · exact Obeys.ret (h.ixgbeGetLinkSpeed.seq fun _ => Obeys.ret trivial)

end AllowsReads

/-! ## Quiet functions -/

section
variable {reg v flags : Nat}

theorem quietOps_reads : AllowsReads quietOps := fun _ => trivial

theorem setReg32_quiet (h : QuietReg reg) : Obeys quietOps (Driver.setReg32 reg v) fun _ => True :=
  Obeys.op h fun _ _ => Obeys.ret trivial

theorem setFlags32_quiet (h : QuietReg reg) : Obeys quietOps (Driver.setFlags32 reg flags) fun _ => True :=
  quietOps_reads.getReg32.seq fun _ => setReg32_quiet h

theorem clearFlags32_quiet (h : QuietReg reg) : Obeys quietOps (Driver.clearFlags32 reg flags) fun _ => True :=
  quietOps_reads.getReg32.seq fun _ => setReg32_quiet h

theorem reset_quiet : Obeys quietOps Driver.reset fun _ => True := by
  have heimc : QuietReg Ixgbe.eimc := quietReg_of_outside (by decide) (by decide)
  refine quietOps_reads.scanRegs.seq fun _ => ?_
  refine (setReg32_quiet heimc).seq fun _ => ?_
  refine (setReg32_quiet (quietReg_of_outside (by decide) (by decide))).seq fun _ => ?_
  refine quietOps_reads.scanRegs.seq fun _ => ?_
  refine (setReg32_quiet heimc).seq fun _ => ?_
  -- the second print, and the waits for the EEPROM and for DMA
  refine quietOps_reads.scanRegs.seq fun _ => ?_
  refine quietOps_reads.scanRegs.seq fun _ => ?_
  exact quietOps_reads.scanRegs

theorem initLink_quiet : Obeys quietOps Driver.initLink fun _ => True := by
  have hautoc : QuietReg Ixgbe.autoc := quietReg_of_outside (by decide) (by decide)
  refine quietOps_reads.getReg32.seq fun _ => ?_
  refine (setReg32_quiet hautoc).seq fun _ => ?_
  refine quietOps_reads.getReg32.seq fun _ => ?_
  refine (setReg32_quiet hautoc).seq fun _ => ?_
  exact setFlags32_quiet hautoc

theorem clearCounters_quiet {order : Driver.ReadOrder} :
    Obeys quietOps (Driver.ixgbeReadStats order none) fun _ => True :=
  quietOps_reads.ixgbeReadStats fun _ => Obeys.op trivial fun _ _ => Obeys.ret trivial

theorem ixgbeSetPromisc_quiet {enabled : Bool} : Obeys quietOps (Driver.ixgbeSetPromisc enabled) fun _ => True := by
  have hfctrl : QuietReg Ixgbe.fctrl := quietReg_of_outside (by decide) (by decide)
  unfold Driver.ixgbeSetPromisc
  split
  · exact setFlags32_quiet hfctrl
  · exact clearFlags32_quiet hfctrl

end

/-! ## Configuring the queues -/

section
variable {card : Card}

theorem quiet_then {α β : Type} {p : DriverCode α} {f : α → DriverCode β} {K : DriverState → Prop}
    {Q : β → DriverState → Prop} (hK : ∀ s a, K s → Quiet a → K (s.record a)) (hs : K s)
    (hp : Obeys quietOps p fun _ => True)
    (hf : ∀ a s, K s → Safe (execDriver card) (alone DriverState) (f a) Q s) :
    Safe (execDriver card) (alone DriverState) (p.bind f) Q s :=
  Safe.bind ((quiet_safe hK hp hs).mono hf)

theorem exec_allocateDma {size : Nat} {s' : DriverState} (he : execDriver card (.allocateDma size) s = some (mem, s')) :
    ∃ rest, s.ringSupply = mem :: rest ∧ s' = { s with ringSupply := rest } := by
  rw [execDriver] at he
  split at he
  · cases he
  · rename_i mem' rest hsup
    cases he
    exact ⟨rest, hsup, rfl⟩

theorem drop_eq_cons {rest : List DmaMemory} (h : rings.drop n = mem :: rest) :
    rings[n]? = some mem ∧ rest = rings.drop (n + 1) := by
  constructor
  · rw [← List.head?_drop, h]
    rfl
  · rw [← List.tail_drop, h]
    rfl

theorem Driver.initRxQueue_safe (hi : i < maxQueues) (h : InitAt rings queues i 0 0 0 s)
    (hsup : s.ringSupply = rings.drop i) :
    Safe (execDriver card) (alone DriverState) (Driver.initRxQueue i)
      (fun _ s => InitAt rings queues (i + 1) 0 0 0 s ∧ s.ringSupply = rings.drop (i + 1)) s := by
  have hK : ∀ s a, InitAt rings queues i 0 0 0 s ∧ s.ringSupply = rings.drop i → Quiet a →
      InitAt rings queues i 0 0 0 (s.record a) ∧ (s.record a).ringSupply = rings.drop i :=
    fun s a hs ha => ⟨hs.1.quiet ha, hs.2⟩
  have hsrrctl : QuietReg (Ixgbe.srrctl i) := by
    unfold Ixgbe.srrctl
    split
    · exact quietReg_of_outside (by omega) (by omega)
    · exact quietReg_rxBlock hi 0x14 (by decide) (by decide) (by decide)
  refine quiet_then hK ⟨h, hsup⟩ quietOps_reads.getReg32 fun v s hs => ?_
  refine quiet_then hK hs (setReg32_quiet hsrrctl) fun _ s hs => ?_
  refine quiet_then hK hs (setFlags32_quiet hsrrctl) fun _ s hs => ?_
  refine Safe.alone_op fun mem s' he => ?_
  obtain ⟨rest, hcons, rfl⟩ := exec_allocateDma he
  obtain ⟨hmem, rfl⟩ := drop_eq_cons (hs.2.symm.trans hcons)
  have h := hs.1.frame s.w s.poolSupply (rings.drop (i + 1))
  have h := h.quiet (a := .fill mem.virt (queueEntries.num * 16)) fun _ _ => ⟨id, id, id⟩
  have h := h.quiet ((quietReg_rxBlock hi 0x00 (by decide) (by decide) (by decide)).quiet (mem.phy % 2 ^ 32))
  have h := h.quiet ((quietReg_rxBlock hi 0x04 (by decide) (by decide) (by decide)).quiet (mem.phy / 2 ^ 32 % 2 ^ 32))
  have h := h.quiet ((quietReg_rxBlock hi 0x08 (by decide) (by decide) (by decide)).quiet (queueEntries.num * 16))
  have h := h.quiet ((quietReg_rxBlock hi 0x10 (by decide) (by decide) (by decide)).quiet 0)
  have h := h.quiet (quiet_rdt_zero hi)
  have h := h.setRxq (i := i) (f := .numEntries) (v := queueEntries.num) (by omega)
  have h := h.setRxq (i := i) (f := .rxIndex) (v := 0) (by omega)
  have h := h.setRxq (i := i) (f := .descriptors) (v := mem.virt) (by omega)
  -- memset, the five registers, and the three fields of the struct
  iterate 9 refine Safe.alone_exec rfl ?_
  refine Safe.alone_ret ⟨h.addRx hmem ⟨?_, ?_, ?_, ?_⟩, rfl⟩
  · simp [RxQueue.set, queueEntries]
  · simp [RxQueue.set]
  · simp [RxQueue.set]
  · exact ((RxProgrammed.written i mem _).concat _).concat _

theorem initTxQueueWith_safe {thresholds : Nat → Nat} (hi : i < queues) (hq : queues ≤ maxQueues)
    (h : InitAt rings queues k i 0 0 s) (hsup : s.ringSupply = rings.drop (queues + i)) :
    Safe (execDriver card) (alone DriverState) (Driver.initTxQueueWith thresholds i)
      (fun _ s => InitAt rings queues k (i + 1) 0 0 s ∧ s.ringSupply = rings.drop (queues + (i + 1))) s := by
  have hi' : i < maxQueues := by omega
  refine Safe.alone_op fun mem s' he => ?_
  obtain ⟨rest, hcons, rfl⟩ := exec_allocateDma he
  obtain ⟨hmem, rfl⟩ := drop_eq_cons (hsup.symm.trans hcons)
  have h := h.frame s.w s.poolSupply (rings.drop (queues + i + 1))
  have h := h.quiet (a := .fill mem.virt (queueEntries.num * 16)) fun _ _ => ⟨id, id, id⟩
  have h := h.quiet ((quietReg_txBlock hi' 0x00 (by decide) (by decide)).quiet (mem.phy % 2 ^ 32))
  have h := h.quiet ((quietReg_txBlock hi' 0x04 (by decide) (by decide)).quiet (mem.phy / 2 ^ 32 % 2 ^ 32))
  have h := h.quiet ((quietReg_txBlock hi' 0x08 (by decide) (by decide)).quiet (queueEntries.num * 16))
  have h := h.quiet (a := .readReg (Ixgbe.txdctl i)) fun _ _ => ⟨id, id, id⟩
  have hring := (TxProgrammed.written i mem (s.log ++ [.fill mem.virt (queueEntries.num * 16)])).concat
    (.readReg (Ixgbe.txdctl i))
  -- memset, the four registers, and the two fields of the struct
  iterate 8 refine Safe.alone_exec rfl ?_
  refine Safe.alone_ret ⟨InitAt.addTx (InitAt.setTxq (InitAt.setTxq (h.enableTx hi' hmem hring _) (Nat.le_refl i)
    (Or.inl rfl)) (Nat.le_refl i) (Or.inr rfl)) hmem ⟨?_, ?_, hring.concat _⟩, rfl⟩
  · simp [TxQueue.set, queueEntries]
  · simp [TxQueue.set]

/-! ## Starting the queues -/

/-- Queue `i` is being filled: `j` descriptors have got a buffer. -/
structure RxFilling (rings : List DmaMemory) (queues i : Nat) (mem : DmaMemory) (j : Nat) (s : DriverState) : Prop where
  init : InitAt rings queues queues queues i 0 s
  le : j ≤ queueEntries.num
  posted : Posted mem.virt j s.log

theorem Posted.concat {virt j : Nat} {l : List Access} (h : Posted virt j l) (a : Access) :
    Posted virt j (l ++ [a]) := by
  intro k hk
  obtain ⟨⟨phy, hphy⟩, hhdr⟩ := h k hk
  exact ⟨⟨phy, List.mem_append_left _ hphy⟩, List.mem_append_left _ hhdr⟩

theorem RxFilling.record {j : Nat} (h : RxFilling rings queues i mem j s)
    (hinit : InitAt rings queues queues queues i 0 (s.record a)) : RxFilling rings queues i mem j (s.record a) :=
  ⟨hinit, h.le, h.posted.concat a⟩

theorem RxFilling.fill {j phy buf : Nat} (h : RxFilling rings queues i mem j s) (hj : j < queueEntries.num)
    (w : World) :
    RxFilling rings queues i mem (j + 1)
      (((({ s with w := w } : DriverState).record (.writeRxDesc (descAddr mem.virt j) .pktAddr phy)).record
        (.writeRxDesc (descAddr mem.virt j) .hdrAddr 0)).setRxq i (.virtualAddresses j) buf) := by
  refine ⟨?_, hj, fun k hk => ?_⟩
  · have h := h.init.frame w s.poolSupply s.ringSupply
    have h := h.quiet (a := .writeRxDesc (descAddr mem.virt j) .pktAddr phy) fun _ _ => ⟨id, id, id⟩
    have h := h.quiet (a := .writeRxDesc (descAddr mem.virt j) .hdrAddr 0) fun _ _ => ⟨id, id, id⟩
    exact h.setRxq fun _ => Or.inr ⟨j, rfl⟩
  · simp only [DriverState.setRxq, DriverState.record, List.append_assoc, List.mem_append]
    rcases Nat.lt_succ_iff_lt_or_eq.mp hk with hk | rfl
    · obtain ⟨⟨p, hp⟩, hhdr⟩ := h.posted k hk
      exact ⟨⟨p, Or.inl hp⟩, Or.inl hhdr⟩
    · exact ⟨⟨phy, Or.inr (by simp)⟩, Or.inr (by simp)⟩

theorem Driver.fillRxDescriptor_safe {j : Nat} (hi : i < queues) (hmem : rings[i]? = some mem)
    (h : RxFilling rings queues i mem j s) :
    Safe (execOnQueue card i) (alone DriverState) (fillRxDescriptor j)
      (fun r s => match r with
        | .inl j' => RxFilling rings queues i mem j' s
        | .inr _ => RxFilling rings queues i mem queueEntries.num s) s := by
  obtain ⟨mem', hmem', hconf⟩ := h.init.rxConf i hi
  obtain rfl : mem' = mem := Option.some.inj (hmem'.symm.trans hmem)
  refine Safe.alone_exec (congrArg (fun n => some (n, s)) hconf.numEntries) ?_
  rw [Prog.ret_bind]
  by_cases hj : j < queueEntries.num
  · rw [if_pos hj]
    refine Safe.alone_exec (congrArg (fun n => some (n, s)) hconf.descriptors) ?_
    refine Safe.alone_exec rfl ?_
    refine Safe.alone_exec rfl ?_
    rw [Prog.ret_bind]
    split
    · exact Safe.alone_abort
    · iterate 4 refine Safe.alone_exec rfl ?_
      exact Safe.alone_ret (h.fill hj _)
  · rw [if_neg hj]
    have hfull : j = queueEntries.num := by have := h.le; omega
    subst hfull
    exact Safe.alone_ret h

theorem waitSetReg32_safe {α : Type} {r : Reg} {mask : Nat} {f : Unit → Code α} {K : DriverState → Prop}
    {Q : α → DriverState → Prop} (hK : ∀ s, K s → K (s.record (.readReg (r.offset i)))) (hs : K s)
    (hf : ∀ s, K s → Safe (execOnQueue card i) (alone DriverState) (f ()) Q s) :
    Safe (execOnQueue card i) (alone DriverState) ((waitSetReg32 r mask).bind f) Q s := by
  refine Safe.loop (J := fun _ s => K s) (fun _ => stable_alone _) (fun _ _ _ => trivial) (fun _ s hs => ?_) hs
  refine Safe.alone_exec rfl ?_
  rw [Prog.ret_bind]
  split
  · exact Safe.alone_ret (hK s hs)
  · exact Safe.alone_ret (hf _ (hK s hs))

theorem Driver.enableRxQueue_safe (hi : i < queues) (hq : queues ≤ maxQueues) (hmem : rings[i]? = some mem)
    (h : RxFilling rings queues i mem queueEntries.num s) :
    Safe (execOnQueue card i) (alone DriverState) enableRxQueue
      (fun _ s => InitAt rings queues queues queues (i + 1) 0 s) s := by
  have hi' : i < maxQueues := by omega
  have hfilled := h.record (a := .readReg (Ixgbe.rxdctl i)) (h.init.quiet fun _ _ => ⟨id, id, id⟩)
  have hfilled := fun v => hfilled.record (hfilled.init.enableRx hi' hi v)
  iterate 2 refine Safe.alone_exec rfl ?_
  refine waitSetReg32_safe
    (K := fun s => RxFilling rings queues i mem queueEntries.num s ∧ ∃ a ∈ s.log, enablesRx i a) (fun s hs => ?_) ?_
    fun s hs => ?_
  · obtain ⟨hs, b, hb, hen⟩ := hs
    exact ⟨hs.record (hs.init.quiet fun _ _ => ⟨id, id, id⟩), b, List.mem_append_left _ hb, hen⟩
  · exact ⟨hfilled _, _, List.mem_append_right _ List.mem_cons_self, rfl, by rw [or_and_self_right]; decide⟩
  · obtain ⟨hs, b, hb, hen⟩ := hs
    have hs := hs.record (hs.init.quiet ((quietReg_rxBlock hi' 0x10 (by decide) (by decide) (by decide)).quiet 0))
    obtain ⟨mem', hmem', hconf⟩ := hs.init.rxConf i hi
    obtain rfl : mem' = mem := Option.some.inj (hmem'.symm.trans hmem)
    have hlast := hs.init.advanceRdt hi' hmem hconf.ring hs.posted (queueEntries.num - 1)
    refine Safe.alone_exec rfl ?_
    refine Safe.alone_exec (congrArg (fun n => some (n, _)) hconf.numEntries) ?_
    refine Safe.alone_exec rfl ?_
    refine Safe.alone_ret (hlast.addRxEnabled ⟨b, ?_, hen⟩ (List.mem_append_right _ List.mem_cons_self))
    exact List.mem_append_left _ (List.mem_append_left _ hb)

theorem Driver.startRxQueue_safe (hi : i < queues) (hq : queues ≤ maxQueues)
    (h : InitAt rings queues queues queues i 0 s) :
    Safe (execOnQueue card i) (alone DriverState) startRxQueue
      (fun _ s => InitAt rings queues queues queues (i + 1) 0 s) s := by
  refine Safe.alone_op fun mempool s' he => ?_
  have h : InitAt rings queues queues queues i 0 s' := by
    rw [execOnQueue] at he
    split at he
    · cases he
    · cases he
      exact h.frame _ _ _
  refine Safe.alone_exec rfl ?_
  have h := h.setRxq (i := i) (f := .mempool) (v := mempool) fun _ => Or.inl rfl
  obtain ⟨mem, hmem, hconf⟩ := h.rxConf i hi
  refine Safe.alone_exec (congrArg (fun n => some (n, _)) hconf.numEntries) ?_
  rw [Prog.ret_bind, if_neg (by decide)]
  refine Safe.loop (J := fun j s => RxFilling rings queues i mem j s) (fun _ => stable_alone _) (fun _ _ _ => trivial)
    (fun j s hs => ?_) ⟨h, Nat.zero_le _, nofun⟩
  refine (Driver.fillRxDescriptor_safe hi hmem hs).mono fun r s hr => ?_
  cases r with
  | inl j => exact hr
  | inr _ => exact Driver.enableRxQueue_safe hi hq hmem hr

/-- A transmit queue for which there is no memory is started as well. -/
theorem Driver.startTxQueue_safe (hi : i < maxQueues) (hall : s.txAllocated = queues)
    (h : i < queues → InitAt rings queues queues queues queues i s) :
    Safe (execOnQueue card i) (alone DriverState) startTxQueue
      (fun _ s => s.txAllocated = queues ∧ (i < queues → InitAt rings queues queues queues queues (i + 1) s)) s := by
  refine Safe.alone_exec rfl ?_
  rw [Prog.ret_bind]
  split
  · exact Safe.alone_abort
  iterate 4 refine Safe.alone_exec rfl ?_
  change Safe _ _ ((Ixy.waitSetReg32 .txdctl queueEnable).bind .ret) _ _
  refine waitSetReg32_safe (K := fun s => s.txAllocated = queues ∧
      (i < queues → InitAt rings queues queues queues queues i s ∧ ∃ a ∈ s.log, enablesTx i a)) (fun s hs => ?_) ?_
    fun s hs => ?_
  · refine ⟨hs.1, fun hlt => ?_⟩
    obtain ⟨hinit, b, hb, hen⟩ := hs.2 hlt
    exact ⟨hinit.quiet fun _ _ => ⟨id, id, id⟩, b, List.mem_append_left _ hb, hen⟩
  · refine ⟨hall, fun hlt => ?_⟩
    have hs := h hlt
    have hs := hs.quiet ((quietReg_txBlock hi 0x10 (by decide) (by decide)).quiet 0)
    have hs := hs.quiet ((quietReg_txBlock hi 0x18 (by decide) (by decide)).quiet 0)
    have hs := hs.quiet (a := .readReg (Ixgbe.txdctl i)) fun _ _ => ⟨id, id, id⟩
    obtain ⟨mem, hmem, hconf⟩ := hs.txConf i hlt
    exact ⟨hs.enableTx hi hmem hconf.ring _, _, List.mem_append_right _ List.mem_cons_self, rfl,
      by rw [or_and_self_right]; decide⟩
  · exact Safe.alone_ret ⟨hs.1, fun hlt => (hs.2 hlt).1.addTxEnabled (hs.2 hlt).2⟩

/-! ## The whole initialisation -/

theorem onQueue_safe {α : Type} {p : Code α} {Q : α → DriverState → Prop}
    (h : Safe (execOnQueue card i) (alone DriverState) p Q s) :
    Safe (execDriver card) (alone DriverState) (Driver.onQueue i p) Q s :=
  h.relabel fun _ _ => Option.map_id'.symm

theorem Driver.initRx_safe (hq : queues ≤ maxQueues) (h : InitAt rings queues 0 0 0 0 s) (hsup : s.ringSupply = rings) :
    Safe (execDriver card) (alone DriverState) (Driver.initRx queues)
      (fun _ s => InitAt rings queues queues 0 0 0 s ∧ s.ringSupply = rings.drop queues) s := by
  have hK : ∀ k s a, InitAt rings queues k 0 0 0 s ∧ s.ringSupply = rings.drop k → Quiet a →
      InitAt rings queues k 0 0 0 (s.record a) ∧ (s.record a).ringSupply = rings.drop k :=
    fun k s a hs ha => ⟨hs.1.quiet ha, hs.2⟩
  have hreg : ∀ {reg : Nat}, (reg < 0x1000 ∨ 0x2000 ≤ reg) ∧ (reg < 0x6000 ∨ 0x7000 ≤ reg) → QuietReg reg :=
    fun h => quietReg_of_outside h.1 h.2
  refine quiet_then (hK 0) ⟨h, hsup⟩ (clearFlags32_quiet (hreg (by decide))) fun _ s hs => ?_
  refine quiet_then (hK 0) hs (setReg32_quiet (hreg (by decide))) fun _ s hs => ?_
  refine quiet_then (hK 0) hs (Obeys.forRange fun i hi => setReg32_quiet (hreg ?_)) fun _ s hs => ?_
  · unfold Ixgbe.rxpbsize
    omega
  refine quiet_then (hK 0) hs (setFlags32_quiet (hreg (by decide))) fun _ s hs => ?_
  refine quiet_then (hK 0) hs (setFlags32_quiet (hreg (by decide))) fun _ s hs => ?_
  refine quiet_then (hK 0) hs (setFlags32_quiet (hreg (by decide))) fun _ s hs => ?_
  refine Safe.bind ((Safe.forRange (J := fun i s => InitAt rings queues i 0 0 0 s ∧ s.ringSupply = rings.drop i)
    (fun _ => stable_alone _) (fun _ _ _ => trivial) (fun i s hi hs => ?_) (Nat.zero_le _) hs).mono fun _ s hs => ?_)
  · exact Driver.initRxQueue_safe (by omega) hs.1 hs.2
  refine quiet_then (hK queues) hs (setFlags32_quiet (hreg (by decide))) fun _ s hs => ?_
  refine quiet_then (hK queues) hs (Obeys.forRange fun i hi => clearFlags32_quiet ?_) fun _ s hs => ?_
  · unfold Ixgbe.dcaRxctrl
    split
    · exact hreg (by omega)
    · exact quietReg_rxBlock (by omega) 0x0C (by decide) (by decide) (by decide)
  exact quiet_safe (hK queues) (setFlags32_quiet (hreg (by decide))) hs

theorem initTxWith_safe {thresholds : Nat → Nat} (hq : queues ≤ maxQueues) (h : InitAt rings queues queues 0 0 0 s)
    (hsup : s.ringSupply = rings.drop queues) :
    Safe (execDriver card) (alone DriverState) (Driver.initTxWith thresholds queues)
      (fun _ s => InitAt rings queues queues queues 0 0 s) s := by
  have hK : ∀ l s a, InitAt rings queues queues l 0 0 s ∧ s.ringSupply = rings.drop (queues + l) → Quiet a →
      InitAt rings queues queues l 0 0 (s.record a) ∧ (s.record a).ringSupply = rings.drop (queues + l) :=
    fun k s a hs ha => ⟨hs.1.quiet ha, hs.2⟩
  have hreg : ∀ {reg : Nat}, (reg < 0x1000 ∨ 0x2000 ≤ reg) ∧ (reg < 0x6000 ∨ 0x7000 ≤ reg) → QuietReg reg :=
    fun h => quietReg_of_outside h.1 h.2
  refine quiet_then (hK 0) ⟨h, hsup⟩ (setFlags32_quiet (hreg (by decide))) fun _ s hs => ?_
  refine quiet_then (hK 0) hs (setReg32_quiet (hreg (by decide))) fun _ s hs => ?_
  refine quiet_then (hK 0) hs (Obeys.forRange fun i hi => setReg32_quiet (hreg ?_)) fun _ s hs => ?_
  · unfold Ixgbe.txpbsize
    omega
  refine quiet_then (hK 0) hs (setReg32_quiet (hreg (by decide))) fun _ s hs => ?_
  refine quiet_then (hK 0) hs (clearFlags32_quiet (hreg (by decide))) fun _ s hs => ?_
  refine Safe.bind ((Safe.forRange
    (J := fun l s => InitAt rings queues queues l 0 0 s ∧ s.ringSupply = rings.drop (queues + l))
    (fun _ => stable_alone _) (fun _ _ _ => trivial) (fun i s hi hs => ?_) (Nat.zero_le _) hs).mono fun _ s hs => ?_)
  · exact initTxQueueWith_safe hi hq hs.1 hs.2
  refine (quiet_safe (hK queues) (setReg32_quiet (hreg (by decide))) hs).mono fun _ _ hs => hs.1

/-- `reset_and_init` with any other quiet function for the link. -/
theorem resetAndInitWith_safe {link : DriverCode Unit} {thresholds : Nat → Nat} {order : Driver.ReadOrder}
    {txQueues : Nat} (hlink : Obeys quietOps link fun _ => True) (hq : queues ≤ maxQueues) (htx : txQueues ≤ maxQueues)
    (h : InitAt rings queues 0 0 0 0 s) (hsup : s.ringSupply = rings) :
    Safe (execDriver card) (alone DriverState) (Driver.resetAndInitWith link thresholds order queues txQueues)
      (fun _ s => s.txAllocated = queues ∧
        (txQueues ≤ queues → InitAt rings queues queues queues queues txQueues s)) s := by
  have hK : ∀ s a, InitAt rings queues 0 0 0 0 s ∧ s.ringSupply = rings → Quiet a →
      InitAt rings queues 0 0 0 0 (s.record a) ∧ (s.record a).ringSupply = rings :=
    fun s a hs ha => ⟨hs.1.quiet ha, hs.2⟩
  refine quiet_then hK ⟨h, hsup⟩ reset_quiet fun _ s hs => ?_
  refine quiet_then hK hs hlink fun _ s hs => ?_
  refine quiet_then hK hs clearCounters_quiet fun _ s hs => ?_
  refine Safe.bind ((Driver.initRx_safe hq hs.1 hs.2).mono fun _ s hs => ?_)
  refine Safe.bind ((initTxWith_safe hq hs.1 hs.2).mono fun _ s hs => ?_)
  refine Safe.bind ((Safe.forRange (J := fun m s => InitAt rings queues queues queues m 0 s) (fun _ => stable_alone _)
    (fun _ _ _ => trivial) (fun i s hi hs => ?_) (Nat.zero_le _) hs).mono fun _ s hs => ?_)
  · exact onQueue_safe (Driver.startRxQueue_safe hi hq hs)
  refine Safe.bind ((Safe.forRange (J := fun n s => s.txAllocated = queues ∧
      (n ≤ queues → InitAt rings queues queues queues queues n s)) (fun _ => stable_alone _)
    (fun _ _ _ => trivial) (fun i s hi hs => ?_) (Nat.zero_le _) ⟨hs.txAllocated, fun _ => hs⟩).mono fun _ s hs => ?_)
  · exact onQueue_safe (Driver.startTxQueue_safe (by omega) hs.1 fun hlt => hs.2 (Nat.le_of_lt hlt))
  have hend : ∀ s a, (s.txAllocated = queues ∧ (txQueues ≤ queues →
      InitAt rings queues queues queues queues txQueues s)) → Quiet a → ((s.record a).txAllocated = queues ∧
        (txQueues ≤ queues → InitAt rings queues queues queues queues txQueues (s.record a))) :=
    fun s a hs ha => ⟨hs.1, fun hle => (hs.2 hle).quiet ha⟩
  refine quiet_then hend hs ixgbeSetPromisc_quiet fun _ s hs => ?_
  exact quiet_safe hend quietOps_reads.waitForLink hs

theorem InitAt.start (hlog : s.log = []) (queues : Nat) : InitAt rings queues 0 0 0 0 (s.calloc queues queues) := by
  have hnil : ∀ {P : Access → Prop} {A : List Access → Prop}, Before (s.calloc queues queues).log P A := by
    intro P A
    change Before s.log P A
    rw [hlog]
    exact Before.nil
  refine ⟨rfl, rfl, fun i hi => ?_, nofun, nofun, nofun, nofun, fun _ _ => hnil, fun _ _ => hnil, fun _ _ => hnil⟩
  change (if i < queues then _ else _ : TxQueue).cleanIndex = 0 ∧ (if i < queues then _ else _ : TxQueue).txIndex = 0
  rw [if_pos hi]
  exact ⟨rfl, rfl⟩

/-- What has been shown covers every queue. -/
theorem InitAt.covers {txQueues : Nat} (h : InitAt rings queues queues queues queues txQueues s)
    (hq : queues ≤ maxQueues) (htx : txQueues ≤ queues) : InitCovers rings queues txQueues s := by
  refine ⟨fun i hi => ?_, fun i hi => ?_, fun i hi => (h.rxOrder i hi).mono ?_, fun i hi => (h.txOrder i hi).mono ?_⟩
  · obtain ⟨mem, hmem, hconf⟩ := h.rxConf i hi
    obtain ⟨hen, hrdt⟩ := h.rxEnabled i hi
    refine ⟨mem, hmem, by rw [h.rxAllocated]; exact hi, hconf.numEntries, hconf.rxIndex, hconf.descriptors, hen,
      (h.rxOrder i (by omega)).mono ?_, hrdt, (h.rdtOrder i (by omega)).mono ?_⟩
    · rintro l ⟨mem', hmem', hring⟩
      cases hmem.symm.trans hmem'
      exact hring
    · rintro l ⟨mem', hmem', hring, hposted⟩
      cases hmem.symm.trans hmem'
      exact ⟨hring, hposted⟩
  · obtain ⟨mem, hmem, hconf⟩ := h.txConf i (by omega)
    obtain ⟨hclean, htxi⟩ := h.txZero i (by omega)
    refine ⟨mem, hmem, by rw [h.txAllocated]; omega, hconf.numEntries, hclean, htxi, hconf.descriptors,
      h.txEnabled i hi, (h.txOrder i (by omega)).mono ?_⟩
    rintro l ⟨mem', hmem', hring⟩
    cases hmem.symm.trans hmem'
    exact hring
  · rintro l ⟨mem, hmem, hring⟩
    exact ⟨mem, List.mem_of_getElem? hmem, hring⟩
  · rintro l ⟨mem, hmem, hring⟩
    exact ⟨mem, List.mem_of_getElem? hmem, hring⟩

theorem Driver.ixgbeInit_safe {order : Driver.ReadOrder} {rxQueues txQueues : Nat} (hlog : s.log = []) :
    Safe (execDriver card) (alone DriverState) (Driver.ixgbeInit order rxQueues txQueues)
      (fun _ s' => InitCovers s.ringSupply rxQueues txQueues s' ↔ txQueues ≤ rxQueues) s := by
  unfold Driver.ixgbeInit
  split
  · exact Safe.alone_abort
  split
  · exact Safe.alone_abort
  refine Safe.alone_exec rfl ?_
  rename_i hrx htx
  have hrxLe : rxQueues ≤ maxQueues := by omega
  have htxLe : txQueues ≤ maxQueues := by omega
  refine (resetAndInitWith_safe initLink_quiet hrxLe htxLe (InitAt.start hlog rxQueues) rfl).mono fun _ s' h => ?_
  constructor
  · intro hcovers
    by_contra hlt
    -- there is no memory for the first transmit queue too many
    obtain ⟨mem, -, hcov⟩ := hcovers.tx rxQueues (by omega)
    have hinside := hcov.inside
    rw [h.1] at hinside
    exact Nat.lt_irrefl _ hinside
  · intro hle
    exact (h.2 hle).covers (by omega) hle

end

end

end Ixy
