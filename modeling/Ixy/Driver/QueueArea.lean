import Ixy.Driver.Tx
import Ixy.Driver.Rx
import Ixy.Lib.Discipline

/-!
# Several queues in one area

`ixgbe_init` allocates one area for all receive queues and one for all transmit queues, with room for 4096
entries of `virtual_addresses` in each queue. The driver then finds queue `i` by pointer arithmetic on the
struct, and `sizeof` does not count the flexible array at its end: the queues are 24 and 16 bytes apart,
and `virtual_addresses` of one lies over the structs of the next.

Here the driver's functions run on the bytes of these areas. `rxAlone` and `txAlone` record what the bytes
of each queue's struct would be if only its own accesses had been made, and `QueuesIsolated` compares. The
main result is that they agree in all runs exactly if there is a single queue.
-/

namespace Ixy

open Lib

/-! ## Layout -/

def RxField.offset : RxField → Nat
  | .descriptors => 0
  | .mempool => 8
  | .numEntries => 16
  | .rxIndex => 18
  | .virtualAddresses i => 24 + 8 * i

def RxField.width : RxField → Nat
  | .numEntries | .rxIndex => 2
  | _ => 8

def TxField.offset : TxField → Nat
  | .descriptors => 0
  | .numEntries => 8
  | .cleanIndex => 10
  | .txIndex => 12
  | .virtualAddresses i => 16 + 8 * i

def TxField.width : TxField → Nat
  | .numEntries | .cleanIndex | .txIndex => 2
  | _ => 8

/-- `sizeof(struct ixgbe_rx_queue)`, which does not count the flexible array member. -/
def sizeofRxQueue : Nat := 24

/-- `sizeof(struct ixgbe_tx_queue)`. -/
def sizeofTxQueue : Nat := 16

/-- `MAX_RX_QUEUE_ENTRIES` and `MAX_TX_QUEUE_ENTRIES`. -/
def maxQueueEntries : Nat := 4096

/-- `MAX_QUEUES`. -/
def maxQueues : Nat := 64

/-- The size of `dev->rx_queues`. -/
def rxAreaSize (rxQueues : Nat) : Nat := rxQueues * (sizeofRxQueue + 8 * maxQueueEntries)

/-- The size of `dev->tx_queues`, which is also made for `rx_queues`. -/
def txAreaSize (rxQueues : Nat) : Nat := rxQueues * (sizeofTxQueue + 8 * maxQueueEntries)

/-- The bytes of a queue that are used: the struct and `virtual_addresses[0..num_entries)`. -/
def rxUsed : Nat := sizeofRxQueue + 8 * queueEntries.num
def txUsed : Nat := sizeofTxQueue + 8 * queueEntries.num

/-- `((struct ixgbe_rx_queue*) dev->rx_queues) + i`, and a field of it. -/
def rxOffset (i : Nat) (f : RxField) : Nat := i * sizeofRxQueue + f.offset
def txOffset (i : Nat) (f : TxField) : Nat := i * sizeofTxQueue + f.offset

/-! ## The device -/

/-- What the application asks of a queue. -/
inductive QueueCall where
  | rx (i : Nat)
  | tx (i buf : Nat)
  deriving DecidableEq, Repr

def QueueCall.queue : QueueCall → Nat
  | .rx i => i
  | .tx i _ => i

/-- A device with several queues. Every queue has its own rings and registers. -/
structure MultiDev where
  w : World
  /-- `num_rx_queues`. -/
  rxQueues : Nat
  /-- The bytes at `dev->rx_queues` and `dev->tx_queues`. -/
  rxArea : Mem
  txArea : Mem
  rx : Nat → RxRing
  tx : Nat → TxRing
  app : App
  dmaView : Nat → Nat
  /-- What `memory_allocate_dma` will answer for the rings. -/
  ringSupply : List DmaMemory
  calls : List QueueCall
  /-- History: the bytes of each queue, had only its own accesses been made. -/
  rxAlone : Nat → Mem
  txAlone : Nat → Mem
  /-- History: an access has left its area. -/
  strayed : Bool

namespace MultiDev

/-- The struct of a queue as it is read from the area. -/
def rxQueue (m : MultiDev) (i : Nat) : RxQueue where
  descriptors := load 8 m.rxArea (rxOffset i .descriptors)
  mempool := load 8 m.rxArea (rxOffset i .mempool)
  numEntries := load 2 m.rxArea (rxOffset i .numEntries)
  rxIndex := load 2 m.rxArea (rxOffset i .rxIndex)
  virtualAddresses k := load 8 m.rxArea (rxOffset i (.virtualAddresses k))

def txQueue (m : MultiDev) (i : Nat) : TxQueue where
  descriptors := load 8 m.txArea (txOffset i .descriptors)
  numEntries := load 2 m.txArea (txOffset i .numEntries)
  cleanIndex := load 2 m.txArea (txOffset i .cleanIndex)
  txIndex := load 2 m.txArea (txOffset i .txIndex)
  virtualAddresses k := load 8 m.txArea (txOffset i (.virtualAddresses k))

/-- The device as the functions see it when they work on queue `i`. -/
def view (m : MultiDev) (i : Nat) : Dev :=
  { w := m.w, rxq := m.rxQueue i, txq := m.txQueue i, rx := m.rx i, tx := m.tx i, app := m.app
    dmaView := m.dmaView }

/-- What an access other than to the structs has changed. -/
def put (m : MultiDev) (i : Nat) (s : Dev) : MultiDev :=
  { m with w := s.w, rx := Function.update m.rx i s.rx, tx := Function.update m.tx i s.tx, app := s.app }

/-- Note whether an access to the area lies in it. -/
def touchRx (m : MultiDev) (i : Nat) (f : RxField) : MultiDev :=
  { m with strayed := m.strayed || !decide (rxOffset i f + f.width ≤ rxAreaSize m.rxQueues) }

def touchTx (m : MultiDev) (i : Nat) (f : TxField) : MultiDev :=
  { m with strayed := m.strayed || !decide (txOffset i f + f.width ≤ txAreaSize m.rxQueues) }

def storeRx (m : MultiDev) (i : Nat) (f : RxField) (v : Nat) : MultiDev :=
  { m.touchRx i f with
    rxArea := store f.width m.rxArea (rxOffset i f) v
    rxAlone := Function.update m.rxAlone i (store f.width (m.rxAlone i) f.offset v) }

def storeTx (m : MultiDev) (i : Nat) (f : TxField) (v : Nat) : MultiDev :=
  { m.touchTx i f with
    txArea := store f.width m.txArea (txOffset i f) v
    txAlone := Function.update m.txAlone i (store f.width (m.txAlone i) f.offset v) }

/-- The areas from `calloc`. -/
def calloc (m : MultiDev) (rxQueues : Nat) : MultiDev :=
  { m with
    rxQueues := rxQueues
    rxArea := fun _ => 0
    txArea := fun _ => 0
    rxAlone := fun _ _ => 0
    txAlone := fun _ _ => 0 }

/-- The descriptor ring of a receive queue: memory filled with `0xFF`, and the registers that tell the NIC
about it. -/
def newRxRing (m : MultiDev) (i : Nat) (mem : DmaMemory) (rest : List DmaMemory) : MultiDev :=
  { m with
    ringSupply := rest
    rx := Function.update m.rx i { m.rx i with
      desc := fun a => if mem.virt ≤ a ∧ a < mem.virt + 16 * queueEntries.num then
        ⟨2 ^ 64 - 1, 2 ^ 64 - 1⟩ else (m.rx i).desc a
      base := mem.virt
      len := queueEntries.num
      rdh := 0
      rdt := 0 } }

def newTxRing (m : MultiDev) (i : Nat) (mem : DmaMemory) (rest : List DmaMemory) : MultiDev :=
  { m with
    ringSupply := rest
    tx := Function.update m.tx i { m.tx i with
      desc := fun a => if mem.virt ≤ a ∧ a < mem.virt + 16 * queueEntries.num then
        ⟨2 ^ 64 - 1, 2 ^ 32 - 1, 2 ^ 32 - 1⟩ else (m.tx i).desc a
      base := mem.virt
      len := queueEntries.num } }

end MultiDev

/-- Accesses: those of a function working on queue `i`, and those of the initialisation. -/
inductive QueueOp where
  | on (i : Nat) (o : Op)
  | calloc (rxQueues : Nat)
  | rxRing (i : Nat)
  | txRing (i : Nat)
  | next

@[reducible] def QueueRet : QueueOp → Type
  | .on _ o => Ret o
  | .calloc _ => Unit
  | .rxRing _ | .txRing _ => Nat
  | .next => QueueCall

/-- Perform one access. Only the ones to the structs go to the areas. -/
def execOn (i : Nat) (m : MultiDev) : (o : Op) → Option (Ret o × MultiDev)
  | .rxLd f => some (load f.width m.rxArea (rxOffset i f), m.touchRx i f)
  | .rxSt f v => some ((), m.storeRx i f v)
  | .txLd f => some (load f.width m.txArea (txOffset i f), m.touchTx i f)
  | .txSt f v => some ((), m.storeTx i f v)
  | o => (exec o (m.view i)).map fun r => (r.1, m.put i r.2)

/-- The application may only ask for queues that there are. -/
def execQueue : (o : QueueOp) → MultiDev → Option (QueueRet o × MultiDev)
  | .on i o, m => execOn i m o
  | .calloc rxQueues, m => some ((), m.calloc rxQueues)
  | .rxRing i, m =>
    match m.ringSupply with
    | [] => none
    | mem :: rest => some (mem.virt, m.newRxRing i mem rest)
  | .txRing i, m =>
    match m.ringSupply with
    | [] => none
    | mem :: rest => some (mem.virt, m.newTxRing i mem rest)
  | .next, m =>
    match m.calls with
    | [] => none
    | c :: cs => if c.queue < m.rxQueues then some (c, { m with calls := cs }) else none

/-- The NIC moves on the rings of one of the queues. -/
def nicQueue (a : Nat × NicAct) (m : MultiDev) : Option MultiDev :=
  (nicStep a.2 (m.view a.1)).map (m.put a.1)

/-! ## The program -/

abbrev QueueCode := Prog QueueOp QueueRet

/-- A function of the driver, working on queue `i`. -/
def onQueue {α : Type} (i : Nat) (p : Code α) : QueueCode α := p.relabel (QueueOp.on i) fun _ r => r

def queuePass (n : Nat) (body : Nat → QueueCode Unit) (i : Nat) : QueueCode (Nat ⊕ Unit) :=
  if i < n then (body i).bind fun _ => .ret (.inl (i + 1)) else .ret (.inr ())

/-- `for (uint16_t i = 0; i < n; i++)`. -/
def forQueues (n : Nat) (body : Nat → QueueCode Unit) : QueueCode Unit := Prog.iterate (queuePass n body) 0

/-- What `init_rx` does for one queue. -/
def initRxQueue (i : Nat) : QueueCode Unit := do
  let virt ← Prog.access (QueueOp.rxRing i)
  onQueue i do
    rxSt .numEntries queueEntries.num
    rxSt .rxIndex 0
    rxSt .descriptors virt

/-- What `init_tx` does for one queue. -/
def initTxQueue (i : Nat) : QueueCode Unit := do
  let virt ← Prog.access (QueueOp.txRing i)
  onQueue i do
    txSt .numEntries queueEntries.num
    txSt .descriptors virt

/-- `reset_and_init`. `init_tx` counts the receive queues. -/
def resetAndInit (rxQueues txQueues : Nat) : QueueCode Unit := do
  forQueues rxQueues initRxQueue
  forQueues rxQueues initTxQueue
  forQueues rxQueues fun i => onQueue i startRxQueue
  forQueues txQueues fun i => onQueue i startTxQueue

/-- `ixgbe_init`. -/
def ixgbeInit (rxQueues txQueues : Nat) : QueueCode Unit := do
  if rxQueues > maxQueues then .abort s!"cannot configure {rxQueues} rx queues: limit is {maxQueues}"
  else if txQueues > maxQueues then .abort s!"cannot configure {txQueues} tx queues: limit is {maxQueues}"
  else do
    Prog.access (QueueOp.calloc rxQueues)
    resetAndInit rxQueues txQueues

/-- One call of the application. -/
def queueServe (_ : Unit) : QueueCode (Unit ⊕ Unit) := do
  let c ← Prog.access QueueOp.next
  match c with
  | .rx i => do
    let _ ← onQueue i ixgbeRxPacket
    return .inl ()
  | .tx i buf => do
    let _ ← onQueue i (ixgbeTxPacket buf)
    return .inl ()

def queuesMain (rxQueues txQueues : Nat) : QueueCode Unit := do
  ixgbeInit rxQueues txQueues
  Prog.iterate queueServe ()

/-! ## Isolation -/

/-- No access has left its area, and every queue is as if it were alone. -/
structure QueuesIsolated (queues : Nat) (m : MultiDev) : Prop where
  inside : m.strayed = false
  rx : ∀ i < queues, ∀ x < rxUsed, m.rxArea (i * sizeofRxQueue + x) = m.rxAlone i x
  tx : ∀ i < queues, ∀ x < txUsed, m.txArea (i * sizeofTxQueue + x) = m.txAlone i x

/-! ## A queue by itself is the struct -/

theorem RxField.apart {f g : RxField} (h : f ≠ g) : Apart f.offset f.width g.offset g.width := by
  cases f <;> cases g <;> simp_all only [ne_eq, not_true_eq_false, RxField.virtualAddresses.injEq] <;>
    unfold Apart <;> dsimp only [RxField.offset, RxField.width] <;> omega

theorem TxField.apart {f g : TxField} (h : f ≠ g) : Apart f.offset f.width g.offset g.width := by
  cases f <;> cases g <;> simp_all only [ne_eq, not_true_eq_false, TxField.virtualAddresses.injEq] <;>
    unfold Apart <;> dsimp only [TxField.offset, TxField.width] <;> omega

section
variable {m m' : MultiDev} {i : Nat}

theorem MultiDev.rxQueue_get (m : MultiDev) (i : Nat) (f : RxField) :
    (m.rxQueue i).get f = load f.width m.rxArea (rxOffset i f) := by
  cases f <;> rfl

theorem MultiDev.txQueue_get (m : MultiDev) (i : Nat) (f : TxField) :
    (m.txQueue i).get f = load f.width m.txArea (txOffset i f) := by
  cases f <;> rfl

theorem MultiDev.get_storeRx (m : MultiDev) (i : Nat) (f g : RxField) (v : Nat) :
    ((m.storeRx i f v).rxQueue i).get g = if g = f then v % 256 ^ f.width else (m.rxQueue i).get g := by
  rw [rxQueue_get, rxQueue_get]
  change load g.width (store f.width m.rxArea (rxOffset i f) v) (rxOffset i g) = _
  split
  · rename_i hgf
    rw [hgf, load_store_self]
  · rename_i hgf
    refine load_store_of_disjoint ?_
    have hap := RxField.apart hgf
    unfold Apart rxOffset at *
    omega

theorem MultiDev.get_storeTx (m : MultiDev) (i : Nat) (f g : TxField) (v : Nat) :
    ((m.storeTx i f v).txQueue i).get g = if g = f then v % 256 ^ f.width else (m.txQueue i).get g := by
  rw [txQueue_get, txQueue_get]
  change load g.width (store f.width m.txArea (txOffset i f) v) (txOffset i g) = _
  split
  · rename_i hgf
    rw [hgf, load_store_self]
  · rename_i hgf
    refine load_store_of_disjoint ?_
    have hap := TxField.apart hgf
    unfold Apart txOffset at *
    omega

theorem RxQueue.ext_get {p q : RxQueue} (h : ∀ f, p.get f = q.get f) : p = q := by
  obtain ⟨d, mp, n, x, v⟩ := p
  obtain ⟨d', mp', n', x', v'⟩ := q
  have hd := h .descriptors
  have hmp := h .mempool
  have hn := h .numEntries
  have hx := h .rxIndex
  have hv : v = v' := funext fun k => h (.virtualAddresses k)
  simp only [RxQueue.get] at hd hmp hn hx
  rw [hd, hmp, hn, hx, hv]

theorem TxQueue.ext_get {p q : TxQueue} (h : ∀ f, p.get f = q.get f) : p = q := by
  obtain ⟨d, n, c, x, v⟩ := p
  obtain ⟨d', n', c', x', v'⟩ := q
  have hd := h .descriptors
  have hn := h .numEntries
  have hc := h .cleanIndex
  have hx := h .txIndex
  have hv : v = v' := funext fun k => h (.virtualAddresses k)
  simp only [TxQueue.get] at hd hn hc hx
  rw [hd, hn, hc, hx, hv]

theorem RxQueue.get_set (q : RxQueue) (f g : RxField) {v : Nat} (hv : v < 2 ^ 64) :
    (q.set f v).get g = if g = f then v % 256 ^ f.width else q.get g := by
  have hmod : v % 18446744073709551616 = v := Nat.mod_eq_of_lt hv
  cases f <;> cases g <;> simp [RxQueue.set, RxQueue.get, RxField.width, Function.update_apply, hmod]

theorem TxQueue.get_set (q : TxQueue) (f g : TxField) {v : Nat} (hv : v < 2 ^ 64) :
    (q.set f v).get g = if g = f then v % 256 ^ f.width else q.get g := by
  have hmod : v % 18446744073709551616 = v := Nat.mod_eq_of_lt hv
  cases f <;> cases g <;> simp [TxQueue.set, TxQueue.get, TxField.width, Function.update_apply, hmod]

/-- Storing a field in the area is setting it in the struct. -/
theorem MultiDev.rxQueue_storeRx (m : MultiDev) (i : Nat) (f : RxField) {v : Nat} (hv : v < 2 ^ 64) :
    (m.storeRx i f v).rxQueue i = (m.rxQueue i).set f v :=
  RxQueue.ext_get fun g => by rw [get_storeRx, RxQueue.get_set _ _ _ hv]

theorem MultiDev.txQueue_storeTx (m : MultiDev) (i : Nat) (f : TxField) {v : Nat} (hv : v < 2 ^ 64) :
    (m.storeTx i f v).txQueue i = (m.txQueue i).set f v :=
  TxQueue.ext_get fun g => by rw [get_storeTx, TxQueue.get_set _ _ _ hv]

/-- The other accesses leave the structs alone. -/
def Op.onStruct : Op → Bool
  | .rxLd _ | .rxSt _ _ | .txLd _ | .txSt _ _ => true
  | _ => false

theorem exec_struct {o : Op} (ho : o.onStruct = false) {s s' : Dev} {r : Ret o} (h : exec o s = some (r, s')) :
    s'.rxq = s.rxq ∧ s'.txq = s.txq ∧ s'.dmaView = s.dmaView := by
  cases o with
  | rxLd f => cases ho
  | rxSt f v => cases ho
  | txLd f => cases ho
  | txSt f v => cases ho
  | poolNew numEntries entrySize =>
    obtain ⟨dma, rest, -, rfl⟩ := exec_poolNew h
    exact ⟨rfl, rfl, rfl⟩
  | rxDescLd a w =>
    cases w <;> (cases h; exact ⟨rfl, rfl, rfl⟩)
  | setReg r v =>
    cases h
    cases r <;> exact ⟨rfl, rfl, rfl⟩
  | nextRx =>
    simp only [exec] at h
    split at h
    · cases h
      exact ⟨rfl, rfl, rfl⟩
    · split at h
      · cases h
        exact ⟨rfl, rfl, rfl⟩
      · cases h
    · cases h
  | nextTx =>
    simp only [exec] at h
    split at h
    · split at h
      · cases h
        exact ⟨rfl, rfl, rfl⟩
      · cases h
    · cases h
  | _ =>
    cases h
    exact ⟨rfl, rfl, rfl⟩

theorem MultiDev.view_put {s : Dev} (hrxq : s.rxq = m.rxQueue i) (htxq : s.txq = m.txQueue i)
    (hview : s.dmaView = m.dmaView) : (m.put i s).view i = s := by
  obtain ⟨w, rxq, txq, rx, tx, app, dmaView⟩ := s
  simp only at hrxq htxq hview
  simp only [MultiDev.view, MultiDev.put, Function.update_self, hrxq, htxq, hview]
  rfl

theorem execOn_of_not_onStruct {o : Op} (ho : o.onStruct = false) :
    execOn i m o = (exec o (m.view i)).map fun r => (r.1, m.put i r.2) := by
  cases o <;> first | rfl | cases ho

/-- A stored value fits the widest field. -/
def Op.Small : Op → Prop
  | .rxSt _ v | .txSt _ v => v < 2 ^ 64
  | _ => True

/-- **One queue on the area is one queue of the struct model**: its accesses answer the same, and do the
same to what they see. -/
theorem execOn_view {o : Op} (ho : o.Small) :
    (execOn i m o).map (fun r => (r.1, r.2.view i)) = exec o (m.view i) := by
  cases hs : o.onStruct with
  | false =>
    rw [execOn_of_not_onStruct hs, Option.map_map]
    cases he : exec o (m.view i) with
    | none => rfl
    | some r =>
      obtain ⟨r, s'⟩ := r
      obtain ⟨hrxq, htxq, hview⟩ := exec_struct hs he
      simp only [Option.map_some, Function.comp_apply, MultiDev.view_put hrxq htxq hview]
  | true =>
    cases o with
    | rxLd f =>
      simp only [execOn, exec, Option.map_some, ← MultiDev.rxQueue_get]
      rfl
    | rxSt f v =>
      simp only [execOn, exec, Option.map_some]
      rw [← show _ = (m.view i).rxq.set f v from m.rxQueue_storeRx i f ho]
      rfl
    | txLd f =>
      simp only [execOn, exec, Option.map_some, ← MultiDev.txQueue_get]
      rfl
    | txSt f v =>
      simp only [execOn, exec, Option.map_some]
      rw [← show _ = (m.view i).txq.set f v from m.txQueue_storeTx i f ho]
      rfl
    | _ => cases hs

end

/-! ## What the functions do to the structs -/

/-- The part of the struct that is in use … -/
def RxField.Used : RxField → Prop
  | .virtualAddresses k => k < queueEntries.num
  | _ => True

def TxField.Used : TxField → Prop
  | .virtualAddresses k => k < queueEntries.num
  | _ => True

/-- … and what is in it once the queue has been initialised. -/
def RxField.Holds : RxField → Nat → Prop
  | .numEntries, v => v = queueEntries.num
  | .rxIndex, v => v < queueEntries.num
  | _, _ => True

def TxField.Holds : TxField → Nat → Prop
  | .numEntries, v => v = queueEntries.num
  | .cleanIndex, v => v < queueEntries.num
  | .txIndex, v => v < queueEntries.num
  | _, _ => True

/-- The functions stay in the part in use, and keep what is in it. -/
def structDiscipline : Discipline Op Ret where
  allows
    | .rxLd f => f.Used
    | .rxSt f v => f.Used ∧ f.Holds v
    | .txLd f => f.Used
    | .txSt f v => f.Used ∧ f.Holds v
    | _ => True
  answers
    | .rxLd f, r => f.Holds r
    | .txLd f, r => f.Holds r
    | _, _ => True

theorem incAndWrapRing_lt {x : Nat} (hx : x < queueEntries.num) :
    incAndWrapRing x queueEntries.num < queueEntries.num := by
  have hwrap := queueEntries.incAndWrapRing_mod x
  rw [Nat.mod_eq_of_lt hx] at hwrap
  rw [hwrap]
  exact Nat.mod_lt _ queueEntries.pos

theorem waitSetReg32_obeys (r : Reg) (mask : Nat) :
    Obeys structDiscipline (waitSetReg32 r mask) fun _ => True := by
  refine Obeys.loop (J := fun _ => True) (fun _ _ => ?_) trivial
  refine .op trivial fun v _ => ?_
  rw [Prog.ret_bind]
  split
  · exact .ret trivial
  · exact .ret (.ret trivial)

theorem fillRxDescriptor_obeys (i : Nat) : Obeys structDiscipline (fillRxDescriptor i) fun _ => True := by
  unfold fillRxDescriptor
  refine .op trivial fun n hn => ?_
  obtain rfl : n = queueEntries.num := hn
  rw [Prog.ret_bind]
  split
  · rename_i hi
    refine .op trivial fun _ _ => .op trivial fun _ _ => .op trivial fun b _ => ?_
    rw [Prog.ret_bind]
    cases b with
    | none => exact .abort
    | some buf =>
      refine .op trivial fun _ _ => .op trivial fun _ _ => .op trivial fun _ _ => ?_
      exact .op ⟨hi, trivial⟩ fun _ _ => .ret trivial
  · exact .ret trivial

theorem startRxQueue_obeys : Obeys structDiscipline startRxQueue fun _ => True := by
  unfold startRxQueue
  refine .op trivial fun _ _ => .op ⟨trivial, trivial⟩ fun _ _ => .op trivial fun n hn => ?_
  rw [Prog.ret_bind]
  split
  · exact .abort
  · refine Obeys.loop (J := fun _ => True) (fun i _ => ?_) trivial
    refine (fillRxDescriptor_obeys i).mono fun r _ => ?_
    cases r with
    | inl j => trivial
    | inr u =>
      unfold enableRxQueue
      refine .op trivial fun _ _ => .op trivial fun _ _ => ?_
      refine Obeys.bind (p := waitSetReg32 .rxdctl queueEnable) ((waitSetReg32_obeys _ _).mono fun _ _ => ?_)
      exact .op trivial fun _ _ => .op trivial fun _ _ => .op trivial fun _ _ => .ret trivial

theorem startTxQueue_obeys : Obeys structDiscipline startTxQueue fun _ => True := by
  unfold startTxQueue
  refine .op trivial fun n _ => ?_
  rw [Prog.ret_bind]
  split
  · exact .abort
  · refine .op trivial fun _ _ => .op trivial fun _ _ => .op trivial fun _ _ => .op trivial fun _ _ => ?_
    exact waitSetReg32_obeys _ _

theorem ixgbeRxPacket_obeys : Obeys structDiscipline ixgbeRxPacket fun _ => True := by
  unfold ixgbeRxPacket
  refine .op trivial fun rxIndex (hindex : rxIndex < _) => .op trivial fun _ _ => .op trivial fun _ _ => ?_
  rw [Prog.ret_bind]
  split
  · split
    · exact .abort
    · refine .op trivial fun _ _ => .op trivial fun _ _ => .op hindex fun _ _ => .op trivial fun _ _ => ?_
      unfold rxRefill
      refine .op trivial fun _ _ => .op trivial fun b _ => ?_
      rw [Prog.ret_bind]
      cases b with
      | none => exact .abort
      | some newBuf =>
        refine .op trivial fun _ _ => .op trivial fun _ _ => .op trivial fun _ _ => ?_
        refine .op trivial fun n hn => ?_
        obtain rfl : n = queueEntries.num := hn
        refine .op ⟨trivial, incAndWrapRing_lt hindex⟩ fun _ _ => ?_
        exact .op trivial fun _ _ => .ret trivial
  · exact .ret trivial

theorem txClean_obeys (cur : Nat) {x : Nat} (hx : x < queueEntries.num) :
    Obeys structDiscipline (txClean cur x) fun r => match r with
      | .inl y => y < queueEntries.num
      | .inr y => y < queueEntries.num := by
  unfold txClean
  split
  · refine .op trivial fun _ _ => .op trivial fun _ _ => ?_
    rw [Prog.ret_bind]
    split
    · refine .op hx fun _ _ => .op trivial fun _ _ => .op trivial fun n hn => ?_
      obtain rfl : n = queueEntries.num := hn
      refine .ret ?_
      exact incAndWrapRing_lt hx
    · refine .ret ?_
      exact hx
  · refine .ret ?_
    exact hx

theorem ixgbeTxPacket_obeys (buf : Nat) : Obeys structDiscipline (ixgbeTxPacket buf) fun _ => True := by
  unfold ixgbeTxPacket
  refine .op trivial fun clean (hclean : clean < _) => .op trivial fun cur (hcur : cur < _) => ?_
  refine Obeys.loop (J := (· < queueEntries.num)) (fun x hx => ?_) hclean
  refine (txClean_obeys cur hx).mono fun r hr => ?_
  cases r with
  | inl y => exact hr
  | inr y =>
    refine .op ⟨trivial, hr⟩ fun _ _ => .op trivial fun n hn => ?_
    obtain rfl : n = queueEntries.num := hn
    rw [Prog.ret_bind]
    split
    · exact .ret trivial
    · unfold txPost
      refine .op ⟨hcur, trivial⟩ fun _ _ => .op trivial fun x (hx : x < _) => .op trivial fun n hn => ?_
      obtain rfl : n = queueEntries.num := hn
      refine .op ⟨trivial, incAndWrapRing_lt hx⟩ fun _ _ => .op trivial fun _ _ => ?_
      unfold txDescribe
      refine .op trivial fun _ _ => .op trivial fun _ _ => .op trivial fun _ _ => .op trivial fun _ _ => ?_
      refine .op trivial fun _ _ => .op trivial fun _ _ => .op trivial fun _ _ => ?_
      exact .op trivial fun _ _ => .ret trivial

/-! ## A single queue -/

/-- The state before `ixgbe_init`: the history starts in agreement. -/
structure MultiBoot (m : MultiDev) : Prop where
  strayed : m.strayed = false
  rx : ∀ i x, m.rxArea (i * sizeofRxQueue + x) = m.rxAlone i x
  tx : ∀ i x, m.txArea (i * sizeofTxQueue + x) = m.txAlone i x

theorem MultiBoot.isolated {m : MultiDev} (h : MultiBoot m) (queues : Nat) : QueuesIsolated queues m :=
  ⟨h.strayed, fun i _ x _ => h.rx i x, fun i _ x _ => h.tx i x⟩

/-- A device with one queue. `num_entries` is only known once it has been written. -/
structure OneQueue (rxReady txReady : Prop) (m : MultiDev) : Prop where
  queues : m.rxQueues = 1
  isolated : QueuesIsolated 1 m
  rx : ∀ f : RxField, (f = .numEntries → rxReady) → f.Holds ((m.rxQueue 0).get f)
  tx : ∀ f : TxField, (f = .numEntries → txReady) → f.Holds ((m.txQueue 0).get f)

theorem RxField.Holds.mod {f : RxField} {v : Nat} (h : f.Holds v) : f.Holds (v % 256 ^ f.width) := by
  cases f with
  | numEntries =>
    obtain rfl : v = queueEntries.num := h
    rfl
  | rxIndex => exact Nat.lt_of_le_of_lt (Nat.mod_le _ _) h
  | _ => trivial

theorem TxField.Holds.mod {f : TxField} {v : Nat} (h : f.Holds v) : f.Holds (v % 256 ^ f.width) := by
  cases f with
  | numEntries =>
    obtain rfl : v = queueEntries.num := h
    rfl
  | cleanIndex => exact Nat.lt_of_le_of_lt (Nat.mod_le _ _) h
  | txIndex => exact Nat.lt_of_le_of_lt (Nat.mod_le _ _) h
  | _ => trivial

theorem RxField.Used.inside {f : RxField} (h : f.Used) : rxOffset 0 f + f.width ≤ rxAreaSize 1 := by
  cases f with
  | virtualAddresses k =>
    have hk : k < 1024 := h
    simp only [rxOffset, RxField.offset, RxField.width, rxAreaSize, sizeofRxQueue, maxQueueEntries]
    omega
  | _ => decide

theorem TxField.Used.inside {f : TxField} (h : f.Used) : txOffset 0 f + f.width ≤ txAreaSize 1 := by
  cases f with
  | virtualAddresses k =>
    have hk : k < 1024 := h
    simp only [txOffset, TxField.offset, TxField.width, txAreaSize, sizeofTxQueue, maxQueueEntries]
    omega
  | _ => decide

namespace OneQueue

variable {rxReady txReady : Prop} {m : MultiDev}

theorem put (h : OneQueue rxReady txReady m) (i : Nat) (s : Dev) : OneQueue rxReady txReady (m.put i s) :=
  ⟨h.queues, ⟨h.isolated.inside, h.isolated.rx, h.isolated.tx⟩, h.rx, h.tx⟩

theorem touchRx (h : OneQueue rxReady txReady m) {f : RxField} (hf : f.Used) : m.touchRx 0 f = m := by
  have hin := hf.inside
  rw [← h.queues] at hin
  simp only [MultiDev.touchRx, decide_eq_true hin, Bool.not_true, Bool.or_false]

theorem touchTx (h : OneQueue rxReady txReady m) {f : TxField} (hf : f.Used) : m.touchTx 0 f = m := by
  have hin := hf.inside
  rw [← h.queues] at hin
  simp only [MultiDev.touchTx, decide_eq_true hin, Bool.not_true, Bool.or_false]

theorem storeRx (h : OneQueue rxReady txReady m) {f : RxField} {v : Nat} (hf : f.Used) (hv : f.Holds v) :
    OneQueue (rxReady ∨ f = .numEntries) txReady (m.storeRx 0 f v) where
  queues := h.queues
  isolated := by
    refine ⟨?_, fun i hi => ?_, h.isolated.tx⟩
    · change (m.touchRx 0 f).strayed = false
      rw [h.touchRx hf]
      exact h.isolated.inside
    · obtain rfl : i = 0 := by omega
      intro x hx
      change store f.width m.rxArea (rxOffset 0 f) v (0 * sizeofRxQueue + x) =
        Function.update m.rxAlone 0 (store f.width (m.rxAlone 0) f.offset v) 0 x
      rw [Function.update_self]
      exact store_shift (h.isolated.rx 0 (by omega)) _ _ _ x hx
  rx g hg := by
    rw [MultiDev.get_storeRx]
    split
    · rename_i hgf
      rw [hgf]
      exact hv.mod
    · rename_i hgf
      refine h.rx g fun hnum => (hg hnum).resolve_right fun hf => hgf ?_
      rw [hnum, hf]
  tx := h.tx

theorem storeTx (h : OneQueue rxReady txReady m) {f : TxField} {v : Nat} (hf : f.Used) (hv : f.Holds v) :
    OneQueue rxReady (txReady ∨ f = .numEntries) (m.storeTx 0 f v) where
  queues := h.queues
  isolated := by
    refine ⟨?_, h.isolated.rx, fun i hi => ?_⟩
    · change (m.touchTx 0 f).strayed = false
      rw [h.touchTx hf]
      exact h.isolated.inside
    · obtain rfl : i = 0 := by omega
      intro x hx
      change store f.width m.txArea (txOffset 0 f) v (0 * sizeofTxQueue + x) =
        Function.update m.txAlone 0 (store f.width (m.txAlone 0) f.offset v) 0 x
      rw [Function.update_self]
      exact store_shift (h.isolated.tx 0 (by omega)) _ _ _ x hx
  rx := h.rx
  tx g hg := by
    rw [MultiDev.get_storeTx]
    split
    · rename_i hgf
      rw [hgf]
      exact hv.mod
    · rename_i hgf
      refine h.tx g fun hnum => (hg hnum).resolve_right fun hf => hgf ?_
      rw [hnum, hf]

theorem weaken {rxReady' txReady' : Prop} (h : OneQueue rxReady txReady m) (hrx : rxReady' → rxReady)
    (htx : txReady' → txReady) : OneQueue rxReady' txReady' m :=
  ⟨h.queues, h.isolated, fun f hf => h.rx f fun hn => hrx (hf hn), fun f hf => h.tx f fun hn => htx (hf hn)⟩

theorem calloc (hstrayed : m.strayed = false) : OneQueue False False (m.calloc 1) where
  queues := rfl
  isolated := ⟨hstrayed, fun _ _ _ _ => rfl, fun _ _ _ _ => rfl⟩
  rx f hf := by
    cases f with
    | numEntries => exact absurd rfl hf
    | rxIndex => exact (by decide : (0 : Nat) < 1024)
    | _ => trivial
  tx f hf := by
    cases f with
    | numEntries => exact absurd rfl hf
    | cleanIndex => exact (by decide : (0 : Nat) < 1024)
    | txIndex => exact (by decide : (0 : Nat) < 1024)
    | _ => trivial

end OneQueue

/-- The NIC interferes, and the queues have to stay isolated. -/
def queueContract (queues : Nat) : Contract MultiDev where
  rely m m' := ∃ a, nicQueue a m = some m'
  guar _ _ := True
  inv := QueuesIsolated queues
  aborts _ _ := True

/-- Once the single queue has been initialised, functions work on it. -/
def oneQueueDiscipline : Discipline QueueOp QueueRet where
  allows
    | .on i o => i = 0 ∧ structDiscipline.allows o
    | .next => True
    | _ => False
  answers
    | .on _ o, r => structDiscipline.answers o r
    | .next, c => c.queue < 1
    | _, _ => True

section
variable {rxReady txReady : Prop} {m m' : MultiDev}

theorem OneQueue.stable : Stable (queueContract 1) (OneQueue rxReady txReady) := by
  refine ⟨?_, fun m h => h.isolated⟩
  rintro m m' h ⟨a, ha⟩
  obtain ⟨s, -, rfl⟩ := Option.map_eq_some_iff.mp ha
  exact h.put a.1 s

theorem OneQueue.access {o : QueueOp} {r : QueueRet o} (h : OneQueue True True m)
    (ho : oneQueueDiscipline.allows o) (he : execQueue o m = some (r, m')) :
    oneQueueDiscipline.answers o r ∧ OneQueue True True m' := by
  cases o with
  | calloc n => exact absurd ho id
  | rxRing i => exact absurd ho id
  | txRing i => exact absurd ho id
  | next =>
    simp only [execQueue] at he
    split at he
    · cases he
    · split at he
      · rename_i hq
        cases he
        rw [h.queues] at hq
        exact ⟨hq, h.queues, ⟨h.isolated.inside, h.isolated.rx, h.isolated.tx⟩, h.rx, h.tx⟩
      · cases he
  | on i o =>
    obtain ⟨rfl, ho⟩ := ho
    cases hs : o.onStruct with
    | false =>
      rw [execQueue, execOn_of_not_onStruct hs] at he
      obtain ⟨⟨r', s⟩, -, heq⟩ := Option.map_eq_some_iff.mp he
      cases heq
      refine ⟨?_, h.put 0 s⟩
      cases o <;> trivial
    | true =>
      cases o with
      | rxLd f =>
        cases he
        rw [h.touchRx ho]
        refine ⟨?_, h⟩
        have hf := h.rx f fun _ => trivial
        rw [MultiDev.rxQueue_get] at hf
        exact hf
      | rxSt f v =>
        cases he
        exact ⟨trivial, (h.storeRx ho.1 ho.2).weaken (fun _ => Or.inl trivial) id⟩
      | txLd f =>
        cases he
        rw [h.touchTx ho]
        refine ⟨?_, h⟩
        have hf := h.tx f fun _ => trivial
        rw [MultiDev.txQueue_get] at hf
        exact hf
      | txSt f v =>
        cases he
        exact ⟨trivial, (h.storeTx ho.1 ho.2).weaken id fun _ => Or.inl trivial⟩
      | _ => cases hs

theorem OneQueue.safe {α : Type} {p : QueueCode α} (hp : Obeys oneQueueDiscipline p fun _ => True)
    (h : OneQueue True True m) :
    Safe execQueue (queueContract 1) p (fun _ => OneQueue True True) m :=
  (hp.safe OneQueue.stable (fun _ _ => trivial) (fun _ _ _ _ hm ho he => hm.access ho he)
    (fun _ _ _ => trivial) h).mono fun _ _ hm => hm.2

theorem onQueue_obeys {α : Type} {p : Code α} (hp : Obeys structDiscipline p fun _ => True) :
    Obeys oneQueueDiscipline (onQueue 0 p) fun _ => True := by
  have hallows : ∀ o, structDiscipline.allows o → oneQueueDiscipline.allows (.on 0 o) := fun _ ho => ⟨rfl, ho⟩
  exact hp.relabel hallows fun _ _ _ hr => hr

theorem queueServe_obeys : Obeys oneQueueDiscipline (queueServe ()) fun r => ∃ u, r = .inl u := by
  unfold queueServe
  refine .op trivial fun c hc => ?_
  cases c with
  | rx i =>
    obtain rfl : i = 0 := Nat.lt_one_iff.mp hc
    exact Obeys.bind (p := onQueue 0 ixgbeRxPacket) ((onQueue_obeys ixgbeRxPacket_obeys).mono fun _ _ =>
      .ret ⟨(), rfl⟩)
  | tx i buf =>
    obtain rfl : i = 0 := Nat.lt_one_iff.mp hc
    exact Obeys.bind (p := onQueue 0 (ixgbeTxPacket buf))
      ((onQueue_obeys (ixgbeTxPacket_obeys buf)).mono fun _ _ => .ret ⟨(), rfl⟩)

end

theorem forQueues_safe {C : Contract MultiDev} {J : Nat → MultiDev → Prop} {n : Nat}
    {body : Nat → QueueCode Unit} (hJ : ∀ i, Stable C (J i)) (hguar : ∀ m m', C.guar m m')
    (hbody : ∀ i < n, ∀ m, J i m → Safe execQueue C (body i) (fun _ => J (i + 1)) m) {m : MultiDev}
    (hm : J 0 m) : Safe execQueue C (forQueues n body) (fun _ => J n) m := by
  unfold forQueues
  refine Safe.loop (J := fun i m => i ≤ n ∧ J i m) ?_ (fun _ m _ => hguar m m) ?_ ⟨Nat.zero_le n, hm⟩
  · exact fun i => ⟨fun m m' h hr => ⟨h.1, (hJ i).rely m m' h.2 hr⟩, fun m h => (hJ i).inv m h.2⟩
  · rintro i m ⟨hi, hm⟩
    unfold queuePass
    split
    · rename_i hlt
      refine Safe.bind ((hbody i hlt m hm).mono fun _ m' hm' => ?_)
      refine Safe.ret (hJ (i + 1)) ?_ hm'
      exact fun m h => ⟨hlt, h⟩
    · obtain rfl : i = n := by omega
      refine Safe.ret (hJ i) ?_ hm
      intro m h
      refine Safe.ret (hJ i) ?_ h
      exact fun _ h => h

section
variable {m : MultiDev}

theorem initRxQueue_safe {txReady : Prop} (h : OneQueue False txReady m) :
    Safe execQueue (queueContract 1) (initRxQueue 0) (fun _ => OneQueue True txReady) m := by
  unfold initRxQueue
  refine Safe.op OneQueue.stable ?_ h
  intro m virt m' h he
  refine ⟨trivial, ?_⟩
  simp only [execQueue] at he
  split at he
  · cases he
  · rename_i mem rest hsup
    cases he
    have h : OneQueue False txReady (m.newRxRing 0 mem rest) :=
      ⟨h.queues, ⟨h.isolated.inside, h.isolated.rx, h.isolated.tx⟩, h.rx, h.tx⟩
    refine Safe.step OneQueue.stable (fun m h => ⟨_, _, rfl, trivial, ?_⟩) h
    have h : OneQueue True txReady _ := (h.storeRx (f := .numEntries) trivial rfl).weaken (fun _ => Or.inr rfl) id
    refine Safe.step OneQueue.stable (fun m h => ⟨_, _, rfl, trivial, ?_⟩) h
    have h : OneQueue True txReady _ := (h.storeRx (f := .rxIndex) trivial queueEntries.pos).weaken Or.inl id
    refine Safe.step OneQueue.stable (fun m h => ⟨_, _, rfl, trivial, ?_⟩) h
    have h : OneQueue True txReady _ :=
      (h.storeRx (f := .descriptors) (v := mem.virt) trivial trivial).weaken Or.inl id
    refine Safe.ret (a := ()) OneQueue.stable ?_ h
    exact fun _ h => h

theorem initTxQueue_safe (h : OneQueue True False m) :
    Safe execQueue (queueContract 1) (initTxQueue 0) (fun _ => OneQueue True True) m := by
  unfold initTxQueue
  refine Safe.op OneQueue.stable ?_ h
  intro m virt m' h he
  refine ⟨trivial, ?_⟩
  simp only [execQueue] at he
  split at he
  · cases he
  · rename_i mem rest hsup
    cases he
    have h : OneQueue True False (m.newTxRing 0 mem rest) :=
      ⟨h.queues, ⟨h.isolated.inside, h.isolated.rx, h.isolated.tx⟩, h.rx, h.tx⟩
    refine Safe.step OneQueue.stable (fun m h => ⟨_, _, rfl, trivial, ?_⟩) h
    have h : OneQueue True True _ := (h.storeTx (f := .numEntries) trivial rfl).weaken id fun _ => Or.inr rfl
    refine Safe.step OneQueue.stable (fun m h => ⟨_, _, rfl, trivial, ?_⟩) h
    have h : OneQueue True True _ :=
      (h.storeTx (f := .descriptors) (v := mem.virt) trivial trivial).weaken id Or.inl
    refine Safe.ret (a := ()) OneQueue.stable ?_ h
    exact fun _ h => h

theorem queuesMain_safe (h : MultiBoot m) :
    Safe execQueue (queueContract 1) (queuesMain 1 1) (fun _ _ => False) m := by
  have hboot : Stable (queueContract 1) MultiBoot := by
    refine ⟨?_, fun m h => h.isolated 1⟩
    rintro m m' h ⟨a, ha⟩
    obtain ⟨s, -, rfl⟩ := Option.map_eq_some_iff.mp ha
    exact ⟨h.strayed, h.rx, h.tx⟩
  have hinit : Safe execQueue (queueContract 1) (ixgbeInit 1 1) (fun _ => OneQueue True True) m := by
    unfold ixgbeInit
    rw [if_neg (by decide), if_neg (by decide)]
    refine Safe.step hboot (fun m h => ⟨_, _, rfl, trivial, ?_⟩) h
    unfold resetAndInit
    refine Safe.bind (p := forQueues 1 initRxQueue) ((forQueues_safe (J := fun i => OneQueue (0 < i) False)
      (fun _ => OneQueue.stable) (fun _ _ => trivial) (fun i hi m h => ?_)
      ((OneQueue.calloc h.strayed).weaken (Nat.lt_irrefl 0) id)).mono fun _ m h => ?_)
    · obtain rfl : i = 0 := by omega
      exact (initRxQueue_safe (h.weaken False.elim id)).mono fun _ _ h => h.weaken (fun _ => trivial) id
    refine Safe.bind (p := forQueues 1 initTxQueue) ((forQueues_safe (J := fun i => OneQueue True (0 < i))
      (fun _ => OneQueue.stable) (fun _ _ => trivial) (fun i hi m h => ?_)
      (h.weaken (fun _ => Nat.one_pos) (Nat.lt_irrefl 0))).mono fun _ m h => ?_)
    · obtain rfl : i = 0 := by omega
      exact (initTxQueue_safe (h.weaken id False.elim)).mono fun _ _ h => h.weaken id fun _ => trivial
    have h : OneQueue True True m := h.weaken id fun _ => Nat.one_pos
    refine Safe.bind (p := forQueues 1 fun i => onQueue i startRxQueue)
      ((forQueues_safe (J := fun _ => OneQueue True True) (fun _ => OneQueue.stable) (fun _ _ => trivial)
        (fun i hi m h => ?_) h).mono fun _ m h => ?_)
    · obtain rfl : i = 0 := by omega
      exact h.safe (onQueue_obeys startRxQueue_obeys)
    refine forQueues_safe (J := fun _ => OneQueue True True) (fun _ => OneQueue.stable) (fun _ _ => trivial)
      (fun i hi m h => ?_) h
    obtain rfl : i = 0 := by omega
    exact h.safe (onQueue_obeys startTxQueue_obeys)
  unfold queuesMain
  refine Safe.bind (p := ixgbeInit 1 1) (hinit.mono fun _ m h => ?_)
  refine Safe.loop (J := fun _ => OneQueue True True) (fun _ => OneQueue.stable) (fun _ _ _ => trivial) ?_ h
  intro _ m h
  refine (queueServe_obeys.safe OneQueue.stable (fun _ _ => trivial) (fun _ _ _ _ hm ho he => hm.access ho he)
    (fun _ _ _ => trivial) h).mono fun r m hm => ?_
  obtain ⟨⟨u, rfl⟩, hm⟩ := hm
  exact hm

end

/-! ## Two queues -/

/-- A device before `ixgbe_init`, for which there is memory for `rings`. -/
def multiBootDev (rings : List DmaMemory) : MultiDev where
  w := ⟨fun _ => 0, fun _ => ⟨0, 0, 0, 0, 0, fun _ => 0⟩, [], []⟩
  rxQueues := 0
  rxArea := fun _ => 0
  txArea := fun _ => 0
  rx := fun _ => ⟨fun _ => ⟨0, 0⟩, 0, 0, 0, 0, 0, fun _ => 0, fun _ => false, []⟩
  tx := fun _ => ⟨fun _ => ⟨0, 0, 0⟩, 0, 0, 0, 0, 0, [], [], [], []⟩
  app := ⟨[], [], [], true, [], [], [], 0⟩
  dmaView := id
  ringSupply := rings
  calls := []
  rxAlone := fun _ _ => 0
  txAlone := fun _ _ => 0
  strayed := false

theorem multiBootDev_boot (rings : List DmaMemory) : MultiBoot (multiBootDev rings) :=
  ⟨rfl, fun _ _ => rfl, fun _ _ => rfl⟩

section
variable {m : MultiDev} {i q : Nat} {mem : DmaMemory} {rest : List DmaMemory}

/-- The stores of `init_rx` for queue `i`. -/
def rxInited (m : MultiDev) (i : Nat) (mem : DmaMemory) (rest : List DmaMemory) : MultiDev :=
  (((m.newRxRing i mem rest).storeRx i .numEntries queueEntries.num).storeRx i .rxIndex 0).storeRx i
    .descriptors mem.virt

theorem evals_initRxQueue (h : m.ringSupply = mem :: rest) :
    Prog.Evals execQueue (initRxQueue i) m (.done () (rxInited m i mem rest)) := by
  unfold initRxQueue
  refine .op (r := mem.virt) (u := m.newRxRing i mem rest) ?_ ⟨5, rfl⟩
  simp only [execQueue, h]

theorem evals_queuePass {body : Nat → QueueCode Unit} {m' : MultiDev} (hi : i < q)
    (h : Prog.Evals execQueue (body i) m (.done () m')) :
    Prog.Evals execQueue (queuePass q body i) m (.done (.inl (i + 1)) m') := by
  unfold queuePass
  rw [if_pos hi]
  exact h.bind (.ret _ _)

/-- `num_entries` of queue 1 lies over `virtual_addresses[2]` of queue 0. -/
theorem rxInited_not_isolated (hq : 1 < q) (mem₀ mem₁ : DmaMemory) {rest rest' : List DmaMemory}
    (hzero : m.rxAlone 0 41 = 0) :
    ¬ QueuesIsolated q (rxInited (rxInited m 0 mem₀ rest) 1 mem₁ rest') := by
  intro h
  have harea : (rxInited (rxInited m 0 mem₀ rest) 1 mem₁ rest').rxArea 41 = 4 := rfl
  have halone : (rxInited (rxInited m 0 mem₀ rest) 1 mem₁ rest').rxAlone 0 41 = m.rxAlone 0 41 := rfl
  have hbyte := h.rx 0 (by omega) 41 (by decide)
  rw [show 0 * sizeofRxQueue + 41 = 41 from rfl, harea, halone, hzero] at hbyte
  exact absurd hbyte (by decide)

/-- With a second queue, `init_rx` for it changes the bytes of the first. -/
theorem queues_overlap (hq : 1 < q) (hmax : q ≤ maxQueues) (mem₀ mem₁ : DmaMemory) :
    ∃ ts c, Conf.run execQueue nicQueue ts ⟨multiBootDev [mem₀, mem₁], queuesMain q q⟩ = some c ∧
      ¬ QueuesIsolated q c.state := by
  have hnot : ¬ q > maxQueues := Nat.not_lt.mpr hmax
  obtain ⟨k, hk⟩ : ∃ k : Unit → QueueCode Unit,
      queuesMain q q = .op (.calloc q) fun _ => (forQueues q initRxQueue).bind k := by
    unfold queuesMain ixgbeInit
    rw [if_neg hnot, if_neg hnot]
    exact ⟨_, rfl⟩
  obtain ⟨n₀, h₀⟩ := Conf.run_loop_next execQueue nicQueue k (evals_queuePass (q := q) (i := 0) (by omega)
    (evals_initRxQueue (m := (multiBootDev [mem₀, mem₁]).calloc q) rfl))
  obtain ⟨n₁, h₁⟩ := Conf.run_loop_next execQueue nicQueue k (evals_queuePass hq
    (evals_initRxQueue (m := rxInited ((multiBootDev [mem₀, mem₁]).calloc q) 0 mem₀ [mem₁]) rfl))
  have hrun := Option.bind_eq_some_iff.mpr ⟨_, h₀, h₁⟩
  rw [← Conf.run_append] at hrun
  refine ⟨.prog :: (List.replicate n₀ .prog ++ List.replicate n₁ .prog),
    ⟨rxInited (rxInited ((multiBootDev [mem₀, mem₁]).calloc q) 0 mem₀ [mem₁]) 1 mem₁ [],
      .loop (queuePass q initRxQueue) 2 k⟩, ?_, rxInited_not_isolated hq mem₀ mem₁ rfl⟩
  rw [hk]
  exact hrun

end

/-- **Main result.** The queues of a device are isolated in all its runs exactly if there is only one. -/
theorem queues_isolated_iff (q : Nat) (hpos : 1 ≤ q) (hmax : q ≤ maxQueues) :
    (∀ m ts c, MultiBoot m → Conf.run execQueue nicQueue ts ⟨m, queuesMain q q⟩ = some c →
      QueuesIsolated q c.state) ↔ q = 1 := by
  constructor
  · intro h
    by_contra hne
    obtain ⟨ts, c, hrun, hnot⟩ := queues_overlap (q := q) (by omega) hmax ⟨0, 0⟩ ⟨0, 0⟩
    exact hnot (h _ ts c (multiBootDev_boot _) hrun)
  · rintro rfl m ts c hm hrun
    have henv : ∀ a m m', nicQueue a m = some m' → (queueContract 1).rely m m' := fun a _ _ ha => ⟨a, ha⟩
    exact ((queuesMain_safe hm).run henv hrun).inv

/-- Both directions, at one queue (a run through `init_rx`) and at two. -/
theorem queues_isolated_iff_one : (1 ≤ 1 ∧ 1 ≤ maxQueues) ∧
    (∃ c, Conf.run execQueue nicQueue (List.replicate 6 .prog)
        ⟨multiBootDev [⟨0x200000, 0x200000⟩], queuesMain 1 1⟩ = some c ∧
      (c.state.rxQueue 0).numEntries = 1024 ∧ QueuesIsolated 1 c.state) ∧
    ¬ ∀ m ts c, MultiBoot m → Conf.run execQueue nicQueue ts ⟨m, queuesMain 2 2⟩ = some c →
      QueuesIsolated 2 c.state := by
  refine ⟨by decide, ⟨_, rfl, rfl, ?_⟩, fun h => ?_⟩
  · exact (queues_isolated_iff 1 (by decide) (by decide)).mpr rfl (multiBootDev [⟨0x200000, 0x200000⟩])
      (List.replicate 6 .prog) _ (multiBootDev_boot _) rfl
  · exact absurd ((queues_isolated_iff 2 (by decide) (by decide)).mp h) (by decide)

/-- With two queues, once `init_rx` has written `num_entries` of queue 1, `virtual_addresses[2]` of queue 0
holds it. -/
theorem queues_counterexample : MultiBoot (multiBootDev [⟨0x200000, 0x200000⟩, ⟨0x400000, 0x400000⟩]) ∧
    ∃ c, Conf.run execQueue nicQueue (List.replicate 9 .prog)
        ⟨multiBootDev [⟨0x200000, 0x200000⟩, ⟨0x400000, 0x400000⟩], queuesMain 2 2⟩ = some c ∧
      (c.state.rxQueue 0).virtualAddresses 2 = 1024 ∧ load 8 (c.state.rxAlone 0) (24 + 8 * 2) = 0 ∧
      ¬ QueuesIsolated 2 c.state := by
  refine ⟨multiBootDev_boot _, _, rfl, rfl, rfl, fun h => ?_⟩
  exact absurd (h.rx 0 (by decide) 41 (by decide)) (by decide)

end Ixy
