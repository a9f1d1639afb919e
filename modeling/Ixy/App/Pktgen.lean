import Ixy.Driver.TxFifo
import Ixy.Lib.Ends

/-!
# `ixy-pktgen`: the pool

`init_mempool` drains a pool of 2048 buffers to write the packet into each of them, and gives them all back. The free
stack is followed as a list (`PgPool`), because its order matters later: it is drained from entry 2047 down to entry 0
and given back in that order, so entry 0 ends up on top.

`initMempool_safe` says what the buffers hold in the end, whatever the NIC does meanwhile, and `initMempool_ends` that
the end is reached.
-/

namespace Ixy

open Lib

/-- `PKT_SIZE`. -/
def pktSize : Nat := 60

/-- `NUM_BUFS`. -/
def numBufs : Nat := 2048

/-- Using the result of a `pkt_buf_alloc` that failed. -/
def nullBuffer : String := "null pointer dereferenced"

/-- One pass of the inner loop of `init_mempool`. -/
def fillData (buf i : Nat) : Code (Nat ⊕ Unit) :=
  if i < pktSize then do
    Prog.access (Op.dataSt buf i 0xFF)
    return .inl (i + 1)
  else return .inr ()

/-- One pass of the first loop of `init_mempool`; `bufs` is the array filled so far. -/
def fillBuf (mempool : Nat) (bufs : List Nat) : Code (List Nat ⊕ List Nat) :=
  if bufs.length < numBufs then do
    let r ← alloc mempool
    match r with
    | none => .abort nullBuffer
    | some buf => do
      bufSt buf .size pktSize
      Prog.iterate (fillData buf) 0
      return .inl (bufs ++ [buf])
  else return .inr bufs

/-- One pass of the second loop of `init_mempool`, with the buffers yet to be returned. -/
def freeBuf : List Nat → Code (List Nat ⊕ Unit)
  | [] => return .inr ()
  | buf :: bufs => do
    free buf
    return .inl bufs

/-- `init_mempool`. -/
def initMempool : Code Nat := do
  let mempool ← Prog.access (Op.poolNew numBufs 0)
  let bufs ← Prog.iterate (fillBuf mempool) []
  Prog.iterate freeBuf bufs
  return mempool

/-- Retry until there is space in the queue. -/
def pktgenTry (buf : Nat) (_ : Unit) : Code (Unit ⊕ Unit) := do
  let r ← ixgbeTxPacket buf
  if r = 0 then return .inl () else return .inr ()

/-- One pass of the send loop. -/
def pktgenSend (mempool : Nat) (_ : Unit) : Code (Unit ⊕ Unit) := do
  let r ← alloc mempool
  match r with
  | none => .abort nullBuffer
  | some buf => do
    Prog.iterate (pktgenTry buf) ()
    return .inl ()

/-- `main` of `ixy-pktgen`, without the statistics. -/
def pktgenMain : Code Unit := do
  let mempool ← initMempool
  startTxQueue
  Prog.access Op.idle
  Prog.iterate (pktgenSend mempool) ()

/-! ## The pool -/

/-- The buffer `b` holds the packet. -/
structure Template (m : Mem) (b : Nat) : Prop where
  size : PktBuf.get m b .size = pktSize
  data : ∀ j < pktSize, m (b + PktBuf.dataOffset + j) = 0xFF

/-- The state at the start: no pool has been made. -/
structure PgInit (s : Dev) : Prop extends TxStart queueEntries s where
  live : s.w.live = []
  out : s.w.out = []
  busy : s.app.busy = true
  ptr_lt : ∀ ptr dma rest, s.app.supply = (ptr, dma) :: rest → ptr < 2 ^ 64

/-- The pool `mp` at `ptr` that `init_mempool` makes, when it starts in `s₀`. -/
structure Mempool.ForPktgen (mp : Mempool) (ptr : Nat) (s₀ : Dev) : Prop where
  sized : mp.Sized ptr
  entries : mp.numEntries = numBufs
  bufSize : mp.bufSize = 2048
  supply : ∃ dma rest, s₀.app.supply = (ptr, dma) :: rest ∧ mp.baseAddr = dma.virt ∧ mp.baseAddrPhy = dma.phy

/-- Of the memory, only that of the pool has been written. -/
def PgOutside (s₀ : Dev) (m : Mem) : Prop :=
  ∀ ptr dma rest, s₀.app.supply = (ptr, dma) :: rest →
    ∀ x, (x < dma.virt ∨ dma.virt + numBufs * 2048 ≤ x) → m x = s₀.w.mem x

/-- The world with that pool only, somewhere along the program; `free` is the free stack. -/
structure PgPool (mp : Mempool) (ptr : Nat) (s₀ : Dev) (free : List Nat) (w : World) : Prop where
  pools : PoolsOk w
  live : w.live = [ptr]
  layout : mp.SameLayout (w.pools ptr)
  stack : (w.pools ptr).free = free
  count : free.length + w.out.length = numBufs
  outside : PgOutside s₀ w.mem

section
variable {mp : Mempool} {ptr i : Nat} {s₀ : Dev} {l : List Nat} {w : World}

theorem Mempool.ForPktgen.entryAddr (h : mp.ForPktgen ptr s₀) (hi : i < numBufs) :
    mp.entryAddr i = mp.baseAddr + i * 2048 := by
  rw [h.sized.entryAddr_eq (by rw [h.entries]; exact hi), h.bufSize]

namespace PgPool

theorem mem_live (h : PgPool mp ptr s₀ l w) : ptr ∈ w.live := by
  rw [h.live]
  exact List.mem_singleton_self ptr

theorem ok (h : PgPool mp ptr s₀ l w) : PoolsOk w ∧ PgOutside s₀ w.mem := ⟨h.pools, h.outside⟩

theorem top_eq (h : PgPool mp ptr s₀ l w) : (w.pools ptr).freeStackTop = l.length := by
  rw [← h.stack, Mempool.free, stackList_length]

theorem header (h : PgPool mp ptr s₀ l w) (hmp : mp.ForPktgen ptr s₀) (hi : i < numBufs) :
    HeaderOk w.mem ptr mp i := by
  have hheader := h.pools.headers ptr h.mem_live i (by rw [h.layout.numEntries, hmp.entries]; exact hi)
  obtain ⟨hphy, hpool, hidx⟩ := hheader
  rw [h.layout.entryAddr] at hphy hpool hidx
  rw [h.layout.baseAddrPhy, h.layout.bufSize] at hphy
  exact ⟨hphy, hpool, hidx⟩

theorem mem_out (h : PgPool mp ptr s₀ l w) (hmp : mp.ForPktgen ptr s₀) (hi : i < numBufs) (hfree : i ∉ l) :
    mp.entryAddr i ∈ w.out := by
  have hsplit := (h.pools.split ptr h.mem_live).mem_iff i
  rw [h.stack, h.layout.numEntries, hmp.entries, h.layout.entryAddr] at hsplit
  by_contra hout
  exact hfree (hsplit.mpr ⟨hi, hout⟩)

theorem alloc (h : PgPool mp ptr s₀ (l ++ [i]) w) (hmp : mp.ForPktgen ptr s₀) :
    i < numBufs ∧ mp.entryAddr i ∉ w.out ∧ (pktBufAlloc w ptr).1 = some (mp.entryAddr i) ∧
      (pktBufAlloc w ptr).2.out = mp.entryAddr i :: w.out ∧ PgPool mp ptr s₀ l (pktBufAlloc w ptr).2 := by
  have htop := h.top_eq
  rw [List.length_append, List.length_singleton] at htop
  have hstack := h.stack
  rw [Mempool.free, htop, stackList_succ] at hstack
  obtain ⟨hstack, hi⟩ := List.append_inj' hstack rfl
  have halloc := pktBufAlloc_of_ne (w := w) (p := ptr) (by omega)
  rw [htop, Nat.add_sub_cancel, List.singleton_inj.mp hi, h.layout.entryAddr] at halloc
  obtain ⟨hlt, hnot⟩ := ((h.pools.split ptr h.mem_live).mem_iff i).mp (by rw [h.stack]; simp)
  rw [h.layout.numEntries, hmp.entries] at hlt
  rw [h.layout.entryAddr] at hnot
  obtain ⟨-, -, -, -, -, hok⟩ := pktBufAlloc_ok h.pools h.mem_live (by omega)
  have hcount := h.count
  rw [List.length_append, List.length_singleton] at hcount
  refine ⟨hlt, hnot, by rw [halloc], by rw [halloc], hok, ?_, h.layout.trans (pktBufAlloc_layout w ptr ptr), ?_, ?_, ?_⟩
  · rw [pktBufAlloc_live, h.live]
  · rw [halloc]
    dsimp only
    rw [Function.update_self, Mempool.free, Mempool.pop, htop, Nat.add_sub_cancel]
    exact hstack
  · rw [halloc, List.length_cons]
    omega
  · rw [pktBufAlloc_mem]
    exact h.outside

theorem free (h : PgPool mp ptr s₀ l w) (hmp : mp.ForPktgen ptr s₀) (hi : i < numBufs)
    (hout : mp.entryAddr i ∈ w.out) : PgPool mp ptr s₀ (l ++ [i]) (pktBufFree w (mp.entryAddr i)) := by
  have hheader := h.header hmp hi
  have hcount := h.count
  have hpos := List.length_pos_of_mem hout
  have hlen : (pktBufFree w (mp.entryAddr i)).out.length = w.out.length - 1 := List.length_erase_of_mem hout
  refine ⟨pktBufFree_ok h.pools hout, h.live, h.layout.trans (pktBufFree_layout w _ ptr), ?_, ?_, h.outside⟩
  · dsimp only [pktBufFree]
    rw [hheader.mempool, hheader.mempoolIdx, Function.update_self, Mempool.free, Mempool.push, h.top_eq,
      Nat.mod_eq_of_lt (by rw [numBufs] at hcount; omega), stackList_push, ← h.top_eq]
    exact congrArg (· ++ [i]) h.stack
  · rw [List.length_append, List.length_singleton, hlen]
    omega

theorem write {m : Mem} (h : PgPool mp ptr s₀ l w) (hmp : mp.ForPktgen ptr s₀) (hm : PgOutside s₀ m)
    (hkeep : ∀ i < numBufs, ∀ f, f ≠ .size →
      PktBuf.get m (mp.entryAddr i) f = PktBuf.get w.mem (mp.entryAddr i) f) :
    PgPool mp ptr s₀ l { w with mem := m } := by
  refine ⟨PoolOp.apply_ok (.write m) h.pools ?_, h.live, h.layout, h.stack, h.count, hm⟩
  intro q hq i hi f hf
  rw [h.live, List.mem_singleton] at hq
  subst hq
  rw [h.layout.entryAddr]
  rw [h.layout.numEntries, hmp.entries] at hi
  exact hkeep i hi f hf

end PgPool

/-! ## Filling a buffer -/

/-- A write to buffer `i`, past its header or to its size. -/
structure PgWrite (mp : Mempool) (i : Nat) (m m' : Mem) : Prop where
  outside : ∀ x, (x < mp.entryAddr i ∨ mp.entryAddr i + 2048 ≤ x) → m' x = m x
  header : ∀ f, f ≠ .size → PktBuf.get m' (mp.entryAddr i) f = PktBuf.get m (mp.entryAddr i) f

namespace PgWrite
variable {j : Nat} {m m' : Mem}

theorem setSize (mp : Mempool) (i : Nat) (m : Mem) (v : Nat) :
    PgWrite mp i m (PktBuf.set m (mp.entryAddr i) .size v) := by
  refine ⟨fun x hx => store_of_not_mem ?_, fun f hf => PktBuf.get_set_of_ne m _ v hf⟩
  simp only [PktBuf.Field.offset, PktBuf.Field.width]
  omega

theorem setByte (mp : Mempool) (i : Nat) (m : Mem) {k : Nat} (hk : k < pktSize) (v : UInt8) :
    PgWrite mp i m (Function.update m (mp.entryAddr i + PktBuf.dataOffset + k) v) := by
  rw [pktSize] at hk
  refine ⟨fun x hx => Function.update_of_ne ?_ _ _, fun f _ => PktBuf.get_congr f fun x hx hx' =>
    Function.update_of_ne ?_ _ _⟩ <;> rw [PktBuf.dataOffset] <;> omega

theorem other (h : PgWrite mp i m m') (hmp : mp.ForPktgen ptr s₀) (hi : i < numBufs) (hj : j < numBufs)
    (hij : j ≠ i) {x : Nat} (hx : mp.entryAddr j ≤ x) (hx' : x < mp.entryAddr j + 2048) : m' x = m x := by
  refine h.outside x ?_
  rw [hmp.entryAddr hi]
  rw [hmp.entryAddr hj] at hx hx'
  omega

theorem keep (h : PgWrite mp i m m') (hmp : mp.ForPktgen ptr s₀) (hi : i < numBufs) (hj : j < numBufs)
    {f : PktBuf.Field} (hf : j ≠ i ∨ f ≠ .size) :
    PktBuf.get m' (mp.entryAddr j) f = PktBuf.get m (mp.entryAddr j) f := by
  by_cases hij : j = i
  · subst hij
    exact h.header f (hf.resolve_left fun hne => hne rfl)
  · exact PktBuf.get_congr f fun x hx hx' => h.other hmp hi hj hij hx (by omega)

theorem pool (h : PgWrite mp i w.mem m') (hw : PgPool mp ptr s₀ l w) (hmp : mp.ForPktgen ptr s₀)
    (hi : i < numBufs) : PgPool mp ptr s₀ l { w with mem := m' } := by
  refine hw.write hmp ?_ fun _ hj _ hf => h.keep hmp hi hj (Or.inr hf)
  intro q dma rest hsup x hx
  obtain ⟨dma', rest', hsup', hbase, -⟩ := hmp.supply
  rw [hsup] at hsup'
  cases hsup'
  rw [← hw.outside ptr dma rest hsup x hx]
  refine h.outside x ?_
  rw [hmp.entryAddr hi, hbase]
  rw [numBufs] at hi hx
  omega

theorem template (h : PgWrite mp i m m') (hmp : mp.ForPktgen ptr s₀) (hi : i < numBufs) (hj : j < numBufs)
    (hij : j ≠ i) (ht : Template m (mp.entryAddr j)) : Template m' (mp.entryAddr j) := by
  refine ⟨(h.keep hmp hi hj (Or.inl hij)).trans ht.size, fun k hk => ?_⟩
  rw [← ht.data k hk]
  rw [pktSize] at hk
  exact h.other hmp hi hj hij (by omega) (by rw [PktBuf.dataOffset]; omega)

end PgWrite
end

/-! ## What holds at every moment -/

/-- The packet `e` is one of the first 1024 buffers of the pool, and holds the template. -/
def PgSent (s₀ : Dev) (m : Mem) (e : TxEntry) : Prop :=
  ∃ ptr dma rest, s₀.app.supply = (ptr, dma) :: rest ∧ ∃ i < 1024, e.buf = dma.virt + i * 2048 ∧
    e.phy = (dma.phy + i * 2048) % 2 ^ 64 ∧ e.size = pktSize ∧ Template m e.buf

/-- What holds in the state `s` when the start was in `s₀`. -/
structure PgOk (s₀ s : Dev) : Prop where
  history : TxHistory queueEntries s.tx
  world : TxWorld s.tx.inFlight s.w
  view : s.dmaView = s₀.dmaView
  outside : PgOutside s₀ s.w.mem
  accepted : ∀ e ∈ s.tx.accepted, PgSent s₀ s.w.mem e
  /-- Once it sends, all buffers hold the packet, and are free, in flight or in hand. -/
  sending : s.app.busy = false → ∃ ptr, s.w.live = [ptr] ∧ (s.w.pools ptr).numEntries = numBufs ∧
    (∀ i < numBufs, Template s.w.mem ((s.w.pools ptr).entryAddr i)) ∧
    (s.w.pools ptr).freeStackTop + s.tx.inFlight.length ≤ numBufs ∧
    numBufs ≤ (s.w.pools ptr).freeStackTop + s.tx.inFlight.length + 1

/-- The NIC interferes, and nothing aborts. -/
abbrev pgContract (s₀ : Dev) : Contract Dev := driverContract noFrames (PgOk s₀) noAborts

/-! ## `init_mempool` -/

/-- Before anything is sent, with a world in `X`. -/
def PgAt (s₀ : Dev) (X : World → Prop) (s : Dev) : Prop :=
  ∃ app : App, app.busy = true ∧ At { s₀ with app := app } X anyRx
    (TxAt queueEntries s₀.txq.descriptors [] 0 0 s₀.txq.virtualAddresses anyDesc) s

section
variable {s₀ : Dev} {X Y : World → Prop} {mp : Mempool} {ptr i k : Nat} {w : World}

theorem pgHeld_empty {app : App} (hX : ∀ w, X w → PoolsOk w ∧ PgOutside s₀ w.mem) (hbusy : app.busy = true) :
    Held noFrames (PgOk s₀) { s₀ with app := app } X anyRx
      (TxAt queueEntries s₀.txq.descriptors [] 0 0 s₀.txq.virtualAddresses anyDesc) := by
  refine .quiet anyRx_stable TxAt.stable fun w r t hw _ ht => ⟨ht.history, ?_, rfl, (hX w hw).2, ?_, fun hb => ?_⟩
  · change TxWorld t.inFlight w
    rw [ht.inFlight]
    exact .nil (hX w hw).1
  · change ∀ e ∈ t.accepted, _
    rw [ht.accepted]
    exact fun e he => absurd he List.not_mem_nil
  · change app.busy = false at hb
    rw [hbusy] at hb
    cases hb

theorem PgAt.stable (hX : ∀ w, X w → PoolsOk w ∧ PgOutside s₀ w.mem) :
    Stable (pgContract s₀) (PgAt s₀ X) :=
  .cover fun _ ⟨app, hbusy, hat⟩ => ⟨_, At.stable (pgHeld_empty hX hbusy), hat, fun _ hat => ⟨app, hbusy, hat⟩⟩

theorem PgAt.mono {s : Dev} (h : PgAt s₀ X s) (hXY : ∀ w, X w → Y w) : PgAt s₀ Y s := by
  obtain ⟨app, hbusy, w, r, t, hs, hw, hrest⟩ := h
  exact ⟨app, hbusy, w, r, t, hs, hXY w hw, hrest⟩

/-- One access that changes the world only, from `X` to `Y`. -/
theorem PgAt.step {α : Type} {o : Op} {f : Ret o → Code α} {Q : α → Dev → Prop} (Y : Ret o → World → Prop)
    (hX : ∀ w, X w → PoolsOk w ∧ PgOutside s₀ w.mem)
    (hstep : ∀ d : Dev, X d.w → ∃ a w app, exec o d = some (a, { d with w := w, app := app }) ∧
      app.busy = d.app.busy ∧ Y a w)
    (hf : ∀ a s, PgAt s₀ (Y a) s → Safe exec (pgContract s₀) (f a) Q s)
    {s : Dev} (hs : PgAt s₀ X s) : Safe exec (pgContract s₀) (.op o f) Q s := by
  refine Safe.step (PgAt.stable hX) ?_ hs
  rintro _ ⟨app, hbusy, w, r, t, rfl, hw, hr, ht⟩
  obtain ⟨a, w', app', he, happ, hY⟩ := hstep (Dev.put { s₀ with app := app } w r t) hw
  exact ⟨a, _, he, trivial, hf a _ ⟨app', happ.trans hbusy, w', r, t, rfl, hY, hr, ht⟩⟩

/-- The last `k` entries have been taken and filled. -/
structure PgFilled (mp : Mempool) (ptr : Nat) (s₀ : Dev) (k : Nat) (w : World) : Prop where
  pool : PgPool mp ptr s₀ (List.range (numBufs - k)) w
  filled : ∀ i < numBufs, numBufs - k ≤ i → Template w.mem (mp.entryAddr i)

/-- Entry `i` before them has been taken as well, and its first `j` bytes have been filled. -/
structure PgFilling (mp : Mempool) (ptr : Nat) (s₀ : Dev) (i j : Nat) (w : World) : Prop where
  lt : i < numBufs
  pool : PgPool mp ptr s₀ (List.range i) w
  filled : ∀ i' < numBufs, i < i' → Template w.mem (mp.entryAddr i')
  size : PktBuf.get w.mem (mp.entryAddr i) .size = pktSize
  data : ∀ k < j, w.mem (mp.entryAddr i + PktBuf.dataOffset + k) = 0xFF

theorem PgFilling.byte {j : Nat} (h : PgFilling mp ptr s₀ i j w) (hmp : mp.ForPktgen ptr s₀) (hj : j < pktSize) :
    PgFilling mp ptr s₀ i (j + 1)
      { w with mem := Function.update w.mem (mp.entryAddr i + PktBuf.dataOffset + j) 0xFF } := by
  have hwrite := PgWrite.setByte mp i w.mem hj 0xFF
  refine ⟨h.lt, hwrite.pool h.pool hmp h.lt, fun i' hi' hlt => ?_, ?_, fun k hk => ?_⟩
  · exact hwrite.template hmp h.lt hi' (by omega) (h.filled i' hi' hlt)
  · refine (PktBuf.get_congr .size fun x hx hx' => Function.update_of_ne ?_ _ _).trans h.size
    rw [PktBuf.dataOffset]
    omega
  · by_cases hkj : k = j
    · rw [hkj]
      exact Function.update_self ..
    · exact (Function.update_of_ne (by omega) _ _).trans (h.data k (by omega))

theorem PgFilled.taken (h : PgFilled mp ptr s₀ k w) (hmp : mp.ForPktgen ptr s₀) (hk : k < numBufs) :
    (pktBufAlloc w ptr).1 = some (mp.entryAddr (numBufs - 1 - k)) ∧
    (PoolsOk (pktBufAlloc w ptr).2 ∧ PgOutside s₀ (pktBufAlloc w ptr).2.mem) ∧
    PgFilling mp ptr s₀ (numBufs - 1 - k) 0 { (pktBufAlloc w ptr).2 with
      mem := PktBuf.set (pktBufAlloc w ptr).2.mem (mp.entryAddr (numBufs - 1 - k)) .size pktSize } := by
  have hpool := h.pool
  rw [show numBufs - k = numBufs - 1 - k + 1 by omega, List.range_succ] at hpool
  obtain ⟨hi, -, hsome, -, hpool'⟩ := hpool.alloc hmp
  have hwrite := PgWrite.setSize mp (numBufs - 1 - k) (pktBufAlloc w ptr).2.mem pktSize
  refine ⟨hsome, hpool'.ok, hi, hwrite.pool hpool' hmp hi, fun i' hi' hlt => ?_, ?_,
    fun j hj => absurd hj (Nat.not_lt_zero j)⟩
  · refine hwrite.template hmp hi hi' (by omega) ?_
    rw [pktBufAlloc_mem]
    exact h.filled i' hi' (by omega)
  · exact (PktBuf.get_set_self ..).trans (by decide)

theorem PgFilling.done (h : PgFilling mp ptr s₀ (numBufs - 1 - k) pktSize w) (hk : k < numBufs) :
    PgFilled mp ptr s₀ (k + 1) w := by
  have heq : numBufs - (k + 1) = numBufs - 1 - k := by omega
  refine ⟨by rw [heq]; exact h.pool, fun i hi hle => ?_⟩
  by_cases hlast : i = numBufs - 1 - k
  · rw [hlast]
    exact ⟨h.size, h.data⟩
  · exact h.filled i hi (by omega)

/-- The buffers in the order in which they are drained and given back. -/
def pgDrain (mp : Mempool) (k : Nat) : List Nat := (List.range k).map fun j => mp.entryAddr (numBufs - 1 - j)

theorem pgDrain_succ (mp : Mempool) (k : Nat) :
    pgDrain mp (k + 1) = pgDrain mp k ++ [mp.entryAddr (numBufs - 1 - k)] := by
  rw [pgDrain, List.range_succ, List.map_append]
  rfl

theorem fillData_safe {α : Type} {f : Unit → Code α} {Q : α → Dev → Prop} (hmp : mp.ForPktgen ptr s₀)
    (hf : ∀ s, PgAt s₀ (PgFilling mp ptr s₀ i pktSize) s →
      Safe exec (pgContract s₀) (f ()) Q s) {s : Dev}
    (hs : PgAt s₀ (PgFilling mp ptr s₀ i 0) s) :
    Safe exec (pgContract s₀) (.loop (fillData (mp.entryAddr i)) 0 f) Q s := by
  have hstable : ∀ j, Stable (pgContract s₀) (PgAt s₀ (PgFilling mp ptr s₀ i j)) :=
    fun j => PgAt.stable fun _ h => h.pool.ok
  refine Safe.loop (J := fun j s => j ≤ pktSize ∧ PgAt s₀ (PgFilling mp ptr s₀ i j) s)
    (fun j => .cover fun _ ⟨hj, hs⟩ => ⟨_, hstable j, hs, fun _ hs => ⟨hj, hs⟩⟩)
    (fun _ _ _ => trivial) ?_ ⟨Nat.zero_le _, hs⟩
  rintro j s ⟨hj, hs⟩
  unfold fillData
  by_cases hlt : j < pktSize
  · rw [if_pos hlt]
    refine PgAt.step (fun _ => PgFilling mp ptr s₀ i (j + 1)) (fun _ h => h.pool.ok)
      (fun d hd => ⟨(), _, d.app, rfl, rfl, hd.byte hmp hlt⟩) (fun _ s hs => ?_) hs
    refine Safe.ret (hstable (j + 1)) ?_ hs
    exact fun s hs => ⟨hlt, hs⟩
  · rw [if_neg hlt]
    obtain rfl : j = pktSize := by omega
    refine Safe.ret (hstable pktSize) ?_ hs
    exact fun s hs => hf s hs

theorem fillBuf_safe {α : Type} {f : List Nat → Code α} {Q : α → Dev → Prop} (hmp : mp.ForPktgen ptr s₀)
    (hf : ∀ s, PgAt s₀ (PgFilled mp ptr s₀ numBufs) s →
      Safe exec (pgContract s₀) (f (pgDrain mp numBufs)) Q s) {s : Dev}
    (hs : PgAt s₀ (PgFilled mp ptr s₀ 0) s) :
    Safe exec (pgContract s₀) (.loop (fillBuf ptr) [] f) Q s := by
  have hstable : ∀ k, Stable (pgContract s₀) (PgAt s₀ (PgFilled mp ptr s₀ k)) :=
    fun k => PgAt.stable fun _ h => h.pool.ok
  refine Safe.loop (J := fun bufs s => ∃ k ≤ numBufs, bufs = pgDrain mp k ∧ PgAt s₀ (PgFilled mp ptr s₀ k) s)
    (fun bufs => .cover fun _ ⟨k, hk, hbufs, hs⟩ => ⟨_, hstable k, hs, fun _ hs => ⟨k, hk, hbufs, hs⟩⟩)
    (fun _ _ _ => trivial) ?_ ⟨0, Nat.zero_le _, rfl, hs⟩
  rintro _ s ⟨k, hk, rfl, hs⟩
  have hlen : (pgDrain mp k).length = k := by rw [pgDrain, List.length_map, List.length_range]
  unfold fillBuf
  rw [hlen]
  by_cases hlt : k < numBufs
  · rw [if_pos hlt]
    -- the buffer just taken, before its size is set
    refine PgAt.step (fun a w => a = some (mp.entryAddr (numBufs - 1 - k)) ∧ (PoolsOk w ∧ PgOutside s₀ w.mem) ∧
        PgFilling mp ptr s₀ (numBufs - 1 - k) 0
          { w with mem := PktBuf.set w.mem (mp.entryAddr (numBufs - 1 - k)) .size pktSize })
      (fun _ h => h.pool.ok) (fun d hd => ⟨_, _, d.app, rfl, rfl, hd.taken hmp hlt⟩) (fun a s hs => ?_) hs
    obtain ⟨app, hbusy, w, r, t, rfl, ⟨rfl, hok, hfilling⟩, hr, ht⟩ := hs
    refine PgAt.step (X := (· = w)) (fun _ => PgFilling mp ptr s₀ (numBufs - 1 - k) 0) (fun _ h => h ▸ hok)
      (fun d hd => ⟨(), _, d.app, rfl, rfl, by rw [hd]; exact hfilling⟩) (fun _ s hs => ?_)
      ⟨app, hbusy, w, r, t, rfl, rfl, hr, ht⟩
    refine fillData_safe hmp (fun s hs => ?_) hs
    refine Safe.ret (hstable (k + 1)) ?_ (hs.mono fun w hw => hw.done hlt)
    exact fun s hs => ⟨k + 1, hlt, (pgDrain_succ mp k).symm, hs⟩
  · rw [if_neg hlt]
    obtain rfl : k = numBufs := by omega
    refine Safe.ret (hstable numBufs) ?_ hs
    exact fun s hs => hf s hs

/-- All buffers have been filled, and the last `k` entries have been given back. -/
structure PgReturning (mp : Mempool) (ptr : Nat) (s₀ : Dev) (k : Nat) (w : World) : Prop where
  pool : PgPool mp ptr s₀ ((List.range k).map (numBufs - 1 - ·)) w
  filled : ∀ i < numBufs, Template w.mem (mp.entryAddr i)

theorem PgFilled.returning (h : PgFilled mp ptr s₀ numBufs w) : PgReturning mp ptr s₀ 0 w := by
  refine ⟨?_, fun i hi => h.filled i hi (by omega)⟩
  have hpool := h.pool
  rw [Nat.sub_self] at hpool
  exact hpool

theorem PgReturning.free (h : PgReturning mp ptr s₀ k w) (hmp : mp.ForPktgen ptr s₀) (hk : k < numBufs) :
    PgReturning mp ptr s₀ (k + 1) (pktBufFree w (mp.entryAddr (numBufs - 1 - k))) := by
  have hout := h.pool.mem_out hmp (i := numBufs - 1 - k) (by omega) (by
    intro hmem
    obtain ⟨j, hj, heq⟩ := List.mem_map.mp hmem
    rw [List.mem_range] at hj
    omega)
  refine ⟨?_, h.filled⟩
  rw [List.range_succ, List.map_append]
  exact h.pool.free hmp (i := numBufs - 1 - k) (by omega) hout

theorem freeBuf_safe {α : Type} {f : Unit → Code α} {Q : α → Dev → Prop} (hmp : mp.ForPktgen ptr s₀)
    (hf : ∀ s, PgAt s₀ (PgReturning mp ptr s₀ numBufs) s →
      Safe exec (pgContract s₀) (f ()) Q s)
    {s : Dev} (hs : PgAt s₀ (PgReturning mp ptr s₀ 0) s) :
    Safe exec (pgContract s₀) (.loop freeBuf (pgDrain mp numBufs) f) Q s := by
  have hstable : ∀ k, Stable (pgContract s₀) (PgAt s₀ (PgReturning mp ptr s₀ k)) :=
    fun k => PgAt.stable fun _ h => h.pool.ok
  refine Safe.loop (J := fun rest s => ∃ k ≤ numBufs, rest = (pgDrain mp numBufs).drop k ∧
    PgAt s₀ (PgReturning mp ptr s₀ k) s)
    (fun rest => .cover fun _ ⟨k, hk, hrest, hs⟩ => ⟨_, hstable k, hs, fun _ hs => ⟨k, hk, hrest, hs⟩⟩)
    (fun _ _ _ => trivial) ?_ ⟨0, Nat.zero_le _, rfl, hs⟩
  rintro _ s ⟨k, hk, rfl, hs⟩
  have hlen : (pgDrain mp numBufs).length = numBufs := by rw [pgDrain, List.length_map, List.length_range]
  by_cases hlt : k < numBufs
  · have hget : (pgDrain mp numBufs)[k]? = some (mp.entryAddr (numBufs - 1 - k)) := by
      rw [pgDrain, List.getElem?_map, List.getElem?_range hlt]
      rfl
    obtain ⟨hbound, hget⟩ := List.getElem?_eq_some_iff.mp hget
    rw [List.drop_eq_getElem_cons hbound, hget]
    refine PgAt.step (fun _ => PgReturning mp ptr s₀ (k + 1)) (fun _ h => h.pool.ok)
      (fun d hd => ⟨(), _, (d.free _).app, rfl, rfl, hd.free hmp hlt⟩) (fun _ s hs => ?_) hs
    refine Safe.ret (hstable (k + 1)) ?_ hs
    exact fun s hs => ⟨k + 1, hlt, rfl, hs⟩
  · obtain rfl : k = numBufs := by omega
    rw [List.drop_of_length_le (Nat.le_of_eq hlen)]
    refine Safe.ret (hstable numBufs) ?_ hs
    exact fun s hs => hf s hs

theorem PgInit.pool (h : PgInit s₀) {dma : DmaMemory} {rest : List (Nat × DmaMemory)}
    (hsup : s₀.app.supply = (ptr, dma) :: rest) (hw : w = memoryAllocateMempool s₀.w ptr dma numBufs 0) :
    (w.pools ptr).ForPktgen ptr s₀ ∧ PgFilled (w.pools ptr) ptr s₀ 0 w := by
  obtain ⟨hbase, hbasePhy⟩ := newMempool_base s₀.w ptr dma numBufs 0
  have hnum := newMempool_numEntries s₀.w ptr dma numBufs 0
  have hsize := newMempool_bufSize s₀.w ptr dma numBufs 0
  have hfree : (newMempool s₀.w ptr dma numBufs 0).free = List.range numBufs := newMempool_free
  rw [if_pos rfl] at hsize
  have hsized : (newMempool s₀.w ptr dma numBufs 0).Sized ptr := by
    refine ⟨?_, ?_, h.ptr_lt ptr dma rest hsup⟩
    · rw [Mempool.bytes, hnum, hsize]
      decide
    · rw [hsize]
      decide
  have hpools : PoolsOk w := by
    rw [hw]
    refine memoryAllocateMempool_ok (PoolsReach.start s₀.w h.live h.out).ok ?_ hsized ?_
    · rw [h.live]
      exact List.not_mem_nil
    · rw [h.live]
      exact fun q hq => absurd hq List.not_mem_nil
  have hlive : w.live = [ptr] := by
    rw [hw, memoryAllocateMempool_live, h.live]
  have hout : w.out = [] := by
    rw [hw, memoryAllocateMempool_out, h.out]
  have hnew : newMempool s₀.w ptr dma numBufs 0 = w.pools ptr := by rw [hw, newMempool]
  have houtside : PgOutside s₀ w.mem := by
    intro ptr' dma' rest' hsup' x hx
    rw [hsup] at hsup'
    cases hsup'
    rw [hw]
    refine memoryAllocateMempool_outside s₀.w hsized ?_
    rw [Mempool.bytes, hnum, hsize]
    exact hx
  rw [hnew] at hbase hbasePhy hnum hsize hfree hsized
  refine ⟨⟨hsized, hnum, hsize, dma, rest, hsup, hbase, hbasePhy⟩,
    ⟨hpools, hlive, .refl _, hfree, ?_, houtside⟩, fun i hi hle => absurd hi (by omega)⟩
  rw [hout, Nat.sub_zero, List.length_range, List.length_nil, Nat.add_zero]

/-- **`init_mempool` fills every buffer and gives every buffer back.** -/
theorem initMempool_safe (h : PgInit s₀) {s : Dev} (hs : At s₀ (· = s₀.w) anyRx
      (TxAt queueEntries s₀.txq.descriptors [] 0 0 s₀.txq.virtualAddresses anyDesc) s) :
    Safe exec (pgContract s₀) initMempool (fun ptr s => ∃ mp : Mempool,
      mp.ForPktgen ptr s₀ ∧ PgAt s₀ (PgReturning mp ptr s₀ numBufs) s) s := by
  have hpools : PoolsOk s₀.w := (PoolsReach.start s₀.w h.live h.out).ok
  have hheld := pgHeld_empty (X := (· = s₀.w))
    (by rintro _ rfl; exact ⟨hpools, fun _ _ _ _ _ _ => rfl⟩) h.busy
  unfold initMempool
  refine Safe.op (At.stable hheld) ?_ hs
  rintro _ ptr s' ⟨_, r, t, rfl, rfl, hr, ht⟩ he
  refine ⟨trivial, ?_⟩
  obtain ⟨dma, rest, hsup, hs'⟩ := exec_poolNew he
  obtain ⟨w, hw⟩ : ∃ w, w = memoryAllocateMempool s₀.w ptr dma numBufs 0 := ⟨_, rfl⟩
  rw [show (s₀.put s₀.w r t).w = s₀.w from rfl, ← hw] at hs'
  obtain ⟨hmp, hfilled⟩ := h.pool hsup hw
  have hstart : PgAt s₀ (PgFilled (w.pools ptr) ptr s₀ 0) s' :=
    ⟨{ s₀.app with supply := rest }, h.busy, w, r, t, hs', hfilled, hr, ht⟩
  refine fillBuf_safe hmp (fun s hs => ?_) hstart
  refine freeBuf_safe hmp (fun s hs => ?_) (hs.mono fun _ hw => hw.returning)
  refine Safe.ret (PgAt.stable fun _ hw => hw.pool.ok) ?_ hs
  exact fun s hs => ⟨_, hmp, hs⟩

end

/-! ## It ends -/

section
variable {s : Dev} {ptr : Nat} {α : Type} {Q : α → Dev → Prop}

/-- The transmit queue has not been used yet. -/
structure PgUnsent (s₀ s : Dev) : Prop where
  tx : s.tx = s₀.tx
  txq : s.txq = s₀.txq

theorem fillData_ends (s₀ : Dev) (buf top : Nat) {f : Unit → Code α}
    (hf : ∀ s, PgUnsent s₀ s ∧ (s.w.pools ptr).freeStackTop = top → Ends exec (f ()) Q s)
    (hs : PgUnsent s₀ s ∧ (s.w.pools ptr).freeStackTop = top) : Ends exec (.loop (fillData buf) 0 f) Q s := by
  refine Ends.loop (J := fun _ s => PgUnsent s₀ s ∧ (s.w.pools ptr).freeStackTop = top)
    (μ := fun j _ => pktSize - j) ?_ hs
  intro j s hs
  unfold fillData
  by_cases hlt : j < pktSize
  · rw [if_pos hlt]
    refine Ends.op rfl (Ends.ret ⟨⟨⟨hs.1.tx, hs.1.txq⟩, hs.2⟩, ?_⟩)
    omega
  · rw [if_neg hlt]
    exact Ends.ret (hf s hs)

theorem fillBuf_ends (s₀ : Dev) {f : List Nat → Code α} (hf : ∀ bufs s, PgUnsent s₀ s → Ends exec (f bufs) Q s)
    (hs : PgUnsent s₀ s) (htop : (s.w.pools ptr).freeStackTop = numBufs) :
    Ends exec (.loop (fillBuf ptr) [] f) Q s := by
  refine Ends.loop (J := fun (bufs : List Nat) s =>
      PgUnsent s₀ s ∧ (s.w.pools ptr).freeStackTop + bufs.length = numBufs)
    (μ := fun bufs _ => numBufs - bufs.length) ?_ ⟨hs, htop⟩
  rintro bufs s ⟨hs, htop⟩
  unfold fillBuf
  by_cases hlt : bufs.length < numBufs
  · rw [if_pos hlt]
    have hne : (s.w.pools ptr).freeStackTop ≠ 0 := by omega
    have hpop := pktBufAlloc_top hne
    obtain ⟨buf, hbuf⟩ := Option.ne_none_iff_exists'.mp (mt pktBufAlloc_eq_none_iff.mp hne)
    refine Ends.op rfl ?_
    change Ends exec ((Prog.ret (pktBufAlloc s.w ptr).1).bind _) _ _
    rw [hbuf]
    refine Ends.op rfl (fillData_ends s₀ buf ((s.w.pools ptr).freeStackTop - 1) (fun s' hs' => ?_)
      ⟨⟨hs.tx, hs.txq⟩, (Nat.sub_eq_of_eq_add hpop.symm).symm⟩)
    refine Ends.ret ⟨⟨hs'.1, ?_⟩, ?_⟩ <;> rw [List.length_append, List.length_singleton]
    · rw [hs'.2]
      omega
    · omega
  · rw [if_neg hlt]
    exact Ends.ret (hf bufs s hs)

theorem freeBuf_ends (s₀ : Dev) (bufs : List Nat) {f : Unit → Code α} (hf : ∀ s, PgUnsent s₀ s → Ends exec (f ()) Q s)
    (hs : PgUnsent s₀ s) : Ends exec (.loop freeBuf bufs f) Q s := by
  refine Ends.loop (J := fun _ s => PgUnsent s₀ s) (μ := fun bufs _ => bufs.length) ?_ hs
  intro bufs s hs
  cases bufs with
  | nil => exact Ends.ret (hf s hs)
  | cons buf bufs => exact Ends.op rfl (Ends.ret ⟨⟨hs.tx, hs.txq⟩, Nat.lt_succ_self _⟩)

theorem initMempool_ends (hsup : s.app.supply ≠ []) : Ends exec initMempool (fun _ => PgUnsent s) s := by
  obtain ⟨⟨ptr, dma⟩, rest, hsup⟩ := List.exists_cons_of_ne_nil hsup
  have hnew := exec_poolNew_of hsup numBufs 0
  have htop := newMempool_top s.w ptr dma numBufs 0
  rw [newMempool] at htop
  obtain ⟨w, hw⟩ : ∃ w, w = memoryAllocateMempool s.w ptr dma numBufs 0 := ⟨_, rfl⟩
  rw [← hw] at hnew htop
  unfold initMempool
  refine Ends.op hnew ?_
  refine fillBuf_ends s (fun bufs s₁ hs₁ => ?_) ⟨rfl, rfl⟩ htop
  exact freeBuf_ends s bufs (fun s₂ hs₂ => Ends.ret hs₂) hs₁

end

end Ixy
