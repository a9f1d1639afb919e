import Ixy.Lib.Bytes
import Ixy.Lib.FreeStack

/-!
# Packet buffers and mempools (`memory.h`, `memory.c`)

`struct pkt_buf` lives inside the DMA memory it describes: a header of one cacheline, then the
packet data. The header is read and written through its field offsets in byte memory, so that
whatever else is written to the same bytes shows. `struct mempool` is a heap object of its own and
is kept as a record, by pointer.

Products of `uint32_t` are taken modulo `2 ^ 32`, as the code computes them.
-/

namespace Ixy

open Lib

/-! ## `struct pkt_buf` -/

namespace PktBuf

/-- The scalar fields of `struct pkt_buf`. -/
inductive Field where
  | bufAddrPhy
  | mempool
  | mempoolIdx
  | size
  deriving DecidableEq, Repr

def Field.offset : Field → Nat
  | .bufAddrPhy => 0
  | .mempool => 8
  | .mempoolIdx => 16
  | .size => 20

def Field.width : Field → Nat
  | .bufAddrPhy => 8
  | .mempool => 8
  | .mempoolIdx => 4
  | .size => 4

/-- `offsetof(struct pkt_buf, data)`: `data` is aligned to 64 bytes. -/
def dataOffset : Nat := 64

/-- `sizeof(struct pkt_buf)`. -/
def sizeOf : Nat := 64

/-- Read a field of the buffer at address `buf`. -/
def get (m : Mem) (buf : Nat) (f : Field) : Nat := load f.width m (buf + f.offset)

/-- Write a field of the buffer at address `buf`. -/
def set (m : Mem) (buf : Nat) (f : Field) (v : Nat) : Mem := store f.width m (buf + f.offset) v

theorem Field.inside (f : Field) : f.offset + f.width ≤ 24 := by cases f <;> decide

theorem get_set_self (m : Mem) (buf : Nat) (f : Field) (v : Nat) :
    get (set m buf f v) buf f = v % 256 ^ f.width := load_store_self _ _ _ _

theorem get_set_of_ne (m : Mem) (buf : Nat) {f g : Field} (v : Nat) (h : f ≠ g) :
    get (set m buf g v) buf f = get m buf f := by
  refine load_store_of_disjoint ?_
  cases f <;> cases g <;> first | exact absurd rfl h | (simp [Apart, Field.offset, Field.width])

theorem get_set_of_apart (m : Mem) {buf buf' : Nat} (f g : Field) (v : Nat)
    (h : Apart buf 24 buf' 24) : get (set m buf' g v) buf f = get m buf f := by
  have hf := f.inside
  have hg := g.inside
  exact load_store_of_disjoint (h.mono (by omega) (by omega) (by omega) (by omega))

theorem get_congr {m m' : Mem} {buf : Nat} (f : Field)
    (h : ∀ x, buf ≤ x → x < buf + 24 → m x = m' x) : get m buf f = get m' buf f := by
  have hf := f.inside
  exact load_congr _ fun x hx hx' => h x (by omega) (by omega)

end PktBuf

/-! ## `struct mempool` -/

/-- `struct mempool`. -/
structure Mempool where
  baseAddr : Nat
  baseAddrPhy : Nat
  bufSize : Nat
  numEntries : Nat
  freeStackTop : Nat
  freeStack : Nat → Nat

/-- `struct dma_memory`. -/
structure DmaMemory where
  virt : Nat
  phy : Nat
  deriving DecidableEq, Repr

/-- The memory the mempool functions work on. `live` and `out` are history: the pools made so far,
and the buffers handed out by `pktBufAlloc` and not yet given back. -/
structure World where
  mem : Mem
  pools : Nat → Mempool
  live : List Nat
  out : List Nat

namespace Mempool

/-- The address of entry `i`: `((uint8_t*) base_addr) + i * buf_size`, the product in 32 bits. -/
def entryAddr (mp : Mempool) (i : Nat) : Nat := mp.baseAddr + i * mp.bufSize % 2 ^ 32

/-- The free indices, the one `pktBufAlloc` takes next last. -/
def free (mp : Mempool) : List Nat := stackList mp.freeStack mp.freeStackTop

/-- The entries of the pool that are in a list of buffers. -/
def outstanding (mp : Mempool) (out : List Nat) : List Nat :=
  (List.range mp.numEntries).filter fun i => mp.entryAddr i ∈ out

end Mempool

/-- One pass of the loop of `memory_allocate_mempool`: write the header of entry `i`. -/
def initEntry (ptr : Nat) (mp : Mempool) (m : Mem) (i : Nat) : Mem :=
  let buf := mp.entryAddr i
  let m := PktBuf.set m buf .bufAddrPhy (mp.baseAddrPhy + i * mp.bufSize % 2 ^ 32)
  let m := PktBuf.set m buf .mempoolIdx i
  let m := PktBuf.set m buf .mempool ptr
  PktBuf.set m buf .size 0

/-- `memory_allocate_mempool`, given what `malloc` (`ptr`) and `memory_allocate_dma` (`dma`)
answered. The new pool is at `ptr`. -/
def memoryAllocateMempool (w : World) (ptr : Nat) (dma : DmaMemory) (numEntries entrySize : Nat) :
    World :=
  let entrySize := if entrySize = 0 then 2048 else entrySize
  let mp : Mempool :=
    { baseAddr := dma.virt
      baseAddrPhy := dma.phy
      bufSize := entrySize
      numEntries := numEntries
      freeStackTop := numEntries
      freeStack := fun i => if i < numEntries then i else (w.pools ptr).freeStack i }
  { w with
    mem := (List.range numEntries).foldl (initEntry ptr mp) w.mem
    pools := Function.update w.pools ptr mp
    live := ptr :: w.live }

/-- `--free_stack_top`. -/
def Mempool.pop (mp : Mempool) : Mempool := { mp with freeStackTop := mp.freeStackTop - 1 }

/-- `free_stack[free_stack_top++] = i`. -/
def Mempool.push (mp : Mempool) (i : Nat) : Mempool :=
  { mp with
    freeStack := Function.update mp.freeStack mp.freeStackTop i
    freeStackTop := (mp.freeStackTop + 1) % 2 ^ 32 }

/-- `pkt_buf_alloc`. -/
def pktBufAlloc (w : World) (pool : Nat) : Option Nat × World :=
  let mp := w.pools pool
  if mp.freeStackTop = 0 then (none, w)
  else
    let buf := mp.entryAddr (mp.freeStack (mp.freeStackTop - 1))
    (some buf, { w with pools := Function.update w.pools pool mp.pop, out := buf :: w.out })

/-- `pkt_buf_free`: the pool and the index are found in the header of the buffer. -/
def pktBufFree (w : World) (buf : Nat) : World :=
  let pool := PktBuf.get w.mem buf .mempool
  let mp := w.pools pool
  { w with
    pools := Function.update w.pools pool (mp.push (PktBuf.get w.mem buf .mempoolIdx))
    out := w.out.erase buf }

/-! ## What the operations leave alone -/

/-- Where a pool lies, as opposed to which of its entries are free. -/
structure Mempool.SameLayout (mp mp' : Mempool) : Prop where
  baseAddr : mp'.baseAddr = mp.baseAddr
  baseAddrPhy : mp'.baseAddrPhy = mp.baseAddrPhy
  bufSize : mp'.bufSize = mp.bufSize
  numEntries : mp'.numEntries = mp.numEntries

namespace Mempool.SameLayout

theorem refl (mp : Mempool) : mp.SameLayout mp := ⟨rfl, rfl, rfl, rfl⟩

theorem trans {a b c : Mempool} (h : a.SameLayout b) (h' : b.SameLayout c) : a.SameLayout c :=
  ⟨h'.1.trans h.1, h'.2.trans h.2, h'.3.trans h.3, h'.4.trans h.4⟩

theorem pop (mp : Mempool) : mp.SameLayout mp.pop := ⟨rfl, rfl, rfl, rfl⟩

theorem push (mp : Mempool) (i : Nat) : mp.SameLayout (mp.push i) := ⟨rfl, rfl, rfl, rfl⟩

theorem entryAddr {mp mp' : Mempool} (h : mp.SameLayout mp') (i : Nat) :
    mp'.entryAddr i = mp.entryAddr i := by
  rw [Mempool.entryAddr, Mempool.entryAddr, h.baseAddr, h.bufSize]

theorem update {pools : Nat → Mempool} {p : Nat} {mp : Mempool} (h : (pools p).SameLayout mp)
    (q : Nat) : (pools q).SameLayout (Function.update pools p mp q) := by
  by_cases hq : q = p
  · subst hq
    rwa [Function.update_self]
  · rw [Function.update_of_ne hq]
    exact refl _

end Mempool.SameLayout

@[simp] theorem memoryAllocateMempool_live (w : World) (ptr : Nat) (dma : DmaMemory)
    (numEntries entrySize : Nat) :
    (memoryAllocateMempool w ptr dma numEntries entrySize).live = ptr :: w.live := rfl

@[simp] theorem memoryAllocateMempool_out (w : World) (ptr : Nat) (dma : DmaMemory)
    (numEntries entrySize : Nat) : (memoryAllocateMempool w ptr dma numEntries entrySize).out = w.out := rfl

theorem pktBufAlloc_layout (w : World) (p q : Nat) :
    (w.pools q).SameLayout ((pktBufAlloc w p).2.pools q) := by
  unfold pktBufAlloc
  dsimp only
  split
  · exact .refl _
  · exact .update (.pop _) q

theorem pktBufFree_layout (w : World) (b q : Nat) :
    (w.pools q).SameLayout ((pktBufFree w b).pools q) := by
  dsimp only [pktBufFree]
  exact .update (.push _ _) q

@[simp] theorem pktBufAlloc_mem (w : World) (p : Nat) : (pktBufAlloc w p).2.mem = w.mem := by
  unfold pktBufAlloc
  dsimp only
  split <;> rfl

@[simp] theorem pktBufAlloc_live (w : World) (p : Nat) : (pktBufAlloc w p).2.live = w.live := by
  unfold pktBufAlloc
  dsimp only
  split <;> rfl

@[simp] theorem pktBufFree_mem (w : World) (b : Nat) : (pktBufFree w b).mem = w.mem := rfl
@[simp] theorem pktBufFree_live (w : World) (b : Nat) : (pktBufFree w b).live = w.live := rfl

theorem pktBufAlloc_empty {w : World} {p : Nat} (h : (w.pools p).freeStackTop = 0) :
    pktBufAlloc w p = (none, w) := by
  simp [pktBufAlloc, h]

theorem pktBufAlloc_of_ne {w : World} {p : Nat} (h : (w.pools p).freeStackTop ≠ 0) :
    pktBufAlloc w p =
      (some ((w.pools p).entryAddr ((w.pools p).freeStack ((w.pools p).freeStackTop - 1))),
        { w with
          pools := Function.update w.pools p (w.pools p).pop
          out := (w.pools p).entryAddr ((w.pools p).freeStack ((w.pools p).freeStackTop - 1)) ::
            w.out }) := by
  simp [pktBufAlloc, h]

theorem pktBufAlloc_eq_none_iff {w : World} {p : Nat} :
    (pktBufAlloc w p).1 = none ↔ (w.pools p).freeStackTop = 0 := by
  by_cases h : (w.pools p).freeStackTop = 0
  · simp [pktBufAlloc_empty h, h]
  · simp [pktBufAlloc_of_ne h, h]

theorem pktBufAlloc_top {w : World} {p : Nat} (h : (w.pools p).freeStackTop ≠ 0) :
    ((pktBufAlloc w p).2.pools p).freeStackTop + 1 = (w.pools p).freeStackTop := by
  rw [pktBufAlloc_of_ne h]
  dsimp only
  rw [Function.update_self]
  exact Nat.succ_pred_eq_of_ne_zero h

theorem pktBufAlloc_pools_of_ne {w : World} {p q : Nat} (h : q ≠ p) :
    (pktBufAlloc w p).2.pools q = w.pools q := by
  unfold pktBufAlloc
  dsimp only
  split
  · rfl
  · exact Function.update_of_ne h _ _

theorem pktBufFree_pools_of_ne {w : World} {b q : Nat} (h : q ≠ PktBuf.get w.mem b .mempool) :
    (pktBufFree w b).pools q = w.pools q := by
  dsimp only [pktBufFree]
  exact Function.update_of_ne h _ _

end Ixy
