import Ixy.Memory.Mempool
import Mathlib.Tactic.Ring

/-!
# Conservation of packet buffers

`PoolsOk` ties the three places that know about a buffer together: the free stack of its pool, the
list `out` of buffers handed out, and the header inside the buffer from which `pktBufFree` finds the
pool and the index again. Each operation keeps it (`memoryAllocateMempool_ok`, `pktBufAlloc_ok`,
`pktBufFree_ok`), so it holds after any run over any number of pools (`PoolsReach.ok`).

The address part is the inequality `i * bufSize + bufSize ≤ numEntries * bufSize < 2 ^ 32`: products
do not wrap, entries of a pool lie a full `bufSize` apart, and pools lie in disjoint regions.
-/

namespace Ixy

open Lib

/-- The size in bytes of the entries of a pool. -/
def Mempool.bytes (mp : Mempool) : Nat := mp.numEntries * mp.bufSize

/-- What the creator of a pool promises: no 32-bit overflow, room for the header in an entry, and
pointers of 64 bits. -/
structure Mempool.Sized (mp : Mempool) (ptr : Nat) : Prop where
  bytes_lt : mp.bytes < 2 ^ 32
  header_le : PktBuf.sizeOf ≤ mp.bufSize
  ptr_lt : ptr < 2 ^ 64

/-- The header of entry `i` says where the entry is and whose it is. -/
structure HeaderOk (m : Mem) (ptr : Nat) (mp : Mempool) (i : Nat) : Prop where
  bufAddrPhy : PktBuf.get m (mp.entryAddr i) .bufAddrPhy = (mp.baseAddrPhy + i * mp.bufSize) % 2 ^ 64
  mempool : PktBuf.get m (mp.entryAddr i) .mempool = ptr
  mempoolIdx : PktBuf.get m (mp.entryAddr i) .mempoolIdx = i

/-- The invariant of all pools together. -/
structure PoolsOk (w : World) : Prop where
  sized : ∀ p ∈ w.live, (w.pools p).Sized p
  regions : ∀ p ∈ w.live, ∀ q ∈ w.live, p ≠ q →
    Apart (w.pools p).baseAddr (w.pools p).bytes (w.pools q).baseAddr (w.pools q).bytes
  headers : ∀ p ∈ w.live, ∀ i < (w.pools p).numEntries, HeaderOk w.mem p (w.pools p) i
  split : ∀ p ∈ w.live, Partition (w.pools p).numEntries (w.pools p).free
    fun i => (w.pools p).entryAddr i ∈ w.out
  owned : ∀ b ∈ w.out, ∃ p ∈ w.live, ∃ i < (w.pools p).numEntries, b = (w.pools p).entryAddr i
  nodup : w.out.Nodup

/-! ## Addresses -/

theorem Mempool.mul_add_le {mp : Mempool} {i : Nat} (hi : i < mp.numEntries) :
    i * mp.bufSize + mp.bufSize ≤ mp.bytes := by
  rw [Mempool.bytes]
  exact Lib.mul_add_le mp.bufSize hi

theorem Mempool.Sized.entryAddr_eq {mp : Mempool} {ptr i : Nat} (h : mp.Sized ptr)
    (hi : i < mp.numEntries) : mp.entryAddr i = mp.baseAddr + i * mp.bufSize := by
  have hmul := Mempool.mul_add_le hi
  have hb := h.bytes_lt
  rw [Mempool.entryAddr, Nat.mod_eq_of_lt (by omega)]

theorem Mempool.Sized.entries_apart {mp : Mempool} {ptr i j : Nat} (h : mp.Sized ptr)
    (hi : i < mp.numEntries) (hj : j < mp.numEntries) (hij : i ≠ j) :
    Apart (mp.entryAddr i) mp.bufSize (mp.entryAddr j) mp.bufSize := by
  rw [h.entryAddr_eq hi, h.entryAddr_eq hj]
  rcases Nat.lt_or_gt_of_ne hij with hlt | hlt
  · have := Lib.mul_add_le mp.bufSize hlt
    exact Or.inl (by omega)
  · have := Lib.mul_add_le mp.bufSize hlt
    exact Or.inr (by omega)

theorem Mempool.Sized.entryAddr_inj {mp : Mempool} {ptr i j : Nat} (h : mp.Sized ptr)
    (hi : i < mp.numEntries) (hj : j < mp.numEntries) (he : mp.entryAddr i = mp.entryAddr j) : i = j := by
  by_contra hij
  have hap := h.entries_apart hi hj hij
  have hs := h.header_le
  rw [PktBuf.sizeOf] at hs
  rw [he] at hap
  rcases hap with hap | hap <;> omega

theorem Mempool.Sized.entry_inside {mp : Mempool} {ptr i : Nat} (h : mp.Sized ptr)
    (hi : i < mp.numEntries) :
    mp.baseAddr ≤ mp.entryAddr i ∧ mp.entryAddr i + mp.bufSize ≤ mp.baseAddr + mp.bytes := by
  have hmul := Mempool.mul_add_le hi
  rw [h.entryAddr_eq hi]
  omega

namespace PoolsOk
variable {w : World} {p q i j : Nat}

theorem apart (h : PoolsOk w) (hp : p ∈ w.live) (hq : q ∈ w.live)
    (hi : i < (w.pools p).numEntries) (hj : j < (w.pools q).numEntries) (hne : p ≠ q ∨ i ≠ j) :
    Apart ((w.pools p).entryAddr i) (w.pools p).bufSize
      ((w.pools q).entryAddr j) (w.pools q).bufSize := by
  by_cases hpq : p = q
  · subst hpq
    exact (h.sized p hp).entries_apart hi hj (by rcases hne with hne | hne; exacts [absurd rfl hne, hne])
  · obtain ⟨hi1, hi2⟩ := (h.sized p hp).entry_inside hi
    obtain ⟨hj1, hj2⟩ := (h.sized q hq).entry_inside hj
    exact (h.regions p hp q hq hpq).mono hi1 hi2 hj1 hj2

theorem entry_inj (h : PoolsOk w) (hp : p ∈ w.live) (hq : q ∈ w.live)
    (hi : i < (w.pools p).numEntries) (hj : j < (w.pools q).numEntries)
    (he : (w.pools p).entryAddr i = (w.pools q).entryAddr j) : p = q ∧ i = j := by
  by_contra hne
  have hap := h.apart hp hq hi hj (by tauto)
  have h1 := (h.sized p hp).header_le
  have h2 := (h.sized q hq).header_le
  rw [PktBuf.sizeOf] at h1 h2
  rw [he] at hap
  rcases hap with hap | hap <;> omega

theorem header (h : PoolsOk w) {b : Nat} (hb : b ∈ w.out) :
    PktBuf.get w.mem b .mempool ∈ w.live ∧
    PktBuf.get w.mem b .mempoolIdx < (w.pools (PktBuf.get w.mem b .mempool)).numEntries ∧
    b = (w.pools (PktBuf.get w.mem b .mempool)).entryAddr (PktBuf.get w.mem b .mempoolIdx) := by
  obtain ⟨p, hp, i, hi, rfl⟩ := h.owned b hb
  have hh := h.headers p hp i hi
  rw [hh.mempool, hh.mempoolIdx]
  exact ⟨hp, hi, rfl⟩

theorem top_le (h : PoolsOk w) (hp : p ∈ w.live) : (w.pools p).freeStackTop ≤ (w.pools p).numEntries := by
  have := (h.split p hp).length_le
  rwa [Mempool.free, stackList_length] at this

theorem top_lt (h : PoolsOk w) (hp : p ∈ w.live) (hi : i < (w.pools p).numEntries)
    (hout : (w.pools p).entryAddr i ∈ w.out) : (w.pools p).freeStackTop < (w.pools p).numEntries := by
  have := (h.split p hp).length_lt hi hout
  rwa [Mempool.free, stackList_length] at this

theorem numEntries_lt (h : PoolsOk w) (hp : p ∈ w.live) : (w.pools p).numEntries < 2 ^ 32 := by
  have h1 := (h.sized p hp).bytes_lt
  have h2 := (h.sized p hp).header_le
  rw [PktBuf.sizeOf] at h2
  have : (w.pools p).numEntries * 1 ≤ (w.pools p).numEntries * (w.pools p).bufSize :=
    Nat.mul_le_mul_left _ (by omega)
  rw [Mempool.bytes] at h1
  omega

end PoolsOk

/-! ## Creating a pool -/

/-- What is written to a field of the header of entry `i`. -/
def headerValue (ptr : Nat) (mp : Mempool) (i : Nat) : PktBuf.Field → Nat
  | .bufAddrPhy => (mp.baseAddrPhy + i * mp.bufSize % 2 ^ 32) % 2 ^ 64
  | .mempool => ptr % 2 ^ 64
  | .mempoolIdx => i % 2 ^ 32
  | .size => 0

theorem get_initEntry {ptr : Nat} {mp : Mempool} (m : Mem) (i : Nat) (f : PktBuf.Field) :
    PktBuf.get (initEntry ptr mp m i) (mp.entryAddr i) f = headerValue ptr mp i f := by
  cases f with
  | bufAddrPhy =>
    rw [initEntry, PktBuf.get_set_of_ne _ _ _ (by decide), PktBuf.get_set_of_ne _ _ _ (by decide),
      PktBuf.get_set_of_ne _ _ _ (by decide), PktBuf.get_set_self]
    rfl
  | mempool =>
    rw [initEntry, PktBuf.get_set_of_ne _ _ _ (by decide), PktBuf.get_set_self]
    rfl
  | mempoolIdx =>
    rw [initEntry, PktBuf.get_set_of_ne _ _ _ (by decide), PktBuf.get_set_of_ne _ _ _ (by decide),
      PktBuf.get_set_self]
    rfl
  | size =>
    rw [initEntry, PktBuf.get_set_self]
    rfl

theorem initEntry_header {ptr : Nat} {mp : Mempool} (h : mp.Sized ptr) (m : Mem) {i : Nat}
    (hi : i < mp.numEntries) : HeaderOk (initEntry ptr mp m i) ptr mp i := by
  have hmul := Mempool.mul_add_le hi
  have hb := h.bytes_lt
  have hs := h.header_le
  rw [PktBuf.sizeOf] at hs
  have hprod : i * mp.bufSize % 2 ^ 32 = i * mp.bufSize := Nat.mod_eq_of_lt (by omega)
  have hidx : i < 2 ^ 32 := by
    have : i * 1 ≤ i * mp.bufSize := Nat.mul_le_mul_left _ (by omega)
    omega
  constructor
  · rw [get_initEntry, headerValue, hprod]
  · rw [get_initEntry]
    exact Nat.mod_eq_of_lt h.ptr_lt
  · rw [get_initEntry]
    exact Nat.mod_eq_of_lt hidx

theorem initEntry_other {ptr : Nat} {mp : Mempool} (h : mp.Sized ptr) {m : Mem} {i k : Nat}
    (hi : i < mp.numEntries) (hk : k < mp.numEntries) (hik : i ≠ k) (hh : HeaderOk m ptr mp i) :
    HeaderOk (initEntry ptr mp m k) ptr mp i := by
  have hs := h.header_le
  rw [PktBuf.sizeOf] at hs
  have hap : Apart (mp.entryAddr i) 24 (mp.entryAddr k) 24 :=
    (h.entries_apart hi hk hik).mono (le_refl _) (by omega) (le_refl _) (by omega)
  constructor
  · simp only [initEntry, PktBuf.get_set_of_apart _ _ _ _ hap, hh.bufAddrPhy]
  · simp only [initEntry, PktBuf.get_set_of_apart _ _ _ _ hap, hh.mempool]
  · simp only [initEntry, PktBuf.get_set_of_apart _ _ _ _ hap, hh.mempoolIdx]

theorem initEntry_frame {ptr : Nat} {mp : Mempool} (h : mp.Sized ptr) (m : Mem) {k x : Nat}
    (hk : k < mp.numEntries) (hx : x < mp.baseAddr ∨ mp.baseAddr + mp.bytes ≤ x) :
    initEntry ptr mp m k x = m x := by
  obtain ⟨hlo, hhi⟩ := h.entry_inside hk
  have hs := h.header_le
  rw [PktBuf.sizeOf] at hs
  have hout : ∀ (f : PktBuf.Field) (m : Mem) (v : Nat),
      PktBuf.set m (mp.entryAddr k) f v x = m x := by
    intro f m v
    have := f.inside
    exact store_of_not_mem (by omega)
  simp only [initEntry, hout]

/-- After the loop every header is in place, and nothing outside the entries has changed. -/
theorem initEntry_fold {ptr : Nat} {mp : Mempool} (h : mp.Sized ptr) (m : Mem) :
    ∀ k ≤ mp.numEntries, (∀ i < k, HeaderOk ((List.range k).foldl (initEntry ptr mp) m) ptr mp i) ∧
      ∀ x, x < mp.baseAddr ∨ mp.baseAddr + mp.bytes ≤ x →
        (List.range k).foldl (initEntry ptr mp) m x = m x := by
  intro k
  induction k with
  | zero => intro _; exact ⟨fun i hi => absurd hi (Nat.not_lt_zero i), fun x _ => rfl⟩
  | succ k ih =>
    intro hk
    obtain ⟨ihHeader, ihFrame⟩ := ih (by omega)
    rw [List.range_succ, List.foldl_append, List.foldl_cons, List.foldl_nil]
    refine ⟨fun i hi => ?_, fun x hx => ?_⟩
    · rcases Nat.lt_or_eq_of_le (Nat.le_of_lt_succ hi) with hik | rfl
      · exact initEntry_other h (by omega) hk (by omega) (ihHeader i hik)
      · exact initEntry_header h _ hk
    · rw [initEntry_frame h _ hk hx]
      exact ihFrame x hx

theorem HeaderOk.congr {m m' : Mem} {ptr : Nat} {mp : Mempool} {i : Nat} (h : HeaderOk m ptr mp i)
    (hm : ∀ f, f ≠ .size → PktBuf.get m' (mp.entryAddr i) f = PktBuf.get m (mp.entryAddr i) f) :
    HeaderOk m' ptr mp i :=
  ⟨(hm _ (by decide)).trans h.bufAddrPhy, (hm _ (by decide)).trans h.mempool,
    (hm _ (by decide)).trans h.mempoolIdx⟩

/-- The pool that `memory_allocate_mempool` sets up at `ptr`. -/
def newMempool (w : World) (ptr : Nat) (dma : DmaMemory) (numEntries entrySize : Nat) : Mempool :=
  (memoryAllocateMempool w ptr dma numEntries entrySize).pools ptr

theorem newMempool_numEntries (w : World) (ptr : Nat) (dma : DmaMemory) (numEntries entrySize : Nat) :
    (newMempool w ptr dma numEntries entrySize).numEntries = numEntries := by
  simp [newMempool, memoryAllocateMempool]

theorem newMempool_bufSize (w : World) (ptr : Nat) (dma : DmaMemory) (numEntries entrySize : Nat) :
    (newMempool w ptr dma numEntries entrySize).bufSize = if entrySize = 0 then 2048 else entrySize := by
  simp [newMempool, memoryAllocateMempool]

theorem newMempool_base (w : World) (ptr : Nat) (dma : DmaMemory) (numEntries entrySize : Nat) :
    (newMempool w ptr dma numEntries entrySize).baseAddr = dma.virt ∧
    (newMempool w ptr dma numEntries entrySize).baseAddrPhy = dma.phy := by
  simp [newMempool, memoryAllocateMempool]

theorem newMempool_top (w : World) (ptr : Nat) (dma : DmaMemory) (numEntries entrySize : Nat) :
    (newMempool w ptr dma numEntries entrySize).freeStackTop = numEntries := by
  simp [newMempool, memoryAllocateMempool]

theorem memoryAllocateMempool_mem (w : World) (ptr : Nat) (dma : DmaMemory) (numEntries entrySize : Nat) :
    (memoryAllocateMempool w ptr dma numEntries entrySize).mem = (List.range numEntries).foldl
      (initEntry ptr (newMempool w ptr dma numEntries entrySize)) w.mem := by
  simp [newMempool, memoryAllocateMempool]

theorem newMempool_header (w : World) {ptr : Nat} {dma : DmaMemory} {numEntries entrySize : Nat}
    (hsized : (newMempool w ptr dma numEntries entrySize).Sized ptr) {k : Nat} (hk : k < numEntries) :
    HeaderOk (memoryAllocateMempool w ptr dma numEntries entrySize).mem ptr
      (newMempool w ptr dma numEntries entrySize) k := by
  rw [memoryAllocateMempool_mem]
  exact (initEntry_fold hsized w.mem numEntries (by rw [newMempool_numEntries])).1 k hk

theorem memoryAllocateMempool_outside (w : World) {ptr : Nat} {dma : DmaMemory} {numEntries entrySize : Nat}
    (hsized : (newMempool w ptr dma numEntries entrySize).Sized ptr) {x : Nat}
    (hx : x < dma.virt ∨ dma.virt + (newMempool w ptr dma numEntries entrySize).bytes ≤ x) :
    (memoryAllocateMempool w ptr dma numEntries entrySize).mem x = w.mem x := by
  rw [memoryAllocateMempool_mem]
  refine (initEntry_fold hsized w.mem numEntries (by rw [newMempool_numEntries])).2 x ?_
  rw [(newMempool_base ..).1]
  exact hx

section create
variable {w : World} {ptr : Nat} {dma : DmaMemory} {numEntries entrySize : Nat}

theorem memoryAllocateMempool_pools_of_ne {q : Nat} (h : q ≠ ptr) :
    (memoryAllocateMempool w ptr dma numEntries entrySize).pools q = w.pools q := by
  simp only [memoryAllocateMempool, Function.update_of_ne h]

theorem newMempool_bytes (h : entrySize ≠ 0) :
    (newMempool w ptr dma numEntries entrySize).bytes = numEntries * entrySize := by
  simp [newMempool, memoryAllocateMempool, Mempool.bytes, h]

theorem newMempool_free :
    (newMempool w ptr dma numEntries entrySize).free = List.range numEntries := by
  simp only [newMempool, memoryAllocateMempool, Function.update_self, Mempool.free, stackList]
  rw [List.map_congr_left (g := id), List.map_id]
  intro i hi
  simp [List.mem_range.mp hi]

theorem memoryAllocateMempool_ok (h : PoolsOk w) (hptr : ptr ∉ w.live)
    (hsized : (newMempool w ptr dma numEntries entrySize).Sized ptr)
    (hregion : ∀ q ∈ w.live, Apart dma.virt (newMempool w ptr dma numEntries entrySize).bytes
      (w.pools q).baseAddr (w.pools q).bytes) :
    PoolsOk (memoryAllocateMempool w ptr dma numEntries entrySize) := by
  have hne : ∀ q ∈ w.live, q ≠ ptr := fun q hq he => hptr (he ▸ hq)
  have hold : ∀ q ∈ w.live, (memoryAllocateMempool w ptr dma numEntries entrySize).pools q = w.pools q :=
    fun q hq => memoryAllocateMempool_pools_of_ne (hne q hq)
  have hbase := (newMempool_base w ptr dma numEntries entrySize).1
  have hnum := newMempool_numEntries w ptr dma numEntries entrySize
  have hmem : (memoryAllocateMempool w ptr dma numEntries entrySize).mem =
      (List.range numEntries).foldl (initEntry ptr (newMempool w ptr dma numEntries entrySize)) w.mem := by
    simp [newMempool, memoryAllocateMempool]
  have hfold := initEntry_fold hsized w.mem numEntries (by rw [hnum])
  rw [← hmem] at hfold
  have hnew : (memoryAllocateMempool w ptr dma numEntries entrySize).pools ptr =
      newMempool w ptr dma numEntries entrySize := rfl
  have hlive : ∀ q, q ∈ (memoryAllocateMempool w ptr dma numEntries entrySize).live →
      q = ptr ∨ q ∈ w.live := fun q hq => List.mem_cons.mp hq
  -- no buffer that is out lies in the new region
  have hfresh : ∀ i < numEntries, (newMempool w ptr dma numEntries entrySize).entryAddr i ∉ w.out := by
    intro i hi hmem
    obtain ⟨q, hq, j, hj, he⟩ := h.owned _ hmem
    obtain ⟨h1, h2⟩ := hsized.entry_inside (i := i) (by rw [hnum]; exact hi)
    obtain ⟨h3, h4⟩ := (h.sized q hq).entry_inside hj
    have h5 := hsized.header_le
    have h6 := (h.sized q hq).header_le
    rw [PktBuf.sizeOf] at h5 h6
    rw [hbase] at h1 h2
    rcases hregion q hq with hr | hr <;> omega
  constructor
  · intro q hq
    rcases hlive q hq with rfl | hq
    · exact hsized
    · rw [hold q hq]
      exact h.sized q hq
  · intro q hq r hr hqr
    rcases hlive q hq with rfl | hq' <;> rcases hlive r hr with rfl | hr'
    · exact absurd rfl hqr
    · rw [hold r hr', hnew, hbase]
      exact hregion r hr'
    · rw [hold q hq', hnew, hbase]
      exact (hregion q hq').symm
    · rw [hold q hq', hold r hr']
      exact h.regions q hq' r hr' hqr
  · intro q hq i hi
    rcases hlive q hq with rfl | hq
    · rw [hnew, hnum] at hi
      exact hfold.1 i hi
    · rw [hold q hq] at hi ⊢
      refine (h.headers q hq i hi).congr fun f _ => PktBuf.get_congr f fun x hx hx' => hfold.2 x ?_
      obtain ⟨h3, h4⟩ := (h.sized q hq).entry_inside hi
      have h6 := (h.sized q hq).header_le
      rw [PktBuf.sizeOf] at h6
      rw [hbase]
      rcases hregion q hq with hr | hr <;> omega
  · intro q hq
    rcases hlive q hq with rfl | hq
    · rw [hnew, newMempool_free, hnum]
      exact (Partition.init numEntries).congr fun i hi => ⟨False.elim, hfresh i hi⟩
    · rw [hold q hq]
      exact h.split q hq
  · intro b hb
    obtain ⟨q, hq, i, hi, he⟩ := h.owned b hb
    exact ⟨q, List.mem_cons_of_mem _ hq, i, by rw [hold q hq]; exact hi, by rw [hold q hq]; exact he⟩
  · exact h.nodup

end create

/-! ## Taking and giving back a buffer -/

/-- A step that keeps the layout of the pools and the headers of their entries has to account for
the free stacks and the buffers that are out only. -/
theorem PoolsOk.of_layout {w w' : World} (h : PoolsOk w) (hlive : w'.live = w.live)
    (hlayout : ∀ q, (w.pools q).SameLayout (w'.pools q))
    (hheader : ∀ q ∈ w.live, ∀ i < (w.pools q).numEntries, HeaderOk w'.mem q (w.pools q) i)
    (hsplit : ∀ q ∈ w.live, Partition (w.pools q).numEntries (w'.pools q).free
      fun i => (w.pools q).entryAddr i ∈ w'.out)
    (howned : ∀ b ∈ w'.out, ∃ q ∈ w.live, ∃ i < (w.pools q).numEntries, b = (w.pools q).entryAddr i)
    (hnodup : w'.out.Nodup) : PoolsOk w' := by
  have hbytes : ∀ q, (w'.pools q).bytes = (w.pools q).bytes := fun q => by
    rw [Mempool.bytes, Mempool.bytes, (hlayout q).numEntries, (hlayout q).bufSize]
  constructor
  · rw [hlive]
    intro q hq
    have hs := h.sized q hq
    exact ⟨by rw [hbytes]; exact hs.bytes_lt, by rw [(hlayout q).bufSize]; exact hs.header_le, hs.ptr_lt⟩
  · rw [hlive]
    intro q hq r hr hqr
    rw [hbytes, hbytes, (hlayout q).baseAddr, (hlayout r).baseAddr]
    exact h.regions q hq r hr hqr
  · rw [hlive]
    intro q hq i hi
    rw [(hlayout q).numEntries] at hi
    have hh := hheader q hq i hi
    exact ⟨by rw [(hlayout q).entryAddr, (hlayout q).baseAddrPhy, (hlayout q).bufSize, hh.bufAddrPhy],
      by rw [(hlayout q).entryAddr, hh.mempool], by rw [(hlayout q).entryAddr, hh.mempoolIdx]⟩
  · rw [hlive]
    intro q hq
    rw [(hlayout q).numEntries]
    refine (hsplit q hq).congr fun i _ => ?_
    rw [(hlayout q).entryAddr]
  · rw [hlive]
    intro b hb
    obtain ⟨q, hq, i, hi, he⟩ := howned b hb
    exact ⟨q, hq, i, by rw [(hlayout q).numEntries]; exact hi, by rw [(hlayout q).entryAddr]; exact he⟩
  · exact hnodup

/-- What `pkt_buf_alloc` does to a pool with a free entry: it hands out the one pushed last. -/
theorem pktBufAlloc_ok {w : World} {p : Nat} (h : PoolsOk w) (hp : p ∈ w.live)
    (htop : (w.pools p).freeStackTop ≠ 0) :
    ∃ i < (w.pools p).numEntries, (w.pools p).entryAddr i ∉ w.out ∧
      (pktBufAlloc w p).1 = some ((w.pools p).entryAddr i) ∧
      (pktBufAlloc w p).2.out = (w.pools p).entryAddr i :: w.out ∧ PoolsOk (pktBufAlloc w p).2 := by
  obtain ⟨top, htop'⟩ : ∃ top, (w.pools p).freeStackTop = top + 1 :=
    ⟨(w.pools p).freeStackTop - 1, by omega⟩
  have hsplit := h.split p hp
  rw [Mempool.free, htop', stackList_succ] at hsplit
  obtain ⟨hi, hfree, hrest⟩ := hsplit.pop
  have halloc := pktBufAlloc_of_ne htop
  rw [htop', Nat.add_sub_cancel] at halloc
  refine ⟨(w.pools p).freeStack top, hi, hfree, by rw [halloc], by rw [halloc], ?_⟩
  refine h.of_layout (pktBufAlloc_live w p) (pktBufAlloc_layout w p) ?_ ?_ ?_ ?_
  · rw [pktBufAlloc_mem]
    exact h.headers
  · intro q hq
    rw [halloc]
    dsimp only
    by_cases hqp : q = p
    · subst hqp
      rw [Function.update_self, Mempool.free, Mempool.pop, htop', Nat.add_sub_cancel]
      refine hrest.congr fun j hj => ?_
      rw [List.mem_cons]
      refine or_congr_left ⟨fun he => he ▸ rfl, fun he => ?_⟩
      exact (h.entry_inj hp hp hj hi he).2
    · rw [Function.update_of_ne hqp]
      refine (h.split q hq).congr fun j hj => ?_
      rw [List.mem_cons, or_iff_right]
      intro he
      exact hqp (h.entry_inj hq hp hj hi he).1
  · intro b hb
    rw [halloc] at hb
    rcases List.mem_cons.mp hb with rfl | hb
    · exact ⟨p, hp, _, hi, rfl⟩
    · exact h.owned b hb
  · rw [halloc]
    exact List.nodup_cons.mpr ⟨hfree, h.nodup⟩

/-- `pkt_buf_free` of a buffer that is out pushes its own index on its own pool. -/
theorem pktBufFree_ok {w : World} {b : Nat} (h : PoolsOk w) (hb : b ∈ w.out) :
    PoolsOk (pktBufFree w b) := by
  obtain ⟨hp, hi, hbuf⟩ := h.header hb
  have hfree : pktBufFree w b = { w with
      pools := Function.update w.pools (PktBuf.get w.mem b .mempool)
        ((w.pools (PktBuf.get w.mem b .mempool)).push (PktBuf.get w.mem b .mempoolIdx))
      out := w.out.erase b } := rfl
  generalize PktBuf.get w.mem b .mempool = p at *
  generalize PktBuf.get w.mem b .mempoolIdx = i at *
  have htop : (w.pools p).freeStackTop < (w.pools p).numEntries := h.top_lt hp hi (hbuf ▸ hb)
  have hnum := h.numEntries_lt hp
  refine h.of_layout (pktBufFree_live w b) (pktBufFree_layout w b) ?_ ?_ ?_ ?_
  · rw [pktBufFree_mem]
    exact h.headers
  · intro q hq
    rw [hfree]
    dsimp only
    by_cases hqp : q = p
    · subst hqp
      rw [Function.update_self, Mempool.free, Mempool.push, Nat.mod_eq_of_lt (by omega)]
      dsimp only
      rw [stackList_push]
      refine ((h.split q hq).push hi (hbuf ▸ hb)).congr fun j hj => ?_
      rw [h.nodup.mem_erase_iff, hbuf]
      refine and_congr_left' (not_congr ⟨fun he => he ▸ rfl, fun he => ?_⟩)
      exact (h.entry_inj hq hq hj hi he).2
    · rw [Function.update_of_ne hqp]
      refine (h.split q hq).congr fun j hj => ?_
      rw [h.nodup.mem_erase_iff, and_iff_right]
      intro he
      exact hqp (h.entry_inj hq hp hj hi (he.trans hbuf)).1
  · intro c hc
    rw [hfree] at hc
    exact h.owned c (List.mem_of_mem_erase hc)
  · rw [hfree]
    exact h.nodup.erase b

/-! ## Runs over several pools -/

/-- What a program can do with mempools. `write` stands for any other use of memory. -/
inductive PoolOp where
  | create (ptr : Nat) (dma : DmaMemory) (numEntries entrySize : Nat)
  | alloc (pool : Nat)
  | free (buf : Nat)
  | write (m : Mem)

def PoolOp.apply (w : World) : PoolOp → World
  | .create ptr dma numEntries entrySize => memoryAllocateMempool w ptr dma numEntries entrySize
  | .alloc pool => (pktBufAlloc w pool).2
  | .free buf => pktBufFree w buf
  | .write m => { w with mem := m }

/-- The conditions on the program: pools are made in regions of their own and within the 32-bit
limit, only buffers that are out are freed, and nothing overwrites the headers. -/
def PoolOp.Allowed (w : World) : PoolOp → Prop
  | .create ptr dma numEntries entrySize =>
    ptr ∉ w.live ∧ ptr < 2 ^ 64 ∧ numEntries * entrySize < 2 ^ 32 ∧ PktBuf.sizeOf ≤ entrySize ∧
      ∀ q ∈ w.live, Apart dma.virt (numEntries * entrySize) (w.pools q).baseAddr (w.pools q).bytes
  | .alloc pool => pool ∈ w.live
  | .free buf => buf ∈ w.out
  | .write m => ∀ p ∈ w.live, ∀ i < (w.pools p).numEntries, ∀ f, f ≠ .size →
      PktBuf.get m ((w.pools p).entryAddr i) f = PktBuf.get w.mem ((w.pools p).entryAddr i) f

/-- The worlds reached from one without pools. -/
inductive PoolsReach : World → Prop
  | start (w : World) (hlive : w.live = []) (hout : w.out = []) : PoolsReach w
  | step {w : World} (op : PoolOp) (h : PoolsReach w) (hop : op.Allowed w) : PoolsReach (op.apply w)

theorem PoolOp.apply_ok {w : World} (op : PoolOp) (h : PoolsOk w) (hop : op.Allowed w) :
    PoolsOk (op.apply w) := by
  cases op with
  | create ptr dma numEntries entrySize =>
    obtain ⟨hptr, hlt, hbytes, hsize, hregion⟩ := hop
    have hne : entrySize ≠ 0 := by
      rw [PktBuf.sizeOf] at hsize
      omega
    have hnew : (newMempool w ptr dma numEntries entrySize).bytes = numEntries * entrySize :=
      newMempool_bytes hne
    refine memoryAllocateMempool_ok h hptr ⟨by rw [hnew]; exact hbytes, ?_, hlt⟩ fun q hq => ?_
    · simpa [newMempool, memoryAllocateMempool, hne] using hsize
    · rw [hnew]
      exact hregion q hq
  | alloc pool =>
    by_cases htop : (w.pools pool).freeStackTop = 0
    · rw [PoolOp.apply, pktBufAlloc_empty htop]
      exact h
    · obtain ⟨i, -, -, -, -, hok⟩ := pktBufAlloc_ok h hop htop
      exact hok
  | free buf => exact pktBufFree_ok h hop
  | write m =>
    exact h.of_layout rfl (fun q => .refl _)
      (fun q hq i hi => (h.headers q hq i hi).congr fun f hf => hop q hq i hi f hf) h.split h.owned h.nodup

theorem PoolsReach.ok {w : World} (h : PoolsReach w) : PoolsOk w := by
  induction h with
  | start w hlive hout =>
    constructor
    all_goals simp [hlive, hout]
  | step op _ hop ih => exact op.apply_ok ih hop

/-- **Buffers are conserved across pools.** In every reachable world and for every pool, the free
stack and the indices of the outstanding buffers are a permutation of the indices; the stack never
outgrows its array, also not at the next `pkt_buf_free`; `pkt_buf_alloc` fails exactly when all
buffers are outstanding; outstanding buffers lie in their pool's region, apart from each other, with
the physical address of their own place; and an operation touches one pool only. -/
theorem mempool_conservation {w : World} (h : PoolsReach w) :
    (∀ p ∈ w.live,
      ((w.pools p).free ++ (w.pools p).outstanding w.out).Perm (List.range (w.pools p).numEntries) ∧
      (w.pools p).freeStackTop ≤ (w.pools p).numEntries ∧
      ((pktBufAlloc w p).1 = none ↔
        ((w.pools p).outstanding w.out).length = (w.pools p).numEntries) ∧
      (∀ b, (pktBufAlloc w p).1 = some b → b ∉ w.out ∧
        ∃ i < (w.pools p).numEntries, b = (w.pools p).baseAddr + i * (w.pools p).bufSize ∧
          PktBuf.get w.mem b .bufAddrPhy =
            ((w.pools p).baseAddrPhy + (b - (w.pools p).baseAddr)) % 2 ^ 64) ∧
      ∀ q ≠ p, (pktBufAlloc w p).2.pools q = w.pools q) ∧
    (∀ b ∈ w.out, ∃ p ∈ w.live, ∃ i < (w.pools p).numEntries,
      b = (w.pools p).baseAddr + i * (w.pools p).bufSize ∧
      b + (w.pools p).bufSize ≤ (w.pools p).baseAddr + (w.pools p).bytes ∧
      PktBuf.get w.mem b .bufAddrPhy = ((w.pools p).baseAddrPhy + (b - (w.pools p).baseAddr)) % 2 ^ 64 ∧
      (w.pools p).freeStackTop < (w.pools p).numEntries ∧
      ((pktBufFree w b).pools p).free = (w.pools p).free ++ [i] ∧
      ∀ q ≠ p, (pktBufFree w b).pools q = w.pools q) ∧
    w.out.Nodup ∧
    ∀ p ∈ w.live, ∀ q ∈ w.live, ∀ i ∈ (w.pools p).outstanding w.out,
      ∀ j ∈ (w.pools q).outstanding w.out, (p ≠ q ∨ i ≠ j) →
        Apart ((w.pools p).entryAddr i) (w.pools p).bufSize
          ((w.pools q).entryAddr j) (w.pools q).bufSize := by
  have hok := h.ok
  have hphy : ∀ p ∈ w.live, ∀ i < (w.pools p).numEntries,
      PktBuf.get w.mem ((w.pools p).entryAddr i) .bufAddrPhy =
        ((w.pools p).baseAddrPhy + ((w.pools p).entryAddr i - (w.pools p).baseAddr)) % 2 ^ 64 := by
    intro p hp i hi
    rw [(hok.headers p hp i hi).bufAddrPhy, (hok.sized p hp).entryAddr_eq hi, Nat.add_sub_cancel_left]
  refine ⟨fun p hp => ⟨(hok.split p hp).perm, hok.top_le hp, ?_, ?_, fun q hq => ?_⟩,
    fun b hb => ?_, hok.nodup, ?_⟩
  · rw [pktBufAlloc_eq_none_iff, Mempool.outstanding, ← (hok.split p hp).length_eq_zero_iff,
      Mempool.free, stackList_length]
  · intro b hb
    have htop : (w.pools p).freeStackTop ≠ 0 := by
      rw [Ne, ← pktBufAlloc_eq_none_iff, hb]
      exact Option.some_ne_none b
    obtain ⟨i, hi, hfree, hsome, -, -⟩ := pktBufAlloc_ok hok hp htop
    rw [hb, Option.some.injEq] at hsome
    subst hsome
    exact ⟨hfree, i, hi, (hok.sized p hp).entryAddr_eq hi, hphy p hp i hi⟩
  · exact pktBufAlloc_pools_of_ne hq
  · obtain ⟨p, hp, i, hi, rfl⟩ := hok.owned b hb
    have hh := hok.headers p hp i hi
    have htop := hok.top_lt hp hi hb
    have hnum := hok.numEntries_lt hp
    refine ⟨p, hp, i, hi, (hok.sized p hp).entryAddr_eq hi, ((hok.sized p hp).entry_inside hi).2,
      hphy p hp i hi, htop, ?_, fun q hq => ?_⟩
    · dsimp only [pktBufFree]
      rw [hh.mempool, hh.mempoolIdx, Function.update_self, Mempool.free, Mempool.push,
        Nat.mod_eq_of_lt (by omega)]
      exact stackList_push _ _ _
    · exact pktBufFree_pools_of_ne (by rw [hh.mempool]; exact hq)
  · intro p hp q hq i hi j hj hne
    rw [Mempool.outstanding, List.mem_filter, List.mem_range] at hi hj
    exact hok.apart hp hq hi.1 hj.1 hne

/-- Two pools of two entries each, with one buffer of each out and one of the first given back. -/
def twoPools : World :=
  [.create 16 ⟨4096, 65536⟩ 2 64, .create 32 ⟨8192, 131072⟩ 2 2048, .alloc 16, .alloc 32,
    .alloc 16, .free 4160].foldl PoolOp.apply
    ⟨fun _ => 0, fun _ => ⟨0, 0, 0, 0, 0, fun _ => 0⟩, [], []⟩

theorem twoPools_reach : PoolsReach twoPools := by
  refine .step (.free 4160) (.step (.alloc 16) (.step (.alloc 32) (.step (.alloc 16)
    (.step (.create 32 ⟨8192, 131072⟩ 2 2048) (.step (.create 16 ⟨4096, 65536⟩ 2 64)
      (.start _ rfl rfl) ?_) ?_) ?_) ?_) ?_) ?_
  · simp [PoolOp.Allowed, PktBuf.sizeOf]
  · simp [PoolOp.Allowed, PktBuf.sizeOf, PoolOp.apply, memoryAllocateMempool, Mempool.bytes, Apart]
  · simp [PoolOp.Allowed, PoolOp.apply, memoryAllocateMempool]
  · simp [PoolOp.Allowed, PoolOp.apply, memoryAllocateMempool]
  · simp [PoolOp.Allowed, PoolOp.apply, memoryAllocateMempool]
  · rw [PoolOp.Allowed]
    decide

theorem mempool_conservation_twoPools : twoPools.out = [4096, 10240] ∧
    ((twoPools.pools 16).free ++ (twoPools.pools 16).outstanding twoPools.out).Perm [0, 1] ∧
    ((pktBufAlloc twoPools 16).1 = none ↔
      ((twoPools.pools 16).outstanding twoPools.out).length = 2) := by
  have h := (mempool_conservation twoPools_reach).1 16 (by decide)
  exact ⟨by decide, h.1, h.2.2.1⟩

end Ixy
