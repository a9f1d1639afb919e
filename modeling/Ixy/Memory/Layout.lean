import Ixy.Memory.Dma

/-!
# The layout of a mempool, for every size

`memory_allocate_mempool` does not look at the sizes it is given. Headers of 24 bytes overwrite each other in
smaller entries, and the product of the sizes is taken in 32 bits, so that the region may be too small.
`mempoolSound_iff` says for which sizes the pool comes out as intended.
-/

namespace Ixy

open Lib

/-- The fields of a header take this many bytes. -/
def headerBytes : Nat := 24

/-- `pkt_buf_alloc`, `n` times. -/
def pktBufAllocs (pool : Nat) : Nat → World → List (Option Nat) × World
  | 0, w => ([], w)
  | n + 1, w =>
    let r := pktBufAlloc w pool
    let rs := pktBufAllocs pool n r.2
    (r.1 :: rs.1, rs.2)

/-- The pool at `ptr` in a region of `mapped` bytes is as intended: each header is inside, and says where its
entry is and whose, and the entries are what `pkt_buf_alloc` hands out. -/
structure MempoolSound (mapped ptr numEntries entrySize : Nat) (w : World) : Prop where
  inside : ∀ i < numEntries, i * entrySize + headerBytes ≤ mapped
  bufAddrPhy : ∀ i < numEntries, PktBuf.get w.mem ((w.pools ptr).baseAddr + i * entrySize) .bufAddrPhy =
    ((w.pools ptr).baseAddrPhy + i * entrySize) % 2 ^ 64
  mempoolIdx : ∀ i < numEntries, PktBuf.get w.mem ((w.pools ptr).baseAddr + i * entrySize) .mempoolIdx = i
  mempool : ∀ i < numEntries, PktBuf.get w.mem ((w.pools ptr).baseAddr + i * entrySize) .mempool = ptr
  size : ∀ i < numEntries, PktBuf.get w.mem ((w.pools ptr).baseAddr + i * entrySize) .size = 0
  allocs : (pktBufAllocs ptr numEntries w).1.Nodup ∧ (pktBufAllocs ptr numEntries w).1.Perm
    ((List.range numEntries).map fun i => some ((w.pools ptr).baseAddr + i * entrySize))

/-! ## The loop -/

section
variable {ptr : Nat} {mp : Mempool}

theorem initEntry_of_not_mem (m : Mem) {i x : Nat}
    (hx : x < mp.entryAddr i ∨ mp.entryAddr i + headerBytes ≤ x) : initEntry ptr mp m i x = m x := by
  have hout : ∀ (f : PktBuf.Field) (m : Mem) (v : Nat), PktBuf.set m (mp.entryAddr i) f v x = m x := by
    intro f m v
    have hf := f.inside
    unfold headerBytes at hx
    exact store_of_not_mem (by omega)
  simp only [initEntry, hout]

theorem initEntries_byte (ptr : Nat) (mp : Mempool) (m : Mem) {n j x : Nat} (hj : j < n)
    (hlast : ∀ k, j < k → k < n → x < mp.entryAddr k ∨ mp.entryAddr k + headerBytes ≤ x) :
    ∃ m', (List.range n).foldl (initEntry ptr mp) m x = initEntry ptr mp m' j x := by
  induction n with
  | zero => omega
  | succ n ih =>
    rw [List.range_succ, List.foldl_append, List.foldl_cons, List.foldl_nil]
    by_cases hjn : j = n
    · exact ⟨_, by rw [hjn]⟩
    · rw [initEntry_of_not_mem _ (hlast n (by omega) (by omega))]
      exact ih (by omega) fun k hk hkn => hlast k hk (by omega)

theorem get_initEntries (m : Mem) {n j : Nat} (hj : j < n)
    (hlast : ∀ k, j < k → k < n → Apart (mp.entryAddr j) headerBytes (mp.entryAddr k) headerBytes)
    (f : PktBuf.Field) :
    PktBuf.get ((List.range n).foldl (initEntry ptr mp) m) (mp.entryAddr j) f = headerValue ptr mp j f := by
  induction n with
  | zero => omega
  | succ n ih =>
    rw [List.range_succ, List.foldl_append, List.foldl_cons, List.foldl_nil]
    by_cases hjn : j = n
    · rw [hjn]
      exact get_initEntry _ _ _
    · rw [← ih (by omega) fun k hk hkn => hlast k hk (by omega)]
      have hap := hlast n (by omega) (by omega)
      refine PktBuf.get_congr f fun x hx hx' => initEntry_of_not_mem _ ?_
      unfold headerBytes at *
      rcases hap with hap | hap <;> omega

theorem initEntries_fieldByte (ptr : Nat) (mp : Mempool) (m : Mem) {n j y : Nat} (f : PktBuf.Field) (hj : j < n)
    (hy : y < f.width)
    (hlast : ∀ k, j < k → k < n → mp.entryAddr j + f.offset + y < mp.entryAddr k) :
    (List.range n).foldl (initEntry ptr mp) m (mp.entryAddr j + f.offset + y) =
      byteOf (headerValue ptr mp j f) y := by
  obtain ⟨m', hm'⟩ := initEntries_byte ptr mp m hj fun k hk hkn => Or.inl (hlast k hk hkn)
  rw [hm']
  refine (byte_of_load _ _ hy).trans ?_
  exact congrArg (byteOf · y) (get_initEntry m' j f)

end

/-! ## Handing out -/

theorem pktBufAllocs_fst {w : World} {pool : Nat} (n : Nat) (hn : (w.pools pool).freeStackTop = n) :
    (pktBufAllocs pool n w).1 =
      ((List.range n).reverse.map fun i => some ((w.pools pool).entryAddr ((w.pools pool).freeStack i))) := by
  induction n generalizing w with
  | zero => rfl
  | succ n ih =>
    have hne : (w.pools pool).freeStackTop ≠ 0 := by omega
    have htop := pktBufAlloc_top hne
    have hlay := pktBufAlloc_layout w pool pool
    have hstack : ((pktBufAlloc w pool).2.pools pool).freeStack = (w.pools pool).freeStack := by
      rw [pktBufAlloc_of_ne hne]
      dsimp only
      rw [Function.update_self, Mempool.pop]
    rw [pktBufAllocs, ih (by omega), List.range_succ, List.reverse_append, List.reverse_singleton,
      List.singleton_append, List.map_cons, hstack]
    simp only [hlay.entryAddr]
    rw [pktBufAlloc_of_ne hne, hn, Nat.add_sub_cancel]

/-! ## The sizes that work -/

/-- No pool is made, or it has one entry, or the headers have room and the last one is in the region. -/
def MempoolFits (numEntries entrySize : Nat) : Prop :=
  numEntries * entrySize % 2 ^ 32 = 0 ∨ numEntries ≤ 1 ∨
    headerBytes ≤ entrySize ∧
      (numEntries - 1) * entrySize + headerBytes ≤ roundUpHuge (numEntries * entrySize % 2 ^ 32)

instance (numEntries entrySize : Nat) : Decidable (MempoolFits numEntries entrySize) :=
  inferInstanceAs (Decidable (_ ∨ _ ∨ _))

theorem roundUpHuge_le {size : Nat} (h : size < 2 ^ 32) : roundUpHuge size ≤ 2 ^ 32 := by
  unfold roundUpHuge
  split <;> omega

section
variable {w : World} {ptr numEntries entrySize : Nat} {dma : DmaMemory}

theorem entrySizeOr_pos (entrySize : Nat) : 0 < entrySizeOr entrySize := by
  unfold entrySizeOr
  split <;> omega

theorem mempool_mem : (memoryAllocateMempool w ptr dma numEntries entrySize).mem =
    (List.range numEntries).foldl (initEntry ptr (newMempool w ptr dma numEntries entrySize)) w.mem := by
  simp [newMempool, memoryAllocateMempool]

theorem newMempool_bufSizeOr :
    (newMempool w ptr dma numEntries entrySize).bufSize = entrySizeOr entrySize :=
  newMempool_bufSize w ptr dma numEntries entrySize

theorem newMempool_entryAddr (i : Nat) : (newMempool w ptr dma numEntries entrySize).entryAddr i =
    dma.virt + i * entrySizeOr entrySize % 2 ^ 32 := by
  rw [Mempool.entryAddr, (newMempool_base _ _ _ _ _).1, newMempool_bufSizeOr]

theorem newMempool_allocs : (pktBufAllocs ptr numEntries
      (memoryAllocateMempool w ptr dma numEntries entrySize)).1 =
    ((List.range numEntries).map fun i => some (dma.virt + i * entrySizeOr entrySize % 2 ^ 32)).reverse := by
  have hpool : (memoryAllocateMempool w ptr dma numEntries entrySize).pools ptr =
      newMempool w ptr dma numEntries entrySize := rfl
  rw [pktBufAllocs_fst numEntries (newMempool_top w ptr dma numEntries entrySize), ← List.map_reverse, hpool]
  refine List.map_congr_left fun i hi => ?_
  rw [List.mem_reverse, List.mem_range] at hi
  rw [newMempool_entryAddr]
  simp [newMempool, memoryAllocateMempool, hi]

theorem mempoolSound_of_apart {mapped : Nat} (hptr : ptr < 2 ^ 64) (hnum : numEntries < 2 ^ 32)
    (hmul : ∀ i < numEntries, i * entrySizeOr entrySize < 2 ^ 32)
    (hsize : 1 < numEntries → headerBytes ≤ entrySizeOr entrySize)
    (hinside : ∀ i < numEntries, i * entrySizeOr entrySize + headerBytes ≤ mapped) :
    MempoolSound mapped ptr numEntries (entrySizeOr entrySize)
      (memoryAllocateMempool w ptr dma numEntries entrySize) := by
  have hpool : (memoryAllocateMempool w ptr dma numEntries entrySize).pools ptr =
      newMempool w ptr dma numEntries entrySize := rfl
  have haddr : ∀ i < numEntries, (newMempool w ptr dma numEntries entrySize).entryAddr i =
      dma.virt + i * entrySizeOr entrySize := by
    intro i hi
    rw [newMempool_entryAddr, Nat.mod_eq_of_lt (hmul i hi)]
  have hget : ∀ i < numEntries, ∀ f,
      PktBuf.get (memoryAllocateMempool w ptr dma numEntries entrySize).mem
        (dma.virt + i * entrySizeOr entrySize) f =
      headerValue ptr (newMempool w ptr dma numEntries entrySize) i f := by
    intro i hi f
    rw [mempool_mem, ← haddr i hi]
    refine get_initEntries _ hi (fun k hik hk => ?_) f
    have hle := mul_add_le (entrySizeOr entrySize) hik
    have hge := hsize (by omega)
    rw [haddr i hi, haddr k hk]
    exact Or.inl (by omega)
  have hbase := newMempool_base w ptr dma numEntries entrySize
  constructor
  · exact hinside
  · intro i hi
    rw [hpool, hbase.1, hbase.2, hget i hi]
    unfold headerValue
    rw [hbase.2, newMempool_bufSizeOr, Nat.mod_eq_of_lt (hmul i hi)]
  · intro i hi
    rw [hpool, hbase.1, hget i hi]
    exact Nat.mod_eq_of_lt (by omega)
  · intro i hi
    rw [hpool, hbase.1, hget i hi]
    exact Nat.mod_eq_of_lt hptr
  · intro i hi
    rw [hpool, hbase.1, hget i hi]
    rfl
  · have hmap : ((List.range numEntries).map fun i => some (dma.virt + i * entrySizeOr entrySize % 2 ^ 32)) =
        (List.range numEntries).map fun i => some (dma.virt + i * entrySizeOr entrySize) := by
      refine List.map_congr_left fun i hi => ?_
      rw [Nat.mod_eq_of_lt (hmul i (List.mem_range.mp hi))]
    rw [newMempool_allocs, hmap, hpool, hbase.1]
    refine ⟨List.nodup_reverse.mpr ?_, List.reverse_perm _⟩
    refine List.Nodup.map (fun i j hij => ?_) List.nodup_range
    have hpos := entrySizeOr_pos entrySize
    simp only [Option.some.injEq, Nat.add_left_cancel_iff] at hij
    exact Nat.eq_of_mul_eq_mul_right hpos hij

theorem MempoolFits.sound (h : MempoolFits numEntries (entrySizeOr entrySize)) (hptr : ptr < 2 ^ 64)
    (hnum : numEntries < 2 ^ 32) (hmade : numEntries * entrySizeOr entrySize % 2 ^ 32 ≠ 0) :
    MempoolSound (roundUpHuge (numEntries * entrySizeOr entrySize % 2 ^ 32)) ptr numEntries
      (entrySizeOr entrySize) (memoryAllocateMempool w ptr dma numEntries entrySize) := by
  have hround := roundUpHuge_le (Nat.mod_lt (numEntries * entrySizeOr entrySize) (by decide : 2 ^ 32 > 0))
  rcases h with h | h | ⟨hge, hfit⟩
  · exact absurd h hmade
  · have hhuge : headerBytes ≤ roundUpHuge (numEntries * entrySizeOr entrySize % 2 ^ 32) := by
      unfold headerBytes roundUpHuge
      split <;> omega
    have hzero : ∀ i < numEntries, i * entrySizeOr entrySize = 0 := by
      intro i hi
      rw [show i = 0 by omega, Nat.zero_mul]
    refine mempoolSound_of_apart hptr hnum (fun i hi => ?_) (fun hlt => by omega) fun i hi => ?_
    · rw [hzero i hi]
      decide
    · rw [hzero i hi, Nat.zero_add]
      exact hhuge
  · have hlast : ∀ i < numEntries,
        i * entrySizeOr entrySize ≤ (numEntries - 1) * entrySizeOr entrySize :=
      fun i hi => Nat.mul_le_mul_right _ (by omega)
    unfold headerBytes at hfit
    refine mempoolSound_of_apart hptr hnum (fun i hi => ?_) (fun _ => hge) fun i hi => ?_
    · have := hlast i hi
      omega
    · have := hlast i hi
      unfold headerBytes
      omega

/-- Where the headers of two neighbours overlap, the byte that is read for the first one is the byte that was
written for the second. -/
theorem MempoolSound.overlap {mapped i : Nat}
    (h : MempoolSound mapped ptr numEntries (entrySizeOr entrySize)
      (memoryAllocateMempool w ptr dma numEntries entrySize))
    (hptr : ptr < 2 ^ 64) (hnum : numEntries < 2 ^ 32)
    (hmul : ∀ i < numEntries, i * entrySizeOr entrySize < 2 ^ 32) (hi : i + 1 < numEntries)
    (f g : PktBuf.Field) {y z : Nat} (hy : y < f.width) (hz : z < g.width)
    (hpos : entrySizeOr entrySize + (f.offset + y) = g.offset + z)
    (hlast : ∀ k, i + 1 < k → k < numEntries →
      (i + 1) * entrySizeOr entrySize + (f.offset + y) < k * entrySizeOr entrySize) :
    byteOf (headerValue ptr (newMempool w ptr dma numEntries entrySize) (i + 1) f) y =
      byteOf (headerValue ptr (newMempool w ptr dma numEntries entrySize) i g) z := by
  have haddr : ∀ i < numEntries, (newMempool w ptr dma numEntries entrySize).entryAddr i =
      dma.virt + i * entrySizeOr entrySize := by
    intro i hi
    rw [newMempool_entryAddr, Nat.mod_eq_of_lt (hmul i hi)]
  have hbase := newMempool_base w ptr dma numEntries entrySize
  have hread : PktBuf.get (memoryAllocateMempool w ptr dma numEntries entrySize).mem
      (dma.virt + i * entrySizeOr entrySize) g =
      headerValue ptr (newMempool w ptr dma numEntries entrySize) i g := by
    rw [← hbase.1]
    cases g with
    | bufAddrPhy =>
      refine (h.bufAddrPhy i (by omega)).trans ?_
      unfold headerValue
      rw [newMempool_bufSizeOr, Nat.mod_eq_of_lt (hmul i (by omega))]
      rfl
    | mempool => exact (h.mempool i (by omega)).trans (Nat.mod_eq_of_lt hptr).symm
    | mempoolIdx => exact (h.mempoolIdx i (by omega)).trans (Nat.mod_eq_of_lt (by omega)).symm
    | size => exact h.size i (by omega)
  have hwritten := initEntries_fieldByte ptr (newMempool w ptr dma numEntries entrySize) w.mem f hi
    hy fun k hk hkn => by
      have := hlast k hk hkn
      rw [haddr _ hi, haddr k hkn]
      omega
  have hsame : dma.virt + (i + 1) * entrySizeOr entrySize + f.offset + y =
      dma.virt + i * entrySizeOr entrySize + g.offset + z := by
    rw [Nat.add_mul, Nat.one_mul]
    omega
  rw [← hwritten, ← hread, PktBuf.get, ← byte_of_load _ _ hz, mempool_mem, haddr _ hi, hsame]

/-- Entries smaller than a header spoil it, whatever the number: with this pointer and this address, some byte
comes out wrong. -/
theorem mempool_crowded {mapped virt : Nat} (hnum : 2 ≤ numEntries) (hnum' : numEntries < 2 ^ 32)
    (hsize : entrySizeOr entrySize < headerBytes)
    (hmul : (numEntries - 1) * entrySizeOr entrySize < 2 ^ 32) :
    ¬ MempoolSound mapped 0x0101010101010102 numEntries (entrySizeOr entrySize)
      (memoryAllocateMempool w 0x0101010101010102 ⟨virt, 0x10100000000⟩ numEntries entrySize) := by
  intro h
  have hmul' : ∀ i < numEntries, i * entrySizeOr entrySize < 2 ^ 32 := fun i hi =>
    Nat.lt_of_le_of_lt (Nat.mul_le_mul_right _ (by omega)) hmul
  have hpos := entrySizeOr_pos entrySize
  have hpair := fun hi => h.overlap (i := numEntries - 2) (by decide) hnum' hmul' hi
  have hlast : ∀ x k, numEntries - 2 + 1 < k → k < numEntries →
      (numEntries - 2 + 1) * entrySizeOr entrySize + x < k * entrySizeOr entrySize := by
    intro x k hk hk'
    omega
  unfold headerBytes at hsize
  obtain he | he | he | he : entrySizeOr entrySize < 8 ∨
      (8 ≤ entrySizeOr entrySize ∧ entrySizeOr entrySize < 16) ∨
      (16 ≤ entrySizeOr entrySize ∧ entrySizeOr entrySize < 20) ∨ 20 ≤ entrySizeOr entrySize := by omega
  · -- the pointer over the pointer
    have hbyte := hpair (by omega) .mempool .mempool (y := 0) (z := entrySizeOr entrySize) (by decide) he
      (Nat.add_comm _ _) (hlast _)
    have hne : ∀ e < 8, 0 < e → byteOf (0x0101010101010102 % 2 ^ 64) 0 ≠ byteOf (0x0101010101010102 % 2 ^ 64) e := by
      decide
    exact hne _ he hpos hbyte
  · -- the pointer over the size
    have hbyte := hpair (by omega) .mempool .size (y := 12 - entrySizeOr entrySize)
      (z := entrySizeOr entrySize - 12) (by change _ < 8; omega) (by change _ < 4; omega)
      (by change _ + (8 + _) = 20 + _; omega) (hlast _)
    have hne : ∀ e < 16, 8 ≤ e → byteOf (0x0101010101010102 % 2 ^ 64) (12 - e) ≠ byteOf 0 (e - 12) := by
      decide
    exact hne _ he.2 he.1 hbyte
  · -- the high half of the address over the size
    have hbyte := hpair (by omega) .bufAddrPhy .size (y := 4)
      (z := entrySizeOr entrySize - 16) (by decide) (by change _ < 4; omega)
      (by change _ + (0 + _) = 20 + _; omega) (hlast _)
    have hhigh : ∀ x, ((0x10100000000 + x % 2 ^ 32) % 2 ^ 64) / 256 ^ 4 = 257 := by
      intro x
      omega
    simp only [headerValue, (newMempool_base _ _ _ _ _).2, byteOf, hhigh, Nat.zero_div] at hbyte
    exact absurd hbyte (by decide)
  · -- the low byte of the address over the size
    have hbyte := h.overlap (i := 0) (by decide) hnum' hmul' (by omega) .bufAddrPhy .size (y := 0)
      (z := entrySizeOr entrySize - 20) (by decide) (by change _ < 4; omega)
      (by change _ + (0 + _) = 20 + _; omega) fun k hk _ => by
        have hle : 2 * entrySizeOr entrySize ≤ k * entrySizeOr entrySize := Nat.mul_le_mul_right _ hk
        change _ + (0 + 0) < _
        omega
    have hlow : ∀ e < 24, 20 ≤ e →
        byteOf ((0x10100000000 + (0 + 1) * e % 2 ^ 32) % 2 ^ 64) 0 ≠ byteOf 0 (e - 20) := by
      decide
    simp only [headerValue, (newMempool_base _ _ _ _ _).2, newMempool_bufSizeOr] at hbyte
    exact hlow _ hsize he hbyte

theorem evals_memoryAllocateMempoolDma {h : Nat} {pagemap : Nat → UInt64} {w' : World} {k : Kernel}
    (hrun : Prog.Evals execKernel (memoryAllocateMempoolDma w ptr numEntries entrySize) ⟨pagemap, [h]⟩
      (.done w' k)) :
    numEntries * entrySizeOr entrySize % 2 ^ 32 ≠ 0 ∧
      ∃ dma, w' = memoryAllocateMempool w ptr dma numEntries entrySize := by
  by_cases hmade : numEntries * entrySizeOr entrySize % 2 ^ 32 = 0
  · obtain ⟨msg, hdma⟩ := evals_memoryAllocateDma_zero ⟨pagemap, [h]⟩
    rw [← hmade] at hdma
    cases hrun.unique hdma.bind_abort
  by_cases hentry : pagemap (512 * h) = 0
  · have hdma := evals_memoryAllocateDma_untranslated (k := ⟨pagemap, [h]⟩) rfl hmade hentry
    cases hrun.unique hdma.bind_abort
  · have hdma := evals_memoryAllocateDma (k := ⟨pagemap, [h]⟩) rfl hmade hentry
    have heq := hrun.unique (hdma.bind (.ret _ _))
    injection heq with hw
    exact ⟨hmade, _, hw⟩

end

/-- A kernel that shows every page at the same frame. -/
def oneFrame : Nat → UInt64 := fun _ => 0x8000000010100000

theorem evals_oneFrame (w : World) {ptr numEntries entrySize : Nat}
    (hmade : numEntries * entrySizeOr entrySize % 2 ^ 32 ≠ 0) :
    Prog.Evals execKernel (memoryAllocateMempoolDma w ptr numEntries entrySize) ⟨oneFrame, [1]⟩
      (.done (memoryAllocateMempool w ptr ⟨0x200000, 0x10100000000⟩ numEntries entrySize) ⟨oneFrame, []⟩) := by
  have hdma := evals_memoryAllocateDma (k := ⟨oneFrame, [1]⟩) rfl hmade (by decide +kernel)
  rw [show pfn (Kernel.pagemap ⟨oneFrame, [1]⟩ (512 * 1)) * 4096 % 2 ^ 64 = 0x10100000000 by decide +kernel]
    at hdma
  exact hdma.bind (.ret _ _)

/-- **Main result.** The sizes for which every pool that is made is sound. -/
theorem mempoolSound_iff (numEntries entrySize : Nat) (hnum : numEntries < 2 ^ 32) :
    (∀ w ptr h pagemap w' k, ptr < 2 ^ 64 →
      Prog.Evals execKernel (memoryAllocateMempoolDma w ptr numEntries entrySize) ⟨pagemap, [h]⟩ (.done w' k) →
      MempoolSound (roundUpHuge (numEntries * entrySizeOr entrySize % 2 ^ 32)) ptr numEntries
        (entrySizeOr entrySize) w') ↔
    MempoolFits numEntries (entrySizeOr entrySize) := by
  constructor
  · intro hall
    by_contra hfits
    obtain ⟨hmade, hmany, hroom⟩ : numEntries * entrySizeOr entrySize % 2 ^ 32 ≠ 0 ∧ ¬ numEntries ≤ 1 ∧
        ¬ (headerBytes ≤ entrySizeOr entrySize ∧ (numEntries - 1) * entrySizeOr entrySize + headerBytes ≤
          roundUpHuge (numEntries * entrySizeOr entrySize % 2 ^ 32)) := by
      unfold MempoolFits at hfits
      tauto
    have hsound := hall noWorld 0x0101010101010102 1 oneFrame _ _ (by decide) (evals_oneFrame noWorld hmade)
    have hround := roundUpHuge_le (Nat.mod_lt (numEntries * entrySizeOr entrySize) (by decide : 2 ^ 32 > 0))
    have hinside := hsound.inside (numEntries - 1) (by omega)
    have hsmall : entrySizeOr entrySize < headerBytes := by
      by_contra hge
      exact hroom ⟨Nat.not_lt.mp hge, hinside⟩
    refine mempool_crowded (by omega) hnum hsmall ?_ hsound
    unfold headerBytes at hinside
    omega
  · intro hfits w ptr h pagemap w' k hptr hrun
    obtain ⟨hmade, dma, rfl⟩ := evals_memoryAllocateMempoolDma hrun
    exact hfits.sound hptr hnum hmade

/-- The pool of a receive queue is sound. -/
theorem mempoolSound_iff_default : 4096 < 2 ^ 32 ∧ ∃ w, Prog.Evals execKernel
      (memoryAllocateMempoolDma noWorld 64 4096 0) ⟨oneFrame, [1]⟩ (.done w ⟨oneFrame, []⟩) ∧
    MempoolSound (roundUpHuge (4096 * 2048 % 2 ^ 32)) 64 4096 2048 w := by
  refine ⟨by decide, _, evals_oneFrame noWorld (by decide), ?_⟩
  exact (mempoolSound_iff 4096 0 (by decide)).mpr (by decide) noWorld 64 1 oneFrame _ _ (by decide)
    (evals_oneFrame noWorld (by decide))

/-- In entries of 8 bytes the second header overwrites the pool pointer of the first. With three entries of a
little more than 2 GiB, the region has room for one only, and the third buffer lies within the first. -/
theorem mempool_counterexample :
    (∃ w, Prog.Evals execKernel (memoryAllocateMempoolDma noWorld 64 2 8) ⟨oneFrame, [1]⟩
        (.done w ⟨oneFrame, []⟩) ∧
      PktBuf.get w.mem 0x200000 .mempool = 0x10100000008 ∧ ¬ MempoolSound (2 ^ 21) 64 2 8 w) ∧
    ∃ w, Prog.Evals execKernel (memoryAllocateMempoolDma noWorld 64 3 (2 ^ 31 + 2 ^ 20)) ⟨oneFrame, [1]⟩
        (.done w ⟨oneFrame, []⟩) ∧
      roundUpHuge (3 * (2 ^ 31 + 2 ^ 20) % 2 ^ 32) = 2 ^ 31 + 2 ^ 22 ∧
      (w.pools 64).entryAddr 0 = 0x200000 ∧ (w.pools 64).entryAddr 2 = 0x200000 + 2 ^ 21 ∧
      ¬ MempoolSound (2 ^ 31 + 2 ^ 22) 64 3 (2 ^ 31 + 2 ^ 20) w := by
  refine ⟨⟨_, evals_oneFrame noWorld (by decide), by decide +kernel, fun h => ?_⟩,
    ⟨_, evals_oneFrame noWorld (by decide), by decide, by decide, by decide, fun h => ?_⟩⟩
  · exact absurd (h.mempool 0 (by decide)) (by decide +kernel)
  · exact absurd (h.inside 2 (by decide)) (by decide)

end Ixy
