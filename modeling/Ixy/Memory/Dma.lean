import Mathlib.Data.UInt
import Ixy.Memory.Conservation
import Ixy.Memory.Pagemap

/-!
# DMA memory and its physical addresses (`memory_allocate_dma`)

`memory_allocate_dma` maps huge pages and translates the address of the first one; `memory_allocate_mempool`
then counts on from there for all buffers. `DmaTrue` says that the addresses written to the buffers are the
ones at which the NIC finds them. `dmaTrue_iff` gives the exact condition: the entry of the first page shows
the true frame (or is zero, and the process aborts), and each further huge page of the pool follows on
physically.
-/

namespace Ixy

open Lib

/-- The default of `entry_size`. -/
def entrySizeOr (entrySize : Nat) : Nat := if entrySize = 0 then 2048 else entrySize

/-- Sizes are rounded up to multiples of 2 MiB. -/
def roundUpHuge (size : Nat) : Nat := if size % 2 ^ 21 ≠ 0 then (size / 2 ^ 21 + 1) * 2 ^ 21 else size

/-- `memory_allocate_dma`. A call that fails on the way to the mapping ends the process. -/
def memoryAllocateDma (size : Nat) : KernelCode DmaMemory := do
  let virt ← Prog.access (KernelOp.mmap (roundUpHuge size))
  match virt with
  | none => .abort "Failed to mmap hugepage"
  | some virt => do
    let phy ← virtToPhys 4096 virt
    return ⟨virt, phy⟩

/-- `memory_allocate_mempool`, for the struct at `ptr`. -/
def memoryAllocateMempoolDma (w : World) (ptr numEntries entrySize : Nat) : KernelCode World := do
  let mem ← memoryAllocateDma (numEntries * entrySizeOr entrySize % 2 ^ 32)
  return memoryAllocateMempool w ptr mem numEntries entrySize

/-! ## Where memory really is -/

/-- The page table behind the pagemap. A huge page is 512 frames in a row. Entries that are present show the
frame, or 0 to a process without the privilege; the others may show anything. -/
structure PageTable where
  frame : Nat → Nat
  entry : Nat → UInt64
  huge : ∀ h, ∀ j < 512, frame (512 * h + j) = frame (512 * h) + j
  fits : ∀ page, frame page * 4096 + 4096 ≤ 2 ^ 64
  shown : ∀ page, (entry page).toNat.testBit 63 → pfn (entry page) = frame page ∨ pfn (entry page) = 0

/-- The physical address of a byte. -/
def PageTable.phys (t : PageTable) (virt : Nat) : Nat := t.frame (virt / 4096) * 4096 + virt % 4096

/-- A new pool whose buffers have their true addresses in their headers. -/
def DmaTrue (t : PageTable) (ptr : Nat) (w : World) : Prop :=
  ∀ i < (w.pools ptr).numEntries, ∀ k < (w.pools ptr).bufSize,
    (PktBuf.get w.mem ((w.pools ptr).baseAddr + i * (w.pools ptr).bufSize) .bufAddrPhy + k) % 2 ^ 64 =
      t.phys ((w.pools ptr).baseAddr + i * (w.pools ptr).bufSize + k)

/-- The process aborts, or has such a pool. -/
def DmaOutcome (t : PageTable) (ptr : Nat) : Prog.Outcome World Kernel → Prop
  | .aborted _ _ => True
  | .done w _ => DmaTrue t ptr w

section
variable {t : PageTable}

theorem PageTable.phys_huge (t : PageTable) (h : Nat) {y : Nat} (hy : y < 2 ^ 21) :
    t.phys (2 ^ 21 * h + y) = t.frame (512 * h) * 4096 + y := by
  have hdiv : (2 ^ 21 * h + y) / 4096 = 512 * h + y / 4096 := by omega
  have hmod : (2 ^ 21 * h + y) % 4096 = y % 4096 := by omega
  rw [PageTable.phys, hdiv, hmod, t.huge h (y / 4096) (by omega)]
  omega

theorem PageTable.phys_lt (t : PageTable) (virt : Nat) : t.phys virt < 2 ^ 64 := by
  have hfits := t.fits (virt / 4096)
  unfold PageTable.phys
  omega

/-- Huge page `j` of a mapping at huge page `h` is where counting on from `phy` leads. -/
def PageTable.Linear (t : PageTable) (h phy size : Nat) : Prop :=
  ∀ j, 2 ^ 21 * j < size → t.frame (512 * (h + j)) * 4096 = (phy + 2 ^ 21 * j) % 2 ^ 64

/-- Counting on is right for all bytes if it is right for all huge pages. -/
theorem PageTable.Linear.phys {h phy size x : Nat} (hlin : t.Linear h phy size) (hx : x < size) :
    t.phys (2 ^ 21 * h + x) = (phy + x) % 2 ^ 64 := by
  have hpage := hlin (x / 2 ^ 21) (by omega)
  have hphys := t.phys_huge (h + x / 2 ^ 21) (y := x % 2 ^ 21) (by omega)
  have hsum : 2 ^ 21 * (h + x / 2 ^ 21) + x % 2 ^ 21 = 2 ^ 21 * h + x := by omega
  have hlt := t.phys_lt (2 ^ 21 * h + x)
  rw [hsum] at hphys
  omega

end

/-! ## What the code makes of it -/

section
variable {k : Kernel} {h : Nat} {rest : List Nat} {size : Nat}

theorem roundUpHuge_eq_zero {size : Nat} : roundUpHuge size = 0 ↔ size = 0 := by
  unfold roundUpHuge
  split <;> omega

theorem roundUpHuge_eq_self {size : Nat} : roundUpHuge size = size ↔ size % 2 ^ 21 = 0 := by
  unfold roundUpHuge
  split <;> omega

theorem evals_memoryAllocateDma (hsup : k.supply = h :: rest) (hsize : size ≠ 0)
    (hentry : k.pagemap (512 * h) ≠ 0) :
    Prog.Evals execKernel (memoryAllocateDma size) k
      (.done ⟨2 ^ 21 * h, pfn (k.pagemap (512 * h)) * 4096 % 2 ^ 64⟩ { k with supply := rest }) := by
  have hpage : 2 ^ 21 * h / 4096 = 512 * h := by omega
  have hmod : 2 ^ 21 * h % 4096 = 0 := by omega
  refine .op (r := some (2 ^ 21 * h)) (u := { k with supply := rest }) ?_ ?_
  · simp only [execKernel, hsup, mt roundUpHuge_eq_zero.mp hsize, if_false]
  · have htr := evals_virtToPhys 4096 (2 ^ 21 * h) (k := { k with supply := rest })
      (by rw [hpage]; exact hentry)
    rw [hpage, hmod, Nat.add_zero] at htr
    exact htr.bind (.ret _ _)

theorem evals_memoryAllocateDma_untranslated (hsup : k.supply = h :: rest) (hsize : size ≠ 0)
    (hentry : k.pagemap (512 * h) = 0) :
    Prog.Evals execKernel (memoryAllocateDma size) k
      (.aborted (translateFailed (2 ^ 21 * h)) { k with supply := rest }) := by
  have hpage : 2 ^ 21 * h / 4096 = 512 * h := by omega
  refine .op (r := some (2 ^ 21 * h)) (u := { k with supply := rest }) ?_ ?_
  · simp only [execKernel, hsup, mt roundUpHuge_eq_zero.mp hsize, if_false]
  · have habort := evals_virtToPhys_abort 4096 (2 ^ 21 * h)
      (k := { k with supply := rest }) (by rw [hpage]; exact hentry)
    exact habort.bind_abort

theorem evals_memoryAllocateDma_zero (k : Kernel) :
    ∃ msg, Prog.Evals execKernel (memoryAllocateDma 0) k (.aborted msg k) := by
  refine ⟨_, .op (r := none) (u := k) ?_ (.abort _ _)⟩
  simp only [execKernel]
  split
  · rfl
  · rfl

end

section
variable {t : PageTable} {w : World} {ptr h numEntries entrySize : Nat}

theorem dmaTrue_iff_linear {phy : Nat} (hptr : ptr < 2 ^ 64) (hsize : 64 ≤ entrySize)
    (hbytes : numEntries * entrySize < 2 ^ 32) :
    DmaTrue t ptr (memoryAllocateMempool w ptr ⟨2 ^ 21 * h, phy⟩ numEntries entrySize) ↔
      t.Linear h phy (numEntries * entrySize) := by
  have hsized : (newMempool w ptr ⟨2 ^ 21 * h, phy⟩ numEntries entrySize).Sized ptr := by
    refine ⟨?_, ?_, hptr⟩
    · rw [newMempool_bytes (by omega)]
      exact hbytes
    · rw [newMempool_bufSize, if_neg (by omega)]
      exact hsize
  have hheader : ∀ i < numEntries,
      PktBuf.get (memoryAllocateMempool w ptr ⟨2 ^ 21 * h, phy⟩ numEntries entrySize).mem
        (2 ^ 21 * h + i * entrySize) .bufAddrPhy = (phy + i * entrySize) % 2 ^ 64 := by
    intro i hi
    have hphy := (newMempool_header w hsized hi).bufAddrPhy
    rw [hsized.entryAddr_eq (by rw [newMempool_numEntries]; exact hi), (newMempool_base _ _ _ _ _).1,
      (newMempool_base _ _ _ _ _).2, newMempool_bufSize, if_neg (by omega)] at hphy
    exact hphy
  have hpool : ∀ dma, (memoryAllocateMempool w ptr dma numEntries entrySize).pools ptr =
      newMempool w ptr dma numEntries entrySize := fun _ => rfl
  unfold DmaTrue
  rw [hpool, newMempool_numEntries, (newMempool_base _ _ _ _ _).1, newMempool_bufSize, if_neg (by omega)]
  constructor
  · intro hall j hj
    have hsum := Nat.div_add_mod (2 ^ 21 * j) entrySize
    have hdiv : 2 ^ 21 * j / entrySize < numEntries := by
      rw [Nat.div_lt_iff_lt_mul (by omega)]
      exact hj
    have hphys := hall _ hdiv (2 ^ 21 * j % entrySize) (Nat.mod_lt _ (by omega))
    rw [hheader _ hdiv, Nat.mod_add_mod, Nat.add_assoc, Nat.add_assoc, Nat.mul_comm _ entrySize, hsum,
      ← Nat.mul_add] at hphys
    have hstart := t.phys_huge (h + j) (y := 0) (by decide)
    rw [Nat.add_zero, Nat.add_zero] at hstart
    rw [hphys, hstart]
  · intro hlin i hi k hk
    have hlt : i * entrySize + k < numEntries * entrySize := by
      have hle := mul_add_le entrySize hi
      omega
    rw [hheader i hi, Nat.mod_add_mod, Nat.add_assoc, Nat.add_assoc, hlin.phys hlt]

theorem PageTable.linear_mod {phy size : Nat} : t.Linear h (phy % 2 ^ 64) size ↔ t.Linear h phy size := by
  unfold PageTable.Linear
  simp only [Nat.mod_add_mod]

/-- **Main result.** A pool has its true addresses exactly if the first pagemap entry is zero, so that the
process aborts, or its frame number is true and all huge pages of the pool follow on from it. -/
theorem dmaTrue_iff (t : PageTable) (w : World) (ptr h numEntries entrySize : Nat) (hptr : ptr < 2 ^ 64)
    (hsize : 64 ≤ entrySize) (hbytes : numEntries * entrySize < 2 ^ 32) :
    (∀ out, Prog.Evals execKernel (memoryAllocateMempoolDma w ptr numEntries entrySize) ⟨t.entry, [h]⟩ out →
      DmaOutcome t ptr out) ↔
    (t.entry (512 * h) = 0 ∨ t.Linear h (pfn (t.entry (512 * h)) * 4096) (numEntries * entrySize)) := by
  have hreq : numEntries * entrySizeOr entrySize % 2 ^ 32 = numEntries * entrySize := by
    rw [entrySizeOr, if_neg (by omega), Nat.mod_eq_of_lt hbytes]
  have hall : ∀ out, Prog.Evals execKernel (memoryAllocateMempoolDma w ptr numEntries entrySize)
      ⟨t.entry, [h]⟩ out → ((∀ out', Prog.Evals execKernel (memoryAllocateMempoolDma w ptr numEntries entrySize)
      ⟨t.entry, [h]⟩ out' → DmaOutcome t ptr out') ↔ DmaOutcome t ptr out) :=
    fun out hout => ⟨fun hall => hall out hout, fun hok out' hout' => hout'.unique hout ▸ hok⟩
  by_cases hzero : numEntries * entrySize = 0
  · obtain ⟨msg, hdma⟩ := evals_memoryAllocateDma_zero ⟨t.entry, [h]⟩
    rw [← hzero, ← hreq] at hdma
    rw [hall _ hdma.bind_abort]
    refine ⟨fun _ => Or.inr fun j hj => ?_, fun _ => trivial⟩
    omega
  by_cases hentry : t.entry (512 * h) = 0
  · have hdma := evals_memoryAllocateDma_untranslated (k := ⟨t.entry, [h]⟩) rfl hzero hentry
    rw [← hreq] at hdma
    rw [hall _ hdma.bind_abort]
    exact ⟨fun _ => Or.inl hentry, fun _ => trivial⟩
  · have hdma := evals_memoryAllocateDma (k := ⟨t.entry, [h]⟩) rfl hzero hentry
    rw [← hreq] at hdma
    rw [hall _ (hdma.bind (.ret _ _))]
    refine (dmaTrue_iff_linear hptr hsize hbytes).trans ?_
    rw [PageTable.linear_mod]
    exact ⟨Or.inr, fun h => h.resolve_left hentry⟩

end

/-! ## Page tables -/

/-- Huge page `h` is at physical huge page `f h`. A process without the privilege is shown zeros. -/
def PageTable.ofHuge (privileged : Bool) (f : Nat → Nat) (hf : ∀ h, f h < 2 ^ 40) : PageTable where
  frame page := 512 * f (page / 512) + page % 512
  entry page := if privileged then UInt64.ofNat (2 ^ 63 + (512 * f (page / 512) + page % 512)) else 2 ^ 63
  huge h j hj := by
    rw [show (512 * h + j) / 512 = h by omega, show 512 * h / 512 = h by omega]
    omega
  fits page := by
    have := hf (page / 512)
    omega
  shown page _ := by
    cases privileged with
    | false =>
      refine Or.inr ?_
      rw [if_neg Bool.false_ne_true]
      decide +kernel
    | true =>
      have := hf (page / 512)
      refine Or.inl ?_
      rw [if_pos rfl, pfn_eq, UInt64.toNat_ofNat']
      omega

/-- All pages in a row. -/
def rowTable : PageTable := .ofHuge true (fun h => h % 2 ^ 40) fun _ => Nat.mod_lt _ (by decide)

/-- The second huge page of the process is not next to the first. -/
def gapTable : PageTable := .ofHuge true (fun h => if h = 1 then 1 else 3) fun h => by
  split <;> decide

/-- Memory in a row, as a process sees it that may not see frame numbers. -/
def hiddenTable : PageTable := .ofHuge false (fun h => h % 2 ^ 40) fun _ => Nat.mod_lt _ (by decide)

def noWorld : World := ⟨fun _ => 0, fun _ => ⟨0, 0, 0, 0, 0, fun _ => 0⟩, [], []⟩

/-- The pool of a receive queue, which spans four huge pages. -/
theorem dmaTrue_iff_row : (64 < 2 ^ 64 ∧ 64 ≤ 2048 ∧ 4096 * 2048 < 2 ^ 32) ∧
    ∀ out, Prog.Evals execKernel (memoryAllocateMempoolDma noWorld 64 4096 2048) ⟨rowTable.entry, [1]⟩ out →
      DmaOutcome rowTable 64 out := by
  refine ⟨by decide, (dmaTrue_iff rowTable noWorld 64 1 4096 2048 (by decide) (by decide) (by decide)).mpr ?_⟩
  refine Or.inr fun j hj => ?_
  have hpfn : pfn (rowTable.entry (512 * 1)) = 512 := by decide +kernel
  have hframe : rowTable.frame (512 * (1 + j)) = 512 * ((1 + j) % 2 ^ 40) := by
    change 512 * (512 * (1 + j) / 512 % 2 ^ 40) + 512 * (1 + j) % 512 = _
    omega
  rw [hpfn, hframe]
  omega

/-- With a gap, the addresses of the second half of the pool are wrong. Without the privilege, all are. -/
theorem dma_counterexample :
    (∃ w k, Prog.Evals execKernel (memoryAllocateMempoolDma noWorld 64 2048 2048) ⟨gapTable.entry, [1]⟩
      (.done w k) ∧ ¬ DmaTrue gapTable 64 w) ∧
    ∃ w k, Prog.Evals execKernel (memoryAllocateMempoolDma noWorld 64 2048 2048) ⟨hiddenTable.entry, [1]⟩
      (.done w k) ∧ ¬ DmaTrue hiddenTable 64 w := by
  have hdone : ∀ t : PageTable, t.entry (512 * 1) ≠ 0 →
      ¬ t.Linear 1 (pfn (t.entry (512 * 1)) * 4096 % 2 ^ 64) (2048 * 2048) →
      ∃ w k, Prog.Evals execKernel (memoryAllocateMempoolDma noWorld 64 2048 2048) ⟨t.entry, [1]⟩
        (.done w k) ∧ ¬ DmaTrue t 64 w := by
    intro t hentry hlin
    have hdma := evals_memoryAllocateDma (k := ⟨t.entry, [1]⟩) rfl (show 2048 * 2048 ≠ 0 by decide) hentry
    exact ⟨_, _, hdma.bind (.ret _ _), fun htrue =>
      hlin ((dmaTrue_iff_linear (by decide) (by decide) (by decide)).mp htrue)⟩
  refine ⟨hdone gapTable (by decide +kernel) fun h => ?_, hdone hiddenTable (by decide +kernel) fun h => ?_⟩
  · exact absurd (h 1 (by decide)) (by decide +kernel)
  · exact absurd (h 0 (by decide)) (by decide +kernel)

end Ixy
