import Ixy.Lib.Prog
import Mathlib.Tactic.Ring

/-!
# Address translation (`virt_to_phys`, `is_phys_continuous`)

A process learns where its memory is from `/proc/self/pagemap`, one 64-bit entry for each page. The two
functions of that name translate an address through it, and `is_phys_continuous` walks a block page by page.
Addresses are `uintptr_t`, so sums and products are taken modulo `2 ^ 64`.
-/

namespace Ixy

open Lib

/-! ## The kernel's side -/

/-- What the process asks of the kernel. -/
inductive KernelOp where
  | mmap (size : Nat)
  | pagemap (page : Nat)

@[reducible] def KernelRet : KernelOp → Type
  | .mmap _ => Option Nat
  | .pagemap _ => UInt64

/-- The entries of the pagemap, and the huge pages (by number) at which the coming mappings will lie. -/
structure Kernel where
  pagemap : Nat → UInt64
  supply : List Nat

/-- `MAP_HUGETLB` mappings lie at multiples of 2 MiB. There is none of size 0. -/
def execKernel : (o : KernelOp) → Kernel → Option (KernelRet o × Kernel)
  | .mmap size, k =>
    match k.supply with
    | [] => some (none, k)
    | h :: rest => if size = 0 then some (none, k) else some (some (2 ^ 21 * h), { k with supply := rest })
  | .pagemap page, k => some (k.pagemap page, k)

abbrev KernelCode := Prog KernelOp KernelRet

/-! ## The code -/

/-- Bits 0-54 of an entry are the page frame number. -/
def pfn (entry : UInt64) : Nat := entry.toNat &&& 0x7fffffffffffff

/-- `%p`. -/
def pointer (p : Nat) : String := if p = 0 then "(nil)" else "0x" ++ String.ofList (Nat.toDigits 16 p)

def translateFailed (virt : Nat) : String :=
  s!"failed to translate virtual address {pointer virt} to physical address"

/-- `virt_to_phys`. The one of `memory.c` and the one of `dma_allocator.c` differ in a debug message. -/
def virtToPhys (pagesize virt : Nat) : KernelCode Nat := do
  let phy ← Prog.access (KernelOp.pagemap (virt / pagesize))
  if phy = 0 then .abort (translateFailed virt)
  else return (pfn phy * pagesize + virt % pagesize) % 2 ^ 64

/-- One pass of the loop of `is_phys_continuous`, at address `i`. -/
def comparePage (pagesize virtBase size physBase i : Nat) : KernelCode (Nat ⊕ Bool) :=
  if i < (virtBase + size) % 2 ^ 64 then do
    let phys ← virtToPhys pagesize i
    let virtDiff := (i + 2 ^ 64 - virtBase) % 2 ^ 64
    if (physBase + virtDiff) % 2 ^ 64 ≠ phys then return .inr false
    else return .inl ((i + pagesize) % 2 ^ 64)
  else return .inr true

/-- `is_phys_continuous`. -/
def isPhysContinuous (pagesize ptr size : Nat) : KernelCode Bool :=
  if ptr % pagesize ≠ 0 then .abort "memory block does not start at page boundary"
  else if size < pagesize then .abort "memory block smaller than one page"
  else do
    let physBase ← virtToPhys pagesize ptr
    Prog.iterate (comparePage pagesize ptr size physBase) ptr

/-! ## Translation of an address -/

theorem pfn_eq (entry : UInt64) : pfn entry = entry.toNat % 2 ^ 55 :=
  Nat.and_two_pow_sub_one_eq_mod _ 55

/-- The process learns that `virt` is at `phys`. -/
def Translates (pagesize : Nat) (k : Kernel) (virt phys : Nat) : Prop :=
  Prog.Evals execKernel (virtToPhys pagesize virt) k (.done phys k)

section
variable {pagesize virt phys : Nat} {k : Kernel}

theorem evals_virtToPhys (pagesize virt : Nat) (h : k.pagemap (virt / pagesize) ≠ 0) :
    Translates pagesize k virt ((pfn (k.pagemap (virt / pagesize)) * pagesize + virt % pagesize) % 2 ^ 64) := by
  refine .op (r := k.pagemap (virt / pagesize)) (u := k) rfl ?_
  rw [Prog.ret_bind, if_neg h]
  exact .ret _ _

theorem evals_virtToPhys_abort (pagesize virt : Nat) (h : k.pagemap (virt / pagesize) = 0) :
    Prog.Evals execKernel (virtToPhys pagesize virt) k (.aborted (translateFailed virt) k) := by
  refine .op (r := k.pagemap (virt / pagesize)) (u := k) rfl ?_
  rw [Prog.ret_bind, if_pos h]
  exact .abort _ _

theorem Translates.unique {phys' : Nat} (h : Translates pagesize k virt phys)
    (h' : Translates pagesize k virt phys') : phys = phys' := by
  have heq := Prog.Evals.unique h h'
  injection heq

/-- An entry as it should be: present, with a frame number whose addresses are below `2 ^ 63`. -/
structure Mapped (pagesize : Nat) (entry : UInt64) : Prop where
  present : entry.toNat.testBit 63
  pfn_ne : pfn entry ≠ 0
  fits : pfn entry * pagesize + pagesize ≤ 2 ^ 63

theorem Mapped.ne_zero {entry : UInt64} (h : Mapped pagesize entry) : entry ≠ 0 := by
  rintro rfl
  exact h.pfn_ne rfl

/-- Where the page of a mapped address begins. -/
def frameAddr (pagesize : Nat) (k : Kernel) (virt : Nat) : Nat := pfn (k.pagemap (virt / pagesize)) * pagesize

theorem Mapped.translates (h : Mapped pagesize (k.pagemap (virt / pagesize))) (hpos : 0 < pagesize) :
    Translates pagesize k virt (frameAddr pagesize k virt + virt % pagesize) := by
  have htr := evals_virtToPhys _ _ h.ne_zero
  have hfits := h.fits
  have hmod := Nat.mod_lt virt hpos
  rwa [Nat.mod_eq_of_lt (by omega)] at htr

end

/-! ## The walk -/

section
variable {P ptr size : Nat} {k : Kernel}

/-- A block of memory that is mapped, as `is_phys_continuous` is called on. -/
structure BlockMapped (P : Nat) (k : Kernel) (ptr size : Nat) : Prop where
  pos : 0 < P
  aligned : ptr % P = 0
  size_ge : P ≤ size
  size_lt : size < 2 ^ 63
  end_lt : ptr + size < 2 ^ 64 - P
  mapped : ∀ x < size, Mapped P (k.pagemap ((ptr + x) / P))

namespace BlockMapped

theorem translates_page (h : BlockMapped P k ptr size) {j y : Nat} (hy : y < P) (hx : P * j + y < size) :
    Translates P k (ptr + (P * j + y)) (frameAddr P k (ptr + P * j) + y) := by
  have hdiv : (ptr + (P * j + y)) / P = (ptr + P * j) / P := by
    rw [← Nat.add_assoc, Nat.add_div h.pos, Nat.add_mod, h.aligned, Nat.mul_mod_right,
      Nat.div_eq_of_lt hy, Nat.mod_eq_of_lt hy]
    simp [Nat.not_le.mpr hy]
  have hmod : (ptr + (P * j + y)) % P = y := by
    rw [Nat.add_mod, h.aligned, Nat.zero_add, Nat.mod_mod, Nat.mul_add_mod, Nat.mod_eq_of_lt hy]
  have htr := (h.mapped _ hx).translates h.pos
  rw [hmod, frameAddr, hdiv] at htr
  exact htr

/-- Page `j` follows on from the first one. -/
def Follows (P : Nat) (k : Kernel) (ptr j : Nat) : Prop :=
  frameAddr P k (ptr + P * j) = frameAddr P k ptr + P * j

instance (j : Nat) : Decidable (Follows P k ptr j) := inferInstanceAs (Decidable (_ = _))

theorem evals_comparePage (h : BlockMapped P k ptr size) {j : Nat} (hj : P * j < size) :
    Prog.Evals execKernel (comparePage P ptr size (frameAddr P k ptr) (ptr + P * j)) k
      (.done (if Follows P k ptr j then .inl (ptr + P * (j + 1)) else .inr false) k) := by
  have hend := h.end_lt
  have hlt := h.size_lt
  have hpos := h.pos
  have hpage := h.translates_page (j := j) (y := 0) hpos (by omega)
  have hbase := (h.mapped 0 (by have := h.size_ge; omega)).fits
  have hframe := (h.mapped (P * j) hj).fits
  rw [Nat.add_zero, Nat.add_zero] at hpage
  rw [Nat.add_zero] at hbase
  unfold comparePage
  rw [if_pos (by rw [Nat.mod_eq_of_lt (by omega)]; omega)]
  refine hpage.bind ?_
  have hdiff : (ptr + P * j + 2 ^ 64 - ptr) % 2 ^ 64 = P * j := by
    rw [show ptr + P * j + 2 ^ 64 - ptr = P * j + 2 ^ 64 by omega, Nat.add_mod_right]
    exact Nat.mod_eq_of_lt (by omega)
  have hsum : (frameAddr P k ptr + P * j) % 2 ^ 64 = frameAddr P k ptr + P * j := by
    refine Nat.mod_eq_of_lt ?_
    unfold frameAddr
    omega
  have hnext : (ptr + P * j + P) % 2 ^ 64 = ptr + P * (j + 1) := by
    rw [Nat.mod_eq_of_lt (by omega)]
    ring
  simp only [hdiff, hsum, hnext, ne_eq]
  by_cases hf : Follows P k ptr j
  · rw [if_neg (not_not.mpr hf.symm), if_pos hf]
    exact .ret _ _
  · rw [if_pos (fun he => hf he.symm), if_neg hf]
    exact .ret _ _

/-- The number of pages that the block touches. -/
def pages (P size : Nat) : Nat := (size + P - 1) / P

theorem lt_pages (hpos : 0 < P) {j : Nat} : j < pages P size ↔ P * j < size := by
  unfold pages
  rw [Nat.lt_iff_add_one_le, Nat.le_div_iff_mul_le hpos, Nat.add_mul, Nat.one_mul, Nat.mul_comm j P]
  omega

theorem evals_walk (h : BlockMapped P k ptr size) (n : Nat) {j : Nat} (hn : j + n = pages P size) :
    Prog.Evals execKernel (Prog.iterate (comparePage P ptr size (frameAddr P k ptr)) (ptr + P * j)) k
      (.done (decide (∀ i < n, Follows P k ptr (j + i))) k) := by
  induction n generalizing j with
  | zero =>
    have hout : ¬ P * j < size := fun hlt => by
      have := (lt_pages h.pos).mpr hlt
      omega
    have hend := h.end_lt
    refine .loop_exit (b := true) (u := k) ?_ (.ret _ _)
    unfold comparePage
    rw [if_neg (by rw [Nat.mod_eq_of_lt (by omega)]; omega)]
    exact .ret _ _
  | succ n ih =>
    have hlt : P * j < size := (lt_pages h.pos).mp (by omega)
    have hpass := h.evals_comparePage hlt
    by_cases hf : Follows P k ptr j
    · rw [if_pos hf] at hpass
      refine .loop_next hpass ?_
      have hall : (∀ i < n + 1, Follows P k ptr (j + i)) ↔ ∀ i < n, Follows P k ptr (j + 1 + i) := by
        constructor
        · intro hall i hi
          rw [Nat.add_right_comm, Nat.add_assoc]
          exact hall (i + 1) (by omega)
        · intro hall i hi
          cases i with
          | zero => exact hf
          | succ i =>
            rw [← Nat.add_assoc, Nat.add_right_comm]
            exact hall i (by omega)
      rw [decide_eq_decide.mpr hall]
      exact ih (by omega)
    · rw [if_neg hf] at hpass
      have hnot : ¬ ∀ i < n + 1, Follows P k ptr (j + i) := fun hall => hf (hall 0 (by omega))
      rw [decide_eq_false hnot]
      exact .loop_exit hpass (.ret _ _)

theorem follows_iff (h : BlockMapped P k ptr size) : (∀ j < pages P size, Follows P k ptr j) ↔
    ∃ p, Translates P k ptr p ∧ ∀ x < size, Translates P k (ptr + x) (p + x) := by
  have hge := h.size_ge
  have hbase := h.translates_page (j := 0) (y := 0) h.pos (by have := h.pos; omega)
  simp only [Nat.mul_zero, Nat.add_zero] at hbase
  constructor
  · intro hall
    refine ⟨frameAddr P k ptr, hbase, fun x hx => ?_⟩
    have hle : P * (x / P) ≤ x := Nat.mul_div_le x P
    have hpage := h.translates_page (j := x / P) (y := x % P) (Nat.mod_lt x h.pos) (by rwa [Nat.div_add_mod])
    rw [hall (x / P) ((lt_pages h.pos).mpr (by omega)), Nat.add_assoc, Nat.div_add_mod] at hpage
    exact hpage
  · rintro ⟨p, hp, hall⟩ j hj
    have hlt : P * j < size := (lt_pages h.pos).mp hj
    have hpage := h.translates_page (j := j) (y := 0) h.pos hlt
    have hj := (hall (P * j) hlt).unique hpage
    rw [hp.unique hbase] at hj
    exact hj.symm

end BlockMapped

/-- **Main result.** The walk ends, and answers `true` exactly if all bytes of the block follow on from the
first one physically. -/
theorem isPhysContinuous_exact (h : BlockMapped P k ptr size) :
    ∃ b, Prog.Evals execKernel (isPhysContinuous P ptr size) k (.done b k) ∧
      (b = true ↔ ∃ p, Translates P k ptr p ∧ ∀ x < size, Translates P k (ptr + x) (p + x)) := by
  have hge := h.size_ge
  have hbase := h.translates_page (j := 0) (y := 0) h.pos (by have := h.pos; omega)
  have hwalk := h.evals_walk (BlockMapped.pages P size) (j := 0) (by omega)
  simp only [Nat.mul_zero, Nat.add_zero] at hbase hwalk
  refine ⟨decide (∀ j < BlockMapped.pages P size, BlockMapped.Follows P k ptr (0 + j)), ?_, ?_⟩
  · unfold isPhysContinuous
    rw [if_neg (not_not.mpr h.aligned), if_neg (Nat.not_lt.mpr hge)]
    exact hbase.bind hwalk
  · simp only [Nat.zero_add, decide_eq_true_eq]
    exact h.follows_iff

/-! ## How long it takes -/

theorem eval_comparePages {physBase : Nat} (hpos : 0 < P) (hend : ptr + size + P ≤ 2 ^ 64) (pages : Nat) {i fuel : Nat}
    (hi : i < ptr + size + P) (hpages : ptr + size ≤ i + P * pages) (hfuel : 2 * pages + 2 ≤ fuel) :
    ∃ o, Prog.eval execKernel fuel (Prog.iterate (comparePage P ptr size physBase) i) k = some o := by
  have hmod : (ptr + size) % 2 ^ 64 = ptr + size := Nat.mod_eq_of_lt (by omega)
  induction pages generalizing i fuel with
  | zero =>
    obtain ⟨fuel, rfl⟩ : ∃ f, fuel = f + 2 := ⟨fuel - 2, by omega⟩
    refine ⟨.done true k, ?_⟩
    rw [Prog.iterate, Prog.eval, comparePage, hmod, if_neg (by omega)]
    rfl
  | succ pages ih =>
    obtain ⟨fuel, rfl⟩ : ∃ f, fuel = f + 3 := ⟨fuel - 3, by omega⟩
    rw [Prog.iterate, Prog.eval, comparePage, hmod]
    by_cases hlt : i < ptr + size
    · rw [if_pos hlt]
      simp only [virtToPhys, Prog.bind_eq, Prog.access_bind, Prog.op_bind, Prog.eval, execKernel, Option.bind_some]
      by_cases hentry : k.pagemap (i / P) = 0
      · rw [if_pos hentry]
        exact ⟨_, rfl⟩
      · rw [if_neg hentry, Prog.pure_eq, Prog.ret_bind]
        split
        · exact ⟨_, rfl⟩
        · refine ih (i := (i + P) % 2 ^ 64) ?_ ?_ (by omega)
          · rw [Nat.mod_eq_of_lt (by omega)]
            omega
          · rw [Nat.mod_eq_of_lt (by omega)]
            rw [Nat.mul_succ] at hpages
            omega
    · rw [if_neg hlt]
      exact ⟨.done true k, rfl⟩

/-- `is_phys_continuous` comes to its end, also if pages are missing. -/
theorem eval_isPhysContinuous (hpos : 0 < P) (hend : ptr + size + P ≤ 2 ^ 64) :
    ∃ o, Prog.eval execKernel (2 * (size / P) + 5) (isPhysContinuous P ptr size) k = some o := by
  unfold isPhysContinuous
  split
  · exact ⟨_, rfl⟩
  · split
    · exact ⟨_, rfl⟩
    · simp only [virtToPhys, Prog.bind_eq, Prog.access_bind, Prog.op_bind, Prog.eval, execKernel, Option.bind_some]
      by_cases hentry : k.pagemap (ptr / P) = 0
      · rw [if_pos hentry]
        exact ⟨_, rfl⟩
      · rw [if_neg hentry, Prog.pure_eq, Prog.ret_bind]
        have hlt := Nat.lt_div_mul_add (a := size) hpos
        refine eval_comparePages hpos hend (size / P + 1) (by omega) ?_ (by omega)
        rw [Nat.mul_succ, Nat.mul_comm]
        omega

end

/-- Two pages, the second one in part, in frames that do not follow each other. -/
def scattered : Kernel := ⟨fun page => if page = 512 then 0x8000000000000007 else 0x8000000000000005, []⟩

theorem isPhysContinuous_exact_scattered : BlockMapped 4096 scattered 0x200000 5000 ∧
    ∃ b, Prog.Evals execKernel (isPhysContinuous 4096 0x200000 5000) scattered (.done b scattered) ∧
      (b = true ↔ ∃ p, Translates 4096 scattered 0x200000 p ∧
        ∀ x < 5000, Translates 4096 scattered (0x200000 + x) (p + x)) := by
  have hblock : BlockMapped 4096 scattered 0x200000 5000 := by
    refine ⟨by decide, by decide, by decide, by decide, by decide, fun x hx => ?_⟩
    obtain hpage | hpage : (0x200000 + x) / 4096 = 512 ∨ (0x200000 + x) / 4096 = 513 := by omega
    · rw [hpage]
      exact ⟨by decide +kernel, by decide +kernel, by decide +kernel⟩
    · rw [hpage]
      exact ⟨by decide +kernel, by decide +kernel, by decide +kernel⟩
  exact ⟨hblock, isPhysContinuous_exact hblock⟩

end Ixy
