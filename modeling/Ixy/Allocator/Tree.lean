import Ixy.Allocator.Bounds
import Ixy.Memory.Dma

/-!
# Allocators in a process (`allocator.h`)

An allocator is an object with the functions `allocate`, `deallocate` and `owns`, or two allocators joined by
`fallback_allocator_new`. The objects have an identity, so one of them can stand in several trees, and as the
parent of others. They share the memory that the process gets from `malloc` and `mmap`.

What `malloc` and `mmap` answer is an input (`Os.answers`); an address that is in use already counts as a refusal.
A call that ends the process is an error.

`allocate_served` and `allocate_refused` say what a request to a tree comes down to: its leaves are asked from left
to right. `deallocate_eq` says the same of a block that is given back: it goes to `Allocator.home`.
-/

namespace Ixy

open Lib

/-! ## The objects -/

inductive Allocator where
  | leaf (id : Nat)
  | fallback (primary secondary : Allocator)
  deriving DecidableEq, Repr

/-- The leaves, from left to right. -/
def Allocator.leaves : Allocator → List Nat
  | .leaf id => [id]
  | .fallback primary secondary => primary.leaves ++ secondary.leaves

/-- An object. A stack allocator, of either kind, knows its own address and its parent. -/
inductive Leaf where
  | null
  | mallocator
  | dma
  | slab (kind : SlabKind) (self : Nat) (parent : Allocator) (sa : StackAllocator)

/-- What `stack_allocator_new` has asked its parent for, and `stack_allocator_free` gives back. -/
def StackAllocator.memory (sa : StackAllocator) : MemBlk := ⟨sa.baseAddr, sa.numEntries * sa.entrySize % 2 ^ 32⟩

def Leaf.memory : Leaf → Option MemBlk
  | .slab _ _ _ sa => some sa.memory
  | _ => none

structure Os where
  leaf : Nat → Leaf
  /-- The objects are numbered from 0. -/
  fresh : Nat
  /-- What was got from `malloc`. -/
  live : List MemBlk
  /-- The huge pages, by number, that were got from `mmap`. -/
  mapped : List Nat
  /-- The addresses that `malloc` and `mmap` will come up with. -/
  answers : List Nat
  pagemap : Nat → UInt64

namespace Os

/-- Memory that nobody uses. -/
def Unused (os : Os) (blk : MemBlk) : Prop :=
  blk.ptr ≠ 0 ∧ blk.ptr + blk.size + 2 ^ 21 ≤ 2 ^ 64 ∧ (∀ b ∈ os.live, blk.Disjoint b) ∧
    (∀ h ∈ os.mapped, blk.Disjoint ⟨2 ^ 21 * h, 2 ^ 21⟩) ∧
    ∀ id < os.fresh, ∀ mem ∈ (os.leaf id).memory, blk.Disjoint mem

instance (os : Os) (blk : MemBlk) : Decidable (os.Unused blk) := inferInstanceAs (Decidable (_ ∧ _ ∧ _ ∧ _ ∧ _))

/-- `malloc`. No two blocks have the same address, also if they are empty. -/
def malloc (os : Os) (size : Nat) : Nat × Os :=
  match os.answers with
  | [] => (0, os)
  | p :: rest =>
    if os.Unused ⟨p, max size 1⟩ then (p, { os with answers := rest, live := ⟨p, max size 1⟩ :: os.live })
    else (0, { os with answers := rest })

def free (os : Os) (ptr : Nat) : Except String Os :=
  if ptr = 0 then .ok os
  else if os.live.any (·.ptr = ptr) then .ok { os with live := os.live.eraseP (·.ptr = ptr) }
  else .error "free(): invalid pointer"

/-- `is_phys_continuous`. A pass of its loop takes two steps, and one has to be made for each 4096 bytes. -/
def physContinuous (os : Os) (ptr size : Nat) : Except String Bool :=
  match Prog.eval execKernel (size + 4) (isPhysContinuous 4096 ptr size) ⟨os.pagemap, []⟩ with
  | some (.done b _) => .ok b
  | some (.aborted msg _) => .error msg
  | none => .error "is_phys_continuous does not end"

theorem physContinuous_ends (os : Os) {ptr size : Nat} (hsize : 4096 ≤ size) (hend : ptr + size + 4096 ≤ 2 ^ 64) :
    ∃ o, Prog.eval execKernel (size + 4) (isPhysContinuous 4096 ptr size) ⟨os.pagemap, []⟩ = some o := by
  obtain ⟨o, ho⟩ := eval_isPhysContinuous (k := ⟨os.pagemap, []⟩) (show 0 < 4096 by decide) hend
  exact ⟨o, Prog.eval_mono (by omega) ho⟩

/-- The huge pages of a mapping. -/
def hugePages (ptr size : Nat) : List Nat := (List.range (size / 2 ^ 21)).map (ptr / 2 ^ 21 + ·)

/-- `allocate` of the DMA allocator. -/
def dmaAllocate (os : Os) (size : Nat) : Except String (MemBlk × Os) :=
  match os.answers with
  | [] => .error "Failed to mmap hugepage"
  | p :: rest =>
    if roundUpHuge size = 0 ∨ p % 2 ^ 21 ≠ 0 ∨ ¬ os.Unused ⟨p, roundUpHuge size⟩ then
      .error "Failed to mmap hugepage"
    else match os.physContinuous p (roundUpHuge size) with
      | .error msg => .error msg
      | .ok false => .error
          "memory returned by mmap is not physically continuous, try rebooting to clear fragmentation"
      | .ok true => .ok (⟨p, roundUpHuge size⟩,
          { os with answers := rest, mapped := hugePages p (roundUpHuge size) ++ os.mapped })

/-- `munmap` of huge pages, which takes nothing but whole ones. -/
def munmap (os : Os) (ptr size : Nat) : Except String Os :=
  if ptr % 2 ^ 21 ≠ 0 ∨ size % 2 ^ 21 ≠ 0 ∨ size = 0 then .error "Failed to unmapping memory"
  else .ok { os with mapped := os.mapped.filter (· ∉ hugePages ptr size) }

def setSlab (os : Os) (id : Nat) (kind : SlabKind) (self : Nat) (parent : Allocator) (sa : StackAllocator) : Os :=
  { os with leaf := Function.update os.leaf id (.slab kind self parent sa) }

/-- The function `allocate` of an object. -/
def leafAllocate (os : Os) (id size : Nat) : Except String (MemBlk × Os) :=
  match os.leaf id with
  | .null => .ok (.null, os)
  | .mallocator => .ok (⟨(os.malloc size).1, size⟩, (os.malloc size).2)
  | .dma => os.dmaAllocate size
  | .slab kind self parent sa =>
    .ok ((stackAllocatorAllocate sa size).1, os.setSlab id kind self parent (stackAllocatorAllocate sa size).2)

/-- The function `deallocate` of an object. -/
def leafDeallocate (os : Os) (id : Nat) (blk : MemBlk) : Except String Os :=
  match os.leaf id with
  | .null =>
    if blk.ptr ≠ 0 ∨ blk.size ≠ 0 then .error "Attempting to free not NULL blk with null allocator" else .ok os
  | .mallocator => os.free blk.ptr
  | .dma => os.munmap blk.ptr blk.size
  | .slab kind self parent sa => (stackAllocatorDeallocate sa blk).map (os.setSlab id kind self parent)

/-- The function `owns` of an object. -/
def leafOwns (os : Os) (blk : MemBlk) (id : Nat) : Bool :=
  match os.leaf id with
  | .null => false
  | .mallocator | .dma => true
  | .slab _ _ _ sa => stackAllocatorOwns sa blk

end Os

/-! ## The trees -/

namespace Allocator

/-- `fallback_allocator_allocate`, down to the objects. -/
def allocate : Allocator → Nat → Os → Except String (MemBlk × Os)
  | .leaf id, size, os => os.leafAllocate id size
  | .fallback primary secondary, size, os =>
    match primary.allocate size os with
    | .error msg => .error msg
    | .ok (blk, os') => if blk.ptr = 0 then secondary.allocate size os' else .ok (blk, os')

/-- `fallback_allocator_owns`. -/
def owns : Allocator → MemBlk → Os → Bool
  | .leaf id, blk, os => os.leafOwns blk id
  | .fallback primary secondary, blk, os => primary.owns blk os || secondary.owns blk os

/-- `fallback_allocator_deallocate`. -/
def deallocate : Allocator → MemBlk → Os → Except String Os
  | .leaf id, blk, os => os.leafDeallocate id blk
  | .fallback primary secondary, blk, os =>
    if primary.owns blk os then primary.deallocate blk os else secondary.deallocate blk os

/-- The leaf whose answer is returned. -/
def server : Allocator → Nat → Os → Nat
  | .leaf id, _, _ => id
  | .fallback primary secondary, size, os =>
    match primary.allocate size os with
    | .error _ => primary.server size os
    | .ok (blk, os') => if blk.ptr = 0 then secondary.server size os' else primary.server size os

/-- The leaf that a block is given back to. -/
def home : Allocator → MemBlk → Os → Nat
  | .leaf id, _, _ => id
  | .fallback primary secondary, blk, os =>
    if primary.owns blk os then primary.home blk os else secondary.home blk os

end Allocator

/-- The leaves `ids`, asked one after the other, all answer with a NULL pointer. -/
inductive Refuses (size : Nat) : List Nat → Os → Os → Prop where
  | nil (os : Os) : Refuses size [] os os
  | cons {id : Nat} {ids : List Nat} {os os₁ os₂ : Os} {blk : MemBlk}
      (h : os.leafAllocate id size = .ok (blk, os₁)) (hnull : blk.ptr = 0) (hrest : Refuses size ids os₁ os₂) :
      Refuses size (id :: ids) os os₂

section
variable {t : Allocator} {size id : Nat} {os os' : Os} {blk : MemBlk} {ids pre post : List Nat}

theorem Refuses.append {ids' : List Nat} {os₁ os₂ : Os} (h : Refuses size ids os os₁)
    (h' : Refuses size ids' os₁ os₂) : Refuses size (ids ++ ids') os os₂ := by
  induction h with
  | nil => exact h'
  | cons hleaf hnull _ ih => exact .cons hleaf hnull (ih h')

theorem Refuses.split {ids' : List Nat} {os₂ : Os} (h : Refuses size (ids ++ ids') os os₂) :
    ∃ os₁, Refuses size ids os os₁ ∧ Refuses size ids' os₁ os₂ := by
  induction ids generalizing os with
  | nil => exact ⟨os, .nil os, h⟩
  | cons id ids ih =>
    cases h with
    | cons hleaf hnull hrest =>
      obtain ⟨os₁, h₁, h₂⟩ := ih hrest
      exact ⟨os₁, .cons hleaf hnull h₁, h₂⟩

theorem Allocator.leaves_ne_nil (t : Allocator) : t.leaves ≠ [] := by
  induction t with
  | leaf id => exact List.cons_ne_nil _ _
  | fallback primary secondary ihp ihs => exact List.append_ne_nil_of_left_ne_nil ihp _

theorem allocate_refused (h : t.allocate size os = .ok (blk, os')) (hnull : blk.ptr = 0) :
    Refuses size t.leaves os os' := by
  induction t generalizing os os' blk with
  | leaf id => exact .cons h hnull (.nil os')
  | fallback primary secondary ihp ihs =>
    rw [Allocator.allocate] at h
    cases hp : primary.allocate size os with
    | error msg =>
      rw [hp] at h
      cases h
    | ok r =>
      obtain ⟨b, os₁⟩ := r
      rw [hp] at h
      by_cases hb : b.ptr = 0
      · simp only [hb, if_true] at h
        exact (ihp hp hb).append (ihs h hnull)
      · simp only [hb, if_false] at h
        cases h
        exact absurd hnull hb

/-- Any other answer is that of the first leaf that does not refuse. -/
theorem allocate_served (h : t.allocate size os = .ok (blk, os')) (hblk : blk.ptr ≠ 0) :
    ∃ pre post os₁, t.leaves = pre ++ t.server size os :: post ∧ Refuses size pre os os₁ ∧
      os₁.leafAllocate (t.server size os) size = .ok (blk, os') := by
  induction t generalizing os os' blk with
  | leaf id => exact ⟨[], [], os, rfl, .nil os, h⟩
  | fallback primary secondary ihp ihs =>
    rw [Allocator.allocate] at h
    cases hp : primary.allocate size os with
    | error msg =>
      rw [hp] at h
      cases h
    | ok r =>
      obtain ⟨b, os₁⟩ := r
      rw [hp] at h
      by_cases hb : b.ptr = 0
      · simp only [hb, if_true] at h
        obtain ⟨pre, post, os₂, hleaves, hrefuses, hserve⟩ := ihs h hblk
        simp only [Allocator.server, hp, hb, if_true, Allocator.leaves]
        refine ⟨primary.leaves ++ pre, post, os₂, ?_, (allocate_refused hp hb).append hrefuses, hserve⟩
        rw [hleaves, List.append_assoc]
      · simp only [hb, if_false] at h
        cases h
        obtain ⟨pre, post, os₂, hleaves, hrefuses, hserve⟩ := ihp hp hb
        simp only [Allocator.server, hp, hb, if_false, Allocator.leaves]
        refine ⟨pre, post ++ secondary.leaves, os₂, ?_, hrefuses, hserve⟩
        rw [hleaves, List.append_assoc, List.cons_append]

theorem owns_eq (t : Allocator) (blk : MemBlk) (os : Os) : t.owns blk os = t.leaves.any (os.leafOwns blk) := by
  induction t with
  | leaf id => simp [Allocator.owns, Allocator.leaves]
  | fallback primary secondary ihp ihs => rw [Allocator.owns, ihp, ihs, Allocator.leaves, List.any_append]

theorem deallocate_eq (t : Allocator) (blk : MemBlk) (os : Os) :
    t.deallocate blk os = os.leafDeallocate (t.home blk os) blk := by
  induction t with
  | leaf id => rfl
  | fallback primary secondary ihp ihs =>
    rw [Allocator.deallocate, Allocator.home, ihp, ihs]
    split
    · rfl
    · rfl

theorem home_eq (hleaves : t.leaves = pre ++ id :: post) (hpre : ∀ e ∈ pre, os.leafOwns blk e = false)
    (hid : os.leafOwns blk id = true) : t.home blk os = id := by
  induction t generalizing pre post with
  | leaf id' =>
    rw [Allocator.leaves] at hleaves
    cases pre with
    | nil => exact (List.cons.inj hleaves).1
    | cons e pre => exact absurd (congrArg List.length hleaves) (by simp)
  | fallback primary secondary ihp ihs =>
    rw [Allocator.leaves, List.append_eq_append_iff] at hleaves
    rw [Allocator.home, owns_eq]
    rcases hleaves with ⟨pre', rfl, hs⟩ | ⟨mid, hp, hs⟩
    · rw [if_neg, ihs hs fun e he => hpre e (List.mem_append_right _ he)]
      rw [List.any_eq_true]
      rintro ⟨e, he, howns⟩
      rw [hpre e (List.mem_append_left _ he)] at howns
      cases howns
    · cases mid with
      | nil =>
        rw [List.append_nil] at hp
        rw [if_neg, ihs (List.nil_append _ ▸ hs.symm) fun e he => absurd he List.not_mem_nil]
        rw [List.any_eq_true, hp]
        rintro ⟨e, he, howns⟩
        rw [hpre e he] at howns
        cases howns
      | cons e mid =>
        obtain ⟨rfl, -⟩ := List.cons.inj hs
        rw [if_pos, ihp hp hpre]
        rw [List.any_eq_true, hp]
        exact ⟨id, List.mem_append_right _ List.mem_cons_self, hid⟩

end

end Ixy
