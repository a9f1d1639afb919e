import Ixy.Allocator.Tree

/-!
# Fallback trees (`fallback_allocator.c`)

A tree of stack allocators, with `malloc` as a last resort. A request is served by the first leaf that can, and
nothing is recorded about that choice: a block that comes back is routed by the address ranges of the leaves. The
two agree. `FbInv` has each outstanding block in the range of the leaf that made it and of no other one, and
`fallback_routes` draws the conclusions in all reachable states.
-/

namespace Ixy

open Lib

/-! ## Trees -/

/-- A stack allocator in use. Entries that are neither free nor handed out by the tree belong to others. -/
structure StackAllocator.Stocked (sa : StackAllocator) : Prop where
  sized : sa.Sized
  nodup : sa.free.Nodup
  lt : ∀ i ∈ sa.free, i < sa.numEntries

def Leaf.Fit (last : Prop) : Leaf → Prop
  | .null => True
  | .mallocator => last
  | .dma => False
  | .slab _ _ _ sa => sa.Stocked

/-- The leaves are stack allocators of disjoint memory and null allocators, the last one maybe a mallocator. -/
structure FbShape (t : Allocator) (os : Os) : Prop where
  fit : ∀ pre id post, t.leaves = pre ++ id :: post → (os.leaf id).Fit (post = [])
  apart : ∀ id ∈ t.leaves, ∀ id' ∈ t.leaves, id ≠ id' →
    ∀ mem ∈ (os.leaf id).memory, ∀ mem' ∈ (os.leaf id').memory, mem.Disjoint mem'
  known : ∀ id ∈ t.leaves, id < os.fresh

/-- What `malloc` sets aside for a block. -/
def MemBlk.wide (blk : MemBlk) : MemBlk := ⟨blk.ptr, max blk.size 1⟩

/-- The leaf `id` has handed out `blk`. -/
def Produced (t : Allocator) (os : Os) (id : Nat) (blk : MemBlk) : Prop :=
  match os.leaf id with
  | .slab _ _ _ sa => ∃ i < sa.numEntries, i ∉ sa.free ∧ blk = sa.block i
  | .mallocator => blk.ptr ≠ 0 ∧ blk.wide ∈ os.live ∧
      ∀ e ∈ t.leaves, ∀ mem ∈ (os.leaf e).memory, blk.wide.Disjoint mem
  | _ => False

section
variable {t : Allocator} {os os' : Os} {id e size : Nat} {blk : MemBlk} {sa sa' : StackAllocator} {kind : SlabKind}
  {self : Nat} {parent : Allocator} {ids : List Nat}

theorem StackAllocator.Sized.memory_eq (h : sa.Sized) : sa.memory = sa.region := by
  rw [StackAllocator.memory, StackAllocator.region, Nat.mod_eq_of_lt h.bytes_lt]

theorem StackAllocator.Sized.wide_block (h : sa.Sized) (i : Nat) : (sa.block i).wide = sa.block i := by
  have hpos := h.size_pos
  rw [MemBlk.wide]
  exact congrArg (MemBlk.mk _) (Nat.max_eq_left hpos)

theorem MemBlk.inside_wide (blk : MemBlk) : blk.Inside blk.wide :=
  ⟨Nat.le_refl _, Nat.add_le_add_left (Nat.le_max_left _ _) _⟩

theorem MemBlk.inside_refl (blk : MemBlk) : blk.Inside blk := ⟨Nat.le_refl _, Nat.le_refl _⟩

theorem MemBlk.ptr_ne_of_disjoint {a b : MemBlk} (h : a.wide.Disjoint b.wide) : a.ptr ≠ b.ptr := by
  intro he
  have ha := Nat.le_max_right a.size 1
  have hb := Nat.le_max_right b.size 1
  rcases h with h | h
  · change a.ptr + max a.size 1 ≤ b.ptr at h
    omega
  · change b.ptr + max b.size 1 ≤ a.ptr at h
    omega

theorem setSlab_memory (hleaf : os.leaf id = .slab kind self parent sa) (hmem : sa'.memory = sa.memory) (e : Nat) :
    ((os.setSlab id kind self parent sa').leaf e).memory = (os.leaf e).memory := by
  by_cases he : e = id
  · subst he
    simp only [Os.setSlab, Function.update_self, hleaf, Leaf.memory, hmem]
  · simp only [Os.setSlab, Function.update_of_ne he]

namespace FbShape

theorem fit_of_mem (h : FbShape t os) (hid : id ∈ t.leaves) : (os.leaf id).Fit True := by
  obtain ⟨pre, post, hleaves⟩ := List.append_of_mem hid
  have hfit := h.fit pre id post hleaves
  revert hfit
  cases os.leaf id with
  | null => exact fun h => h
  | mallocator => exact fun _ => trivial
  | dma => exact fun h => h
  | slab kind self parent sa => exact fun h => h

theorem fit_pre (h : FbShape t os) {pre post : List Nat} (hleaves : t.leaves = pre ++ id :: post) :
    ∀ e ∈ pre, (os.leaf e).Fit False := by
  intro e he
  obtain ⟨pre', mid, hpre⟩ := List.append_of_mem he
  have hfit := h.fit pre' e (mid ++ id :: post) (by rw [hleaves, hpre, List.append_assoc, List.cons_append])
  have hnil : (mid ++ id :: post = []) = False := by simp
  rwa [hnil] at hfit

theorem not_owns (hfit : (os.leaf e).Fit False) (hapart : ∀ mem ∈ (os.leaf e).memory, blk.wide.Disjoint mem) :
    os.leafOwns blk e = false := by
  unfold Os.leafOwns
  cases hleaf : os.leaf e with
  | null => rfl
  | mallocator =>
    rw [hleaf] at hfit
    exact hfit.elim
  | dma =>
    rw [hleaf] at hfit
    exact hfit.elim
  | slab kind self parent sa =>
    rw [hleaf] at hapart
    have hpos := Nat.le_max_right blk.size 1
    change (decide (sa.baseAddr ≤ blk.ptr) && decide (blk.ptr < _)) = false
    rw [Bool.and_eq_false_iff, decide_eq_false_iff_not, decide_eq_false_iff_not]
    rcases hapart sa.memory rfl with h | h
    · change blk.ptr + max blk.size 1 ≤ sa.baseAddr at h
      omega
    · change sa.baseAddr + sa.numEntries * sa.entrySize % 2 ^ 32 ≤ blk.ptr at h
      omega

theorem slab (h : FbShape t os) (hid : id ∈ t.leaves) (hleaf : os.leaf id = .slab kind self parent sa) :
    sa.Stocked := by
  have hfit := h.fit_of_mem hid
  rwa [hleaf] at hfit

theorem produced_apart (h : FbShape t os) (hid : id ∈ t.leaves) (hblk : Produced t os id blk) (he : e ∈ t.leaves)
    (hne : e ≠ id) : ∀ mem ∈ (os.leaf e).memory, blk.wide.Disjoint mem := by
  intro mem hmem
  unfold Produced at hblk
  cases hleaf : os.leaf id with
  | null =>
    rw [hleaf] at hblk
    exact hblk.elim
  | mallocator =>
    rw [hleaf] at hblk
    exact hblk.2.2 e he mem hmem
  | dma =>
    rw [hleaf] at hblk
    exact hblk.elim
  | slab kind self parent sa =>
    rw [hleaf] at hblk
    obtain ⟨i, hi, -, rfl⟩ := hblk
    have hsized := (h.slab hid hleaf).sized
    have hdisj := h.apart id hid e he hne.symm sa.memory (by rw [hleaf]; rfl) mem hmem
    rw [hsized.memory_eq] at hdisj
    rw [hsized.wide_block]
    exact hdisj.mono (hsized.block_inside hi) mem.inside_refl

theorem produced_owns (h : FbShape t os) (hid : id ∈ t.leaves) (hblk : Produced t os id blk) :
    os.leafOwns blk id = true := by
  unfold Produced at hblk
  unfold Os.leafOwns
  cases hleaf : os.leaf id with
  | null =>
    rw [hleaf] at hblk
    exact hblk.elim
  | mallocator => rfl
  | dma => rfl
  | slab kind self parent sa =>
    rw [hleaf] at hblk
    obtain ⟨i, hi, -, rfl⟩ := hblk
    exact (h.slab hid hleaf).sized.owns_block hi

/-- Routing by addresses finds the leaf that made the block. -/
theorem home_produced (h : FbShape t os) (hid : id ∈ t.leaves) (hblk : Produced t os id blk) :
    t.home blk os = id := by
  obtain ⟨pre, post, hleaves, hfirst⟩ := List.eq_append_cons_of_mem hid
  refine home_eq hleaves (fun e he => ?_) (h.produced_owns hid hblk)
  have hmem : e ∈ t.leaves := by
    rw [hleaves]
    exact List.mem_append_left _ he
  have hne : e ≠ id := fun heq => hfirst (heq ▸ he)
  exact not_owns (h.fit_pre hleaves e he) (h.produced_apart hid hblk hmem hne)

theorem congr (h : FbShape t os) (hleaf : os'.leaf = os.leaf) (hfresh : os'.fresh = os.fresh) : FbShape t os' := by
  refine ⟨?_, ?_, ?_⟩
  · rw [hleaf]
    exact h.fit
  · rw [hleaf]
    exact h.apart
  · rw [hfresh]
    exact h.known

theorem setSlab (h : FbShape t os) (hleaf : os.leaf id = .slab kind self parent sa) (hmem : sa'.memory = sa.memory)
    (hstock : sa'.Stocked) : FbShape t (os.setSlab id kind self parent sa') := by
  have hmemory := setSlab_memory hleaf hmem
  refine ⟨fun pre e post hleaves => ?_, fun e he e' he' hne => ?_, h.known⟩
  · by_cases he : e = id
    · subst he
      simp only [Os.setSlab, Function.update_self]
      exact hstock
    · simp only [Os.setSlab, Function.update_of_ne he]
      exact h.fit pre e post hleaves
  · rw [hmemory, hmemory]
    exact h.apart e he e' he' hne

end FbShape

/-! ## Requests -/

theorem leafAllocate_slab (hleaf : os.leaf id = .slab kind self parent sa) (size : Nat) :
    os.leafAllocate id size = .ok ((stackAllocatorAllocate sa size).1,
      os.setSlab id kind self parent (stackAllocatorAllocate sa size).2) := by
  rw [Os.leafAllocate, hleaf]

theorem Os.setSlab_self (hleaf : os.leaf id = .slab kind self parent sa) : os.setSlab id kind self parent sa = os := by
  rw [setSlab, ← hleaf, Function.update_eq_self]

theorem leafAllocate_refused {os₁ : Os} (hfit : (os.leaf id).Fit False)
    (h : os.leafAllocate id size = .ok (blk, os₁)) (hnull : blk.ptr = 0) : os₁ = os := by
  cases hleaf : os.leaf id with
  | null =>
    rw [Os.leafAllocate, hleaf] at h
    cases h
    rfl
  | mallocator =>
    rw [hleaf] at hfit
    exact hfit.elim
  | dma =>
    rw [hleaf] at hfit
    exact hfit.elim
  | slab kind self parent sa =>
    have hsized : sa.Sized := by
      rw [hleaf] at hfit
      exact hfit.sized
    rw [leafAllocate_slab hleaf] at h
    by_cases hrefuse : sa.freeStackTop = 0 ∨ size > sa.entrySize
    · rw [stackAllocatorAllocate_refused hrefuse] at h
      cases h
      exact Os.setSlab_self hleaf
    · rw [stackAllocatorAllocate_served (by omega) (by omega)] at h
      cases h
      exact absurd hnull (hsized.block_ptr_ne _)

theorem Refuses.steady {os₁ : Os} (h : Refuses size ids os os₁) (hfit : ∀ id ∈ ids, (os.leaf id).Fit False) :
    os₁ = os ∧ ∀ id ∈ ids, ∃ b, os.leafAllocate id size = .ok (b, os) ∧ b.ptr = 0 := by
  induction h with
  | nil os => exact ⟨rfl, fun id hid => absurd hid List.not_mem_nil⟩
  | cons hleaf hnull _ ih =>
    obtain rfl := leafAllocate_refused (hfit _ List.mem_cons_self) hleaf hnull
    obtain ⟨rfl, hall⟩ := ih fun id hid => hfit id (List.mem_cons_of_mem _ hid)
    refine ⟨rfl, fun id hid => ?_⟩
    rcases List.mem_cons.mp hid with rfl | hid
    · exact ⟨_, hleaf, hnull⟩
    · exact hall id hid

theorem malloc_cases (os : Os) (size : Nat) :
    ((os.malloc size).1 = 0 ∧ (os.malloc size).2.live = os.live) ∨
      (os.Unused ⟨(os.malloc size).1, max size 1⟩ ∧
        (os.malloc size).2.live = ⟨(os.malloc size).1, max size 1⟩ :: os.live) := by
  unfold Os.malloc
  cases os.answers with
  | nil => exact Or.inl ⟨rfl, rfl⟩
  | cons p rest =>
    dsimp only
    by_cases hunused : os.Unused ⟨p, max size 1⟩
    · rw [if_pos hunused]
      exact Or.inr ⟨hunused, rfl⟩
    · rw [if_neg hunused]
      exact Or.inl ⟨rfl, rfl⟩

theorem malloc_frame (os : Os) (size : Nat) :
    (os.malloc size).2.leaf = os.leaf ∧ (os.malloc size).2.fresh = os.fresh ∧
      (os.malloc size).2.mapped = os.mapped := by
  unfold Os.malloc
  cases os.answers with
  | nil => exact ⟨rfl, rfl, rfl⟩
  | cons p rest =>
    dsimp only
    split
    · exact ⟨rfl, rfl, rfl⟩
    · exact ⟨rfl, rfl, rfl⟩

theorem leafAllocate_ok (hdma : ∀ e ∈ ids, os.leaf e ≠ .dma) (hid : id ∈ ids) (size : Nat) :
    ∃ blk os', os.leafAllocate id size = .ok (blk, os') ∧ ∀ e ∈ ids, os'.leaf e ≠ .dma := by
  cases hleaf : os.leaf id with
  | null => exact ⟨_, os, by rw [Os.leafAllocate, hleaf], hdma⟩
  | mallocator =>
    refine ⟨_, (os.malloc size).2, by rw [Os.leafAllocate, hleaf], ?_⟩
    rw [(malloc_frame os size).1]
    exact hdma
  | dma => exact absurd hleaf (hdma id hid)
  | slab kind self parent sa =>
    refine ⟨_, _, leafAllocate_slab hleaf size, fun e he => ?_⟩
    by_cases heq : e = id
    · subst heq
      simp only [Os.setSlab, Function.update_self]
      nofun
    · simp only [Os.setSlab, Function.update_of_ne heq]
      exact hdma e he

theorem allocate_ok (hdma : ∀ e ∈ ids, os.leaf e ≠ .dma) (hids : ∀ e ∈ t.leaves, e ∈ ids) (size : Nat) :
    ∃ blk os', t.allocate size os = .ok (blk, os') ∧ ∀ e ∈ ids, os'.leaf e ≠ .dma := by
  induction t generalizing os with
  | leaf id => exact leafAllocate_ok hdma (hids id List.mem_cons_self) size
  | fallback primary secondary ihp ihs =>
    obtain ⟨blk, os₁, hp, hdma₁⟩ := ihp hdma fun e he => hids e (List.mem_append_left _ he)
    rw [Allocator.allocate, hp]
    by_cases hnull : blk.ptr = 0
    · simp only [hnull, if_true]
      exact ihs hdma₁ fun e he => hids e (List.mem_append_right _ he)
    · simp only [hnull, if_false]
      exact ⟨blk, os₁, rfl, hdma₁⟩

theorem FbShape.allocate_ok (h : FbShape t os) (size : Nat) : ∃ blk os', t.allocate size os = .ok (blk, os') := by
  have hdma : ∀ e ∈ t.leaves, os.leaf e ≠ .dma := by
    intro e he hleaf
    have hfit := h.fit_of_mem he
    rwa [hleaf] at hfit
  obtain ⟨blk, os', hok, -⟩ := Ixy.allocate_ok hdma (fun _ he => he) size
  exact ⟨blk, os', hok⟩

end

/-! ## Runs -/

structure FbState where
  os : Os
  /-- History: the blocks that were returned and have not come back, with the leaf that made them. -/
  out : List (Nat × MemBlk)
  aborted : Option String

/-- A call of the root. Only outstanding blocks are given back. -/
def FbState.step (t : Allocator) (s : FbState) : SlabCall → Option FbState
  | .allocate size =>
    if s.aborted.isSome then none
    else match t.allocate size s.os with
      | .error msg => some { s with aborted := some msg }
      | .ok (blk, os) =>
        some { s with os := os, out := if blk.ptr = 0 then s.out else (t.server size s.os, blk) :: s.out }
  | .deallocate blk =>
    if s.aborted.isSome then none
    else match s.out.find? (fun d => d.2 = blk) with
      | none => none
      | some d => match t.deallocate blk s.os with
        | .error msg => some { s with aborted := some msg }
        | .ok os => some { s with os := os, out := s.out.erase d }

structure FbInv (t : Allocator) (s : FbState) : Prop where
  shape : FbShape t s.os
  made : ∀ d ∈ s.out, d.1 ∈ t.leaves ∧ Produced t s.os d.1 d.2
  apart : s.out.Pairwise fun d d' => d.2.wide.Disjoint d'.2.wide
  running : s.aborted = none

section
variable {t : Allocator} {os os' : Os} {id e size i : Nat} {blk b : MemBlk} {sa sa' : StackAllocator} {kind : SlabKind}
  {self : Nat} {parent : Allocator} {s s' : FbState}

namespace StackAllocator.Stocked

theorem pop (h : sa.Stocked) (htop : sa.freeStackTop ≠ 0) :
    sa.pop.Stocked ∧ sa.freeStack (sa.freeStackTop - 1) < sa.numEntries ∧
      sa.freeStack (sa.freeStackTop - 1) ∉ sa.pop.free := by
  have hfree := sa.free_pop htop
  have hnodup := h.nodup
  rw [hfree, List.nodup_append] at hnodup
  refine ⟨⟨⟨h.sized.base_ne, h.sized.size_pos, h.sized.bytes_lt⟩, hnodup.1, fun i hi => h.lt i ?_⟩, h.lt _ ?_,
    fun hmem => hnodup.2.2 _ hmem _ (List.mem_singleton_self _) rfl⟩
  · rw [hfree]
    exact List.mem_append_left _ hi
  · rw [hfree]
    exact List.mem_append_right _ (List.mem_singleton_self _)

theorem push (h : sa.Stocked) (hi : i < sa.numEntries) (hnot : i ∉ sa.free) :
    (sa.push i).Stocked ∧ (sa.push i).free = sa.free ++ [i] := by
  have hnodup : (sa.free ++ [i]).Nodup := by
    rw [List.nodup_append]
    refine ⟨h.nodup, List.nodup_singleton i, fun x hx y hy hxy => ?_⟩
    rw [List.mem_singleton] at hy
    exact hnot (hy ▸ hxy ▸ hx)
  have hlt : ∀ j ∈ sa.free ++ [i], j < sa.numEntries := by
    intro j hj
    rcases List.mem_append.mp hj with hj | hj
    · exact h.lt j hj
    · rw [List.mem_singleton.mp hj]
      exact hi
  have hroom : sa.freeStackTop + 1 < 2 ^ 32 := by
    have hlen := (List.subperm_of_subset hnodup fun j hj => List.mem_range.mpr (hlt j hj)).length_le
    have hnum := h.sized.num_lt
    rw [List.length_append, List.length_singleton, List.length_range, StackAllocator.free_length] at hlen
    omega
  have hfree := sa.free_push hroom i
  refine ⟨⟨⟨h.sized.base_ne, h.sized.size_pos, h.sized.bytes_lt⟩, ?_, ?_⟩, hfree⟩
  · rw [hfree]
    exact hnodup
  · rw [hfree]
    exact hlt

end StackAllocator.Stocked

theorem Produced.setSlab (h : Produced t os e b) (hleaf : os.leaf id = .slab kind self parent sa)
    (hmem : sa'.memory = sa.memory) (hnum : sa'.numEntries = sa.numEntries) (hblock : ∀ i, sa'.block i = sa.block i)
    (hfree : e = id → ∀ i < sa.numEntries, b = sa.block i → i ∉ sa.free → i ∉ sa'.free) :
    Produced t (os.setSlab id kind self parent sa') e b := by
  have hmemory := setSlab_memory hleaf hmem
  by_cases he : e = id
  · subst he
    unfold Produced at h ⊢
    rw [hleaf] at h
    simp only [Os.setSlab, Function.update_self]
    obtain ⟨i, hi, hnot, hb⟩ := h
    refine ⟨i, ?_, hfree rfl i hi hb hnot, ?_⟩
    · rw [hnum]
      exact hi
    · rw [hblock]
      exact hb
  · have hsame : (os.setSlab id kind self parent sa').leaf e = os.leaf e := Function.update_of_ne he _ _
    unfold Produced at h ⊢
    rw [hsame]
    cases hcase : os.leaf e with
    | null =>
      rw [hcase] at h
      exact h
    | mallocator =>
      rw [hcase] at h
      refine ⟨h.1, h.2.1, fun e' he' mem hm => h.2.2 e' he' mem ?_⟩
      rw [← hmemory]
      exact hm
    | dma =>
      rw [hcase] at h
      exact h
    | slab kind self parent sa =>
      rw [hcase] at h
      exact h

theorem Produced.malloc (h : Produced t os e b) (hleaf : os'.leaf = os.leaf)
    (hlive : os.leaf e = .mallocator → b.wide ∈ os.live → b.wide ∈ os'.live) : Produced t os' e b := by
  unfold Produced at h ⊢
  rw [hleaf]
  cases hcase : os.leaf e with
  | null =>
    rw [hcase] at h
    exact h
  | mallocator =>
    rw [hcase] at h
    exact ⟨h.1, hlive hcase h.2.1, h.2.2⟩
  | dma =>
    rw [hcase] at h
    exact h
  | slab kind self parent sa =>
    rw [hcase] at h
    exact h

/-- The answer of a leaf that does not refuse. -/
inductive Serves (os : Os) (id size : Nat) (blk : MemBlk) : Os → Prop where
  | slab {kind : SlabKind} {self : Nat} {parent : Allocator} {sa : StackAllocator}
      (hleaf : os.leaf id = .slab kind self parent sa) (htop : sa.freeStackTop ≠ 0) (hsize : size ≤ sa.entrySize)
      (hblk : blk = sa.block (sa.freeStack (sa.freeStackTop - 1))) :
      Serves os id size blk (os.setSlab id kind self parent sa.pop)
  | malloc (hleaf : os.leaf id = .mallocator) (hunused : os.Unused blk.wide) (hsize : blk.size = size)
      (hlive : (os.malloc size).2.live = blk.wide :: os.live) : Serves os id size blk (os.malloc size).2

theorem FbShape.serves (h : FbShape t os) (hid : id ∈ t.leaves) (hleaf : os.leafAllocate id size = .ok (blk, os'))
    (hblk : blk.ptr ≠ 0) : Serves os id size blk os' := by
  cases hcase : os.leaf id with
  | null =>
    rw [Os.leafAllocate, hcase] at hleaf
    cases hleaf
    exact absurd rfl hblk
  | mallocator =>
    rw [Os.leafAllocate, hcase] at hleaf
    cases hleaf
    rcases malloc_cases os size with hnull | hserved
    · exact absurd hnull.1 hblk
    · exact .malloc hcase hserved.1 rfl hserved.2
  | dma =>
    have hfit := h.fit_of_mem hid
    rw [hcase] at hfit
    exact hfit.elim
  | slab kind self parent sa =>
    rw [leafAllocate_slab hcase] at hleaf
    by_cases hrefuse : sa.freeStackTop = 0 ∨ size > sa.entrySize
    · rw [stackAllocatorAllocate_refused hrefuse] at hleaf
      cases hleaf
      exact absurd rfl hblk
    · have htop : sa.freeStackTop ≠ 0 := by omega
      have hsize : size ≤ sa.entrySize := by omega
      rw [stackAllocatorAllocate_served htop hsize] at hleaf
      cases hleaf
      exact .slab hcase htop hsize rfl

namespace FbInv

theorem served (h : FbInv t s) (hid : id ∈ t.leaves) (hserves : Serves s.os id size blk os') :
    size ≤ blk.size ∧ (∀ e, e ≠ id → os'.leaf e = s.os.leaf e) ∧ (∀ d ∈ s.out, blk.wide.Disjoint d.2.wide) ∧
      FbInv t { s with os := os', out := (id, blk) :: s.out } := by
  cases hserves with
  | @slab kind self parent sa hleaf htop hsize hblk =>
    subst hblk
    have hstock := h.shape.slab hid hleaf
    obtain ⟨hpop, hlt, hnot⟩ := hstock.pop htop
    have hsized := hstock.sized
    have hdisj : ∀ d ∈ s.out, (sa.block (sa.freeStack (sa.freeStackTop - 1))).wide.Disjoint d.2.wide := by
      intro d hd
      obtain ⟨hmem, hmade⟩ := h.made d hd
      by_cases he : d.1 = id
      · unfold Produced at hmade
        rw [he, hleaf] at hmade
        obtain ⟨j, hj, hfree, hdj⟩ := hmade
        rw [hdj, hsized.wide_block, hsized.wide_block]
        refine hsized.block_disjoint hlt hj fun heq => hfree ?_
        rw [sa.free_pop htop, ← heq]
        exact List.mem_append_right _ (List.mem_singleton_self _)
      · have hapart := h.shape.produced_apart hmem hmade hid (Ne.symm he) sa.memory (by rw [hleaf]; rfl)
        rw [hsized.memory_eq] at hapart
        rw [hsized.wide_block]
        exact hapart.symm.mono (hsized.block_inside hlt) d.2.wide.inside_refl
    refine ⟨hsize, fun e he => Function.update_of_ne he _ _, hdisj, h.shape.setSlab hleaf rfl hpop, fun d hd => ?_,
      List.pairwise_cons.mpr ⟨hdisj, h.apart⟩, h.running⟩
    rcases List.mem_cons.mp hd with rfl | hd
    · refine ⟨hid, ?_⟩
      simp only [Produced, Os.setSlab, Function.update_self]
      exact ⟨_, hlt, hnot, rfl⟩
    · obtain ⟨hmem, hmade⟩ := h.made d hd
      refine ⟨hmem, hmade.setSlab hleaf rfl rfl (fun _ => rfl) fun _ j _ _ hj hmem => hj ?_⟩
      rw [sa.free_pop htop]
      exact List.mem_append_left _ hmem
  | malloc hleaf hunused hsize hlive =>
    obtain ⟨hsame, hfresh, -⟩ := malloc_frame s.os size
    obtain ⟨hptr, -, hfree, -, hmemory⟩ := hunused
    have hdisj : ∀ d ∈ s.out, blk.wide.Disjoint d.2.wide := by
      intro d hd
      obtain ⟨hmem, hmade⟩ := h.made d hd
      unfold Produced at hmade
      cases hcase : s.os.leaf d.1 with
      | null =>
        rw [hcase] at hmade
        exact hmade.elim
      | mallocator =>
        rw [hcase] at hmade
        exact hfree _ hmade.2.1
      | dma =>
        rw [hcase] at hmade
        exact hmade.elim
      | slab kind self parent sa =>
        rw [hcase] at hmade
        obtain ⟨j, hj, -, hdj⟩ := hmade
        have hsized := (h.shape.slab hmem hcase).sized
        have hapart := hmemory d.1 (h.shape.known d.1 hmem) sa.memory (by rw [hcase]; rfl)
        rw [hsized.memory_eq] at hapart
        rw [hdj, hsized.wide_block]
        exact hapart.mono blk.wide.inside_refl (hsized.block_inside hj)
    refine ⟨hsize.ge, fun e _ => congrFun hsame e, hdisj, h.shape.congr hsame hfresh, fun d hd => ?_,
      List.pairwise_cons.mpr ⟨hdisj, h.apart⟩, h.running⟩
    rcases List.mem_cons.mp hd with rfl | hd
    · refine ⟨hid, ?_⟩
      simp only [Produced, hsame, hleaf, hlive]
      exact ⟨hptr, List.mem_cons_self, fun e he mem hm => hmemory e (h.shape.known e he) mem hm⟩
    · obtain ⟨hmem, hmade⟩ := h.made d hd
      refine ⟨hmem, hmade.malloc hsame fun _ hm => ?_⟩
      dsimp only
      rw [hlive]
      exact List.mem_cons_of_mem _ hm

theorem erase_apart (h : FbInv t s) {d : Nat × MemBlk} (hd : d ∈ s.out) :
    ∀ x ∈ s.out.erase d, d.2.wide.Disjoint x.2.wide := by
  have hsymm : ∀ {x y : Nat × MemBlk}, x.2.wide.Disjoint y.2.wide → y.2.wide.Disjoint x.2.wide :=
    fun hxy => hxy.symm
  have hpair := ((List.perm_cons_erase hd).pairwise_iff hsymm).mp h.apart
  exact (List.pairwise_cons.mp hpair).1

theorem returned (h : FbInv t s) {d : Nat × MemBlk} (hd : d ∈ s.out) :
    ∃ os', s.os.leafDeallocate d.1 d.2 = .ok os' ∧ (∀ e, e ≠ d.1 → os'.leaf e = s.os.leaf e) ∧
      FbInv t { s with os := os', out := s.out.erase d } := by
  obtain ⟨hmem, hmade⟩ := h.made d hd
  have hothers := h.erase_apart hd
  have hpair : (s.out.erase d).Pairwise fun d d' => d.2.wide.Disjoint d'.2.wide :=
    h.apart.sublist List.erase_sublist
  have hmade' := hmade
  unfold Produced at hmade'
  cases hcase : s.os.leaf d.1 with
  | null =>
    rw [hcase] at hmade'
    exact hmade'.elim
  | dma =>
    rw [hcase] at hmade'
    exact hmade'.elim
  | mallocator =>
    rw [hcase] at hmade'
    obtain ⟨hptr, hlive, -⟩ := hmade'
    have hany : s.os.live.any (fun b => b.ptr = d.2.ptr) = true :=
      List.any_eq_true.mpr ⟨_, hlive, decide_eq_true rfl⟩
    refine ⟨{ s.os with live := s.os.live.eraseP fun b => b.ptr = d.2.ptr }, ?_, fun _ _ => rfl,
      h.shape.congr rfl rfl, fun x hx => ?_, hpair, h.running⟩
    · simp only [Os.leafDeallocate, hcase, Os.free, hptr, if_false, hany, if_true]
    · obtain ⟨hxmem, hxmade⟩ := h.made x (List.mem_of_mem_erase hx)
      refine ⟨hxmem, hxmade.malloc rfl fun _ hm => ?_⟩
      refine (List.mem_eraseP_of_neg ?_).mpr hm
      rw [decide_eq_true_eq]
      exact (MemBlk.ptr_ne_of_disjoint (hothers x hx)).symm
  | slab kind self parent sa =>
    rw [hcase] at hmade'
    obtain ⟨i, hi, hnot, hdi⟩ := hmade'
    have hstock := h.shape.slab hmem hcase
    obtain ⟨hpush, hfree⟩ := hstock.push hi hnot
    refine ⟨s.os.setSlab d.1 kind self parent (sa.push i), ?_, fun e he => Function.update_of_ne he _ _,
      h.shape.setSlab hcase rfl hpush, fun x hx => ?_, hpair, h.running⟩
    · simp only [Os.leafDeallocate, hcase, hdi, hstock.sized.deallocate_block hi]
      rfl
    · obtain ⟨hxmem, hxmade⟩ := h.made x (List.mem_of_mem_erase hx)
      refine ⟨hxmem, hxmade.setSlab hcase rfl rfl (fun _ => rfl) fun _ j _ hxj hj hmem => ?_⟩
      rw [hfree, List.mem_append, List.mem_singleton] at hmem
      refine hmem.elim hj fun hij => MemBlk.ptr_ne_of_disjoint (hothers x hx) ?_
      rw [hdi, hxj, hij]

end FbInv

/-! ## The routes -/

/-- The leaf `id` answers a request with a NULL pointer. -/
def Os.LeafRefuses (os : Os) (size id : Nat) : Prop := ∃ b os', os.leafAllocate id size = .ok (b, os') ∧ b.ptr = 0

/-- A request is served by the leftmost leaf that can, a block goes back to the leaf that made it, and either way the
other leaves stay as they are. -/
structure FbRoutes (t : Allocator) (s : FbState) : Prop where
  running : s.aborted = none
  disjoint : s.out.Pairwise fun d d' => d.2.Disjoint d'.2
  refused : ∀ size blk os', t.allocate size s.os = .ok (blk, os') → blk.ptr = 0 →
    (∀ id ∈ t.leaves, s.os.LeafRefuses size id) ∧ os'.leaf = s.os.leaf
  served : ∀ size blk os', t.allocate size s.os = .ok (blk, os') → blk.ptr ≠ 0 → ∃ pre post,
    t.leaves = pre ++ t.server size s.os :: post ∧ (∀ id ∈ pre, s.os.LeafRefuses size id) ∧
    s.os.leafAllocate (t.server size s.os) size = .ok (blk, os') ∧
    (∀ id, id ≠ t.server size s.os → os'.leaf id = s.os.leaf id) ∧ size ≤ blk.size ∧
    ∀ d ∈ s.out, blk.Disjoint d.2
  returns : ∀ size, ∃ blk os', t.allocate size s.os = .ok (blk, os')
  home : ∀ d ∈ s.out, ∃ os', t.home d.2 s.os = d.1 ∧ t.deallocate d.2 s.os = .ok os' ∧
    s.os.leafDeallocate d.1 d.2 = .ok os' ∧ ∀ id, id ≠ d.1 → os'.leaf id = s.os.leaf id

namespace FbInv

theorem allocate_served (h : FbInv t s) (halloc : t.allocate size s.os = .ok (blk, os')) (hblk : blk.ptr ≠ 0) :
    ∃ pre post, t.leaves = pre ++ t.server size s.os :: post ∧ (∀ id ∈ pre, s.os.LeafRefuses size id) ∧
      s.os.leafAllocate (t.server size s.os) size = .ok (blk, os') ∧
      Serves s.os (t.server size s.os) size blk os' := by
  obtain ⟨pre, post, os₁, hleaves, hrefuses, hserve⟩ := Ixy.allocate_served halloc hblk
  obtain ⟨rfl, hall⟩ := hrefuses.steady (h.shape.fit_pre hleaves)
  have hid : t.server size s.os ∈ t.leaves := by
    rw [hleaves]
    exact List.mem_append_right _ List.mem_cons_self
  refine ⟨pre, post, hleaves, fun id hpre => ?_, hserve, h.shape.serves hid hserve hblk⟩
  obtain ⟨b, hb, hnull⟩ := hall id hpre
  exact ⟨b, _, hb, hnull⟩

theorem allocate_refused (h : FbInv t s) (halloc : t.allocate size s.os = .ok (blk, os')) (hnull : blk.ptr = 0) :
    (∀ id ∈ t.leaves, s.os.LeafRefuses size id) ∧ os'.leaf = s.os.leaf ∧ os'.fresh = s.os.fresh ∧
      os'.live = s.os.live := by
  have hrefuses := Ixy.allocate_refused halloc hnull
  obtain ⟨pre, id, hleaves⟩ : ∃ pre id, t.leaves = pre ++ [id] := by
    rcases List.eq_nil_or_concat' t.leaves with hnil | hconcat
    · exact absurd hnil t.leaves_ne_nil
    · exact hconcat
  rw [hleaves] at hrefuses ⊢
  obtain ⟨os₁, hpre, hlast⟩ := hrefuses.split
  obtain ⟨rfl, hall⟩ := hpre.steady (h.shape.fit_pre hleaves)
  cases hlast with
  | @cons _ _ _ os₂ _ b hleaf hb hnil =>
    cases hnil
    refine ⟨fun e he => ?_, ?_⟩
    · rcases List.mem_append.mp he with he | he
      · obtain ⟨b', hb', hnull'⟩ := hall e he
        exact ⟨b', _, hb', hnull'⟩
      · rw [List.mem_singleton.mp he]
        exact ⟨b, os', hleaf, hb⟩
    · cases hcase : s.os.leaf id with
      | mallocator =>
        rw [Os.leafAllocate, hcase] at hleaf
        cases hleaf
        rcases malloc_cases s.os size with hrefused | hserved
        · obtain ⟨hsame, hfresh, -⟩ := malloc_frame s.os size
          exact ⟨hsame, hfresh, hrefused.2⟩
        · exact absurd hb hserved.1.1
      | _ =>
        have hfit := h.shape.fit pre id [] hleaves
        rw [leafAllocate_refused (by rw [hcase] at hfit ⊢; exact hfit) hleaf hb]
        exact ⟨rfl, rfl, rfl⟩

theorem step {c : SlabCall} (h : FbInv t s) (hstep : s.step t c = some s') : FbInv t s' := by
  cases c with
  | allocate size =>
    simp only [FbState.step, h.running, Option.isSome_none, Bool.false_eq_true, if_false] at hstep
    obtain ⟨blk, os', halloc⟩ := h.shape.allocate_ok size
    rw [halloc] at hstep
    by_cases hnull : blk.ptr = 0
    · simp only [hnull, if_true] at hstep
      cases hstep
      obtain ⟨-, hleaf, hfresh, hlive⟩ := h.allocate_refused halloc hnull
      refine ⟨h.shape.congr hleaf hfresh, fun d hd => ?_, h.apart, rfl⟩
      obtain ⟨hmem, hmade⟩ := h.made d hd
      refine ⟨hmem, hmade.malloc hleaf fun _ hm => ?_⟩
      dsimp only
      rw [hlive]
      exact hm
    · simp only [hnull, if_false] at hstep
      cases hstep
      obtain ⟨pre, post, hleaves, -, -, hserves⟩ := h.allocate_served halloc hnull
      have hid : t.server size s.os ∈ t.leaves := by
        rw [hleaves]
        exact List.mem_append_right _ List.mem_cons_self
      have hnext := (h.served hid hserves).2.2.2
      rw [h.running] at hnext
      exact hnext
  | deallocate blk =>
    simp only [FbState.step, h.running, Option.isSome_none, Bool.false_eq_true, if_false] at hstep
    cases hfind : s.out.find? (fun d => d.2 = blk) with
    | none =>
      rw [hfind] at hstep
      cases hstep
    | some d =>
      have hd := List.mem_of_find?_eq_some hfind
      obtain rfl : d.2 = blk := by simpa using List.find?_some hfind
      obtain ⟨hmem, hmade⟩ := h.made d hd
      obtain ⟨os', hback, -, hnext⟩ := h.returned hd
      rw [hfind] at hstep
      simp only [deallocate_eq, h.shape.home_produced hmem hmade, hback] at hstep
      cases hstep
      rw [h.running] at hnext
      exact hnext

theorem routes (h : FbInv t s) : FbRoutes t s where
  running := h.running
  disjoint := h.apart.imp fun hdisj => hdisj.mono (MemBlk.inside_wide _) (MemBlk.inside_wide _)
  refused size blk os' halloc hnull := by
    obtain ⟨hall, hleaf, -⟩ := h.allocate_refused halloc hnull
    exact ⟨hall, hleaf⟩
  served size blk os' halloc hblk := by
    obtain ⟨pre, post, hleaves, hpre, hleaf, hserves⟩ := h.allocate_served halloc hblk
    have hid : t.server size s.os ∈ t.leaves := by
      rw [hleaves]
      exact List.mem_append_right _ List.mem_cons_self
    obtain ⟨hsize, hothers, hdisj, -⟩ := h.served hid hserves
    exact ⟨pre, post, hleaves, hpre, hleaf, hothers, hsize,
      fun d hd => (hdisj d hd).mono (MemBlk.inside_wide _) (MemBlk.inside_wide _)⟩
  returns size := h.shape.allocate_ok size
  home d hd := by
    obtain ⟨hmem, hmade⟩ := h.made d hd
    obtain ⟨os', hback, hothers, -⟩ := h.returned hd
    have hhome := h.shape.home_produced hmem hmade
    refine ⟨os', hhome, ?_, hback, hothers⟩
    rw [deallocate_eq, hhome]
    exact hback

end FbInv

/-- **Main result.** All along the runs of a fallback tree, requests are served from the left, and blocks find
their way home. -/
theorem fallback_routes (cs : List SlabCall) (hshape : FbShape t os)
    (hrun : runs (FbState.step t) ⟨os, [], none⟩ cs = some s) : FbRoutes t s := by
  have hinit : FbInv t ⟨os, [], none⟩ := ⟨hshape, nofun, List.Pairwise.nil, rfl⟩
  have hinv : FbInv t s :=
    runs_inv (C := fun _ _ => True) (fun s c s' h _ hstep => h.step hstep) hinit hrun fun _ _ _ _ _ => trivial
  exact hinv.routes

end

/-- A stack allocator and a spinlock stack allocator of one entry each, and `malloc` behind them. -/
def threeLeaves : Allocator := .fallback (.leaf 0) (.fallback (.leaf 1) (.leaf 2))

def threeObjects : Os where
  leaf := fun
    | 0 => .slab .stack 0x100 (.leaf 2) ⟨0x1000, 64, 1, 1, fun _ => 0⟩
    | 1 => .slab .spinlockStack 0x200 (.leaf 2) ⟨0x2000, 128, 1, 1, fun _ => 0⟩
    | _ => .mallocator
  fresh := 3
  live := []
  mapped := []
  answers := [0x9000]
  pagemap := fun _ => 0

theorem threeObjects_shape : FbShape threeLeaves threeObjects := by
  refine ⟨fun pre id post hleaves => ?_, ?_, by decide⟩
  · change [0, 1, 2] = pre ++ id :: post at hleaves
    match pre, hleaves with
    | [], hleaves =>
      cases hleaves
      exact ⟨⟨by decide, by decide, by decide⟩, by decide, by decide⟩
    | [_], hleaves =>
      cases hleaves
      exact ⟨⟨by decide, by decide, by decide⟩, by decide, by decide⟩
    | [_, _], hleaves =>
      cases hleaves
      exact rfl
    | _ :: _ :: _ :: _, hleaves => simp at hleaves
  · decide

/-- All three leaves serve a request, and two of the blocks come back. -/
theorem fallback_routes_threeLeaves :
    ∃ s, runs (FbState.step threeLeaves) ⟨threeObjects, [], none⟩ [.allocate 64, .allocate 64, .allocate 64,
        .deallocate ⟨0x9000, 64⟩, .deallocate ⟨0x2000, 128⟩] = some s ∧
      s.out = [(0, ⟨0x1000, 64⟩)] ∧ FbRoutes threeLeaves s := by
  refine ⟨_, rfl, rfl, ?_⟩
  exact fallback_routes [.allocate 64, .allocate 64, .allocate 64, .deallocate ⟨0x9000, 64⟩,
    .deallocate ⟨0x2000, 128⟩] threeObjects_shape rfl

end Ixy
