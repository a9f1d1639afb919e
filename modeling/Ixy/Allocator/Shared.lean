import Ixy.Allocator.Fallback
import Ixy.Lib.Part

/-!
# Fallback trees shared by threads (`fallback_allocator.c`)

`allocator.h` promises that a fallback allocator is thread-safe if both of its allocators are. The leaves that are:
spinlock stack allocators, null allocators, and mallocators, with `malloc` and `free` as single steps. The tree itself
has no lock. A request that the primary refuses goes on to the secondary some time later, and a block that comes back
is routed by address ranges, which are never written.

Every leaf is used as in `Ixy.Allocator.Spinlock`, so what holds there holds here (`Safe.onPart`). What has to be shown
is that all threads respect it: a block comes back to the leaf that made it. `fallback_threadSafe` has the conclusions
for all trees, in all interleavings.
-/

namespace Ixy

open Lib

/-! ## The tree and what it works on -/

/-- An object that threads can share. -/
inductive SharedLeaf where
  | null
  | mallocator
  | spinlock (self : Nat) (parent : Allocator) (sa : StackAllocator)

def SharedLeaf.toLeaf : SharedLeaf → Leaf
  | .null => .null
  | .mallocator => .mallocator
  | .spinlock self parent sa => .slab .spinlockStack self parent sa

structure Shared where
  /-- The process. `malloc` works on it; its objects are as they were before the threads started. -/
  os : Os
  /-- The spinlock stack allocators. -/
  slab : Nat → Spin
  /-- What each thread will call. -/
  script : Nat → List SlabCall
  /-- History: the blocks of `malloc` that a thread is about to give back. -/
  heapHand : List (Nat × MemBlk)
  /-- History: the blocks of `malloc` that were returned to a thread. -/
  heapRest : List (Nat × MemBlk)
  /-- What the calls have returned. -/
  returned : List (Nat × SlabCall × SlabResult)

/-- The blocks of `malloc` that are in use. -/
def Shared.heap (s : Shared) : List MemBlk := (s.heapHand ++ s.heapRest).map Prod.snd

/-- Accesses. -/
inductive SharedOp where
  | next (t : Nat)
  | slab (id : Nat) (o : SpinOp)
  | malloc (t size : Nat)
  | free (t : Nat) (blk : MemBlk)
  | ret (t : Nat) (c : SlabCall) (r : SlabResult)

@[reducible] def SharedRet : SharedOp → Type
  | .next _ => Option SlabCall
  | .slab _ o => SpinRet o
  | .malloc _ _ => Nat
  | .free _ _ => Bool
  | .ret _ _ _ => Unit

namespace Shared

/-- A stack allocator has changed. -/
def setSlab (s : Shared) (id : Nat) (u : Spin) : Shared := { s with slab := Function.update s.slab id u }

/-- Thread `t` is about to give `h` back to leaf `id`. -/
def giveSlab (s : Shared) (t id : Nat) (h : Nat × MemBlk) : Shared :=
  s.setSlab id { s.slab id with rest := (s.slab id).rest.erase h, inHand := (t, h.2) :: (s.slab id).inHand }

def giveHeap (s : Shared) (t : Nat) (h : Nat × MemBlk) : Shared :=
  { s with heapRest := s.heapRest.erase h, heapHand := (t, h.2) :: s.heapHand }

/-- `malloc`, called by thread `t`. -/
def malloc (s : Shared) (t size : Nat) : Shared :=
  { s with
    os := (s.os.malloc size).2
    heapRest := if (s.os.malloc size).1 = 0 then s.heapRest else (t, ⟨(s.os.malloc size).1, size⟩) :: s.heapRest }

/-- The blocks that threads are about to give back, to leaf `id` or to `malloc`. -/
def hand (s : Shared) : Option Nat → List (Nat × MemBlk)
  | some id => (s.slab id).inHand
  | none => s.heapHand

/-- Thread `t` is about to give a block back, which was returned to it or to another thread. -/
def give (tree : Allocator) (leaf : Nat → SharedLeaf) (s : Shared) (t : Nat) (blk : MemBlk) : Option Shared :=
  match (tree.leaves.filter fun id => leaf id matches .spinlock _ _ _).findSome? fun id =>
      ((s.slab id).rest.find? (fun h => h.2 = blk)).map (Prod.mk id) with
  | some (id, h) => some (s.giveSlab t id h)
  | none => (s.heapRest.find? (fun h => h.2 = blk)).map (s.giveHeap t)

theorem setSlab_self (s : Shared) (id : Nat) (u : Spin) : (s.setSlab id u).slab id = u :=
  Function.update_self _ _ _

theorem setSlab_of_ne (s : Shared) {id e : Nat} (u : Spin) (he : e ≠ id) : (s.setSlab id u).slab e = s.slab e :=
  Function.update_of_ne he _ _

end Shared

section
variable (tree : Allocator) (leaf : Nat → SharedLeaf)

/-- Perform one access. Only blocks that some thread holds may be given back, each by one thread. -/
def execShared : (o : SharedOp) → Shared → Option (SharedRet o × Shared)
  | .next t, s =>
    match s.script t with
    | [] => some (none, s)
    | .allocate size :: cs => some (some (.allocate size), { s with script := Function.update s.script t cs })
    | .deallocate blk :: cs => (s.give tree leaf t blk).map fun s =>
        (some (.deallocate blk), { s with script := Function.update s.script t cs })
  | .slab id o, s => (execSpin o (s.slab id)).map fun r => (r.1, s.setSlab id r.2)
  | .malloc t size, s => some ((s.os.malloc size).1, s.malloc t size)
  | .free t blk, s =>
    match s.os.free blk.ptr with
    | .ok os => some (true, { s with os := os, heapHand := s.heapHand.erase (t, blk) })
    | .error _ => some (false, s)
  | .ret t c r, s => some ((), { s with returned := s.returned ++ [(t, c, r)] })

end

/-! ## The code -/

abbrev SharedCode := Prog SharedOp SharedRet

/-- Code of a spinlock stack allocator, on leaf `id`. -/
def onSlab {α : Type} (id : Nat) (p : SpinCode α) : SharedCode α := p.relabel (SharedOp.slab id) fun _ r => r

/-- `allocate` of a spinlock stack allocator, up to its return. -/
def slabAllocate (sa : StackAllocator) (t size : Nat) : SpinCode MemBlk := do
  let blk ← spinlockAllocate sa t size
  Prog.access (SpinOp.ret t (.block blk))
  return blk

def slabDeallocate (sa : StackAllocator) (t : Nat) (blk : MemBlk) : SpinCode Unit := do
  spinlockDeallocate sa t blk
  Prog.access (SpinOp.ret t .freed)

section
variable (leaf : Nat → SharedLeaf)

/-- The function `allocate` of an object. -/
def sharedLeafAllocate (t size id : Nat) : SharedCode MemBlk :=
  match leaf id with
  | .null => return .null
  | .mallocator => do
    let p ← Prog.access (SharedOp.malloc t size)
    return ⟨p, size⟩
  | .spinlock _ _ sa => onSlab id (slabAllocate sa t size)

/-- The function `deallocate` of an object. -/
def sharedLeafDeallocate (t : Nat) (blk : MemBlk) (id : Nat) : SharedCode Unit :=
  match leaf id with
  | .null =>
    if blk.ptr ≠ 0 ∨ blk.size ≠ 0 then .abort "Attempting to free not NULL blk with null allocator" else return ()
  | .mallocator => do
    let ok ← Prog.access (SharedOp.free t blk)
    if ok then return () else .abort "free(): invalid pointer"
  | .spinlock _ _ sa => onSlab id (slabDeallocate sa t blk)

/-- `fallback_allocator_allocate`. -/
def sharedAllocate (t size : Nat) : Allocator → SharedCode MemBlk
  | .leaf id => sharedLeafAllocate leaf t size id
  | .fallback primary secondary => do
    let blk ← sharedAllocate t size primary
    if blk.ptr = 0 then sharedAllocate t size secondary else return blk

/-- `fallback_allocator_deallocate`. What `owns` reads of the objects is never written. -/
def sharedDeallocate (os : Os) (t : Nat) (blk : MemBlk) : Allocator → SharedCode Unit
  | .leaf id => sharedLeafDeallocate leaf t blk id
  | .fallback primary secondary =>
    if primary.owns blk os then sharedDeallocate os t blk primary else sharedDeallocate os t blk secondary

/-- One call of a thread. -/
def sharedServe (os : Os) (tree : Allocator) (t : Nat) (_ : Unit) : SharedCode (Unit ⊕ Unit) := do
  let c ← Prog.access (SharedOp.next t)
  match c with
  | none => return .inr ()
  | some (.allocate size) => do
    let blk ← sharedAllocate leaf t size tree
    Prog.access (SharedOp.ret t (.allocate size) (.block blk))
    return .inl ()
  | some (.deallocate blk) => do
    sharedDeallocate leaf os t blk tree
    Prog.access (SharedOp.ret t (.deallocate blk) .freed)
    return .inl ()

def sharedThread (os : Os) (tree : Allocator) (t : Nat) : SharedCode Unit :=
  Prog.iterate (sharedServe leaf os tree t) ()

theorem sharedDeallocate_eq (os : Os) (t : Nat) (blk : MemBlk) (tree : Allocator) :
    sharedDeallocate leaf os t blk tree = sharedLeafDeallocate leaf t blk (tree.home blk os) := by
  induction tree with
  | leaf id => rfl
  | fallback primary secondary ihp ihs =>
    rw [sharedDeallocate, Allocator.home, ihp, ihs]
    split
    · rfl
    · rfl

end

/-! ## The start -/

/-- New objects, of which the tree is made. -/
structure SharedBoot (tree : Allocator) (leaf : Nat → SharedLeaf) (os : Os) : Prop where
  objects : ∀ id ∈ tree.leaves, os.leaf id = (leaf id).toLeaf
  shape : FbShape tree os
  new : ∀ id ∈ tree.leaves, ∀ self parent sa, leaf id = .spinlock self parent sa →
    sa.free = List.range sa.numEntries

/-- Threads that have not called the tree yet. -/
def sharedBoot (leaf : Nat → SharedLeaf) (os : Os) (script : Nat → List SlabCall) : Shared where
  os := os
  slab id :=
    match leaf id with
    | .spinlock _ _ sa => spinBoot sa fun _ => []
    | _ => spinBoot ⟨0, 0, 0, 0, fun _ => 0⟩ fun _ => []
  script := script
  heapHand := []
  heapRest := []
  returned := []

/-- Leaf `id` of the tree is the spinlock stack allocator that started as `sa`. -/
def IsSlab (tree : Allocator) (leaf : Nat → SharedLeaf) (id : Nat) (sa : StackAllocator) : Prop :=
  id ∈ tree.leaves ∧ ∃ self parent, leaf id = .spinlock self parent sa

/-! ## The invariant -/

/-- All but the stack allocators. -/
structure HeapOk (tree : Allocator) (leaf : Nat → SharedLeaf) (os : Os) (s : Shared) : Prop where
  objects : s.os.leaf = os.leaf ∧ s.os.fresh = os.fresh
  /-- Blocks of `malloc` stay in use until they are freed, -/
  live : ∀ b ∈ s.heap, b.ptr ≠ 0 ∧ b.wide ∈ s.os.live
  apart : s.heap.Pairwise fun b b' => b.wide.Disjoint b'.wide
  /-- outside the memory of the stack allocators. -/
  beyond : ∀ b ∈ s.heap, ∀ id ∈ tree.leaves, ∀ mem ∈ (os.leaf id).memory, b.wide.Disjoint mem
  mallocator : s.heap ≠ [] → ∃ id ∈ tree.leaves, leaf id = .mallocator
  /-- A block is as large as was asked for. -/
  fits : ∀ t size blk, (t, SlabCall.allocate size, SlabResult.block blk) ∈ s.returned → blk.ptr ≠ 0 → size ≤ blk.size

structure SharedInv (tree : Allocator) (leaf : Nat → SharedLeaf) (os : Os) (s : Shared) : Prop extends
    HeapOk tree leaf os s where
  slabs : ∀ id sa, IsSlab tree leaf id sa → SpinInv sa (s.slab id)

/-- What the others can count on when thread `t` makes a move. -/
structure SharedGuar (t : Nat) (s s' : Shared) : Prop where
  slabs : ∀ id, SpinGuar t (s.slab id) (s'.slab id)
  hand : ∀ u ≠ t, ∀ blk, (u, blk) ∈ s.heapHand → (u, blk) ∈ s'.heapHand

/-- The contract of thread `t`. -/
def sharedContract (tree : Allocator) (leaf : Nat → SharedLeaf) (os : Os) (t : Nat) : Contract Shared :=
  threadContract (SharedInv tree leaf os) SharedGuar (fun _ _ => False) t

/-- Not inside any of the stack allocators. -/
structure SharedOutside (tree : Allocator) (leaf : Nat → SharedLeaf) (os : Os) (t : Nat) (s : Shared) : Prop extends
    HeapOk tree leaf os s where
  slabs : ∀ id sa, IsSlab tree leaf id sa → SpinOutside sa t (s.slab id)

/-- Not inside any other one. -/
structure SharedBeside (tree : Allocator) (leaf : Nat → SharedLeaf) (os : Os) (t e : Nat) (s : Shared) : Prop extends
    HeapOk tree leaf os s where
  slabs : ∀ id sa, id ≠ e → IsSlab tree leaf id sa → SpinOutside sa t (s.slab id)

/-- About to give a block back. -/
structure SharedGiving (tree : Allocator) (leaf : Nat → SharedLeaf) (os : Os) (t : Nat) (blk : MemBlk)
    (source : Option Nat) (s : Shared) : Prop extends SharedOutside tree leaf os t s where
  hand : (t, blk) ∈ s.hand source

section
variable {tree : Allocator} {leaf : Nat → SharedLeaf} {os : Os} {t id size : Nat} {blk : MemBlk} {s s' : Shared}
  {sa : StackAllocator} {source : Option Nat}

theorem IsSlab.unique {sa' : StackAllocator} (h : IsSlab tree leaf id sa) (h' : IsSlab tree leaf id sa') :
    sa' = sa := by
  obtain ⟨-, self, parent, hleaf⟩ := h
  obtain ⟨-, self', parent', hleaf'⟩ := h'
  rw [hleaf] at hleaf'
  cases hleaf'
  rfl

theorem SharedGuar.refl (t : Nat) (s : Shared) : SharedGuar t s s :=
  ⟨fun _ => SpinGuar.refl t _, fun _ _ _ h => h⟩

theorem SharedOutside.inv (h : SharedOutside tree leaf os t s) : SharedInv tree leaf os s :=
  ⟨h.toHeapOk, fun id sa hid => (h.slabs id sa hid).inv⟩

theorem rely_slab (hid : IsSlab tree leaf id sa) (hr : (sharedContract tree leaf os t).rely s s') :
    (spinContract sa t).rely (s.slab id) (s'.slab id) := by
  obtain ⟨u, hu, hg, hinv⟩ := hr
  exact ⟨u, hu, hg.slabs id, hinv.slabs id sa hid⟩

theorem SharedOutside.rely (h : SharedOutside tree leaf os t s) (hr : (sharedContract tree leaf os t).rely s s') :
    SharedOutside tree leaf os t s' := by
  refine ⟨?_, fun id sa hid => (h.slabs id sa hid).rely (rely_slab hid hr)⟩
  obtain ⟨u, hu, hg, hinv⟩ := hr
  exact hinv.toHeapOk

theorem SharedOutside.stable : Stable (sharedContract tree leaf os t) (SharedOutside tree leaf os t) :=
  ⟨fun _ _ h hr => h.rely hr, fun _ h => h.inv⟩

theorem SharedGiving.stable : Stable (sharedContract tree leaf os t) (SharedGiving tree leaf os t blk source) := by
  refine ⟨fun s s' h hr => ⟨h.toSharedOutside.rely hr, ?_⟩, fun _ h => h.inv⟩
  obtain ⟨u, hu, hg, hinv⟩ := hr
  cases source with
  | some id => exact (hg.slabs id).inHand t hu.symm blk h.hand
  | none => exact hg.hand t hu.symm blk h.hand

/-! ## One leaf -/

theorem SharedOutside.beside (h : SharedOutside tree leaf os t s) (e : Nat) : SharedBeside tree leaf os t e s :=
  ⟨h.toHeapOk, fun id sa _ hid => h.slabs id sa hid⟩

theorem SharedBeside.outside (h : SharedBeside tree leaf os t id s) (hid : IsSlab tree leaf id sa)
    (hout : SpinOutside sa t (s.slab id)) : SharedOutside tree leaf os t s := by
  refine ⟨h.toHeapOk, fun e sa' he => ?_⟩
  by_cases heq : e = id
  · subst heq
    rw [hid.unique he]
    exact hout
  · exact h.slabs e sa' heq he

theorem execShared_slab {o : SpinOp} {r : SpinRet o} (he : execShared tree leaf (.slab id o) s = some (r, s')) :
    ∃ u, execSpin o (s.slab id) = some (r, u) ∧ s' = s.setSlab id u := by
  obtain ⟨⟨r', u⟩, hexec, hres⟩ := Option.map_eq_some_iff.mp he
  cases hres
  exact ⟨u, hexec, rfl⟩

theorem SharedGuar.setSlab {u : Spin} (hg : SpinGuar t (s.slab id) u) : SharedGuar t s (s.setSlab id u) := by
  refine ⟨fun e => ?_, fun _ _ _ h => h⟩
  by_cases heq : e = id
  · subst heq
    rw [Shared.setSlab_self]
    exact hg
  · rw [Shared.setSlab_of_ne s u heq]
    exact SpinGuar.refl t _

theorem HeapOk.perm (h : HeapOk tree leaf os s) (hos : s'.os = s.os) (hheap : s'.heap.Perm s.heap)
    (hreturned : s'.returned = s.returned) : HeapOk tree leaf os s' := by
  refine ⟨hos ▸ h.objects, fun b hb => hos ▸ h.live b (hheap.mem_iff.mp hb),
    (hheap.pairwise_iff fun hxy => MemBlk.Disjoint.symm hxy).mpr h.apart,
    fun b hb => h.beyond b (hheap.mem_iff.mp hb), fun hne => h.mallocator fun hnil => hne ?_, hreturned ▸ h.fits⟩
  rw [hnil] at hheap
  exact hheap.eq_nil

theorem SharedBeside.setSlab {u : Spin} (h : SharedBeside tree leaf os t id s) :
    SharedBeside tree leaf os t id (s.setSlab id u) := by
  refine ⟨h.toHeapOk.perm rfl (List.Perm.refl _) rfl, fun e sa he hslab => ?_⟩
  rw [Shared.setSlab_of_ne s u he]
  exact h.slabs e sa he hslab

/-- A stack allocator is a part of what the threads share. -/
theorem slab_part (hid : IsSlab tree leaf id sa) :
    Part (fun s : Shared => s.slab id) execSpin (execShared tree leaf) (SharedOp.slab id) (fun _ r => r)
      (spinContract sa t) (sharedContract tree leaf os t) (SharedBeside tree leaf os t id) := by
  refine ⟨fun o s r s' hF he => ?_, fun o s r s' hF he hg => ?_, fun s hF => SharedGuar.refl t s, fun s s' hF hr => ?_,
    fun s hF hinv => ?_, fun _ _ _ h => h⟩
  · obtain ⟨u, hexec, rfl⟩ := execShared_slab he
    rw [Shared.setSlab_self]
    exact ⟨hexec, hF.setSlab⟩
  · obtain ⟨u, -, rfl⟩ := execShared_slab he
    rw [Shared.setSlab_self] at hg
    exact .setSlab hg
  · refine ⟨Or.inr (rely_slab hid hr), ?_, fun e sa' he hslab => (hF.slabs e sa' he hslab).rely (rely_slab hslab hr)⟩
    obtain ⟨u, hu, hg, hinv⟩ := hr
    exact hinv.toHeapOk
  · refine ⟨hF.toHeapOk, fun e sa' he => ?_⟩
    by_cases heq : e = id
    · subst heq
      rw [hid.unique he]
      exact hinv
    · exact (hF.slabs e sa' heq he).inv

theorem onSlab_safe {α : Type} {p : SpinCode α} {R : α → Prop} (hid : IsSlab tree leaf id sa)
    (hp : Safe execSpin (spinContract sa t) p (fun a u => SpinOutside sa t u ∧ R a) (s.slab id))
    (h : SharedOutside tree leaf os t s) :
    Safe (execShared tree leaf) (sharedContract tree leaf os t) (onSlab id p)
      (fun a s => SharedOutside tree leaf os t s ∧ R a) s := by
  refine (hp.onPart (slab_part hid) (h.beside id)).mono ?_
  rintro a s ⟨⟨hout, hR⟩, hF⟩
  exact ⟨hF.outside hid hout, hR⟩

theorem SpinLeft.finished {n : Nat} {r : SlabResult} {u : Spin} (h : SpinLeft sa t n r u) :
    Safe execSpin (spinContract sa t) (Prog.access (SpinOp.ret t r)) (fun _ => SpinOutside sa t) u := by
  refine Safe.step SpinLeft.stable (fun u hu => ⟨_, _, rfl, hu.finish.1, ?_⟩) h
  refine Safe.ret SpinOutside.stable ?_ hu.finish.2
  exact fun _ hu => hu

/-- Whatever it reads, `allocate` returns NULL or a whole entry, which is large enough. -/
theorem slabAllocate_obeys (sa : StackAllocator) (t size : Nat) :
    Obeys ⟨fun _ => True, fun _ _ => True⟩ (slabAllocate sa t size) fun blk => blk.ptr ≠ 0 → size ≤ blk.size := by
  have hlock : Obeys ⟨fun _ => True, fun _ _ => True⟩ (rteSpinlockLock t (.allocate size) none) fun _ => True := by
    refine Obeys.loop (J := fun _ => True) (fun spinning _ => ?_) trivial
    cases spinning with
    | true => exact Obeys.op trivial fun r _ => Obeys.ret trivial
    | false =>
      refine Obeys.op trivial fun r _ => ?_
      rw [Prog.ret_bind]
      split
      · exact Obeys.ret trivial
      · exact Obeys.ret (Obeys.ret trivial)
  refine Obeys.bind (Obeys.mono (Q := fun blk => blk.ptr ≠ 0 → size ≤ blk.size) (fun blk hblk => ?_) ?_)
  · exact Obeys.op trivial fun _ _ => Obeys.ret hblk
  refine hlock.seq fun _ => ?_
  refine Obeys.op trivial fun top _ => ?_
  rw [Prog.ret_bind]
  split
  · exact Obeys.op trivial fun _ _ => Obeys.ret fun h => absurd rfl h
  · rename_i hsize
    refine Obeys.op trivial fun top _ => ?_
    refine Obeys.op trivial fun _ _ => ?_
    refine Obeys.op trivial fun entryId _ => ?_
    refine Obeys.op trivial fun _ _ => Obeys.ret fun _ => ?_
    change size ≤ sa.entrySize
    omega

theorem slabAllocate_safe {u : Spin} (hsized : sa.Sized) (h : SpinOutside sa t u) :
    Safe execSpin (spinContract sa t) (slabAllocate sa t size)
      (fun blk u => SpinOutside sa t u ∧ (blk.ptr ≠ 0 → size ≤ blk.size)) u := by
  refine Safe.and_obeys (fun _ _ => trivial) ?_ (slabAllocate_obeys sa t size)
  refine (spinlockAllocate_safe hsized h).seq ?_
  rintro blk u ⟨n, hleft⟩
  refine hleft.finished.seq fun _ u hu => ?_
  refine Safe.ret SpinOutside.stable ?_ hu
  exact fun _ hu => hu

theorem slabDeallocate_safe {u : Spin} (hsized : sa.Sized) (h : SpinGiving sa t blk u) :
    Safe execSpin (spinContract sa t) (slabDeallocate sa t blk) (fun _ => SpinOutside sa t) u := by
  refine (spinlockDeallocate_safe hsized h).seq ?_
  rintro _ u ⟨n, hleft⟩
  exact hleft.finished

/-! ## `malloc` and `free` -/

theorem Shared.heap_malloc (hptr : (s.os.malloc size).1 ≠ 0) :
    (s.malloc t size).heap.Perm (⟨(s.os.malloc size).1, size⟩ :: s.heap) := by
  unfold Shared.malloc Shared.heap
  rw [if_neg hptr]
  exact List.perm_middle.map Prod.snd

theorem HeapOk.malloc (hshape : FbShape tree os) (h : HeapOk tree leaf os s) (hid : id ∈ tree.leaves)
    (hleaf : leaf id = .mallocator) (t size : Nat) : HeapOk tree leaf os (s.malloc t size) := by
  obtain ⟨hleaves, hfresh, -⟩ := malloc_frame s.os size
  have hobjects : (s.os.malloc size).2.leaf = os.leaf ∧ (s.os.malloc size).2.fresh = os.fresh :=
    ⟨hleaves.trans h.objects.1, hfresh.trans h.objects.2⟩
  rcases malloc_cases s.os size with ⟨hnull, hlive⟩ | ⟨hunused, hlive⟩
  · have hheap : (s.malloc t size).heap = s.heap := by
      unfold Shared.malloc Shared.heap
      rw [if_pos hnull]
    refine ⟨hobjects, fun b hb => ?_, hheap ▸ h.apart, hheap ▸ h.beyond, fun _ => ⟨id, hid, hleaf⟩, h.fits⟩
    rw [hheap] at hb
    exact ⟨(h.live b hb).1, hlive ▸ (h.live b hb).2⟩
  · obtain ⟨hptr, -, hlives, -, hmem⟩ := hunused
    have hperm := Shared.heap_malloc (t := t) hptr
    refine ⟨hobjects, fun b hb => ?_, ?_, fun b hb e he mem hm => ?_, fun _ => ⟨id, hid, hleaf⟩, h.fits⟩
    · change b.ptr ≠ 0 ∧ b.wide ∈ (s.os.malloc size).2.live
      rw [hlive]
      rcases List.mem_cons.mp (hperm.mem_iff.mp hb) with rfl | hb
      · exact ⟨hptr, List.mem_cons_self⟩
      · exact ⟨(h.live b hb).1, List.mem_cons_of_mem _ (h.live b hb).2⟩
    · refine (hperm.pairwise_iff fun hxy => MemBlk.Disjoint.symm hxy).mpr (List.pairwise_cons.mpr ⟨?_, h.apart⟩)
      exact fun b hb => hlives _ (h.live b hb).2
    · rcases List.mem_cons.mp (hperm.mem_iff.mp hb) with rfl | hb
      · rw [← h.objects.1] at hm
        exact hmem e (h.objects.2 ▸ hshape.known e he) mem hm
      · exact h.beyond b hb e he mem hm

theorem HeapOk.free (h : HeapOk tree leaf os s) (hhand : (t, blk) ∈ s.heapHand) :
    ∃ os', s.os.free blk.ptr = .ok os' ∧
      HeapOk tree leaf os { s with os := os', heapHand := s.heapHand.erase (t, blk) } := by
  generalize hrest : ((s.heapHand.erase (t, blk) ++ s.heapRest).map Prod.snd) = rest
  have hperm : s.heap.Perm (blk :: rest) := by
    subst hrest
    exact ((List.perm_cons_erase hhand).append_right s.heapRest).map Prod.snd
  have hsub : ∀ b ∈ rest, b ∈ s.heap := fun b hb => hperm.mem_iff.mpr (List.mem_cons_of_mem _ hb)
  obtain ⟨hptr, hlive⟩ := h.live blk (hperm.mem_iff.mpr List.mem_cons_self)
  have hapart := (hperm.pairwise_iff fun hxy => MemBlk.Disjoint.symm hxy).mp h.apart
  rw [List.pairwise_cons] at hapart
  have hany : s.os.live.any (·.ptr = blk.ptr) = true := by
    rw [List.any_eq_true]
    exact ⟨blk.wide, hlive, decide_eq_true rfl⟩
  have hfree : s.os.free blk.ptr = .ok { s.os with live := s.os.live.eraseP (·.ptr = blk.ptr) } := by
    rw [Os.free, if_neg hptr, if_pos hany]
  subst hrest
  refine ⟨_, hfree, h.objects, fun b hb => ?_, hapart.2, fun b hb => h.beyond b (hsub b hb), fun hne => ?_, h.fits⟩
  · refine ⟨(h.live b (hsub b hb)).1, (List.mem_eraseP_of_neg ?_).mpr (h.live b (hsub b hb)).2⟩
    rw [decide_eq_true_iff]
    exact (MemBlk.ptr_ne_of_disjoint (hapart.1 b hb)).symm
  · refine h.mallocator fun hnil => ?_
    rw [hnil] at hperm
    exact absurd hperm.symm.eq_nil (List.cons_ne_nil _ _)

/-! ## Requests -/

theorem SharedBoot.leaf_slab (hboot : SharedBoot tree leaf os) (hid : IsSlab tree leaf id sa) :
    ∃ self parent, os.leaf id = .slab .spinlockStack self parent sa := by
  obtain ⟨hmem, self, parent, hleaf⟩ := hid
  refine ⟨self, parent, ?_⟩
  rw [hboot.objects id hmem, hleaf]
  rfl

theorem SharedBoot.sized (hboot : SharedBoot tree leaf os) (hid : IsSlab tree leaf id sa) : sa.Sized := by
  obtain ⟨self, parent, hleaf⟩ := hboot.leaf_slab hid
  exact (hboot.shape.slab hid.1 hleaf).sized

theorem sharedLeafAllocate_safe (hboot : SharedBoot tree leaf os) (hid : id ∈ tree.leaves)
    (h : SharedOutside tree leaf os t s) :
    Safe (execShared tree leaf) (sharedContract tree leaf os t) (sharedLeafAllocate leaf t size id)
      (fun blk s => SharedOutside tree leaf os t s ∧ (blk.ptr ≠ 0 → size ≤ blk.size)) s := by
  unfold sharedLeafAllocate
  cases hleaf : leaf id with
  | null =>
    refine Safe.ret SharedOutside.stable ?_ h
    exact fun s hs => ⟨hs, fun hne => absurd rfl hne⟩
  | mallocator =>
    refine Safe.step SharedOutside.stable (fun s hs => ?_) h
    refine ⟨_, s.malloc t size, rfl, ⟨fun _ => SpinGuar.refl t _, fun _ _ _ hu => hu⟩, ?_⟩
    refine Safe.ret SharedOutside.stable ?_ ⟨hs.toHeapOk.malloc hboot.shape hid hleaf t size, hs.slabs⟩
    exact fun s hs => ⟨hs, fun _ => Nat.le_refl size⟩
  | spinlock self parent sa =>
    have hslab : IsSlab tree leaf id sa := ⟨hid, self, parent, hleaf⟩
    exact onSlab_safe hslab (slabAllocate_safe (hboot.sized hslab) (h.slabs id sa hslab)) h

theorem sharedAllocate_safe (hboot : SharedBoot tree leaf os) {sub : Allocator}
    (hsub : ∀ id ∈ sub.leaves, id ∈ tree.leaves) (h : SharedOutside tree leaf os t s) :
    Safe (execShared tree leaf) (sharedContract tree leaf os t) (sharedAllocate leaf t size sub)
      (fun blk s => SharedOutside tree leaf os t s ∧ (blk.ptr ≠ 0 → size ≤ blk.size)) s := by
  induction sub generalizing s with
  | leaf id => exact sharedLeafAllocate_safe hboot (hsub id List.mem_cons_self) h
  | fallback primary secondary ihp ihs =>
    refine (ihp (fun id hid => hsub id (List.mem_append_left _ hid)) h).seq ?_
    rintro blk s ⟨hs, hfits⟩
    split
    · exact ihs (fun id hid => hsub id (List.mem_append_right _ hid)) hs
    · refine Safe.ret SharedOutside.stable ?_ hs
      exact fun s hs => ⟨hs, hfits⟩

/-! ## Blocks that come back -/

theorem FbShape.home_of_apart (h : FbShape tree os) (hid : id ∈ tree.leaves) (howns : os.leafOwns blk id = true)
    (hapart : ∀ e ∈ tree.leaves, e ≠ id → ∀ mem ∈ (os.leaf e).memory, blk.wide.Disjoint mem) :
    tree.home blk os = id := by
  obtain ⟨pre, post, hleaves, hfirst⟩ := List.eq_append_cons_of_mem hid
  refine home_eq hleaves (fun e he => ?_) howns
  have hmem : e ∈ tree.leaves := by
    rw [hleaves]
    exact List.mem_append_left _ he
  have hne : e ≠ id := fun heq => hfirst (heq ▸ he)
  exact FbShape.not_owns (h.fit_pre hleaves e he) (hapart e hmem hne)

theorem SharedBoot.home_slab (hboot : SharedBoot tree leaf os) (hid : IsSlab tree leaf id sa) {i : Nat}
    (hi : i < sa.numEntries) : tree.home (sa.block i) os = id := by
  have hsized := hboot.sized hid
  obtain ⟨self, parent, hleaf⟩ := hboot.leaf_slab hid
  refine hboot.shape.home_of_apart hid.1 ?_ fun e he hne mem hmem => ?_
  · rw [Os.leafOwns, hleaf]
    exact hsized.owns_block hi
  · have hdisj := hboot.shape.apart id hid.1 e he hne.symm sa.memory (by rw [hleaf]; rfl) mem hmem
    rw [hsized.memory_eq] at hdisj
    rw [hsized.wide_block]
    exact hdisj.mono (hsized.block_inside hi) mem.inside_refl

theorem SharedBoot.home_heap (hboot : SharedBoot tree leaf os) (h : HeapOk tree leaf os s) (hblk : blk ∈ s.heap) :
    leaf (tree.home blk os) = .mallocator := by
  obtain ⟨id, hid, hleaf⟩ := h.mallocator (List.ne_nil_of_mem hblk)
  have howns : os.leafOwns blk id = true := by
    rw [Os.leafOwns, hboot.objects id hid, hleaf]
    rfl
  rw [hboot.shape.home_of_apart hid howns fun e he _ mem hmem => h.beyond blk hblk e he mem hmem]
  exact hleaf

theorem sharedDeallocate_safe (hboot : SharedBoot tree leaf os) (h : SharedGiving tree leaf os t blk source s)
    (hsource : ∀ id ∈ source, ∃ sa, IsSlab tree leaf id sa) :
    Safe (execShared tree leaf) (sharedContract tree leaf os t) (sharedDeallocate leaf os t blk tree)
      (fun _ => SharedOutside tree leaf os t) s := by
  rw [sharedDeallocate_eq]
  cases source with
  | some id =>
    obtain ⟨sa, hslab⟩ := hsource id rfl
    have hout := h.slabs id sa hslab
    obtain ⟨i, hi, hblk⟩ := hout.inv.blocks _ (List.mem_append_left _ h.hand)
    obtain rfl : blk = sa.block i := hblk
    obtain ⟨self, parent, hleaf⟩ := hslab.2
    rw [hboot.home_slab hslab hi, sharedLeafDeallocate, hleaf]
    refine (onSlab_safe (R := fun _ => True) hslab ?_ h.toSharedOutside).mono fun _ s hs => hs.1
    exact (slabDeallocate_safe (hboot.sized hslab) ⟨hout, h.hand⟩).mono fun _ u hu => ⟨hu, trivial⟩
  | none =>
    have hblk : blk ∈ s.heap := List.mem_map.mpr ⟨_, List.mem_append_left s.heapRest h.hand, rfl⟩
    rw [sharedLeafDeallocate, hboot.home_heap h.toHeapOk hblk]
    refine Safe.step SharedGiving.stable (fun s hs => ?_) h
    obtain ⟨os', hfree, hheap⟩ := hs.toHeapOk.free hs.hand
    refine ⟨true, { s with os := os', heapHand := s.heapHand.erase (t, blk) }, by rw [execShared, hfree],
      ⟨fun _ => SpinGuar.refl t _, fun u hu b hb => ?_⟩, ?_⟩
    · exact (List.mem_erase_of_ne fun heq => hu (Prod.mk.inj heq).1).mpr hb
    · refine Safe.ret SharedOutside.stable ?_ ⟨hheap, hs.slabs⟩
      exact fun s hs => hs

/-! ## Threads -/

theorem SharedOutside.give {s₁ : Shared} (h : SharedOutside tree leaf os t s)
    (hgive : s.give tree leaf t blk = some s₁) :
    ∃ source, (∀ id ∈ source, ∃ sa, IsSlab tree leaf id sa) ∧ SharedGuar t s s₁ ∧
      SharedGiving tree leaf os t blk source s₁ := by
  unfold Shared.give at hgive
  split at hgive
  · rename_i id x hfind
    cases hgive
    obtain ⟨e, he, hx⟩ := List.exists_of_findSome?_eq_some hfind
    obtain ⟨y, hy, hpair⟩ := Option.map_eq_some_iff.mp hx
    cases hpair
    obtain rfl : x.2 = blk := by simpa using List.find?_some hy
    rw [List.mem_filter] at he
    have hslab : ∃ sa, IsSlab tree leaf id sa := by
      revert he
      cases hleaf : leaf id with
      | null => exact fun he => absurd he.2 (by decide)
      | mallocator => exact fun he => absurd he.2 (by decide)
      | spinlock self parent sa => exact fun he => ⟨sa, he.1, self, parent, hleaf⟩
    obtain ⟨sa, hid⟩ := hslab
    obtain ⟨hg, hgiving⟩ := (h.slabs id sa hid).give ((s.slab id).script t) (List.mem_of_find?_eq_some hy)
    rw [Function.update_eq_self] at hg hgiving
    refine ⟨some id, ?_, .setSlab hg, (h.beside id).setSlab.outside hid ?_, ?_⟩
    · rintro e ⟨⟩
      exact ⟨sa, hid⟩
    · rw [Shared.setSlab_self]
      exact hgiving.toSpinOutside
    · change (t, x.2) ∈ ((s.giveSlab t id x).slab id).inHand
      rw [Shared.giveSlab, Shared.setSlab_self]
      exact hgiving.hand
  · obtain ⟨x, hx, rfl⟩ := Option.map_eq_some_iff.mp hgive
    obtain rfl : x.2 = blk := by simpa using List.find?_some hx
    have hmem := List.mem_of_find?_eq_some hx
    have hperm : (s.giveHeap t x).heap.Perm s.heap := by
      refine ((List.perm_middle.symm.map Prod.snd).trans ?_).trans
        (((List.perm_cons_erase hmem).append_left s.heapHand).map Prod.snd).symm
      simp only [List.map_append, List.map_cons]
      exact List.Perm.refl _
    refine ⟨none, nofun, ⟨fun _ => SpinGuar.refl t _, fun _ _ _ hb => List.mem_cons_of_mem _ hb⟩,
      ⟨h.toHeapOk.perm rfl hperm rfl, h.slabs⟩, List.mem_cons_self⟩

theorem SharedOutside.congr (h : SharedOutside tree leaf os t s) (hos : s'.os = s.os) (hheap : s'.heap = s.heap)
    (hreturned : s'.returned = s.returned) (hslab : s'.slab = s.slab) : SharedOutside tree leaf os t s' :=
  ⟨h.toHeapOk.perm hos (hheap ▸ List.Perm.refl _) hreturned, hslab ▸ h.slabs⟩

theorem SharedOutside.return {c : SlabCall} {r : SlabResult} (h : SharedOutside tree leaf os t s)
    (hfits : ∀ size blk, c = .allocate size → r = .block blk → blk.ptr ≠ 0 → size ≤ blk.size) :
    Safe (execShared tree leaf) (sharedContract tree leaf os t) (do
      Prog.access (SharedOp.ret t c r)
      return (.inl () : Unit ⊕ Unit)) (fun _ => SharedOutside tree leaf os t) s := by
  refine Safe.step SharedOutside.stable (fun s hs => ?_) h
  refine ⟨(), { s with returned := s.returned ++ [(t, c, r)] }, rfl,
    ⟨fun _ => SpinGuar.refl t _, fun _ _ _ hb => hb⟩, ?_⟩
  have hfits' : ∀ u size blk, (u, SlabCall.allocate size, SlabResult.block blk) ∈ s.returned ++ [(t, c, r)] →
      blk.ptr ≠ 0 → size ≤ blk.size := by
    intro u size blk hmem hptr
    rcases List.mem_append.mp hmem with hmem | hmem
    · exact hs.fits u size blk hmem hptr
    · cases List.mem_singleton.mp hmem
      exact hfits size blk rfl rfl hptr
  refine Safe.ret SharedOutside.stable ?_
    ⟨⟨hs.objects, hs.live, hs.apart, hs.beyond, hs.mallocator, hfits'⟩, hs.slabs⟩
  exact fun _ hs => hs

theorem sharedServe_safe (hboot : SharedBoot tree leaf os) (h : SharedOutside tree leaf os t s) :
    Safe (execShared tree leaf) (sharedContract tree leaf os t) (sharedServe leaf os tree t ())
      (fun _ => SharedOutside tree leaf os t) s := by
  refine Safe.op SharedOutside.stable (fun s r s' hs he => ?_) h
  rw [Prog.ret_bind]
  cases hscript : s.script t with
  | nil =>
    simp only [execShared, hscript] at he
    cases he
    refine ⟨SharedGuar.refl t s, Safe.ret SharedOutside.stable ?_ hs⟩
    exact fun _ hs => hs
  | cons c cs =>
    cases c with
    | allocate size =>
      simp only [execShared, hscript] at he
      cases he
      refine ⟨⟨fun _ => SpinGuar.refl t _, fun _ _ _ hb => hb⟩, ?_⟩
      have hs : SharedOutside tree leaf os t { s with script := Function.update s.script t cs } :=
        hs.congr rfl rfl rfl rfl
      refine Safe.seq (sharedAllocate_safe hboot (fun _ hid => hid) hs) ?_
      rintro blk s ⟨hs, hfits⟩
      refine hs.return ?_
      rintro _ _ ⟨⟩ ⟨⟩
      exact hfits
    | deallocate blk =>
      simp only [execShared, hscript] at he
      obtain ⟨s₁, hgive, hres⟩ := Option.map_eq_some_iff.mp he
      cases hres
      obtain ⟨source, hsource, hg, hgiving⟩ := hs.give hgive
      have hgiving : SharedGiving tree leaf os t blk source { s₁ with script := Function.update s₁.script t cs } := by
        refine ⟨hgiving.toSharedOutside.congr rfl rfl rfl rfl, ?_⟩
        cases source with
        | some id => exact hgiving.hand
        | none => exact hgiving.hand
      refine ⟨⟨hg.slabs, hg.hand⟩, Safe.seq (sharedDeallocate_safe hboot hgiving hsource) fun _ s hs => ?_⟩
      refine hs.return ?_
      rintro _ _ ⟨⟩

theorem sharedThread_safe (hboot : SharedBoot tree leaf os) (h : SharedOutside tree leaf os t s) :
    Safe (execShared tree leaf) (sharedContract tree leaf os t) (sharedThread leaf os tree t)
      (fun _ => SharedOutside tree leaf os t) s := by
  refine Safe.loop (J := fun _ => SharedOutside tree leaf os t) (fun _ => SharedOutside.stable)
    (fun _ s _ => SharedGuar.refl t s) (fun _ s hs => Safe.mono ?_ (sharedServe_safe hboot hs)) h
  intro r s hs
  cases r with
  | inl _ => exact hs
  | inr _ =>
    refine Safe.ret SharedOutside.stable ?_ hs
    exact fun _ hs => hs

theorem SharedBoot.outside (hboot : SharedBoot tree leaf os) (script : Nat → List SlabCall) (t : Nat) :
    SharedOutside tree leaf os t (sharedBoot leaf os script) := by
  refine ⟨⟨⟨rfl, rfl⟩, nofun, List.Pairwise.nil, nofun, fun hne => absurd rfl hne, nofun⟩, ?_⟩
  rintro id sa ⟨hid, self, parent, hleaf⟩
  have hslab : (sharedBoot leaf os script).slab id = spinBoot sa fun _ => [] := by
    simp only [sharedBoot, hleaf]
  rw [hslab]
  exact spinBoot_outside (hboot.new id hid self parent sa hleaf) _

/-- The blocks that leaf `id` has handed out. -/
def Shared.slabBlocks (leaf : Nat → SharedLeaf) (s : Shared) (id : Nat) : List MemBlk :=
  match leaf id with
  | .spinlock _ _ _ => ((s.slab id).inHand ++ (s.slab id).rest).map Prod.snd
  | _ => []

/-- The blocks that threads have. -/
def Shared.inUse (tree : Allocator) (leaf : Nat → SharedLeaf) (s : Shared) : List MemBlk :=
  tree.leaves.dedup.flatMap (s.slabBlocks leaf) ++ s.heap

theorem SharedInv.mem_slabBlocks (h : SharedInv tree leaf os s) (hid : id ∈ tree.leaves)
    (hblk : blk ∈ s.slabBlocks leaf id) : ∃ sa, IsSlab tree leaf id sa ∧ ∃ i < sa.numEntries, blk = sa.block i := by
  unfold Shared.slabBlocks at hblk
  cases hleaf : leaf id with
  | null =>
    rw [hleaf] at hblk
    cases hblk
  | mallocator =>
    rw [hleaf] at hblk
    cases hblk
  | spinlock self parent sa =>
    rw [hleaf] at hblk
    obtain ⟨x, hx, rfl⟩ := List.mem_map.mp hblk
    have hslab : IsSlab tree leaf id sa := ⟨hid, self, parent, hleaf⟩
    exact ⟨sa, hslab, (h.slabs id sa hslab).blocks x hx⟩

theorem SharedInv.slabBlocks_inside (hboot : SharedBoot tree leaf os) (h : SharedInv tree leaf os s)
    (hid : id ∈ tree.leaves) (hblk : blk ∈ s.slabBlocks leaf id) :
    ∃ mem ∈ (os.leaf id).memory, blk.wide.Inside mem := by
  obtain ⟨sa, hslab, i, hi, rfl⟩ := h.mem_slabBlocks hid hblk
  obtain ⟨self, parent, hleaf⟩ := hboot.leaf_slab hslab
  have hsized := hboot.sized hslab
  refine ⟨sa.memory, by rw [hleaf]; rfl, ?_⟩
  rw [hsized.wide_block, hsized.memory_eq]
  exact hsized.block_inside hi

theorem SharedInv.slabBlocks_apart (hboot : SharedBoot tree leaf os) (h : SharedInv tree leaf os s)
    (hid : id ∈ tree.leaves) : (s.slabBlocks leaf id).Pairwise fun b b' => b.wide.Disjoint b'.wide := by
  unfold Shared.slabBlocks
  cases hleaf : leaf id with
  | null => exact List.Pairwise.nil
  | mallocator => exact List.Pairwise.nil
  | spinlock self parent sa =>
    have hslab : IsSlab tree leaf id sa := ⟨hid, self, parent, hleaf⟩
    have hsized := hboot.sized hslab
    have hinv := h.slabs id sa hslab
    refine List.pairwise_map.mpr ((hinv.disjoint hsized).imp_of_mem fun {x y} hx hy hxy => ?_)
    obtain ⟨i, -, hi⟩ := hinv.blocks x hx
    obtain ⟨j, -, hj⟩ := hinv.blocks y hy
    rw [hi, hj] at hxy ⊢
    rwa [hsized.wide_block, hsized.wide_block]

theorem SharedInv.inUse_apart (hboot : SharedBoot tree leaf os) (h : SharedInv tree leaf os s) :
    (s.inUse tree leaf).Pairwise fun b b' => b.wide.Disjoint b'.wide := by
  unfold Shared.inUse
  rw [List.pairwise_append, List.pairwise_flatMap]
  refine ⟨⟨fun id hid => h.slabBlocks_apart hboot (List.mem_dedup.mp hid), ?_⟩, h.apart, fun b hb b' hb' => ?_⟩
  · -- different leaves have different memory
    refine (List.nodup_dedup _).imp_of_mem fun {id e} hid he hne b hb b' hb' => ?_
    rw [List.mem_dedup] at hid he
    obtain ⟨mem, hmem, hinside⟩ := h.slabBlocks_inside hboot hid hb
    obtain ⟨mem', hmem', hinside'⟩ := h.slabBlocks_inside hboot he hb'
    exact (hboot.shape.apart id hid e he hne mem hmem mem' hmem').mono hinside hinside'
  · obtain ⟨id, hid, hb⟩ := List.mem_flatMap.mp hb
    obtain ⟨mem, hmem, hinside⟩ := h.slabBlocks_inside hboot (List.mem_dedup.mp hid) hb
    exact ((h.beyond b' hb' id (List.mem_dedup.mp hid) mem hmem).mono b'.wide.inside_refl hinside).symm

/-- A stack allocator behaves as the plain one does under the calls one after the other. -/
structure SlabLinearized (sa : StackAllocator) (u : Spin) : Prop where
  exclusive : u.core.critical.length ≤ 1
  accounts : (u.core.free ++ u.core.transit ++ u.held sa).Perm (List.range sa.numEntries)
  results : ∀ d ∈ u.done, (replay sa u.core.calls).1[d.1]? = some d.2
  once : (u.done.map Prod.fst).Nodup

theorem SpinInv.linearized {u : Spin} (h : SpinInv sa u) : SlabLinearized sa u := by
  refine ⟨?_, h.accounts, h.done, h.once⟩
  rcases h.mutex with ⟨-, hcrit⟩ | ⟨-, t, hcrit⟩
  · rw [hcrit]
    exact Nat.zero_le 1
  · rw [hcrit]
    exact Nat.le_refl 1

/-- What the callers of a tree can count on. -/
structure ThreadSafe (tree : Allocator) (leaf : Nat → SharedLeaf) (p : Pool Shared SharedOp SharedRet Unit) : Prop where
  leaves : ∀ id sa, IsSlab tree leaf id sa → SlabLinearized sa (p.state.slab id)
  /-- No two threads have memory in common. -/
  apart : (p.state.inUse tree leaf).Pairwise fun b b' => b.wide.Disjoint b'.wide
  fits : ∀ t size blk, (t, SlabCall.allocate size, SlabResult.block blk) ∈ p.state.returned → blk.ptr ≠ 0 →
    size ≤ blk.size
  /-- Every block comes back to where it was made: no check fails, and `free` knows what it gets. -/
  running : ∀ t msg, p.progs t ≠ .abort msg

/-- **Main result.** A fallback tree of thread-safe allocators is thread-safe. -/
theorem fallback_threadSafe (hboot : SharedBoot tree leaf os) (script : Nat → List SlabCall) (ts : List Nat)
    {p : Pool Shared SharedOp SharedRet Unit}
    (hrun : Pool.run (execShared tree leaf) ts ⟨sharedBoot leaf os script, sharedThread leaf os tree⟩ = some p) :
    ThreadSafe tree leaf p := by
  have hsafe := Pool.run_safe ts (fun t => sharedThread_safe hboot (hboot.outside script t)) hrun
  have hinv : SharedInv tree leaf os p.state := (hsafe 0).inv
  refine ⟨fun id sa hid => (hinv.slabs id sa hid).linearized, hinv.inUse_apart hboot, hinv.fits, fun t msg habort => ?_⟩
  have hs := hsafe t
  rw [habort] at hs
  exact hs.aborts

/-- A stack allocator of one entry, and `malloc` behind it. -/
def oneEntry : StackAllocator := ⟨0x1000, 64, 1, 1, fun _ => 0⟩

def twoShared : Nat → SharedLeaf
  | 0 => .spinlock 0x100 (.leaf 1) oneEntry
  | _ => .mallocator

def twoSharedTree : Allocator := .fallback (.leaf 0) (.leaf 1)

def twoSharedOs : Os where
  leaf id := (twoShared id).toLeaf
  fresh := 2
  live := []
  mapped := []
  answers := [0x9000]
  pagemap := fun _ => 0

theorem twoShared_boot : SharedBoot twoSharedTree twoShared twoSharedOs := by
  refine ⟨fun _ _ => rfl, ⟨fun pre id post hleaves => ?_, by decide, by decide⟩, ?_⟩
  · change [0, 1] = pre ++ id :: post at hleaves
    match pre, hleaves with
    | [], hleaves =>
      cases hleaves
      exact ⟨⟨by decide, by decide, by decide⟩, by decide, by decide⟩
    | [_], hleaves =>
      cases hleaves
      exact rfl
    | _ :: _ :: _, hleaves => simp at hleaves
  · rintro id hid self parent sa hleaf
    match id, hleaf with
    | 0, hleaf =>
      cases hleaf
      decide

/-- Both threads ask for a block. The second one gives back what the first one got. -/
def twoSharedScript : Nat → List SlabCall
  | 0 => [.allocate 64]
  | 1 => [.allocate 10, .deallocate ⟨0x1000, 64⟩, .deallocate ⟨0x9000, 10⟩]
  | _ => []

/-- The second one finds the lock taken, and the stack allocator empty. -/
def twoSharedSchedule : List Nat :=
  List.replicate 6 0 ++ List.replicate 5 1 ++ List.replicate 7 0 ++ List.replicate 24 1

theorem fallback_threadSafe_two :
    ∃ p, Pool.run (execShared twoSharedTree twoShared) twoSharedSchedule
        ⟨sharedBoot twoShared twoSharedOs twoSharedScript, sharedThread twoShared twoSharedOs twoSharedTree⟩ = some p ∧
      p.state.returned = [(0, .allocate 64, .block ⟨0x1000, 64⟩), (1, .allocate 10, .block ⟨0x9000, 10⟩),
        (1, .deallocate ⟨0x1000, 64⟩, .freed), (1, .deallocate ⟨0x9000, 10⟩, .freed)] ∧
      ThreadSafe twoSharedTree twoShared p :=
  ⟨_, rfl, rfl, fallback_threadSafe twoShared_boot twoSharedScript twoSharedSchedule rfl⟩

end

end Ixy
