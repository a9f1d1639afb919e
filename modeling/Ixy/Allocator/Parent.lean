import Ixy.Allocator.Fallback

/-!
# Stack allocators and their parents (`stack_allocator_new`, `stack_allocator_free`)

A stack allocator takes its memory from a parent and gives it back when it is destroyed. What it gives back is not
the block that it got: the size is computed again from its own fields, and a parent may have given more than it was
asked for. `slab_neutral_iff` gives the exact condition under which a parent is as before afterwards
(`ExactServer`): the leaf that serves the request gives the size that was asked for, and the block finds its way
back to it.
-/

namespace Ixy

open Lib

/-! ## Creation and destruction -/

/-- `sizeof(*sa) + sizeof(uint32_t) * num_entries`. -/
def structSize (numEntries : Nat) : SlabKind → Nat
  | .stack => 72 + 4 * numEntries
  | .spinlockStack => 80 + 4 * numEntries

/-- `stack_allocator_new` and `spinlock_stack_allocator_new`. -/
def slabNew (kind : SlabKind) (numEntries entrySize : Nat) (parent : Allocator) (os : Os) :
    Except String (Option Nat × Os) :=
  let (self, os) := os.malloc (structSize numEntries kind)
  if self = 0 then .ok (none, os)
  else match parent.allocate (stackRequest numEntries entrySize) os with
    | .error msg => .error msg
    | .ok (mem, os) =>
      match stackAllocatorNew numEntries entrySize mem with
      | none => (os.free self).map (none, ·)
      | some sa => .ok (some os.fresh, { os.setSlab os.fresh kind self parent sa with fresh := os.fresh + 1 })

/-- `stack_allocator_free` and `spinlock_stack_allocator_free`. -/
def slabFree (id : Nat) (os : Os) : Except String Os :=
  match os.leaf id with
  | .slab _ self parent sa =>
    match parent.deallocate sa.memory os with
    | .error msg => .error msg
    | .ok os => { os with leaf := Function.update os.leaf id .null }.free self
  | _ => .error "not a stack allocator"

/-- A call of the child. A call that ends the process has no next state. `free_stack` is an array without end
here, as it is in `stackAllocatorDeallocate`: giving back more blocks than there are writes behind the real
one. -/
def childStep (id : Nat) (os : Os) : SlabCall → Option Os
  | .allocate size => (os.leafAllocate id size).toOption.map Prod.snd
  | .deallocate blk => (os.leafDeallocate id blk).toOption

/-- The objects that there were, and their memory, are as before. -/
structure Restored (os os' : Os) : Prop where
  live : os'.live = os.live
  mapped : os'.mapped = os.mapped
  leaf : ∀ id < os.fresh, os'.leaf id = os.leaf id

/-- Whatever is done with the new allocator `id`, it gives back `mem` to its parent, which is then as before. -/
def Neutral (os : Os) (parent : Allocator) (mem : MemBlk) (id : Nat) (os₁ : Os) : Prop :=
  ∀ cs os₂, runs (childStep id) os₁ cs = some os₂ → ∃ kind self sa os₃,
    os₂.leaf id = .slab kind self parent sa ∧ sa.memory = mem ∧ slabFree id os₂ = .ok os₃ ∧ Restored os os₃

/-- The leaf that will serve the request gives exactly `size` bytes, and is the one that they come back to. -/
def ExactServer (t : Allocator) (size : Nat) : List Nat → Os → Prop
  | [], _ => True
  | id :: rest, os =>
    match os.leaf id with
    | .null => ExactServer t size rest os
    | .mallocator => (os.malloc size).1 = 0 → ExactServer t size rest (os.malloc size).2
    | .dma => size % 2 ^ 21 = 0 ∧ ∀ p ∈ os.answers.head?, t.home ⟨p, size⟩ os = id
    | .slab _ _ _ sa =>
      if sa.freeStackTop = 0 ∨ size > sa.entrySize then ExactServer t size rest os
      else sa.entrySize = size ∧ t.home (sa.block (sa.freeStack (sa.freeStackTop - 1))) os = id ∧
        sa.freeStack (sa.freeStackTop - 1) * sa.entrySize < 2 ^ 32 ∧
        sa.freeStack (sa.freeStackTop - 1) ≤ sa.numEntries

/-! ## Reachable states -/

structure StackAllocator.Typed (sa : StackAllocator) : Prop where
  base_ne : sa.baseAddr ≠ 0
  size_pos : 0 < sa.entrySize
  num_lt : sa.numEntries < 2 ^ 32
  top_lt : sa.freeStackTop < 2 ^ 32

structure Os.Ok (os : Os) : Prop where
  slabs : ∀ id kind self parent sa, os.leaf id = .slab kind self parent sa → sa.Typed
  live : ∀ b ∈ os.live, 0 < b.size

/-- The states of a process that uses the library. -/
inductive OsReach : Os → Prop where
  | init (answers : List Nat) (pagemap : Nat → UInt64) : OsReach ⟨fun _ => .null, 0, [], [], answers, pagemap⟩
  | world {os : Os} (h : OsReach os) (answers : List Nat) (pagemap : Nat → UInt64) :
      OsReach { os with answers := answers, pagemap := pagemap }
  | malloc {os : Os} (h : OsReach os) (size : Nat) : OsReach (os.malloc size).2
  | free {os os' : Os} (h : OsReach os) {ptr : Nat} (hfree : os.free ptr = .ok os') : OsReach os'
  | object {os : Os} (h : OsReach os) {l : Leaf} (hl : l = .null ∨ l = .mallocator ∨ l = .dma) :
      OsReach { os with leaf := Function.update os.leaf os.fresh l, fresh := os.fresh + 1 }
  | new {os os' : Os} (h : OsReach os) {kind : SlabKind} {numEntries entrySize : Nat} {parent : Allocator}
      {r : Option Nat} (hnum : numEntries < 2 ^ 32)
      (hnew : slabNew kind numEntries entrySize parent os = .ok (r, os')) : OsReach os'
  | destroy {os os' : Os} (h : OsReach os) {id : Nat} (hfree : slabFree id os = .ok os') : OsReach os'
  | allocate {os os' : Os} (h : OsReach os) {t : Allocator} {size : Nat} {blk : MemBlk}
      (halloc : t.allocate size os = .ok (blk, os')) : OsReach os'
  | deallocate {os os' : Os} (h : OsReach os) {t : Allocator} {blk : MemBlk}
      (hdealloc : t.deallocate blk os = .ok os') : OsReach os'

section
variable {t parent : Allocator} {os os' : Os} {id e size : Nat} {blk : MemBlk} {sa sa' : StackAllocator}
  {kind : SlabKind} {self : Nat}

theorem dmaAllocate_ok (hdma : os.dmaAllocate size = .ok (blk, os')) :
    ∃ p rest, os.answers = p :: rest ∧ roundUpHuge size ≠ 0 ∧ p % 2 ^ 21 = 0 ∧ os.Unused ⟨p, roundUpHuge size⟩ ∧
      blk = ⟨p, roundUpHuge size⟩ ∧
      os' = { os with answers := rest, mapped := Os.hugePages p (roundUpHuge size) ++ os.mapped } := by
  unfold Os.dmaAllocate at hdma
  cases hanswers : os.answers with
  | nil =>
    rw [hanswers] at hdma
    cases hdma
  | cons p rest =>
    rw [hanswers] at hdma
    dsimp only at hdma
    split at hdma
    · cases hdma
    · rename_i hmap
      rw [not_or, not_or, not_not, not_not] at hmap
      split at hdma
      · cases hdma
      · cases hdma
      · cases hdma
        exact ⟨p, rest, rfl, hmap.1, hmap.2.1, hmap.2.2, rfl, rfl⟩

namespace Os.Ok

theorem congr (h : os.Ok) (hleaf : os'.leaf = os.leaf) (hlive : os'.live = os.live) : os'.Ok := by
  constructor
  · rw [hleaf]
    exact h.slabs
  · rw [hlive]
    exact h.live

theorem setLeaf (h : os.Ok) (id : Nat) {l : Leaf}
    (hl : ∀ kind self parent sa, l = .slab kind self parent sa → sa.Typed) :
    Os.Ok { os with leaf := Function.update os.leaf id l } := by
  refine ⟨fun e kind self parent sa he => ?_, h.live⟩
  dsimp only at he
  by_cases heq : e = id
  · subst heq
    rw [Function.update_self] at he
    exact hl kind self parent sa he
  · rw [Function.update_of_ne heq] at he
    exact h.slabs e kind self parent sa he

theorem setSlab (h : os.Ok) (hsa : sa.Typed) : (os.setSlab id kind self parent sa).Ok := by
  refine h.setLeaf id fun kind' self' parent' sa' he => ?_
  cases he
  exact hsa

theorem malloc (h : os.Ok) (size : Nat) : (os.malloc size).2.Ok := by
  refine ⟨?_, ?_⟩
  · rw [(malloc_frame os size).1]
    exact h.slabs
  · rcases malloc_cases os size with hnull | hserved
    · rw [hnull.2]
      exact h.live
    · rw [hserved.2]
      intro b hb
      rcases List.mem_cons.mp hb with rfl | hb
      · exact Nat.lt_of_lt_of_le Nat.zero_lt_one (Nat.le_max_right _ _)
      · exact h.live b hb

theorem free (h : os.Ok) {ptr : Nat} (hfree : os.free ptr = .ok os') : os'.Ok := by
  unfold Os.free at hfree
  split at hfree
  · cases hfree
    exact h
  · split at hfree
    · cases hfree
      exact ⟨h.slabs, fun b hb => h.live b (List.mem_of_mem_eraseP hb)⟩
    · cases hfree

theorem dmaAllocate (h : os.Ok) (hdma : os.dmaAllocate size = .ok (blk, os')) : os'.Ok := by
  obtain ⟨p, rest, -, -, -, -, -, rfl⟩ := dmaAllocate_ok hdma
  exact ⟨h.slabs, h.live⟩

theorem leafAllocate (h : os.Ok) (halloc : os.leafAllocate id size = .ok (blk, os')) : os'.Ok := by
  cases hleaf : os.leaf id with
  | null =>
    rw [Os.leafAllocate, hleaf] at halloc
    cases halloc
    exact h
  | mallocator =>
    rw [Os.leafAllocate, hleaf] at halloc
    cases halloc
    exact h.malloc size
  | dma =>
    rw [Os.leafAllocate, hleaf] at halloc
    exact h.dmaAllocate halloc
  | slab kind self parent sa =>
    rw [leafAllocate_slab hleaf] at halloc
    cases halloc
    have hsa := h.slabs id kind self parent sa hleaf
    refine h.setSlab ?_
    unfold stackAllocatorAllocate
    split
    · exact hsa
    · exact ⟨hsa.base_ne, hsa.size_pos, hsa.num_lt, Nat.lt_of_le_of_lt (Nat.sub_le _ _) hsa.top_lt⟩

theorem leafDeallocate (h : os.Ok) (hdealloc : os.leafDeallocate id blk = .ok os') : os'.Ok := by
  unfold Os.leafDeallocate at hdealloc
  cases hleaf : os.leaf id with
  | null =>
    rw [hleaf] at hdealloc
    dsimp only at hdealloc
    split at hdealloc
    · cases hdealloc
    · cases hdealloc
      exact h
  | mallocator =>
    rw [hleaf] at hdealloc
    exact h.free hdealloc
  | dma =>
    rw [hleaf] at hdealloc
    dsimp only at hdealloc
    unfold Os.munmap at hdealloc
    split at hdealloc
    · cases hdealloc
    · cases hdealloc
      exact ⟨h.slabs, h.live⟩
  | slab kind self parent sa =>
    rw [hleaf] at hdealloc
    have hsa := h.slabs id kind self parent sa hleaf
    dsimp only at hdealloc
    rw [stackAllocatorDeallocate] at hdealloc
    cases hcheck : stackAllocatorCheck sa blk with
    | error msg =>
      rw [hcheck] at hdealloc
      cases hdealloc
    | ok i =>
      rw [hcheck] at hdealloc
      cases hdealloc
      exact h.setSlab ⟨hsa.base_ne, hsa.size_pos, hsa.num_lt, Nat.mod_lt _ (by decide)⟩

theorem allocate (h : os.Ok) (halloc : t.allocate size os = .ok (blk, os')) : os'.Ok := by
  induction t generalizing os os' blk with
  | leaf id => exact h.leafAllocate halloc
  | fallback primary secondary ihp ihs =>
    rw [Allocator.allocate] at halloc
    cases hp : primary.allocate size os with
    | error msg =>
      rw [hp] at halloc
      cases halloc
    | ok r =>
      rw [hp] at halloc
      dsimp only at halloc
      split at halloc
      · exact ihs (ihp h hp) halloc
      · cases halloc
        exact ihp h hp

theorem deallocate (h : os.Ok) (hdealloc : t.deallocate blk os = .ok os') : os'.Ok := by
  rw [deallocate_eq] at hdealloc
  exact h.leafDeallocate hdealloc

end Os.Ok

theorem stackAllocatorNew_typed {numEntries entrySize : Nat} {mem : MemBlk} (hnum : numEntries < 2 ^ 32)
    (hnew : stackAllocatorNew numEntries entrySize mem = some sa) : sa.Typed := by
  obtain ⟨hptr, rfl⟩ := stackAllocatorNew_eq hnew
  exact ⟨hptr, stackEntrySize_pos entrySize, hnum, hnum⟩

theorem Os.Ok.slabFree (h : os.Ok) (hfree : Ixy.slabFree id os = .ok os') : os'.Ok := by
  unfold Ixy.slabFree at hfree
  split at hfree
  · split at hfree
    · cases hfree
    · rename_i os₁ hdealloc
      have hos₁ := (h.deallocate hdealloc).setLeaf id (l := .null) (fun _ _ _ _ he => by cases he)
      exact hos₁.free hfree
  · cases hfree

theorem Os.Ok.slabNew_none {numEntries entrySize : Nat} (h : os.Ok)
    (hnew : slabNew kind numEntries entrySize parent os = .ok (none, os')) : os'.Ok := by
  unfold slabNew at hnew
  dsimp only at hnew
  split at hnew
  · cases hnew
    exact h.malloc _
  · split at hnew
    · cases hnew
    · rename_i mem osm halloc
      have hosm := (h.malloc _).allocate halloc
      split at hnew
      · cases hfree : osm.free (os.malloc (structSize numEntries kind)).1 with
        | error msg =>
          rw [hfree] at hnew
          cases hnew
        | ok os₁ =>
          rw [hfree] at hnew
          cases hnew
          exact hosm.free hfree
      · cases hnew

theorem slabNew_some {numEntries entrySize : Nat}
    (hnew : slabNew kind numEntries entrySize parent os = .ok (some id, os')) :
    ∃ mem osm sa, (os.malloc (structSize numEntries kind)).1 ≠ 0 ∧
      parent.allocate (stackRequest numEntries entrySize) (os.malloc (structSize numEntries kind)).2 = .ok (mem, osm) ∧
      stackAllocatorNew numEntries entrySize mem = some sa ∧ id = osm.fresh ∧
      os' = { osm.setSlab osm.fresh kind (os.malloc (structSize numEntries kind)).1 parent sa with
        fresh := osm.fresh + 1 } := by
  unfold slabNew at hnew
  dsimp only at hnew
  split at hnew
  · cases hnew
  · rename_i hself
    split at hnew
    · cases hnew
    · rename_i mem osm halloc
      split at hnew
      · cases hfree : osm.free (os.malloc (structSize numEntries kind)).1 with
        | error msg =>
          rw [hfree] at hnew
          cases hnew
        | ok os'' =>
          rw [hfree] at hnew
          cases hnew
      · rename_i sa hsa
        cases hnew
        exact ⟨mem, osm, sa, hself, halloc, hsa, rfl, rfl⟩

theorem OsReach.ok (h : OsReach os) : os.Ok := by
  induction h with
  | init answers pagemap => exact ⟨nofun, nofun⟩
  | world _ answers pagemap ih => exact ih.congr rfl rfl
  | malloc _ size ih => exact ih.malloc size
  | free _ hfree ih => exact ih.free hfree
  | @object os _ l hl ih =>
    refine (ih.setLeaf os.fresh (l := l) fun kind self parent sa he => ?_).congr rfl rfl
    rcases hl with rfl | rfl | rfl
    · cases he
    · cases he
    · cases he
  | @new os os' _ kind numEntries entrySize parent r hnum hnew ih =>
    cases r with
    | some id =>
      obtain ⟨mem, osm, sa, -, halloc, hsa, -, rfl⟩ := slabNew_some hnew
      have hosm := (ih.malloc _).allocate halloc
      exact (hosm.setSlab (stackAllocatorNew_typed hnum hsa)).congr rfl rfl
    | none => exact ih.slabNew_none hnew
  | @destroy os os' _ id hfree ih => exact ih.slabFree hfree
  | allocate _ halloc ih => exact ih.allocate halloc
  | deallocate _ hdealloc ih => exact ih.deallocate hdealloc

/-! ## Who serves, and who takes back -/

theorem leafAllocate_null (h : os.Ok) (halloc : os.leafAllocate id size = .ok (blk, os')) (hnull : blk.ptr = 0) :
    (os.leaf id = .null ∧ os' = os) ∨
      (os.leaf id = .mallocator ∧ (os.malloc size).1 = 0 ∧ os' = (os.malloc size).2) ∨
      ∃ kind self parent sa, os.leaf id = .slab kind self parent sa ∧
        (sa.freeStackTop = 0 ∨ size > sa.entrySize) ∧ os' = os := by
  cases hleaf : os.leaf id with
  | null =>
    rw [Os.leafAllocate, hleaf] at halloc
    cases halloc
    exact Or.inl ⟨rfl, rfl⟩
  | mallocator =>
    rw [Os.leafAllocate, hleaf] at halloc
    cases halloc
    exact Or.inr (Or.inl ⟨rfl, hnull, rfl⟩)
  | dma =>
    rw [Os.leafAllocate, hleaf] at halloc
    obtain ⟨p, rest, -, -, -, hunused, rfl, -⟩ := dmaAllocate_ok halloc
    exact absurd hnull hunused.1
  | slab kind self parent sa =>
    rw [leafAllocate_slab hleaf] at halloc
    by_cases hrefuse : sa.freeStackTop = 0 ∨ size > sa.entrySize
    · rw [stackAllocatorAllocate_refused hrefuse] at halloc
      cases halloc
      exact Or.inr (Or.inr ⟨kind, self, parent, sa, rfl, hrefuse, Os.setSlab_self hleaf⟩)
    · rw [stackAllocatorAllocate_served (by omega) (by omega)] at halloc
      cases halloc
      have hbase := (h.slabs id kind self parent sa hleaf).base_ne
      change sa.baseAddr + _ = 0 at hnull
      omega

/-- Only the answers of `malloc` have changed. -/
structure SameMemory (os os' : Os) : Prop where
  leaf : os'.leaf = os.leaf
  fresh : os'.fresh = os.fresh
  live : os'.live = os.live
  mapped : os'.mapped = os.mapped

theorem Refuses.exact {ids : List Nat} (h : os.Ok) (hrefuses : Refuses size ids os os') (rest : List Nat) :
    SameMemory os os' ∧ os'.Ok ∧ (ExactServer t size (ids ++ rest) os ↔ ExactServer t size rest os') ∧
      ∀ e ∈ ids, os.leaf e ≠ .dma := by
  induction hrefuses with
  | nil os => exact ⟨⟨rfl, rfl, rfl, rfl⟩, h, Iff.rfl, nofun⟩
  | @cons id ids os os₁ os₂ blk hleaf hnull _ ih =>
    rw [List.cons_append, ExactServer]
    rcases leafAllocate_null h hleaf hnull with
      ⟨hid, rfl⟩ | ⟨hid, hmalloc, rfl⟩ | ⟨kind, self, parent, sa, hid, hno, rfl⟩
    · obtain ⟨hsame, hok, hiff, hdma⟩ := ih h
      simp only [hid, List.mem_cons, forall_eq_or_imp]
      exact ⟨hsame, hok, hiff, nofun, hdma⟩
    · obtain ⟨hleaf', hfresh', hmapped'⟩ := malloc_frame os size
      have hlive' : (os.malloc size).2.live = os.live := by
        rcases malloc_cases os size with hrefused | hserved
        · exact hrefused.2
        · exact absurd hmalloc hserved.1.1
      obtain ⟨hsame, hok, hiff, hdma⟩ := ih (h.malloc size)
      simp only [hid, hmalloc, forall_const, List.mem_cons, forall_eq_or_imp]
      refine ⟨⟨hsame.leaf.trans hleaf', hsame.fresh.trans hfresh', hsame.live.trans hlive',
        hsame.mapped.trans hmapped'⟩, hok, hiff, nofun, fun e he => ?_⟩
      rw [← hleaf']
      exact hdma e he
    · obtain ⟨hsame, hok, hiff, hdma⟩ := ih h
      simp only [hid, hno, if_true, List.mem_cons, forall_eq_or_imp]
      exact ⟨hsame, hok, hiff, nofun, hdma⟩

theorem home_congr (h : ∀ e ∈ t.leaves, os'.leafOwns blk e = os.leafOwns blk e) : t.home blk os' = t.home blk os := by
  induction t with
  | leaf id => rfl
  | fallback primary secondary ihp ihs =>
    have hp : ∀ e ∈ primary.leaves, os'.leafOwns blk e = os.leafOwns blk e :=
      fun e he => h e (List.mem_append_left _ he)
    have howns : primary.owns blk os' = primary.owns blk os := by
      rw [owns_eq, owns_eq]
      exact Bool.eq_iff_iff.mpr (by
        rw [List.any_eq_true, List.any_eq_true]
        exact exists_congr fun e => and_congr_right fun he => by rw [hp e he])
    rw [Allocator.home, Allocator.home, howns, ihp hp, ihs fun e he => h e (List.mem_append_right _ he)]

theorem home_mem (t : Allocator) (blk : MemBlk) (os : Os) : t.home blk os ∈ t.leaves := by
  induction t with
  | leaf id => exact List.mem_cons_self
  | fallback primary secondary ihp ihs =>
    rw [Allocator.home]
    split
    · exact List.mem_append_left _ ihp
    · exact List.mem_append_right _ ihs

theorem home_cases {pre post : List Nat} (hleaves : t.leaves = pre ++ id :: post) (hid : os.leafOwns blk id = true) :
    t.home blk os = id ∨ (t.home blk os ∈ pre ∧ os.leafOwns blk (t.home blk os) = true) := by
  cases hfind : pre.find? (os.leafOwns blk) with
  | none =>
    refine Or.inl (home_eq hleaves (fun e he => ?_) hid)
    exact Bool.eq_false_iff.mpr (List.find?_eq_none.mp hfind e he)
  | some e =>
    obtain ⟨howns, pre', mid, rfl, hpre⟩ := List.find?_eq_some_iff_append.mp hfind
    have hhome : t.home blk os = e := by
      refine home_eq (by rw [hleaves, List.append_assoc, List.cons_append]) (fun x hx => ?_) howns
      exact (Bool.not_eq_true' _).mp (hpre x hx)
    rw [hhome]
    exact Or.inr ⟨List.mem_append_right _ List.mem_cons_self, howns⟩

/-- Fresh memory is nobody's but a mallocator's or the DMA allocator's. -/
theorem Os.Unused.not_slab_owns {bytes : Nat} (blk : MemBlk) (h : os.Unused ⟨blk.ptr, bytes⟩) (hbytes : 0 < bytes)
    (he : e < os.fresh) (howns : os.leafOwns blk e = true) : os.leaf e = .mallocator ∨ os.leaf e = .dma := by
  unfold Os.leafOwns at howns
  cases hleaf : os.leaf e with
  | null =>
    rw [hleaf] at howns
    cases howns
  | mallocator => exact Or.inl rfl
  | dma => exact Or.inr rfl
  | slab kind self parent sa =>
    rw [hleaf] at howns
    have hdisj := h.2.2.2.2 e he sa.memory (by rw [hleaf]; rfl)
    simp only [stackAllocatorOwns, Bool.and_eq_true, decide_eq_true_eq] at howns
    rcases hdisj with hd | hd
    · change blk.ptr + bytes ≤ sa.baseAddr at hd
      omega
    · change sa.baseAddr + sa.numEntries * sa.entrySize % 2 ^ 32 ≤ blk.ptr at hd
      omega

theorem free_frame {ptr : Nat} (h : os.free ptr = .ok os') : os'.leaf = os.leaf ∧ os'.mapped = os.mapped := by
  unfold Os.free at h
  split at h
  · cases h
    exact ⟨rfl, rfl⟩
  · split at h
    · cases h
      exact ⟨rfl, rfl⟩
    · cases h

theorem free_head {ptr bytes : Nat} {rest : List MemBlk} (hptr : ptr ≠ 0) (hlive : os.live = ⟨ptr, bytes⟩ :: rest) :
    os.free ptr = .ok { os with live := rest } := by
  simp [Os.free, hptr, hlive]

theorem leafDeallocate_frame (h : os.leafDeallocate id blk = .ok os') (he : e ≠ id) : os'.leaf e = os.leaf e := by
  unfold Os.leafDeallocate at h
  split at h
  · split at h
    · cases h
    · cases h
      rfl
  · exact congrFun (free_frame h).1 e
  · unfold Os.munmap at h
    split at h
    · cases h
    · cases h
      rfl
  · rename_i kind self parent sa hleaf
    cases hdealloc : stackAllocatorDeallocate sa blk with
    | error msg =>
      rw [hdealloc] at h
      cases h
    | ok sa' =>
      rw [hdealloc] at h
      cases h
      exact Function.update_of_ne he _ _

/-! ## The child -/

/-- What is left of `osm` while the child `id` is used. -/
structure ChildOf (osm : Os) (id : Nat) (kind : SlabKind) (addr : Nat) (parent : Allocator) (mem : MemBlk) (os : Os) :
    Prop where
  leaf : ∃ sa, os.leaf id = .slab kind addr parent sa ∧ sa.memory = mem
  others : ∀ e, e ≠ id → os.leaf e = osm.leaf e
  live : os.live = osm.live
  mapped : os.mapped = osm.mapped

theorem seqCall_memory (sa : StackAllocator) (c : SlabCall) : (seqCall sa c).2.memory = sa.memory := by
  obtain ⟨hbase, hsize, hnum⟩ := seqCall_shape sa c
  rw [StackAllocator.memory, StackAllocator.memory, hbase, hsize, hnum]

theorem ChildOf.new (osm : Os) (id : Nat) (kind : SlabKind) (self : Nat) (parent : Allocator) {mem : MemBlk}
    (hmem : sa.memory = mem) (fresh : Nat) :
    ChildOf osm id kind self parent mem { osm.setSlab id kind self parent sa with fresh := fresh } :=
  ⟨⟨sa, Function.update_self _ _ _, hmem⟩, fun _ he => Function.update_of_ne he _ _, rfl, rfl⟩

theorem ChildOf.setSlab {osm : Os} {mem : MemBlk} (h : ChildOf osm id kind self parent mem os)
    (hmem : sa.memory = mem) : ChildOf osm id kind self parent mem (os.setSlab id kind self parent sa) :=
  ⟨⟨sa, Function.update_self _ _ _, hmem⟩, fun e he => (Function.update_of_ne he _ _).trans (h.others e he), h.live,
    h.mapped⟩

theorem ChildOf.step {osm : Os} {mem : MemBlk} {c : SlabCall} (h : ChildOf osm id kind self parent mem os)
    (hstep : childStep id os c = some os') : ChildOf osm id kind self parent mem os' := by
  obtain ⟨sa, hleaf, hmem⟩ := h.leaf
  cases c with
  | allocate size =>
    rw [childStep, leafAllocate_slab hleaf] at hstep
    cases hstep
    exact h.setSlab ((seqCall_memory sa (.allocate size)).trans hmem)
  | deallocate blk =>
    have hshape := seqCall_memory sa (.deallocate blk)
    rw [seqCall] at hshape
    rw [childStep, Os.leafDeallocate, hleaf] at hstep
    dsimp only at hstep
    cases hdealloc : stackAllocatorDeallocate sa blk with
    | error msg =>
      rw [hdealloc] at hstep
      cases hstep
    | ok sa' =>
      rw [hdealloc] at hstep hshape
      cases hstep
      exact h.setSlab (hshape.trans hmem)

theorem ChildOf.run {osm os₁ : Os} {mem : MemBlk} {cs : List SlabCall} (h : ChildOf osm id kind self parent mem os₁)
    (hrun : runs (childStep id) os₁ cs = some os) : ChildOf osm id kind self parent mem os :=
  runs_inv (C := fun _ _ => True) (fun _ _ _ h _ hstep => h.step hstep) h hrun fun _ _ _ _ _ => trivial

/-- The process when the leaf is asked that will serve: the struct of the child is the block got last. -/
structure Asked (os : Os) (addr : Nat) (parent : Allocator) (osr : Os) : Prop where
  leaf : osr.leaf = os.leaf
  fresh : osr.fresh = os.fresh
  mapped : osr.mapped = os.mapped
  live : ∃ bytes, osr.live = ⟨addr, bytes⟩ :: os.live
  addr_ne : addr ≠ 0
  ok : osr.Ok
  known : ∀ e ∈ parent.leaves, e < os.fresh

section
variable {osr osm os₂ os₃ os₄ : Os} {mem : MemBlk} {pre post : List Nat}

theorem Asked.ne_fresh (h : Asked os self parent osr) (he : e ∈ parent.leaves) : e ≠ os.fresh :=
  Nat.ne_of_lt (h.known e he)

theorem slabFree_eq (hchild : ChildOf osm id kind self parent mem os₂) :
    slabFree id os₂ = match os₂.leafDeallocate (parent.home mem os₂) mem with
      | .error msg => .error msg
      | .ok os => { os with leaf := Function.update os.leaf id .null }.free self := by
  obtain ⟨sa, hleaf, hmem⟩ := hchild.leaf
  rw [slabFree, hleaf]
  dsimp only
  rw [deallocate_eq, hmem]

theorem Asked.restored (h : Asked os self parent osr) (hchild : ChildOf osm os.fresh kind self parent mem os₂)
    (hback : os₂.leafDeallocate (parent.home mem os₂) mem = .ok os₄) (hlive : os₄.live = osr.live)
    (hmapped : os₄.mapped = os.mapped) (hleaf : ∀ e < os.fresh, os₄.leaf e = os.leaf e) :
    ∃ os₃, slabFree os.fresh os₂ = .ok os₃ ∧ Restored os os₃ := by
  obtain ⟨bytes, hself⟩ := h.live
  rw [slabFree_eq hchild, hback]
  refine ⟨_, free_head h.addr_ne (hlive.trans hself), rfl, hmapped, fun e he => ?_⟩
  exact (Function.update_of_ne (Nat.ne_of_lt he) _ _).trans (hleaf e he)

theorem slabFree_leaf (hchild : ChildOf osm id kind self parent mem os₂) (hfree : slabFree id os₂ = .ok os₃)
    (he : e ≠ id) :
    ∃ os₄, os₂.leafDeallocate (parent.home mem os₂) mem = .ok os₄ ∧ os₃.leaf e = os₄.leaf e := by
  rw [slabFree_eq hchild] at hfree
  cases hback : os₂.leafDeallocate (parent.home mem os₂) mem with
  | error msg =>
    rw [hback] at hfree
    cases hfree
  | ok os₄ =>
    rw [hback] at hfree
    refine ⟨os₄, rfl, ?_⟩
    rw [(free_frame hfree).1]
    exact Function.update_of_ne he _ _

theorem neutral_malloc (h : Asked os self parent osr) (hleaves : parent.leaves = pre ++ id :: post)
    (hpre : ∀ e ∈ pre, osr.leaf e ≠ .dma) (hid : osr.leaf id = .mallocator)
    (hserved : (osr.malloc size).1 ≠ 0)
    (hchild : ChildOf (osr.malloc size).2 os.fresh kind self parent ⟨(osr.malloc size).1, size⟩ os₂) :
    ∃ os₃, slabFree os.fresh os₂ = .ok os₃ ∧ Restored os os₃ := by
  obtain ⟨hleaf, -, hmapped⟩ := malloc_frame osr size
  obtain ⟨hunused, hlive⟩ : _ ∧ _ := (malloc_cases osr size).resolve_left fun hnull => hserved hnull.1
  have hsame : ∀ e ∈ parent.leaves, os₂.leaf e = osr.leaf e := fun e he => by
    rw [hchild.others e (h.ne_fresh he), hleaf]
  have hhome : parent.home ⟨(osr.malloc size).1, size⟩ os₂ = parent.home ⟨(osr.malloc size).1, size⟩ osr :=
    home_congr fun e he => by rw [Os.leafOwns, Os.leafOwns, hsame e he]
  have hmall : osr.leaf (parent.home ⟨(osr.malloc size).1, size⟩ osr) = .mallocator := by
    have howns_id : osr.leafOwns ⟨(osr.malloc size).1, size⟩ id = true := by rw [Os.leafOwns, hid]
    rcases home_cases hleaves howns_id with heq | ⟨hmem, howns⟩
    · rw [heq]
      exact hid
    · have hknown : parent.home ⟨(osr.malloc size).1, size⟩ osr < osr.fresh := by
        rw [h.fresh]
        exact h.known _ (home_mem _ _ _)
      exact (hunused.not_slab_owns ⟨_, size⟩ (by omega) hknown howns).resolve_right (hpre _ hmem)
  have hback : os₂.leafDeallocate (parent.home ⟨(osr.malloc size).1, size⟩ os₂) ⟨(osr.malloc size).1, size⟩ =
      .ok { os₂ with live := osr.live } := by
    rw [hhome, Os.leafDeallocate, hsame _ (home_mem _ _ _), hmall]
    exact free_head hserved (hchild.live.trans hlive)
  refine h.restored hchild hback rfl ((hchild.mapped.trans hmapped).trans h.mapped) fun e he => ?_
  exact (hchild.others e (Nat.ne_of_lt he)).trans (congrFun (hleaf.trans h.leaf) e)

theorem mem_hugePages {p size h : Nat} (hp : p % 2 ^ 21 = 0) (hmem : h ∈ Os.hugePages p size) :
    p ≤ 2 ^ 21 * h ∧ 2 ^ 21 * h + 2 ^ 21 ≤ p + size := by
  obtain ⟨k, hk, rfl⟩ := List.mem_map.mp hmem
  rw [List.mem_range] at hk
  omega

theorem filter_hugePages {p size : Nat} (hp : p % 2 ^ 21 = 0) (hunused : os.Unused ⟨p, size⟩) :
    (Os.hugePages p size ++ os.mapped).filter (· ∉ Os.hugePages p size) = os.mapped := by
  rw [List.filter_append, List.filter_eq_nil_iff.mpr (fun h hh => by simp [hh]), List.nil_append,
    List.filter_eq_self]
  intro h hh
  rw [decide_eq_true_eq]
  intro hmem
  obtain ⟨hlo, hhi⟩ := mem_hugePages hp hmem
  rcases hunused.2.2.2.1 h hh with hd | hd
  · change p + size ≤ 2 ^ 21 * h at hd
    omega
  · change 2 ^ 21 * h + 2 ^ 21 ≤ p at hd
    omega

theorem neutral_dma (h : Asked os self parent osr) (hid : osr.leaf id = .dma) {p : Nat} {rest : List Nat}
    (hmod : size % 2 ^ 21 = 0) (hpos : roundUpHuge size ≠ 0) (hp : p % 2 ^ 21 = 0)
    (hunused : osr.Unused ⟨p, roundUpHuge size⟩) (hhome : parent.home ⟨p, size⟩ osr = id)
    (hchild : ChildOf { osr with answers := rest, mapped := Os.hugePages p (roundUpHuge size) ++ osr.mapped } os.fresh
      kind self parent ⟨p, size⟩ os₂) : ∃ os₃, slabFree os.fresh os₂ = .ok os₃ ∧ Restored os os₃ := by
  have hsame : ∀ e ∈ parent.leaves, os₂.leaf e = osr.leaf e := fun e he => hchild.others e (h.ne_fresh he)
  have hhome₂ : parent.home ⟨p, size⟩ os₂ = id := by
    rw [← hhome]
    exact home_congr fun e he => by rw [Os.leafOwns, Os.leafOwns, hsame e he]
  have hmem : id ∈ parent.leaves := hhome ▸ home_mem _ _ _
  have hsize := roundUpHuge_eq_self.mpr hmod
  rw [hsize] at hpos hunused hchild
  have hback : os₂.leafDeallocate (parent.home ⟨p, size⟩ os₂) ⟨p, size⟩ =
      .ok { os₂ with mapped := os₂.mapped.filter (· ∉ Os.hugePages p size) } := by
    rw [hhome₂, Os.leafDeallocate, hsame id hmem, hid]
    dsimp only
    rw [Os.munmap, if_neg (by omega)]
  refine h.restored hchild hback hchild.live ?_ fun e he => ?_
  · dsimp only
    rw [hchild.mapped]
    exact (filter_hugePages hp hunused).trans h.mapped
  · exact (hchild.others e (Nat.ne_of_lt he)).trans (congrFun h.leaf e)

/-- A block of huge pages goes to `free` if a mallocator comes before the DMA allocator. -/
theorem neutral_dma_home (h : Asked os self parent osr) (hleaves : parent.leaves = pre ++ id :: post)
    (hpre : ∀ e ∈ pre, osr.leaf e ≠ .dma) (hid : osr.leaf id = .dma) {p : Nat} {rest : List Nat}
    (hpos : roundUpHuge size ≠ 0) (hunused : osr.Unused ⟨p, roundUpHuge size⟩)
    (hchild : ChildOf { osr with answers := rest, mapped := Os.hugePages p (roundUpHuge size) ++ osr.mapped } os.fresh
      kind self parent ⟨p, size⟩ os₂) (hfree : slabFree os.fresh os₂ = .ok os₃) :
    parent.home ⟨p, size⟩ osr = id := by
  have hsame : ∀ e ∈ parent.leaves, os₂.leaf e = osr.leaf e := fun e he => hchild.others e (h.ne_fresh he)
  have hhome : parent.home ⟨p, size⟩ os₂ = parent.home ⟨p, size⟩ osr :=
    home_congr fun e he => by rw [Os.leafOwns, Os.leafOwns, hsame e he]
  have howns_id : osr.leafOwns ⟨p, size⟩ id = true := by rw [Os.leafOwns, hid]
  refine (home_cases hleaves howns_id).resolve_right ?_
  rintro ⟨hmem, howns⟩
  have hknown : parent.home ⟨p, size⟩ osr < osr.fresh := by
    rw [h.fresh]
    exact h.known _ (home_mem _ _ _)
  have hmall := (hunused.not_slab_owns ⟨p, size⟩ (Nat.pos_of_ne_zero hpos) hknown howns).resolve_right
    (hpre _ hmem)
  -- no block of `malloc` has this address
  have hany : os₂.live.any (·.ptr = p) = false := by
    rw [Bool.eq_false_iff, ne_eq, List.any_eq_true]
    rintro ⟨b, hb, hbp⟩
    rw [hchild.live] at hb
    have hbpos := h.ok.live b hb
    rw [decide_eq_true_eq] at hbp
    rcases hunused.2.2.1 b hb with hd | hd
    · change p + roundUpHuge size ≤ b.ptr at hd
      omega
    · change b.ptr + b.size ≤ p at hd
      omega
  rw [slabFree_eq hchild, hhome, Os.leafDeallocate, hsame _ (home_mem _ _ _), hmall] at hfree
  simp [Os.free, hunused.1, hany] at hfree

theorem check_block_iff (h : sa.Typed) (i : Nat) :
    stackAllocatorCheck sa (sa.block i) = .ok i ↔ i * sa.entrySize < 2 ^ 32 ∧ i ≤ sa.numEntries := by
  have hpos := h.size_pos
  have hnum := h.num_lt
  have hlt : i * sa.entrySize % 2 ^ 32 < 2 ^ 32 := Nat.mod_lt _ (by decide)
  have hid : sa.entryId (sa.block i).ptr = ((i * sa.entrySize % 2 ^ 32 / sa.entrySize : Nat) : Int) := by
    have hdiff : ((sa.baseAddr + i * sa.entrySize % 2 ^ 32 : Nat) : Int) - sa.baseAddr =
        ((i * sa.entrySize % 2 ^ 32 : Nat) : Int) := by omega
    change (Int.bmod (((sa.baseAddr + i * sa.entrySize % 2 ^ 32 : Nat) : Int) - sa.baseAddr) (2 ^ 64)).tdiv _ = _
    rw [hdiff, Int.bmod_eq_of_le (by omega) (by omega), Int.tdiv_eq_ediv_of_nonneg (by omega), Int.natCast_div]
  have hquot : i * sa.entrySize % 2 ^ 32 / sa.entrySize = i ↔ i * sa.entrySize < 2 ^ 32 := by
    constructor
    · intro hi
      by_contra hge
      have hsmall : i * sa.entrySize % 2 ^ 32 < i * sa.entrySize := by omega
      have := (Nat.div_lt_iff_lt_mul hpos).mpr hsmall
      omega
    · intro hi
      rw [Nat.mod_eq_of_lt hi, Nat.mul_div_cancel _ hpos]
  rw [stackAllocatorCheck, if_neg (by simp [StackAllocator.block])]
  dsimp only
  rw [hid, Int.toNat_natCast]
  generalize i * sa.entrySize % 2 ^ 32 / sa.entrySize = q at *
  rw [← hquot]
  by_cases hout : (q : Int) > sa.numEntries ∨ (q : Int) < 0
  · rw [if_pos hout]
    refine iff_of_false (fun hok => by cases hok) fun hq => ?_
    omega
  · rw [if_neg hout, Except.ok.injEq, Nat.mod_eq_of_lt (by omega)]
    omega

theorem home_popped (hfresh : ∀ e ∈ parent.leaves, os₂.leaf e = (osr.setSlab id kind self t sa.pop).leaf e)
    (hid : osr.leaf id = .slab kind self t sa) (blk : MemBlk) : parent.home blk os₂ = parent.home blk osr := by
  refine home_congr fun e he => ?_
  rw [Os.leafOwns, Os.leafOwns, hfresh e he]
  by_cases heq : e = id
  · subst heq
    simp only [Os.setSlab, Function.update_self, hid]
    rfl
  · simp only [Os.setSlab, Function.update_of_ne heq]

section
variable {skind : SlabKind} {sself : Nat} {sparent : Allocator}

theorem neutral_slab (h : Asked os self parent osr) (hid : osr.leaf id = .slab skind sself sparent sa)
    (hmem : id ∈ parent.leaves) (htop : sa.freeStackTop ≠ 0)
    (hhome : parent.home (sa.block (sa.freeStack (sa.freeStackTop - 1))) osr = id)
    (hcheck : stackAllocatorCheck sa (sa.block (sa.freeStack (sa.freeStackTop - 1))) =
      .ok (sa.freeStack (sa.freeStackTop - 1)))
    (hchild : ChildOf (osr.setSlab id skind sself sparent sa.pop) os.fresh kind self parent
      (sa.block (sa.freeStack (sa.freeStackTop - 1))) os₂) :
    ∃ os₃, slabFree os.fresh os₂ = .ok os₃ ∧ Restored os os₃ := by
  have hleaf₂ : os₂.leaf id = .slab skind sself sparent sa.pop := by
    rw [hchild.others id (h.ne_fresh hmem)]
    exact Function.update_self _ _ _
  have htyped := h.ok.slabs id skind sself sparent sa hid
  have hdealloc : stackAllocatorDeallocate sa.pop (sa.block (sa.freeStack (sa.freeStackTop - 1))) = .ok sa := by
    change (stackAllocatorCheck sa _).map sa.pop.push = _
    rw [hcheck]
    exact congrArg Except.ok (sa.push_pop htop htyped.top_lt)
  have hback : os₂.leafDeallocate (parent.home (sa.block (sa.freeStack (sa.freeStackTop - 1))) os₂)
      (sa.block (sa.freeStack (sa.freeStackTop - 1))) = .ok (os₂.setSlab id skind sself sparent sa) := by
    rw [home_popped (fun e he => hchild.others e (h.ne_fresh he)) hid, hhome, Os.leafDeallocate, hleaf₂]
    dsimp only
    rw [hdealloc]
    rfl
  refine h.restored hchild hback hchild.live (hchild.mapped.trans h.mapped) fun e he => ?_
  by_cases heq : e = id
  · subst heq
    rw [← h.leaf, hid]
    exact Function.update_self _ _ _
  · rw [← h.leaf]
    refine (Function.update_of_ne heq _ _).trans ((hchild.others e (Nat.ne_of_lt he)).trans ?_)
    exact Function.update_of_ne heq _ _

/-- If the parent is as before, the block has gone back to the leaf that it came from, and its entry was found. -/
theorem neutral_slab_home (h : Asked os self parent osr) (hid : osr.leaf id = .slab skind sself sparent sa)
    (hmem : id ∈ parent.leaves) (htop : sa.freeStackTop ≠ 0)
    (hchild : ChildOf (osr.setSlab id skind sself sparent sa.pop) os.fresh kind self parent
      (sa.block (sa.freeStack (sa.freeStackTop - 1))) os₂)
    (hfree : slabFree os.fresh os₂ = .ok os₃) (hrestored : Restored os os₃) :
    parent.home (sa.block (sa.freeStack (sa.freeStackTop - 1))) osr = id ∧
      stackAllocatorCheck sa (sa.block (sa.freeStack (sa.freeStackTop - 1))) =
        .ok (sa.freeStack (sa.freeStackTop - 1)) := by
  have hleaf₂ : os₂.leaf id = .slab skind sself sparent sa.pop := by
    rw [hchild.others id (h.ne_fresh hmem)]
    exact Function.update_self _ _ _
  obtain ⟨os₄, hback, hleaf₄⟩ := slabFree_leaf hchild hfree (h.ne_fresh hmem)
  have hagain : os₄.leaf id = .slab skind sself sparent sa := by
    rw [← hleaf₄, hrestored.leaf id (h.known id hmem), ← h.leaf, hid]
  rw [home_popped (fun e he => hchild.others e (h.ne_fresh he)) hid] at hback
  have hhome : parent.home (sa.block (sa.freeStack (sa.freeStackTop - 1))) osr = id := by
    by_contra hne
    -- then the leaf still misses the entry
    rw [leafDeallocate_frame hback (Ne.symm hne), hleaf₂] at hagain
    injection hagain with _ _ _ hpop
    have := congrArg StackAllocator.freeStackTop hpop
    change sa.freeStackTop - 1 = sa.freeStackTop at this
    omega
  refine ⟨hhome, ?_⟩
  rw [hhome, Os.leafDeallocate, hleaf₂] at hback
  dsimp only at hback
  change ((stackAllocatorCheck sa _).map sa.pop.push).map _ = _ at hback
  cases hcheck : stackAllocatorCheck sa (sa.block (sa.freeStack (sa.freeStackTop - 1))) with
  | error msg =>
    rw [hcheck] at hback
    cases hback
  | ok j =>
    rw [hcheck] at hback
    cases hback
    simp only [Os.setSlab, Function.update_self] at hagain
    injection hagain with _ _ _ hpush
    have hslot := congrFun (congrArg StackAllocator.freeStack hpush) (sa.freeStackTop - 1)
    change Function.update sa.freeStack (sa.freeStackTop - 1) j (sa.freeStackTop - 1) = _ at hslot
    rw [Function.update_self] at hslot
    rw [hslot]

theorem exactServer_dma_iff (h : Asked os self parent osr) (hleaves : parent.leaves = pre ++ id :: post)
    (hpre : ∀ e ∈ pre, osr.leaf e ≠ .dma) (hid : osr.leaf id = .dma)
    (hserve : osr.dmaAllocate size = .ok (mem, osm))
    (hchild : ChildOf osm os.fresh kind self parent ⟨mem.ptr, size⟩ os₂) :
    ExactServer parent size (id :: post) osr ↔
      mem.size = size ∧ ∃ os₃, slabFree os.fresh os₂ = .ok os₃ ∧ Restored os os₃ := by
  obtain ⟨p, rest, hanswers, hpos, hp, hunused, rfl, rfl⟩ := dmaAllocate_ok hserve
  simp only [ExactServer, hid, hanswers, List.head?_cons, Option.mem_some_iff, forall_eq']
  rw [roundUpHuge_eq_self]
  refine and_congr_right fun hmod => ⟨fun hhome => ?_, ?_⟩
  · exact neutral_dma h hid hmod hpos hp hunused hhome hchild
  · rintro ⟨os₃, hfree, -⟩
    exact neutral_dma_home h hleaves hpre hid hpos hunused hchild hfree

theorem exactServer_slab_iff (h : Asked os self parent osr) (hmem : id ∈ parent.leaves)
    (hid : osr.leaf id = .slab skind sself sparent sa) (hserve : osr.leafAllocate id size = .ok (mem, osm))
    (hptr : mem.ptr ≠ 0) (hchild : ChildOf osm os.fresh kind self parent ⟨mem.ptr, size⟩ os₂) :
    ExactServer parent size (id :: post) osr ↔
      mem.size = size ∧ ∃ os₃, slabFree os.fresh os₂ = .ok os₃ ∧ Restored os os₃ := by
  rw [leafAllocate_slab hid] at hserve
  by_cases hno : sa.freeStackTop = 0 ∨ size > sa.entrySize
  · rw [stackAllocatorAllocate_refused hno] at hserve
    cases hserve
    exact absurd rfl hptr
  · have htop : sa.freeStackTop ≠ 0 := fun htop => hno (Or.inl htop)
    rw [stackAllocatorAllocate_served (by omega) (by omega)] at hserve
    cases hserve
    have htyped := h.ok.slabs id skind sself sparent sa hid
    simp only [ExactServer, hid, if_neg hno]
    refine and_congr_right fun hsize => ?_
    subst hsize
    rw [← check_block_iff htyped]
    constructor
    · rintro ⟨hhome, hcheck⟩
      exact neutral_slab h hid hmem htop hhome hcheck hchild
    · rintro ⟨os₃, hfree, hrestored⟩
      exact neutral_slab_home h hid hmem htop hchild hfree hrestored

theorem exactServer_iff (h : Asked os self parent osr) (hleaves : parent.leaves = pre ++ id :: post)
    (hpre : ∀ e ∈ pre, osr.leaf e ≠ .dma) (hserve : osr.leafAllocate id size = .ok (mem, osm))
    (hptr : mem.ptr ≠ 0) (hchild : ChildOf osm os.fresh kind self parent ⟨mem.ptr, size⟩ os₂) :
    ExactServer parent size (id :: post) osr ↔
      mem.size = size ∧ ∃ os₃, slabFree os.fresh os₂ = .ok os₃ ∧ Restored os os₃ := by
  have hmem : id ∈ parent.leaves := by
    rw [hleaves]
    exact List.mem_append_right _ List.mem_cons_self
  cases hid : osr.leaf id with
  | null =>
    rw [Os.leafAllocate, hid] at hserve
    cases hserve
    exact absurd rfl hptr
  | mallocator =>
    rw [Os.leafAllocate, hid] at hserve
    cases hserve
    rw [ExactServer, hid]
    exact iff_of_true (fun hnull => absurd hnull hptr) ⟨rfl, neutral_malloc h hleaves hpre hid hptr hchild⟩
  | dma =>
    rw [Os.leafAllocate, hid] at hserve
    exact exactServer_dma_iff h hleaves hpre hid hserve hchild
  | slab skind sself sparent sa => exact exactServer_slab_iff h hmem hid hserve hptr hchild

end

end

/-! ## Neutrality -/

theorem leafAllocate_fresh (h : os.leafAllocate id size = .ok (blk, os')) : os'.fresh = os.fresh := by
  unfold Os.leafAllocate at h
  split at h
  · cases h
    rfl
  · cases h
    exact (malloc_frame os size).2.1
  · obtain ⟨p, rest, -, -, -, -, -, rfl⟩ := dmaAllocate_ok h
    rfl
  · cases h
    rfl

theorem Asked.of_malloc (hself : (os.malloc size).1 ≠ 0) (hknown : ∀ e ∈ parent.leaves, e < os.fresh)
    {osr : Os} (hsame : SameMemory (os.malloc size).2 osr) (hokr : osr.Ok) :
    Asked os (os.malloc size).1 parent osr := by
  obtain ⟨hleaf, hfresh, hmapped⟩ := malloc_frame os size
  obtain ⟨-, hlive⟩ : _ ∧ _ := (malloc_cases os size).resolve_left fun hnull => hself hnull.1
  exact ⟨hsame.leaf.trans hleaf, hsame.fresh.trans hfresh, hsame.mapped.trans hmapped,
    ⟨_, hsame.live.trans hlive⟩, hself, hokr, hknown⟩

/-- **Main result.** A stack allocator gives its parent back the block that it got, and leaves it as it was,
exactly if the leaf that serves the request gives the size that was asked for and gets it back. -/
theorem slab_neutral_iff {numEntries entrySize : Nat} {mem : MemBlk} {osm os₁ : Os} (hos : OsReach os)
    (hknown : ∀ e ∈ parent.leaves, e < os.fresh) (hbytes : numEntries * stackEntrySize entrySize < 2 ^ 32)
    (hnew : slabNew kind numEntries entrySize parent os = .ok (some id, os₁))
    (hmem : parent.allocate (stackRequest numEntries entrySize) (os.malloc (structSize numEntries kind)).2 =
      .ok (mem, osm)) :
    Neutral os parent mem id os₁ ↔ ExactServer parent (numEntries * stackEntrySize entrySize) parent.leaves
      (os.malloc (structSize numEntries kind)).2 := by
  obtain ⟨mem', osm', sa, hself, hmem', hsa, rfl, rfl⟩ := slabNew_some hnew
  cases hmem.symm.trans hmem'
  obtain ⟨hptr, rfl⟩ := stackAllocatorNew_eq hsa
  have hrequest : stackRequest numEntries entrySize = numEntries * stackEntrySize entrySize := Nat.mod_eq_of_lt hbytes
  rw [hrequest] at hmem
  generalize hsize : numEntries * stackEntrySize entrySize = size at *
  obtain ⟨pre, post, osr, hleaves, hrefuses, hserve⟩ := allocate_served hmem hptr
  obtain ⟨hsame, hok, hexact, hdma⟩ := hrefuses.exact (t := parent) (hos.ok.malloc _)
    (parent.server size (os.malloc (structSize numEntries kind)).2 :: post)
  have hasked : Asked os _ parent osr := .of_malloc hself hknown hsame hok
  have hfresh : osm.fresh = os.fresh := (leafAllocate_fresh hserve).trans hasked.fresh
  rw [hfresh, hleaves, hexact]
  have hpre : ∀ e ∈ pre, osr.leaf e ≠ .dma := fun e he => by
    rw [hsame.leaf]
    exact hdma e he
  have hmemory : StackAllocator.memory ⟨mem.ptr, stackEntrySize entrySize, numEntries, numEntries,
      fun i => if i < numEntries then i else 0⟩ = ⟨mem.ptr, size⟩ := by
    rw [StackAllocator.memory, hsize, Nat.mod_eq_of_lt hbytes]
  have hchild := ChildOf.new osm os.fresh kind (os.malloc (structSize numEntries kind)).1 parent hmemory (osm.fresh + 1)
  rw [hfresh] at hchild
  constructor
  · intro hneutral
    -- one run is enough: the one without calls
    obtain ⟨kind', self', sa', os₃, hleaf, hgiven, hfree, hrestored⟩ := hneutral [] _ rfl
    obtain ⟨sa, hleaf', hmemory'⟩ := hchild.leaf
    cases hleaf.symm.trans hleaf'
    have hmemsize : mem.size = size := congrArg MemBlk.size (hgiven.symm.trans hmemory')
    exact (exactServer_iff hasked hleaves hpre hserve hptr hchild).mpr ⟨hmemsize, os₃, hfree, hrestored⟩
  · intro hserver cs os₂ hrun
    have hchild₂ := hchild.run hrun
    obtain ⟨hmemsize, os₃, hfree, hrestored⟩ :=
      (exactServer_iff hasked hleaves hpre hserve hptr hchild₂).mp hserver
    obtain ⟨sa, hleaf, hgiven⟩ := hchild₂.leaf
    refine ⟨kind, _, sa, os₃, hleaf, ?_, hfree, hrestored⟩
    rw [hgiven, ← hmemsize]

end

/-- A process with a mallocator. -/
def oneMallocator (answers : List Nat) : Os :=
  ⟨Function.update (fun _ => .null) 0 .mallocator, 1, [], [], answers, fun _ => 0⟩

theorem oneMallocator_reach (answers : List Nat) : OsReach (oneMallocator answers) :=
  .object (.init answers fun _ => 0) (Or.inr (Or.inl rfl))

/-- Four entries of 64 bytes fill an entry of their parent. -/
theorem slab_neutral_nested :
    ∃ os os₁, slabNew .stack 2 256 (.leaf 0) (oneMallocator [0x1000, 0x2000, 0x3000]) = .ok (some 1, os) ∧
      slabNew .spinlockStack 4 64 (.leaf 1) os = .ok (some 2, os₁) ∧ Neutral os (.leaf 1) ⟨0x2100, 256⟩ 2 os₁ := by
  refine ⟨_, _, rfl, rfl, ?_⟩
  have hparent := OsReach.new (oneMallocator_reach [0x1000, 0x2000, 0x3000]) (show 2 < 2 ^ 32 by decide)
    (Eq.refl (slabNew .stack 2 256 (.leaf 0) (oneMallocator [0x1000, 0x2000, 0x3000])))
  refine (slab_neutral_iff hparent (by decide) (show 4 * stackEntrySize 64 < 2 ^ 32 by decide)
    (Eq.refl (slabNew .spinlockStack 4 64 (.leaf 1) _)) rfl).mpr ?_
  exact ⟨rfl, rfl, by decide, by decide⟩

/-- Four entries of 32 bytes do not: the parent gives 256 bytes for the 128, and does not take 128 back. -/
theorem slab_neutral_counterexample :
    ∃ os os₁, slabNew .stack 2 256 (.leaf 0) (oneMallocator [0x1000, 0x2000, 0x3000]) = .ok (some 1, os) ∧
      slabNew .stack 4 32 (.leaf 1) os = .ok (some 2, os₁) ∧
      slabFree 2 os₁ = .error (sizeMismatch 128 256) ∧ ¬ Neutral os (.leaf 1) ⟨0x2100, 256⟩ 2 os₁ := by
  refine ⟨_, _, rfl, rfl, rfl, fun hneutral => ?_⟩
  obtain ⟨kind, self, sa, os₃, -, -, hfree, -⟩ := hneutral [] _ rfl
  cases hfree

end Ixy
