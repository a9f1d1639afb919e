import Ixy.Lib.Bytes
import Ixy.Lib.FreeStack
import Ixy.Lib.Run
import Mathlib.Tactic.Ring

/-!
# The stack allocator (`stack_allocator.c`)

A stack allocator cuts a block of its parent into entries of one size and keeps the free ones on a stack of
indices. The index of an entry is not stored with it: `deallocate` recovers it from the address, by pointer
subtraction and a division. Products are those of `uint32_t`, differences those of `ptrdiff_t`.

Under `StackAllocator.Sized` the products do not wrap, and `entryId` is the inverse of `block`. The free indices
and the ones of the outstanding blocks then split the indices of the allocator (`Slab.Ok`), in all runs.
-/

namespace Ixy

open Lib

/-- `struct mem_blk`. -/
structure MemBlk where
  ptr : Nat
  size : Nat
  deriving DecidableEq, Repr

/-- What an allocator returns that cannot serve. -/
def MemBlk.null : MemBlk := ⟨0, 0⟩

/-- Two blocks have no byte in common. -/
def MemBlk.Disjoint (a b : MemBlk) : Prop := Apart a.ptr a.size b.ptr b.size

instance (a b : MemBlk) : Decidable (a.Disjoint b) := inferInstanceAs (Decidable (_ ∨ _))

theorem MemBlk.Disjoint.symm {a b : MemBlk} (h : a.Disjoint b) : b.Disjoint a := Apart.symm h

/-- A block lies inside another. -/
def MemBlk.Inside (a b : MemBlk) : Prop := b.ptr ≤ a.ptr ∧ a.ptr + a.size ≤ b.ptr + b.size

theorem MemBlk.Disjoint.mono {a b a' b' : MemBlk} (h : a.Disjoint b) (ha : a'.Inside a) (hb : b'.Inside b) :
    a'.Disjoint b' :=
  Apart.mono h ha.1 ha.2 hb.1 hb.2

/-- `struct stack_allocator` and `struct spinlock_stack_allocator`, without the lock of the latter. -/
structure StackAllocator where
  baseAddr : Nat
  entrySize : Nat
  numEntries : Nat
  freeStackTop : Nat
  freeStack : Nat → Nat

namespace StackAllocator

/-- The block of an entry: `((uint8_t*) base_addr) + entry_id * entry_size`, the product in 32 bits. -/
def block (sa : StackAllocator) (i : Nat) : MemBlk := ⟨sa.baseAddr + i * sa.entrySize % 2 ^ 32, sa.entrySize⟩

/-- `--free_stack_top`. -/
def pop (sa : StackAllocator) : StackAllocator := { sa with freeStackTop := sa.freeStackTop - 1 }

/-- `free_stack[free_stack_top++] = i`. -/
def push (sa : StackAllocator) (i : Nat) : StackAllocator :=
  { sa with
    freeStack := Function.update sa.freeStack sa.freeStackTop i
    freeStackTop := (sa.freeStackTop + 1) % 2 ^ 32 }

/-- `(blk->ptr - base_addr) / entry_size`: the difference is signed, and the quotient truncates. -/
def entryId (sa : StackAllocator) (ptr : Nat) : Int :=
  (Int.bmod ((ptr : Int) - sa.baseAddr) (2 ^ 64)).tdiv sa.entrySize

/-- The free indices, the one that is taken next last. -/
def free (sa : StackAllocator) : List Nat := stackList sa.freeStack sa.freeStackTop

end StackAllocator

def sizeMismatch (size entrySize : Nat) : String :=
  s!"Size of returned block ({size}) does not match stack element size ({entrySize})"

def outsideStack (entryId : Int) : String :=
  let shown := entryId % 2 ^ 64
  s!"Calculated entry id ({shown}) is outside of stack range"

/-- `stack_allocator_allocate`. -/
def stackAllocatorAllocate (sa : StackAllocator) (size : Nat) : MemBlk × StackAllocator :=
  if sa.freeStackTop = 0 ∨ size > sa.entrySize then (.null, sa)
  else (sa.block (sa.freeStack (sa.freeStackTop - 1)), sa.pop)

/-- The checks of `stack_allocator_deallocate`, and the index that it finds. -/
def stackAllocatorCheck (sa : StackAllocator) (blk : MemBlk) : Except String Nat :=
  if sa.entrySize ≠ blk.size then .error (sizeMismatch blk.size sa.entrySize)
  else
    let entryId := sa.entryId blk.ptr
    if entryId > sa.numEntries ∨ entryId < 0 then .error (outsideStack entryId)
    else .ok (entryId.toNat % 2 ^ 32)

/-- `stack_allocator_deallocate`. -/
def stackAllocatorDeallocate (sa : StackAllocator) (blk : MemBlk) : Except String StackAllocator :=
  (stackAllocatorCheck sa blk).map sa.push

/-- `stack_allocator_owns`. -/
def stackAllocatorOwns (sa : StackAllocator) (blk : MemBlk) : Bool :=
  sa.baseAddr ≤ blk.ptr && blk.ptr < sa.baseAddr + sa.numEntries * sa.entrySize % 2 ^ 32

/-- The default of `entry_size`. -/
def stackEntrySize (entrySize : Nat) : Nat := if entrySize = 0 then 2048 else entrySize

/-- What `stack_allocator_new` asks its parent for. -/
def stackRequest (numEntries entrySize : Nat) : Nat := numEntries * stackEntrySize entrySize % 2 ^ 32

/-- The rest of `stack_allocator_new`, once the parent has given `mem`. -/
def stackAllocatorNew (numEntries entrySize : Nat) (mem : MemBlk) : Option StackAllocator :=
  if mem.ptr = 0 then none
  else some
    { baseAddr := mem.ptr
      entrySize := stackEntrySize entrySize
      numEntries := numEntries
      freeStackTop := numEntries
      freeStack := fun i => if i < numEntries then i else 0 }

/-! ## Addresses -/

/-- An allocator whose products do not wrap. -/
structure StackAllocator.Sized (sa : StackAllocator) : Prop where
  base_ne : sa.baseAddr ≠ 0
  size_pos : 0 < sa.entrySize
  bytes_lt : sa.numEntries * sa.entrySize < 2 ^ 32

/-- The memory of an allocator. -/
def StackAllocator.region (sa : StackAllocator) : MemBlk := ⟨sa.baseAddr, sa.numEntries * sa.entrySize⟩

namespace StackAllocator.Sized

variable {sa : StackAllocator} {i j : Nat}

theorem num_lt (h : sa.Sized) : sa.numEntries < 2 ^ 32 :=
  Nat.lt_of_le_of_lt (Nat.le_mul_of_pos_right _ h.size_pos) h.bytes_lt

theorem block_eq (h : sa.Sized) (hi : i < sa.numEntries) :
    sa.block i = ⟨sa.baseAddr + i * sa.entrySize, sa.entrySize⟩ := by
  have hmul := mul_add_le sa.entrySize hi
  have hlt := h.bytes_lt
  rw [block, Nat.mod_eq_of_lt (by omega)]

theorem block_ptr_ne (h : sa.Sized) (i : Nat) : (sa.block i).ptr ≠ 0 := by
  have hne := h.base_ne
  change sa.baseAddr + _ ≠ 0
  omega

theorem block_inside (h : sa.Sized) (hi : i < sa.numEntries) : (sa.block i).Inside sa.region := by
  have hmul := mul_add_le sa.entrySize hi
  rw [h.block_eq hi]
  constructor
  · exact Nat.le_add_right _ _
  · change sa.baseAddr + i * sa.entrySize + sa.entrySize ≤ sa.baseAddr + sa.numEntries * sa.entrySize
    omega

theorem block_disjoint (h : sa.Sized) (hi : i < sa.numEntries) (hj : j < sa.numEntries) (hij : i ≠ j) :
    (sa.block i).Disjoint (sa.block j) := by
  rw [h.block_eq hi, h.block_eq hj]
  rcases Nat.lt_or_gt_of_ne hij with hlt | hlt
  · have hle := mul_add_le sa.entrySize hlt
    refine Or.inl ?_
    dsimp only
    omega
  · have hle := mul_add_le sa.entrySize hlt
    refine Or.inr ?_
    dsimp only
    omega

theorem block_inj (h : sa.Sized) (hi : i < sa.numEntries) (hj : j < sa.numEntries)
    (he : sa.block i = sa.block j) : i = j := by
  rw [h.block_eq hi, h.block_eq hj, MemBlk.mk.injEq] at he
  exact Nat.eq_of_mul_eq_mul_right h.size_pos (Nat.add_left_cancel he.1)

theorem owns_block (h : sa.Sized) (hi : i < sa.numEntries) : stackAllocatorOwns sa (sa.block i) = true := by
  have hmul := mul_add_le sa.entrySize hi
  have hpos := h.size_pos
  rw [h.block_eq hi, stackAllocatorOwns, Nat.mod_eq_of_lt h.bytes_lt]
  simp only [Bool.and_eq_true, decide_eq_true_eq]
  omega

/-- Dividing by the entry size inverts multiplying with it. -/
theorem entryId_block (h : sa.Sized) (hi : i < sa.numEntries) : sa.entryId (sa.block i).ptr = i := by
  have hmul := mul_add_le sa.entrySize hi
  have hlt := h.bytes_lt
  have hpos := h.size_pos
  have hdiff : ((sa.baseAddr + i * sa.entrySize : Nat) : Int) - sa.baseAddr = (i * sa.entrySize : Nat) := by
    push_cast
    ring
  rw [h.block_eq hi, entryId, hdiff, Int.bmod_eq_of_le (by omega) (by omega), Int.tdiv_eq_ediv_of_nonneg (by omega)]
  push_cast
  exact Int.mul_ediv_cancel _ (by omega)

theorem check_block (h : sa.Sized) (hi : i < sa.numEntries) : stackAllocatorCheck sa (sa.block i) = .ok i := by
  have hnum := h.num_lt
  have hid := h.entryId_block hi
  rw [stackAllocatorCheck, if_neg (by simp [block])]
  dsimp only
  rw [hid, if_neg (by omega), Int.toNat_natCast, Nat.mod_eq_of_lt (by omega)]

theorem deallocate_block (h : sa.Sized) (hi : i < sa.numEntries) :
    stackAllocatorDeallocate sa (sa.block i) = .ok (sa.push i) := by
  rw [stackAllocatorDeallocate, h.check_block hi]
  rfl

end StackAllocator.Sized

/-! ## The free stack -/

section
variable {sa : StackAllocator} {size i : Nat}

@[simp] theorem StackAllocator.free_length (sa : StackAllocator) : sa.free.length = sa.freeStackTop :=
  stackList_length _ _

theorem StackAllocator.free_pop (h : sa.freeStackTop ≠ 0) :
    sa.free = sa.pop.free ++ [sa.freeStack (sa.freeStackTop - 1)] := by
  obtain ⟨n, hn⟩ := Nat.exists_eq_succ_of_ne_zero h
  rw [free, free, pop, hn]
  exact stackList_succ _ _

theorem StackAllocator.free_push (h : sa.freeStackTop + 1 < 2 ^ 32) (i : Nat) :
    (sa.push i).free = sa.free ++ [i] := by
  rw [free, push, Nat.mod_eq_of_lt h]
  exact stackList_push _ _ _

theorem stackAllocatorAllocate_refused (h : sa.freeStackTop = 0 ∨ size > sa.entrySize) :
    stackAllocatorAllocate sa size = (.null, sa) := if_pos h

theorem stackAllocatorAllocate_served (h : sa.freeStackTop ≠ 0) (hsize : size ≤ sa.entrySize) :
    stackAllocatorAllocate sa size = (sa.block (sa.freeStack (sa.freeStackTop - 1)), sa.pop) :=
  if_neg (by omega)

theorem StackAllocator.push_pop (h : sa.freeStackTop ≠ 0) (hlt : sa.freeStackTop < 2 ^ 32) :
    sa.pop.push (sa.freeStack (sa.freeStackTop - 1)) = sa := by
  obtain ⟨n, hn⟩ := Nat.exists_eq_succ_of_ne_zero h
  obtain ⟨base, entrySize, num, top, stack⟩ := sa
  subst hn
  simp only [pop, push, Nat.succ_eq_add_one, Nat.add_sub_cancel, Function.update_eq_self]
  rw [Nat.mod_eq_of_lt hlt]

theorem stackAllocatorAllocate_push (h : sa.freeStackTop + 1 < 2 ^ 32) (hsize : size ≤ sa.entrySize) :
    (stackAllocatorAllocate (sa.push i) size).1 = sa.block i := by
  have htop : (sa.push i).freeStackTop = sa.freeStackTop + 1 := Nat.mod_eq_of_lt h
  have hne : (sa.push i).freeStackTop ≠ 0 := by omega
  rw [stackAllocatorAllocate_served hne hsize, htop, Nat.add_sub_cancel]
  simp only [StackAllocator.push, Function.update_self]
  rfl

end

/-! ## The invariant -/

/-- The free indices and those of the blocks in `out` split the indices of the allocator. -/
structure StackAllocator.Ok (sa : StackAllocator) (out : List MemBlk) : Prop where
  sized : sa.Sized
  split : Partition sa.numEntries sa.free fun i => sa.block i ∈ out

namespace StackAllocator.Ok

variable {sa : StackAllocator} {out out' : List MemBlk} {size i : Nat}

theorem top_le (h : sa.Ok out) : sa.freeStackTop ≤ sa.numEntries := by
  have hle := h.split.length_le
  rwa [free_length] at hle

theorem top_lt (h : sa.Ok out) (hi : i < sa.numEntries) (hout : sa.block i ∈ out) :
    sa.freeStackTop + 1 < 2 ^ 32 := by
  have hlt := h.split.length_lt hi hout
  have hnum := h.sized.num_lt
  rw [free_length] at hlt
  omega

theorem congr (h : sa.Ok out) (hout : ∀ i < sa.numEntries, (sa.block i ∈ out ↔ sa.block i ∈ out')) : sa.Ok out' :=
  ⟨h.sized, h.split.congr hout⟩

theorem served (h : sa.Ok out) (htop : sa.freeStackTop ≠ 0) :
    sa.freeStack (sa.freeStackTop - 1) < sa.numEntries ∧
      sa.block (sa.freeStack (sa.freeStackTop - 1)) ∉ out ∧
      sa.pop.Ok (sa.block (sa.freeStack (sa.freeStackTop - 1)) :: out) := by
  have hsplit := h.split
  rw [free_pop htop] at hsplit
  obtain ⟨hlt, hnot, hpop⟩ := hsplit.pop
  refine ⟨hlt, hnot, ⟨h.sized.base_ne, h.sized.size_pos, h.sized.bytes_lt⟩, hpop.congr fun j hj => ?_⟩
  rw [List.mem_cons]
  refine or_congr_left ⟨fun he => ?_, fun he => h.sized.block_inj hj hlt he⟩
  rw [he]
  rfl

theorem returned (h : sa.Ok out) (hi : i < sa.numEntries) (hout : sa.block i ∈ out) (hnodup : out.Nodup) :
    (sa.push i).Ok (out.erase (sa.block i)) := by
  refine ⟨⟨h.sized.base_ne, h.sized.size_pos, h.sized.bytes_lt⟩, ?_⟩
  rw [free_push (h.top_lt hi hout)]
  refine (h.split.push hi hout).congr fun j hj => ?_
  change _ ↔ sa.block j ∈ out.erase (sa.block i)
  rw [hnodup.mem_erase_iff]
  refine and_congr_left fun _ => not_congr ⟨fun he => ?_, fun he => h.sized.block_inj hj hi he⟩
  rw [he]

end StackAllocator.Ok

/-! ## Runs -/

/-- An allocator in use. -/
structure Slab where
  sa : StackAllocator
  /-- History: the blocks that were handed out and have not come back. -/
  out : List MemBlk
  aborted : Option String

inductive SlabCall where
  | allocate (size : Nat)
  | deallocate (blk : MemBlk)

/-- One call. Only outstanding blocks are given back, and an aborted process makes no more calls. -/
def Slab.step (s : Slab) : SlabCall → Option Slab
  | .allocate size =>
    if s.aborted.isSome then none
    else
      let (blk, sa) := stackAllocatorAllocate s.sa size
      some { s with sa := sa, out := if blk.ptr = 0 then s.out else blk :: s.out }
  | .deallocate blk =>
    if s.aborted.isSome ∨ blk ∉ s.out then none
    else match stackAllocatorDeallocate s.sa blk with
      | .ok sa => some { s with sa := sa, out := s.out.erase blk }
      | .error msg => some { s with aborted := some msg }

/-- The invariant of the runs, for an allocator made in `mem`. -/
structure Slab.Ok (mem : MemBlk) (numEntries entrySize : Nat) (s : Slab) : Prop where
  ok : s.sa.Ok s.out
  num : s.sa.numEntries = numEntries
  size : s.sa.entrySize = entrySize
  inside : s.sa.region.Inside mem
  owned : ∀ blk ∈ s.out, ∃ i < s.sa.numEntries, blk = s.sa.block i
  nodup : s.out.Nodup
  running : s.aborted = none

section
variable {mem : MemBlk} {numEntries entrySize : Nat} {s s' : Slab}

theorem Slab.Ok.step {c : SlabCall} (h : s.Ok mem numEntries entrySize) (hstep : s.step c = some s') :
    s'.Ok mem numEntries entrySize := by
  cases c with
  | allocate size =>
    simp only [Slab.step, h.running, Option.isSome_none, Bool.false_eq_true, if_false] at hstep
    by_cases hserve : s.sa.freeStackTop = 0 ∨ size > s.sa.entrySize
    · rw [stackAllocatorAllocate_refused hserve] at hstep
      cases hstep
      exact ⟨h.ok, h.num, h.size, h.inside, h.owned, h.nodup, rfl⟩
    · have htop : s.sa.freeStackTop ≠ 0 := by omega
      rw [stackAllocatorAllocate_served htop (by omega)] at hstep
      simp only [h.ok.sized.block_ptr_ne, if_false] at hstep
      cases hstep
      obtain ⟨hlt, hnot, hok⟩ := h.ok.served htop
      refine ⟨hok, h.num, h.size, h.inside, fun blk hblk => ?_, List.nodup_cons.mpr ⟨hnot, h.nodup⟩, rfl⟩
      rcases List.mem_cons.mp hblk with rfl | hblk
      · exact ⟨_, hlt, rfl⟩
      · exact h.owned blk hblk
  | deallocate blk =>
    simp only [Slab.step, h.running, Option.isSome_none, Bool.false_eq_true, false_or] at hstep
    split at hstep
    · cases hstep
    · rename_i hmem
      rw [not_not] at hmem
      obtain ⟨i, hi, rfl⟩ := h.owned blk hmem
      rw [h.ok.sized.deallocate_block hi] at hstep
      cases hstep
      exact ⟨h.ok.returned hi hmem h.nodup, h.num, h.size, h.inside,
        fun blk hblk => h.owned blk (List.mem_of_mem_erase hblk), h.nodup.erase _, rfl⟩

theorem stackAllocatorNew_eq {sa : StackAllocator} (hnew : stackAllocatorNew numEntries entrySize mem = some sa) :
    mem.ptr ≠ 0 ∧ sa = ⟨mem.ptr, stackEntrySize entrySize, numEntries, numEntries,
      fun i => if i < numEntries then i else 0⟩ := by
  unfold stackAllocatorNew at hnew
  split at hnew
  · cases hnew
  · rename_i hptr
    exact ⟨hptr, (Option.some.inj hnew).symm⟩

theorem stackEntrySize_pos (entrySize : Nat) : 0 < stackEntrySize entrySize := by
  unfold stackEntrySize
  split <;> omega

theorem stackAllocatorNew_sized {sa : StackAllocator} (hbytes : numEntries * stackEntrySize entrySize < 2 ^ 32)
    (hnew : stackAllocatorNew numEntries entrySize mem = some sa) : sa.Sized := by
  obtain ⟨hptr, rfl⟩ := stackAllocatorNew_eq hnew
  exact ⟨hptr, stackEntrySize_pos entrySize, hbytes⟩

theorem stackAllocatorNew_free {sa : StackAllocator} (hnew : stackAllocatorNew numEntries entrySize mem = some sa) :
    sa.free = List.range sa.numEntries := by
  obtain ⟨-, rfl⟩ := stackAllocatorNew_eq hnew
  refine (List.map_congr_left fun i hi => ?_).trans (List.map_id _)
  exact if_pos (List.mem_range.mp hi)

theorem stackAllocatorNew_ok {sa : StackAllocator} (hbytes : numEntries * stackEntrySize entrySize < 2 ^ 32)
    (hmem : numEntries * stackEntrySize entrySize ≤ mem.size)
    (hnew : stackAllocatorNew numEntries entrySize mem = some sa) :
    Slab.Ok mem numEntries (stackEntrySize entrySize) ⟨sa, [], none⟩ := by
  have hsized := stackAllocatorNew_sized hbytes hnew
  have hfree := stackAllocatorNew_free hnew
  obtain ⟨-, rfl⟩ := stackAllocatorNew_eq hnew
  refine ⟨⟨hsized, ?_⟩, rfl, rfl, ⟨le_refl _, ?_⟩, ?_, List.nodup_nil, rfl⟩
  · rw [hfree]
    exact (Partition.init numEntries).congr fun i _ => by simp
  · change mem.ptr + numEntries * stackEntrySize entrySize ≤ _
    omega
  · intro blk hblk
    cases hblk

/-- Nothing is left exactly if every entry is outstanding. -/
theorem Slab.Ok.top_eq_zero_iff (h : s.Ok mem numEntries entrySize) :
    s.sa.freeStackTop = 0 ↔ s.out.length = numEntries := by
  have hperm : (((List.range s.sa.numEntries).filter fun i => s.sa.block i ∈ s.out).map s.sa.block).Perm
      s.out := by
    refine (List.perm_ext_iff_of_nodup ?_ h.nodup).mpr fun blk => ?_
    · refine List.Nodup.map_on (fun i hi j hj he => ?_) (List.nodup_range.filter _)
      rw [List.mem_filter, List.mem_range] at hi hj
      exact h.ok.sized.block_inj hi.1 hj.1 he
    · simp only [List.mem_map, List.mem_filter, List.mem_range, decide_eq_true_eq]
      constructor
      · rintro ⟨i, ⟨-, hi⟩, rfl⟩
        exact hi
      · intro hblk
        obtain ⟨i, hi, rfl⟩ := h.owned blk hblk
        exact ⟨i, ⟨hi, hblk⟩, rfl⟩
  rw [← s.sa.free_length, h.ok.split.length_eq_zero_iff, ← hperm.length_eq, List.length_map, h.num]

/-- An exact LIFO slab of entries in `mem`. Its abstract state is the list of free indices; allocating takes the
last one, and giving a block back puts its index there. -/
structure LifoSlab (mem : MemBlk) (numEntries entrySize : Nat) (s : Slab) : Prop where
  running : s.aborted = none
  distinct : s.sa.free.Nodup ∧ ∀ i ∈ s.sa.free, i < numEntries
  refused : ∀ size, size > entrySize ∨ s.out.length = numEntries →
    stackAllocatorAllocate s.sa size = (.null, s.sa)
  served : ∀ size, ¬ (size > entrySize ∨ s.out.length = numEntries) → ∃ i sa,
    stackAllocatorAllocate s.sa size = (s.sa.block i, sa) ∧ s.sa.free = sa.free ++ [i] ∧
    (s.sa.block i).ptr ≠ 0 ∧ (s.sa.block i).size = entrySize ∧ (s.sa.block i).Inside mem ∧
    (∀ blk ∈ s.out, (s.sa.block i).Disjoint blk) ∧ stackAllocatorOwns s.sa (s.sa.block i) = true ∧
    stackAllocatorDeallocate sa (s.sa.block i) = .ok s.sa
  returned : ∀ blk ∈ s.out, ∃ i sa, blk = s.sa.block i ∧ s.sa.entryId blk.ptr = i ∧
    stackAllocatorDeallocate s.sa blk = .ok sa ∧ sa.free = s.sa.free ++ [i] ∧
    ∀ size ≤ entrySize, (stackAllocatorAllocate sa size).1 = blk

theorem Slab.Ok.lifo (h : s.Ok mem numEntries entrySize) : LifoSlab mem numEntries entrySize s where
  running := h.running
  distinct := ⟨h.ok.split.nodup, fun i hi => h.num ▸ h.ok.split.lt_of_mem hi⟩
  refused size hsize := by
    rw [← h.top_eq_zero_iff, ← h.size] at hsize
    exact stackAllocatorAllocate_refused hsize.symm
  served size hsize := by
    rw [← h.top_eq_zero_iff, ← h.size] at hsize
    have htop : s.sa.freeStackTop ≠ 0 := by omega
    obtain ⟨hlt, hnot, hok⟩ := h.ok.served htop
    refine ⟨_, _, stackAllocatorAllocate_served htop (by omega), s.sa.free_pop htop,
      h.ok.sized.block_ptr_ne _, h.size, ?_, fun blk hblk => ?_, h.ok.sized.owns_block hlt, ?_⟩
    · have hin := h.ok.sized.block_inside hlt
      exact ⟨Nat.le_trans h.inside.1 hin.1, Nat.le_trans hin.2 h.inside.2⟩
    · obtain ⟨j, hj, rfl⟩ := h.owned blk hblk
      refine h.ok.sized.block_disjoint hlt hj fun he => hnot ?_
      rw [he]
      exact hblk
    · have hnum := h.ok.sized.num_lt
      have hle := h.ok.top_le
      refine (hok.sized.deallocate_block hlt).trans ?_
      rw [s.sa.push_pop htop (by omega)]
  returned blk hblk := by
    obtain ⟨i, hi, rfl⟩ := h.owned blk hblk
    have htop := h.ok.top_lt hi hblk
    refine ⟨i, s.sa.push i, rfl, h.ok.sized.entryId_block hi, h.ok.sized.deallocate_block hi,
      s.sa.free_push htop i, fun size hsize => ?_⟩
    exact stackAllocatorAllocate_push htop (by rw [h.size]; exact hsize)

/-- **Main result.** After any run of calls, a stack allocator is an exact LIFO slab. -/
theorem stackAllocator_lifo {sa : StackAllocator} (cs : List SlabCall)
    (hbytes : numEntries * stackEntrySize entrySize < 2 ^ 32)
    (hmem : numEntries * stackEntrySize entrySize ≤ mem.size)
    (hnew : stackAllocatorNew numEntries entrySize mem = some sa)
    (hrun : runs Slab.step ⟨sa, [], none⟩ cs = some s) :
    LifoSlab mem numEntries (stackEntrySize entrySize) s := by
  have hok : s.Ok mem numEntries (stackEntrySize entrySize) :=
    runs_inv (C := fun _ _ => True) (fun s c s' h _ hstep => h.step hstep)
      (stackAllocatorNew_ok hbytes hmem hnew) hrun fun _ _ _ _ _ => trivial
  exact hok.lifo

theorem stackAllocator_lifo_pair :
    ∃ sa s, stackAllocatorNew 2 0 ⟨0x1000, 4096⟩ = some sa ∧
      runs Slab.step ⟨sa, [], none⟩ [.allocate 64, .allocate 2048, .deallocate ⟨0x1800, 2048⟩] = some s ∧
      s.out = [⟨0x1000, 2048⟩] ∧ LifoSlab ⟨0x1000, 4096⟩ 2 (stackEntrySize 0) s :=
  ⟨_, _, rfl, rfl, rfl, stackAllocator_lifo [.allocate 64, .allocate 2048, .deallocate ⟨0x1800, 2048⟩]
    (by decide) (by decide) rfl rfl⟩

end

end Ixy
