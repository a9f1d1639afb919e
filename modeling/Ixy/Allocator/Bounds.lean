import Ixy.Allocator.Spinlock

/-!
# The bounds of the stack allocators

The region of an allocator has `num_entries * entry_size` bytes, and this product is computed in 32 bits wherever
it is needed. `slabSound_iff`: the blocks of a new allocator are sound exactly if it does not wrap.

If it does not, there are still two tests for whether an address belongs to the region: `owns` compares addresses,
`deallocate` a quotient that is signed and truncates. `accepts_iff_owns`: they agree except within one entry of
either end (`StackAllocator.AtEnds`).

Both kinds of allocator are covered. An undisturbed call of the spinlock allocator does what the plain one does
(`evals_spinCall`).
-/

namespace Ixy

open Lib

/-! ## Calls of one thread -/

def spinCall (a : StackAllocator) (t : Nat) : SlabCall → SpinCode SlabResult
  | .allocate size => do
    let blk ← spinlockAllocate a t size
    return .block blk
  | .deallocate blk => do
    spinlockDeallocate a t blk
    return .freed

/-- A thread that makes calls one after the other, with whatever blocks it likes. -/
def spinCalls (a : StackAllocator) (t : Nat) : List SlabCall → SpinCode (List SlabResult)
  | [] => return []
  | c :: cs => do
    let r ← spinCall a t c
    Prog.access (SpinOp.ret t r)
    let rs ← spinCalls a t cs
    return r :: rs

/-- Nobody has the lock. -/
structure Spin.Idle (a : StackAllocator) (s : Spin) : Prop where
  lock : s.core.lock = 0
  shape : s.core.sa.baseAddr = a.baseAddr ∧ s.core.sa.entrySize = a.entrySize ∧
    s.core.sa.numEntries = a.numEntries

section
variable {a : StackAllocator} {t size : Nat} {s : Spin} {blk : MemBlk}

theorem evals_rteSpinlockLock (hlock : s.core.lock = 0) (t : Nat) (c : SlabCall) (moved : Option Nat) :
    Prog.Evals execSpin (rteSpinlockLock t c moved) s (.done () (s.enter t c moved)) := by
  refine .loop_exit (b := ()) (u := s.enter t c moved) ?_ (.ret _ _)
  refine .op (r := 0) (u := s.enter t c moved) ?_ (.ret _ _)
  simp only [execSpin, hlock, if_true]

theorem stackAllocatorCheck_congr {sa : StackAllocator}
    (h : sa.baseAddr = a.baseAddr ∧ sa.entrySize = a.entrySize ∧ sa.numEntries = a.numEntries) (blk : MemBlk) :
    stackAllocatorCheck sa blk = stackAllocatorCheck a blk := by
  obtain ⟨base, entrySize, num, top, stack⟩ := sa
  obtain ⟨rfl, rfl, rfl⟩ := h
  rfl

theorem evals_spinlockAllocate (h : s.Idle a) (t size : Nat) :
    ∃ s', Prog.Evals execSpin (spinlockAllocate a t size) s (.done (stackAllocatorAllocate s.core.sa size).1 s') ∧
      s'.core.lock = 0 ∧ s'.core.sa = (stackAllocatorAllocate s.core.sa size).2 := by
  have hlock := evals_rteSpinlockLock h.lock t (.allocate size) none
  by_cases hrefuse : s.core.sa.freeStackTop = 0 ∨ size > s.core.sa.entrySize
  · rw [stackAllocatorAllocate_refused hrefuse]
    refine ⟨(s.enter t (.allocate size) none).leave t (.block .null), hlock.bind (.op rfl ?_), rfl, rfl⟩
    rw [h.shape.2.1] at hrefuse
    change Prog.Evals _ (if s.core.sa.freeStackTop = 0 ∨ size > a.entrySize then _ else _) _ _
    rw [if_pos hrefuse]
    exact .op rfl (.ret _ _)
  · rw [stackAllocatorAllocate_served (by omega) (by omega), StackAllocator.block_congr h.shape]
    refine ⟨((s.enter t (.allocate size) none).setTop (s.core.sa.freeStackTop - 1)).leave t
      (.block (a.block (s.core.sa.freeStack (s.core.sa.freeStackTop - 1)))), hlock.bind (.op rfl ?_), rfl, rfl⟩
    rw [h.shape.2.1] at hrefuse
    change Prog.Evals _ (if s.core.sa.freeStackTop = 0 ∨ size > a.entrySize then _ else _) _ _
    rw [if_neg hrefuse]
    exact .op rfl (.op rfl (.op rfl (.op rfl (.ret _ _))))

theorem evals_spinlockDeallocate (h : s.Idle a) (t : Nat) {sa : StackAllocator}
    (hok : stackAllocatorDeallocate s.core.sa blk = .ok sa) :
    ∃ s', Prog.Evals execSpin (spinlockDeallocate a t blk) s (.done () s') ∧ s'.core.lock = 0 ∧ s'.core.sa = sa := by
  unfold spinlockDeallocate
  rw [stackAllocatorDeallocate, stackAllocatorCheck_congr h.shape] at hok
  cases hcheck : stackAllocatorCheck a blk with
  | error msg =>
    rw [hcheck] at hok
    cases hok
  | ok i =>
    rw [hcheck] at hok
    cases hok
    have hlock := evals_rteSpinlockLock h.lock t (.deallocate blk) (some i)
    refine ⟨(((s.enter t (.deallocate blk) (some i)).setTop ((s.core.sa.freeStackTop + 1) % 2 ^ 32)).setSlot
      s.core.sa.freeStackTop i).leave t .freed, hlock.bind ?_, rfl, rfl⟩
    exact .op rfl (.op rfl (.op rfl (.op rfl (.ret _ _))))

theorem evals_spinCall (h : s.Idle a) (t : Nat) (c : SlabCall)
    (hok : ∀ msg, (seqCall s.core.sa c).1 ≠ .aborted msg) :
    ∃ s', Prog.Evals execSpin (spinCall a t c) s (.done (seqCall s.core.sa c).1 s') ∧ s'.core.lock = 0 ∧
      s'.core.sa = (seqCall s.core.sa c).2 := by
  cases c with
  | allocate size =>
    obtain ⟨s', heval, hlock, hsa⟩ := evals_spinlockAllocate h t size
    exact ⟨s', heval.bind (.ret _ _), hlock, hsa⟩
  | deallocate blk =>
    cases hres : stackAllocatorDeallocate s.core.sa blk with
    | error msg =>
      rw [seqCall, hres] at hok
      exact absurd rfl (hok msg)
    | ok sa =>
      obtain ⟨s', heval, hlock, hsa⟩ := evals_spinlockDeallocate h t hres
      rw [seqCall, hres]
      exact ⟨s', heval.bind (.ret _ _), hlock, hsa⟩

theorem seqCall_shape (sa : StackAllocator) (c : SlabCall) :
    (seqCall sa c).2.baseAddr = sa.baseAddr ∧ (seqCall sa c).2.entrySize = sa.entrySize ∧
      (seqCall sa c).2.numEntries = sa.numEntries := by
  cases c with
  | allocate size =>
    simp only [seqCall, stackAllocatorAllocate]
    split
    · exact ⟨rfl, rfl, rfl⟩
    · exact ⟨rfl, rfl, rfl⟩
  | deallocate blk =>
    rw [seqCall, stackAllocatorDeallocate]
    cases stackAllocatorCheck sa blk with
    | error msg => exact ⟨rfl, rfl, rfl⟩
    | ok i => exact ⟨rfl, rfl, rfl⟩

theorem evals_spinCalls (t : Nat) (cs : List SlabCall) (h : s.Idle a)
    (hok : ∀ r ∈ (replay s.core.sa cs).1, ∀ msg, r ≠ .aborted msg) :
    ∃ s', Prog.Evals execSpin (spinCalls a t cs) s (.done (replay s.core.sa cs).1 s') ∧
      s'.core.sa = (replay s.core.sa cs).2 := by
  induction cs generalizing s with
  | nil => exact ⟨s, .ret _ _, rfl⟩
  | cons c cs ih =>
    obtain ⟨s₁, hcall, hlock, hsa⟩ := evals_spinCall h t c (hok _ List.mem_cons_self)
    have hshape : s₁.core.sa.baseAddr = a.baseAddr ∧ s₁.core.sa.entrySize = a.entrySize ∧
        s₁.core.sa.numEntries = a.numEntries := by
      have hc := seqCall_shape s.core.sa c
      rw [hsa, hc.1, hc.2.1, hc.2.2]
      exact h.shape
    have hsa' : (s₁.finish t (seqCall s.core.sa c).1).core.sa = (seqCall s.core.sa c).2 := hsa
    obtain ⟨s₂, hcalls, hend⟩ := ih (s := s₁.finish t (seqCall s.core.sa c).1) ⟨hlock, hshape⟩ (by
      rw [hsa']
      exact fun r hr => hok r (List.mem_cons_of_mem _ hr))
    rw [hsa'] at hcalls hend
    exact ⟨s₂, hcall.bind (.op rfl (hcalls.bind (.ret _ _))), hend⟩

end

/-! ## The blocks of a new allocator -/

inductive SlabKind where
  | stack
  | spinlockStack
  deriving DecidableEq, Repr

/-- The calls `cs`, one after the other on a new allocator, return `rs`. -/
def SlabKind.Returns (a : StackAllocator) (cs : List SlabCall) (rs : List SlabResult) : SlabKind → Prop
  | .stack => (replay a cs).1 = rs
  | .spinlockStack => ∃ s, Prog.Evals execSpin (spinCalls a 0 cs) (spinBoot a fun _ => []) (.done rs s)

/-- Blocks that are apart, in the memory of the parent, and known to be the allocator's. -/
structure BlocksSound (mem : MemBlk) (a : StackAllocator) (blks : List MemBlk) : Prop where
  disjoint : blks.Pairwise MemBlk.Disjoint
  inside : ∀ blk ∈ blks, blk.Inside mem
  owned : ∀ blk ∈ blks, stackAllocatorOwns a blk = true

/-- Whatever the parent gives, `numEntries` calls of `allocate` return sound blocks. -/
def SlabSound (numEntries entrySize : Nat) : Prop :=
  ∀ (kind : SlabKind) (mem : MemBlk) (a : StackAllocator) (sizes : List Nat),
    stackRequest numEntries entrySize ≤ mem.size → stackAllocatorNew numEntries entrySize mem = some a →
    sizes.length = numEntries → (∀ size ∈ sizes, size ≤ stackEntrySize entrySize) →
    ∃ blks : List MemBlk, kind.Returns a (sizes.map .allocate) (blks.map .block) ∧ blks.length = numEntries ∧
      BlocksSound mem a blks

section
variable {numEntries entrySize : Nat} {mem : MemBlk} {a : StackAllocator}

theorem replay_allocates {sa : StackAllocator} {sizes : List Nat} (hlen : sizes.length ≤ sa.freeStackTop)
    (hsizes : ∀ size ∈ sizes, size ≤ sa.entrySize) :
    (replay sa (sizes.map .allocate)).1 = ((List.range sizes.length).map fun k =>
      sa.block (sa.freeStack (sa.freeStackTop - 1 - k))).map .block := by
  induction sizes generalizing sa with
  | nil => rfl
  | cons size sizes ih =>
    have htop : sa.freeStackTop ≠ 0 := by
      rw [List.length_cons] at hlen
      omega
    have hserved := stackAllocatorAllocate_served htop (hsizes size List.mem_cons_self)
    have hrest : (replay sa.pop (sizes.map .allocate)).1 = _ := ih (by
      change sizes.length ≤ sa.freeStackTop - 1
      rw [List.length_cons] at hlen
      omega) fun size hsize => hsizes size (List.mem_cons_of_mem _ hsize)
    rw [List.map_cons, replay, seqCall, hserved, hrest, List.length_cons, List.range_succ_eq_map, List.map_cons,
      List.map_cons, List.map_map, List.map_map, List.map_map]
    refine congrArg _ (List.map_congr_left fun k _ => ?_)
    have hk : sa.freeStackTop - 1 - 1 - k = sa.freeStackTop - 1 - (k + 1) := by omega
    change SlabResult.block (sa.block (sa.freeStack (sa.freeStackTop - 1 - 1 - k))) = _
    rw [hk]
    rfl

theorem stackAllocatorNew_allocates {sizes : List Nat} (hnew : stackAllocatorNew numEntries entrySize mem = some a)
    (hlen : sizes.length = numEntries) (hsizes : ∀ size ∈ sizes, size ≤ stackEntrySize entrySize) :
    (replay a (sizes.map .allocate)).1 =
      ((List.range numEntries).map fun k => a.block (numEntries - 1 - k)).map .block := by
  obtain ⟨-, rfl⟩ := stackAllocatorNew_eq hnew
  rw [replay_allocates hlen.le hsizes, hlen]
  refine congrArg _ (List.map_congr_left fun k hk => ?_)
  have hlt := List.mem_range.mp hk
  dsimp only
  rw [if_pos (by omega)]

theorem stackAllocatorNew_returns {sizes : List Nat} (hnew : stackAllocatorNew numEntries entrySize mem = some a)
    (hlen : sizes.length = numEntries) (hsizes : ∀ size ∈ sizes, size ≤ stackEntrySize entrySize)
    (kind : SlabKind) :
    kind.Returns a (sizes.map .allocate)
      (((List.range numEntries).map fun k => a.block (numEntries - 1 - k)).map .block) := by
  have hreplay := stackAllocatorNew_allocates hnew hlen hsizes
  cases kind with
  | stack => exact hreplay
  | spinlockStack =>
    obtain ⟨s, heval, -⟩ := evals_spinCalls (a := a) (s := spinBoot a fun _ => []) 0 (sizes.map .allocate)
      ⟨rfl, rfl, rfl, rfl⟩ (by
        intro r hr msg
        change r ∈ (replay a _).1 at hr
        rw [hreplay] at hr
        obtain ⟨blk, -, rfl⟩ := List.mem_map.mp hr
        nofun)
    change Prog.Evals _ _ _ (.done (replay a _).1 s) at heval
    rw [hreplay] at heval
    exact ⟨s, heval⟩

theorem blocksSound_of_lt (hbytes : numEntries * stackEntrySize entrySize < 2 ^ 32)
    (hmem : stackRequest numEntries entrySize ≤ mem.size)
    (hnew : stackAllocatorNew numEntries entrySize mem = some a) :
    BlocksSound mem a ((List.range numEntries).map fun k => a.block (numEntries - 1 - k)) := by
  have hsized := stackAllocatorNew_sized hbytes hnew
  obtain ⟨-, rfl⟩ := stackAllocatorNew_eq hnew
  rw [stackRequest, Nat.mod_eq_of_lt hbytes] at hmem
  refine ⟨?_, fun blk hblk => ?_, fun blk hblk => ?_⟩
  · refine List.pairwise_map.mpr (List.pairwise_lt_range.imp_of_mem fun {i j} hi hj hlt => ?_)
    rw [List.mem_range] at hi hj
    have hi' : numEntries - 1 - i < numEntries := by omega
    have hj' : numEntries - 1 - j < numEntries := by omega
    exact hsized.block_disjoint hi' hj' (by omega)
  · obtain ⟨k, hk, rfl⟩ := List.mem_map.mp hblk
    have hk' : numEntries - 1 - k < numEntries := by
      have := List.mem_range.mp hk
      omega
    have hin := hsized.block_inside hk'
    refine ⟨hin.1, Nat.le_trans hin.2 ?_⟩
    exact Nat.add_le_add_left hmem _
  · obtain ⟨k, hk, rfl⟩ := List.mem_map.mp hblk
    have hk' : numEntries - 1 - k < numEntries := by
      have := List.mem_range.mp hk
      omega
    exact hsized.owns_block hk'

/-- If the product wraps, the last entry below 4 GiB already ends behind the region. -/
theorem block_outside (hwrap : 2 ^ 32 ≤ numEntries * stackEntrySize entrySize)
    (hmem : mem.size = stackRequest numEntries entrySize)
    (hnew : stackAllocatorNew numEntries entrySize mem = some a) :
    ∃ j < numEntries, ¬ (a.block j).Inside mem := by
  have hpos := stackEntrySize_pos entrySize
  have hle : (2 ^ 32 - 1) / stackEntrySize entrySize * stackEntrySize entrySize ≤ 2 ^ 32 - 1 := Nat.div_mul_le_self _ _
  have hgt : 2 ^ 32 - 1 < ((2 ^ 32 - 1) / stackEntrySize entrySize + 1) * stackEntrySize entrySize :=
    Nat.lt_mul_of_div_lt (Nat.lt_succ_self _) hpos
  obtain ⟨-, rfl⟩ := stackAllocatorNew_eq hnew
  refine ⟨(2 ^ 32 - 1) / stackEntrySize entrySize, ?_, fun hin => ?_⟩
  · refine Nat.lt_of_mul_lt_mul_right (a := stackEntrySize entrySize) ?_
    omega
  · have hend : mem.ptr + (2 ^ 32 - 1) / stackEntrySize entrySize * stackEntrySize entrySize % 2 ^ 32 +
        stackEntrySize entrySize ≤ mem.ptr + mem.size := hin.2
    have hlt : stackRequest numEntries entrySize < 2 ^ 32 := Nat.mod_lt _ (by decide)
    rw [Nat.mod_eq_of_lt (by omega)] at hend
    rw [Nat.add_mul, Nat.one_mul] at hgt
    omega

end

/-- **Main result.** The blocks of a new allocator are sound, whatever its parent gives, exactly if its size
does not wrap. -/
theorem slabSound_iff (numEntries entrySize : Nat) :
    SlabSound numEntries entrySize ↔ numEntries * stackEntrySize entrySize < 2 ^ 32 := by
  constructor
  · intro hsound
    by_contra hwrap
    obtain ⟨a, hnew⟩ : ∃ a, stackAllocatorNew numEntries entrySize ⟨0x1000, stackRequest numEntries entrySize⟩ =
      some a := ⟨_, rfl⟩
    have hsizes : ∀ size ∈ List.replicate numEntries 0, size ≤ stackEntrySize entrySize := by
      intro size hsize
      rw [List.eq_of_mem_replicate hsize]
      exact Nat.zero_le _
    obtain ⟨blks, hret, -, hblks⟩ := hsound .stack _ a _ (Nat.le_refl _) hnew List.length_replicate hsizes
    obtain ⟨j, hj, hout⟩ := block_outside (Nat.le_of_not_lt hwrap) rfl hnew
    refine hout (hblks.inside _ ?_)
    have hall := (stackAllocatorNew_allocates hnew List.length_replicate hsizes).symm.trans hret
    have hmem : SlabResult.block (a.block j) ∈
        ((List.range numEntries).map fun k => a.block (numEntries - 1 - k)).map .block := by
      refine List.mem_map_of_mem (List.mem_map.mpr ⟨numEntries - 1 - j, List.mem_range.mpr (by omega), ?_⟩)
      rw [show numEntries - 1 - (numEntries - 1 - j) = j by omega]
    rw [hall] at hmem
    obtain ⟨blk, hblk, he⟩ := List.mem_map.mp hmem
    rwa [← SlabResult.block.inj he]
  · intro hbytes kind mem a sizes hmem hnew hlen hsizes
    refine ⟨_, stackAllocatorNew_returns hnew hlen hsizes kind, ?_, blocksSound_of_lt hbytes hmem hnew⟩
    rw [List.length_map, List.length_range]

/-- Three entries of 2 GiB get 2 GiB: the third one is the first one again, and the second one is foreign memory. -/
theorem slabSound_counterexample :
    ∃ a, stackRequest 3 (2 ^ 31) = 2 ^ 31 ∧ stackAllocatorNew 3 (2 ^ 31) ⟨0x1000, 2 ^ 31⟩ = some a ∧
      SlabKind.stack.Returns a [.allocate 1, .allocate 1, .allocate 1]
        ([⟨0x1000, 2 ^ 31⟩, ⟨0x80001000, 2 ^ 31⟩, ⟨0x1000, 2 ^ 31⟩].map .block) ∧
      SlabKind.spinlockStack.Returns a [.allocate 1, .allocate 1, .allocate 1]
        ([⟨0x1000, 2 ^ 31⟩, ⟨0x80001000, 2 ^ 31⟩, ⟨0x1000, 2 ^ 31⟩].map .block) ∧
      ¬ BlocksSound ⟨0x1000, 2 ^ 31⟩ a [⟨0x1000, 2 ^ 31⟩, ⟨0x80001000, 2 ^ 31⟩, ⟨0x1000, 2 ^ 31⟩] := by
  refine ⟨_, by decide, rfl, rfl, ⟨_, 40, rfl⟩, fun h => ?_⟩
  exact absurd (h.owned ⟨0x80001000, 2 ^ 31⟩ (by decide)) (by decide)

/-! ## The two tests -/

/-- Within one entry below the region, or above it. -/
def StackAllocator.AtEnds (sa : StackAllocator) (ptr : Nat) : Prop :=
  (-(sa.entrySize : Int) < Int.bmod ((ptr : Int) - sa.baseAddr) (2 ^ 64) ∧
    Int.bmod ((ptr : Int) - sa.baseAddr) (2 ^ 64) < 0) ∨
  ((sa.numEntries * sa.entrySize : Int) ≤ Int.bmod ((ptr : Int) - sa.baseAddr) (2 ^ 64) ∧
    Int.bmod ((ptr : Int) - sa.baseAddr) (2 ^ 64) < (sa.numEntries + 1) * sa.entrySize)

instance (sa : StackAllocator) (ptr : Nat) : Decidable (sa.AtEnds ptr) :=
  inferInstanceAs (Decidable (_ ∨ _))

/-- `deallocate` does not abort in its checks. -/
def SlabKind.Accepts (sa : StackAllocator) (blk : MemBlk) : SlabKind → Prop
  | .stack => ∃ sa', stackAllocatorDeallocate sa blk = .ok sa'
  | .spinlockStack => ∀ t msg, spinlockDeallocate sa t blk ≠ .abort msg

section
variable {sa : StackAllocator} {blk : MemBlk} {i : Nat}

theorem accepts_iff_check (kind : SlabKind) : kind.Accepts sa blk ↔ ∃ i, stackAllocatorCheck sa blk = .ok i := by
  cases hcheck : stackAllocatorCheck sa blk with
  | error msg =>
    refine iff_of_false ?_ nofun
    cases kind with
    | stack =>
      rintro ⟨sa', h⟩
      rw [stackAllocatorDeallocate, hcheck] at h
      cases h
    | spinlockStack =>
      intro h
      refine h 0 msg ?_
      rw [spinlockDeallocate, hcheck]
  | ok i =>
    refine iff_of_true ?_ ⟨i, rfl⟩
    cases kind with
    | stack =>
      refine ⟨sa.push i, ?_⟩
      rw [stackAllocatorDeallocate, hcheck]
      rfl
    | spinlockStack =>
      intro t msg h
      rw [spinlockDeallocate, hcheck] at h
      cases h

/-- The quotient truncates, so its range has an entry too many at both ends. -/
theorem entryId_range (hpos : 0 < sa.entrySize) (ptr : Nat) :
    ¬ (sa.entryId ptr > sa.numEntries ∨ sa.entryId ptr < 0) ↔
      -(sa.entrySize : Int) < Int.bmod ((ptr : Int) - sa.baseAddr) (2 ^ 64) ∧
        Int.bmod ((ptr : Int) - sa.baseAddr) (2 ^ 64) < (sa.numEntries + 1) * sa.entrySize := by
  unfold StackAllocator.entryId
  generalize Int.bmod ((ptr : Int) - sa.baseAddr) (2 ^ 64) = diff
  have hpos' : (0 : Int) < sa.entrySize := by omega
  rcases Int.le_total 0 diff with hnonneg | hneg
  · have hquot := Int.ediv_nonneg hnonneg hpos'.le
    have hlt := Int.ediv_lt_iff_lt_mul (a := diff) (b := sa.numEntries + 1) hpos'
    rw [Int.tdiv_eq_ediv_of_nonneg hnonneg]
    omega
  · have hquot := Int.ediv_nonneg (a := -diff) (by omega) hpos'.le
    have hlt := Int.ediv_lt_iff_lt_mul (a := -diff) (b := 1) hpos'
    have htdiv : diff.tdiv sa.entrySize = -(-diff / sa.entrySize) := by
      rw [← Int.tdiv_eq_ediv_of_nonneg (a := -diff) (by omega), Int.neg_tdiv, Int.neg_neg]
    have hprod : (0 : Int) < (sa.numEntries + 1) * sa.entrySize := Int.mul_pos (by omega) hpos'
    rw [htdiv]
    omega

theorem owns_iff (hbytes : sa.numEntries * sa.entrySize < 2 ^ 32)
    (hend : sa.baseAddr + sa.numEntries * sa.entrySize < 2 ^ 64) (hptr : blk.ptr < 2 ^ 64) :
    stackAllocatorOwns sa blk = true ↔ 0 ≤ Int.bmod ((blk.ptr : Int) - sa.baseAddr) (2 ^ 64) ∧
      Int.bmod ((blk.ptr : Int) - sa.baseAddr) (2 ^ 64) < sa.numEntries * sa.entrySize := by
  rw [stackAllocatorOwns, Nat.mod_eq_of_lt hbytes]
  simp only [Bool.and_eq_true, decide_eq_true_eq]
  have hcast : ((sa.numEntries * sa.entrySize : Nat) : Int) = sa.numEntries * sa.entrySize := by push_cast; rfl
  rw [← hcast]
  generalize sa.numEntries * sa.entrySize = bytes at *
  rw [Int.bmod_def]
  split <;> omega

theorem accepts_owns_iff (kind : SlabKind) (hpos : 0 < sa.entrySize)
    (hbytes : sa.numEntries * sa.entrySize < 2 ^ 32)
    (hend : sa.baseAddr + sa.numEntries * sa.entrySize < 2 ^ 64) (hsize : blk.size = sa.entrySize)
    (hptr : blk.ptr < 2 ^ 64) :
    (kind.Accepts sa blk ↔ stackAllocatorOwns sa blk = true) ↔ ¬ sa.AtEnds blk.ptr := by
  have hcheck : (∃ i, stackAllocatorCheck sa blk = .ok i) ↔
      ¬ (sa.entryId blk.ptr > sa.numEntries ∨ sa.entryId blk.ptr < 0) := by
    unfold stackAllocatorCheck
    rw [if_neg (not_not.mpr hsize.symm)]
    by_cases hout : sa.entryId blk.ptr > sa.numEntries ∨ sa.entryId blk.ptr < 0
    · simp [hout]
    · simp [hout]
  have hmul : ((sa.numEntries : Int) + 1) * sa.entrySize = sa.numEntries * sa.entrySize + sa.entrySize := by ring
  have hprod : (0 : Int) ≤ sa.numEntries * sa.entrySize :=
    Int.mul_nonneg (Int.natCast_nonneg _) (Int.natCast_nonneg _)
  rw [accepts_iff_check, hcheck, entryId_range hpos, owns_iff hbytes hend hptr, StackAllocator.AtEnds, hmul]
  omega

theorem check_lt (hpos : 0 < sa.entrySize) (hbytes : sa.numEntries * sa.entrySize < 2 ^ 32)
    (hends : ¬ sa.AtEnds blk.ptr) (hcheck : stackAllocatorCheck sa blk = .ok i) : i < sa.numEntries := by
  unfold stackAllocatorCheck at hcheck
  split at hcheck
  · cases hcheck
  · dsimp only at hcheck
    split at hcheck
    · cases hcheck
    · rename_i hrange
      have hin := (entryId_range hpos blk.ptr).mp hrange
      cases hcheck
      have hpos' : (0 : Int) < sa.entrySize := by omega
      have hlt := Int.ediv_lt_iff_lt_mul (a := Int.bmod ((blk.ptr : Int) - sa.baseAddr) (2 ^ 64))
        (b := sa.numEntries) hpos'
      have hmul : ((sa.numEntries : Int) + 1) * sa.entrySize = sa.numEntries * sa.entrySize + sa.entrySize := by ring
      unfold StackAllocator.AtEnds at hends
      rw [hmul] at hin hends
      have hid : sa.entryId blk.ptr < sa.numEntries := by
        unfold StackAllocator.entryId
        rw [Int.tdiv_eq_ediv_of_nonneg (by omega)]
        omega
      have hle := Nat.mod_le (sa.entryId blk.ptr).toNat (2 ^ 32)
      omega

end

/-! ## What follows from the test -/

/-- All blocks that are given back are away from the ends. -/
def StackAllocator.Careful (a : StackAllocator) (cs : List SlabCall) : Prop :=
  ∀ blk, .deallocate blk ∈ cs → blk.ptr < 2 ^ 64 ∧ ¬ a.AtEnds blk.ptr

/-- The free stack holds indices of `a`, and nothing but memory of `a` was handed out. -/
structure SlabBounded (a sa : StackAllocator) (rs : List SlabResult) : Prop where
  slots : ∀ i < sa.freeStackTop, sa.freeStack i < a.numEntries
  results : ∀ blk, .block blk ∈ rs → blk = .null ∨ blk.Inside a.region

/-- All slots are filled, also those above the top. -/
structure SlotsFilled (a sa : StackAllocator) : Prop where
  shape : sa.baseAddr = a.baseAddr ∧ sa.entrySize = a.entrySize ∧ sa.numEntries = a.numEntries
  empty : a.numEntries = 0 → sa.freeStackTop = 0
  filled : 0 < a.numEntries → ∀ i, sa.freeStack i < a.numEntries

section
variable {a sa : StackAllocator} {blk : MemBlk} {i t : Nat} {s : Spin}

namespace SlotsFilled

theorem bounded (h : SlotsFilled a sa) (i : Nat) (hi : i < sa.freeStackTop) : sa.freeStack i < a.numEntries := by
  by_cases hzero : a.numEntries = 0
  · have := h.empty hzero
    omega
  · exact h.filled (by omega) i

theorem pos (h : SlotsFilled a sa) (htop : sa.freeStackTop ≠ 0) : 0 < a.numEntries := by
  by_contra hzero
  exact htop (h.empty (by omega))

theorem setTop (h : SlotsFilled a sa) (hpos : 0 < a.numEntries) (top : Nat) :
    SlotsFilled a { sa with freeStackTop := top } :=
  ⟨h.shape, fun hzero => by omega, h.filled⟩

theorem setSlot (h : SlotsFilled a sa) (hi : i < a.numEntries) (j : Nat) :
    SlotsFilled a { sa with freeStack := Function.update sa.freeStack j i } := by
  refine ⟨h.shape, h.empty, fun hpos k => ?_⟩
  by_cases hk : k = j
  · subst hk
    dsimp only
    rw [Function.update_self]
    exact hi
  · dsimp only
    rw [Function.update_of_ne hk]
    exact h.filled hpos k

theorem push (h : SlotsFilled a sa) (hi : i < a.numEntries) : SlotsFilled a (sa.push i) :=
  (h.setSlot hi sa.freeStackTop).setTop (by omega) _

end SlotsFilled

theorem stackAllocatorNew_filled {numEntries entrySize : Nat} {mem : MemBlk}
    (hnew : stackAllocatorNew numEntries entrySize mem = some a) : SlotsFilled a a := by
  obtain ⟨-, rfl⟩ := stackAllocatorNew_eq hnew
  refine ⟨⟨rfl, rfl, rfl⟩, id, fun hpos i => ?_⟩
  dsimp only
  split
  · assumption
  · exact hpos

theorem SlotsFilled.seqCall (hsized : a.Sized) (h : SlotsFilled a sa) {c : SlabCall} (hc : a.Careful [c]) :
    SlotsFilled a (Ixy.seqCall sa c).2 ∧
      ∀ blk, (Ixy.seqCall sa c).1 = .block blk → blk = .null ∨ blk.Inside a.region := by
  cases c with
  | allocate size =>
    by_cases hrefuse : sa.freeStackTop = 0 ∨ size > sa.entrySize
    · simp only [Ixy.seqCall, stackAllocatorAllocate_refused hrefuse, SlabResult.block.injEq]
      exact ⟨h, fun blk hblk => Or.inl hblk.symm⟩
    · have htop : sa.freeStackTop ≠ 0 := by omega
      have hsize : size ≤ sa.entrySize := by omega
      simp only [Ixy.seqCall, stackAllocatorAllocate_served htop hsize, SlabResult.block.injEq]
      refine ⟨h.setTop (h.pos htop) _, fun blk hblk => Or.inr ?_⟩
      rw [← hblk, StackAllocator.block_congr h.shape]
      exact hsized.block_inside (h.filled (h.pos htop) _)
  | deallocate blk =>
    obtain ⟨-, hends⟩ := hc blk (List.mem_singleton_self _)
    cases hcheck : stackAllocatorCheck sa blk with
    | error msg =>
      simp only [Ixy.seqCall, stackAllocatorDeallocate, hcheck, Except.map]
      exact ⟨h, fun blk hblk => by cases hblk⟩
    | ok i =>
      simp only [Ixy.seqCall, stackAllocatorDeallocate, hcheck, Except.map]
      rw [stackAllocatorCheck_congr h.shape] at hcheck
      exact ⟨h.push (check_lt hsized.size_pos hsized.bytes_lt hends hcheck), fun blk hblk => by cases hblk⟩

theorem SlotsFilled.replay (hsized : a.Sized) (cs : List SlabCall) (h : SlotsFilled a sa) (hcs : a.Careful cs) :
    SlabBounded a (Ixy.replay sa cs).2 (Ixy.replay sa cs).1 := by
  induction cs generalizing sa with
  | nil => exact ⟨h.bounded, nofun⟩
  | cons c cs ih =>
    obtain ⟨hnext, hres⟩ := h.seqCall hsized (c := c) fun blk hblk => by
      rw [List.mem_singleton] at hblk
      exact hcs blk (hblk ▸ List.mem_cons_self)
    have hrest := ih hnext fun blk hblk => hcs blk (List.mem_cons_of_mem _ hblk)
    refine ⟨hrest.slots, fun blk hblk => ?_⟩
    rcases List.mem_cons.mp hblk with hblk | hblk
    · exact hres blk hblk.symm
    · exact hrest.results blk hblk

/-! ## The same for threads -/

structure SpinFilled (a : StackAllocator) (s : Spin) : Prop where
  slots : SlotsFilled a s.core.sa
  done : ∀ d ∈ s.done, ∀ blk, d.2 = .block blk → blk = .null ∨ blk.Inside a.region

/-- Who takes care, and does not count on the others to use the lock. -/
def filledContract (a : StackAllocator) (t : Nat) : Contract Spin :=
  threadContract (SpinFilled a) (fun _ _ _ => True) (fun _ _ => True) t

theorem SpinFilled.stable : Stable (filledContract a t) (SpinFilled a) := by
  refine ⟨?_, fun _ h => h⟩
  rintro s s' - ⟨-, -, -, h⟩
  exact h

theorem rteSpinlockLock_filled (c : SlabCall) (moved : Option Nat) (h : SpinFilled a s) :
    Safe execSpin (filledContract a t) (rteSpinlockLock t c moved) (fun _ => SpinFilled a) s := by
  refine Safe.spinLock SpinFilled.stable SpinFilled.stable (fun _ _ => trivial) (fun s hs => ?_) (fun s hs => ?_) h
  · refine Safe.step SpinFilled.stable (fun s hs => ⟨_, _, rfl, trivial, ?_⟩) hs
    refine Safe.ret SpinFilled.stable ?_ hs
    exact fun _ h => h
  · refine Safe.step SpinFilled.stable (fun s hs => ⟨_, _, rfl, trivial, ?_⟩) hs
    have hnext : SpinFilled a (if s.core.lock = 0 then s.enter t c moved else s) := by
      split
      · exact ⟨hs.slots, hs.done⟩
      · exact hs
    refine Safe.ret SpinFilled.stable (fun s hs => ?_) hnext
    rw [ite_self]
    exact hs

theorem spinlockAllocate_filled (hsized : a.Sized) (size : Nat) (h : SpinFilled a s) :
    Safe execSpin (filledContract a t) (spinlockAllocate a t size)
      (fun blk s => SpinFilled a s ∧ (blk = .null ∨ blk.Inside a.region)) s := by
  refine Safe.bind (Safe.mono (fun _ s hs => ?_) (rteSpinlockLock_filled (.allocate size) none h))
  refine Safe.step SpinFilled.stable (fun s hs => ⟨_, _, rfl, trivial, ?_⟩) hs
  rw [Prog.ret_bind]
  by_cases hrefuse : s.core.sa.freeStackTop = 0 ∨ size > a.entrySize
  · rw [if_pos hrefuse]
    refine Safe.step SpinFilled.stable (fun s hs => ⟨_, _, rfl, trivial, ?_⟩) hs
    refine Safe.ret SpinFilled.stable (fun s hs => ⟨hs, Or.inl rfl⟩) ⟨hs.slots, hs.done⟩
  · rw [if_neg hrefuse]
    have hpos := hs.slots.pos (by omega)
    refine Safe.step SpinFilled.stable (fun s hs => ⟨_, _, rfl, trivial, ?_⟩) hs
    rw [Prog.ret_bind]
    refine Safe.step SpinFilled.stable (fun s hs => ⟨_, _, rfl, trivial, ?_⟩) hs
    refine Safe.step SpinFilled.stable (fun s hs => ⟨_, _, rfl, trivial, ?_⟩) ⟨hs.slots.setTop hpos _, hs.done⟩
    -- whoever has written to the slot in between, it holds an index
    have hid := hs.slots.filled hpos
    refine Safe.step SpinFilled.stable (fun s hs => ⟨_, _, rfl, trivial, ?_⟩) hs
    refine Safe.ret SpinFilled.stable (fun s hs => ⟨hs, Or.inr ?_⟩) ⟨hs.slots, hs.done⟩
    exact hsized.block_inside (hid _)

theorem spinlockDeallocate_filled (hsized : a.Sized) (hends : ¬ a.AtEnds blk.ptr) (h : SpinFilled a s) :
    Safe execSpin (filledContract a t) (spinlockDeallocate a t blk) (fun _ => SpinFilled a) s := by
  unfold spinlockDeallocate
  cases hcheck : stackAllocatorCheck a blk with
  | error msg => exact Safe.abort SpinFilled.stable (fun _ _ => trivial) h
  | ok i =>
    have hi := check_lt hsized.size_pos hsized.bytes_lt hends hcheck
    have hpos : 0 < a.numEntries := by omega
    refine Safe.bind (Safe.mono (fun _ s hs => ?_) (rteSpinlockLock_filled (.deallocate blk) (some i) h))
    refine Safe.step SpinFilled.stable (fun s hs => ⟨_, _, rfl, trivial, ?_⟩) hs
    refine Safe.step SpinFilled.stable (fun s hs => ⟨_, _, rfl, trivial, ?_⟩) hs
    refine Safe.step SpinFilled.stable (fun s hs => ⟨_, _, rfl, trivial, ?_⟩) ⟨hs.slots.setTop hpos _, hs.done⟩
    refine Safe.step SpinFilled.stable (fun s hs => ⟨_, _, rfl, trivial, ?_⟩) ⟨hs.slots.setSlot hi _, hs.done⟩
    refine Safe.ret SpinFilled.stable ?_ ⟨hs.slots, hs.done⟩
    exact fun _ h => h

theorem SpinFilled.finish {r : SlabResult} (h : SpinFilled a s)
    (hr : ∀ blk, r = .block blk → blk = .null ∨ blk.Inside a.region) : SpinFilled a (s.finish t r) := by
  refine ⟨h.slots, fun d hd blk hblk => ?_⟩
  rcases List.mem_append.mp hd with hd | hd
  · exact h.done d hd blk hblk
  · obtain rfl := List.mem_singleton.mp hd
    exact hr blk hblk

theorem spinCall_filled (hsized : a.Sized) {c : SlabCall} (hc : a.Careful [c]) (h : SpinFilled a s) :
    Safe execSpin (filledContract a t) (spinCall a t c)
      (fun r s => SpinFilled a s ∧ ∀ blk, r = .block blk → blk = .null ∨ blk.Inside a.region) s := by
  cases c with
  | allocate size =>
    refine Safe.bind (Safe.mono (fun blk s hs => ?_) (spinlockAllocate_filled hsized size h))
    refine Safe.ret SpinFilled.stable (fun s hs' => ⟨hs', fun blk' hblk => ?_⟩) hs.1
    rw [← SlabResult.block.inj hblk]
    exact hs.2
  | deallocate blk =>
    obtain ⟨-, hends⟩ := hc blk (List.mem_singleton_self _)
    refine Safe.bind (Safe.mono (fun _ s hs => ?_) (spinlockDeallocate_filled hsized hends h))
    exact Safe.ret SpinFilled.stable (fun s hs => ⟨hs, nofun⟩) hs

theorem spinCalls_filled (hsized : a.Sized) (cs : List SlabCall) (hcs : a.Careful cs) (h : SpinFilled a s) :
    Safe execSpin (filledContract a t) (spinCalls a t cs) (fun _ => SpinFilled a) s := by
  induction cs generalizing s with
  | nil =>
    refine Safe.ret SpinFilled.stable ?_ h
    exact fun _ hs => hs
  | cons c cs ih =>
    have hc : a.Careful [c] := fun blk hblk => by
      rw [List.mem_singleton] at hblk
      exact hcs blk (hblk ▸ List.mem_cons_self)
    refine Safe.bind (Safe.mono (fun r s hs => ?_) (spinCall_filled hsized hc h))
    refine Safe.step SpinFilled.stable (fun s hs' => ⟨_, _, rfl, trivial, ?_⟩) hs.1
    have hrest := ih (fun blk hblk => hcs blk (List.mem_cons_of_mem _ hblk)) (hs'.finish (t := t) hs.2)
    change Safe _ _ ((spinCalls a t cs).bind _) _ _
    refine Safe.bind (Safe.mono (fun _ s hs => ?_) hrest)
    refine Safe.ret SpinFilled.stable ?_ hs
    exact fun _ hs => hs

end

/-- **Main result.** Away from the ends of the region, and only there, `deallocate` accepts what `owns` reports.
If all blocks that are given back are away from the ends, then whoever calls what, the free stack holds indices of
the allocator, and no call returns memory of others. -/
theorem accepts_iff_owns {numEntries entrySize : Nat} {mem : MemBlk} {a : StackAllocator}
    (hbytes : numEntries * stackEntrySize entrySize < 2 ^ 32)
    (hend : mem.ptr + numEntries * stackEntrySize entrySize < 2 ^ 64)
    (hnew : stackAllocatorNew numEntries entrySize mem = some a) :
    (∀ (kind : SlabKind) (top : Nat) (stack : Nat → Nat) (blk : MemBlk), blk.size = a.entrySize → blk.ptr < 2 ^ 64 →
      ((kind.Accepts { a with freeStackTop := top, freeStack := stack } blk ↔ stackAllocatorOwns a blk = true) ↔
        ¬ a.AtEnds blk.ptr)) ∧
    (∀ cs, a.Careful cs → SlabBounded a (replay a cs).2 (replay a cs).1) ∧
    ∀ (script : Nat → List SlabCall) (ts : List Nat) (p : Pool Spin SpinOp SpinRet (List SlabResult)),
      (∀ t, a.Careful (script t)) →
      Pool.run execSpin ts ⟨spinBoot a fun _ => [], fun t => spinCalls a t (script t)⟩ = some p →
      SlabBounded a p.state.core.sa (p.state.done.map Prod.snd) := by
  have hsized := stackAllocatorNew_sized hbytes hnew
  have hfilled := stackAllocatorNew_filled hnew
  refine ⟨fun kind top stack blk hsize hptr => ?_, fun cs hcs => hfilled.replay hsized cs hcs,
    fun script ts p hcs hrun => ?_⟩
  · obtain ⟨-, rfl⟩ := stackAllocatorNew_eq hnew
    exact accepts_owns_iff kind hsized.size_pos hbytes hend hsize hptr
  · have hboot : SpinFilled a (spinBoot a fun _ => []) := ⟨hfilled, nofun⟩
    have hsafe := Pool.run_safe ts (fun t => spinCalls_filled (t := t) hsized (script t) (hcs t) hboot) hrun
    have hinv : SpinFilled a p.state := (hsafe 0).inv
    refine ⟨hinv.slots.bounded, fun blk hblk => ?_⟩
    obtain ⟨d, hd, hblk⟩ := List.mem_map.mp hblk
    exact hinv.done d hd blk hblk

theorem accepts_iff_owns_pair :
    ∃ a, stackAllocatorNew 2 64 ⟨0x1000, 128⟩ = some a ∧
      ((SlabKind.spinlockStack.Accepts a ⟨0x1040, 64⟩ ↔ stackAllocatorOwns a ⟨0x1040, 64⟩ = true) ↔
        ¬ a.AtEnds 0x1040) ∧
      SlabBounded a (replay a [.allocate 64, .deallocate ⟨0x1040, 64⟩]).2
        (replay a [.allocate 64, .deallocate ⟨0x1040, 64⟩]).1 := by
  have hbytes : 2 * stackEntrySize 64 < 2 ^ 32 := by decide
  obtain ⟨hiff, hseq, -⟩ := accepts_iff_owns hbytes (show 0x1000 + 2 * stackEntrySize 64 < 2 ^ 64 by decide)
    (Eq.refl (stackAllocatorNew 2 64 ⟨0x1000, 128⟩))
  refine ⟨_, rfl, hiff .spinlockStack _ _ ⟨0x1040, 64⟩ rfl (by decide), hseq _ fun blk hblk => ?_⟩
  obtain rfl : blk = ⟨0x1040, 64⟩ := by simpa using hblk
  exact ⟨by decide, by decide⟩

/-- The byte behind the region is accepted, as index 2 of an allocator of 2 entries, and handed out by the next
call; so is one below the region. -/
theorem accepts_counterexample :
    ∃ a, stackAllocatorNew 2 64 ⟨0x1000, 128⟩ = some a ∧
      SlabKind.stack.Accepts a ⟨0x1080, 64⟩ ∧ SlabKind.spinlockStack.Accepts a ⟨0x1080, 64⟩ ∧
      stackAllocatorOwns a ⟨0x1080, 64⟩ = false ∧
      (replay a [.deallocate ⟨0x1080, 64⟩, .allocate 64]).1 = [.freed, .block ⟨0x1080, 64⟩] ∧
      ¬ MemBlk.Inside ⟨0x1080, 64⟩ a.region ∧
      SlabKind.stack.Accepts a ⟨0xfff, 64⟩ ∧ SlabKind.spinlockStack.Accepts a ⟨0xfff, 64⟩ ∧
      stackAllocatorOwns a ⟨0xfff, 64⟩ = false := by
  refine ⟨_, rfl, (accepts_iff_check _).mpr ⟨2, rfl⟩, (accepts_iff_check _).mpr ⟨2, rfl⟩, rfl, rfl, fun h => ?_,
    (accepts_iff_check _).mpr ⟨0, rfl⟩, (accepts_iff_check _).mpr ⟨0, rfl⟩, rfl⟩
  exact absurd h.2 (by decide)

end Ixy
