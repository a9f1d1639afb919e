import Ixy.Allocator.Stack
import Ixy.Lib.Threads

/-!
# The spinlock stack allocator (`spinlock_stack_allocator.c`)

The same slab, shared by threads: each call works on the free stack between `rte_spinlock_lock` and
`rte_spinlock_unlock`. Here the calls are programs of single accesses to the shared struct, run by any number of
threads in any interleaving.

History records who is between lock and unlock, the order in which the critical sections were entered, where the
blocks are, and what the calls returned. `SpinInv` holds in all reachable states: the critical sections exclude
each other, the indices are accounted for, and what was returned is what `stack_allocator_allocate` and
`stack_allocator_deallocate` return if they are run in the order of the critical sections.
-/

namespace Ixy

open Lib

/-! ## Calls one after the other -/

inductive SlabResult where
  | block (blk : MemBlk)
  | freed
  | aborted (msg : String)
  deriving DecidableEq, Repr

/-- A call of the plain stack allocator. -/
def seqCall (sa : StackAllocator) : SlabCall → SlabResult × StackAllocator
  | .allocate size => (.block (stackAllocatorAllocate sa size).1, (stackAllocatorAllocate sa size).2)
  | .deallocate blk =>
    match stackAllocatorDeallocate sa blk with
    | .ok sa' => (.freed, sa')
    | .error msg => (.aborted msg, sa)

/-- A list of calls: their results, and the allocator afterwards. -/
def replay (sa : StackAllocator) : List SlabCall → List SlabResult × StackAllocator
  | [] => ([], sa)
  | c :: cs => ((seqCall sa c).1 :: (replay (seqCall sa c).2 cs).1, (replay (seqCall sa c).2 cs).2)

theorem replay_append (sa : StackAllocator) (cs cs' : List SlabCall) :
    replay sa (cs ++ cs') =
      ((replay sa cs).1 ++ (replay (replay sa cs).2 cs').1, (replay (replay sa cs).2 cs').2) := by
  induction cs generalizing sa with
  | nil => rfl
  | cons c cs ih => simp only [List.cons_append, replay, ih]

theorem replay_length (sa : StackAllocator) (cs : List SlabCall) : (replay sa cs).1.length = cs.length := by
  induction cs generalizing sa with
  | nil => rfl
  | cons c cs ih => simp only [replay, List.length_cons, ih]

theorem replay_last (sa : StackAllocator) (cs : List SlabCall) (c : SlabCall) :
    (replay sa (cs ++ [c])).1[cs.length]? = some (seqCall (replay sa cs).2 c).1 := by
  rw [replay_append, List.getElem?_append_right (by rw [replay_length]), replay_length, Nat.sub_self]
  rfl

theorem replay_prefix {sa : StackAllocator} {cs cs' : List SlabCall} (h : cs <+: cs') {k : Nat} {r : SlabResult}
    (hr : (replay sa cs).1[k]? = some r) : (replay sa cs').1[k]? = some r := by
  obtain ⟨rest, rfl⟩ := h
  obtain ⟨hk, -⟩ := List.getElem?_eq_some_iff.mp hr
  rw [replay_append, List.getElem?_append_left hk]
  exact hr

/-! ## The shared state -/

/-- What is protected by the lock. -/
structure SpinCore where
  lock : Nat
  sa : StackAllocator
  /-- History: the threads between lock and unlock. -/
  critical : List Nat
  /-- History: who called what, in the order of the critical sections. -/
  order : List (Nat × SlabCall)
  /-- History: the entry that is neither free nor held. -/
  transit : List Nat
  /-- History: `free_stack_top` has grown, and the slot below it is yet to be written. -/
  filling : Bool

/-- The calls, in the order of the critical sections. -/
def SpinCore.calls (k : SpinCore) : List SlabCall := k.order.map Prod.snd

/-- The free indices. -/
def SpinCore.free (k : SpinCore) : List Nat :=
  stackList k.sa.freeStack (if k.filling then k.sa.freeStackTop - 1 else k.sa.freeStackTop)

structure Spin where
  core : SpinCore
  /-- What each thread will call. -/
  script : Nat → List SlabCall
  /-- History: the place in `order` of the call that a thread makes. -/
  ticket : Nat → Nat
  /-- History: the blocks that a thread is about to give back, or to be returned. -/
  inHand : List (Nat × MemBlk)
  /-- History: the blocks that were returned to a thread. -/
  rest : List (Nat × MemBlk)
  /-- History: the calls that are completed, by their place in `order`, with their results. -/
  done : List (Nat × SlabResult)

/-- Accesses. The arguments other than addresses and values are for the history. -/
inductive SpinOp where
  | next (t : Nat)
  | tas (t : Nat) (c : SlabCall) (moved : Option Nat)
  | lockLd
  | unlock (t : Nat) (r : SlabResult)
  | topLd
  | topSt (v : Nat)
  | slotLd (i : Nat)
  | slotSt (i v : Nat)
  | ret (t : Nat) (r : SlabResult)

@[reducible] def SpinRet : SpinOp → Type
  | .next _ => Option SlabCall
  | .tas _ _ _ | .lockLd | .topLd | .slotLd _ => Nat
  | _ => Unit

/-- The block that a result hands out. -/
def SlabResult.blocks : SlabResult → List MemBlk
  | .block blk => if blk.ptr = 0 then [] else [blk]
  | _ => []

/-- The block that a call gives back. -/
def SlabCall.blocks : SlabCall → List MemBlk
  | .allocate _ => []
  | .deallocate blk => [blk]

namespace Spin

/-- The lock has been taken. -/
def enter (s : Spin) (t : Nat) (c : SlabCall) (moved : Option Nat) : Spin :=
  { s with
    core := { s.core with
      lock := 1
      critical := t :: s.core.critical
      order := s.core.order ++ [(t, c)]
      transit := moved.toList }
    ticket := Function.update s.ticket t s.core.order.length
    inHand := s.inHand.diff (c.blocks.map (t, ·)) }

/-- The lock is released. -/
def leave (s : Spin) (t : Nat) (r : SlabResult) : Spin :=
  { s with
    core := { s.core with lock := 0, critical := s.core.critical.erase t, transit := [] }
    inHand := r.blocks.map (t, ·) ++ s.inHand }

/-- The call returns. -/
def finish (s : Spin) (t : Nat) (r : SlabResult) : Spin :=
  { s with
    done := s.done ++ [(s.ticket t, r)]
    inHand := s.inHand.diff (r.blocks.map (t, ·))
    rest := r.blocks.map (t, ·) ++ s.rest }

/-- `free_stack_top` is written. Going down, it uncovers the entry that is taken. -/
def setTop (s : Spin) (v : Nat) : Spin :=
  { s with core := { s.core with
      sa := { s.core.sa with freeStackTop := v }
      transit := if v < s.core.sa.freeStackTop then [s.core.sa.freeStack v] else s.core.transit
      filling := !decide (v < s.core.sa.freeStackTop) } }

/-- A slot is written. -/
def setSlot (s : Spin) (i v : Nat) : Spin :=
  { s with core := { s.core with
      sa := { s.core.sa with freeStack := Function.update s.core.sa.freeStack i v }
      transit := []
      filling := false } }

end Spin

/-- Perform one access. Only blocks that some thread holds may be given back, each by one thread. -/
def execSpin : (o : SpinOp) → Spin → Option (SpinRet o × Spin)
  | .next t, s =>
    match s.script t with
    | [] => some (none, s)
    | .allocate size :: cs =>
      some (some (.allocate size), { s with script := Function.update s.script t cs })
    | .deallocate blk :: cs =>
      match s.rest.find? (fun h => h.2 = blk) with
      | none => none
      | some h => some (some (.deallocate blk), { s with
          script := Function.update s.script t cs
          rest := s.rest.erase h
          inHand := (t, blk) :: s.inHand })
  | .tas t c moved, s => some (s.core.lock, if s.core.lock = 0 then s.enter t c moved else s)
  | .lockLd, s => some (s.core.lock, s)
  | .unlock t r, s => some ((), s.leave t r)
  | .topLd, s => some (s.core.sa.freeStackTop, s)
  | .topSt v, s => some ((), s.setTop v)
  | .slotLd i, s => some (s.core.sa.freeStack i, s)
  | .slotSt i v, s => some ((), s.setSlot i v)
  | .ret t r, s => some ((), s.finish t r)

/-! ## The code -/

abbrev SpinCode := Prog SpinOp SpinRet

/-- `rte_spinlock_lock`: test and set, and after a failure read until the lock looks free. -/
def rteSpinlockLock (t : Nat) (c : SlabCall) (moved : Option Nat) : SpinCode Unit :=
  Prog.spinLock (Prog.access (SpinOp.tas t c moved)) (Prog.access SpinOp.lockLd)

/-- `allocate`. The fields of `a` that are read are never written. -/
def spinlockAllocate (a : StackAllocator) (t size : Nat) : SpinCode MemBlk := do
  rteSpinlockLock t (.allocate size) none
  let top ← Prog.access SpinOp.topLd
  if top = 0 ∨ size > a.entrySize then do
    Prog.access (SpinOp.unlock t (.block .null))
    return .null
  else do
    let top ← Prog.access SpinOp.topLd
    Prog.access (SpinOp.topSt (top - 1))
    let entryId ← Prog.access (SpinOp.slotLd (top - 1))
    Prog.access (SpinOp.unlock t (.block (a.block entryId)))
    return a.block entryId

/-- `deallocate`. The checks are made before the lock is taken. -/
def spinlockDeallocate (a : StackAllocator) (t : Nat) (blk : MemBlk) : SpinCode Unit :=
  match stackAllocatorCheck a blk with
  | .error msg => .abort msg
  | .ok entryId => do
    rteSpinlockLock t (.deallocate blk) (some entryId)
    let top ← Prog.access SpinOp.topLd
    Prog.access (SpinOp.topSt ((top + 1) % 2 ^ 32))
    Prog.access (SpinOp.slotSt top entryId)
    Prog.access (SpinOp.unlock t .freed)

/-- One call of a thread. -/
def spinServe (a : StackAllocator) (t : Nat) (_ : Unit) : SpinCode (Unit ⊕ Unit) := do
  let c ← Prog.access (SpinOp.next t)
  match c with
  | none => return .inr ()
  | some (.allocate size) => do
    let blk ← spinlockAllocate a t size
    Prog.access (SpinOp.ret t (.block blk))
    return .inl ()
  | some (.deallocate blk) => do
    spinlockDeallocate a t blk
    Prog.access (SpinOp.ret t .freed)
    return .inl ()

def spinThread (a : StackAllocator) (t : Nat) : SpinCode Unit := Prog.iterate (spinServe a t) ()

/-! ## The invariant -/

/-- The index that an address stands for. -/
def StackAllocator.index (a : StackAllocator) (h : Nat × MemBlk) : Nat := (a.entryId h.2.ptr).toNat

/-- The indices of the blocks that threads hold. -/
def Spin.held (a : StackAllocator) (s : Spin) : List Nat := (s.inHand ++ s.rest).map a.index

structure SpinInv (a : StackAllocator) (s : Spin) : Prop where
  shape : s.core.sa.baseAddr = a.baseAddr ∧ s.core.sa.entrySize = a.entrySize ∧
    s.core.sa.numEntries = a.numEntries
  mutex : (s.core.lock = 0 ∧ s.core.critical = []) ∨ (s.core.lock = 1 ∧ ∃ t, s.core.critical = [t])
  quiet : s.core.critical = [] →
    s.core.sa = (replay a s.core.calls).2 ∧ s.core.transit = [] ∧ s.core.filling = false
  accounts : (s.core.free ++ s.core.transit ++ s.held a).Perm (List.range a.numEntries)
  blocks : ∀ h ∈ s.inHand ++ s.rest, ∃ i < a.numEntries, h.2 = a.block i
  done : ∀ d ∈ s.done, (replay a s.core.calls).1[d.1]? = some d.2
  once : (s.done.map Prod.fst).Nodup

/-- What the others can count on when thread `t` makes a move. -/
structure SpinGuar (t : Nat) (s s' : Spin) : Prop where
  core : ∀ u ≠ t, u ∈ s.core.critical → s'.core = s.core
  critical : ∀ u ≠ t, u ∈ s'.core.critical → u ∈ s.core.critical
  order : s.core.order <+: s'.core.order
  ticket : ∀ u ≠ t, s'.ticket u = s.ticket u
  done : ∀ n ∈ s'.done.map Prod.fst, n ∈ s.done.map Prod.fst ∨ ∃ c, s'.core.order[n]? = some (t, c)
  inHand : ∀ u ≠ t, ∀ blk, (u, blk) ∈ s.inHand → (u, blk) ∈ s'.inHand

section
variable {a : StackAllocator} {t : Nat} {s s' : Spin}

theorem SpinGuar.refl (t : Nat) (s : Spin) : SpinGuar t s s :=
  ⟨fun _ _ _ => rfl, fun _ _ h => h, List.prefix_rfl, fun _ _ => rfl, fun _ h => Or.inl h, fun _ _ _ h => h⟩

/-- The contract of thread `t`. -/
def spinContract (a : StackAllocator) (t : Nat) : Contract Spin :=
  threadContract (SpinInv a) SpinGuar (fun _ _ => False) t

/-! ## Where a thread stands -/

/-- Not between lock and unlock. -/
structure SpinOutside (a : StackAllocator) (t : Nat) (s : Spin) : Prop where
  inv : SpinInv a s
  out : t ∉ s.core.critical

/-- About to give a block back. -/
structure SpinGiving (a : StackAllocator) (t : Nat) (blk : MemBlk) (s : Spin) : Prop extends
    SpinOutside a t s where
  hand : (t, blk) ∈ s.inHand

/-- The call at place `n` is of thread `t`, and not completed. -/
structure SpinOpen (t n : Nat) (s : Spin) : Prop where
  ticket : s.ticket t = n
  mine : ∃ c, s.core.order[n]? = some (t, c)
  fresh : n ∉ s.done.map Prod.fst

/-- Between lock and unlock nobody else touches what the lock protects. -/
structure SpinInside (a : StackAllocator) (t : Nat) (k : SpinCore) (n : Nat) (s : Spin) : Prop extends
    SpinOpen t n s where
  inv : SpinInv a s
  core : s.core = k

/-- The critical section is over, and `r` is to be returned. -/
structure SpinLeft (a : StackAllocator) (t n : Nat) (r : SlabResult) (s : Spin) : Prop extends
    SpinOutside a t s, SpinOpen t n s where
  result : (replay a s.core.calls).1[n]? = some r
  hand : ∀ blk ∈ r.blocks, (t, blk) ∈ s.inHand

theorem SpinGuar.calls {u : Nat} (h : SpinGuar u s s') : s.core.calls <+: s'.core.calls :=
  h.order.map Prod.snd

theorem SpinOpen.guar {n u : Nat} (h : SpinOpen t n s) (hu : t ≠ u) (hg : SpinGuar u s s') : SpinOpen t n s' := by
  obtain ⟨c, hc⟩ := h.mine
  obtain ⟨hlt, -⟩ := List.getElem?_eq_some_iff.mp hc
  have hmine : s'.core.order[n]? = some (t, c) := by
    obtain ⟨more, hmore⟩ := hg.order
    rw [← hmore, List.getElem?_append_left hlt]
    exact hc
  refine ⟨(hg.ticket t hu).trans h.ticket, ⟨c, hmine⟩, fun hmem => ?_⟩
  rcases hg.done n hmem with hdone | ⟨c', hc'⟩
  · exact h.fresh hdone
  · rw [hmine] at hc'
    exact hu (Prod.mk.inj (Option.some.inj hc')).1

theorem SpinOutside.rely (h : SpinOutside a t s) (hr : (spinContract a t).rely s s') : SpinOutside a t s' := by
  obtain ⟨u, hu, hg, hinv⟩ := hr
  exact ⟨hinv, fun hmem => h.out (hg.critical t hu.symm hmem)⟩

theorem SpinOutside.stable : Stable (spinContract a t) (SpinOutside a t) :=
  ⟨fun _ _ h hr => h.rely hr, fun _ h => h.inv⟩

theorem SpinGiving.stable {blk : MemBlk} : Stable (spinContract a t) (SpinGiving a t blk) := by
  refine ⟨fun s s' h hr => ⟨h.toSpinOutside.rely hr, ?_⟩, fun _ h => h.inv⟩
  obtain ⟨u, hu, hg, -⟩ := hr
  exact hg.inHand t hu.symm blk h.hand

theorem SpinInside.stable {k : SpinCore} {n : Nat} (hk : k.critical = [t]) :
    Stable (spinContract a t) (SpinInside a t k n) := by
  refine ⟨?_, fun _ h => h.inv⟩
  rintro s s' h ⟨u, hu, hg, hinv⟩
  have hmem : t ∈ s.core.critical := by
    rw [h.core, hk]
    exact List.mem_singleton_self t
  exact ⟨h.toSpinOpen.guar hu.symm hg, hinv, (hg.core t hu.symm hmem).trans h.core⟩

theorem SpinLeft.stable {n : Nat} {r : SlabResult} : Stable (spinContract a t) (SpinLeft a t n r) := by
  refine ⟨?_, fun _ h => h.inv⟩
  rintro s s' h ⟨u, hu, hg, hinv⟩
  exact ⟨h.toSpinOutside.rely ⟨u, hu, hg, hinv⟩, h.toSpinOpen.guar hu.symm hg, replay_prefix hg.calls h.result,
    fun blk hblk => hg.inHand t hu.symm blk (h.hand blk hblk)⟩

/-! ## Taking the lock -/

theorem SpinInv.unlocked (h : SpinInv a s) (hlock : s.core.lock = 0) : s.core.critical = [] := by
  rcases h.mutex with hm | hm
  · exact hm.2
  · omega

/-- What the lock protects, right after it was taken. -/
def enteredCore (a : StackAllocator) (t : Nat) (pre : List (Nat × SlabCall)) (c : SlabCall) (moved : Option Nat) :
    SpinCore :=
  ⟨1, (replay a (pre.map Prod.snd)).2, [t], pre ++ [(t, c)], moved.toList, false⟩

/-- The thread has the lock. -/
def SpinEntered (a : StackAllocator) (t : Nat) (c : SlabCall) (moved : Option Nat) (s : Spin) : Prop :=
  ∃ pre, SpinInside a t (enteredCore a t pre c moved) pre.length s

theorem SpinEntered.stable {c : SlabCall} {moved : Option Nat} :
    Stable (spinContract a t) (SpinEntered a t c moved) :=
  .cover fun _ ⟨pre, h⟩ => ⟨_, SpinInside.stable rfl, h, fun _ h => ⟨pre, h⟩⟩

/-- If taking the lock is right whenever it is free, so is waiting for it. -/
theorem rteSpinlockLock_safe {A : Spin → Prop} {c : SlabCall} {moved : Option Nat}
    (hA : Stable (spinContract a t) A)
    (henter : ∀ s, A s → s.core.lock = 0 →
      SpinGuar t s (s.enter t c moved) ∧ SpinEntered a t c moved (s.enter t c moved)) (hs : A s) :
    Safe execSpin (spinContract a t) (rteSpinlockLock t c moved) (fun _ => SpinEntered a t c moved) s := by
  refine Safe.spinLock hA SpinEntered.stable (fun s _ => SpinGuar.refl t s) (fun s hs => ?_) (fun s hs => ?_) hs
  · exact Safe.step hA (fun s hs => ⟨_, _, rfl, SpinGuar.refl t s, Safe.ret hA (fun _ h => h) hs⟩) hs
  · refine Safe.step hA (fun s hs => ⟨_, _, rfl, ?_⟩) hs
    by_cases hlock : s.core.lock = 0
    · obtain ⟨hg, he⟩ := henter s hs hlock
      rw [if_pos hlock]
      exact ⟨hg, Safe.ret SpinEntered.stable (fun s hs => by rw [if_pos hlock]; exact hs) he⟩
    · rw [if_neg hlock]
      exact ⟨SpinGuar.refl t s, Safe.ret hA (fun s hs => by rw [if_neg hlock]; exact hs) hs⟩

/-! ## Single moves -/

theorem mem_diff_of_ne {l : List (Nat × MemBlk)} {u : Nat} {blk : MemBlk} (hu : u ≠ t) (h : (u, blk) ∈ l)
    (bs : List MemBlk) : (u, blk) ∈ l.diff (bs.map (t, ·)) := by
  refine List.mem_diff_of_mem h fun hmem => ?_
  obtain ⟨b, -, hb⟩ := List.mem_map.mp hmem
  exact hu (Prod.mk.inj hb).1.symm

theorem SpinInv.enter {c : SlabCall} {moved : Option Nat} (h : SpinInv a s) (hlock : s.core.lock = 0)
    (hmoved : (moved.toList ++ (s.enter t c moved).held a).Perm (s.held a)) :
    SpinGuar t s (s.enter t c moved) ∧ SpinEntered a t c moved (s.enter t c moved) := by
  have hcrit := h.unlocked hlock
  obtain ⟨hsa, htransit, hfilling⟩ := h.quiet hcrit
  have hcore : (s.enter t c moved).core = enteredCore a t s.core.order c moved := by
    simp only [Spin.enter, enteredCore, hcrit, hsa, hfilling, SpinCore.calls]
  have hcalls : s.core.calls <+: (s.enter t c moved).core.calls := List.IsPrefix.map _ ⟨[(t, c)], rfl⟩
  refine ⟨⟨fun u _ hu => ?_, fun u hu hmem => ?_, ⟨[(t, c)], rfl⟩, fun u hu => ?_, fun _ hn => Or.inl hn,
    fun u hu blk hblk => ?_⟩, s.core.order,
    ⟨?_, ⟨c, ?_⟩, fun hmem => ?_⟩, ⟨h.shape, ?_, fun hnil => ?_, ?_, fun x hx => ?_, fun d hd => ?_, h.once⟩, hcore⟩
  · rw [hcrit] at hu
    cases hu
  · rw [hcore] at hmem
    exact absurd (List.mem_singleton.mp hmem) hu
  · exact Function.update_of_ne hu _ _
  · exact mem_diff_of_ne hu hblk _
  · exact Function.update_self _ _ _
  · exact List.getElem?_concat_length
  · -- the calls that are completed have places below that of this one
    obtain ⟨d, hd, hlen⟩ := List.mem_map.mp hmem
    obtain ⟨hlt, -⟩ := List.getElem?_eq_some_iff.mp (h.done d hd)
    rw [replay_length, SpinCore.calls, List.length_map] at hlt
    omega
  · rw [hcore]
    exact Or.inr ⟨rfl, t, rfl⟩
  · rw [hcore] at hnil
    cases hnil
  · have hacc := h.accounts
    rw [htransit, List.append_nil] at hacc
    refine List.Perm.trans ?_ hacc
    change (s.core.free ++ moved.toList ++ _).Perm _
    rw [List.append_assoc]
    exact hmoved.append_left _
  · refine h.blocks x ?_
    rcases List.mem_append.mp hx with hx | hx
    · exact List.mem_append_left _ (List.diff_subset _ _ hx)
    · exact List.mem_append_right _ hx
  · exact replay_prefix hcalls (h.done d hd)

theorem SpinInside.move {k : SpinCore} {n : Nat} (h : SpinInside a t k n s) (k' : SpinCore)
    (hk : k.critical = [t]) (hk' : k'.critical = [t]) (hlock : k'.lock = 1) (horder : k'.order = k.order)
    (hshape : k'.sa.baseAddr = k.sa.baseAddr ∧ k'.sa.entrySize = k.sa.entrySize ∧
      k'.sa.numEntries = k.sa.numEntries)
    (hacc : k'.free ++ k'.transit = k.free ++ k.transit) :
    SpinGuar t s { s with core := k' } ∧ SpinInside a t k' n { s with core := k' } := by
  have hcore := h.core
  have hcalls : k'.calls = s.core.calls := by rw [SpinCore.calls, horder, ← hcore, SpinCore.calls]
  refine ⟨⟨fun u hu hmem => ?_, fun u hu hmem => ?_, ?_, fun _ _ => rfl, fun _ hn => Or.inl hn,
    fun _ _ _ hblk => hblk⟩, ⟨h.ticket, ?_, h.fresh⟩,
    ⟨?_, Or.inr ⟨hlock, t, hk'⟩, fun hnil => ?_, ?_, h.inv.blocks, fun d hd => ?_, h.inv.once⟩, rfl⟩
  · rw [hcore, hk] at hmem
    exact absurd (List.mem_singleton.mp hmem) hu
  · rw [hk'] at hmem
    exact absurd (List.mem_singleton.mp hmem) hu
  · rw [hcore, horder]
  · rw [horder, ← hcore]
    exact h.mine
  · rw [hshape.1, hshape.2.1, hshape.2.2, ← hcore]
    exact h.inv.shape
  · rw [hk'] at hnil
    cases hnil
  · have hperm := h.inv.accounts
    rw [hcore] at hperm
    change (k'.free ++ k'.transit ++ _).Perm _
    rw [hacc]
    exact hperm
  · change (replay a k'.calls).1[d.1]? = some d.2
    rw [hcalls]
    exact h.inv.done d hd

theorem SpinInside.leave {k : SpinCore} {pre : List (Nat × SlabCall)} {c : SlabCall} {r : SlabResult}
    (h : SpinInside a t k pre.length s) (hk : k.critical = [t]) (horder : k.order = pre ++ [(t, c)])
    (hcall : seqCall (replay a (pre.map Prod.snd)).2 c = (r, k.sa)) (hfilling : k.filling = false)
    (htransit : k.transit = r.blocks.map fun b => a.index (t, b))
    (hblocks : ∀ b ∈ r.blocks, ∃ i < a.numEntries, b = a.block i) :
    SpinGuar t s (s.leave t r) ∧ SpinLeft a t pre.length r (s.leave t r) := by
  have hcore := h.core
  have hcrit : (s.leave t r).core.critical = [] := by
    change s.core.critical.erase t = []
    rw [hcore, hk, List.erase_cons_head]
  have hcalls : s.core.calls = pre.map Prod.snd ++ [c] := by
    rw [hcore, SpinCore.calls, horder, List.map_append, List.map_singleton]
  refine ⟨⟨fun u hu hmem => ?_, fun u hu hmem => ?_, List.prefix_rfl, fun _ _ => rfl, fun _ hn => Or.inl hn,
    fun u hu blk hblk => ?_⟩,
    ⟨⟨h.inv.shape, Or.inl ⟨rfl, hcrit⟩, fun _ => ⟨?_, rfl, ?_⟩, ?_, fun x hx => ?_, h.inv.done, h.inv.once⟩, ?_⟩,
    ⟨h.ticket, h.mine, h.fresh⟩, ?_, fun blk hblk => ?_⟩
  · rw [hcore, hk] at hmem
    exact absurd (List.mem_singleton.mp hmem) hu
  · rw [hcrit] at hmem
    cases hmem
  · exact List.mem_append_right _ hblk
  · change s.core.sa = (replay a s.core.calls).2
    rw [hcalls, replay_append, hcore]
    change k.sa = (seqCall (replay a (pre.map Prod.snd)).2 c).2
    rw [hcall]
  · change s.core.filling = false
    rw [hcore, hfilling]
  · have hperm := h.inv.accounts
    rw [hcore, htransit, List.append_assoc] at hperm
    change (s.core.free ++ [] ++ _).Perm _
    rw [hcore, List.append_nil]
    unfold Spin.held Spin.leave
    rw [List.append_assoc, List.map_append, List.map_map]
    exact hperm
  · change x ∈ r.blocks.map (t, ·) ++ s.inHand ++ s.rest at hx
    rw [List.append_assoc, List.mem_append] at hx
    rcases hx with hx | hx
    · obtain ⟨b, hb, rfl⟩ := List.mem_map.mp hx
      exact hblocks b hb
    · exact h.inv.blocks x hx
  · rw [hcrit]
    exact List.not_mem_nil
  · change (replay a s.core.calls).1[pre.length]? = some r
    rw [hcalls, ← List.length_map (f := Prod.snd), replay_last, hcall]
  · exact List.mem_append_left _ (List.mem_map.mpr ⟨blk, hblk, rfl⟩)

theorem SlabResult.blocks_cases (r : SlabResult) : r.blocks = [] ∨ ∃ b, r.blocks = [b] := by
  cases r with
  | block blk =>
    by_cases hnull : blk.ptr = 0
    · exact Or.inl (if_pos hnull)
    · exact Or.inr ⟨blk, if_neg hnull⟩
  | freed => exact Or.inl rfl
  | aborted msg => exact Or.inl rfl

theorem SpinLeft.finish {n : Nat} {r : SlabResult} (h : SpinLeft a t n r s) :
    SpinGuar t s (s.finish t r) ∧ SpinOutside a t (s.finish t r) := by
  have hdone : (s.finish t r).done.map Prod.fst = s.done.map Prod.fst ++ [n] := by
    change (s.done ++ [(s.ticket t, r)]).map Prod.fst = _
    rw [List.map_append, List.map_singleton, h.ticket]
  have hperm : ((s.finish t r).inHand ++ (s.finish t r).rest).Perm (s.inHand ++ s.rest) := by
    change (s.inHand.diff (r.blocks.map (t, ·)) ++ (r.blocks.map (t, ·) ++ s.rest)).Perm _
    rcases r.blocks_cases with hr | ⟨b, hr⟩
    · rw [hr]
      exact List.Perm.refl _
    · have hmem := h.hand b (by rw [hr]; exact List.mem_singleton_self b)
      rw [hr, List.map_singleton, List.diff_cons, List.diff_nil, ← List.append_assoc]
      refine List.Perm.append_right _ ?_
      exact (List.perm_append_singleton _ _).trans (List.perm_cons_erase hmem).symm
  refine ⟨⟨fun _ _ _ => rfl, fun _ _ hmem => hmem, List.prefix_rfl, fun _ _ => rfl, fun m hm => ?_,
    fun u hu blk hblk => ?_⟩,
    ⟨h.inv.shape, h.inv.mutex, h.inv.quiet, ?_, fun x hx => ?_, fun d hd => ?_, ?_⟩, h.out⟩
  · rw [hdone, List.mem_append, List.mem_singleton] at hm
    rcases hm with hm | rfl
    · exact Or.inl hm
    · exact Or.inr h.mine
  · exact mem_diff_of_ne hu hblk _
  · exact ((hperm.map _).append_left _).trans h.inv.accounts
  · exact h.inv.blocks x (hperm.mem_iff.mp hx)
  · rcases List.mem_append.mp hd with hd | hd
    · exact h.inv.done d hd
    · obtain rfl := List.mem_singleton.mp hd
      change (replay a s.core.calls).1[s.ticket t]? = some r
      rw [h.ticket]
      exact h.result
  · rw [hdone, List.nodup_append]
    refine ⟨h.inv.once, List.nodup_singleton n, fun x hx y hy => ?_⟩
    obtain rfl := List.mem_singleton.mp hy
    exact fun he => h.fresh (he ▸ hx)

/-! ## The critical sections -/

theorem StackAllocator.block_congr {sa : StackAllocator}
    (h : sa.baseAddr = a.baseAddr ∧ sa.entrySize = a.entrySize ∧ sa.numEntries = a.numEntries) (i : Nat) :
    sa.block i = a.block i := by
  rw [StackAllocator.block, StackAllocator.block, h.1, h.2.1]

theorem StackAllocator.Sized.congr {sa : StackAllocator} (hsized : a.Sized)
    (h : sa.baseAddr = a.baseAddr ∧ sa.entrySize = a.entrySize ∧ sa.numEntries = a.numEntries) : sa.Sized := by
  constructor
  · rw [h.1]
    exact hsized.base_ne
  · rw [h.2.1]
    exact hsized.size_pos
  · rw [h.2.1, h.2.2]
    exact hsized.bytes_lt

theorem StackAllocator.Sized.index_block (hsized : a.Sized) {i : Nat} (hi : i < a.numEntries) (t : Nat) :
    a.index (t, a.block i) = i := by
  rw [StackAllocator.index, hsized.entryId_block hi, Int.toNat_natCast]

theorem SpinLeft.ret {α : Type} {n : Nat} {r : α → SlabResult} {x : α} (h : SpinLeft a t n (r x) s) :
    Safe execSpin (spinContract a t) (.ret x) (fun y s => ∃ n, SpinLeft a t n (r y) s) s := by
  refine Safe.ret SpinLeft.stable ?_ h
  exact fun _ hs => ⟨n, hs⟩

/-- What `allocate` has done before it releases the lock. -/
def takenCore (k : SpinCore) : SpinCore :=
  { k with sa := k.sa.pop, transit := [k.sa.freeStack (k.sa.freeStackTop - 1)], filling := false }

theorem setTop_taken {k : SpinCore} (hcore : s.core = k) (htop : k.sa.freeStackTop ≠ 0) :
    s.setTop (k.sa.freeStackTop - 1) = { s with core := takenCore k } := by
  have hlt : k.sa.freeStackTop - 1 < k.sa.freeStackTop := by omega
  simp only [Spin.setTop, takenCore, hcore, StackAllocator.pop, if_pos hlt, decide_eq_true hlt, Bool.not_true]

theorem spinlockAllocate_safe {size : Nat} (hsized : a.Sized) (h : SpinOutside a t s) :
    Safe execSpin (spinContract a t) (spinlockAllocate a t size)
      (fun blk s => ∃ n, SpinLeft a t n (.block blk) s) s := by
  refine Safe.bind (Safe.mono ?_ (rteSpinlockLock_safe SpinOutside.stable
    (fun s hs hlock => hs.inv.enter hlock (List.Perm.refl _)) h))
  rintro ⟨⟩ s ⟨pre, hin⟩
  refine Safe.step (SpinInside.stable rfl) (fun s hs => ⟨_, _, rfl, SpinGuar.refl t s, ?_⟩) hin
  have hshape := hs.inv.shape
  have hacc := hs.inv.accounts
  rw [hs.core] at hshape hacc
  rw [Prog.ret_bind, hs.core]
  generalize hsa : (replay a (pre.map Prod.snd)).2 = sa
  simp only [enteredCore, hsa] at hshape hacc hs ⊢
  by_cases hrefuse : sa.freeStackTop = 0 ∨ size > a.entrySize
  · rw [if_pos hrefuse]
    refine Safe.step (SpinInside.stable rfl) (fun s hs => ⟨_, _, rfl, ?_⟩) hs
    have hcall : seqCall (replay a (pre.map Prod.snd)).2 (.allocate size) = (.block .null, sa) := by
      rw [hsa, seqCall, stackAllocatorAllocate_refused (by rw [hshape.2.1]; exact hrefuse)]
    obtain ⟨hg, hleft⟩ := hs.leave rfl rfl hcall rfl rfl (fun b hb => by cases hb)
    exact ⟨hg, SpinLeft.ret hleft⟩
  · rw [if_neg hrefuse]
    have htop : sa.freeStackTop ≠ 0 := by omega
    have hsize : size ≤ sa.entrySize := by
      rw [hshape.2.1]
      omega
    have hid : sa.freeStack (sa.freeStackTop - 1) < a.numEntries := by
      refine List.mem_range.mp (hacc.mem_iff.mp ?_)
      refine List.mem_append_left _ (List.mem_append_left _ ?_)
      change _ ∈ sa.free
      rw [StackAllocator.free_pop htop]
      exact List.mem_append_right _ (List.mem_singleton_self _)
    refine Safe.step (SpinInside.stable rfl) (fun s hs => ⟨_, _, rfl, SpinGuar.refl t s, ?_⟩) hs
    rw [Prog.ret_bind, hs.core]
    refine Safe.step (SpinInside.stable rfl) (fun s hs => ⟨_, _, rfl, ?_⟩) hs
    rw [setTop_taken hs.core htop]
    obtain ⟨hg, hs⟩ := hs.move (takenCore _) rfl rfl rfl rfl ⟨rfl, rfl, rfl⟩
      ((StackAllocator.free_pop htop).symm.trans (List.append_nil _).symm)
    refine ⟨hg, ?_⟩
    refine Safe.step (SpinInside.stable rfl) (fun s hs => ⟨_, _, rfl, SpinGuar.refl t s, ?_⟩) hs
    rw [Prog.ret_bind, hs.core]
    refine Safe.step (SpinInside.stable rfl) (fun s hs => ⟨_, _, rfl, ?_⟩) hs
    have hblocks : (SlabResult.block (a.block (sa.freeStack (sa.freeStackTop - 1)))).blocks =
        [a.block (sa.freeStack (sa.freeStackTop - 1))] := if_neg (hsized.block_ptr_ne _)
    have hcall : seqCall (replay a (pre.map Prod.snd)).2 (.allocate size) =
        (.block (a.block (sa.freeStack (sa.freeStackTop - 1))), sa.pop) := by
      rw [hsa, seqCall, stackAllocatorAllocate_served htop hsize, StackAllocator.block_congr hshape]
    obtain ⟨hg, hleft⟩ := hs.leave rfl rfl hcall rfl
      (by rw [hblocks, List.map_singleton, hsized.index_block hid]; rfl)
      (fun b hb => by rw [hblocks] at hb; exact ⟨_, hid, List.mem_singleton.mp hb⟩)
    exact ⟨hg, SpinLeft.ret hleft⟩

/-- `deallocate` has moved `free_stack_top`. -/
def raisedCore (k : SpinCore) : SpinCore :=
  { k with sa := { k.sa with freeStackTop := k.sa.freeStackTop + 1 }, filling := true }

/-- What `deallocate` has done before it releases the lock. -/
def filledCore (k : SpinCore) (i : Nat) : SpinCore := { k with sa := k.sa.push i, transit := [], filling := false }

theorem setTop_raised {k : SpinCore} (hcore : s.core = k) (hroom : k.sa.freeStackTop + 1 < 2 ^ 32) :
    s.setTop ((k.sa.freeStackTop + 1) % 2 ^ 32) = { s with core := raisedCore k } := by
  have hnot : ¬ k.sa.freeStackTop + 1 < k.sa.freeStackTop := by omega
  rw [Nat.mod_eq_of_lt hroom]
  simp only [Spin.setTop, raisedCore, hcore, if_neg hnot, decide_eq_false hnot, Bool.not_false]

theorem setSlot_filled {k : SpinCore} (hcore : s.core = raisedCore k) (hroom : k.sa.freeStackTop + 1 < 2 ^ 32)
    (i : Nat) : s.setSlot k.sa.freeStackTop i = { s with core := filledCore k i } := by
  simp only [Spin.setSlot, filledCore, hcore, raisedCore, StackAllocator.push, Nat.mod_eq_of_lt hroom]

theorem SpinGiving.enter {i : Nat} (hsized : a.Sized) (hi : i < a.numEntries) (h : SpinGiving a t (a.block i) s)
    (hlock : s.core.lock = 0) :
    SpinGuar t s (s.enter t (.deallocate (a.block i)) (some i)) ∧
      SpinEntered a t (.deallocate (a.block i)) (some i) (s.enter t (.deallocate (a.block i)) (some i)) := by
  refine h.inv.enter hlock ?_
  have hperm := ((List.perm_cons_erase h.hand).append_right s.rest).map a.index
  rw [List.cons_append, List.map_cons, hsized.index_block hi] at hperm
  simp only [Spin.held, Spin.enter, SlabCall.blocks, List.map_singleton, List.diff_cons, List.diff_nil]
  exact hperm.symm

theorem spinlockDeallocate_safe {blk : MemBlk} (hsized : a.Sized) (h : SpinGiving a t blk s) :
    Safe execSpin (spinContract a t) (spinlockDeallocate a t blk) (fun _ s => ∃ n, SpinLeft a t n .freed s) s := by
  obtain ⟨i, hi, rfl⟩ := h.inv.blocks (t, blk) (List.mem_append_left _ h.hand)
  unfold spinlockDeallocate
  rw [hsized.check_block hi]
  refine Safe.bind (Safe.mono ?_ (rteSpinlockLock_safe SpinGiving.stable
    (fun s hs hlock => hs.enter hsized hi hlock) h))
  rintro ⟨⟩ s ⟨pre, hin⟩
  refine Safe.step (SpinInside.stable rfl) (fun s hs => ⟨_, _, rfl, SpinGuar.refl t s, ?_⟩) hin
  have hshape := hs.inv.shape
  have hacc := hs.inv.accounts
  rw [hs.core] at hshape hacc
  rw [Prog.ret_bind, hs.core]
  generalize hsa : (replay a (pre.map Prod.snd)).2 = sa
  simp only [enteredCore, hsa] at hshape hacc hs ⊢
  rw [hsa]
  -- the entry in transit leaves room on the stack
  have hroom : sa.freeStackTop + 1 < 2 ^ 32 := by
    have hlen := hacc.length_eq
    have hnum := hsized.num_lt
    have hfree : sa.free.length = sa.freeStackTop := sa.free_length
    change (sa.free ++ [i] ++ s.held a).length = _ at hlen
    rw [List.length_append, List.length_append, List.length_singleton, List.length_range, hfree] at hlen
    omega
  refine Safe.step (SpinInside.stable rfl) (fun s hs => ⟨_, _, rfl, ?_⟩) hs
  rw [setTop_raised hs.core hroom]
  obtain ⟨hg, hs⟩ := hs.move (raisedCore _) rfl rfl rfl rfl ⟨rfl, rfl, rfl⟩ rfl
  refine ⟨hg, ?_⟩
  refine Safe.step (SpinInside.stable rfl) (fun s hs => ⟨_, _, rfl, ?_⟩) hs
  rw [setSlot_filled hs.core hroom]
  obtain ⟨hg, hs⟩ := hs.move (filledCore _ i) rfl rfl rfl rfl ⟨rfl, rfl, rfl⟩
    ((List.append_nil _).trans (StackAllocator.free_push hroom i))
  refine ⟨hg, ?_⟩
  refine Safe.step (SpinInside.stable rfl) (fun s hs => ⟨_, _, rfl, ?_⟩) hs
  have hcall : seqCall (replay a (pre.map Prod.snd)).2 (.deallocate (a.block i)) = (.freed, sa.push i) := by
    have hi' : i < sa.numEntries := by rwa [hshape.2.2]
    rw [hsa, seqCall, ← StackAllocator.block_congr hshape, (hsized.congr hshape).deallocate_block hi']
  obtain ⟨hg, hleft⟩ := hs.leave rfl rfl hcall rfl rfl (fun b hb => by cases hb)
  exact ⟨hg, SpinLeft.ret (r := fun _ => .freed) hleft⟩

/-! ## Threads -/

theorem SpinOutside.give {h : Nat × MemBlk} (hs : SpinOutside a t s) (cs : List SlabCall) (hmem : h ∈ s.rest) :
    SpinGuar t s { s with
        script := Function.update s.script t cs, rest := s.rest.erase h, inHand := (t, h.2) :: s.inHand } ∧
      SpinGiving a t h.2 { s with
        script := Function.update s.script t cs, rest := s.rest.erase h, inHand := (t, h.2) :: s.inHand } := by
  have hperm : ((s.inHand ++ s.rest).map a.index).Perm
      (((t, h.2) :: s.inHand ++ s.rest.erase h).map a.index) := by
    refine (((List.perm_cons_erase hmem).append_left s.inHand).map a.index).trans ?_
    exact (List.perm_middle.map a.index)
  refine ⟨⟨fun _ _ _ => rfl, fun _ _ hm => hm, List.prefix_rfl, fun _ _ => rfl, fun _ hn => Or.inl hn,
    fun _ _ _ hblk => List.mem_cons_of_mem _ hblk⟩,
    ⟨⟨hs.inv.shape, hs.inv.mutex, hs.inv.quiet, ?_, fun x hx => ?_, hs.inv.done, hs.inv.once⟩, hs.out⟩,
    List.mem_cons_self⟩
  · exact (hperm.symm.append_left _).trans hs.inv.accounts
  · rw [List.cons_append, List.mem_cons, List.mem_append] at hx
    rcases hx with rfl | hx | hx
    · exact hs.inv.blocks h (List.mem_append_right _ hmem)
    · exact hs.inv.blocks x (List.mem_append_left _ hx)
    · exact hs.inv.blocks x (List.mem_append_right _ (List.mem_of_mem_erase hx))

theorem SpinLeft.return {n : Nat} {r : SlabResult} (h : SpinLeft a t n r s) :
    Safe execSpin (spinContract a t) (do
      Prog.access (SpinOp.ret t r)
      return (.inl () : Unit ⊕ Unit)) (fun _ => SpinOutside a t) s := by
  refine Safe.step SpinLeft.stable (fun s hs => ⟨_, _, rfl, hs.finish.1, ?_⟩) h
  refine Safe.ret SpinOutside.stable ?_ hs.finish.2
  exact fun _ hs => hs

theorem spinServe_safe (hsized : a.Sized) (h : SpinOutside a t s) :
    Safe execSpin (spinContract a t) (spinServe a t ()) (fun _ => SpinOutside a t) s := by
  refine Safe.op SpinOutside.stable (fun s r s' hs he => ?_) h
  rw [Prog.ret_bind]
  cases hscript : s.script t with
  | nil =>
    simp only [execSpin, hscript] at he
    cases he
    refine ⟨SpinGuar.refl t s, Safe.ret SpinOutside.stable ?_ hs⟩
    exact fun _ hs => hs
  | cons c cs =>
    cases c with
    | allocate size =>
      simp only [execSpin, hscript] at he
      cases he
      refine ⟨⟨fun _ _ _ => rfl, fun _ _ hm => hm, List.prefix_rfl, fun _ _ => rfl, fun _ hn => Or.inl hn,
        fun _ _ _ hblk => hblk⟩, ?_⟩
      refine Safe.bind (Safe.mono ?_ (spinlockAllocate_safe hsized ⟨⟨hs.inv.shape, hs.inv.mutex, hs.inv.quiet,
        hs.inv.accounts, hs.inv.blocks, hs.inv.done, hs.inv.once⟩, hs.out⟩))
      rintro blk s ⟨n, hleft⟩
      exact hleft.return
    | deallocate blk =>
      cases hfind : s.rest.find? (fun h => h.2 = blk) with
      | none =>
        simp only [execSpin, hscript, hfind] at he
        cases he
      | some x =>
        simp only [execSpin, hscript, hfind] at he
        cases he
        obtain rfl : x.2 = blk := by simpa using List.find?_some hfind
        obtain ⟨hg, hgive⟩ := hs.give cs (List.mem_of_find?_eq_some hfind)
        refine ⟨hg, Safe.bind (Safe.mono ?_ (spinlockDeallocate_safe hsized hgive))⟩
        rintro ⟨⟩ s ⟨n, hleft⟩
        exact hleft.return

theorem spinThread_safe (hsized : a.Sized) (h : SpinOutside a t s) :
    Safe execSpin (spinContract a t) (spinThread a t) (fun _ => SpinOutside a t) s := by
  refine Safe.loop (J := fun _ => SpinOutside a t) (fun _ => SpinOutside.stable) (fun _ s _ => SpinGuar.refl t s)
    (fun _ s hs => Safe.mono ?_ (spinServe_safe hsized hs)) h
  intro r s hs
  cases r with
  | inl _ => exact hs
  | inr _ =>
    refine Safe.ret SpinOutside.stable ?_ hs
    exact fun _ hs => hs

/-- A new allocator, and threads that have not called it yet. -/
def spinBoot (a : StackAllocator) (script : Nat → List SlabCall) : Spin :=
  ⟨⟨0, a, [], [], [], false⟩, script, fun _ => 0, [], [], []⟩

theorem spinBoot_outside (hfree : a.free = List.range a.numEntries) (script : Nat → List SlabCall) :
    SpinOutside a t (spinBoot a script) := by
  refine ⟨⟨⟨rfl, rfl, rfl⟩, Or.inl ⟨rfl, rfl⟩, fun _ => ⟨rfl, rfl, rfl⟩, ?_, ?_, ?_, List.nodup_nil⟩, List.not_mem_nil⟩
  · change (a.free ++ [] ++ []).Perm _
    rw [List.append_nil, List.append_nil, hfree]
  · intro x hx
    cases hx
  · intro d hd
    cases hd

/-- In use by threads, the allocator behaves as the plain one does under the calls one after the other. -/
structure Linearized (a : StackAllocator) (p : Pool Spin SpinOp SpinRet Unit) : Prop where
  exclusive : p.state.core.critical.length ≤ 1
  disjoint : (p.state.inHand ++ p.state.rest).Pairwise fun x y => x.2.Disjoint y.2
  accounts : (p.state.core.free ++ p.state.core.transit ++ p.state.held a).Perm (List.range a.numEntries)
  results : ∀ d ∈ p.state.done, (replay a p.state.core.calls).1[d.1]? = some d.2
  once : (p.state.done.map Prod.fst).Nodup
  running : ∀ t msg, p.progs t ≠ .abort msg

theorem SpinInv.disjoint (hsized : a.Sized) (h : SpinInv a s) :
    (s.inHand ++ s.rest).Pairwise fun x y => x.2.Disjoint y.2 := by
  have hnodup : (s.held a).Nodup := ((h.accounts.nodup_iff.mpr List.nodup_range).of_append_right)
  refine (List.pairwise_map.mp hnodup).imp_of_mem fun {x y} hx hy hne => ?_
  obtain ⟨i, hi, hxi⟩ := h.blocks x hx
  obtain ⟨j, hj, hyj⟩ := h.blocks y hy
  rw [hxi, hyj]
  refine hsized.block_disjoint hi hj fun hij => hne ?_
  rw [StackAllocator.index, StackAllocator.index, hxi, hyj, hij]

/-- **Main result.** In all interleavings of any number of threads, the spinlock allocator is linearizable. -/
theorem spinlock_linearizable {numEntries entrySize : Nat} {mem : MemBlk} (script : Nat → List SlabCall)
    (ts : List Nat) {p : Pool Spin SpinOp SpinRet Unit} (hbytes : numEntries * stackEntrySize entrySize < 2 ^ 32)
    (hnew : stackAllocatorNew numEntries entrySize mem = some a)
    (hrun : Pool.run execSpin ts ⟨spinBoot a script, spinThread a⟩ = some p) : Linearized a p := by
  have hsized := stackAllocatorNew_sized hbytes hnew
  have hsafe := Pool.run_safe ts
    (fun t => spinThread_safe (t := t) hsized (spinBoot_outside (stackAllocatorNew_free hnew) script)) hrun
  have hinv : SpinInv a p.state := (hsafe 0).inv
  refine ⟨?_, hinv.disjoint hsized, hinv.accounts, hinv.done, hinv.once, fun t msg habort => ?_⟩
  · rcases hinv.mutex with ⟨-, hcrit⟩ | ⟨-, t, hcrit⟩
    · rw [hcrit]
      exact Nat.zero_le 1
    · rw [hcrit]
      exact Nat.le_refl 1
  · have hs := hsafe t
    rw [habort] at hs
    exact hs.aborts

/-- Two threads: the first one allocates and gives the block back, the second one allocates. -/
def pairScript : Nat → List SlabCall
  | 0 => [.allocate 64, .deallocate ⟨0x1040, 64⟩]
  | 1 => [.allocate 1]
  | _ => []

/-- The second one finds the lock taken. -/
def pairSchedule : List Nat :=
  List.replicate 4 0 ++ List.replicate 6 1 ++ List.replicate 17 0 ++ List.replicate 12 1

theorem spinlock_linearizable_pair :
    ∃ a p, stackAllocatorNew 2 64 ⟨0x1000, 128⟩ = some a ∧
      Pool.run execSpin pairSchedule ⟨spinBoot a pairScript, spinThread a⟩ = some p ∧
      p.state.done = [(0, .block ⟨0x1040, 64⟩), (1, .freed), (2, .block ⟨0x1040, 64⟩)] ∧ Linearized a p := by
  have hbytes : 2 * stackEntrySize 64 < 2 ^ 32 := by decide
  exact ⟨_, _, rfl, rfl, rfl, spinlock_linearizable pairScript pairSchedule hbytes
    (Eq.refl (stackAllocatorNew 2 64 ⟨0x1000, 128⟩)) rfl⟩

end

end Ixy
