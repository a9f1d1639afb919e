import Ixy.Lib.Reentrant
import Ixy.Lib.Threads
import Mathlib.Tactic.Ring

/-!
# The recursive spinlock (`rte_spinlock.h`)

`rte_spinlock_recursive_lock` and its companions as programs of single accesses to the lock, to the variable in which
a thread keeps its id, and to the kernel. Any number of threads run them in any interleaving.

History records the calls in the order in which they take effect: taking the lock at the `test_and_set` that succeeds,
giving it back at the `release`, and everything in between at the store of `count`. `recursive_lock_refines`: in that
order they are what a reentrant lock does (`Ixy.Lib.Reentrant`), whatever the interleaving.
-/

namespace Ixy

open Lib Lib.Reentrant

/-! ## The lock and its callers -/

/-- The ids that the kernel has given to the threads. -/
structure ThreadIds where
  id : Nat → Int
  injective : Function.Injective id
  ne_unused : ∀ t, id t ≠ -1

structure RecState where
  locked : Nat
  user : Int
  count : Int
  /-- `_thread_id` of each thread. -/
  threadId : Nat → Int
  /-- What a thread calls next, given the results so far. -/
  client : Nat → List (Call × Bool) → Option Call
  results : Nat → List (Call × Bool)
  /-- History: the call that a thread is in. -/
  calling : Nat → Option Call
  /-- History: the calls that have taken effect. -/
  events : List Event

/-- `rte_spinlock_recursive_init`, before any thread has used the lock. -/
def rteSpinlockRecursiveInit (client : Nat → List (Call × Bool) → Option Call) : RecState where
  locked := 0
  user := -1
  count := 0
  threadId _ := -1
  client := client
  results _ := []
  calling _ := none
  events := []

/-- Accesses. The arguments that are not stored are for the history. -/
inductive RecOp where
  | next (t : Nat)
  | idLd (t : Nat)
  | sysGettid (t : Nat)
  | idSt (t : Nat) (v : Int)
  | userLd
  | userSt (v : Int)
  | countLd
  | countSt (t : Nat) (v : Int) (effect : Option Call)
  | tas (t : Nat) (c : Call)
  | lockLd
  | release (t : Nat)
  | ret (t : Nat) (c : Call) (ok : Bool)

@[reducible] def RecRet : RecOp → Type
  | .next _ => Option Call
  | .idLd _ | .sysGettid _ | .userLd | .countLd => Int
  | .tas _ _ | .lockLd => Nat
  | _ => Unit

/-- May a thread with these results make the call? Only what was taken is given back, and `count` is an `int`. -/
def callable (rs : List (Call × Bool)) : Call → Bool
  | .unlock => 0 < nesting rs
  | _ => nesting rs + 1 < 2 ^ 31

section
variable (T : ThreadIds)

def execRec : (o : RecOp) → RecState → Option (RecRet o × RecState)
  | .next t, s =>
    match s.client t (s.results t) with
    | none => some (none, s)
    | some c =>
      if callable (s.results t) c then some (some c, { s with calling := Function.update s.calling t (some c) })
      else none
  | .idLd t, s => some (s.threadId t, s)
  | .sysGettid t, s => some (T.id t, s)
  | .idSt t v, s => some ((), { s with threadId := Function.update s.threadId t v })
  | .userLd, s => some (s.user, s)
  | .userSt v, s => some ((), { s with user := v })
  | .countLd, s => some (s.count, s)
  | .countSt t v effect, s =>
    some ((), { s with count := v, events := s.events ++ (effect.map fun c => ⟨t, c, true⟩).toList })
  | .tas t c, s =>
    some (s.locked,
      if s.locked = 0 then { s with locked := 1, events := s.events ++ [⟨t, c, true⟩] }
      else if c = .trylock then { s with locked := 1, events := s.events ++ [⟨t, c, false⟩] }
      else { s with locked := 1 })
  | .lockLd, s => some (s.locked, s)
  | .release t, s => some ((), { s with locked := 0, events := s.events ++ [⟨t, .unlock, true⟩] })
  | .ret t c ok, s => some ((), { s with
      results := Function.update s.results t (s.results t ++ [(c, ok)])
      calling := Function.update s.calling t none })

end

/-! ## The code -/

abbrev RecCode := Prog RecOp RecRet

/-- `rte_gettid`. -/
def rteGettid (t : Nat) : RecCode Int := do
  let id ← Prog.access (RecOp.idLd t)
  if id = -1 then do
    let id ← Prog.access (RecOp.sysGettid t)
    Prog.access (RecOp.idSt t id)
    Prog.access (RecOp.idLd t)
  else Prog.access (RecOp.idLd t)

/-- `rte_spinlock_lock`, called for `c`. -/
def recSpinlockLock (t : Nat) (c : Call) : RecCode Unit :=
  Prog.spinLock (Prog.access (RecOp.tas t c)) (Prog.access RecOp.lockLd)

/-- `slr->count++`. For a thread that has the lock already, this is what takes it again. -/
def incrementCount (t : Nat) (again : Option Call) : RecCode Unit := do
  let count ← Prog.access RecOp.countLd
  Prog.access (RecOp.countSt t (Int.bmod (count + 1) (2 ^ 32)) again)

/-- `rte_spinlock_recursive_lock`. -/
def rteSpinlockRecursiveLock (t : Nat) : RecCode Unit := do
  let id ← rteGettid t
  let user ← Prog.access RecOp.userLd
  if user ≠ id then do
    recSpinlockLock t .lock
    Prog.access (RecOp.userSt id)
    incrementCount t none
  else incrementCount t (some .lock)

/-- `rte_spinlock_recursive_unlock`. -/
def rteSpinlockRecursiveUnlock (t : Nat) : RecCode Unit := do
  let count ← Prog.access RecOp.countLd
  let count := Int.bmod (count - 1) (2 ^ 32)
  Prog.access (RecOp.countSt t count (if count = 0 then none else some .unlock))
  if count = 0 then do
    Prog.access (RecOp.userSt (-1))
    Prog.access (RecOp.release t)
  else return ()

/-- `rte_spinlock_recursive_trylock`. -/
def rteSpinlockRecursiveTrylock (t : Nat) : RecCode Bool := do
  let id ← rteGettid t
  let user ← Prog.access RecOp.userLd
  if user ≠ id then do
    -- `rte_spinlock_trylock`
    let old ← Prog.access (RecOp.tas t .trylock)
    if old ≠ 0 then return false
    else do
      Prog.access (RecOp.userSt id)
      incrementCount t none
      return true
  else do
    incrementCount t (some .trylock)
    return true

/-- One call of a thread. -/
def recServe (t : Nat) (_ : Unit) : RecCode (Unit ⊕ Unit) := do
  let c ← Prog.access (RecOp.next t)
  match c with
  | none => return .inr ()
  | some .lock => do
    rteSpinlockRecursiveLock t
    Prog.access (RecOp.ret t .lock true)
    return .inl ()
  | some .unlock => do
    rteSpinlockRecursiveUnlock t
    Prog.access (RecOp.ret t .unlock true)
    return .inl ()
  | some .trylock => do
    let ok ← rteSpinlockRecursiveTrylock t
    Prog.access (RecOp.ret t .trylock ok)
    return .inl ()

def recThread (t : Nat) : RecCode Unit := Prog.iterate (recServe t) ()

/-! ## The invariant -/

/-- The lock as a reentrant lock. -/
def RecState.holder (s : RecState) : Option Holder := runs Reentrant.step none s.events

structure RecInv (T : ThreadIds) (s : RecState) : Prop where
  lock : ∃ h, s.holder = some h ∧ s.locked = (if h = none then 0 else 1) ∧ (h = none → s.count = 0)
  user : ∀ t, s.user = T.id t → ∃ d, s.holder = some (some (t, d))
  ids : ∀ t, s.threadId t = -1 ∨ s.threadId t = T.id t
  returned : ∀ t, s.results t <+: eventsOf t s.events
  idle : ∀ t, s.calling t = none → s.results t = eventsOf t s.events

/-- What the others can count on when thread `t` makes a move. -/
structure RecGuar (t : Nat) (s s' : RecState) : Prop where
  held : ∀ u ≠ t, ∀ d, s.holder = some (some (u, d)) →
    s'.holder = s.holder ∧ s'.user = s.user ∧ s'.count = s.count
  taken : ∀ u ≠ t, ∀ d, s'.holder = some (some (u, d)) → s.holder = some (some (u, d))
  results : ∀ u ≠ t, s'.results u = s.results u
  calling : ∀ u ≠ t, s'.calling u = s.calling u
  events : ∀ u ≠ t, eventsOf u s'.events = eventsOf u s.events
  ids : ∀ u ≠ t, s'.threadId u = s.threadId u

/-- The contract of thread `t`. -/
def recContract (T : ThreadIds) (t : Nat) : Contract RecState :=
  threadContract (RecInv T) RecGuar (fun _ _ => False) t

/-- Thread `t` does not have the lock, or has it so often, with these values of `user` and `count`. -/
def RecState.OwnedBy (s : RecState) (t : Nat) : Option (Nat × Int × Int) → Prop
  | none => ∀ d, s.holder ≠ some (some (t, d))
  | some (d, user, count) => s.holder = some (some (t, d)) ∧ s.user = user ∧ s.count = count

/-- What thread `t` knows: the call that it is in, whether that has taken effect, and what it has of the lock. -/
structure RecKnows (T : ThreadIds) (t : Nat) (c : Option Call) (done : List (Call × Bool))
    (own : Option (Nat × Int × Int)) (s : RecState) : Prop where
  inv : RecInv T s
  calling : s.calling t = c
  pending : eventsOf t s.events = s.results t ++ done
  own : s.OwnedBy t own

section
variable {T : ThreadIds} {t : Nat} {c : Option Call} {done : List (Call × Bool)} {own : Option (Nat × Int × Int)}
variable {s s' : RecState}

theorem RecKnows.stable : Stable (recContract T t) (RecKnows T t c done own) := by
  refine ⟨?_, fun s h => h.inv⟩
  rintro s s' h ⟨u, hu, hg, hinv⟩
  have ht : t ≠ u := Ne.symm hu
  refine ⟨hinv, (hg.calling t ht).trans h.calling, ?_, ?_⟩
  · rw [hg.events t ht, hg.results t ht]
    exact h.pending
  · cases own with
    | none => exact fun d hd => h.own d (hg.taken t ht d hd)
    | some o =>
      obtain ⟨d, user, count⟩ := o
      obtain ⟨hholder, huser, hcount⟩ := h.own
      obtain ⟨hholder', huser', hcount'⟩ := hg.held t ht d hholder
      exact ⟨hholder'.trans hholder, huser'.trans huser, hcount'.trans hcount⟩

/-! ## Moves -/

/-- A move of thread `t` in the code of the lock, after which `new` has taken effect. -/
structure RecMove (t : Nat) (new : List (Call × Bool)) (s s' : RecState) : Prop where
  mine : eventsOf t s'.events = eventsOf t s.events ++ new
  others : ∀ u ≠ t, eventsOf u s'.events = eventsOf u s.events
  results : s'.results = s.results
  calling : s'.calling = s.calling
  ids : s'.threadId = s.threadId

theorem RecMove.silent (hevents : s'.events = s.events) (hresults : s'.results = s.results)
    (hcalling : s'.calling = s.calling) (hids : s'.threadId = s.threadId) : RecMove t [] s s' :=
  ⟨by rw [hevents, List.append_nil], fun u _ => by rw [hevents], hresults, hcalling, hids⟩

theorem RecMove.event {c : Call} {ok : Bool} (hevents : s'.events = s.events ++ [⟨t, c, ok⟩])
    (hresults : s'.results = s.results) (hcalling : s'.calling = s.calling) (hids : s'.threadId = s.threadId) :
    RecMove t [(c, ok)] s s' := by
  refine ⟨?_, fun u hu => ?_, hresults, hcalling, hids⟩
  · rw [hevents, eventsOf_concat_self s.events ⟨t, c, ok⟩]
  · rw [hevents, eventsOf_concat_of_ne s.events (e := ⟨t, c, ok⟩) hu.symm]

theorem RecState.holder_concat {e : Event} (hevents : s'.events = s.events ++ [e]) :
    s'.holder = s.holder.bind fun h => Reentrant.step h e := by
  rw [holder, hevents, runs_concat, holder]

/-- The lock after a move, seen from all threads. -/
structure LockMove (T : ThreadIds) (t : Nat) (s s' : RecState) : Prop where
  lock : ∃ h, s'.holder = some h ∧ s'.locked = (if h = none then 0 else 1) ∧ (h = none → s'.count = 0)
  user : ∀ u, s'.user = T.id u → ∃ d, s'.holder = some (some (u, d))
  held : ∀ u ≠ t, ∀ d, s.holder = some (some (u, d)) →
    s'.holder = s.holder ∧ s'.user = s.user ∧ s'.count = s.count
  taken : ∀ u ≠ t, ∀ d, s'.holder = some (some (u, d)) → s.holder = some (some (u, d))

theorem RecKnows.move {c : Call} {new : List (Call × Bool)} {own' : Option (Nat × Int × Int)}
    (h : RecKnows T t (some c) done own s) (hm : RecMove t new s s') (hl : LockMove T t s s')
    (hown : s'.OwnedBy t own') :
    RecGuar t s s' ∧ RecKnows T t (some c) (done ++ new) own' s' := by
  have hcalling : s'.calling t = some c := by
    rw [hm.calling]
    exact h.calling
  refine ⟨⟨hl.held, hl.taken, fun u _ => by rw [hm.results], fun u _ => by rw [hm.calling], hm.others,
    fun u _ => by rw [hm.ids]⟩,
    ⟨hl.lock, hl.user, ?_, fun u => ?_, fun u hu => ?_⟩, hcalling, ?_, hown⟩
  · rw [hm.ids]
    exact h.inv.ids
  · rw [hm.results]
    by_cases hut : u = t
    · subst hut
      rw [hm.mine]
      exact (h.inv.returned u).trans (List.prefix_append _ _)
    · rw [hm.others u hut]
      exact h.inv.returned u
  · by_cases hut : u = t
    · subst hut
      rw [hcalling] at hu
      cases hu
    · rw [hm.results, hm.others u hut]
      rw [hm.calling] at hu
      exact h.inv.idle u hu
  · rw [hm.mine, hm.results, h.pending, List.append_assoc]

theorem RecKnows.ownMove {c : Call} {new : List (Call × Bool)} {d d' : Nat} {user count : Int}
    (h : RecKnows T t (some c) done (some (d, user, count)) s) (hm : RecMove t new s s')
    (hholder : s'.holder = some (some (t, d'))) (hlocked : s'.locked = s.locked)
    (huser : s'.user = T.id t ∨ s'.user = -1 ∨ s'.user = s.user) :
    RecGuar t s s' ∧ RecKnows T t (some c) (done ++ new) (some (d', s'.user, s'.count)) s' := by
  obtain ⟨hold, hu, hcount⟩ := h.own
  obtain ⟨h₀, hh₀, hlock, -⟩ := h.inv.lock
  rw [hold, Option.some.injEq] at hh₀
  subst hh₀
  refine h.move hm ⟨⟨_, hholder, hlocked.trans hlock, nofun⟩, fun u hid => ?_, fun u hu d hd => ?_, fun u hu d hd => ?_⟩
    ⟨hholder, rfl, rfl⟩
  · have hut : u = t := by
      rcases huser with heq | heq | heq
      · exact T.injective (hid.symm.trans heq)
      · exact absurd (hid.symm.trans heq) (T.ne_unused u)
      · obtain ⟨d, hd⟩ := h.inv.user u (heq.symm.trans hid)
        rw [hold] at hd
        cases hd
        rfl
    rw [hut]
    exact ⟨d', hholder⟩
  · rw [hold] at hd
    cases hd
    exact absurd rfl hu
  · rw [hholder] at hd
    cases hd
    exact absurd rfl hu

theorem RecGuar.refl (t : Nat) (s : RecState) : RecGuar t s s :=
  ⟨fun _ _ _ _ => ⟨rfl, rfl, rfl⟩, fun _ _ _ h => h, fun _ _ => rfl, fun _ _ => rfl, fun _ _ => rfl, fun _ _ => rfl⟩

/-! ## Rules for the accesses -/

section
variable {α : Type} {Q : α → RecState → Prop} {c : Call}

theorem RecKnows.read {o : RecOp} {k : RecRet o → RecCode α} {f : RecState → RecRet o} {P : RecRet o → Prop}
    (h : RecKnows T t (some c) done own s) (hread : ∀ s, execRec T o s = some (f s, s))
    (hP : ∀ s, RecKnows T t (some c) done own s → P (f s))
    (hk : ∀ r s, P r → RecKnows T t (some c) done own s → Safe (execRec T) (recContract T t) (k r) Q s) :
    Safe (execRec T) (recContract T t) (.op o k) Q s := by
  refine Safe.step RecKnows.stable (fun s h => ?_) h
  exact ⟨f s, s, hread s, .refl t s, hk (f s) s (hP s h) h⟩

theorem RecKnows.leave {c : Option Call} {x : α} (h : RecKnows T t c done own s)
    (hQ : ∀ s, RecKnows T t c done own s → Q x s) : Safe (execRec T) (recContract T t) (.ret x) Q s :=
  Safe.ret RecKnows.stable hQ h

theorem RecKnows.write {o : RecOp} {k : RecRet o → RecCode α} {r : RecRet o} {new : List (Call × Bool)} {d d' : Nat}
    {user user' count count' : Int} (h : RecKnows T t (some c) done (some (d, user, count)) s)
    (hwrite : ∀ s, s.holder = some (some (t, d)) → s.user = user → s.count = count →
      ∃ s', execRec T o s = some (r, s') ∧ RecMove t new s s' ∧ s'.holder = some (some (t, d')) ∧
        s'.locked = s.locked ∧ s'.user = user' ∧ s'.count = count')
    (huser : user' = T.id t ∨ user' = -1 ∨ user' = user)
    (hk : ∀ s, RecKnows T t (some c) (done ++ new) (some (d', user', count')) s →
      Safe (execRec T) (recContract T t) (k r) Q s) :
    Safe (execRec T) (recContract T t) (.op o k) Q s := by
  refine Safe.step RecKnows.stable (fun s h => ?_) h
  obtain ⟨hholder, hu, hc⟩ := h.own
  obtain ⟨s', he, hm, hholder', hlocked, hu', hc'⟩ := hwrite s hholder hu hc
  obtain ⟨hguar, hknows⟩ := h.ownMove hm hholder' hlocked (by rw [hu', hu]; exact huser)
  rw [hu', hc'] at hknows
  exact ⟨r, s', he, hguar, hk s' hknows⟩

theorem RecKnows.userSt {k : Unit → RecCode α} {d : Nat} {user user' count : Int}
    (h : RecKnows T t (some c) done (some (d, user, count)) s) (huser : user' = T.id t ∨ user' = -1)
    (hk : ∀ s, RecKnows T t (some c) done (some (d, user', count)) s →
      Safe (execRec T) (recContract T t) (k ()) Q s) :
    Safe (execRec T) (recContract T t) (.op (.userSt user') k) Q s := by
  have hk' : ∀ s, RecKnows T t (some c) (done ++ []) (some (d, user', count)) s →
      Safe (execRec T) (recContract T t) (k ()) Q s := by
    rw [List.append_nil]
    exact hk
  refine h.write (fun s hholder hu hc => ?_) (huser.imp id Or.inl) hk'
  exact ⟨{ s with user := user' }, rfl, .silent rfl rfl rfl rfl, hholder, rfl, rfl, hc⟩

theorem RecKnows.countSt {k : Unit → RecCode α} {d : Nat} {user count count' : Int}
    (h : RecKnows T t (some c) done (some (d, user, count)) s)
    (hk : ∀ s, RecKnows T t (some c) done (some (d, user, count')) s →
      Safe (execRec T) (recContract T t) (k ()) Q s) :
    Safe (execRec T) (recContract T t) (.op (.countSt t count' none) k) Q s := by
  have hk' : ∀ s, RecKnows T t (some c) (done ++ []) (some (d, user, count')) s →
      Safe (execRec T) (recContract T t) (k ()) Q s := by
    rw [List.append_nil]
    exact hk
  refine h.write (fun s hholder hu hc => ?_) (Or.inr (Or.inr rfl)) hk'
  refine ⟨{ s with count := count', events := s.events ++ [] }, rfl, .silent (List.append_nil _) rfl rfl rfl, ?_, rfl,
    hu, rfl⟩
  rw [RecState.holder, List.append_nil]
  exact hholder

theorem RecKnows.countSt_effect {k : Unit → RecCode α} {d d' : Nat} {user count count' : Int}
    (h : RecKnows T t (some c) [] (some (d, user, count)) s)
    (heffect : Reentrant.step (some (t, d)) ⟨t, c, true⟩ = some (some (t, d')))
    (hk : ∀ s, RecKnows T t (some c) [(c, true)] (some (d', user, count')) s →
      Safe (execRec T) (recContract T t) (k ()) Q s) :
    Safe (execRec T) (recContract T t) (.op (.countSt t count' (some c)) k) Q s := by
  have hk' : ∀ s, RecKnows T t (some c) ([] ++ [(c, true)]) (some (d', user, count')) s →
      Safe (execRec T) (recContract T t) (k ()) Q s := hk
  refine h.write (fun s hholder hu hc => ?_) (Or.inr (Or.inr rfl)) hk'
  refine ⟨{ s with count := count', events := s.events ++ [⟨t, c, true⟩] }, rfl, .event rfl rfl rfl rfl, ?_,
    rfl, hu, rfl⟩
  rw [RecState.holder_concat (s := s) rfl, hholder]
  exact heffect

theorem RecKnows.tas {k : Nat → RecCode α} (h : RecKnows T t (some c) [] none s) (hc : c = .lock ∨ c = .trylock)
    (htaken : ∀ s user, RecKnows T t (some c) [(c, true)] (some (1, user, 0)) s →
      Safe (execRec T) (recContract T t) (k 0) Q s)
    (hbusy : ∀ s, RecKnows T t (some c) (if c = .trylock then [(c, false)] else []) none s →
      Safe (execRec T) (recContract T t) (k 1) Q s) :
    Safe (execRec T) (recContract T t) (.op (.tas t c) k) Q s := by
  refine Safe.step RecKnows.stable (fun s h => ?_) h
  obtain ⟨h₀, hholder, hlocked, hcount⟩ := h.inv.lock
  cases h₀ with
  | none =>
    have hlocked : s.locked = 0 := hlocked
    set s' : RecState := { s with locked := 1, events := s.events ++ [⟨t, c, true⟩] } with hs'
    have hexec : execRec T (.tas t c) s = some ((0 : Nat), s') := by
      simp only [execRec, hlocked, if_true, hs']
    have hholder' : s'.holder = some (some (t, 1)) := by
      rw [RecState.holder_concat (s := s) rfl, hholder]
      rcases hc with rfl | rfl <;> rfl
    have hl : LockMove T t s s' := by
      refine ⟨⟨_, hholder', rfl, nofun⟩, fun u hu => ?_, fun u _ d hd => ?_, fun u hu d hd => ?_⟩
      · obtain ⟨d, hd⟩ := h.inv.user u hu
        rw [hholder] at hd
        cases hd
      · rw [hholder] at hd
        cases hd
      · rw [hholder'] at hd
        cases hd
        exact absurd rfl hu
    have hm : RecMove t [(c, true)] s s' := .event rfl rfl rfl rfl
    have hown : s'.OwnedBy t (some (1, s.user, 0)) := ⟨hholder', rfl, hcount rfl⟩
    obtain ⟨hguar, hknows⟩ := h.move hm hl hown
    exact ⟨0, s', hexec, hguar, htaken s' s.user hknows⟩
  | some h₀ =>
    obtain ⟨u, d⟩ := h₀
    have hlocked : s.locked = 1 := hlocked
    have hut : u ≠ t := by
      rintro rfl
      exact h.own d hholder
    have hsame : ∀ {s' : RecState}, s'.holder = s.holder → s'.user = s.user → s'.count = s.count → s'.locked = 1 →
        LockMove T t s s' := by
      intro s' hh hu hn hl
      refine ⟨⟨_, hh.trans hholder, hl, nofun⟩, fun v hv => ?_, fun _ _ _ _ => ⟨hh, hu, hn⟩, fun _ _ _ hd => ?_⟩
      · rw [hh]
        exact h.inv.user v (hu.symm.trans hv)
      · rwa [hh] at hd
    by_cases htry : c = .trylock
    · subst htry
      set s' : RecState := { s with locked := 1, events := s.events ++ [⟨t, .trylock, false⟩] } with hs'
      have hexec : execRec T (.tas t .trylock) s = some ((1 : Nat), s') := by
        simp only [execRec, hlocked, Nat.one_ne_zero, if_false, if_true, hs']
      have hholder' : s'.holder = s.holder := by
        rw [RecState.holder_concat (s := s) rfl, hholder]
        exact if_neg hut
      have hm : RecMove t [(.trylock, false)] s s' := .event rfl rfl rfl rfl
      have hown : s'.OwnedBy t none := fun d hd => h.own d (hholder'.symm.trans hd)
      obtain ⟨hguar, hknows⟩ := h.move hm (hsame hholder' rfl rfl rfl) hown
      exact ⟨1, s', hexec, hguar, hbusy s' hknows⟩
    · set s' : RecState := { s with locked := 1 } with hs'
      have hexec : execRec T (.tas t c) s = some ((1 : Nat), s') := by
        simp only [execRec, hlocked, Nat.one_ne_zero, if_false, if_neg htry, hs']
      have hm : RecMove t [] s s' := .silent rfl rfl rfl rfl
      have hown : s'.OwnedBy t none := h.own
      obtain ⟨hguar, hknows⟩ := h.move hm (hsame rfl rfl rfl rfl) hown
      refine ⟨1, s', hexec, hguar, hbusy s' ?_⟩
      rw [if_neg htry]
      exact hknows

theorem RecKnows.release {k : Unit → RecCode α} (h : RecKnows T t (some .unlock) [] (some (1, -1, 0)) s)
    (hk : ∀ s, RecKnows T t (some .unlock) [(.unlock, true)] none s →
      Safe (execRec T) (recContract T t) (k ()) Q s) :
    Safe (execRec T) (recContract T t) (.op (.release t) k) Q s := by
  refine Safe.step RecKnows.stable (fun s h => ?_) h
  obtain ⟨hholder, huser, hcount⟩ := h.own
  set s' : RecState := { s with locked := 0, events := s.events ++ [⟨t, .unlock, true⟩] } with hs'
  have hholder' : s'.holder = some none := by
    rw [RecState.holder_concat (s := s) rfl, hholder]
    exact if_pos rfl
  have hl : LockMove T t s s' := by
    refine ⟨⟨_, hholder', rfl, fun _ => hcount⟩, fun u hu => ?_, fun u hu d hd => ?_, fun u _ d hd => ?_⟩
    · exact absurd (hu.symm.trans huser) (T.ne_unused u)
    · rw [hholder] at hd
      cases hd
      exact absurd rfl hu
    · rw [hholder'] at hd
      cases hd
  have hm : RecMove t [(.unlock, true)] s s' := .event rfl rfl rfl rfl
  have hown : s'.OwnedBy t none := by
    intro d hd
    rw [hholder'] at hd
    cases hd
  obtain ⟨hguar, hknows⟩ := h.move hm hl hown
  exact ⟨(), s', rfl, hguar, hk s' hknows⟩

theorem RecKnows.ret {k : Unit → RecCode α} {ok : Bool} (h : RecKnows T t (some c) [(c, ok)] own s)
    (hk : ∀ s, RecKnows T t none [] own s → Safe (execRec T) (recContract T t) (k ()) Q s) :
    Safe (execRec T) (recContract T t) (.op (.ret t c ok) k) Q s := by
  refine Safe.step RecKnows.stable (fun s h => ⟨_, _, rfl, ?_, hk _ ?_⟩) h
  · exact ⟨fun _ _ _ _ => ⟨rfl, rfl, rfl⟩, fun _ _ _ hd => hd, fun u hu => Function.update_of_ne hu _ _,
      fun u hu => Function.update_of_ne hu _ _, fun _ _ => rfl, fun _ _ => rfl⟩
  · refine ⟨⟨h.inv.lock, h.inv.user, h.inv.ids, fun u => ?_, fun u hu => ?_⟩, Function.update_self _ _ _, ?_, h.own⟩
    · by_cases hut : u = t
      · subst hut
        simp only [Function.update_self]
        rw [← h.pending]
      · simp only [Function.update_of_ne hut]
        exact h.inv.returned u
    · by_cases hut : u = t
      · subst hut
        simp only [Function.update_self]
        exact h.pending.symm
      · simp only [Function.update_of_ne hut] at hu ⊢
        exact h.inv.idle u hu
    · simp only [Function.update_self, List.append_nil]
      exact h.pending

/-! ## The functions -/

theorem RecKnows.stable_id :
    Stable (recContract T t) fun s => RecKnows T t (some c) done own s ∧ s.threadId t = T.id t := by
  refine ⟨?_, fun s h => h.1.inv⟩
  rintro s s' ⟨h, hid⟩ ⟨u, hu, hg, hinv⟩
  exact ⟨RecKnows.stable.rely s s' h ⟨u, hu, hg, hinv⟩, (hg.ids t hu.symm).trans hid⟩

theorem RecKnows.idSt (h : RecKnows T t (some c) done own s) :
    RecGuar t s { s with threadId := Function.update s.threadId t (T.id t) } ∧
      RecKnows T t (some c) done own { s with threadId := Function.update s.threadId t (T.id t) } := by
  refine ⟨⟨fun _ _ _ _ => ⟨rfl, rfl, rfl⟩, fun _ _ _ hd => hd, fun _ _ => rfl, fun _ _ => rfl, fun _ _ => rfl,
    fun u hu => Function.update_of_ne hu _ _⟩, ⟨h.inv.lock, h.inv.user, fun u => ?_, h.inv.returned, h.inv.idle⟩,
    h.calling, h.pending, ?_⟩
  · by_cases hut : u = t
    · subst hut
      exact Or.inr (Function.update_self _ _ _)
    · simp only [Function.update_of_ne hut]
      exact h.inv.ids u
  · cases own with
    | none => exact h.own
    | some o => exact h.own

theorem rteGettid_safe (h : RecKnows T t (some c) done own s) :
    Safe (execRec T) (recContract T t) (rteGettid t)
      (fun id s => id = T.id t ∧ RecKnows T t (some c) done own s) s := by
  have hlast : ∀ s, RecKnows T t (some c) done own s ∧ s.threadId t = T.id t →
      Safe (execRec T) (recContract T t) (Prog.access (RecOp.idLd t))
        (fun id s => id = T.id t ∧ RecKnows T t (some c) done own s) s := by
    intro s hs
    refine Safe.step RecKnows.stable_id (fun s hs => ⟨_, s, rfl, .refl t s, ?_⟩) hs
    exact Safe.ret RecKnows.stable (fun s h => ⟨hs.2, h⟩) hs.1
  refine Safe.step RecKnows.stable (fun s h => ⟨_, s, rfl, .refl t s, ?_⟩) h
  rw [Prog.ret_bind]
  rcases h.inv.ids t with hid | hid
  · rw [if_pos hid]
    refine Safe.step RecKnows.stable (fun s h => ⟨_, s, rfl, .refl t s, ?_⟩) h
    refine Safe.step RecKnows.stable (fun s h => ⟨_, _, rfl, h.idSt.1, ?_⟩) h
    exact hlast _ ⟨h.idSt.2, Function.update_self _ _ _⟩
  · rw [if_neg (by rw [hid]; exact T.ne_unused t)]
    exact hlast s ⟨h, hid⟩

theorem recSpinlockLock_safe (h : RecKnows T t (some .lock) [] none s) :
    Safe (execRec T) (recContract T t) (recSpinlockLock t .lock)
      (fun _ s => ∃ user, RecKnows T t (some .lock) [(.lock, true)] (some (1, user, 0)) s) s := by
  have htaken : Stable (recContract T t) fun s =>
      ∃ user, RecKnows T t (some .lock) [(.lock, true)] (some (1, user, 0)) s :=
    .cover fun _ ⟨user, h⟩ => ⟨_, RecKnows.stable, h, fun _ h => ⟨user, h⟩⟩
  refine Safe.spinLock RecKnows.stable htaken (fun s _ => .refl t s) (fun s h => ?_) (fun s h => ?_) h
  · exact h.read (f := fun s => s.locked) (P := fun _ => True) (fun _ => rfl) (fun _ _ => trivial)
      fun r s _ h => h.leave fun _ h => h
  · refine h.tas (Or.inl rfl) (fun s user h => ?_) fun s h => ?_
    · exact h.leave fun s h => ⟨user, h⟩
    · exact h.leave fun s h => h

end

/-- What thread `t` knows between its calls, if it has the lock `d` times. -/
def ThreadIds.knows (T : ThreadIds) (t d : Nat) : Option (Nat × Int × Int) :=
  if d = 0 then none else some (d, T.id t, d)

theorem ThreadIds.knows_succ (T : ThreadIds) (t d : Nat) :
    T.knows t (d + 1) = some (d + 1, T.id t, ((d + 1 : Nat) : Int)) := rfl

theorem bmod_succ {d : Nat} (h : d + 1 < 2 ^ 31) : Int.bmod ((d : Int) + 1) (2 ^ 32) = ((d + 1 : Nat) : Int) := by
  rw [Int.bmod_def]
  omega

theorem bmod_pred {d : Nat} (h : d + 1 < 2 ^ 31) : Int.bmod (((d + 1 : Nat) : Int) - 1) (2 ^ 32) = (d : Int) := by
  rw [Int.bmod_def]
  omega

section
variable {c : Call} {d : Nat}

theorem incrementCount_first (h : RecKnows T t (some c) [(c, true)] (some (1, T.id t, 0)) s) :
    Safe (execRec T) (recContract T t) (incrementCount t none)
      (fun _ => RecKnows T t (some c) [(c, true)] (T.knows t 1)) s := by
  refine h.read (f := fun s => s.count) (P := fun n => n = 0) (fun _ => rfl) (fun s h => h.own.2.2) fun n s hn h => ?_
  subst hn
  exact h.countSt fun s h => h.leave fun _ h => h

theorem incrementCount_again (h : RecKnows T t (some c) [] (T.knows t (d + 1)) s) (hc : c = .lock ∨ c = .trylock)
    (hd : d + 1 + 1 < 2 ^ 31) :
    Safe (execRec T) (recContract T t) (incrementCount t (some c))
      (fun _ => RecKnows T t (some c) [(c, true)] (T.knows t (d + 1 + 1))) s := by
  have htake : Reentrant.step (some (t, d + 1)) ⟨t, c, true⟩ = some (some (t, d + 1 + 1)) := by
    rcases hc with rfl | rfl
    · exact if_pos rfl
    · exact if_pos rfl
  rw [T.knows_succ] at h ⊢
  refine h.read (f := fun s => s.count) (P := fun n => n = ((d + 1 : Nat) : Int)) (fun _ => rfl) (fun s h => h.own.2.2)
    fun n s hn h => ?_
  subst hn
  rw [Prog.ret_bind, bmod_succ hd]
  exact h.countSt_effect htake fun s h => h.leave fun _ h => h

/-- A thread finds itself in `user` exactly if it has the lock. -/
theorem RecKnows.user_eq (h : RecKnows T t (some c) done (T.knows t d) s) : s.user = T.id t ↔ d ≠ 0 := by
  cases d with
  | zero =>
    refine iff_of_false (fun huser => ?_) (fun hd => hd rfl)
    obtain ⟨d, hd⟩ := h.inv.user t huser
    exact h.own d hd
  | succ d => exact iff_of_true h.own.2.1 (Nat.succ_ne_zero d)

theorem rteSpinlockRecursiveLock_safe (h : RecKnows T t (some .lock) [] (T.knows t d) s) (hd : d + 1 < 2 ^ 31) :
    Safe (execRec T) (recContract T t) (rteSpinlockRecursiveLock t)
      (fun _ => RecKnows T t (some .lock) [(.lock, true)] (T.knows t (d + 1))) s := by
  refine (rteGettid_safe h).seq fun id s ⟨hid, h⟩ => ?_
  subst hid
  refine h.read (f := fun s => s.user) (P := fun user => user = T.id t ↔ d ≠ 0) (fun _ => rfl) (fun s h => h.user_eq)
    fun user s huser h => ?_
  rw [Prog.ret_bind]
  cases d with
  | zero =>
    rw [if_pos (mt huser.mp (fun h => h rfl))]
    refine (recSpinlockLock_safe h).seq fun _ s ⟨user, h⟩ => ?_
    refine h.userSt (Or.inl rfl) fun s h => ?_
    exact incrementCount_first h
  | succ d =>
    rw [if_neg (not_not.mpr (huser.mpr (Nat.succ_ne_zero d)))]
    exact incrementCount_again h (Or.inl rfl) hd

theorem rteSpinlockRecursiveTrylock_safe (h : RecKnows T t (some .trylock) [] (T.knows t d) s) (hd : d + 1 < 2 ^ 31) :
    Safe (execRec T) (recContract T t) (rteSpinlockRecursiveTrylock t)
      (fun ok => RecKnows T t (some .trylock) [(.trylock, ok)] (T.knows t (if ok then d + 1 else d))) s := by
  refine (rteGettid_safe h).seq fun id s ⟨hid, h⟩ => ?_
  subst hid
  refine h.read (f := fun s => s.user) (P := fun user => user = T.id t ↔ d ≠ 0) (fun _ => rfl) (fun s h => h.user_eq)
    fun user s huser h => ?_
  rw [Prog.ret_bind]
  cases d with
  | zero =>
    rw [if_pos (mt huser.mp (fun h => h rfl))]
    refine RecKnows.tas h (Or.inr rfl) (fun s user h => ?_) fun s h => ?_
    · refine h.userSt (Or.inl rfl) fun s h => ?_
      refine (incrementCount_first h).seq fun _ s h => ?_
      exact h.leave fun _ h => h
    · exact h.leave fun _ h => h
  | succ d =>
    rw [if_neg (not_not.mpr (huser.mpr (Nat.succ_ne_zero d)))]
    refine (incrementCount_again h (Or.inr rfl) hd).seq fun _ s h => ?_
    exact h.leave fun _ h => h

theorem rteSpinlockRecursiveUnlock_safe (h : RecKnows T t (some .unlock) [] (T.knows t (d + 1)) s)
    (hd : d + 1 < 2 ^ 31) :
    Safe (execRec T) (recContract T t) (rteSpinlockRecursiveUnlock t)
      (fun _ => RecKnows T t (some .unlock) [(.unlock, true)] (T.knows t d)) s := by
  rw [T.knows_succ] at h
  refine h.read (f := fun s => s.count) (P := fun n => n = ((d + 1 : Nat) : Int)) (fun _ => rfl) (fun s h => h.own.2.2)
    fun n s hn h => ?_
  subst hn
  rw [Prog.ret_bind, bmod_pred hd]
  dsimp only
  cases d with
  | zero =>
    refine h.countSt fun s h => ?_
    refine h.userSt (Or.inr rfl) fun s h => ?_
    exact h.release fun s h => h.leave fun _ h => h
  | succ d =>
    have hgive : Reentrant.step (some (t, d + 1 + 1)) ⟨t, .unlock, true⟩ = some (some (t, d + 1)) :=
      (if_pos rfl).trans (congrArg some (if_neg (by omega)))
    have hne : ((d + 1 : Nat) : Int) ≠ 0 := by omega
    rw [if_neg hne, if_neg hne]
    exact h.countSt_effect hgive fun s h => h.leave fun _ h => h

theorem RecKnows.nesting (h : RecKnows T t none [] (T.knows t d) s) : nesting (s.results t) = d := by
  obtain ⟨h₀, hholder, -, -⟩ := h.inv.lock
  have hdepth := (nesting_of_runs hholder).2 t
  rw [← h.inv.idle t h.calling] at hdepth
  rw [hdepth]
  cases d with
  | zero =>
    cases h₀ with
    | none => rfl
    | some o =>
      obtain ⟨u, e⟩ := o
      refine Holder.depth_of_ne e ?_
      rintro rfl
      exact h.own e hholder
  | succ d =>
    rw [h.own.1, Option.some.injEq] at hholder
    rw [← hholder, Holder.depth_self]

theorem RecKnows.call (h : RecKnows T t none [] own s) (c : Call) :
    RecGuar t s { s with calling := Function.update s.calling t (some c) } ∧
      RecKnows T t (some c) [] own { s with calling := Function.update s.calling t (some c) } := by
  refine ⟨⟨fun _ _ _ _ => ⟨rfl, rfl, rfl⟩, fun _ _ _ hd => hd, fun _ _ => rfl, fun u hu => Function.update_of_ne hu _ _,
    fun _ _ => rfl, fun _ _ => rfl⟩, ⟨h.inv.lock, h.inv.user, h.inv.ids, h.inv.returned, fun u hu => ?_⟩,
    Function.update_self _ _ _, h.pending, ?_⟩
  · by_cases hut : u = t
    · subst hut
      simp only [Function.update_self] at hu
      cases hu
    · simp only [Function.update_of_ne hut] at hu
      exact h.inv.idle u hu
  · cases own with
    | none => exact h.own
    | some o => exact h.own

/-- What thread `t` knows between two calls. -/
def RecIdle (T : ThreadIds) (t : Nat) (s : RecState) : Prop := ∃ d < 2 ^ 31, RecKnows T t none [] (T.knows t d) s

theorem RecIdle.stable : Stable (recContract T t) (RecIdle T t) :=
  .cover fun _ ⟨d, hd, h⟩ => ⟨_, RecKnows.stable, h, fun _ h => ⟨d, hd, h⟩⟩

theorem recServe_safe (h : RecIdle T t s) :
    Safe (execRec T) (recContract T t) (recServe t ()) (fun _ => RecIdle T t) s := by
  have hret : ∀ {c : Call} {ok : Bool} {d : Nat} {s : RecState}, d < 2 ^ 31 →
      RecKnows T t (some c) [(c, ok)] (T.knows t d) s → Safe (execRec T) (recContract T t) (do
        Prog.access (RecOp.ret t c ok)
        return (.inl () : Unit ⊕ Unit)) (fun _ => RecIdle T t) s :=
    fun hd h => h.ret fun s h => h.leave fun s h => ⟨_, hd, h⟩
  refine Safe.op RecIdle.stable (fun s r s' ⟨d, hd, h⟩ he => ?_) h
  have hnest := h.nesting
  simp only [execRec] at he
  split at he
  · cases he
    exact ⟨.refl t s, h.leave fun s h => ⟨d, hd, h⟩⟩
  · rename_i c hc
    split at he
    · rename_i hcall
      cases he
      refine ⟨(h.call c).1, ?_⟩
      have h' := (h.call c).2
      cases c with
      | lock =>
        have hlt : d + 1 < 2 ^ 31 := by
          rw [← hnest]
          exact of_decide_eq_true hcall
        exact (rteSpinlockRecursiveLock_safe h' hlt).seq fun _ s h => hret hlt h
      | trylock =>
        have hlt : d + 1 < 2 ^ 31 := by
          rw [← hnest]
          exact of_decide_eq_true hcall
        refine (rteSpinlockRecursiveTrylock_safe h' hlt).seq fun ok s h => hret ?_ h
        split <;> omega
      | unlock =>
        have hpos : 0 < d := by
          rw [← hnest]
          exact of_decide_eq_true hcall
        obtain ⟨d, rfl⟩ : ∃ d', d = d' + 1 := ⟨d - 1, by omega⟩
        exact (rteSpinlockRecursiveUnlock_safe h' hd).seq fun _ s h => hret (by omega) h
    · cases he

theorem recThread_safe (h : RecIdle T t s) :
    Safe (execRec T) (recContract T t) (recThread t) (fun _ _ => True) s := by
  refine Safe.loop (J := fun _ => RecIdle T t) (fun _ => RecIdle.stable) (fun _ s _ => .refl t s) (fun _ s h => ?_) h
  refine (recServe_safe h).mono fun r s h => ?_
  cases r with
  | inl _ => exact h
  | inr _ => exact Safe.ret RecIdle.stable (fun _ _ => trivial) h

end

end

/-! ## Refinement -/

theorem RecInv.init (T : ThreadIds) (client : Nat → List (Call × Bool) → Option Call) :
    RecInv T (rteSpinlockRecursiveInit client) where
  lock := ⟨none, rfl, rfl, fun _ => rfl⟩
  user t h := absurd h.symm (T.ne_unused t)
  ids _ := Or.inl rfl
  returned _ := List.nil_prefix
  idle _ _ := rfl

/-- All threads before their first call. -/
def recStart (client : Nat → List (Call × Bool) → Option Call) : Pool RecState RecOp RecRet Unit where
  state := rteSpinlockRecursiveInit client
  progs := recThread

/-- The calls are those of a reentrant lock. -/
structure IsReentrant (s : RecState) : Prop where
  /-- In the order in which they have taken effect, they can happen. -/
  legal : ∃ h, s.holder = some h ∧ s.locked = (if h = none then 0 else 1)
  /-- What a thread was told is what has happened, and all of it when it is between two calls. -/
  returned : ∀ t, s.results t <+: eventsOf t s.events
  complete : ∀ t, s.calling t = none → s.results t = eventsOf t s.events
  /-- Only one thread at a time has the lock. -/
  exclusive : ∀ t u, s.calling t = none → s.calling u = none → 0 < nesting (s.results t) →
    0 < nesting (s.results u) → t = u

theorem RecInv.isReentrant {T : ThreadIds} {s : RecState} (h : RecInv T s) : IsReentrant s := by
  obtain ⟨h₀, hholder, hlocked, -⟩ := h.lock
  refine ⟨⟨h₀, hholder, hlocked⟩, h.returned, h.idle, fun t u ht hu htpos hupos => ?_⟩
  have hnest := (nesting_of_runs hholder).2
  rw [h.idle t ht, hnest t] at htpos
  rw [h.idle u hu, hnest u] at hupos
  cases h₀ with
  | none => exact absurd htpos (Nat.lt_irrefl 0)
  | some o =>
    obtain ⟨v, d⟩ := o
    have hv : ∀ {w : Nat}, 0 < Holder.depth w (some (v, d)) → v = w := by
      intro w hw
      by_contra hne
      rw [Holder.depth_of_ne d hne] at hw
      exact absurd hw (Nat.lt_irrefl 0)
    exact (hv htpos).symm.trans (hv hupos)

/-- **Main result.** However the threads are scheduled and whatever they call, the recursive spinlock is a reentrant
lock. -/
theorem recursive_lock_refines (T : ThreadIds) (client : Nat → List (Call × Bool) → Option Call) (ts : List Nat)
    {p : Pool RecState RecOp RecRet Unit} (hrun : Pool.run (execRec T) ts (recStart client) = some p) :
    IsReentrant p.state := by
  have hstart : ∀ t, Safe (execRec T) (recContract T t) (recThread t) (fun _ _ => True)
      (rteSpinlockRecursiveInit client) := fun t =>
    recThread_safe ⟨0, by decide, RecInv.init T client, rfl, rfl, fun d hd => by cases hd⟩
  exact (Pool.run_safe ts (p := recStart client) hstart hrun 0).inv.isReentrant

/-- Threads with ids from 100 on. -/
def hundreds : ThreadIds where
  id t := t + 100
  injective t u h := by
    simp only at h
    omega
  ne_unused t := by omega

/-- The first thread takes the lock twice and gives it back; the second one tries once, and then waits for it. -/
def nestedClient : Nat → List (Call × Bool) → Option Call
  | 0, rs => [.lock, .lock, .unlock, .unlock][rs.length]?
  | 1, rs => [.trylock, .lock, .unlock][rs.length]?
  | _, _ => none

/-- The second one tries while the first one has the lock. -/
def nestedSchedule : List Nat :=
  List.replicate 14 0 ++ List.replicate 22 1 ++ List.replicate 21 0 ++ List.replicate 17 1

theorem recursive_lock_refines_nested :
    ∃ p, Pool.run (execRec hundreds) nestedSchedule (recStart nestedClient) = some p ∧
      p.state.events = [⟨0, .lock, true⟩, ⟨1, .trylock, false⟩, ⟨0, .lock, true⟩, ⟨0, .unlock, true⟩,
        ⟨0, .unlock, true⟩, ⟨1, .lock, true⟩, ⟨1, .unlock, true⟩] ∧ IsReentrant p.state :=
  ⟨_, rfl, rfl, recursive_lock_refines hundreds nestedClient nestedSchedule rfl⟩

end Ixy
