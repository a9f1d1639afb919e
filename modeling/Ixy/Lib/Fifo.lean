import Mathlib.Data.List.Nodup
import Mathlib.Logic.Relation

/-!
# A bounded FIFO with a second reader

A producer appends items and releases the oldest ones; a consumer takes items in order and reports
them as done in any order. An item may be released only once it has been reported, and at most `cap`
items are accepted and not yet released. A `Fifo` keeps its history, so that who got what, and how
often, can be read off a state; the invariants are fields, so that the operations need a proof of
their guard.
-/

namespace Ixy.Lib

/-- The state of the queue: everything accepted so far, and how far the parties have come. -/
@[ext] structure Fifo (α : Type) (cap : Nat) where
  accepted : List α
  /-- How many the consumer has taken. -/
  fetched : Nat
  /-- The positions the consumer has reported as done. -/
  completed : List Nat
  /-- How many the producer has released. -/
  freed : Nat
  freed_le : freed ≤ fetched
  fetched_le : fetched ≤ accepted.length
  completed_lt : ∀ k ∈ completed, k < fetched
  completed_nodup : completed.Nodup
  freed_completed : ∀ k < freed, k ∈ completed
  room : accepted.length ≤ freed + cap

namespace Fifo

variable {α : Type} {cap : Nat}

/-- The queue at the start. -/
def empty : Fifo α cap where
  accepted := []
  fetched := 0
  completed := []
  freed := 0
  freed_le := Nat.le_refl 0
  fetched_le := Nat.le_refl 0
  completed_lt := by simp
  completed_nodup := List.nodup_nil
  freed_completed := by simp
  room := Nat.zero_le _

/-- Accept an item, if there is room. -/
def accept (f : Fifo α cap) (a : α) (h : f.accepted.length < f.freed + cap) : Fifo α cap :=
  { f with
    accepted := f.accepted ++ [a]
    fetched_le := by
      have := f.fetched_le
      rw [List.length_append]
      omega
    room := by rwa [List.length_append, List.length_singleton] }

/-- Take the next item, if there is one. -/
def fetch (f : Fifo α cap) (h : f.fetched < f.accepted.length) : Fifo α cap :=
  { f with
    fetched := f.fetched + 1
    freed_le := Nat.le_succ_of_le f.freed_le
    fetched_le := h
    completed_lt := fun k hk => Nat.lt_succ_of_lt (f.completed_lt k hk) }

/-- Report an item that has been taken, once. -/
def complete (f : Fifo α cap) (k : Nat) (hk : k < f.fetched) (hnew : k ∉ f.completed) : Fifo α cap :=
  { f with
    completed := k :: f.completed
    completed_lt := fun i hi => (List.mem_cons.mp hi).elim (fun h => h ▸ hk) (f.completed_lt i)
    completed_nodup := List.nodup_cons.mpr ⟨hnew, f.completed_nodup⟩
    freed_completed := fun i hi => List.mem_cons_of_mem _ (f.freed_completed i hi) }

/-- Release the oldest item, if it has been reported. -/
def free (f : Fifo α cap) (h : f.freed ∈ f.completed) : Fifo α cap :=
  { f with
    freed := f.freed + 1
    freed_le := f.completed_lt _ h
    freed_completed := fun k hk => by
      rcases Nat.lt_succ_iff_lt_or_eq.mp hk with hk | rfl
      · exact f.freed_completed k hk
      · exact h
    room := Nat.le_trans f.room (by omega) }

/-- What can happen to the queue. -/
inductive Step : Fifo α cap → Fifo α cap → Prop
  | accept (f : Fifo α cap) (a : α) (h) : Step f (f.accept a h)
  | fetch (f : Fifo α cap) (h) : Step f (f.fetch h)
  | complete (f : Fifo α cap) (k : Nat) (hk) (hnew) : Step f (f.complete k hk hnew)
  | free (f : Fifo α cap) (h) : Step f (f.free h)

/-- The queues that can come about. -/
def Reachable (f : Fifo α cap) : Prop := Relation.ReflTransGen Step empty f

theorem Reachable.step {f g : Fifo α cap} (hf : Reachable f) (h : Step f g) : Reachable g := hf.tail h

theorem Reachable.acceptAll {f : Fifo α cap} (hf : Reachable f) (as : List α)
    (h : f.accepted.length + as.length ≤ f.freed + cap) :
    ∃ g : Fifo α cap, Reachable g ∧ g.accepted = f.accepted ++ as ∧ g.fetched = f.fetched ∧
      g.completed = f.completed ∧ g.freed = f.freed := by
  induction as generalizing f with
  | nil => exact ⟨f, hf, (List.append_nil _).symm, rfl, rfl, rfl⟩
  | cons a as ih =>
    rw [List.length_cons] at h
    have hroom : f.accepted.length < f.freed + cap := by omega
    obtain ⟨g, hg, hacc, hrest⟩ := ih (f := f.accept a hroom) (hf.step (.accept f a hroom)) (by
      simp only [accept, List.length_append, List.length_singleton]
      omega)
    exact ⟨g, hg, by rw [hacc, accept, List.append_assoc, List.singleton_append], hrest⟩

end Fifo

end Ixy.Lib
