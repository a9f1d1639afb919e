import Ixy.Lib.Run

/-!
# Reentrant locks

What a reentrant lock is for: it is free, or a thread holds it some number of times. `Reentrant.step` says which
calls can happen with which result. In a legal history the lock is held as often as its holder has taken it more than
given it back (`nesting_of_runs`).
-/

namespace Ixy.Lib

namespace Reentrant

inductive Call where
  | lock
  | unlock
  | trylock
  deriving DecidableEq, Repr

/-- A call of a thread, with its result. -/
structure Event where
  thread : Nat
  call : Call
  ok : Bool
  deriving DecidableEq, Repr

/-- The holder, and how often it has taken the lock. -/
abbrev Holder := Option (Nat × Nat)

/-- Taking the lock: anyone can who finds it free, and the holder always can. -/
def take (t : Nat) : Holder → Option Holder
  | none => some (some (t, 1))
  | some (u, d) => if u = t then some (some (t, d + 1)) else none

/-- Giving it back. The last time frees it. -/
def give (t : Nat) : Holder → Option Holder
  | none => none
  | some (u, d) => if u = t then some (if d = 1 then none else some (t, d - 1)) else none

def step (h : Holder) (e : Event) : Option Holder :=
  match e.call, e.ok with
  | .lock, true | .trylock, true => take e.thread h
  | .unlock, true => give e.thread h
  -- trying fails if another thread has the lock
  | .trylock, false =>
    match h with
    | none => none
    | some (u, _) => if u = e.thread then none else some h
  | _, false => none

/-- The calls of one thread. -/
def eventsOf (t : Nat) (es : List Event) : List (Call × Bool) :=
  (es.filter fun e => e.thread = t).map fun e => (e.call, e.ok)

/-- A thread has taken the lock once more, or given it back. -/
def nest (n : Nat) : Call × Bool → Nat
  | (.unlock, _) => n - 1
  | (_, true) => n + 1
  | (_, false) => n

/-- How often a thread with these results has the lock. -/
def nesting (rs : List (Call × Bool)) : Nat := rs.foldl nest 0

theorem nesting_concat (rs : List (Call × Bool)) (r : Call × Bool) : nesting (rs ++ [r]) = nest (nesting rs) r := by
  rw [nesting, List.foldl_append]
  rfl

theorem eventsOf_concat_self (es : List Event) (e : Event) :
    eventsOf e.thread (es ++ [e]) = eventsOf e.thread es ++ [(e.call, e.ok)] := by
  simp [eventsOf]

theorem eventsOf_concat_of_ne {t : Nat} {e : Event} (es : List Event) (h : e.thread ≠ t) :
    eventsOf t (es ++ [e]) = eventsOf t es := by
  simp [eventsOf, h]

/-- How often thread `t` has the lock. -/
def Holder.depth (t : Nat) : Holder → Nat
  | none => 0
  | some (u, d) => if u = t then d else 0

@[simp] theorem Holder.depth_none (t : Nat) : Holder.depth t none = 0 := rfl

@[simp] theorem Holder.depth_self (t d : Nat) : Holder.depth t (some (t, d)) = d := if_pos rfl

theorem Holder.depth_of_ne {t u : Nat} (d : Nat) (h : u ≠ t) : Holder.depth t (some (u, d)) = 0 := if_neg h

/-- Who has the lock has it at least once. -/
def Holder.Valid : Holder → Prop
  | none => True
  | some (_, d) => 0 < d

section
variable {h h' : Holder} {t : Nat}

theorem take_eq_some (htake : take t h = some h') :
    h'.Valid ∧ h'.depth t = h.depth t + 1 ∧ ∀ u ≠ t, h'.depth u = h.depth u := by
  cases h with
  | none =>
    cases htake
    exact ⟨Nat.one_pos, Holder.depth_self t 1, fun u hu => Holder.depth_of_ne 1 hu.symm⟩
  | some h =>
    obtain ⟨v, d⟩ := h
    by_cases hv : v = t
    · subst hv
      rw [take, if_pos rfl, Option.some.injEq] at htake
      subst htake
      refine ⟨Nat.succ_pos d, ?_, fun u hu => ?_⟩
      · rw [Holder.depth_self, Holder.depth_self]
      · rw [Holder.depth_of_ne _ hu.symm, Holder.depth_of_ne _ hu.symm]
    · rw [take, if_neg hv] at htake
      cases htake

theorem give_eq_some (hgive : give t h = some h') (hvalid : h.Valid) :
    h'.Valid ∧ h'.depth t = h.depth t - 1 ∧ ∀ u ≠ t, h'.depth u = h.depth u := by
  cases h with
  | none => cases hgive
  | some h =>
    obtain ⟨v, d⟩ := h
    by_cases hv : v = t
    · subst hv
      rw [give, if_pos rfl, Option.some.injEq] at hgive
      have hd : 0 < d := hvalid
      by_cases hone : d = 1
      · rw [if_pos hone] at hgive
        subst hgive hone
        refine ⟨trivial, ?_, fun u hu => (Holder.depth_of_ne 1 hu.symm).symm⟩
        rw [Holder.depth_self, Holder.depth_none]
      · rw [if_neg hone] at hgive
        subst hgive
        refine ⟨by change 0 < d - 1; omega, ?_, fun u hu => ?_⟩
        · rw [Holder.depth_self, Holder.depth_self]
        · rw [Holder.depth_of_ne _ hu.symm, Holder.depth_of_ne _ hu.symm]
    · rw [give, if_neg hv] at hgive
      cases hgive

theorem step_eq_some {e : Event} (hstep : step h e = some h') (hvalid : h.Valid) :
    h'.Valid ∧ h'.depth e.thread = nest (h.depth e.thread) (e.call, e.ok) ∧
      ∀ u ≠ e.thread, h'.depth u = h.depth u := by
  obtain ⟨t, call, ok⟩ := e
  cases call <;> cases ok
  · cases hstep
  · exact take_eq_some hstep
  · cases hstep
  · exact give_eq_some hstep hvalid
  · cases h with
    | none => cases hstep
    | some h =>
      simp only [step] at hstep
      split at hstep
      · cases hstep
      · cases hstep
        exact ⟨hvalid, rfl, fun _ _ => rfl⟩
  · exact take_eq_some hstep

theorem runs_concat (es : List Event) (e : Event) :
    runs step h (es ++ [e]) = (runs step h es).bind fun h' => step h' e := by
  rw [runs_append]
  simp only [runs_singleton]

/-- **Main result.** In a legal history, what a thread has is what its results say. -/
theorem nesting_of_runs {es : List Event} (hes : runs step none es = some h) :
    h.Valid ∧ ∀ t, nesting (eventsOf t es) = h.depth t := by
  induction es using List.reverseRecOn generalizing h with
  | nil =>
    cases hes
    exact ⟨trivial, fun _ => rfl⟩
  | append_singleton es e ih =>
    rw [runs_concat] at hes
    obtain ⟨h₁, h₁run, hstep⟩ := Option.bind_eq_some_iff.mp hes
    obtain ⟨hvalid, hnest⟩ := ih h₁run
    obtain ⟨hvalid', hself, hothers⟩ := step_eq_some hstep hvalid
    refine ⟨hvalid', fun t => ?_⟩
    by_cases ht : e.thread = t
    · subst ht
      rw [eventsOf_concat_self, nesting_concat, hnest, hself]
    · rw [eventsOf_concat_of_ne es ht, hnest, hothers t (Ne.symm ht)]

end

end Reentrant

end Ixy.Lib
