import Ixy.Lib.Safe

/-!
# Threads

A pool is a state shared by any number of threads, each with the rest of its program; a schedule lists who moves
next. To a thread, the moves of the others are interference: `threadContract` has it rely on what they guarantee.
If every thread is safe under its contract, it is so all along every schedule (`Pool.run_safe`). `Prog.spinLock` is how
threads wait for a lock.
-/

namespace Ixy.Lib

/-- A state, and what is left to do for each thread. -/
structure Pool (S Op : Type) (Ret : Op → Type) (α : Type) where
  state : S
  progs : Nat → Prog Op Ret α

section
variable {S Op : Type} {Ret : Op → Type} {α : Type} (exec : (o : Op) → S → Option (Ret o × S))

/-- Thread `t` makes a move. -/
def Pool.step (t : Nat) (p : Pool S Op Ret α) : Option (Pool S Op Ret α) :=
  (Conf.step exec (fun (e : Empty) _ => nomatch e) .prog ⟨p.state, p.progs t⟩).map fun c =>
    ⟨c.state, Function.update p.progs t c.prog⟩

def Pool.run : List Nat → Pool S Op Ret α → Option (Pool S Op Ret α)
  | [], p => some p
  | t :: ts, p => (Pool.step exec t p).bind (Pool.run ts)

variable {exec} in
theorem Pool.run_append (ts ts' : List Nat) (p : Pool S Op Ret α) :
    Pool.run exec (ts ++ ts') p = (Pool.run exec ts p).bind (Pool.run exec ts') := by
  induction ts generalizing p with
  | nil => rfl
  | cons t ts ih =>
    rw [List.cons_append, Pool.run, Pool.run, Option.bind_assoc]
    congr 1
    funext p'
    exact ih p'

/-- Some schedule of at most `n` moves leads from `p` to `p'`. -/
def Pool.Within (n : Nat) (p p' : Pool S Op Ret α) : Prop :=
  ∃ ts : List Nat, ts.length ≤ n ∧ Pool.run exec ts p = some p'

section
variable {exec} {n m t : Nat} {p p₁ p₂ : Pool S Op Ret α}

theorem Pool.Within.refl (n : Nat) (p : Pool S Op Ret α) : Pool.Within exec n p p := ⟨[], Nat.zero_le n, rfl⟩

theorem Pool.Within.trans (h : Pool.Within exec n p p₁) (h' : Pool.Within exec m p₁ p₂) :
    Pool.Within exec (n + m) p p₂ := by
  obtain ⟨ts, hlen, hrun⟩ := h
  obtain ⟨ts', hlen', hrun'⟩ := h'
  refine ⟨ts ++ ts', ?_, ?_⟩
  · rw [List.length_append]
    omega
  · rw [Pool.run_append, hrun]
    exact hrun'

theorem Pool.Within.mono (h : Pool.Within exec n p p₁) (hle : n ≤ m) : Pool.Within exec m p p₁ := by
  obtain ⟨ts, hlen, hrun⟩ := h
  exact ⟨ts, Nat.le_trans hlen hle, hrun⟩

theorem Pool.Within.op {o : Op} {k : Ret o → Prog Op Ret α} {r : Ret o} {s : S} (hprog : p.progs t = .op o k)
    (he : exec o p.state = some (r, s)) : Pool.Within exec 1 p ⟨s, Function.update p.progs t (k r)⟩ := by
  refine ⟨[t], Nat.le_refl 1, ?_⟩
  simp only [Pool.run, Pool.step, hprog, Conf.step, he, Option.map_some, Option.bind_some]

theorem Pool.Within.pass {σ β : Type} {body : σ → Prog Op Ret (σ ⊕ β)} {x : σ} {k : β → Prog Op Ret α}
    (hprog : p.progs t = .loop body x k) :
    Pool.Within exec 1 p ⟨p.state, Function.update p.progs t ((body x).bind (Prog.resume body k))⟩ := by
  refine ⟨[t], Nat.le_refl 1, ?_⟩
  simp only [Pool.run, Pool.step, hprog, Conf.step, Option.map_some, Option.bind_some]

end

/-- The contract of thread `t`: the others keep the invariant and their guarantees. -/
def threadContract (inv : S → Prop) (guar : Nat → S → S → Prop) (aborts : String → S → Prop) (t : Nat) :
    Contract S where
  rely s s' := ∃ u, u ≠ t ∧ guar u s s' ∧ inv s'
  guar := guar t
  inv := inv
  aborts := aborts

variable {exec} {inv : S → Prop} {guar : Nat → S → S → Prop} {aborts : String → S → Prop} {Q : Nat → α → S → Prop}

theorem Safe.move {C : Contract S} {Q : α → S → Prop} {c c' : Conf S Op Ret α}
    (h : Safe exec C c.prog Q c.state)
    (hstep : Conf.step exec (fun (e : Empty) _ => nomatch e) .prog c = some c') :
    C.guar c.state c'.state ∧ Safe exec C c'.prog Q c'.state := by
  obtain ⟨s, p⟩ := c
  cases p with
  | ret a => cases hstep
  | abort msg => cases hstep
  | op o k =>
    obtain ⟨⟨r, s'⟩, he, rfl⟩ := Option.map_eq_some_iff.mp hstep
    exact ⟨((h 1).2.2 r s' he).1, fun n => ((h (n + 1)).2.2 r s' he).2⟩
  | loop body x k =>
    cases hstep
    exact ⟨(h 1).2.2.1, fun n => (h (n + 1)).2.2.2⟩

theorem Safe.interfered {C : Contract S} {Q : α → S → Prop} {p : Prog Op Ret α} {s s' : S}
    (h : Safe exec C p Q s) (hr : C.rely s s') : Safe exec C p Q s' :=
  fun n => (h (n + 1)).rely hr

theorem Pool.step_safe {t : Nat} {p p' : Pool S Op Ret α}
    (h : ∀ u, Safe exec (threadContract inv guar aborts u) (p.progs u) (Q u) p.state)
    (hstep : Pool.step exec t p = some p') (u : Nat) :
    Safe exec (threadContract inv guar aborts u) (p'.progs u) (Q u) p'.state := by
  obtain ⟨c, hc, rfl⟩ := Option.map_eq_some_iff.mp hstep
  obtain ⟨hguar, hsafe⟩ := Safe.move (c := ⟨p.state, p.progs t⟩) (h t) hc
  dsimp only
  by_cases hut : u = t
  · subst hut
    rw [Function.update_self]
    exact hsafe
  · rw [Function.update_of_ne hut]
    exact (h u).interfered ⟨t, Ne.symm hut, hguar, hsafe.inv⟩

/-- All along a schedule, every thread is safe under its contract. -/
theorem Pool.run_safe (ts : List Nat) {p p' : Pool S Op Ret α}
    (h : ∀ u, Safe exec (threadContract inv guar aborts u) (p.progs u) (Q u) p.state)
    (hrun : Pool.run exec ts p = some p') :
    ∀ u, Safe exec (threadContract inv guar aborts u) (p'.progs u) (Q u) p'.state := by
  induction ts generalizing p with
  | nil =>
    cases hrun
    exact h
  | cons t ts ih =>
    obtain ⟨p₁, hstep, hrun⟩ := Option.bind_eq_some_iff.mp hrun
    exact ih (Pool.step_safe h hstep) hrun

/-! ## Spin locks -/

/-- One pass of a spin lock: test and set, or see if the lock looks free after that has failed. -/
def Prog.lockPass (tas load : Prog Op Ret Nat) (spinning : Bool) : Prog Op Ret (Bool ⊕ Unit) :=
  if spinning then do
    let locked ← load
    return .inl (locked ≠ 0)
  else do
    let old ← tas
    if old ≠ 0 then return .inl true else return .inr ()

def Prog.spinLock (tas load : Prog Op Ret Nat) : Prog Op Ret Unit := Prog.iterate (Prog.lockPass tas load) false

/-- If taking the lock is right, so is waiting for it. -/
theorem Safe.spinLock {C : Contract S} {A B : S → Prop} {tas load : Prog Op Ret Nat} (hA : Stable C A)
    (hB : Stable C B) (hguar : ∀ s, A s → C.guar s s) (hload : ∀ s, A s → Safe exec C load (fun _ => A) s)
    (htas : ∀ s, A s → Safe exec C tas (fun old s => if old = 0 then B s else A s) s) {s : S} (hs : A s) :
    Safe exec C (Prog.spinLock tas load) (fun _ => B) s := by
  refine Safe.loop (J := fun _ => A) (fun _ => hA) (fun _ => hguar) (fun spinning s hs => ?_) hs
  cases spinning with
  | true => exact (hload s hs).seq fun locked s hs => Safe.ret hA (fun _ h => h) hs
  | false =>
    refine (htas s hs).seq fun old s hs => ?_
    by_cases hold : old = 0
    · rw [if_pos hold] at hs
      rw [if_neg (not_not.mpr hold)]
      refine Safe.ret hB (fun s hs => ?_) hs
      exact Safe.ret (Q := fun _ => B) hB (fun _ h => h) hs
    · rw [if_neg hold] at hs
      rw [if_pos hold]
      exact Safe.ret hA (fun _ h => h) hs

end

end Ixy.Lib
