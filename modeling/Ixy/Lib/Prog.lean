import Mathlib.Logic.Function.Basic
import Mathlib.Data.Option.Basic

/-!
# Programs of single accesses

A program is a tree of accesses to a shared state: `op o k` performs the access `o` and continues
with its answer, `abort` ends the process with a message, and `loop` iterates a body until it
answers `inr`. Nothing happens between two accesses, so this is the granularity at which an
environment (a device, another thread) interleaves with the program.

`Conf.step` runs one access of the program or one action of the environment, `Conf.run` a whole
schedule of them. `Prog.eval` is the undisturbed run, as a function.
-/

namespace Ixy.Lib

/-- Programs over accesses `Op`, where access `o` answers with a value of `Ret o`. -/
inductive Prog (Op : Type) (Ret : Op → Type) : Type → Type 1 where
  | ret {α : Type} (a : α) : Prog Op Ret α
  | abort {α : Type} (msg : String) : Prog Op Ret α
  | op {α : Type} (o : Op) (k : Ret o → Prog Op Ret α) : Prog Op Ret α
  | loop {α σ β : Type} (body : σ → Prog Op Ret (σ ⊕ β)) (x : σ) (k : β → Prog Op Ret α) :
      Prog Op Ret α

namespace Prog

variable {Op : Type} {Ret : Op → Type} {α β σ : Type}

/-- Sequencing. An aborted program does not go on. -/
def bind : Prog Op Ret α → (α → Prog Op Ret β) → Prog Op Ret β
  | .ret a, f => f a
  | .abort msg, _ => .abort msg
  | .op o k, f => .op o fun r => (k r).bind f
  | .loop body x k, f => .loop body x fun b => (k b).bind f

instance : Monad (Prog Op Ret) where
  pure := .ret
  bind := bind

@[simp] theorem pure_eq (a : α) : (pure a : Prog Op Ret α) = .ret a := rfl
@[simp] theorem bind_eq (p : Prog Op Ret α) (f : α → Prog Op Ret β) : p >>= f = p.bind f := rfl
@[simp] theorem ret_bind (a : α) (f : α → Prog Op Ret β) : (ret a : Prog Op Ret α).bind f = f a := rfl
@[simp] theorem abort_bind (msg : String) (f : α → Prog Op Ret β) :
    (abort msg : Prog Op Ret α).bind f = abort msg := rfl
@[simp] theorem op_bind (o : Op) (k : Ret o → Prog Op Ret α) (f : α → Prog Op Ret β) :
    (op o k).bind f = op o fun r => (k r).bind f := rfl

theorem bind_assoc {γ : Type} (p : Prog Op Ret α) (f : α → Prog Op Ret β) (g : β → Prog Op Ret γ) :
    (p.bind f).bind g = p.bind fun a => (f a).bind g := by
  induction p with
  | ret a => rfl
  | abort msg => rfl
  | op o k ih =>
    simp only [bind]
    congr 1
    funext r
    exact ih r f
  | loop body x k _ ih =>
    simp only [bind]
    congr 1
    funext b
    exact ih b f

/-- One access as a program. -/
def access (o : Op) : Prog Op Ret (Ret o) := .op o .ret

@[simp] theorem access_bind (o : Op) (f : Ret o → Prog Op Ret β) : (access o).bind f = op o f := rfl

/-- Iterate `body` from `x` until it answers `inr`. -/
def iterate (body : σ → Prog Op Ret (σ ⊕ β)) (x : σ) : Prog Op Ret β := .loop body x .ret

@[simp] theorem iterate_bind (body : σ → Prog Op Ret (σ ⊕ β)) (x : σ) (f : β → Prog Op Ret α) :
    (iterate body x).bind f = loop body x f := rfl

/-- What a loop does after one pass of its body. -/
def resume (body : σ → Prog Op Ret (σ ⊕ β)) (k : β → Prog Op Ret α) : σ ⊕ β → Prog Op Ret α
  | .inl x => .loop body x k
  | .inr b => k b

theorem resume_bind {γ : Type} (body : σ → Prog Op Ret (σ ⊕ β)) (x : σ) (k : β → Prog Op Ret α)
    (f : α → Prog Op Ret γ) : ((body x).bind (resume body k)).bind f =
      (body x).bind (resume body fun b => (k b).bind f) := by
  rw [bind_assoc]
  congr 1
  funext r
  cases r with
  | inl y => rfl
  | inr b => rfl

/-- `for (i = lo; i < hi; i++)`. -/
def forRange (lo hi : Nat) (body : Nat → Prog Op Ret Unit) : Prog Op Ret Unit :=
  iterate (fun i => if i < hi then (body i).bind fun _ => .ret (.inl (i + 1)) else .ret (.inr ())) lo

/-! ## Undisturbed runs -/

/-- The outcome of an undisturbed run. -/
inductive Outcome (α S : Type) where
  | done (a : α) (s : S)
  | aborted (msg : String) (s : S)

def Outcome.state {S : Type} : Outcome α S → S
  | .done _ s => s
  | .aborted _ s => s

/-- Run a program with nothing in between; `fuel` bounds the accesses and loop passes. -/
def eval {S : Type} (exec : (o : Op) → S → Option (Ret o × S)) :
    Nat → Prog Op Ret α → S → Option (Outcome α S)
  | 0, _, _ => none
  | _ + 1, .ret a, s => some (.done a s)
  | _ + 1, .abort msg, s => some (.aborted msg s)
  | fuel + 1, .op o k, s => (exec o s).bind fun r => eval exec fuel (k r.1) r.2
  | fuel + 1, .loop body x k, s => eval exec fuel ((body x).bind (resume body k)) s

section evals
variable {S : Type} {exec : (o : Op) → S → Option (Ret o × S)}

theorem eval_op {o : Op} {k : Ret o → Prog Op Ret α} {s s' : S} {r : Ret o}
    (he : exec o s = some (r, s')) (fuel : Nat) :
    eval exec (fuel + 1) (.op o k) s = eval exec fuel (k r) s' := by
  rw [eval, he, Option.bind_some]

theorem eval_mono {fuel fuel' : Nat} (hle : fuel ≤ fuel') {p : Prog Op Ret α} {s : S}
    {o : Outcome α S} (h : eval exec fuel p s = some o) : eval exec fuel' p s = some o := by
  induction fuel generalizing fuel' p s with
  | zero => cases h
  | succ fuel ih =>
    obtain ⟨fuel', rfl⟩ : ∃ f, fuel' = f + 1 := ⟨fuel' - 1, by omega⟩
    have hle : fuel ≤ fuel' := by omega
    cases p with
    | ret a => exact h
    | abort msg => exact h
    | op o k =>
      simp only [eval, Option.bind_eq_some_iff] at h ⊢
      obtain ⟨r, hr, h⟩ := h
      exact ⟨r, hr, ih hle h⟩
    | loop body x k => exact ih hle h

/-- The undisturbed run of `p` from `s` ends with outcome `o`. -/
def Evals (exec : (o : Op) → S → Option (Ret o × S)) (p : Prog Op Ret α) (s : S)
    (o : Outcome α S) : Prop := ∃ fuel, eval exec fuel p s = some o

theorem Evals.unique {p : Prog Op Ret α} {s : S} {o o' : Outcome α S} (h : Evals exec p s o)
    (h' : Evals exec p s o') : o = o' := by
  obtain ⟨f, h⟩ := h
  obtain ⟨f', h'⟩ := h'
  have h1 := eval_mono (Nat.le_max_left f f') h
  rw [eval_mono (Nat.le_max_right f f') h', Option.some.injEq] at h1
  exact h1.symm

theorem Evals.ret (a : α) (s : S) : Evals exec (.ret a) s (.done a s) := ⟨1, rfl⟩

theorem Evals.abort (msg : String) (s : S) : Evals exec (.abort msg : Prog Op Ret α) s (.aborted msg s) :=
  ⟨1, rfl⟩

theorem Evals.op {o : Op} {k : Ret o → Prog Op Ret α} {s u : S} {r : Ret o} {out : Outcome α S}
    (he : exec o s = some (r, u)) (h : Evals exec (k r) u out) : Evals exec (.op o k) s out := by
  obtain ⟨fuel, h⟩ := h
  exact ⟨fuel + 1, by simp only [eval, he, Option.bind_some, h]⟩

theorem Evals.loop {body : σ → Prog Op Ret (σ ⊕ β)} {x : σ} {k : β → Prog Op Ret α} {s : S}
    {out : Outcome α S} (h : Evals exec ((body x).bind (resume body k)) s out) :
    Evals exec (.loop body x k) s out := by
  obtain ⟨fuel, h⟩ := h
  exact ⟨fuel + 1, h⟩

theorem eval_bind {p : Prog Op Ret α} {f : α → Prog Op Ret β} {s s' : S} {a : α} {out : Outcome β S}
    {fuel fuel' : Nat} (h : eval exec fuel p s = some (.done a s')) (h' : eval exec fuel' (f a) s' = some out) :
    eval exec (fuel + fuel') (p.bind f) s = some out := by
  induction fuel generalizing p s with
  | zero => cases h
  | succ fuel ih =>
    rw [Nat.add_right_comm]
    cases p with
    | ret b =>
      simp only [eval, Option.some.injEq, Outcome.done.injEq] at h
      obtain ⟨rfl, rfl⟩ := h
      exact eval_mono (by omega) h'
    | abort msg => simp [eval] at h
    | op o k =>
      simp only [eval, Option.bind_eq_some_iff] at h
      obtain ⟨r, hr, h⟩ := h
      simp only [op_bind, eval, hr, Option.bind_some]
      exact ih h
    | loop body x k =>
      have hbody := ih (p := (body x).bind (resume body k)) h
      rw [resume_bind] at hbody
      exact hbody

theorem Evals.bind {p : Prog Op Ret α} {f : α → Prog Op Ret β} {s s' : S} {a : α} {out : Outcome β S}
    (h : Evals exec p s (.done a s')) (h' : Evals exec (f a) s' out) : Evals exec (p.bind f) s out := by
  obtain ⟨fuel, h⟩ := h
  obtain ⟨fuel', h'⟩ := h'
  exact ⟨fuel + fuel', eval_bind h h'⟩

theorem eval_bind_abort {p : Prog Op Ret α} {f : α → Prog Op Ret β} {s s' : S} {msg : String} {fuel : Nat}
    (h : eval exec fuel p s = some (.aborted msg s')) : eval exec fuel (p.bind f) s = some (.aborted msg s') := by
  induction fuel generalizing p s with
  | zero => cases h
  | succ fuel ih =>
    cases p with
    | ret b => simp [eval] at h
    | abort msg' =>
      simp only [eval, Option.some.injEq, Outcome.aborted.injEq] at h
      obtain ⟨rfl, rfl⟩ := h
      rfl
    | op o k =>
      simp only [eval, Option.bind_eq_some_iff] at h
      obtain ⟨r, hr, h⟩ := h
      simp only [op_bind, eval, hr, Option.bind_some]
      exact ih h
    | loop body x k =>
      have hbody := ih (p := (body x).bind (resume body k)) h
      rw [resume_bind] at hbody
      exact hbody

theorem Evals.bind_abort {p : Prog Op Ret α} {f : α → Prog Op Ret β} {s s' : S} {msg : String}
    (h : Evals exec p s (.aborted msg s')) : Evals exec (p.bind f) s (.aborted msg s') := by
  obtain ⟨fuel, h⟩ := h
  exact ⟨fuel, eval_bind_abort h⟩

theorem Evals.loop_next {body : σ → Prog Op Ret (σ ⊕ β)} {x y : σ} {k : β → Prog Op Ret α} {s u : S}
    {out : Outcome α S} (h : Evals exec (body x) s (.done (.inl y) u))
    (h' : Evals exec (.loop body y k) u out) : Evals exec (.loop body x k) s out :=
  .loop (h.bind h')

theorem Evals.loop_exit {body : σ → Prog Op Ret (σ ⊕ β)} {x : σ} {b : β} {k : β → Prog Op Ret α}
    {s u : S} {out : Outcome α S} (h : Evals exec (body x) s (.done (.inr b) u))
    (h' : Evals exec (k b) u out) : Evals exec (.loop body x k) s out :=
  .loop (h.bind h')

end evals

end Prog

/-! ## Interleaved runs -/

/-- A state with the rest of the program that runs on it. -/
structure Conf (S Op : Type) (Ret : Op → Type) (α : Type) where
  state : S
  prog : Prog Op Ret α

/-- Who moves: the program or the environment. -/
inductive Tick (E : Type) where
  | prog
  | env (e : E)

namespace Conf

variable {S E Op : Type} {Ret : Op → Type} {α : Type}
variable (exec : (o : Op) → S → Option (Ret o × S)) (env : E → S → Option S)

/-- One move. A program that has returned or aborted, an access that `exec` refuses and an action
that `env` refuses do not move. -/
def step : Tick E → Conf S Op Ret α → Option (Conf S Op Ret α)
  | .env e, ⟨s, p⟩ => (env e s).map fun s' => ⟨s', p⟩
  | .prog, ⟨s, .op o k⟩ => (exec o s).map fun r => ⟨r.2, k r.1⟩
  | .prog, ⟨s, .loop body x k⟩ => some ⟨s, (body x).bind (Prog.resume body k)⟩
  | .prog, ⟨_, .ret _⟩ => none
  | .prog, ⟨_, .abort _⟩ => none

/-- A schedule of moves. -/
def run : List (Tick E) → Conf S Op Ret α → Option (Conf S Op Ret α)
  | [], c => some c
  | t :: ts, c => (step exec env t c).bind (run ts)

@[simp] theorem run_nil (c : Conf S Op Ret α) : run exec env [] c = some c := rfl

theorem run_append (ts ts' : List (Tick E)) (c : Conf S Op Ret α) :
    run exec env (ts ++ ts') c = (run exec env ts c).bind (run exec env ts') := by
  induction ts generalizing c with
  | nil => rfl
  | cons t ts ih =>
    rw [List.cons_append, run, run]
    cases h : step exec env t c with
    | none => rfl
    | some c' => simpa using ih c'

/-- Where a run stands once its first part has ended with an outcome. -/
def after {β : Type} (f : α → Prog Op Ret β) : Prog.Outcome α S → Conf S Op Ret β
  | .done a s => ⟨s, f a⟩
  | .aborted msg s => ⟨s, .abort msg⟩

/-- The undisturbed run of the first part of a program is a run in which the environment rests. -/
theorem run_of_eval {β : Type} {p : Prog Op Ret α} (f : α → Prog Op Ret β) {s : S} {fuel : Nat}
    {out : Prog.Outcome α S} (h : Prog.eval exec fuel p s = some out) :
    ∃ m, run exec env (List.replicate m .prog) ⟨s, p.bind f⟩ = some (after f out) := by
  induction fuel generalizing p s with
  | zero => cases h
  | succ fuel ih =>
    cases p with
    | ret b =>
      rw [← Option.some.inj h]
      exact ⟨0, rfl⟩
    | abort msg =>
      rw [← Option.some.inj h]
      exact ⟨0, rfl⟩
    | op o k =>
      obtain ⟨r, hr, h⟩ := Option.bind_eq_some_iff.mp h
      obtain ⟨m, hm⟩ := ih h
      exact ⟨m + 1, by simp only [List.replicate_succ, run, step, Prog.op_bind, hr, Option.map_some,
        Option.bind_some, hm]⟩
    | loop body x k =>
      obtain ⟨m, hm⟩ := ih (p := (body x).bind (Prog.resume body k)) h
      rw [Prog.resume_bind] at hm
      exact ⟨m + 1, hm⟩

theorem run_of_evals {β : Type} {p : Prog Op Ret α} (f : α → Prog Op Ret β) {s : S}
    {out : Prog.Outcome α S} (h : Prog.Evals exec p s out) :
    ∃ m, run exec env (List.replicate m .prog) ⟨s, p.bind f⟩ = some (after f out) := by
  obtain ⟨fuel, h⟩ := h
  exact run_of_eval exec env f h

theorem run_loop_next {σ β : Type} {body : σ → Prog Op Ret (σ ⊕ β)} {x y : σ} (k : β → Prog Op Ret α)
    {s s' : S} (h : Prog.Evals exec (body x) s (.done (.inl y) s')) :
    ∃ m, run exec env (List.replicate m .prog) ⟨s, .loop body x k⟩ = some ⟨s', .loop body y k⟩ := by
  obtain ⟨m, hm⟩ := run_of_evals exec env (Prog.resume body k) h
  exact ⟨m + 1, hm⟩

end Conf

end Ixy.Lib
