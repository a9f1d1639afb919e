import Ixy.Lib.Safe

/-!
# Accesses that are programs

`p.expand impl fail` makes each access of `p` by a program of finer accesses, and ends with `fail` where `p` aborts.
What every implementation keeps is kept by the whole (`Safe.expand`). If every implementation does to an abstraction of
the state what the access does, then the expanded program returns what the program returns on the abstraction
(`Safe.expand_evals`).
-/

namespace Ixy.Lib

section
variable {Op Op' : Type} {Ret : Op → Type} {Ret' : Op' → Type} {α : Type}

def Prog.expand (impl : (o : Op) → Prog Op' Ret' (Ret o)) (fail : String → Prog Op' Ret' Empty) :
    {α : Type} → Prog Op Ret α → Prog Op' Ret' α
  | _, .ret a => .ret a
  | _, .abort msg => (fail msg).bind nofun
  | _, .op o k => (impl o).bind fun r => (k r).expand impl fail
  | _, .loop body x k => .loop (fun y => (body y).expand impl fail) x fun b => (k b).expand impl fail

variable {impl : (o : Op) → Prog Op' Ret' (Ret o)} {fail : String → Prog Op' Ret' Empty}
variable {S : Type} {exec' : (o : Op') → S → Option (Ret' o × S)}

theorem Safe.expand {C : Contract S} {A : S → Prop} (hA : Stable C A) (hguar : ∀ s, A s → C.guar s s)
    (himpl : ∀ o s, A s → Safe exec' C (impl o) (fun _ s => A s) s)
    (hfail : ∀ msg s, A s → Safe exec' C (fail msg) (fun _ _ => True) s) (p : Prog Op Ret α) :
    ∀ {s : S}, A s → Safe exec' C (p.expand impl fail) (fun _ s => A s) s := by
  induction p with
  | ret a => exact fun hs => Safe.ret hA (fun _ h => h) hs
  | abort msg =>
    intro s hs
    exact Safe.bind ((hfail msg s hs).mono fun a => a.elim)
  | op o k ih =>
    intro s hs
    exact Safe.bind ((himpl o s hs).mono fun r s hs => ih r hs)
  | loop body x k ihb ihk =>
    intro s hs
    refine Safe.loop (J := fun _ => A) (fun _ => hA) (fun _ => hguar) (fun y u hu => ?_) hs
    refine (ihb y hu).mono fun r u hu => ?_
    cases r with
    | inl z => exact hu
    | inr b => exact ihk b hu

/-- A run of the expanded program stands for one of the program. -/
theorem Safe.expand_evals {S₀ : Type} {exec : (o : Op) → S₀ → Option (Ret o × S₀)} {abs : S → S₀}
    (himpl : ∀ o s, Safe exec' (alone S) (impl o) (fun r s' => exec o (abs s) = some (r, abs s')) s)
    (hfail : ∀ msg s, Safe exec' (alone S) (fail msg) (fun _ _ => True) s) (p : Prog Op Ret α) :
    ∀ s, Safe exec' (alone S) (p.expand impl fail) (fun a s' => Prog.Evals exec p (abs s) (.done a (abs s'))) s := by
  induction p with
  | ret a => exact fun s => Safe.alone_ret (.ret a (abs s))
  | abort msg =>
    intro s
    exact Safe.bind ((hfail msg s).mono fun a => a.elim)
  | op o k ih =>
    intro s
    refine Safe.bind ((himpl o s).mono fun r u hu => ?_)
    exact (ih r u).mono fun a s' h => .op hu h
  | loop body x k ihb ihk =>
    intro s
    -- what is left of the loop, run on the abstraction, completes the run from the start
    refine Safe.loop (J := fun y u => ∀ out, Prog.Evals exec (.loop body y k) (abs u) out →
      Prog.Evals exec (.loop body x k) (abs s) out) (fun _ => stable_alone _) (fun _ _ _ => trivial) ?_ fun _ h => h
    intro y u hu
    refine (ihb y u).mono fun r u' hbody => ?_
    cases r with
    | inl z => exact fun out h => hu out (.loop_next hbody h)
    | inr b => exact (ihk b u').mono fun a s' h => hu _ (.loop_exit hbody h)

end

end Ixy.Lib
