import Ixy.Lib.Safe

/-!
# Access disciplines

Some properties of a program do not depend on the state at all: which accesses it makes, as long as the
answers are as promised. `Obeys D p Q` says that `p` makes only accesses that `D` allows, relying only on
answers that `D` promises, and returns only values in `Q`. Like `Safe` it counts moves, so that loops need
no measure.

`Obeys.safe` leaves the discipline: if a state invariant delivers the answers and survives the allowed
accesses, it holds throughout. `Prog.relabel` runs a program with its accesses renamed, and `Obeys.relabel`
carries a discipline over.
-/

namespace Ixy.Lib

/-- The accesses a program may make, and the answers it may rely on. -/
structure Discipline (Op : Type) (Ret : Op → Type) where
  allows : Op → Prop
  answers : (o : Op) → Ret o → Prop

section
variable {Op : Type} {Ret : Op → Type} (D : Discipline Op Ret) {α β σ : Type}

def ObeysN : Nat → Prog Op Ret α → (α → Prop) → Prop
  | 0, _, _ => True
  | _ + 1, .ret a, Q => Q a
  | _ + 1, .abort _, _ => True
  | n + 1, .op o k, Q => D.allows o ∧ ∀ r, D.answers o r → ObeysN n (k r) Q
  | n + 1, .loop body x k, Q => ObeysN n ((body x).bind (Prog.resume body k)) Q

def Obeys (p : Prog Op Ret α) (Q : α → Prop) : Prop := ∀ n, ObeysN D n p Q

variable {D}

theorem ObeysN.mono {n m : Nat} {p : Prog Op Ret α} {Q Q' : α → Prop} (hm : m ≤ n) (hQ : ∀ a, Q a → Q' a)
    (h : ObeysN D n p Q) : ObeysN D m p Q' := by
  induction m generalizing n p with
  | zero => cases p <;> trivial
  | succ m ih =>
    obtain ⟨n, rfl⟩ : ∃ n', n = n' + 1 := ⟨n - 1, by omega⟩
    have hle : m ≤ n := by omega
    cases p with
    | ret a => exact hQ a h
    | abort msg => trivial
    | op o k => exact ⟨h.1, fun r hr => ih hle (h.2 r hr)⟩
    | loop body x k => exact ih hle h

theorem ObeysN.bind {n : Nat} {p : Prog Op Ret α} {f : α → Prog Op Ret β} {Q : β → Prop}
    (h : ObeysN D n p fun a => ObeysN D n (f a) Q) : ObeysN D n (p.bind f) Q := by
  induction n generalizing p with
  | zero => cases p.bind f <;> trivial
  | succ n ih =>
    have weaken : ∀ {p : Prog Op Ret α}, ObeysN D n p (fun a => ObeysN D (n + 1) (f a) Q) →
        ObeysN D n (p.bind f) Q :=
      fun hp => ih (hp.mono (Nat.le_refl n) fun _ hf => hf.mono (Nat.le_succ n) fun _ hq => hq)
    cases p with
    | ret a => exact h
    | abort msg => trivial
    | op o k => exact ⟨h.1, fun r hr => weaken (h.2 r hr)⟩
    | loop body x k =>
      have hbody := weaken (p := (body x).bind (Prog.resume body k)) h
      rw [Prog.resume_bind] at hbody
      exact hbody

/-! ## Rules -/

theorem Obeys.mono {p : Prog Op Ret α} {Q Q' : α → Prop} (hQ : ∀ a, Q a → Q' a) (h : Obeys D p Q) :
    Obeys D p Q' := fun n => (h n).mono (Nat.le_refl n) hQ

theorem Obeys.ret {a : α} {Q : α → Prop} (h : Q a) : Obeys D (.ret a) Q := by
  rintro (_ | n)
  · trivial
  · exact h

theorem Obeys.abort {msg : String} {Q : α → Prop} : Obeys D (.abort msg) Q := by
  rintro (_ | n) <;> trivial

theorem Obeys.op {o : Op} {k : Ret o → Prog Op Ret α} {Q : α → Prop} (ho : D.allows o)
    (hk : ∀ r, D.answers o r → Obeys D (k r) Q) : Obeys D (.op o k) Q := by
  rintro (_ | n)
  · trivial
  · exact ⟨ho, fun r hr => hk r hr n⟩

theorem Obeys.bind {p : Prog Op Ret α} {f : α → Prog Op Ret β} {Q : β → Prop}
    (h : Obeys D p fun a => Obeys D (f a) Q) : Obeys D (p.bind f) Q :=
  fun n => ObeysN.bind ((h n).mono (Nat.le_refl n) fun _ hf => hf n)

theorem Obeys.seq {p : Prog Op Ret α} {f : α → Prog Op Ret β} {Q : β → Prop} (hp : Obeys D p fun _ => True)
    (hf : ∀ a, Obeys D (f a) Q) : Obeys D (p.bind f) Q := Obeys.bind (hp.mono fun a _ => hf a)

theorem Obeys.loop {J : σ → Prop} {body : σ → Prog Op Ret (σ ⊕ β)} {k : β → Prog Op Ret α} {Q : α → Prop}
    (hbody : ∀ x, J x → Obeys D (body x) (fun r => match r with | .inl y => J y | .inr b => Obeys D (k b) Q))
    {x : σ} (hx : J x) : Obeys D (.loop body x k) Q := by
  intro n
  induction n generalizing x with
  | zero => trivial
  | succ n ih =>
    refine ObeysN.bind ((hbody x hx n).mono (Nat.le_refl n) fun r hr => ?_)
    cases r with
    | inl y => exact ih hr
    | inr b => exact hr n

theorem Obeys.forRange {lo hi : Nat} {body : Nat → Prog Op Ret Unit}
    (hbody : ∀ i, i < hi → Obeys D (body i) fun _ => True) : Obeys D (Prog.forRange lo hi body) fun _ => True := by
  refine Obeys.loop (J := fun _ => True) (fun i _ => ?_) trivial
  by_cases hlt : i < hi
  · rw [if_pos hlt]
    exact Obeys.bind ((hbody i hlt).mono fun _ _ => Obeys.ret trivial)
  · rw [if_neg hlt]
    exact Obeys.ret (Obeys.ret trivial)

/-! ## Disciplined programs keep an invariant -/

theorem Obeys.safe {S : Type} {exec : (o : Op) → S → Option (Ret o × S)} {C : Contract S} {K : S → Prop}
    (hK : Stable C K) (hguar : ∀ s s', C.guar s s')
    (hop : ∀ o s r s', K s → D.allows o → exec o s = some (r, s') → D.answers o r ∧ K s')
    (habort : ∀ msg s, K s → C.aborts msg s) {p : Prog Op Ret α} {Q : α → Prop} (h : Obeys D p Q) {s : S}
    (hs : K s) : Safe exec C p (fun a s => Q a ∧ K s) s := by
  intro n
  induction n generalizing p s with
  | zero => cases p <;> trivial
  | succ n ih =>
    have hrely : ∀ s', C.rely s s' → SafeN exec C n p (fun a s => Q a ∧ K s) s' :=
      fun s' hr => ih h (hK.rely s s' hs hr)
    cases p with
    | ret a => exact ⟨hK.inv s hs, hrely, h 1, hs⟩
    | abort msg => exact ⟨hK.inv s hs, hrely, habort msg s hs⟩
    | op o k =>
      refine ⟨hK.inv s hs, hrely, fun r s' he => ⟨hguar s s', ?_⟩⟩
      obtain ⟨hr, hs'⟩ := hop o s r s' hs (h 1).1 he
      exact ih (fun m => (h (m + 1)).2 r hr) hs'
    | loop body x k => exact ⟨hK.inv s hs, hrely, hguar s s, ih (fun m => h (m + 1)) hs⟩

/-- What a program obeys whatever it is answered comes on top of what it is safe for. -/
theorem Safe.and_obeys {S : Type} {exec : (o : Op) → S → Option (Ret o × S)} {C : Contract S}
    (hD : ∀ o r, D.answers o r) {p : Prog Op Ret α} {Q : α → S → Prop} {R : α → Prop} {s : S} (h : Safe exec C p Q s)
    (hR : Obeys D p R) : Safe exec C p (fun a s => Q a s ∧ R a) s := by
  intro n
  induction n generalizing p s with
  | zero => cases p <;> trivial
  | succ n ih =>
    have hrely : ∀ s', C.rely s s' → SafeN exec C n p (fun a s => Q a s ∧ R a) s' :=
      fun s' hr => ih (fun m => (h (m + 1)).rely hr) hR
    cases p with
    | ret a => exact ⟨h.inv, hrely, h.post, hR 1⟩
    | abort msg => exact ⟨h.inv, hrely, h.aborts⟩
    | op o k =>
      refine ⟨h.inv, hrely, fun r s' he => ⟨((h 1).2.2 r s' he).1, ?_⟩⟩
      exact ih (fun m => ((h (m + 1)).2.2 r s' he).2) fun m => (hR (m + 1)).2 r (hD o r)
    | loop body x k =>
      exact ⟨h.inv, hrely, (h 1).2.2.1, ih (fun m => (h (m + 1)).2.2.2) fun m => hR (m + 1)⟩

end

/-! ## Renaming accesses -/

section
variable {Op Op' : Type} {Ret : Op → Type} {Ret' : Op' → Type} {α : Type}

/-- The same program with access `o` made as access `f o`, whose answer `g` reads. -/
def Prog.relabel (f : Op → Op') (g : (o : Op) → Ret' (f o) → Ret o) : {α : Type} → Prog Op Ret α → Prog Op' Ret' α
  | _, .ret a => .ret a
  | _, .abort msg => .abort msg
  | _, .op o k => .op (f o) fun r => (k (g o r)).relabel f g
  | _, .loop body x k => .loop (fun y => (body y).relabel f g) x fun b => (k b).relabel f g

variable {f : Op → Op'} {g : (o : Op) → Ret' (f o) → Ret o}

theorem Prog.relabel_bind {α β : Type} (p : Prog Op Ret α) (h : α → Prog Op Ret β) :
    (p.bind h).relabel f g = (p.relabel f g).bind fun a => (h a).relabel f g := by
  induction p with
  | ret a => rfl
  | abort msg => rfl
  | op o k ih =>
    simp only [Prog.bind, Prog.relabel]
    congr 1
    funext r
    exact ih (g o r) h
  | loop body x k _ ih =>
    simp only [Prog.bind, Prog.relabel]
    congr 1
    funext b
    exact ih b h

theorem Prog.relabel_resume {σ β α : Type} (body : σ → Prog Op Ret (σ ⊕ β)) (x : σ) (k : β → Prog Op Ret α) :
    ((body x).bind (Prog.resume body k)).relabel f g =
      ((body x).relabel f g).bind (Prog.resume (fun y => (body y).relabel f g) fun b => (k b).relabel f g) := by
  rw [Prog.relabel_bind]
  congr 1
  funext r
  cases r with
  | inl y => rfl
  | inr b => rfl

theorem Obeys.relabel {D : Discipline Op Ret} {D' : Discipline Op' Ret'}
    (hallows : ∀ o, D.allows o → D'.allows (f o))
    (hanswers : ∀ o r, D.allows o → D'.answers (f o) r → D.answers o (g o r)) {p : Prog Op Ret α} {Q : α → Prop}
    (h : Obeys D p Q) : Obeys D' (p.relabel f g) Q := by
  intro n
  induction n generalizing p with
  | zero => cases p.relabel f g <;> trivial
  | succ n ih =>
    cases p with
    | ret a => exact h 1
    | abort msg => trivial
    | op o k =>
      have ho : D.allows o := (h 1).1
      exact ⟨hallows o ho, fun r hr => ih fun m => (h (m + 1)).2 _ (hanswers o r ho hr)⟩
    | loop body x k =>
      have hbody := ih (p := (body x).bind (Prog.resume body k)) fun m => h (m + 1)
      rw [Prog.relabel_resume] at hbody
      exact hbody

theorem SafeN.relabel {S : Type} {exec : (o : Op) → S → Option (Ret o × S)}
    {exec' : (o : Op') → S → Option (Ret' o × S)}
    (hexec : ∀ o s, exec o s = (exec' (f o) s).map fun r => (g o r.1, r.2))
    {C : Contract S} {Q : α → S → Prop} {n : Nat} {p : Prog Op Ret α} {s : S} (h : SafeN exec C n p Q s) :
    SafeN exec' C n (p.relabel f g) Q s := by
  induction n generalizing p s with
  | zero => cases p.relabel f g <;> trivial
  | succ n ih =>
    have hrely : ∀ s', C.rely s s' → SafeN exec' C n (p.relabel f g) Q s' := fun s' hr => ih (h.rely hr)
    cases p with
    | ret a => exact ⟨h.1, hrely, h.2.2⟩
    | abort msg => exact ⟨h.1, hrely, h.2.2⟩
    | op o k =>
      refine ⟨h.1, hrely, fun r s' he => ?_⟩
      have ho := h.2.2 (g o r) s' (by rw [hexec, he]; rfl)
      exact ⟨ho.1, ih ho.2⟩
    | loop body x k =>
      have hbody := ih h.2.2.2
      rw [Prog.relabel_resume] at hbody
      exact ⟨h.1, hrely, h.2.2.1, hbody⟩

/-- A program is as safe when its accesses are renamed. -/
theorem Safe.relabel {S : Type} {exec : (o : Op) → S → Option (Ret o × S)}
    {exec' : (o : Op') → S → Option (Ret' o × S)}
    (hexec : ∀ o s, exec o s = (exec' (f o) s).map fun r => (g o r.1, r.2))
    {C : Contract S} {Q : α → S → Prop} {p : Prog Op Ret α} {s : S} (h : Safe exec C p Q s) :
    Safe exec' C (p.relabel f g) Q s :=
  fun n => (h n).relabel hexec

theorem Prog.eval_relabel {S : Type} {exec : (o : Op) → S → Option (Ret o × S)}
    {exec' : (o : Op') → S → Option (Ret' o × S)}
    (hexec : ∀ o s, exec o s = (exec' (f o) s).map fun r => (g o r.1, r.2))
    (fuel : Nat) (p : Prog Op Ret α) (s : S) : eval exec' fuel (p.relabel f g) s = eval exec fuel p s := by
  induction fuel generalizing p s with
  | zero => rfl
  | succ fuel ih =>
    cases p with
    | ret a => rfl
    | abort msg => rfl
    | op o k =>
      simp only [Prog.relabel, eval, hexec, Option.bind_map, ih]
      rfl
    | loop body x k =>
      have hbody := ih ((body x).bind (resume body k)) s
      rw [Prog.relabel_resume] at hbody
      exact hbody

end

end Ixy.Lib
