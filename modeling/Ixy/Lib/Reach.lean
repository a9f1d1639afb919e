import Mathlib.Data.List.Infix
import Ixy.Lib.Safe

/-!
# Histories of undisturbed runs

An undisturbed run may end or go on forever. What it does is in the states that it reaches (`Prog.Reaches`). If the
accesses only add to a history, the histories of these states are prefixes of one another (`Reaches.prefix_total`). A
program that never ends never gets to what stands behind it (`Reaches.of_stuck`).

`SameRuns` compares two programs from states that no access can tell apart: they end in the same ways, and in states
that no access can tell apart.
-/

namespace Ixy.Lib

variable {S Op : Type} {Ret : Op → Type} {α β γ : Type} {exec : (o : Op) → S → Option (Ret o × S)}

/-! ## Inversion -/

namespace Prog

theorem evals_op_iff {o : Op} {k : Ret o → Prog Op Ret α} {s u : S} {r : Ret o} {out : Outcome α S}
    (he : exec o s = some (r, u)) : Evals exec (.op o k) s out ↔ Evals exec (k r) u out := by
  constructor
  · rintro ⟨_ | fuel, h⟩
    · cases h
    · rw [eval_op he] at h
      exact ⟨fuel, h⟩
  · exact .op he

theorem Evals.of_op {o : Op} {k : Ret o → Prog Op Ret α} {s : S} {out : Outcome α S} (h : Evals exec (.op o k) s out) :
    ∃ r u, exec o s = some (r, u) ∧ Evals exec (k r) u out := by
  obtain ⟨_ | fuel, h⟩ := h
  · cases h
  · obtain ⟨⟨r, u⟩, he, h⟩ := Option.bind_eq_some_iff.mp h
    exact ⟨r, u, he, fuel, h⟩

theorem Evals.of_bind {p : Prog Op Ret α} {f : α → Prog Op Ret β} {s : S} {out : Outcome β S}
    (h : Evals exec (p.bind f) s out) : (∃ a s', Evals exec p s (.done a s') ∧ Evals exec (f a) s' out) ∨
      ∃ msg s', Evals exec p s (.aborted msg s') ∧ out = .aborted msg s' := by
  obtain ⟨fuel, h⟩ := h
  induction fuel generalizing p s with
  | zero => cases h
  | succ fuel ih =>
    cases p with
    | ret a => exact Or.inl ⟨a, s, .ret a s, fuel + 1, h⟩
    | abort msg => exact Or.inr ⟨msg, s, .abort msg s, (Option.some.inj h).symm⟩
    | op o k =>
      obtain ⟨⟨r, u⟩, he, h⟩ := Option.bind_eq_some_iff.mp h
      rcases ih h with ⟨a, s', hp, hf⟩ | ⟨msg, s', hp, hout⟩
      · exact Or.inl ⟨a, s', .op he hp, hf⟩
      · exact Or.inr ⟨msg, s', .op he hp, hout⟩
    | loop body x k =>
      rw [Prog.bind, eval, ← resume_bind] at h
      rcases ih h with ⟨a, s', hp, hf⟩ | ⟨msg, s', hp, hout⟩
      · exact Or.inl ⟨a, s', .loop hp, hf⟩
      · exact Or.inr ⟨msg, s', .loop hp, hout⟩

/-! ## States that look alike -/

/-- The same outcome, in states that are related. -/
inductive Outcome.Like (R : S → S → Prop) : Outcome α S → Outcome α S → Prop
  | done (a : α) {s s' : S} (h : R s s') : Outcome.Like R (.done a s) (.done a s')
  | aborted (msg : String) {s s' : S} (h : R s s') : Outcome.Like R (.aborted msg s) (.aborted msg s')

/-- No access can tell related states apart. -/
def Indistinct (exec : (o : Op) → S → Option (Ret o × S)) (R : S → S → Prop) : Prop :=
  ∀ o s s' r u, R s s' → exec o s = some (r, u) → ∃ u', exec o s' = some (r, u') ∧ R u u'

/-- Whatever `p` does, `p'` does as well. -/
def Alike (exec : (o : Op) → S → Option (Ret o × S)) (R : S → S → Prop) (p p' : Prog Op Ret α) : Prop :=
  ∀ s s' out, R s s' → Evals exec p s out → ∃ out', Evals exec p' s' out' ∧ out.Like R out'

section
variable {R : S → S → Prop}

theorem Alike.refl (hR : Indistinct exec R) (p : Prog Op Ret α) : Alike exec R p p := by
  rintro s s' out hs ⟨fuel, h⟩
  induction fuel generalizing p s s' with
  | zero => cases h
  | succ fuel ih =>
    cases p with
    | ret a =>
      cases h
      exact ⟨_, .ret a s', .done a hs⟩
    | abort msg =>
      cases h
      exact ⟨_, .abort msg s', .aborted msg hs⟩
    | op o k =>
      obtain ⟨⟨r, u⟩, he, h⟩ := Option.bind_eq_some_iff.mp h
      obtain ⟨u', he', hu⟩ := hR o s s' r u hs he
      obtain ⟨out', h', hout⟩ := ih (k r) u u' hu h
      exact ⟨out', .op he' h', hout⟩
    | loop body x k =>
      obtain ⟨out', h', hout⟩ := ih _ s s' hs h
      exact ⟨out', .loop h', hout⟩

theorem Alike.op (hR : Indistinct exec R) {o : Op} {k k' : Ret o → Prog Op Ret α}
    (hk : ∀ r, Alike exec R (k r) (k' r)) : Alike exec R (.op o k) (.op o k') := by
  intro s s' out hs h
  obtain ⟨r, u, he, h⟩ := h.of_op
  obtain ⟨u', he', hu⟩ := hR o s s' r u hs he
  obtain ⟨out', h', hout⟩ := hk r u u' out hu h
  exact ⟨out', .op he' h', hout⟩

theorem Alike.bind {p p' : Prog Op Ret α} {f f' : α → Prog Op Ret β} (hp : Alike exec R p p')
    (hf : ∀ a, Alike exec R (f a) (f' a)) : Alike exec R (p.bind f) (p'.bind f') := by
  intro s s' out hs h
  rcases h.of_bind with ⟨a, u, hfirst, hrest⟩ | ⟨msg, u, hfail, rfl⟩
  · obtain ⟨_, hfirst', hu⟩ := hp s s' _ hs hfirst
    cases hu with
    | done _ hu =>
      obtain ⟨out', hrest', hout⟩ := hf a u _ out hu hrest
      exact ⟨out', hfirst'.bind hrest', hout⟩
  · obtain ⟨_, hfail', hu⟩ := hp s s' _ hs hfail
    cases hu with
    | aborted _ hu => exact ⟨_, hfail'.bind_abort, .aborted msg hu⟩

/-- Two programs do the same. -/
def SameRuns (exec : (o : Op) → S → Option (Ret o × S)) (R : S → S → Prop) (p p' : Prog Op Ret α) : Prop :=
  Alike exec R p p' ∧ Alike exec R p' p

theorem SameRuns.refl (hR : Indistinct exec R) (p : Prog Op Ret α) : SameRuns exec R p p := ⟨.refl hR p, .refl hR p⟩

theorem SameRuns.op (hR : Indistinct exec R) {o : Op} {k k' : Ret o → Prog Op Ret α}
    (hk : ∀ r, SameRuns exec R (k r) (k' r)) : SameRuns exec R (.op o k) (.op o k') :=
  ⟨.op hR fun r => (hk r).1, .op hR fun r => (hk r).2⟩

theorem SameRuns.bind {p p' : Prog Op Ret α} {f f' : α → Prog Op Ret β} (hp : SameRuns exec R p p')
    (hf : ∀ a, SameRuns exec R (f a) (f' a)) : SameRuns exec R (p.bind f) (p'.bind f') :=
  ⟨hp.1.bind fun a => (hf a).1, hp.2.bind fun a => (hf a).2⟩

end

/-! ## Reached states -/

/-- The program, alone, gets from `s` to `s'`. -/
def Reaches (exec : (o : Op) → S → Option (Ret o × S)) (p : Prog Op Ret α) (s s' : S) : Prop :=
  ∃ n q, Conf.run exec (fun (e : Empty) _ => nomatch e) (List.replicate n .prog) ⟨s, p⟩ = some ⟨s', q⟩

theorem Reaches.refl (p : Prog Op Ret α) (s : S) : Reaches exec p s s := ⟨0, p, rfl⟩

theorem Reaches.op {o : Op} {k : Ret o → Prog Op Ret α} {s u s' : S} {r : Ret o} (he : exec o s = some (r, u))
    (h : Reaches exec (k r) u s') : Reaches exec (.op o k) s s' := by
  obtain ⟨n, q, h⟩ := h
  refine ⟨n + 1, q, ?_⟩
  rw [List.replicate_succ, Conf.run, Conf.step, he]
  exact h

theorem Reaches.bind {p : Prog Op Ret α} {f : α → Prog Op Ret β} {s u s' : S} {a : α}
    (hp : Evals exec p s (.done a u)) (h : Reaches exec (f a) u s') : Reaches exec (p.bind f) s s' := by
  obtain ⟨m, hm⟩ := Conf.run_of_evals exec (fun (e : Empty) _ => nomatch e) f hp
  obtain ⟨n, q, h⟩ := h
  refine ⟨m + n, q, ?_⟩
  rw [← List.replicate_append_replicate, Conf.run_append, hm]
  exact h

/-- What comes after a program that never ends does not matter. -/
theorem Reaches.of_stuck {p : Prog Op Ret α} {f : α → Prog Op Ret β} (g : α → Prog Op Ret γ) {s s' : S}
    (hstuck : ∀ out, ¬ Evals exec p s out) (h : Reaches exec (p.bind f) s s') : Reaches exec (p.bind g) s s' := by
  obtain ⟨n, q, h⟩ := h
  induction n generalizing p s with
  | zero =>
    cases h
    exact .refl _ _
  | succ n ih =>
    rw [List.replicate_succ, Conf.run] at h
    cases p with
    | ret a => exact absurd (.ret a s) (hstuck _)
    | abort msg => exact absurd (.abort msg s) (hstuck _)
    | op o k =>
      obtain ⟨c, hstep, h⟩ := Option.bind_eq_some_iff.mp h
      obtain ⟨⟨r, u⟩, he, rfl⟩ := Option.map_eq_some_iff.mp hstep
      exact .op he (ih (fun out hrun => hstuck out (.op he hrun)) h)
    | loop body x k =>
      rw [Prog.bind, Conf.step, Option.bind_some, ← resume_bind] at h
      obtain ⟨m, q', hm⟩ := ih (fun out hrun => hstuck out (.loop hrun)) h
      rw [resume_bind] at hm
      exact ⟨m + 1, q', hm⟩

section
variable {H : Type} {history : S → List H}

theorem run_history (hexec : ∀ o s r s', exec o s = some (r, s') → history s <+: history s') (n : Nat)
    {c c' : Conf S Op Ret α}
    (h : Conf.run exec (fun (e : Empty) _ => nomatch e) (List.replicate n .prog) c = some c') :
    history c.state <+: history c'.state := by
  induction n generalizing c with
  | zero =>
    cases h
    exact List.prefix_refl _
  | succ n ih =>
    obtain ⟨c₁, hstep, h⟩ := Option.bind_eq_some_iff.mp h
    obtain ⟨s, p⟩ := c
    cases p with
    | ret a => cases hstep
    | abort msg => cases hstep
    | op o k =>
      obtain ⟨⟨r, u⟩, he, rfl⟩ := Option.map_eq_some_iff.mp hstep
      exact (hexec o s r u he).trans (ih h)
    | loop body x k =>
      cases hstep
      exact ih (c := ⟨s, (body x).bind (resume body k)⟩) h

/-- There is one run: of two states that it reaches, one comes first. -/
theorem Reaches.prefix_total (hexec : ∀ o s r s', exec o s = some (r, s') → history s <+: history s')
    {p : Prog Op Ret α} {s s₁ s₂ : S} (h₁ : Reaches exec p s s₁) (h₂ : Reaches exec p s s₂) :
    history s₁ <+: history s₂ ∨ history s₂ <+: history s₁ := by
  have hle : ∀ {n m : Nat} {c₁ c₂ : Conf S Op Ret α}, n ≤ m →
      Conf.run exec (fun (e : Empty) _ => nomatch e) (List.replicate n .prog) ⟨s, p⟩ = some c₁ →
      Conf.run exec (fun (e : Empty) _ => nomatch e) (List.replicate m .prog) ⟨s, p⟩ = some c₂ →
      history c₁.state <+: history c₂.state := by
    intro n m c₁ c₂ hnm h₁ h₂
    obtain ⟨d, rfl⟩ := Nat.exists_eq_add_of_le hnm
    rw [← List.replicate_append_replicate, Conf.run_append, h₁] at h₂
    exact run_history hexec d h₂
  obtain ⟨n, q₁, h₁⟩ := h₁
  obtain ⟨m, q₂, h₂⟩ := h₂
  rcases Nat.le_total n m with hnm | hmn
  · exact Or.inl (hle hnm h₁ h₂)
  · exact Or.inr (hle hmn h₂ h₁)

end

end Prog

/-- What a safe program keeps holds in every state that it reaches. -/
theorem Safe.reaches {C : Contract S} {p : Prog Op Ret α} {Q : α → S → Prop} {s s' : S} (h : Safe exec C p Q s)
    (hreach : Prog.Reaches exec p s s') : C.inv s' := by
  obtain ⟨n, q, hrun⟩ := hreach
  exact (Safe.run (c := ⟨s, p⟩) (fun e => nomatch e) h hrun).inv

end Ixy.Lib
