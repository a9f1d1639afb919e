import Ixy.Lib.Safe

/-!
# Programs that end

`Safe` says what a program does if it gets on. `Ends p Q s` says that it gets on: run alone from `s`, it makes all its
accesses, leaves its loops, and returns with `Q`. A loop needs a measure for that (`Ends.loop`). The two meet in
`Ends.and_safe`: a program that ends, and is safe, ends as the safety proof says.
-/

namespace Ixy.Lib

section
variable {S Op : Type} {Ret : Op → Type} {exec : (o : Op) → S → Option (Ret o × S)} {α β σ : Type}

/-- Run alone from `s`, the program returns, and `Q` holds then. -/
def Ends (exec : (o : Op) → S → Option (Ret o × S)) (p : Prog Op Ret α) (Q : α → S → Prop) (s : S) : Prop :=
  ∃ a s', Prog.Evals exec p s (.done a s') ∧ Q a s'

theorem Ends.mono {p : Prog Op Ret α} {Q Q' : α → S → Prop} {s : S} (h : Ends exec p Q s)
    (hQ : ∀ a s, Q a s → Q' a s) : Ends exec p Q' s := by
  obtain ⟨a, s', hrun, hq⟩ := h
  exact ⟨a, s', hrun, hQ a s' hq⟩

theorem Ends.ret {a : α} {Q : α → S → Prop} {s : S} (h : Q a s) : Ends exec (.ret a) Q s :=
  ⟨a, s, .ret a s, h⟩

theorem Ends.op {o : Op} {k : Ret o → Prog Op Ret α} {Q : α → S → Prop} {s u : S} {r : Ret o}
    (he : exec o s = some (r, u)) (h : Ends exec (k r) Q u) : Ends exec (.op o k) Q s := by
  obtain ⟨a, s', hrun, hq⟩ := h
  exact ⟨a, s', .op he hrun, hq⟩

theorem Ends.bind {p : Prog Op Ret α} {f : α → Prog Op Ret β} {Q : β → S → Prop} {s : S}
    (h : Ends exec p (fun a s' => Ends exec (f a) Q s') s) : Ends exec (p.bind f) Q s := by
  obtain ⟨a, s₁, hfirst, b, s₂, hrest, hq⟩ := h
  exact ⟨b, s₂, hfirst.bind hrest, hq⟩

theorem Ends.seq {p : Prog Op Ret α} {f : α → Prog Op Ret β} {Q : α → S → Prop} {R : β → S → Prop} {s : S}
    (hp : Ends exec p Q s) (hf : ∀ a s, Q a s → Ends exec (f a) R s) : Ends exec (p.bind f) R s :=
  Ends.bind (hp.mono hf)

/-- Every pass of the body either leaves the loop or makes the measure `μ` smaller. -/
theorem Ends.loop {J : σ → S → Prop} {μ : σ → S → Nat} {body : σ → Prog Op Ret (σ ⊕ β)} {k : β → Prog Op Ret α}
    {Q : α → S → Prop}
    (hbody : ∀ x s, J x s → Ends exec (body x)
      (fun r s' => match r with | .inl y => J y s' ∧ μ y s' < μ x s | .inr b => Ends exec (k b) Q s') s)
    {x : σ} {s : S} (hs : J x s) : Ends exec (.loop body x k) Q s := by
  induction hm : μ x s using Nat.strongRecOn generalizing x s with
  | ind m ih =>
  obtain ⟨r, s₁, hpass, hr⟩ := hbody x s hs
  cases r with
  | inl y =>
    obtain ⟨a, s', hrest, hq⟩ := ih (μ y s₁) (hm ▸ hr.2) hr.1 rfl
    exact ⟨a, s', .loop_next hpass hrest, hq⟩
  | inr b =>
    obtain ⟨a, s', hrest, hq⟩ := hr
    exact ⟨a, s', .loop_exit hpass hrest, hq⟩

theorem Ends.forRange {J : Nat → S → Prop} {lo hi : Nat} {body : Nat → Prog Op Ret Unit}
    (hbody : ∀ i s, i < hi → J i s → Ends exec (body i) (fun _ s => J (i + 1) s) s) (hle : lo ≤ hi) {s : S}
    (hs : J lo s) : Ends exec (Prog.forRange lo hi body) (fun _ s => J hi s) s := by
  refine Ends.loop (J := fun i s => i ≤ hi ∧ J i s) (μ := fun i _ => hi - i) ?_ ⟨hle, hs⟩
  rintro i s ⟨hi', hs⟩
  by_cases hlt : i < hi
  · rw [if_pos hlt]
    apply Ends.bind
    refine (hbody i s hlt hs).mono fun _ s' hs' => Ends.ret ⟨⟨hlt, hs'⟩, ?_⟩
    omega
  · rw [if_neg hlt]
    obtain rfl : i = hi := by omega
    exact Ends.ret (Ends.ret hs)

/-- What a safe program leaves behind when it ends. -/
theorem Ends.and_safe {C : Contract S} {p : Prog Op Ret α} {Q R : α → S → Prop} {s : S} (h : Ends exec p Q s)
    (hsafe : Safe exec C p R s) : Ends exec p (fun a s' => Q a s' ∧ R a s') s := by
  obtain ⟨a, s', hrun, hq⟩ := h
  obtain ⟨fuel, hfuel⟩ := hrun
  exact ⟨a, s', ⟨fuel, hfuel⟩, hq, hsafe.eval fuel hfuel⟩

end

end Ixy.Lib
