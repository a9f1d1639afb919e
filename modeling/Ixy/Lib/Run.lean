import Mathlib.Data.List.Infix
import Mathlib.Data.Option.Basic

/-!
# Runs of events

`runs step s es` performs the events `es` one after the other, and fails if one of them is refused.
`runs_inv` is the invariant rule; its condition `C` on the events may depend on the state. `Before` is about the order
of the events in a history.
-/

namespace Ixy.Lib

section
variable {S E : Type} (step : S → E → Option S)

def runs (s : S) : List E → Option S
  | [] => some s
  | e :: es => (step s e).bind fun s' => runs s' es

variable {step}

@[simp] theorem runs_nil (s : S) : runs step s [] = some s := rfl

@[simp] theorem runs_singleton (s : S) (e : E) : runs step s [e] = step s e := by
  simp [runs]

theorem runs_append (s : S) (es es' : List E) :
    runs step s (es ++ es') = (runs step s es).bind fun s' => runs step s' es' := by
  induction es generalizing s with
  | nil => rfl
  | cons e es ih =>
    rw [List.cons_append, runs, runs]
    cases step s e with
    | none => rfl
    | some s' => exact ih s'

/-- What every event keeps that happens in a state with `C` holds after a run of such events. -/
theorem runs_inv {I : S → Prop} {C : S → E → Prop}
    (hstep : ∀ s e s', I s → C s e → step s e = some s' → I s') {s s' : S} {es : List E} (hs : I s)
    (hes : runs step s es = some s')
    (hC : ∀ es₁ e s₁, es₁ ++ [e] <+: es → runs step s es₁ = some s₁ → C s₁ e) : I s' := by
  induction es generalizing s with
  | nil =>
    cases hes
    exact hs
  | cons e es ih =>
    obtain ⟨s₁, he, hes⟩ := Option.bind_eq_some_iff.mp hes
    refine ih (hstep s e s₁ hs (hC [] e s ⟨es, rfl⟩ rfl) he) hes fun es₁ e' s₂ hpre h₁ => ?_
    obtain ⟨rest, hrest⟩ := hpre
    exact hC (e :: es₁) e' s₂ ⟨rest, by rw [← hrest]; rfl⟩ (by rw [runs, he]; exact h₁)

/-! ## Order -/

/-- Whenever an event of `P` happens, the events before it are as `A` says. -/
def Before (l : List E) (P : E → Prop) (A : List E → Prop) : Prop :=
  ∀ pre e post, l = pre ++ e :: post → P e → A pre

theorem Before.nil {P : E → Prop} {A : List E → Prop} : Before [] P A :=
  fun pre e post h => absurd h.symm (List.append_ne_nil_of_right_ne_nil pre (List.cons_ne_nil e post))

theorem Before.concat {l : List E} {P : E → Prop} {A : List E → Prop} {e : E} (h : Before l P A) (he : P e → A l) :
    Before (l ++ [e]) P A := by
  intro pre e' post heq hP
  rcases List.eq_nil_or_concat post with rfl | ⟨post', x, rfl⟩
  · obtain ⟨hpre, hlast⟩ := List.append_inj' heq rfl
    cases hlast
    rw [← hpre]
    exact he hP
  · rw [List.concat_eq_append, ← List.cons_append, ← List.append_assoc] at heq
    obtain ⟨heq, -⟩ := List.append_inj' heq rfl
    exact h pre e' post' heq hP

theorem Before.mono {l : List E} {P : E → Prop} {A B : List E → Prop} (h : Before l P A) (hAB : ∀ l, A l → B l) :
    Before l P B := fun pre e post heq hP => hAB pre (h pre e post heq hP)

end

end Ixy.Lib
