import Ixy.Lib.Discipline

/-!
# A part of the state

A program that was written for a part of the state works on the whole state by renaming its accesses. `Safe.onPart`: it
is as safe there as it is on the part, and a frame, which says of the rest what the accesses to the part keep, comes
along.
-/

namespace Ixy.Lib

section
variable {S P Op Op' : Type} {Ret : Op → Type} {Ret' : Op' → Type} {α : Type}

/-- `view` shows a part of the state. On it, access `f o` does what `o` does, and the contract `C'` of the whole is what
the contract `C` of the part makes it, as long as the frame `F` holds. What others do to the whole may leave the part
alone, so `C.rely` need not be reflexive. -/
structure Part (view : S → P) (exec : (o : Op) → P → Option (Ret o × P))
    (exec' : (o : Op') → S → Option (Ret' o × S)) (f : Op → Op') (g : (o : Op) → Ret' (f o) → Ret o) (C : Contract P)
    (C' : Contract S) (F : S → Prop) : Prop where
  exec : ∀ o s r s', F s → exec' (f o) s = some (r, s') → exec o (view s) = some (g o r, view s') ∧ F s'
  guar : ∀ o s r s', F s → exec' (f o) s = some (r, s') → C.guar (view s) (view s') → C'.guar s s'
  idle : ∀ s, F s → C'.guar s s
  rely : ∀ s s', F s → C'.rely s s' → (view s' = view s ∨ C.rely (view s) (view s')) ∧ F s'
  inv : ∀ s, F s → C.inv (view s) → C'.inv s
  aborts : ∀ msg s, F s → C.aborts msg (view s) → C'.aborts msg s

variable {view : S → P} {exec : (o : Op) → P → Option (Ret o × P)} {exec' : (o : Op') → S → Option (Ret' o × S)}
variable {f : Op → Op'} {g : (o : Op) → Ret' (f o) → Ret o} {C : Contract P} {C' : Contract S} {F : S → Prop}

theorem SafeN.onPart (h : Part view exec exec' f g C C' F) {Q : α → P → Prop} {n : Nat} {p : Prog Op Ret α} {s : S}
    (hp : SafeN exec C n p Q (view s)) (hF : F s) :
    SafeN exec' C' n (p.relabel f g) (fun a s => Q a (view s) ∧ F s) s := by
  induction n generalizing p s with
  | zero => cases p.relabel f g <;> trivial
  | succ n ih =>
    have hinv := h.inv s hF hp.inv
    have hrely : ∀ s', C'.rely s s' → SafeN exec' C' n (p.relabel f g) (fun a s => Q a (view s) ∧ F s) s' := by
      intro s' hr
      obtain ⟨hr, hF'⟩ := h.rely s s' hF hr
      refine ih ?_ hF'
      rcases hr with hsame | hr
      · rw [hsame]
        exact hp.mono (Nat.le_succ n) fun _ _ hq => hq
      · exact hp.rely hr
    cases p with
    | ret a => exact ⟨hinv, hrely, hp.2.2, hF⟩
    | abort msg => exact ⟨hinv, hrely, h.aborts msg s hF hp.2.2⟩
    | op o k =>
      refine ⟨hinv, hrely, fun r s' he => ?_⟩
      obtain ⟨he', hF'⟩ := h.exec o s r s' hF he
      obtain ⟨hg, hk⟩ := hp.2.2 _ _ he'
      exact ⟨h.guar o s r s' hF he hg, ih hk hF'⟩
    | loop body x k =>
      have hbody := ih hp.2.2.2 hF
      rw [Prog.relabel_resume] at hbody
      exact ⟨hinv, hrely, h.idle s hF, hbody⟩

/-- A program that is safe on a part is safe on the whole. -/
theorem Safe.onPart (h : Part view exec exec' f g C C' F) {Q : α → P → Prop} {p : Prog Op Ret α} {s : S}
    (hp : Safe exec C p Q (view s)) (hF : F s) :
    Safe exec' C' (p.relabel f g) (fun a s => Q a (view s) ∧ F s) s :=
  fun n => (hp n).onPart h hF

end

end Ixy.Lib
