import Ixy.Lib.Prog

/-!
# Safety of a program under interference

`Safe C p Q s`: started in `s`, with interference inside `C.rely` before every access, the program
`p` keeps `C.inv`, makes only moves inside `C.guar`, aborts only as `C.aborts` allows, and satisfies
`Q` whenever it has returned. The definition counts moves (`SafeN`), so that loops need no measure:
`Safe.loop` is the invariant rule.

The rules take an assertion `A` that interference keeps (`Stable`), one per access. Two adequacy
theorems leave the logic: `Safe.run` for a program interleaved with an environment, and
`Pool.run_safe` for any number of threads, each of which is the interference of the others.
-/

namespace Ixy.Lib

/-- What a program may assume of its surroundings, and what it has to guarantee. -/
structure Contract (S : Type) where
  rely : S → S → Prop
  guar : S → S → Prop
  inv : S → Prop
  aborts : String → S → Prop

section
variable {S Op : Type} {Ret : Op → Type} (exec : (o : Op) → S → Option (Ret o × S)) (C : Contract S)
variable {α β σ : Type}

/-- Safety for the next `n` moves. -/
def SafeN : Nat → Prog Op Ret α → (α → S → Prop) → S → Prop
  | 0, _, _, _ => True
  | n + 1, .ret a, Q, s => C.inv s ∧ (∀ s', C.rely s s' → SafeN n (.ret a) Q s') ∧ Q a s
  | n + 1, .abort msg, Q, s =>
    C.inv s ∧ (∀ s', C.rely s s' → SafeN n (.abort msg) Q s') ∧ C.aborts msg s
  | n + 1, .op o k, Q, s => C.inv s ∧ (∀ s', C.rely s s' → SafeN n (.op o k) Q s') ∧
      ∀ r s', exec o s = some (r, s') → C.guar s s' ∧ SafeN n (k r) Q s'
  | n + 1, .loop body x k, Q, s => C.inv s ∧ (∀ s', C.rely s s' → SafeN n (.loop body x k) Q s') ∧
      C.guar s s ∧ SafeN n ((body x).bind (Prog.resume body k)) Q s

/-- Safety for any number of moves. -/
def Safe (p : Prog Op Ret α) (Q : α → S → Prop) (s : S) : Prop := ∀ n, SafeN exec C n p Q s

/-- Interference keeps `A`, and `A` implies the invariant. -/
structure Stable (A : S → Prop) : Prop where
  rely : ∀ s s', A s → C.rely s s' → A s'
  inv : ∀ s, A s → C.inv s

variable {exec C}

/-- A union of stable conditions is stable. -/
theorem Stable.cover {A : S → Prop} (h : ∀ s, A s → ∃ B : S → Prop, Stable C B ∧ B s ∧ ∀ s, B s → A s) :
    Stable C A := by
  constructor
  · intro s s' hs hr
    obtain ⟨B, hB, hs, hBA⟩ := h s hs
    exact hBA s' (hB.rely s s' hs hr)
  · intro s hs
    obtain ⟨B, hB, hs, -⟩ := h s hs
    exact hB.inv s hs

theorem SafeN.inv {n : Nat} {p : Prog Op Ret α} {Q : α → S → Prop} {s : S}
    (h : SafeN exec C (n + 1) p Q s) : C.inv s := by
  cases p <;> exact h.1

theorem SafeN.rely {n : Nat} {p : Prog Op Ret α} {Q : α → S → Prop} {s s' : S}
    (h : SafeN exec C (n + 1) p Q s) (hr : C.rely s s') : SafeN exec C n p Q s' := by
  cases p <;> exact h.2.1 s' hr

theorem SafeN.mono {n m : Nat} {p : Prog Op Ret α} {Q Q' : α → S → Prop} {s : S}
    (hm : m ≤ n) (hQ : ∀ a s, Q a s → Q' a s) (h : SafeN exec C n p Q s) :
    SafeN exec C m p Q' s := by
  induction m generalizing n p s with
  | zero => cases p <;> trivial
  | succ m ih =>
    obtain ⟨n, rfl⟩ : ∃ n', n = n' + 1 := ⟨n - 1, by omega⟩
    have hle : m ≤ n := by omega
    have hrely : ∀ s', C.rely s s' → SafeN exec C m p Q' s' := fun s' hr => ih hle (h.rely hr)
    cases p with
    | ret a => exact ⟨h.1, hrely, hQ a s h.2.2⟩
    | abort msg => exact ⟨h.1, hrely, h.2.2⟩
    | op o k =>
      exact ⟨h.1, hrely, fun r s' he => ⟨(h.2.2 r s' he).1, ih hle (h.2.2 r s' he).2⟩⟩
    | loop body x k => exact ⟨h.1, hrely, h.2.2.1, ih hle h.2.2.2⟩

theorem SafeN.bind {n : Nat} {p : Prog Op Ret α} {f : α → Prog Op Ret β} {Q : β → S → Prop} {s : S}
    (h : SafeN exec C n p (fun a s => SafeN exec C n (f a) Q s) s) :
    SafeN exec C n (p.bind f) Q s := by
  induction n generalizing p s with
  | zero => cases p.bind f <;> trivial
  | succ n ih =>
    -- after a move of `p` the continuation is needed for one move less
    have weaken : ∀ {p : Prog Op Ret α} {s : S},
        SafeN exec C n p (fun a s => SafeN exec C (n + 1) (f a) Q s) s →
        SafeN exec C n (p.bind f) Q s :=
      fun hp => ih (hp.mono (Nat.le_refl _) fun _ _ hf => hf.mono (Nat.le_succ n) fun _ _ hq => hq)
    have hrely : ∀ s', C.rely s s' → SafeN exec C n (p.bind f) Q s' :=
      fun s' hr => weaken (h.rely hr)
    cases p with
    | ret a => exact h.2.2
    | abort msg => exact ⟨h.1, hrely, h.2.2⟩
    | op o k => exact ⟨h.1, hrely, fun r s' he => ⟨(h.2.2 r s' he).1, weaken (h.2.2 r s' he).2⟩⟩
    | loop body x k =>
      have hbody := weaken h.2.2.2
      rw [Prog.resume_bind] at hbody
      exact ⟨h.1, hrely, h.2.2.1, hbody⟩

/-! ## Rules -/

theorem Safe.mono {p : Prog Op Ret α} {Q Q' : α → S → Prop} {s : S}
    (hQ : ∀ a s, Q a s → Q' a s) (h : Safe exec C p Q s) : Safe exec C p Q' s :=
  fun n => (h n).mono (Nat.le_refl n) hQ

theorem Safe.bind {p : Prog Op Ret α} {f : α → Prog Op Ret β} {Q : β → S → Prop} {s : S}
    (h : Safe exec C p (fun a s => Safe exec C (f a) Q s) s) : Safe exec C (p.bind f) Q s :=
  fun n => SafeN.bind ((h n).mono (Nat.le_refl n) fun _ _ hf => hf n)

theorem Safe.seq {p : Prog Op Ret α} {f : α → Prog Op Ret β} {P : α → S → Prop} {Q : β → S → Prop} {s : S}
    (hp : Safe exec C p P s) (hf : ∀ a s, P a s → Safe exec C (f a) Q s) : Safe exec C (p.bind f) Q s :=
  Safe.bind (hp.mono hf)

theorem Safe.ret {A : S → Prop} {a : α} {Q : α → S → Prop} (hA : Stable C A)
    (hQ : ∀ s, A s → Q a s) {s : S} (hs : A s) : Safe exec C (.ret a) Q s := by
  intro n
  induction n generalizing s with
  | zero => trivial
  | succ n ih => exact ⟨hA.inv s hs, fun s' hr => ih (hA.rely s s' hs hr), hQ s hs⟩

theorem Safe.abort {A : S → Prop} {msg : String} {Q : α → S → Prop} (hA : Stable C A)
    (hQ : ∀ s, A s → C.aborts msg s) {s : S} (hs : A s) : Safe exec C (.abort msg) Q s := by
  intro n
  induction n generalizing s with
  | zero => trivial
  | succ n ih => exact ⟨hA.inv s hs, fun s' hr => ih (hA.rely s s' hs hr), hQ s hs⟩

/-- One access: `A` holds until it happens, and its effect leads to a safe continuation. -/
theorem Safe.op {A : S → Prop} {o : Op} {k : Ret o → Prog Op Ret α} {Q : α → S → Prop}
    (hA : Stable C A)
    (hstep : ∀ s r s', A s → exec o s = some (r, s') → C.guar s s' ∧ Safe exec C (k r) Q s')
    {s : S} (hs : A s) : Safe exec C (.op o k) Q s := by
  intro n
  induction n generalizing s with
  | zero => trivial
  | succ n ih =>
    refine ⟨hA.inv s hs, fun s' hr => ih (hA.rely s s' hs hr), fun r s' he => ?_⟩
    exact ⟨(hstep s r s' hs he).1, (hstep s r s' hs he).2 n⟩

/-- One access that is always possible: it is enough to look at what it does. -/
theorem Safe.step {A : S → Prop} {o : Op} {k : Ret o → Prog Op Ret α} {Q : α → S → Prop}
    (hA : Stable C A)
    (hstep : ∀ s, A s → ∃ r s', exec o s = some (r, s') ∧ C.guar s s' ∧ Safe exec C (k r) Q s')
    {s : S} (hs : A s) : Safe exec C (.op o k) Q s := by
  refine Safe.op hA (fun s r s' hs he => ?_) hs
  obtain ⟨r₁, s₁, he₁, hg, hk⟩ := hstep s hs
  rw [he₁, Option.some.injEq, Prod.mk.injEq] at he
  obtain ⟨rfl, rfl⟩ := he
  exact ⟨hg, hk⟩

/-- The invariant rule: `J` holds before every pass of the body. -/
theorem Safe.loop {J : σ → S → Prop} {body : σ → Prog Op Ret (σ ⊕ β)} {k : β → Prog Op Ret α}
    {Q : α → S → Prop} (hJ : ∀ x, Stable C (J x)) (hguar : ∀ x s, J x s → C.guar s s)
    (hbody : ∀ x s, J x s → Safe exec C (body x)
      (fun r s => match r with | .inl y => J y s | .inr b => Safe exec C (k b) Q s) s)
    {x : σ} {s : S} (hs : J x s) : Safe exec C (.loop body x k) Q s := by
  intro n
  induction n generalizing x s with
  | zero => trivial
  | succ n ih =>
    refine ⟨(hJ x).inv s hs, fun s' hr => ih ((hJ x).rely s s' hs hr), hguar x s hs, ?_⟩
    refine SafeN.bind ((hbody x s hs n).mono (Nat.le_refl n) fun r s' hr => ?_)
    cases r with
    | inl y => exact ih hr
    | inr b => exact hr n

theorem Safe.forRange {J : Nat → S → Prop} {lo hi : Nat} {body : Nat → Prog Op Ret Unit}
    (hJ : ∀ i, Stable C (J i)) (hguar : ∀ i s, J i s → C.guar s s)
    (hbody : ∀ i s, i < hi → J i s → Safe exec C (body i) (fun _ s => J (i + 1) s) s) (hle : lo ≤ hi) {s : S}
    (hs : J lo s) : Safe exec C (Prog.forRange lo hi body) (fun _ s => J hi s) s := by
  have hstable : ∀ i, Stable C fun s => i ≤ hi ∧ J i s := fun i =>
    ⟨fun s s' h hr => ⟨h.1, (hJ i).rely s s' h.2 hr⟩, fun s h => (hJ i).inv s h.2⟩
  refine Safe.loop (J := fun i s => i ≤ hi ∧ J i s) hstable (fun i s h => hguar i s h.2) ?_ ⟨hle, hs⟩
  rintro i s ⟨hi', hs⟩
  by_cases hlt : i < hi
  · rw [if_pos hlt]
    refine Safe.bind ((hbody i s hlt hs).mono fun _ s hs => ?_)
    exact Safe.ret (hstable (i + 1)) (fun _ h => h) ⟨hlt, hs⟩
  · rw [if_neg hlt]
    obtain rfl : i = hi := by omega
    refine Safe.ret (hJ i) (fun s hs => ?_) hs
    exact Safe.ret (Q := fun _ s => J i s) (hJ i) (fun _ h => h) hs

/-! ## Adequacy: one program and its environment -/

theorem SafeN.run {E : Type} {env : E → S → Option S}
    (henv : ∀ e s s', env e s = some s' → C.rely s s') {Q : α → S → Prop} (ts : List (Tick E)) :
    ∀ {n : Nat} {c c' : Conf S Op Ret α}, ts.length < n → SafeN exec C n c.prog Q c.state →
      Conf.run exec env ts c = some c' → SafeN exec C (n - ts.length) c'.prog Q c'.state := by
  induction ts with
  | nil =>
    intro n c c' _ h hrun
    cases hrun
    exact h
  | cons t ts ih =>
    intro n c c' hn h hrun
    obtain ⟨n, rfl⟩ : ∃ n', n = n' + 1 := ⟨n - 1, by omega⟩
    obtain ⟨s, p⟩ := c
    rw [Conf.run, Option.bind_eq_some_iff] at hrun
    obtain ⟨⟨s₁, p₁⟩, hstep, hrun⟩ := hrun
    rw [List.length_cons, Nat.add_sub_add_right] at *
    refine ih (by omega) ?_ hrun
    cases t with
    | env e =>
      simp only [Conf.step, Option.map_eq_some_iff, Conf.mk.injEq] at hstep
      obtain ⟨s', he, rfl, rfl⟩ := hstep
      exact h.rely (henv e s s' he)
    | prog =>
      cases p with
      | ret a => cases hstep
      | abort msg => cases hstep
      | op o k =>
        simp only [Conf.step, Option.map_eq_some_iff, Conf.mk.injEq] at hstep
        obtain ⟨⟨r, s'⟩, he, rfl, rfl⟩ := hstep
        exact (h.2.2 r s' he).2
      | loop body x k =>
        simp only [Conf.step, Option.some.injEq, Conf.mk.injEq] at hstep
        obtain ⟨rfl, rfl⟩ := hstep
        exact h.2.2.2

theorem Safe.run {E : Type} {env : E → S → Option S}
    (henv : ∀ e s s', env e s = some s' → C.rely s s') {Q : α → S → Prop} {ts : List (Tick E)}
    {c c' : Conf S Op Ret α} (h : Safe exec C c.prog Q c.state)
    (hrun : Conf.run exec env ts c = some c') : Safe exec C c'.prog Q c'.state := by
  intro n
  have := SafeN.run henv ts (n := n + 1 + ts.length) (by omega) (h _) hrun
  rw [Nat.add_sub_cancel] at this
  exact this.mono (Nat.le_succ n) fun _ _ hq => hq

theorem Safe.inv {p : Prog Op Ret α} {Q : α → S → Prop} {s : S} (h : Safe exec C p Q s) : C.inv s :=
  (h 1).inv

theorem Safe.post {a : α} {Q : α → S → Prop} {s : S} (h : Safe exec C (.ret a) Q s) : Q a s :=
  (h 1).2.2

theorem Safe.aborts {msg : String} {Q : α → S → Prop} {s : S} (h : Safe exec C (.abort msg) Q s) :
    C.aborts msg s :=
  (h 1).2.2

/-- A property of histories, which single moves keep wherever the invariant holds before and after,
holds all along a run. -/
theorem Safe.run_keeps {E : Type} {env : E → S → Option S}
    (henv : ∀ e s s', env e s = some s' → C.rely s s') {R : S → Prop}
    (hop : ∀ o s r s', C.inv s → C.inv s' → exec o s = some (r, s') → R s → R s')
    (hact : ∀ e s s', C.inv s → C.inv s' → env e s = some s' → R s → R s')
    {Q : α → S → Prop} (ts : List (Tick E)) :
    ∀ {c c' : Conf S Op Ret α}, Safe exec C c.prog Q c.state → Conf.run exec env ts c = some c' →
      R c.state → R c'.state := by
  induction ts with
  | nil =>
    intro c c' _ hrun hR
    cases hrun
    exact hR
  | cons tick ts ih =>
    intro c c' hsafe hrun hR
    rw [Conf.run, Option.bind_eq_some_iff] at hrun
    obtain ⟨c₁, hstep, hrun⟩ := hrun
    have hone : Conf.run exec env [tick] c = some c₁ := by simp [Conf.run, hstep]
    have hsafe₁ := Safe.run henv hsafe hone
    refine ih hsafe₁ hrun ?_
    obtain ⟨s, p⟩ := c
    cases tick with
    | env e =>
      obtain ⟨s₁, he, rfl⟩ := Option.map_eq_some_iff.mp hstep
      exact hact e s s₁ hsafe.inv hsafe₁.inv he hR
    | prog =>
      cases p with
      | ret a => cases hstep
      | abort msg => cases hstep
      | op o k =>
        obtain ⟨⟨r, s₁⟩, he, rfl⟩ := Option.map_eq_some_iff.mp hstep
        exact hop o s r s₁ hsafe.inv hsafe₁.inv he hR
      | loop body x k =>
        cases hstep
        exact hR

theorem Safe.eval {Q : α → S → Prop} (fuel : Nat) {p : Prog Op Ret α} {a : α} {s s' : S}
    (h : Safe exec C p Q s) (he : Prog.eval exec fuel p s = some (.done a s')) : Q a s' := by
  induction fuel generalizing p s with
  | zero => cases he
  | succ fuel ih =>
    cases p with
    | ret b =>
      simp only [Prog.eval, Option.some.injEq, Prog.Outcome.done.injEq] at he
      obtain ⟨rfl, rfl⟩ := he
      exact h.post
    | abort msg => simp [Prog.eval] at he
    | op o k =>
      simp only [Prog.eval, Option.bind_eq_some_iff] at he
      obtain ⟨⟨r, s₁⟩, hop, he⟩ := he
      exact ih (fun n => ((h (n + 1)).2.2 r s₁ hop).2) he
    | loop body x k =>
      simp only [Prog.eval] at he
      exact ih (fun n => (h (n + 1)).2.2.2) he

theorem Safe.eval_aborted {Q : α → S → Prop} (fuel : Nat) {p : Prog Op Ret α} {msg : String} {s s' : S}
    (h : Safe exec C p Q s) (he : Prog.eval exec fuel p s = some (.aborted msg s')) : C.aborts msg s' := by
  induction fuel generalizing p s with
  | zero => cases he
  | succ fuel ih =>
    cases p with
    | ret b => simp [Prog.eval] at he
    | abort msg' =>
      simp only [Prog.eval, Option.some.injEq, Prog.Outcome.aborted.injEq] at he
      obtain ⟨rfl, rfl⟩ := he
      exact h.aborts
    | op o k =>
      simp only [Prog.eval, Option.bind_eq_some_iff] at he
      obtain ⟨⟨r, s₁⟩, hop, he⟩ := he
      exact ih (fun n => ((h (n + 1)).2.2 r s₁ hop).2) he
    | loop body x k =>
      simp only [Prog.eval] at he
      exact ih (fun n => (h (n + 1)).2.2.2) he

/-! ## Undisturbed programs -/

/-- Nobody interferes, and nothing is asked of the program but where it aborts. -/
def aloneUntil (aborts : String → S → Prop) : Contract S where
  rely _ _ := False
  guar _ _ := True
  inv _ := True
  aborts := aborts

/-- Nobody interferes, and nothing is asked of the program. -/
def alone (S : Type) : Contract S where
  rely _ _ := False
  guar _ _ := True
  inv _ := True
  aborts _ _ := True

theorem stable_aloneUntil (aborts : String → S → Prop) (A : S → Prop) : Stable (aloneUntil aborts) A :=
  ⟨nofun, fun _ _ => trivial⟩

theorem stable_alone (A : S → Prop) : Stable (alone S) A := stable_aloneUntil _ A

namespace Safe
variable {aborts : String → S → Prop}

theorem until_ret {a : α} {Q : α → S → Prop} {s : S} (h : Q a s) : Safe exec (aloneUntil aborts) (.ret a) Q s := by
  refine Safe.ret (A := (· = s)) (stable_aloneUntil _ _) ?_ rfl
  rintro _ rfl
  exact h

theorem until_abort {msg : String} {Q : α → S → Prop} {s : S} (h : aborts msg s) :
    Safe exec (aloneUntil aborts) (.abort msg) Q s := by
  refine Safe.abort (A := (· = s)) (stable_aloneUntil _ _) ?_ rfl
  rintro _ rfl
  exact h

theorem until_op {o : Op} {k : Ret o → Prog Op Ret α} {Q : α → S → Prop} {s : S}
    (h : ∀ r s', exec o s = some (r, s') → Safe exec (aloneUntil aborts) (k r) Q s') :
    Safe exec (aloneUntil aborts) (.op o k) Q s := by
  refine Safe.op (A := (· = s)) (stable_aloneUntil _ _) ?_ rfl
  rintro _ r s' rfl he
  exact ⟨trivial, h r s' he⟩

theorem until_exec {o : Op} {k : Ret o → Prog Op Ret α} {Q : α → S → Prop} {s u : S} {r : Ret o}
    (he : exec o s = some (r, u)) (h : Safe exec (aloneUntil aborts) (k r) Q u) :
    Safe exec (aloneUntil aborts) (.op o k) Q s := by
  refine until_op fun r' s' he' => ?_
  rw [he] at he'
  cases he'
  exact h

theorem alone_ret {a : α} {Q : α → S → Prop} {s : S} (h : Q a s) : Safe exec (alone S) (.ret a) Q s := until_ret h

theorem alone_abort {msg : String} {Q : α → S → Prop} {s : S} : Safe exec (alone S) (.abort msg) Q s :=
  until_abort trivial

theorem alone_op {o : Op} {k : Ret o → Prog Op Ret α} {Q : α → S → Prop} {s : S}
    (h : ∀ r s', exec o s = some (r, s') → Safe exec (alone S) (k r) Q s') : Safe exec (alone S) (.op o k) Q s :=
  until_op h

theorem alone_exec {o : Op} {k : Ret o → Prog Op Ret α} {Q : α → S → Prop} {s u : S} {r : Ret o}
    (he : exec o s = some (r, u)) (h : Safe exec (alone S) (k r) Q u) : Safe exec (alone S) (.op o k) Q s :=
  until_exec he h

end Safe

end

end Ixy.Lib
