import Ixy.Allocator.Spinlock

/-!
# Progress of the spinlock stack allocator

`Ixy.Allocator.Spinlock` is about what the calls do if they return. Here: nobody waits in vain. `SpinAt` follows the
rest of a thread's program through the stages of a call. Between lock and unlock there are at most five accesses, all of
which can be made at any time, so the lock is free again when its holder has made them, and then whoever waits can have
it (`spinlock_progress`).
-/

namespace Ixy

open Lib

/-! ## Stages of a call -/

/-- One pass of the loop of `rte_spinlock_lock`. -/
def lockPass (t : Nat) (c : SlabCall) (moved : Option Nat) : Bool → SpinCode (Bool ⊕ Unit) :=
  Prog.lockPass (Prog.access (SpinOp.tas t c moved)) (Prog.access SpinOp.lockLd)

theorem lockPass_false (t : Nat) (c : SlabCall) (moved : Option Nat) :
    lockPass t c moved false =
      .op (.tas t c moved) fun old => if old ≠ 0 then .ret (.inl true) else .ret (.inr ()) := rfl

/-- The thread asks for its next call. -/
def spinRequest (a : StackAllocator) (t : Nat) : SpinCode Unit :=
  (spinServe a t ()).bind (Prog.resume (spinServe a t) .ret)

/-- The thread is not in a call. -/
def SpinIdle (a : StackAllocator) (t : Nat) (prog : SpinCode Unit) : Prop :=
  prog = spinThread a t ∨ prog = spinRequest a t ∨ prog = .ret ()

/-- Accesses to what the lock protects. -/
def SpinOp.Protected : SpinOp → Prop
  | .topLd | .topSt _ | .slotLd _ | .slotSt _ _ => True
  | _ => False

inductive SpinStage where
  | between
  | waiting
  /-- Between lock and unlock, with at most `left` accesses before the unlock. -/
  | inside (left : Nat)
  | leaving

/-- What is left to do for a thread in each stage. -/
inductive SpinAt (a : StackAllocator) (t : Nat) : SpinStage → SpinCode Unit → Prop where
  | idle {prog : SpinCode Unit} (h : SpinIdle a t prog) : SpinAt a t .between prog
  | aborted (msg : String) : SpinAt a t .between (.abort msg)
  | pass {c : SlabCall} {moved : Option Nat} {k : Unit → SpinCode Unit} (spinning : Bool)
      (h : SpinAt a t (.inside 4) (k ())) : SpinAt a t .waiting (.loop (lockPass t c moved) spinning k)
  | test {c : SlabCall} {moved : Option Nat} {k : Unit → SpinCode Unit} (spinning : Bool)
      (h : SpinAt a t (.inside 4) (k ())) :
      SpinAt a t .waiting ((lockPass t c moved spinning).bind (Prog.resume (lockPass t c moved) k))
  | access {left : Nat} {o : SpinOp} {k : SpinRet o → SpinCode Unit} (ho : o.Protected)
      (h : ∀ r, SpinAt a t (.inside left) (k r)) : SpinAt a t (.inside (left + 1)) (.op o k)
  | unlock {left : Nat} {r : SlabResult} {k : Unit → SpinCode Unit} (h : SpinAt a t .leaving (k ())) :
      SpinAt a t (.inside left) (.op (.unlock t r) k)
  | ret {r : SlabResult} {k : Unit → SpinCode Unit} (h : k () = spinThread a t) :
      SpinAt a t .leaving (.op (.ret t r) k)

section
variable {a : StackAllocator} {t u : Nat} {s s' : Spin} {prog prog' : SpinCode Unit}

theorem spinAt_allocate (a : StackAllocator) (t size : Nat) :
    SpinAt a t .waiting ((do
      let blk ← spinlockAllocate a t size
      Prog.access (SpinOp.ret t (.block blk))
      return (.inl () : Unit ⊕ Unit)).bind (Prog.resume (spinServe a t) .ret)) := by
  refine SpinAt.pass false (.access trivial fun top => ?_)
  dsimp only [Prog.ret_bind]
  split
  · exact .unlock (.ret rfl)
  · refine .access trivial fun top => ?_
    refine .access trivial fun _ => ?_
    refine .access trivial fun entryId => ?_
    exact .unlock (.ret rfl)

theorem spinAt_deallocate (a : StackAllocator) (t : Nat) (blk : MemBlk) :
    ∃ st, SpinAt a t st ((do
      spinlockDeallocate a t blk
      Prog.access (SpinOp.ret t .freed)
      return (.inl () : Unit ⊕ Unit)).bind (Prog.resume (spinServe a t) .ret)) ∧ ∀ n, st ≠ .inside n := by
  unfold spinlockDeallocate
  split
  · exact ⟨.between, .aborted _, nofun⟩
  · refine ⟨.waiting, SpinAt.pass false (.access trivial fun top => ?_), nofun⟩
    refine .access trivial fun _ => ?_
    refine .access trivial fun _ => ?_
    exact .unlock (.ret rfl)

/-! ## One step -/

/-- What a step of thread `t` can do to its stage and to the lock. -/
inductive SpinMove (t : Nat) : SpinStage → SpinCore → SpinStage → SpinCore → Prop where
  | outside {st st' : SpinStage} {k : SpinCore} (h : ∀ n, st ≠ .inside n) (h' : ∀ n, st' ≠ .inside n) :
      SpinMove t st k st' k
  | enter {k k' : SpinCore} (hfree : k.lock = 0) (hcritical : k'.critical = t :: k.critical) :
      SpinMove t .waiting k (.inside 4) k'
  | work {left : Nat} {k k' : SpinCore} (hcritical : k'.critical = k.critical) :
      SpinMove t (.inside (left + 1)) k (.inside left) k'
  | leave {left : Nat} {k k' : SpinCore} (hfree : k'.lock = 0) (hcritical : k'.critical = k.critical.erase t) :
      SpinMove t (.inside left) k .leaving k'

theorem execSpin_protected {o : SpinOp} (ho : o.Protected) (s : Spin) :
    ∃ r s', execSpin o s = some (r, s') ∧ s'.core.critical = s.core.critical := by
  cases o with
  | topLd => exact ⟨_, _, rfl, rfl⟩
  | topSt v => exact ⟨_, _, rfl, rfl⟩
  | slotLd i => exact ⟨_, _, rfl, rfl⟩
  | slotSt i v => exact ⟨_, _, rfl, rfl⟩
  | next | tas | lockLd | unlock | ret => exact ho.elim

theorem execSpin_next {r : Option SlabCall} (he : execSpin (.next t) s = some (r, s')) : s'.core = s.core := by
  simp only [execSpin] at he
  split at he
  · cases he
    rfl
  · cases he
    rfl
  · split at he
    · cases he
    · cases he
      rfl

theorem SpinAt.step {st : SpinStage} {c : Conf Spin SpinOp SpinRet Unit} (h : SpinAt a t st prog)
    (hstep : Conf.step execSpin (fun (e : Empty) _ => nomatch e) .prog ⟨s, prog⟩ = some c) :
    ∃ st', SpinAt a t st' c.prog ∧ SpinMove t st s.core st' c.state.core := by
  cases h with
  | idle h =>
    rcases h with rfl | rfl | rfl
    · cases hstep
      exact ⟨.between, .idle (Or.inr (Or.inl rfl)), .outside nofun nofun⟩
    · obtain ⟨⟨r, s'⟩, he, rfl⟩ := Option.map_eq_some_iff.mp hstep
      have hcore : s'.core = s.core := execSpin_next he
      dsimp only
      rw [hcore]
      cases r with
      | none => exact ⟨.between, .idle (Or.inr (Or.inr rfl)), .outside nofun nofun⟩
      | some c =>
        cases c with
        | allocate size => exact ⟨.waiting, spinAt_allocate a t size, .outside nofun nofun⟩
        | deallocate blk =>
          obtain ⟨st, hst, hne⟩ := spinAt_deallocate a t blk
          exact ⟨st, hst, .outside nofun hne⟩
    · cases hstep
  | aborted msg => cases hstep
  | pass spinning h =>
    cases hstep
    exact ⟨.waiting, .test spinning h, .outside nofun nofun⟩
  | test spinning h =>
    cases spinning with
    | true =>
      cases hstep
      exact ⟨.waiting, .pass _ h, .outside nofun nofun⟩
    | false =>
      rw [lockPass_false, Prog.op_bind] at hstep
      cases hstep
      by_cases hfree : s.core.lock = 0
      · simp only [hfree, if_true, Prog.ret_bind, ne_eq, not_true_eq_false, if_false, Prog.resume]
        exact ⟨_, h, .enter hfree rfl⟩
      · simp only [hfree, if_false, Prog.ret_bind, ne_eq, not_false_eq_true, if_true, Prog.resume]
        exact ⟨.waiting, .pass true h, .outside nofun nofun⟩
  | access ho h =>
    obtain ⟨⟨r, s'⟩, he, rfl⟩ := Option.map_eq_some_iff.mp hstep
    obtain ⟨r₁, s₁, he₁, hcritical⟩ := execSpin_protected ho s
    rw [he₁] at he
    cases he
    exact ⟨_, h _, .work hcritical⟩
  | unlock h =>
    cases hstep
    exact ⟨_, h, .leave rfl rfl⟩
  | ret h =>
    cases hstep
    refine ⟨.between, .idle (Or.inl h), .outside nofun nofun⟩

/-! ## All threads -/

/-- A thread is between lock and unlock exactly in the stage of that name. -/
def SpinStage.Fits (t : Nat) (critical : List Nat) : SpinStage → Prop
  | .inside left => left ≤ 4 ∧ t ∈ critical
  | _ => t ∉ critical

theorem SpinStage.fits_of_ne {st : SpinStage} {critical : List Nat} (hne : ∀ n, st ≠ .inside n) :
    st.Fits t critical ↔ t ∉ critical := by
  cases st with
  | inside n => exact absurd rfl (hne n)
  | between | waiting | leaving => exact Iff.rfl

theorem SpinMove.fits {st st' : SpinStage} {k k' : SpinCore} (h : SpinMove t st k st' k') (hnodup : k.critical.Nodup)
    (hfits : st.Fits t k.critical) : st'.Fits t k'.critical := by
  cases h with
  | outside hne hne' =>
    rw [SpinStage.fits_of_ne hne] at hfits
    exact (SpinStage.fits_of_ne hne').mpr hfits
  | enter hfree hcritical =>
    rw [hcritical]
    exact ⟨Nat.le_refl 4, List.mem_cons_self⟩
  | work hcritical =>
    rw [hcritical]
    exact ⟨Nat.le_of_succ_le hfits.1, hfits.2⟩
  | leave hfree hcritical =>
    rw [hcritical]
    exact fun hmem => ((List.Nodup.mem_erase_iff hnodup).mp hmem).1 rfl

theorem SpinMove.others {st st' st₁ : SpinStage} {k k' : SpinCore} (h : SpinMove t st k st' k') (hu : u ≠ t)
    (hfits : st₁.Fits u k.critical) : st₁.Fits u k'.critical := by
  have hmem : u ∈ k'.critical ↔ u ∈ k.critical := by
    cases h with
    | outside hne hne' => exact Iff.rfl
    | enter hfree hcritical =>
      rw [hcritical, List.mem_cons]
      exact ⟨fun h => h.resolve_left hu, Or.inr⟩
    | work hcritical => rw [hcritical]
    | leave hfree hcritical =>
      rw [hcritical]
      exact List.mem_erase_of_ne hu
  cases st₁ with
  | inside n => exact ⟨hfits.1, hmem.mpr hfits.2⟩
  | between | waiting | leaving => exact fun h => hfits (hmem.mp h)

/-- All threads are safe, and in some stage. -/
structure SpinLive (a : StackAllocator) (p : Pool Spin SpinOp SpinRet Unit) : Prop where
  safe : ∀ t, Safe execSpin (spinContract a t) (p.progs t) (fun _ => SpinOutside a t) p.state
  stage : ∀ t, ∃ st, SpinAt a t st (p.progs t) ∧ st.Fits t p.state.core.critical

variable {p p' : Pool Spin SpinOp SpinRet Unit}

theorem SpinLive.inv (h : SpinLive a p) : SpinInv a p.state := (h.safe 0).inv

theorem SpinInv.nodup (h : SpinInv a s) : s.core.critical.Nodup := by
  rcases h.mutex with ⟨-, hcrit⟩ | ⟨-, t, hcrit⟩
  · rw [hcrit]
    exact List.nodup_nil
  · rw [hcrit]
    exact List.nodup_singleton t

theorem SpinLive.step (h : SpinLive a p) (hstep : Pool.step execSpin t p = some p') : SpinLive a p' := by
  refine ⟨Pool.step_safe h.safe hstep, fun u => ?_⟩
  obtain ⟨c, hc, rfl⟩ := Option.map_eq_some_iff.mp hstep
  obtain ⟨st, hst, hfits⟩ := h.stage t
  obtain ⟨st', hst', hmove⟩ := hst.step hc
  dsimp only
  by_cases hut : u = t
  · subst hut
    rw [Function.update_self]
    exact ⟨st', hst', hmove.fits h.inv.nodup hfits⟩
  · rw [Function.update_of_ne hut]
    obtain ⟨st₁, hst₁, hfits₁⟩ := h.stage u
    exact ⟨st₁, hst₁, hmove.others hut hfits₁⟩

theorem SpinLive.run (h : SpinLive a p) (ts : List Nat) (hrun : Pool.run execSpin ts p = some p') : SpinLive a p' := by
  induction ts generalizing p with
  | nil =>
    cases hrun
    exact h
  | cons t ts ih =>
    obtain ⟨p₁, hstep, hrun⟩ := Option.bind_eq_some_iff.mp hrun
    exact ih (h.step hstep) hrun

/-! ## Giving the lock back -/

theorem SpinAt.release {left : Nat} (h : SpinAt a u (.inside left) (p.progs u)) :
    ∃ p', Pool.Within execSpin (left + 1) p p' ∧ p'.state.core.lock = 0 ∧ SpinAt a u .leaving (p'.progs u) ∧
      ∀ t ≠ u, p'.progs t = p.progs t := by
  induction left generalizing p with
  | zero =>
    generalize hprog : p.progs u = prog at h
    cases h with
    | unlock h =>
      refine ⟨_, Pool.Within.op hprog rfl, rfl, ?_, fun t ht => Function.update_of_ne ht _ _⟩
      dsimp only
      rw [Function.update_self]
      exact h
  | succ left ih =>
    generalize hprog : p.progs u = prog at h
    cases h with
    | unlock h =>
      refine ⟨_, (Pool.Within.op hprog rfl).mono (by omega), rfl, ?_, fun t ht => Function.update_of_ne ht _ _⟩
      dsimp only
      rw [Function.update_self]
      exact h
    | access ho h =>
      obtain ⟨r, s', he, -⟩ := execSpin_protected ho p.state
      have hstep := Pool.Within.op hprog he
      obtain ⟨p', hwithin, hlock, hleaving, hothers⟩ := ih (p := ⟨s', Function.update p.progs u _⟩) (by
        dsimp only
        rw [Function.update_self]
        exact h r)
      refine ⟨p', (hstep.trans hwithin).mono (by omega), hlock, hleaving, fun t ht => ?_⟩
      rw [hothers t ht]
      exact Function.update_of_ne ht _ _

/-- The holder unlocks with its next accesses, whatever the others do in between. -/
theorem SpinLive.released {left : Nat} (ts : List Nat) (hlive : SpinLive a p)
    (h : SpinAt a u (.inside left) (p.progs u)) (hrun : Pool.run execSpin ts p = some p')
    (hcount : left + 1 ≤ ts.count u) :
    ∃ ts' p₁, ts' <+: ts ∧ Pool.run execSpin ts' p = some p₁ ∧ p₁.state.core.lock = 0 := by
  induction ts generalizing p left with
  | nil => exact absurd hcount (by simp)
  | cons t ts ih =>
    obtain ⟨p₁, hstep, hrun⟩ := Option.bind_eq_some_iff.mp hrun
    have hextend : (∃ ts' p₂, ts' <+: ts ∧ Pool.run execSpin ts' p₁ = some p₂ ∧ p₂.state.core.lock = 0) →
        ∃ ts' p₂, ts' <+: t :: ts ∧ Pool.run execSpin ts' p = some p₂ ∧ p₂.state.core.lock = 0 := by
      rintro ⟨ts', p₂, hpre, hrun', hlock⟩
      exact ⟨t :: ts', p₂, List.prefix_cons_inj t |>.mpr hpre, by rw [Pool.run, hstep]; exact hrun', hlock⟩
    obtain ⟨c, hc, rfl⟩ := Option.map_eq_some_iff.mp (id hstep)
    by_cases htu : t = u
    · subst htu
      rw [List.count_cons_self] at hcount
      obtain ⟨st', hst', hmove⟩ := h.step hc
      generalize p.state.core = k at hmove
      generalize hk' : c.state.core = k' at hmove
      cases hmove with
      | outside hne hne' => exact absurd rfl (hne left)
      | work hcritical =>
        have hself : (Function.update p.progs t c.prog) t = c.prog := Function.update_self _ _ _
        rw [← hself] at hst'
        exact hextend (ih (hlive.step hstep) hst' hrun (by omega))
      | leave hfree hcritical =>
        rw [← hk'] at hfree
        exact ⟨[t], _, ⟨ts, rfl⟩, by rw [Pool.run, hstep]; rfl, hfree⟩
    · rw [List.count_cons_of_ne htu] at hcount
      refine hextend (ih (hlive.step hstep) ?_ hrun hcount)
      dsimp only
      rw [Function.update_of_ne (Ne.symm htu)]
      exact h

/-! ## Getting the lock -/

/-- A thread whose program is `prog` at a free lock can have it with at most `n` moves. -/
def CanEnter (a : StackAllocator) (t n : Nat) (prog : SpinCode Unit) : Prop :=
  ∀ p : Pool Spin SpinOp SpinRet Unit, p.progs t = prog → p.state.core.lock = 0 →
    ∃ p', Pool.Within execSpin n p p' ∧ SpinAt a t (.inside 4) (p'.progs t)

section
variable {c : SlabCall} {moved : Option Nat} {k : Unit → SpinCode Unit}

theorem canEnter_test (h : SpinAt a t (.inside 4) (k ())) :
    CanEnter a t 1 ((lockPass t c moved false).bind (Prog.resume (lockPass t c moved) k)) := by
  intro p hprog hfree
  refine ⟨_, Pool.Within.op hprog rfl, ?_⟩
  dsimp only
  rw [Function.update_self, hfree]
  exact h

theorem canEnter_pass {spinning : Bool} {n : Nat}
    (h : CanEnter a t n ((lockPass t c moved spinning).bind (Prog.resume (lockPass t c moved) k))) :
    CanEnter a t (1 + n) (.loop (lockPass t c moved) spinning k) := by
  intro p hprog hfree
  obtain ⟨p', hwithin, hinside⟩ := h ⟨p.state, Function.update p.progs t _⟩ (Function.update_self _ _ _) hfree
  exact ⟨p', (Pool.Within.pass hprog).trans hwithin, hinside⟩

theorem canEnter_spin (h : SpinAt a t (.inside 4) (k ())) :
    CanEnter a t 3 ((lockPass t c moved true).bind (Prog.resume (lockPass t c moved) k)) := by
  intro p hprog hfree
  have hstep := Pool.Within.op hprog (show execSpin .lockLd p.state = some (p.state.core.lock, p.state) from rfl)
  obtain ⟨p', hwithin, hinside⟩ := canEnter_pass (canEnter_test h)
    ⟨p.state, Function.update p.progs t (.loop (lockPass t c moved) false k)⟩ (Function.update_self _ _ _) hfree
  rw [hfree] at hstep
  exact ⟨p', hstep.trans hwithin, hinside⟩

end

theorem SpinAt.acquire (h : SpinAt a t .waiting (p.progs t)) (hfree : p.state.core.lock = 0) :
    ∃ p', Pool.Within execSpin 4 p p' ∧ SpinAt a t (.inside 4) (p'.progs t) := by
  generalize hprog : p.progs t = prog at h
  cases h with
  | pass spinning h =>
    cases spinning with
    | true => exact canEnter_pass (canEnter_spin h) p hprog hfree
    | false =>
      obtain ⟨p', hwithin, hinside⟩ := canEnter_pass (canEnter_test h) p hprog hfree
      exact ⟨p', hwithin.mono (by decide), hinside⟩
  | test spinning h =>
    cases spinning with
    | true =>
      obtain ⟨p', hwithin, hinside⟩ := canEnter_spin h p hprog hfree
      exact ⟨p', hwithin.mono (by decide), hinside⟩
    | false =>
      obtain ⟨p', hwithin, hinside⟩ := canEnter_test h p hprog hfree
      exact ⟨p', hwithin.mono (by decide), hinside⟩

theorem SpinAt.finish (h : SpinAt a t .leaving (p.progs t)) :
    ∃ p', Pool.Within execSpin 1 p p' ∧ SpinIdle a t (p'.progs t) := by
  generalize hprog : p.progs t = prog at h
  cases h with
  | ret h =>
    refine ⟨_, Pool.Within.op hprog rfl, Or.inl ?_⟩
    dsimp only
    rw [Function.update_self]
    exact h

theorem SpinAt.complete {left : Nat} (h : SpinAt a t (.inside left) (p.progs t)) (hleft : left ≤ 4) :
    ∃ p', Pool.Within execSpin 6 p p' ∧ SpinIdle a t (p'.progs t) := by
  obtain ⟨p₁, hwithin₁, -, hleaving, -⟩ := h.release
  obtain ⟨p₂, hwithin₂, hidle⟩ := hleaving.finish
  exact ⟨p₂, (hwithin₁.trans hwithin₂).mono (by omega), hidle⟩

/-- Any call can be completed: the holder of the lock gives it back, and the thread takes it. -/
theorem SpinLive.completes (h : SpinLive a p) (t : Nat) :
    ∃ p', Pool.Within execSpin 15 p p' ∧ SpinIdle a t (p'.progs t) := by
  obtain ⟨st, hst, hfits⟩ := h.stage t
  cases st with
  | between =>
    generalize hprog : p.progs t = prog at hst
    cases hst with
    | idle hidle => exact ⟨p, .refl 15 p, hprog ▸ hidle⟩
    | aborted msg =>
      have hsafe := h.safe t
      rw [hprog] at hsafe
      exact hsafe.aborts.elim
  | waiting =>
    have henter : ∀ p₁ : Pool Spin SpinOp SpinRet Unit, p₁.progs t = p.progs t → p₁.state.core.lock = 0 →
        ∃ p', Pool.Within execSpin 10 p₁ p' ∧ SpinIdle a t (p'.progs t) := by
      intro p₁ hprog hfree
      rw [← hprog] at hst
      obtain ⟨p₂, hwithin₂, hinside⟩ := hst.acquire hfree
      obtain ⟨p₃, hwithin₃, hidle⟩ := hinside.complete (Nat.le_refl 4)
      exact ⟨p₃, hwithin₂.trans hwithin₃, hidle⟩
    rcases h.inv.mutex with ⟨hfree, -⟩ | ⟨-, u, hcrit⟩
    · obtain ⟨p', hwithin, hidle⟩ := henter p rfl hfree
      exact ⟨p', hwithin.mono (by decide), hidle⟩
    · have hut : t ≠ u := by
        rintro rfl
        exact hfits (hcrit ▸ List.mem_singleton_self t)
      obtain ⟨st', hst', hfits'⟩ := h.stage u
      cases st' with
      | inside left =>
        obtain ⟨p₁, hwithin₁, hfree, -, hothers⟩ := hst'.release
        obtain ⟨p', hwithin, hidle⟩ := henter p₁ (hothers t hut) hfree
        exact ⟨p', (hwithin₁.trans hwithin).mono (by have := hfits'.1; omega), hidle⟩
      | between | waiting | leaving => exact absurd (hcrit ▸ List.mem_singleton_self u) hfits'
  | inside left =>
    obtain ⟨p', hwithin, hidle⟩ := hst.complete hfits.1
    exact ⟨p', hwithin.mono (by decide), hidle⟩
  | leaving =>
    obtain ⟨p', hwithin, hidle⟩ := hst.finish
    exact ⟨p', hwithin.mono (by decide), hidle⟩

/-- What a thread can hope for. -/
structure SpinProgress (a : StackAllocator) (p : Pool Spin SpinOp SpinRet Unit) : Prop where
  /-- The holder gives the lock back with its next five accesses, whatever the others do in between. -/
  released : ∀ u ∈ p.state.core.critical, ∀ ts p', Pool.run execSpin ts p = some p' → 5 ≤ ts.count u →
    ∃ ts' p₁, ts' <+: ts ∧ Pool.run execSpin ts' p = some p₁ ∧ p₁.state.core.lock = 0
  /-- No thread is stuck: some schedule completes its call. -/
  completes : ∀ t, ∃ ts p', ts.length ≤ 15 ∧ Pool.run execSpin ts p = some p' ∧ SpinIdle a t (p'.progs t)

/-- **Main result.** In all interleavings of any number of threads, the lock is held for at most five accesses of its
holder, and no call is ever stuck. -/
theorem spinlock_progress {numEntries entrySize : Nat} {mem : MemBlk} (script : Nat → List SlabCall) (ts : List Nat)
    (hbytes : numEntries * stackEntrySize entrySize < 2 ^ 32)
    (hnew : stackAllocatorNew numEntries entrySize mem = some a)
    (hrun : Pool.run execSpin ts ⟨spinBoot a script, spinThread a⟩ = some p) : SpinProgress a p := by
  have hsized := stackAllocatorNew_sized hbytes hnew
  have hboot : SpinLive a ⟨spinBoot a script, spinThread a⟩ :=
    ⟨fun t => spinThread_safe hsized (spinBoot_outside (stackAllocatorNew_free hnew) script),
      fun t => ⟨.between, .idle (Or.inl rfl), List.not_mem_nil⟩⟩
  have hlive := hboot.run ts hrun
  refine ⟨fun u hu ts' p' hrun' hcount => ?_, fun t => ?_⟩
  · obtain ⟨st, hst, hfits⟩ := hlive.stage u
    cases st with
    | inside left => exact hlive.released ts' hst hrun' (by have := hfits.1; omega)
    | between | waiting | leaving => exact absurd hu hfits
  · obtain ⟨p', ⟨ts', hlen, hrun'⟩, hidle⟩ := hlive.completes t
    exact ⟨ts', p', hlen, hrun', hidle⟩

/-- The second thread waits, and the first one is between lock and unlock. -/
theorem spinlock_progress_pair :
    ∃ a p, stackAllocatorNew 2 64 ⟨0x1000, 128⟩ = some a ∧
      Pool.run execSpin (List.replicate 4 0 ++ List.replicate 6 1) ⟨spinBoot a pairScript, spinThread a⟩ = some p ∧
      p.state.core.critical = [0] ∧ SpinProgress a p := by
  have hbytes : 2 * stackEntrySize 64 < 2 ^ 32 := by decide
  exact ⟨_, _, rfl, rfl, rfl, spinlock_progress pairScript (List.replicate 4 0 ++ List.replicate 6 1) hbytes
    (Eq.refl (stackAllocatorNew 2 64 ⟨0x1000, 128⟩)) rfl⟩

end

end Ixy
