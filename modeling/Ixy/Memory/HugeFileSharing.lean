import Ixy.Lib.Run
import Ixy.Lib.Threads
import Ixy.Memory.HugeFiles

/-!
# No two calls share a file

Nothing but the name of a file keeps the calls of `memory_allocate_dma` apart: `open` is used without `O_EXCL`. The
name is made of the process id and of a counter that wraps after `2 ^ 32` calls. `hugeFiles_exclusive`: up to there no
two calls, in any threads of any processes, have the same file open or mapped, whatever the order of their system calls.
-/

namespace Ixy

open Lib

def FileEvent.Opens (path : String) : FileEvent → Prop
  | .opened _ p _ _ => p = path
  | _ => False

/-- Thread `t` is one of process `proc t`, which has the id `pid (proc t)`. -/
structure Machine where
  proc : Nat → Nat
  pid : Nat → Nat
  pid_inj : ∀ t u, pid (proc t) = pid (proc u) → proc t = proc u

namespace Machine

/-- The name of the file of a call that fetched `n`. -/
def path (M : Machine) (c : CallId) (n : Nat) : String := hugePath (M.pid (M.proc c.1)) (n % 2 ^ 32)

/-- A call has opened the file of this name. -/
def Taken (M : Machine) (s : Files) (path : String) : Prop :=
  ∃ c n, s.ticket c = some n ∧ M.path c n = path ∧ s.opened c ≠ none

/-- No counter has wrapped. -/
def Unwrapped (s : Files) : Prop := ∀ q, s.fetched q .memory ≤ 2 ^ 32

/-- The invariant. -/
structure Exclusive (M : Machine) (s : Files) : Prop where
  begun : ∀ c n, s.ticket c = some n → c.2 ≤ s.begun c.1
  ticket_lt : ∀ c n, s.ticket c = some n → n < s.fetched (M.proc c.1) .memory
  ticket_inj : ∀ c c' n, s.ticket c = some n → s.ticket c' = some n → M.proc c.1 = M.proc c'.1 → c = c'
  opened_ticket : ∀ c, s.opened c ≠ none → ∃ n, s.ticket c = some n
  opened_lt : ∀ c file, s.opened c = some file → file < s.next
  opened_inj : ∀ c c' file, s.opened c = some file → s.opened c' = some file → c = c'
  held : ∀ c file, s.fd c = some file ∨ s.mapping c = some file → s.opened c = some file
  linked : ∀ t i, i < 2 ^ 32 → s.fs (hugePath (M.pid (M.proc t)) i) ≠ none → M.Taken s (hugePath (M.pid (M.proc t)) i)
  unlinked : ∀ c path, .unlinked c path ∈ s.log → M.Taken s path
  order : ∀ path, Before s.log (FileEvent.Opens path) fun before => ∀ c, .unlinked c path ∉ before

variable {M : Machine} {s : Files} {t : Nat}

theorem Exclusive.path_inj (h : M.Exclusive s) (hs : Unwrapped s) {c c' : CallId} {n n' : Nat}
    (hc : s.ticket c = some n) (hc' : s.ticket c' = some n') (heq : M.path c n = M.path c' n') : c = c' := by
  obtain ⟨hpid, hmod⟩ := hugePath_inj (Nat.mod_lt _ (by decide)) (Nat.mod_lt _ (by decide)) heq
  have hproc := M.pid_inj _ _ hpid
  have hn := lt_of_lt_of_le (h.ticket_lt c n hc) (hs _)
  have hn' := lt_of_lt_of_le (h.ticket_lt c' n' hc') (hs _)
  rw [Nat.mod_eq_of_lt hn, Nat.mod_eq_of_lt hn'] at hmod
  subst hmod
  exact h.ticket_inj c c' n hc hc' hproc

theorem Exclusive.not_taken (h : M.Exclusive s) (hs : Unwrapped s) {c : CallId} {n : Nat} (hc : s.ticket c = some n)
    (hopened : s.opened c = none) : ¬ M.Taken s (M.path c n) := by
  rintro ⟨c', n', hc', heq, hopened'⟩
  rw [h.path_inj hs hc' hc heq] at hopened'
  exact hopened' hopened

/-! ## Steps -/

theorem Taken.mono {s' : Files} {path : String} (h : M.Taken s path)
    (hticket : ∀ c n, s.ticket c = some n → s'.ticket c = some n)
    (hopened : ∀ c, s.opened c ≠ none → s'.opened c ≠ none) : M.Taken s' path := by
  obtain ⟨c, n, hc, hpath, hop⟩ := h
  exact ⟨c, n, hticket c n hc, hpath, hopened c hop⟩

theorem Exclusive.ticket_new (h : M.Exclusive s) (t : Nat) : s.ticket (t, s.begun t + 1) = none := by
  cases hticket : s.ticket (t, s.begun t + 1) with
  | none => rfl
  | some n => exact absurd (h.begun _ n hticket) (Nat.not_succ_le_self _)

theorem Exclusive.opened_new (h : M.Exclusive s) (t : Nat) : s.opened (t, s.begun t + 1) = none := by
  by_contra hopened
  obtain ⟨n, hticket⟩ := h.opened_ticket _ hopened
  rw [h.ticket_new t] at hticket
  cases hticket

theorem Exclusive.fetch (h : M.Exclusive s) : M.Exclusive (s.fetch M.proc t .memory) := by
  have hnew := h.ticket_new t
  have hmono : ∀ c n, s.ticket c = some n → (s.fetch M.proc t .memory).ticket c = some n := by
    intro c n hc
    have hne : c ≠ (t, s.begun t + 1) := fun heq => by
      rw [heq, hnew] at hc
      cases hc
    exact (Function.update_of_ne hne _ _).trans hc
  have hcases : ∀ c n, (s.fetch M.proc t .memory).ticket c = some n →
      c = (t, s.begun t + 1) ∧ n = s.fetched (M.proc t) .memory ∨ s.ticket c = some n :=
    fun c n hc => (update_some_eq_some hc).imp_right And.right
  have hbegun : (s.fetch M.proc t .memory).begun t = s.begun t + 1 := Function.update_self _ _ _
  have hbegun_le : ∀ u, s.begun u ≤ (s.fetch M.proc t .memory).begun u := by
    intro u
    by_cases hu : u = t
    · rw [hu, hbegun]
      exact Nat.le_succ _
    · exact (Function.update_of_ne hu _ _).ge
  have hfetched : (s.fetch M.proc t .memory).fetched (M.proc t) .memory = s.fetched (M.proc t) .memory + 1 := by
    simp only [Files.fetch, Function.update_self]
  have hfetched_le : ∀ q, s.fetched q .memory ≤ (s.fetch M.proc t .memory).fetched q .memory := by
    intro q
    by_cases hq : q = M.proc t
    · rw [hq, hfetched]
      exact Nat.le_succ _
    · simp only [Files.fetch, Function.update_of_ne hq, Nat.le_refl]
  refine ⟨?_, ?_, ?_, ?_, h.opened_lt, h.opened_inj, h.held, ?_, ?_, h.order⟩
  · intro c n hc
    rcases hcases c n hc with ⟨rfl, -⟩ | hc
    · exact hbegun.ge
    · exact (h.begun c n hc).trans (hbegun_le _)
  · intro c n hc
    rcases hcases c n hc with ⟨rfl, rfl⟩ | hc
    · exact hfetched.ge
    · exact lt_of_lt_of_le (h.ticket_lt c n hc) (hfetched_le _)
  · intro c c' n hc hc' hproc
    rcases hcases c n hc with ⟨rfl, rfl⟩ | hc <;> rcases hcases c' _ hc' with ⟨rfl, hn⟩ | hc'
    · rfl
    · have hlt := h.ticket_lt c' _ hc'
      rw [← hproc] at hlt
      exact absurd hlt (Nat.lt_irrefl _)
    · have hlt := h.ticket_lt c _ hc
      rw [hproc, hn] at hlt
      exact absurd hlt (Nat.lt_irrefl _)
    · exact h.ticket_inj c c' n hc hc' hproc
  · intro c hopened
    obtain ⟨n, hc⟩ := h.opened_ticket c hopened
    exact ⟨n, hmono c n hc⟩
  · exact fun u i hi hlinked => (h.linked u i hi hlinked).mono hmono fun _ hop => hop
  · exact fun c path hmem => (h.unlinked c path hmem).mono hmono fun _ hop => hop

theorem Exclusive.openPath (h : M.Exclusive s) (hs : Unwrapped s) {n : Nat} (hc : s.ticket (s.call t) = some n)
    (hopened : s.opened (s.call t) = none) : M.Exclusive (s.openPath t (M.path (s.call t) n)) := by
  have hfree := h.not_taken hs hc hopened
  have hfile : s.fs (M.path (s.call t) n) = none := by
    by_contra hlinked
    exact hfree (h.linked _ _ (Nat.mod_lt _ (by decide)) hlinked)
  have hmono : ∀ c, s.opened c ≠ none → Function.update s.opened (s.call t) (some s.next) c ≠ none := by
    intro c hop
    by_cases hcall : c = s.call t
    · exact absurd (hcall ▸ hopened) hop
    · rwa [Function.update_of_ne hcall]
  have hcases : ∀ c file, Function.update s.opened (s.call t) (some s.next) c = some file →
      c = s.call t ∧ file = s.next ∨ s.opened c = some file :=
    fun c file hop => (update_some_eq_some hop).imp_right And.right
  rw [Files.openPath_created hfile]
  refine ⟨h.begun, h.ticket_lt, h.ticket_inj, ?_, ?_, ?_, ?_, ?_, ?_, ?_⟩
  · intro c hop
    by_cases hcall : c = s.call t
    · exact ⟨n, hcall ▸ hc⟩
    · exact h.opened_ticket c fun hnone => hop ((Function.update_of_ne hcall _ _).trans hnone)
  · intro c file hop
    rcases hcases c file hop with ⟨-, rfl⟩ | hop
    · exact Nat.lt_succ_self _
    · exact Nat.lt_succ_of_lt (h.opened_lt c file hop)
  · intro c c' file hop hop'
    rcases hcases c file hop with ⟨rfl, rfl⟩ | hop <;> rcases hcases c' _ hop' with ⟨rfl, hnext⟩ | hop'
    · rfl
    · exact absurd (h.opened_lt c' _ hop') (Nat.lt_irrefl _)
    · exact absurd (hnext ▸ h.opened_lt c _ hop) (Nat.lt_irrefl _)
    · exact h.opened_inj c c' file hop hop'
  · intro c file hheld
    rcases hheld with hfd | hmap
    · rcases update_some_eq_some hfd with ⟨rfl, rfl⟩ | ⟨hcall, hfd⟩
      · exact Function.update_self _ _ _
      · exact (Function.update_of_ne hcall _ _).trans (h.held c file (Or.inl hfd))
    · have hop := h.held c file (Or.inr hmap)
      have hcall : c ≠ s.call t := fun hcall => by
        rw [hcall, hopened] at hop
        cases hop
      exact (Function.update_of_ne hcall _ _).trans hop
  · intro u i hi hlinked
    by_cases hpath : hugePath (M.pid (M.proc u)) i = M.path (s.call t) n
    · exact ⟨s.call t, n, hc, hpath.symm, fun hnone => nomatch (Function.update_self _ _ _).symm.trans hnone⟩
    · have hold := h.linked u i hi fun hnone => hlinked ((Function.update_of_ne hpath _ _).trans hnone)
      exact hold.mono (fun _ _ h => h) hmono
  · intro c path hmem
    rcases List.mem_append.mp hmem with hmem | hmem
    · exact (h.unlinked c path hmem).mono (fun _ _ h => h) hmono
    · cases List.mem_singleton.mp hmem
  · intro path
    refine (h.order path).concat ?_
    rintro rfl c hmem
    exact hfree (h.unlinked c _ hmem)

theorem Exclusive.holding (h : M.Exclusive s) {fd mapping : CallId → Option Nat}
    (hheld : ∀ c file, fd c = some file ∨ mapping c = some file → s.opened c = some file) :
    M.Exclusive { s with fd := fd, mapping := mapping } :=
  ⟨h.begun, h.ticket_lt, h.ticket_inj, h.opened_ticket, h.opened_lt, h.opened_inj, hheld, h.linked, h.unlinked, h.order⟩

theorem Exclusive.map (h : M.Exclusive s) : M.Exclusive (s.map t) := by
  refine h.holding fun c file hheld => ?_
  by_cases hcall : c = s.call t
  · subst hcall
    rw [Function.update_self, or_self] at hheld
    exact h.held _ file (Or.inl hheld)
  · rw [Function.update_of_ne hcall] at hheld
    exact h.held c file hheld

theorem Exclusive.closeFd (h : M.Exclusive s) : M.Exclusive (s.closeFd t) := by
  refine h.holding fun c file hheld => ?_
  by_cases hcall : c = s.call t
  · subst hcall
    rw [Function.update_self] at hheld
    exact h.held _ file (Or.inr (hheld.resolve_left nofun))
  · rw [Function.update_of_ne hcall] at hheld
    exact h.held c file hheld

theorem Exclusive.exit (h : M.Exclusive s) : M.Exclusive (s.exit M.proc t) := by
  refine h.holding fun c file hheld => ?_
  by_cases hproc : M.proc c.1 = M.proc t
  · simp only [hproc, if_true, reduceCtorEq, or_self] at hheld
  · simp only [hproc, if_false] at hheld
    exact h.held c file hheld

theorem Exclusive.unlinkPath (h : M.Exclusive s) {n : Nat} (hc : s.ticket (s.call t) = some n)
    (hopened : s.opened (s.call t) ≠ none) : M.Exclusive (s.unlinkPath t (M.path (s.call t) n)) := by
  refine ⟨h.begun, h.ticket_lt, h.ticket_inj, h.opened_ticket, h.opened_lt, h.opened_inj, h.held, ?_, ?_, ?_⟩
  · intro u i hi hlinked
    by_cases hpath : hugePath (M.pid (M.proc u)) i = M.path (s.call t) n
    · exact ⟨s.call t, n, hc, hpath.symm, hopened⟩
    · exact h.linked u i hi fun hnone => hlinked ((Function.update_of_ne hpath _ _).trans hnone)
  · intro c path hmem
    rcases List.mem_append.mp hmem with hmem | hmem
    · exact h.unlinked c path hmem
    · cases List.mem_singleton.mp hmem
      exact ⟨s.call t, n, hc, rfl, hopened⟩
  · exact fun path => (h.order path).concat nofun

/-! ## The calls of a thread -/

/-- The invariant of all threads. -/
def Inv (M : Machine) (s : Files) : Prop := Unwrapped s → M.Exclusive s

/-- What thread `t` leaves alone: the calls of other threads. -/
structure Others (t : Nat) (s s' : Files) : Prop where
  fetched : ∀ q, s.fetched q .memory ≤ s'.fetched q .memory
  begun : ∀ u, u ≠ t → s'.begun u = s.begun u
  ticket : ∀ u k, u ≠ t → s'.ticket (u, k) = s.ticket (u, k)
  opened : ∀ u k, u ≠ t → s'.opened (u, k) = s.opened (u, k)

abbrev contract (M : Machine) (t : Nat) : Contract Host :=
  threadContract (fun s => M.Inv s.files) (fun t s s' => Others t s.files s'.files) (fun _ _ => True) t

/-- Thread `t` is in a call that fetched `n`, and has opened its file or not. -/
structure InCall (M : Machine) (t n : Nat) (isOpen : Bool) (s : Files) : Prop where
  inv : M.Inv s
  ticket : s.ticket (s.call t) = some n
  opened : Unwrapped s → (s.opened (s.call t)).isSome = isOpen

theorem Others.of_eq {s' : Files} (hfetched : s'.fetched = s.fetched) (hbegun : s'.begun = s.begun)
    (hticket : s'.ticket = s.ticket) (hopened : s'.opened = s.opened) : Others t s s' :=
  ⟨fun q => by rw [hfetched], fun u _ => congrFun hbegun u, fun u k _ => congrFun hticket (u, k),
    fun u k _ => congrFun hopened (u, k)⟩

theorem Others.unwrapped {s' : Files} (h : Others t s s') (hs' : Unwrapped s') : Unwrapped s :=
  fun q => (h.fetched q).trans (hs' q)

theorem stable_inv : Stable (M.contract t) fun s => M.Inv s.files :=
  ⟨fun _ _ _ hrely => by
    obtain ⟨-, -, -, hinv⟩ := hrely
    exact hinv, fun _ h => h⟩

theorem stable_inCall {n : Nat} {isOpen : Bool} : Stable (M.contract t) fun s => M.InCall t n isOpen s.files := by
  refine ⟨fun s s' h hrely => ?_, fun _ h => h.inv⟩
  obtain ⟨u, hu, hothers, hinv⟩ := hrely
  have hcall : s'.files.call t = s.files.call t := congrArg (Prod.mk t) (hothers.begun t (Ne.symm hu))
  refine ⟨hinv, ?_, fun hun => ?_⟩
  · rw [hcall]
    exact (hothers.ticket t _ (Ne.symm hu)).trans h.ticket
  · rw [hcall]
    exact (congrArg Option.isSome (hothers.opened t _ (Ne.symm hu))).trans (h.opened (hothers.unwrapped hun))

theorem Others.fetch : Others t s (s.fetch M.proc t .memory) := by
  refine ⟨fun q => ?_, fun u hu => Function.update_of_ne hu _ _, fun u k hu => ?_, fun _ _ _ => rfl⟩
  · by_cases hq : q = M.proc t
    · subst hq
      simp only [Files.fetch, Function.update_self, Nat.le_add_right]
    · simp only [Files.fetch, Function.update_of_ne hq, Nat.le_refl]
  · exact Function.update_of_ne (fun heq => hu (congrArg Prod.fst heq)) _ _

theorem openPath_calls (s : Files) (t : Nat) (path : String) : ∃ file, (s.openPath t path).fetched = s.fetched ∧
    (s.openPath t path).begun = s.begun ∧ (s.openPath t path).ticket = s.ticket ∧
    (s.openPath t path).opened = Function.update s.opened (s.call t) (some file) := by
  cases hfile : s.fs path with
  | none =>
    rw [Files.openPath_created hfile]
    exact ⟨s.next, rfl, rfl, rfl, rfl⟩
  | some file =>
    rw [Files.openPath_found hfile]
    exact ⟨file, rfl, rfl, rfl, rfl⟩

theorem Others.openPath (path : String) : Others t s (s.openPath t path) := by
  obtain ⟨file, hfetched, hbegun, hticket, hopened⟩ := openPath_calls s t path
  refine ⟨fun q => by rw [hfetched], fun u _ => congrFun hbegun u, fun u k _ => congrFun hticket (u, k), ?_⟩
  intro u k hu
  rw [hopened]
  exact Function.update_of_ne (fun heq => hu (congrArg Prod.fst heq)) _ _

theorem Inv.fetch (h : M.Inv s) : M.InCall t (s.fetched (M.proc t) .memory) false (s.fetch M.proc t .memory) := by
  have hcall : (s.fetch M.proc t .memory).call t = (t, s.begun t + 1) :=
    congrArg (Prod.mk t) (Function.update_self _ _ _)
  refine ⟨fun hun => (h (Others.fetch.unwrapped hun)).fetch, ?_, fun hun => ?_⟩
  · rw [hcall]
    exact Function.update_self _ _ _
  · rw [hcall]
    exact congrArg Option.isSome ((h (Others.fetch.unwrapped hun)).opened_new t)

theorem InCall.openPath {n : Nat} (h : M.InCall t n false s) :
    M.InCall t n true (s.openPath t (hugePath (M.pid (M.proc t)) (n % 2 ^ 32))) := by
  obtain ⟨file, -, hbegun, hticket, hopened⟩ := openPath_calls s t (hugePath (M.pid (M.proc t)) (n % 2 ^ 32))
  have hcall : (s.openPath t (hugePath (M.pid (M.proc t)) (n % 2 ^ 32))).call t = s.call t :=
    congrArg (Prod.mk t) (congrFun hbegun t)
  refine ⟨fun hun => ?_, ?_, fun _ => ?_⟩
  · have hun := (Others.openPath _).unwrapped hun
    have hnone := Option.isSome_eq_false_iff.mp (h.opened hun)
    exact (h.inv hun).openPath hun h.ticket (Option.isNone_iff_eq_none.mp hnone)
  · rw [hcall, hticket]
    exact h.ticket
  · rw [hcall, hopened, Function.update_self]
    rfl

theorem InCall.map {n : Nat} {isOpen : Bool} (h : M.InCall t n isOpen s) : M.InCall t n isOpen (s.map t) :=
  ⟨fun hun => (h.inv hun).map, h.ticket, h.opened⟩

theorem InCall.closeFd {n : Nat} {isOpen : Bool} (h : M.InCall t n isOpen s) : M.InCall t n isOpen (s.closeFd t) :=
  ⟨fun hun => (h.inv hun).closeFd, h.ticket, h.opened⟩

theorem InCall.unlinkPath {n : Nat} (h : M.InCall t n true s) :
    M.Inv (s.unlinkPath t (hugePath (M.pid (M.proc t)) (n % 2 ^ 32))) :=
  fun hun => (h.inv hun).unlinkPath h.ticket (Option.isSome_iff_ne_none.mp (h.opened hun))

theorem die_shared {α : Type} (msg : String) {Q : α → Host → Prop} {s : Host} (hs : M.Inv s.files) :
    Safe (execHost M.proc) (M.contract t) (die t msg) Q s := by
  refine Safe.op stable_inv (fun s _ s' hs he => ?_) hs
  cases execHost_eq he
  exact ⟨Others.of_eq rfl rfl rfl rfl, Safe.abort stable_inv (fun _ _ => trivial) fun hun => (hs hun).exit⟩

theorem hugeCalls_shared (o : KernelOp) {s : Host} (hs : M.Inv s.files) :
    Safe (execHost M.proc) (M.contract t) (hugeCalls (M.pid (M.proc t)) .memory t o) (fun _ s => M.Inv s.files) s := by
  cases o with
  | mmap size =>
    refine Safe.op stable_inv (fun s _ s' hs he => ?_) hs
    cases execHost_eq he
    refine ⟨Others.fetch, Safe.op stable_inCall (fun s₁ r s₂ h he => ?_) hs.fetch⟩
    rcases Host.attempt_cases (execHost_eq he) with ⟨rfl, rfl⟩ | ⟨rfl, rfl⟩
    swap
    · exact ⟨Others.of_eq rfl rfl rfl rfl, die_shared _ h.inv⟩
    refine ⟨Others.openPath _, Safe.op stable_inCall (fun s₁ r s₂ h he => ?_) h.openPath⟩
    rcases Host.attempt_cases (execHost_eq he) with ⟨rfl, rfl⟩ | ⟨rfl, rfl⟩
    swap
    · exact ⟨Others.of_eq rfl rfl rfl rfl, die_shared _ h.inv⟩
    refine ⟨Others.of_eq rfl rfl rfl rfl, Safe.op stable_inCall (fun s₁ r s₂ h he => ?_) h⟩
    rcases Host.mmap_cases (execHost_eq he) with ⟨virt, k, -, rfl, rfl⟩ | ⟨rfl, rfl⟩
    swap
    · exact ⟨Others.of_eq rfl rfl rfl rfl, die_shared _ h.inv⟩
    refine ⟨Others.of_eq rfl rfl rfl rfl, Safe.op stable_inCall (fun s₁ r s₂ h he => ?_) h.map⟩
    rcases Host.attempt_cases (execHost_eq he) with ⟨rfl, rfl⟩ | ⟨rfl, rfl⟩
    swap
    · exact ⟨Others.of_eq rfl rfl rfl rfl, die_shared _ h.inv⟩
    refine ⟨Others.of_eq rfl rfl rfl rfl, Safe.op stable_inCall (fun s₁ r s₂ h he => ?_) h⟩
    cases execHost_eq he
    refine ⟨Others.of_eq rfl rfl rfl rfl, Safe.op stable_inCall (fun s₁ r s₂ h he => ?_) h.closeFd⟩
    cases execHost_eq he
    exact ⟨Others.of_eq rfl rfl rfl rfl, Safe.ret stable_inv (fun _ h => h) h.unlinkPath⟩
  | pagemap page =>
    refine Safe.op stable_inv (fun s _ s' hs he => ?_) hs
    rcases Host.attempt_cases (execHost_eq he) with ⟨rfl, rfl⟩ | ⟨rfl, rfl⟩
    swap
    · exact ⟨Others.of_eq rfl rfl rfl rfl, die_shared _ hs⟩
    refine ⟨Others.of_eq rfl rfl rfl rfl, Safe.op stable_inv (fun s _ s' hs he => ?_) hs⟩
    rcases Host.attempt_cases (execHost_eq he) with ⟨rfl, rfl⟩ | ⟨rfl, rfl⟩
    swap
    · exact ⟨Others.of_eq rfl rfl rfl rfl, die_shared _ hs⟩
    refine ⟨Others.of_eq rfl rfl rfl rfl, Safe.op stable_inv (fun s _ s' hs he => ?_) hs⟩
    rcases Host.attempt_cases (execHost_eq he) with ⟨rfl, rfl⟩ | ⟨rfl, rfl⟩
    swap
    · exact ⟨Others.of_eq rfl rfl rfl rfl, die_shared _ hs⟩
    refine ⟨Others.of_eq rfl rfl rfl rfl, Safe.op stable_inv (fun s _ s' hs he => ?_) hs⟩
    cases execHost_eq he
    exact ⟨Others.of_eq rfl rfl rfl rfl, Safe.ret stable_inv (fun _ h => h) hs⟩

theorem memory_shared (size : Nat) {s : Host} (hs : M.Inv s.files) :
    Safe (execHost M.proc) (M.contract t) ((DmaCall.memory size).code (M.pid (M.proc t)) t)
      (fun _ s => M.Inv s.files) s := by
  have hexpand := Safe.expand stable_inv (fun _ _ => Others.of_eq rfl rfl rfl rfl)
    (fun o _ => hugeCalls_shared (t := t) o) (fun msg _ => die_shared msg) (memoryAllocateDma size) hs
  exact Safe.bind (hexpand.mono fun _ s hs => Safe.ret stable_inv (fun _ h => h) hs)

theorem dmaCalls_shared (sizes : List Nat) {s : Host} (hs : M.Inv s.files) :
    Safe (execHost M.proc) (M.contract t) (dmaCalls (M.pid (M.proc t)) t (sizes.map .memory))
      (fun _ s => M.Inv s.files) s := by
  induction sizes generalizing s with
  | nil => exact Safe.ret stable_inv (fun _ h => h) hs
  | cons size sizes ih => exact Safe.bind ((memory_shared size hs).mono fun _ s hs => ih hs)

/-! ## Every interleaving -/

/-- No calls yet, and no files with the names of these processes. -/
structure Fresh (M : Machine) (s : Files) : Prop where
  fetched : ∀ q, s.fetched q .memory = 0
  ticket : ∀ c, s.ticket c = none
  opened : ∀ c, s.opened c = none
  fd : ∀ c, s.fd c = none
  mapping : ∀ c, s.mapping c = none
  log : s.log = []
  fs : ∀ t i, i < 2 ^ 32 → s.fs (hugePath (M.pid (M.proc t)) i) = none

theorem Fresh.exclusive (h : M.Fresh s) : M.Exclusive s where
  begun c n hc := nomatch (h.ticket c).symm.trans hc
  ticket_lt c n hc := nomatch (h.ticket c).symm.trans hc
  ticket_inj c _ n hc _ _ := nomatch (h.ticket c).symm.trans hc
  opened_ticket c hop := absurd (h.opened c) hop
  opened_lt c _ hop := nomatch (h.opened c).symm.trans hop
  opened_inj c _ _ hop _ := nomatch (h.opened c).symm.trans hop
  held c file hheld := by
    rw [h.fd, h.mapping, or_self] at hheld
    cases hheld
  linked t i hi hlinked := absurd (h.fs t i hi) hlinked
  unlinked c path hmem := by
    rw [h.log] at hmem
    cases hmem
  order path := by
    rw [h.log]
    exact Before.nil

end Machine

/-- **Main result.** Threads of processes with different ids call `memory_allocate_dma` any number of times, fewer
than `2 ^ 32` times in a process. At no point of any interleaving do two calls have the same file open or mapped, has
a name been unlinked that a call is still to open, or is a name opened that was unlinked before. -/
theorem hugeFiles_exclusive (M : Machine) (sizes : Nat → List Nat) (ts : List Nat) {s : Host}
    {p : Pool Host FileOp FileRet Unit} (hstart : M.Fresh s.files)
    (hrun : Pool.run (execHost M.proc) ts ⟨s, fun t => dmaCalls (M.pid (M.proc t)) t ((sizes t).map .memory)⟩ = some p)
    (hcalls : ∀ q, p.state.files.fetched q .memory < 2 ^ 32) :
    (∀ c c' file, c ≠ c' → p.state.files.fd c = some file ∨ p.state.files.mapping c = some file →
      ¬ (p.state.files.fd c' = some file ∨ p.state.files.mapping c' = some file)) ∧
    (∀ c n, p.state.files.ticket c = some n → p.state.files.opened c = none →
      ∀ c', .unlinked c' (M.path c n) ∉ p.state.files.log) ∧
    ∀ path, Before p.state.files.log (FileEvent.Opens path) fun before => ∀ c, .unlinked c path ∉ before := by
  have hsafe : ∀ t, Safe (execHost M.proc) (M.contract t) (p.progs t) (fun _ s => M.Inv s.files) p.state :=
    Pool.run_safe (Q := fun _ _ (s : Host) => M.Inv s.files) ts
      (fun t => Machine.dmaCalls_shared (sizes t) fun _ => hstart.exclusive) hrun
  have hunwrapped : Machine.Unwrapped p.state.files := fun q => (hcalls q).le
  have hexclusive := (hsafe 0).inv hunwrapped
  refine ⟨?_, ?_, hexclusive.order⟩
  · intro c c' file hne hheld hheld'
    exact hne (hexclusive.opened_inj c c' file (hexclusive.held c file hheld) (hexclusive.held c' file hheld'))
  · intro c n hticket hopened c' hunlinked
    exact hexclusive.not_taken hunwrapped hticket hopened (hexclusive.unlinked c' _ hunlinked)

/-- Two threads to a process. -/
def pairedThreads : Machine where
  proc t := t / 2
  pid q := 40 + q
  pid_inj t u h := by omega

theorem pairedThreads_fresh (fate : Nat → Bool) : pairedThreads.Fresh (emptyHost fate).files :=
  ⟨fun _ => rfl, fun _ => rfl, fun _ => rfl, fun _ => rfl, fun _ => rfl, rfl, fun _ _ _ => rfl⟩

/-- Three threads in turn, until all have their file open. -/
theorem hugeFiles_exclusive_threads : ∃ p, Pool.run (execHost pairedThreads.proc) [2, 0, 1, 1, 2, 0]
    ⟨emptyHost fun _ => true, fun t => dmaCalls (pairedThreads.pid (pairedThreads.proc t)) t ([2048].map .memory)⟩ =
      some p ∧
    p.state.files.fd (1, 1) = some 0 ∧ p.state.files.fd (2, 1) = some 1 ∧ p.state.files.fd (0, 1) = some 2 ∧
    ∀ c c' file, c ≠ c' → p.state.files.fd c = some file ∨ p.state.files.mapping c = some file →
      ¬ (p.state.files.fd c' = some file ∨ p.state.files.mapping c' = some file) := by
  refine ⟨_, rfl, rfl, rfl, rfl, ?_⟩
  refine (hugeFiles_exclusive pairedThreads (fun _ => [2048]) [2, 0, 1, 1, 2, 0]
    (pairedThreads_fresh fun _ => true) rfl ?_).1
  intro q
  match q with
  | 0 => exact (by decide : 2 < 2 ^ 32)
  | 1 => exact (by decide : 1 < 2 ^ 32)
  | q + 2 => exact (by decide : 0 < 2 ^ 32)

end Ixy
