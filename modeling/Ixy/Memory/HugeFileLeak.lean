import Ixy.Memory.HugeFiles

/-!
# Which files outlive the process

The file of a call is removed at its end, behind three system calls that can end the process. `hugeFiles_gone_iff`: when
the process has ended, nothing that it created is left exactly if none of these failed on a file that it created.
-/

namespace Ixy

open Lib

/-- What matters of the system: the directory, and the history. -/
structure DirView where
  fs : String → Option Nat
  next : Nat
  begun : Nat → Nat
  log : List FileEvent
  failures : List (CallId × SysCall)

def Host.view (s : Host) : DirView := ⟨s.files.fs, s.files.next, s.files.begun, s.files.log, s.failures⟩

/-- The calls between `open` and `unlink` that can fail. -/
def SysCall.BeforeUnlink : SysCall → Prop
  | .ftruncate | .mmap | .mlock => True
  | _ => False

namespace DirView

/-- Call `c` has created a file. -/
def Created (v : DirView) (c : CallId) : Prop := ∃ path file, .opened c path file true ∈ v.log

def refuse (v : DirView) (t : Nat) (what : SysCall) : DirView :=
  { v with failures := v.failures ++ [((t, v.begun t), what)] }

/-- A file is left that was created by one of the calls. -/
def Remains (v : DirView) : Prop :=
  ∃ c path file path', .opened c path file true ∈ v.log ∧ v.fs path' = some file

/-- Nothing is left exactly if no call failed after it had created a file and before it had removed it. -/
def Verdict (v : DirView) : Prop :=
  ¬ v.Remains ↔ ∀ c what, (c, what) ∈ v.failures → what.BeforeUnlink → ¬ v.Created c

/-- What holds until something fails. -/
structure Sound (v : DirView) : Prop where
  failures : v.failures = []
  linked_lt : ∀ path file, v.fs path = some file → file < v.next
  opened_lt : ∀ c path file created, .opened c path file created ∈ v.log → file < v.next
  call_le : ∀ c path file created, .opened c path file created ∈ v.log → c.2 ≤ v.begun c.1

/-- Between two calls nothing is left. -/
structure Clean (v : DirView) : Prop extends Sound v where
  gone : ¬ v.Remains

/-- Thread `t` is in a call that has not opened its file yet. -/
structure Begun (t : Nat) (v : DirView) : Prop extends Clean v where
  unopened : ∀ path file created, .opened (t, v.begun t) path file created ∉ v.log

/-- Thread `t` is in a call that has opened `path`. Only its own file can be left. -/
structure Pending (t : Nat) (path : String) (v : DirView) : Prop extends Sound v where
  only : ∀ c p file p', .opened c p file true ∈ v.log → v.fs p' = some file → c = (t, v.begun t) ∧ p' = path
  left : v.Created (t, v.begun t) → v.Remains

variable {v : DirView} {t : Nat} {path : String}

/-! ## Steps -/

theorem Clean.begin (h : Clean v) : Begun t { v with begun := Function.update v.begun t (v.begun t + 1) } := by
  have hle : ∀ u, v.begun u ≤ Function.update v.begun t (v.begun t + 1) u := by
    intro u
    by_cases hu : u = t
    · rw [hu, Function.update_self]
      exact Nat.le_succ _
    · rw [Function.update_of_ne hu]
  refine ⟨⟨⟨h.failures, h.linked_lt, h.opened_lt, fun c p file b hmem => ?_⟩, h.gone⟩, fun p file b hmem => ?_⟩
  · exact (h.call_le c p file b hmem).trans (hle c.1)
  · have hlt := h.call_le _ p file b hmem
    simp only [Function.update_self] at hlt
    omega

theorem Begun.found (h : Begun t v) {file : Nat} (hfile : v.fs path = some file) :
    Pending t path { v with log := v.log ++ [.opened (t, v.begun t) path file false] } := by
  refine ⟨⟨h.failures, h.linked_lt, fun c p f b hmem => ?_, fun c p f b hmem => ?_⟩, ?_, ?_⟩
  · rcases List.mem_append.mp hmem with hmem | hmem
    · exact h.opened_lt c p f b hmem
    · cases List.mem_singleton.mp hmem
      exact h.linked_lt path file hfile
  · rcases List.mem_append.mp hmem with hmem | hmem
    · exact h.call_le c p f b hmem
    · cases List.mem_singleton.mp hmem
      exact Nat.le_refl _
  · intro c p f p' hmem hlinked
    rcases List.mem_append.mp hmem with hmem | hmem
    · exact absurd ⟨c, p, f, p', hmem, hlinked⟩ h.gone
    · cases List.mem_singleton.mp hmem
  · rintro ⟨p, f, hmem⟩
    rcases List.mem_append.mp hmem with hmem | hmem
    · exact absurd hmem (h.unopened p f true)
    · cases List.mem_singleton.mp hmem

theorem Begun.created (h : Begun t v) : Pending t path
    { v with
      fs := Function.update v.fs path (some v.next)
      next := v.next + 1
      log := v.log ++ [.opened (t, v.begun t) path v.next true] } := by
  refine ⟨⟨h.failures, fun p f hf => ?_, fun c p f b hmem => ?_, fun c p f b hmem => ?_⟩, ?_, fun _ => ?_⟩
  · rcases update_some_eq_some hf with ⟨-, rfl⟩ | ⟨-, hf⟩
    · exact Nat.lt_succ_self _
    · exact Nat.lt_succ_of_lt (h.linked_lt p f hf)
  · rcases List.mem_append.mp hmem with hmem | hmem
    · exact Nat.lt_succ_of_lt (h.opened_lt c p f b hmem)
    · cases List.mem_singleton.mp hmem
      exact Nat.lt_succ_self _
  · rcases List.mem_append.mp hmem with hmem | hmem
    · exact h.call_le c p f b hmem
    · cases List.mem_singleton.mp hmem
      exact Nat.le_refl _
  · intro c p f p' hmem hf
    rcases List.mem_append.mp hmem with hmem | hmem
    · rcases update_some_eq_some hf with ⟨-, rfl⟩ | ⟨-, hf⟩
      · exact absurd (h.opened_lt c p _ true hmem) (Nat.lt_irrefl _)
      · exact absurd ⟨c, p, f, p', hmem, hf⟩ h.gone
    · cases List.mem_singleton.mp hmem
      rcases update_some_eq_some hf with ⟨hp', -⟩ | ⟨-, hf⟩
      · exact ⟨rfl, hp'⟩
      · exact absurd (h.linked_lt p' _ hf) (Nat.lt_irrefl _)
  · exact ⟨_, path, v.next, path, List.mem_append_right _ List.mem_cons_self, Function.update_self _ _ _⟩

theorem Pending.unlinked (h : Pending t path v) (c : CallId) :
    Clean { v with fs := Function.update v.fs path none, log := v.log ++ [.unlinked c path] } := by
  have hlog : ∀ c' p f b, .opened c' p f b ∈ v.log ++ [.unlinked c path] → .opened c' p f b ∈ v.log := by
    intro c' p f b hmem
    rcases List.mem_append.mp hmem with hmem | hmem
    · exact hmem
    · cases List.mem_singleton.mp hmem
  refine ⟨⟨h.failures, fun p f hf => ?_, fun c' p f b hmem => ?_, fun c' p f b hmem => ?_⟩, ?_⟩
  · exact h.linked_lt p f (update_none_eq_some hf).2
  · exact h.opened_lt c' p f b (hlog c' p f b hmem)
  · exact h.call_le c' p f b (hlog c' p f b hmem)
  · rintro ⟨c', p, f, p', hmem, hf⟩
    obtain ⟨hne, hf⟩ := update_none_eq_some hf
    exact hne (h.only c' p f p' (hlog c' p f true hmem) hf).2

/-! ## Ends -/

theorem Clean.verdict (h : Clean v) : v.Verdict := by
  refine ⟨fun _ c what hmem => ?_, fun _ => h.gone⟩
  rw [h.failures] at hmem
  cases hmem

theorem Clean.refused (h : Clean v) {what : SysCall} (hwhat : ¬ what.BeforeUnlink) : (v.refuse t what).Verdict := by
  refine ⟨fun _ c' what' hmem hbefore => ?_, fun _ => h.gone⟩
  rw [refuse, h.failures] at hmem
  cases List.mem_singleton.mp hmem
  exact absurd hbefore hwhat

theorem Pending.refused (h : Pending t path v) {what : SysCall} (hwhat : what.BeforeUnlink) :
    (v.refuse t what).Verdict := by
  constructor
  · intro hgone c' what' hmem _ hcreated
    rw [refuse, h.failures] at hmem
    cases List.mem_singleton.mp hmem
    exact hgone (h.left hcreated)
  · rintro hcreated ⟨c', p, f, p', hmem, hf⟩
    obtain ⟨rfl, -⟩ := h.only c' p f p' hmem hf
    exact hcreated _ what (List.mem_append_right _ List.mem_cons_self) hwhat ⟨p, f, hmem⟩

end DirView

/-! ## The calls -/

/-- The process may end only where the verdict holds. -/
def leakContract : Contract Host := aloneUntil fun _ s => s.view.Verdict

section
variable {proc : Nat → Nat} {pid t : Nat} {counter : HugePgId} {s : Host}

theorem die_verdict {α : Type} {msg : String} {Q : α → Host → Prop} (h : s.view.Verdict) :
    Safe (execHost proc) leakContract (die t msg) Q s := by
  refine Safe.until_op fun _ s' he => ?_
  cases execHost_eq he
  exact Safe.until_abort h

theorem Host.attempt_view {α : Type} {what : SysCall} {x : α} {u s' : Host} {r : Option α}
    (h : s.attempt t what x u = (r, s')) :
    r = some x ∧ s'.view = u.view ∨ r = none ∧ s'.view = s.view.refuse t what := by
  rcases Host.attempt_cases h with ⟨hr, rfl⟩ | ⟨hr, rfl⟩
  · exact Or.inl ⟨hr, rfl⟩
  · exact Or.inr ⟨hr, rfl⟩

theorem Host.mmap_view {size : Nat} {s' : Host} {r : Option Nat} (h : s.mmap proc t size = (r, s')) :
    (∃ virt, r = some virt) ∧ s'.view = s.view ∨ r = none ∧ s'.view = s.view.refuse t .mmap := by
  rcases Host.mmap_cases h with ⟨virt, k, -, hr, rfl⟩ | ⟨hr, rfl⟩
  · exact Or.inl ⟨⟨virt, hr⟩, rfl⟩
  · exact Or.inr ⟨hr, rfl⟩

theorem Host.openPath_view (h : s.view.Begun t) (path : String) :
    ({ s with files := s.files.openPath t path } : Host).view.Pending t path := by
  cases hfile : s.files.fs path with
  | none =>
    rw [Files.openPath_created hfile]
    exact h.created
  | some file =>
    rw [Files.openPath_found hfile]
    exact h.found hfile

theorem hugeCalls_clean (o : KernelOp) (hs : s.view.Clean) :
    Safe (execHost proc) leakContract (hugeCalls pid counter t o) (fun _ s => s.view.Clean) s := by
  cases o with
  | mmap size =>
    refine Safe.until_op fun hugeId s₁ h₁ => ?_
    have hbegun : s₁.view.Begun t := by
      cases execHost_eq h₁
      exact hs.begin
    refine Safe.until_op fun r₂ s₂ h₂ => ?_
    rcases Host.attempt_view (execHost_eq h₂) with ⟨rfl, hview⟩ | ⟨rfl, hview⟩
    swap
    · exact die_verdict (hview ▸ hbegun.refused nofun)
    have hpending := Host.openPath_view hbegun (hugePath pid hugeId)
    rw [← hview] at hpending
    -- up to `unlink` the file is there
    refine Safe.until_op fun r₃ s₃ h₃ => ?_
    rcases Host.attempt_view (execHost_eq h₃) with ⟨rfl, hview⟩ | ⟨rfl, hview⟩
    swap
    · exact die_verdict (hview ▸ hpending.refused trivial)
    rw [← hview] at hpending
    refine Safe.until_op fun r₄ s₄ h₄ => ?_
    rcases Host.mmap_view (execHost_eq h₄) with ⟨⟨virt, rfl⟩, hview⟩ | ⟨rfl, hview⟩
    swap
    · exact die_verdict (hview ▸ hpending.refused trivial)
    rw [← hview] at hpending
    refine Safe.until_op fun r₅ s₅ h₅ => ?_
    rcases Host.attempt_view (execHost_eq h₅) with ⟨rfl, hview⟩ | ⟨rfl, hview⟩
    swap
    · exact die_verdict (hview ▸ hpending.refused trivial)
    rw [← hview] at hpending
    refine Safe.until_op fun r₆ s₆ h₆ => ?_
    cases execHost_eq h₆
    refine Safe.until_op fun r₇ s₇ h₇ => ?_
    cases execHost_eq h₇
    exact Safe.until_ret (hpending.unlinked _)
  | pagemap page =>
    refine Safe.until_op fun r₁ s₁ h₁ => ?_
    rcases Host.attempt_view (execHost_eq h₁) with ⟨rfl, hview⟩ | ⟨rfl, hview⟩
    swap
    · exact die_verdict (hview ▸ hs.refused nofun)
    rw [← hview] at hs
    refine Safe.until_op fun r₂ s₂ h₂ => ?_
    rcases Host.attempt_view (execHost_eq h₂) with ⟨rfl, hview⟩ | ⟨rfl, hview⟩
    swap
    · exact die_verdict (hview ▸ hs.refused nofun)
    rw [← hview] at hs
    refine Safe.until_op fun r₃ s₃ h₃ => ?_
    rcases Host.attempt_view (execHost_eq h₃) with ⟨rfl, hview⟩ | ⟨rfl, hview⟩
    swap
    · exact die_verdict (hview ▸ hs.refused nofun)
    rw [← hview] at hs
    refine Safe.until_op fun r₄ s₄ h₄ => ?_
    cases execHost_eq h₄
    exact Safe.until_ret hs

theorem DmaCall.code_clean (c : DmaCall) (hs : s.view.Clean) :
    Safe (execHost proc) leakContract (c.code pid t) (fun _ s => s.view.Clean) s := by
  have hexpand : ∀ {α : Type} (counter : HugePgId) (p : KernelCode α), Safe (execHost proc) leakContract
      (p.expand (hugeCalls pid counter t) (die t)) (fun _ s => s.view.Clean) s := fun counter p =>
    Safe.expand (stable_aloneUntil _ _) (fun _ _ => trivial) (fun o s hs => hugeCalls_clean o hs)
      (fun msg s hs => die_verdict hs.verdict) p hs
  cases c with
  | memory size => exact Safe.bind ((hexpand .memory _).mono fun _ s hs => Safe.until_ret hs)
  | dmaAllocator size => exact Safe.bind ((hexpand .dmaAllocator _).mono fun _ s hs => Safe.until_ret hs)

theorem dmaCalls_clean (cs : List DmaCall) (hs : s.view.Clean) :
    Safe (execHost proc) leakContract (dmaCalls pid t cs) (fun _ s => s.view.Clean) s := by
  induction cs generalizing s with
  | nil => exact Safe.until_ret hs
  | cons c cs ih => exact Safe.bind ((c.code_clean hs).mono fun _ s hs => ih hs)

end

/-! ## The whole run -/

/-- Nothing has happened yet; there may be any files. -/
structure Host.Untouched (s : Host) : Prop where
  log : s.files.log = []
  failures : s.failures = []
  linked_lt : ∀ path file, s.files.fs path = some file → file < s.files.next

theorem Host.Untouched.clean {s : Host} (h : s.Untouched) : s.view.Clean := by
  have hlog : ∀ e, e ∉ s.view.log := fun e hmem => by
    change e ∈ s.files.log at hmem
    rw [h.log] at hmem
    cases hmem
  refine ⟨⟨h.failures, h.linked_lt, fun c p f b hmem => ?_, fun c p f b hmem => ?_⟩, ?_⟩
  · exact absurd hmem (hlog _)
  · exact absurd hmem (hlog _)
  · rintro ⟨c, p, f, p', hmem, -⟩
    exact hlog _ hmem

/-- **Main result.** When a process has made its calls, or has ended in one of them, no file that it created is left
exactly if no `ftruncate`, `mmap` or `mlock` failed in a call that had created its file. -/
theorem hugeFiles_gone_iff {proc : Nat → Nat} {pid t : Nat} {cs : List DmaCall} {s : Host}
    {out : Prog.Outcome Unit Host} (hstart : s.Untouched)
    (hrun : Prog.Evals (execHost proc) (dmaCalls pid t cs) s out) :
    ¬ out.state.view.Remains ↔
      ∀ c what, (c, what) ∈ out.state.failures → what.BeforeUnlink → ¬ out.state.view.Created c := by
  have hsafe : Safe (execHost proc) leakContract (dmaCalls pid t cs) (fun _ s => s.view.Clean) s :=
    dmaCalls_clean cs hstart.clean
  obtain ⟨fuel, hrun⟩ := hrun
  cases out with
  | done a s' => exact (hsafe.eval fuel hrun).verdict
  | aborted msg s' => exact hsafe.eval_aborted fuel hrun

theorem emptyHost_untouched (fate : Nat → Bool) : (emptyHost fate).Untouched := ⟨rfl, rfl, nofun⟩

theorem hugeFiles_gone_twoCalls : ∃ s', Prog.Evals (execHost fun _ => 0) (dmaCalls 42 0 [.memory 2048, .memory 16384])
    (emptyHost fun _ => true) (.done () s') ∧ (¬ s'.view.Remains ↔
      ∀ c what, (c, what) ∈ s'.failures → what.BeforeUnlink → ¬ s'.view.Created c) := by
  have hrun : ∃ s', Prog.Evals (execHost fun _ => 0) (dmaCalls 42 0 [.memory 2048, .memory 16384])
      (emptyHost fun _ => true) (.done () s') := ⟨_, 40, rfl⟩
  obtain ⟨s', hrun⟩ := hrun
  exact ⟨s', hrun, hugeFiles_gone_iff (emptyHost_untouched _) hrun⟩

/-- `ftruncate` fails: the process ends, and its file stays. -/
theorem hugeFiles_counterexample : ∃ s', Prog.Evals (execHost fun _ => 0) (dmaCalls 42 0 [.memory 2048])
    (emptyHost fun n => n != 1) (.aborted "Failed to allocate huge page memory, check hugetlbfs configuration" s') ∧
    s'.exited 0 = true ∧ s'.files.fs (hugePath 42 0) = some 0 ∧ s'.view.Remains := by
  refine ⟨_, ⟨10, rfl⟩, rfl, rfl, ?_⟩
  exact ⟨(0, 1), hugePath 42 0, 0, hugePath 42 0, List.mem_cons_self, rfl⟩

example : hugePath 42 0 = "/mnt/huge/ixy-42-0" := by decide

end Ixy
