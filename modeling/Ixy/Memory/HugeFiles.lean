import Ixy.Lib.Expand
import Ixy.Memory.Dma
import Ixy.Allocator.Stack

/-!
# The files behind DMA memory

`memory_allocate_dma` and the `allocate` of `dma_allocator.c` get their memory from a file in `/mnt/huge`, which they
create, map and remove again by single system calls. Each of these may fail, and a failure ends the process
(`check_err`). The requests of `memoryAllocateDma` to the kernel are expanded into these calls (`hugeCalls`);
`hugeCalls_returns` says that nothing else changes.

`Files` is the file system with the open and mapped files of all calls. The calls of a thread are counted by their
`fetch_and_add` on `huge_pg_id`.
-/

namespace Ixy

open Lib

/-! ## Names -/

/-- `%d` of a `uint32_t`. -/
def signed32 (v : Nat) : Int := if v < 2 ^ 31 then v else v - 2 ^ 32

/-- `/mnt/huge/ixy-%d-%d`. -/
def hugePath (pid hugeId : Nat) : String :=
  "/mnt/huge/ixy-" ++ toString pid ++ "-" ++ toString (signed32 hugeId)

theorem signed32_inj {v v' : Nat} (hv : v < 2 ^ 32) (hv' : v' < 2 ^ 32) (h : signed32 v = signed32 v') : v = v' := by
  unfold signed32 at h
  split at h <;> split at h <;> omega

theorem append_cons_inj {α : Type} {x : α} {l l' : List α} : ∀ {a b : List α}, x ∉ a → x ∉ b →
    a ++ x :: l = b ++ x :: l' → a = b ∧ l = l'
  | [], [], _, _, h => ⟨rfl, (List.cons.inj h).2⟩
  | [], y :: b, _, hb, h => absurd (List.cons.inj h).1 fun hxy => hb (hxy ▸ List.mem_cons_self)
  | y :: a, [], ha, _, h => absurd (List.cons.inj h).1 fun hyx => ha (hyx ▸ List.mem_cons_self)
  | y :: a, z :: b, ha, hb, h => by
    obtain ⟨hyz, h⟩ := List.cons.inj h
    obtain ⟨hab, hl⟩ := append_cons_inj (List.not_mem_of_not_mem_cons ha) (List.not_mem_of_not_mem_cons hb) h
    exact ⟨by rw [hyz, hab], hl⟩

theorem toDigits_inj {a b : Nat} (h : Nat.toDigits 10 a = Nat.toDigits 10 b) : a = b := by
  have hread := congrArg (fun ds => Nat.ofDigitChars 10 ds 0) h
  simpa using hread

theorem dash_notMem_toDigits (n : Nat) : '-' ∉ Nat.toDigits 10 n := fun hmem =>
  absurd (Nat.isDigit_of_mem_toDigits (by decide) (by decide) hmem) (by decide)

theorem int_toString_inj {a b : Int} (h : (toString a).toList = (toString b).toList) : a = b := by
  rw [Int.toString_eq_repr, Int.toString_eq_repr, Int.repr_eq_if, Int.repr_eq_if] at h
  have hdash := dash_notMem_toDigits
  split at h <;> split at h
  · rw [Nat.toList_repr, Nat.toList_repr] at h
    have := toDigits_inj h
    omega
  · rw [String.toList_append, Nat.toList_repr, Nat.toList_repr] at h
    exact absurd (h ▸ List.mem_append_left _ (by decide)) (hdash a.toNat)
  · rw [String.toList_append, Nat.toList_repr, Nat.toList_repr] at h
    exact absurd (h ▸ List.mem_append_left _ (by decide)) (hdash b.toNat)
  · rw [String.toList_append, String.toList_append, Nat.toList_repr, Nat.toList_repr] at h
    have := toDigits_inj (List.append_cancel_left h)
    omega

/-- Different processes and different counters give different names, also where a counter is printed as negative. -/
theorem hugePath_inj {pid pid' v v' : Nat} (hv : v < 2 ^ 32) (hv' : v' < 2 ^ 32)
    (h : hugePath pid v = hugePath pid' v') :
    pid = pid' ∧ v = v' := by
  have hlist : ("/mnt/huge/ixy-" ++ toString pid ++ "-" ++ toString (signed32 v)).toList =
      ("/mnt/huge/ixy-" ++ toString pid' ++ "-" ++ toString (signed32 v')).toList := congrArg String.toList h
  simp only [String.toList_append, List.append_assoc, Nat.toString_eq_repr, Nat.toList_repr] at hlist
  obtain ⟨hpid, hrest⟩ := append_cons_inj (dash_notMem_toDigits pid) (dash_notMem_toDigits pid')
    (List.append_cancel_left hlist)
  exact ⟨toDigits_inj hpid, signed32_inj hv hv' (int_toString_inj hrest)⟩

/-! ## System calls -/

/-- `memory.c` and `dma_allocator.c` each have a `huge_pg_id` of their own. -/
inductive HugePgId where
  | memory
  | dmaAllocator
  deriving DecidableEq, Repr

/-- What thread `t` asks of the system. Its last call that went as far as the counter has at most one file open. -/
inductive FileOp where
  | fetchAndAdd (t : Nat) (counter : HugePgId)
  | openFile (t : Nat) (path : String)
  | ftruncate (t size : Nat)
  | mmap (t size : Nat)
  | mlock (t virt size : Nat)
  | close (t : Nat)
  | unlink (t : Nat) (path : String)
  | openPagemap (t : Nat)
  | lseek (t offset : Nat)
  | read (t page : Nat)
  | closePagemap (t : Nat)
  | exit (t : Nat)

/-- A call that can fail answers `none` for -1. -/
@[reducible] def FileRet : FileOp → Type
  | .fetchAndAdd _ _ => Nat
  | .openFile _ _ => Option Unit
  | .ftruncate _ _ => Option Unit
  | .mmap _ _ => Option Nat
  | .mlock _ _ _ => Option Unit
  | .openPagemap _ => Option Unit
  | .lseek _ _ => Option Unit
  | .read _ _ => Option UInt64
  | _ => Unit

def FileOp.thread : FileOp → Nat
  | .fetchAndAdd t _ | .openFile t _ | .ftruncate t _ | .mmap t _ | .mlock t _ _ | .close t | .unlink t _
  | .openPagemap t | .lseek t _ | .read t _ | .closePagemap t | .exit t => t

abbrev FileCode := Prog FileOp FileRet

/-- The end of the process, by `exit` or `abort`. -/
def die {α : Type} (t : Nat) (msg : String) : FileCode α := .op (.exit t) fun _ => .abort msg

/-- `check_err`. -/
def checkErr {α : Type} (t : Nat) (result : Option α) (op : String) : FileCode α :=
  match result with
  | none => die t s!"Failed to {op}"
  | some v => .ret v

/-- What lies between the requests of `memoryAllocateDma` and `isPhysContinuous` and the system. -/
def hugeCalls (pid : Nat) (counter : HugePgId) (t : Nat) : (o : KernelOp) → FileCode (KernelRet o)
  | .mmap size => do
    let hugeId ← Prog.access (FileOp.fetchAndAdd t counter)
    let path := hugePath pid hugeId
    -- temporary file, will be deleted to prevent leaks of persistent pages
    let fd ← Prog.access (FileOp.openFile t path)
    checkErr t fd "open hugetlbfs file, check that /mnt/huge is mounted"
    let result ← Prog.access (FileOp.ftruncate t size)
    checkErr t result "allocate huge page memory, check hugetlbfs configuration"
    let result ← Prog.access (FileOp.mmap t size)
    let virt ← checkErr t result "mmap hugepage"
    -- never swap out DMA memory
    let result ← Prog.access (FileOp.mlock t virt size)
    checkErr t result "disable swap for DMA memory"
    -- don't keep it around in the hugetlbfs
    Prog.access (FileOp.close t)
    Prog.access (FileOp.unlink t path)
    return some virt
  | .pagemap page => do
    let fd ← Prog.access (FileOp.openPagemap t)
    checkErr t fd "getting pagemap"
    let result ← Prog.access (FileOp.lseek t (page * 8))
    checkErr t result "getting pagemap"
    let result ← Prog.access (FileOp.read t page)
    let entry ← checkErr t result "translating address"
    Prog.access (FileOp.closePagemap t)
    return entry

/-- `allocate` of `dma_allocator.c`. -/
def dmaAllocate (size : Nat) : KernelCode MemBlk := do
  let virt ← Prog.access (KernelOp.mmap (roundUpHuge size))
  match virt with
  | none => .abort "Failed to mmap hugepage"
  | some virt => do
    let continuous ← isPhysContinuous 4096 virt (roundUpHuge size)
    if continuous then return ⟨virt, roundUpHuge size⟩
    else .abort "memory returned by mmap is not physically continuous, try rebooting to clear fragmentation"

/-- A call of one of the two functions. -/
inductive DmaCall where
  | memory (size : Nat)
  | dmaAllocator (size : Nat)

/-- The system calls of a call. -/
def DmaCall.code (pid t : Nat) : DmaCall → FileCode Unit
  | .memory size => ((memoryAllocateDma size).expand (hugeCalls pid .memory t) (die t)).bind fun _ => .ret ()
  | .dmaAllocator size => ((dmaAllocate size).expand (hugeCalls pid .dmaAllocator t) (die t)).bind fun _ => .ret ()

/-- One call after the other. -/
def dmaCalls (pid t : Nat) : List DmaCall → FileCode Unit
  | [] => .ret ()
  | c :: cs => (c.code pid t).bind fun _ => dmaCalls pid t cs

/-! ## The file system -/

section
variable {α β : Type} [DecidableEq α] {f : α → Option β} {a x : α} {v b : β}

theorem update_some_eq_some (h : Function.update f a (some v) x = some b) :
    x = a ∧ b = v ∨ x ≠ a ∧ f x = some b := by
  by_cases hx : x = a
  · rw [hx, Function.update_self] at h
    exact Or.inl ⟨hx, (Option.some.inj h).symm⟩
  · rw [Function.update_of_ne hx] at h
    exact Or.inr ⟨hx, h⟩

theorem update_none_eq_some (h : Function.update f a none x = some b) : x ≠ a ∧ f x = some b := by
  by_cases hx : x = a
  · rw [hx, Function.update_self] at h
    cases h
  · rw [Function.update_of_ne hx] at h
    exact ⟨hx, h⟩

end

/-- A thread, and the number of its call. -/
abbrev CallId := Nat × Nat

inductive FileEvent where
  | opened (c : CallId) (path : String) (file : Nat) (created : Bool)
  | unlinked (c : CallId) (path : String)

structure Files where
  fs : String → Option Nat
  /-- The next new file. -/
  next : Nat
  fd : CallId → Option Nat
  mapping : CallId → Option Nat
  /-- How often each counter of a process was fetched. The counter is this modulo `2 ^ 32`. -/
  fetched : Nat → HugePgId → Nat
  /-- History: the calls of each thread, the count that a call fetched, the file it opened, and all in order. -/
  begun : Nat → Nat
  ticket : CallId → Option Nat
  opened : CallId → Option Nat
  log : List FileEvent

namespace Files
variable (proc : Nat → Nat) (s : Files) (t : Nat)

/-- The call that thread `t` is in. -/
def call : CallId := (t, s.begun t)

def fetch (counter : HugePgId) : Files :=
  { s with
    fetched := Function.update s.fetched (proc t)
      (Function.update (s.fetched (proc t)) counter (s.fetched (proc t) counter + 1))
    begun := Function.update s.begun t (s.begun t + 1)
    ticket := Function.update s.ticket (t, s.begun t + 1) (some (s.fetched (proc t) counter)) }

/-- `O_CREAT` without `O_EXCL`. -/
def openPath (path : String) : Files :=
  match s.fs path with
  | some file =>
    { s with
      fd := Function.update s.fd (s.call t) (some file)
      opened := Function.update s.opened (s.call t) (some file)
      log := s.log ++ [.opened (s.call t) path file false] }
  | none =>
    { s with
      fs := Function.update s.fs path (some s.next)
      next := s.next + 1
      fd := Function.update s.fd (s.call t) (some s.next)
      opened := Function.update s.opened (s.call t) (some s.next)
      log := s.log ++ [.opened (s.call t) path s.next true] }

variable {s t} in
theorem openPath_found {path : String} {file : Nat} (h : s.fs path = some file) : s.openPath t path =
    { s with
      fd := Function.update s.fd (s.call t) (some file)
      opened := Function.update s.opened (s.call t) (some file)
      log := s.log ++ [.opened (s.call t) path file false] } := by
  rw [openPath, h]

variable {s t} in
theorem openPath_created {path : String} (h : s.fs path = none) : s.openPath t path =
    { s with
      fs := Function.update s.fs path (some s.next)
      next := s.next + 1
      fd := Function.update s.fd (s.call t) (some s.next)
      opened := Function.update s.opened (s.call t) (some s.next)
      log := s.log ++ [.opened (s.call t) path s.next true] } := by
  rw [openPath, h]

def map : Files := { s with mapping := Function.update s.mapping (s.call t) (s.fd (s.call t)) }

def closeFd : Files := { s with fd := Function.update s.fd (s.call t) none }

def unlinkPath (path : String) : Files :=
  { s with
    fs := Function.update s.fs path none
    log := s.log ++ [.unlinked (s.call t) path] }

/-- The process of `t` is gone, with all that it had open and mapped. -/
def exit : Files :=
  { s with
    fd := fun c => if proc c.1 = proc t then none else s.fd c
    mapping := fun c => if proc c.1 = proc t then none else s.mapping c }

end Files

/-! ## The system -/

/-- The calls that can fail. -/
inductive SysCall where
  | openFile
  | ftruncate
  | mmap
  | mlock
  | openPagemap
  | lseek
  | read
  deriving DecidableEq, Repr

structure Host where
  files : Files
  /-- The memory of each process. -/
  kernel : Nat → Kernel
  exited : Nat → Bool
  /-- Which of all system calls, counted, will succeed. -/
  fate : Nat → Bool
  served : Nat
  /-- History: what has failed. -/
  failures : List (CallId × SysCall)

namespace Host
variable (proc : Nat → Nat) (s : Host) (t : Nat)

def refuse (what : SysCall) : Host :=
  { s with served := s.served + 1, failures := s.failures ++ [(s.files.call t, what)] }

/-- A call that fails if it is fated to, and otherwise answers `v` and leads to `s'`. -/
def attempt {α : Type} (what : SysCall) (v : α) (s' : Host) : Option α × Host :=
  if s.fate s.served then (some v, { s' with served := s.served + 1 }) else (none, s.refuse t what)

/-- `MAP_HUGETLB` fails also where there is no room. -/
def mmap (size : Nat) : Option Nat × Host :=
  match execKernel (.mmap size) (s.kernel (proc t)) with
  | some (some virt, k) =>
    s.attempt t .mmap virt { s with files := s.files.map t, kernel := Function.update s.kernel (proc t) k }
  | _ => (none, s.refuse t .mmap)

end Host

def hostStep (proc : Nat → Nat) : (o : FileOp) → Host → FileRet o × Host
  | .fetchAndAdd t counter, s =>
    (s.files.fetched (proc t) counter % 2 ^ 32, { s with files := s.files.fetch proc t counter })
  | .openFile t path, s => s.attempt t .openFile () { s with files := s.files.openPath t path }
  | .ftruncate t _, s => s.attempt t .ftruncate () s
  | .mmap t size, s => s.mmap proc t size
  | .mlock t _ _, s => s.attempt t .mlock () s
  | .close t, s => ((), { s with files := s.files.closeFd t })
  | .unlink t path, s => ((), { s with files := s.files.unlinkPath t path })
  | .openPagemap t, s => s.attempt t .openPagemap () s
  | .lseek t _, s => s.attempt t .lseek () s
  | .read t page, s => s.attempt t .read ((s.kernel (proc t)).pagemap page) s
  | .closePagemap _, s => ((), s)
  | .exit t, s =>
    ((), { s with files := s.files.exit proc t, exited := Function.update s.exited (proc t) true })

/-- A machine with no files. -/
def emptyHost (fate : Nat → Bool) : Host where
  files := ⟨fun _ => none, 0, fun _ => none, fun _ => none, fun _ _ => 0, fun _ => 0, fun _ => none, fun _ => none, []⟩
  kernel := fun _ => ⟨fun _ => 1, [1, 2]⟩
  exited := fun _ => false
  fate := fate
  served := 0
  failures := []

/-- A process that has ended does nothing more. -/
def execHost (proc : Nat → Nat) (o : FileOp) (s : Host) : Option (FileRet o × Host) :=
  if s.exited (proc o.thread) then none else some (hostStep proc o s)

/-! ## What a call can do -/

section
variable {proc : Nat → Nat} {t : Nat} {s s' : Host}

theorem execHost_eq {o : FileOp} {r : FileRet o} (h : execHost proc o s = some (r, s')) :
    hostStep proc o s = (r, s') := by
  unfold execHost at h
  split at h
  · cases h
  · exact Option.some.inj h

theorem Host.attempt_cases {α : Type} {what : SysCall} {v : α} {u : Host} {r : Option α}
    (h : s.attempt t what v u = (r, s')) :
    r = some v ∧ s' = { u with served := s.served + 1 } ∨ r = none ∧ s' = s.refuse t what := by
  unfold Host.attempt at h
  split at h <;> cases h
  · exact Or.inl ⟨rfl, rfl⟩
  · exact Or.inr ⟨rfl, rfl⟩

theorem Host.mmap_cases {size : Nat} {r : Option Nat} (h : s.mmap proc t size = (r, s')) :
    (∃ virt k, execKernel (.mmap size) (s.kernel (proc t)) = some (some virt, k) ∧ r = some virt ∧
      s' = { s with files := s.files.map t, kernel := Function.update s.kernel (proc t) k, served := s.served + 1 }) ∨
    r = none ∧ s' = s.refuse t .mmap := by
  unfold Host.mmap at h
  split at h
  · rename_i virt k hk
    rcases Host.attempt_cases h with ⟨hr, hs'⟩ | hfail
    · exact Or.inl ⟨virt, k, hk, hr, hs'⟩
    · exact Or.inr hfail
  · cases h
    exact Or.inr ⟨rfl, rfl⟩

/-! ## Refinement -/

theorem safe_die {α : Type} (msg : String) {Q : α → Host → Prop} :
    Safe (execHost proc) (alone Host) (die t msg) Q s := Safe.alone_op fun _ _ _ => Safe.alone_abort

theorem hugeCalls_refines (pid : Nat) (counter : HugePgId) (o : KernelOp) (s : Host) :
    Safe (execHost proc) (alone Host) (hugeCalls pid counter t o)
      (fun r s' => execKernel o (s.kernel (proc t)) = some (r, s'.kernel (proc t))) s := by
  cases o with
  | mmap size =>
    refine Safe.alone_op fun _ s₁ h₁ => ?_
    cases execHost_eq h₁
    refine Safe.alone_op fun r₂ s₂ h₂ => ?_
    rcases Host.attempt_cases (execHost_eq h₂) with ⟨rfl, rfl⟩ | ⟨rfl, rfl⟩
    swap
    · exact safe_die _
    refine Safe.alone_op fun r₃ s₃ h₃ => ?_
    rcases Host.attempt_cases (execHost_eq h₃) with ⟨rfl, rfl⟩ | ⟨rfl, rfl⟩
    swap
    · exact safe_die _
    refine Safe.alone_op fun r₄ s₄ h₄ => ?_
    rcases Host.mmap_cases (execHost_eq h₄) with ⟨virt, k, hk, rfl, rfl⟩ | ⟨rfl, rfl⟩
    swap
    · exact safe_die _
    refine Safe.alone_op fun r₅ s₅ h₅ => ?_
    rcases Host.attempt_cases (execHost_eq h₅) with ⟨rfl, rfl⟩ | ⟨rfl, rfl⟩
    swap
    · exact safe_die _
    refine Safe.alone_op fun r₆ s₆ h₆ => ?_
    cases execHost_eq h₆
    refine Safe.alone_op fun r₇ s₇ h₇ => ?_
    cases execHost_eq h₇
    refine Safe.alone_ret (hk.trans ?_)
    exact congrArg (fun k => some (some virt, k)) (Function.update_self (proc t) k s.kernel).symm
  | pagemap page =>
    refine Safe.alone_op fun r₁ s₁ h₁ => ?_
    rcases Host.attempt_cases (execHost_eq h₁) with ⟨rfl, rfl⟩ | ⟨rfl, rfl⟩
    swap
    · exact safe_die _
    refine Safe.alone_op fun r₂ s₂ h₂ => ?_
    rcases Host.attempt_cases (execHost_eq h₂) with ⟨rfl, rfl⟩ | ⟨rfl, rfl⟩
    swap
    · exact safe_die _
    refine Safe.alone_op fun r₃ s₃ h₃ => ?_
    rcases Host.attempt_cases (execHost_eq h₃) with ⟨rfl, rfl⟩ | ⟨rfl, rfl⟩
    swap
    · exact safe_die _
    refine Safe.alone_op fun r₄ s₄ h₄ => ?_
    cases execHost_eq h₄
    exact Safe.alone_ret rfl

/-- Whatever `memory_allocate_dma` (or the other function) returns when it is made of system calls, the function itself
returns on the memory of the process. -/
theorem hugeCalls_returns {α : Type} {pid : Nat} {counter : HugePgId} {p : KernelCode α} {a : α}
    (h : Prog.Evals (execHost proc) (p.expand (hugeCalls pid counter t) (die t)) s (.done a s')) :
    Prog.Evals execKernel p (s.kernel (proc t)) (.done a (s'.kernel (proc t))) := by
  obtain ⟨fuel, h⟩ := h
  have hsafe : Safe (execHost proc) (alone Host) (p.expand (hugeCalls pid counter t) (die t))
      (fun a s' => Prog.Evals execKernel p (s.kernel (proc t)) (.done a (s'.kernel (proc t)))) s :=
    Safe.expand_evals (hugeCalls_refines pid counter) (fun msg _ => safe_die msg) p s
  exact hsafe.eval fuel h

end

end Ixy
