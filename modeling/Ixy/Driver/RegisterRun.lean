import Ixy.Driver.Startup
import Ixy.Driver.RegisterUse

/-!
# The driver keeps the rules for registers

The functions of `ixgbe.c` on a machine with the registers of any card and any memory (`RegMachine`), phase by phase.
`session_keeps_bits` and `session_inOrder` are about every state that `ixgbe_init`, and any calls after it, ever get
to: bits that are not the driver's are as they were, and everything was done in order.
-/

namespace Ixy

open Lib

/-! ## Machines -/

/-- An access to a register. -/
def DriverOp.OnReg : DriverOp → Prop
  | .getReg32 _ | .setReg32 _ _ | .on _ (.getReg _) | .on _ (.setReg _ _) => True
  | _ => False

/-- A machine on which the driver runs. Its registers are those of the card; its memory may do anything. The structs of
the queues are records of their own in one machine (`Card.machine`), and overlap in another (`Card.areas`). -/
structure RegMachine (card : Card) (S : Type) where
  exec : (o : DriverOp) → S → Option (DriverRet o × S)
  log : S → List Access
  getReg32 : ∀ {reg s v s'}, exec (.getReg32 reg) s = some (v, s') →
    v = card.reg (log s) reg % 2 ^ 32 ∧ log s' = log s ++ [.readReg reg]
  setReg32 : ∀ {reg v s r s'}, exec (.setReg32 reg v) s = some (r, s') → log s' = log s ++ [.writeReg reg v]
  getReg : ∀ {i q s v s'}, exec (.on i (.getReg q)) s = some (v, s') →
    v = card.reg (log s) (q.offset i) % 2 ^ 32 ∧ log s' = log s ++ [.readReg (q.offset i)]
  setReg : ∀ {i q v s r s'}, exec (.on i (.setReg q v)) s = some (r, s') →
    log s' = log s ++ [.writeReg (q.offset i) v]
  other : ∀ {o s r s'}, ¬ o.OnReg → exec o s = some (r, s') → ∃ as : List Access, (∀ a ∈ as, a.Harmless) ∧
    log s' = log s ++ as

/-- The code of a queue on the machine. -/
def RegMachine.onQueue {card : Card} {S : Type} (M : RegMachine card S) (i : Nat) (o : Op) (s : S) :
    Option (Ret o × S) :=
  M.exec (.on i o) s

/-! ## The rules of the functions -/

/-- Nobody interferes, and all writes are right at every point of the run. -/
def useContract {card : Card} {S : Type} (M : RegMachine card S) (rxQueues txQueues : Nat) : Contract S where
  rely _ _ := False
  guar _ _ := True
  inv s := WritesOk card rxQueues txQueues (M.log s)
  aborts _ _ := True

section
variable {card : Card} {S : Type} {M : RegMachine card S} {rxQueues txQueues : Nat} {s : S}

section
variable {O : Type} {R : O → Type} {exec : (o : O) → S → Option (R o × S)} {α β : Type}

theorem stable_use {A : S → Prop} (hA : ∀ s, A s → WritesOk card rxQueues txQueues (M.log s)) :
    Stable (useContract M rxQueues txQueues) A := ⟨nofun, hA⟩

theorem Use.ret {x : α} {Q : α → S → Prop} (hs : WritesOk card rxQueues txQueues (M.log s)) (h : Q x s) :
    Safe exec (useContract M rxQueues txQueues) (.ret x) Q s := by
  refine Safe.ret (A := (· = s)) (stable_use ?_) ?_ rfl
  · rintro _ rfl
    exact hs
  · rintro _ rfl
    exact h

theorem Use.abort {msg : String} {Q : α → S → Prop} (hs : WritesOk card rxQueues txQueues (M.log s)) :
    Safe exec (useContract M rxQueues txQueues) (.abort msg) Q s := by
  refine Safe.abort (A := (· = s)) (stable_use ?_) (fun _ _ => trivial) rfl
  rintro _ rfl
  exact hs

theorem Use.op {o : O} {k : R o → Prog O R α} {Q : α → S → Prop} (hs : WritesOk card rxQueues txQueues (M.log s))
    (h : ∀ r s', exec o s = some (r, s') → Safe exec (useContract M rxQueues txQueues) (k r) Q s') :
    Safe exec (useContract M rxQueues txQueues) (.op o k) Q s := by
  refine Safe.op (A := (· = s)) (stable_use ?_) ?_ rfl
  · rintro _ rfl
    exact hs
  · rintro _ r s' rfl he
    exact ⟨trivial, h r s' he⟩

end

/-- The accesses of code that writes registers only as `P` says. -/
def writesOnly (P : Reg → Nat → Prop) : Discipline Op Ret where
  allows
    | .setReg r v => P r v
    | _ => True
  answers _ _ := True

theorem RegMachine.onQueue_harmless {i : Nat} {o : Op} {x : Ret o} {s' : S} (ho : ∀ r v, o ≠ .setReg r v)
    (he : M.onQueue i o s = some (x, s')) :
    ∃ as : List Access, (∀ a ∈ as, a.Harmless) ∧ M.log s' = M.log s ++ as := by
  by_cases hread : ∃ q, o = .getReg q
  · obtain ⟨q, rfl⟩ := hread
    refine ⟨_, fun a ha => ?_, (M.getReg he).2⟩
    rw [List.mem_singleton.mp ha]
    nofun
  · refine M.other (fun hreg => ?_) he
    cases o with
    | getReg q => exact hread ⟨q, rfl⟩
    | setReg q v => exact ho q v rfl
    | _ => exact hreg

namespace Phase
variable {r t : Bool} {m reg v mask flags : Nat}

/-- Being in a phase, as an assertion. -/
abbrev At (M : RegMachine card S) (rxQueues txQueues : Nat) (r t : Bool) (m : Nat) (s : S) : Prop :=
  Phase card rxQueues txQueues r t m (M.log s)

theorem stable : Stable (useContract M rxQueues txQueues) (At M rxQueues txQueues r t m) :=
  stable_use fun _ h => h.ok

theorem modify {r' t' : Bool} {f : Nat → Nat} (h : At M rxQueues txQueues r t m s)
    (hwrite : ∀ l, Phase card rxQueues txQueues r t m (l ++ [.readReg reg]) →
      Phase card rxQueues txQueues r' t' m (l ++ [.readReg reg] ++ [.writeReg reg (f (card.reg l reg % 2 ^ 32))])) :
    Safe M.exec (useContract M rxQueues txQueues)
      ((Driver.getReg32 reg).bind fun v => Driver.setReg32 reg (f v)) (fun _ => At M rxQueues txQueues r' t' m) s := by
  have hread := h.access (a := .readReg reg) nofun
  have hwritten := hwrite (M.log s) hread
  refine Use.op h.ok fun v s₁ he => ?_
  obtain ⟨hv, hlog⟩ := M.getReg32 he
  rw [← hlog, ← hv] at hwritten
  rw [← hlog] at hread
  refine Use.op hread.ok fun _ s₂ he => ?_
  rw [← M.setReg32 he] at hwritten
  exact Use.ret hwritten.ok hwritten

theorem write32 {r' t' : Bool} (h : At M rxQueues txQueues r t m s)
    (hwrite : Phase card rxQueues txQueues r' t' m (M.log s ++ [.writeReg reg v])) :
    Safe M.exec (useContract M rxQueues txQueues) (Driver.setReg32 reg v)
      (fun _ => At M rxQueues txQueues r' t' m) s := by
  refine Use.op h.ok fun _ s' he => ?_
  rw [← M.setReg32 he] at hwrite
  exact Use.ret hwrite.ok hwrite

theorem accessOther {o : DriverOp} (h : At M rxQueues txQueues r t m s) (ho : ¬ o.OnReg) :
    Safe M.exec (useContract M rxQueues txQueues) (Prog.access o) (fun _ => At M rxQueues txQueues r t m) s := by
  refine Use.op h.ok fun x s' he => ?_
  obtain ⟨as, has, hlog⟩ := M.other ho he
  have h' := h.accesses has
  rw [← hlog] at h'
  exact Use.ret h'.ok h'

theorem setReg32 (h : At M rxQueues txQueues r t m s) (hreg : Plain r reg)
    (ho : Owned rxQueues txQueues reg allBits) :
    Safe M.exec (useContract M rxQueues txQueues) (Driver.setReg32 reg v)
      (fun _ => At M rxQueues txQueues r t m) s := h.write32 (h.plain hreg (.all ho))

theorem modify_then {α : Type} {f : Nat → Nat} {k : Unit → DriverCode α} {Q : α → S → Prop}
    (h : At M rxQueues txQueues r t m s) (hreg : Plain r reg) (ho : Owned rxQueues txQueues reg mask)
    (hf : ∀ v, ∀ k < 32, mask.testBit k = false → (f v).testBit k = v.testBit k)
    (hk : ∀ s, At M rxQueues txQueues r t m s →
      Safe M.exec (useContract M rxQueues txQueues) (k ()) Q s) :
    Safe M.exec (useContract M rxQueues txQueues)
      ((Driver.getReg32 reg).bind fun v => (Driver.setReg32 reg (f v)).bind k) Q s :=
  Safe.seq (p := (Driver.getReg32 reg).bind fun v => Driver.setReg32 reg (f v))
    (h.modify fun _ hl => hl.plain hreg (.modify ho hf)) fun _ s hs => hk s hs

theorem modifyPlain {f : Nat → Nat} (h : At M rxQueues txQueues r t m s) (hreg : Plain r reg)
    (ho : Owned rxQueues txQueues reg mask)
    (hf : ∀ v, ∀ k < 32, mask.testBit k = false → (f v).testBit k = v.testBit k) :
    Safe M.exec (useContract M rxQueues txQueues)
      ((Driver.getReg32 reg).bind fun v => Driver.setReg32 reg (f v)) (fun _ => At M rxQueues txQueues r t m) s :=
  h.modify fun _ hl => hl.plain hreg (.modify ho hf)

theorem setFlags32 (h : At M rxQueues txQueues r t m s) (hreg : Plain r reg) (ho : Owned rxQueues txQueues reg mask)
    (hflags : Within flags mask) :
    Safe M.exec (useContract M rxQueues txQueues) (Driver.setFlags32 reg flags)
      (fun _ => At M rxQueues txQueues r t m) s := h.modifyPlain hreg ho (or_testBit hflags)

theorem clearFlags32 (h : At M rxQueues txQueues r t m s) (hreg : Plain r reg)
    (ho : Owned rxQueues txQueues reg mask) (hflags : Within flags mask) :
    Safe M.exec (useContract M rxQueues txQueues) (Driver.clearFlags32 reg flags)
      (fun _ => At M rxQueues txQueues r t m) s := h.modifyPlain hreg ho (maskOut_testBit hflags)

theorem setRdt {i : Nat} (h : At M rxQueues txQueues r t m s) (hi : i < rxQueues) (hi' : i < maxQueues)
    (hv : v ≠ 0 → i < m) :
    Safe M.exec (useContract M rxQueues txQueues) (Driver.setReg32 (Ixgbe.rdt i) v)
      (fun _ => At M rxQueues txQueues r t m) s := h.write32 (h.rdt hi hi' hv)

theorem stopRx (h : At M rxQueues txQueues false t m s) :
    Safe M.exec (useContract M rxQueues txQueues)
      (Driver.clearFlags32 Ixgbe.rxctrl Ixgbe.rxctrlRxen) (fun _ => At M rxQueues txQueues true t m) s := by
  refine h.modify fun l hl => ?_
  have hrxen : Within Ixgbe.rxctrlRxen Ixgbe.rxctrlRxen := by decide
  have hbits : KeepsBits card rxQueues txQueues (l ++ [.readReg Ixgbe.rxctrl]) Ixgbe.rxctrl _ :=
    .modify .rxctrl (maskOut_testBit hrxen)
  exact { hl.rxctrl hbits with rxOff := fun _ => ⟨_, _, [], rfl, maskOut_and _ (by decide), nofun⟩ }

theorem startRx (h : At M rxQueues txQueues true t m s) :
    Safe M.exec (useContract M rxQueues txQueues)
      (Driver.setFlags32 Ixgbe.rxctrl Ixgbe.rxctrlRxen) (fun _ => At M rxQueues txQueues false t m) s := by
  have h : At M rxQueues txQueues false t m s := { h with rxOff := nofun }
  exact h.modify fun _ hl => hl.rxctrl (.modify .rxctrl (or_testBit (by decide)))

theorem enableDma (h : At M rxQueues txQueues r false m s) :
    Safe M.exec (useContract M rxQueues txQueues)
      (Driver.setReg32 Ixgbe.dmatxctl Ixgbe.dmatxctlTe) (fun _ => At M rxQueues txQueues r true m) s := by
  have h' := h.plain (v := Ixgbe.dmatxctlTe) (plain_of_le (by decide) (by decide)) (.all .dmatxctl)
  exact h.write32 { h' with txOn := fun _ => List.mem_append_right _ List.mem_cons_self, txOff := nofun }

theorem forRange {lo hi : Nat} {body : Nat → DriverCode Unit} (h : At M rxQueues txQueues r t m s) (hle : lo ≤ hi)
    (hbody : ∀ i < hi, ∀ s, At M rxQueues txQueues r t m s →
      Safe M.exec (useContract M rxQueues txQueues) (body i)
        (fun _ => At M rxQueues txQueues r t m) s) :
    Safe M.exec (useContract M rxQueues txQueues) (Prog.forRange lo hi body)
      (fun _ => At M rxQueues txQueues r t m) s :=
  Safe.forRange (J := fun _ => At M rxQueues txQueues r t m) (fun _ => stable) (fun _ _ _ => trivial)
    (fun i s hi hs => hbody i hi s hs) hle h

/-! ## Code of a queue -/

theorem queueOp {α : Type} {i : Nat} {o : Op} {k : Ret o → Code α} {Q : α → S → Prop}
    (h : At M rxQueues txQueues r t m s) (ho : ∀ r v, o ≠ .setReg r v)
    (hk : ∀ x s, At M rxQueues txQueues r t m s →
      Safe (M.onQueue i) (useContract M rxQueues txQueues) (k x) Q s) :
    Safe (M.onQueue i) (useContract M rxQueues txQueues) (.op o k) Q s := by
  refine Use.op h.ok fun x s' he => hk x s' ?_
  obtain ⟨as, has, hlog⟩ := RegMachine.onQueue_harmless ho he
  rw [At, hlog]
  exact h.accesses has

theorem obeys {α : Type} {i : Nat} {P : Reg → Nat → Prop} {p : Code α} (h : At M rxQueues txQueues r t m s)
    (hp : Obeys (writesOnly P) p fun _ => True)
    (hP : ∀ reg v l, P reg v → Phase card rxQueues txQueues r t m l →
      Phase card rxQueues txQueues r t m (l ++ [.writeReg (reg.offset i) v])) :
    Safe (M.onQueue i) (useContract M rxQueues txQueues) p (fun _ => At M rxQueues txQueues r t m) s := by
  refine (hp.safe stable (fun _ _ => trivial) ?_ (fun _ _ _ => trivial) h).mono fun _ _ h => h.2
  intro o s x s' hs ho he
  refine ⟨trivial, ?_⟩
  by_cases hwrite : ∃ reg v, o = .setReg reg v
  · obtain ⟨reg, v, rfl⟩ := hwrite
    rw [At, M.setReg he]
    exact hP reg v (M.log s) ho hs
  · obtain ⟨as, has, hlog⟩ := RegMachine.onQueue_harmless (fun reg v heq => hwrite ⟨reg, v, heq⟩) he
    rw [At, hlog]
    exact hs.accesses has

theorem setQueue {i : Nat} {q : Reg} (h : At M rxQueues txQueues r t m s)
    (hwrite : ∀ l, Phase card rxQueues txQueues r t m l →
      Phase card rxQueues txQueues r t m (l ++ [.writeReg (q.offset i) v])) :
    Safe (M.onQueue i) (useContract M rxQueues txQueues) (Ixy.setReg32 q v)
      (fun _ => At M rxQueues txQueues r t m) s := by
  have h' := hwrite (M.log s) h
  refine Use.op h.ok fun _ s' he => ?_
  rw [← M.setReg he] at h'
  exact Use.ret h'.ok h'

theorem askQueue {i : Nat} {q : Reg} (h : At M rxQueues txQueues r t m s)
    (hwrite : ∀ l, Phase card rxQueues txQueues r t m (l ++ [.readReg (q.offset i)]) →
      Phase card rxQueues txQueues r t m (l ++ [.readReg (q.offset i)] ++
        [.writeReg (q.offset i) (card.reg l (q.offset i) % 2 ^ 32 ||| flags)])) :
    Safe (M.onQueue i) (useContract M rxQueues txQueues) (Ixy.setFlags32 q flags)
      (fun _ s => At M rxQueues txQueues r t m s ∧ ∃ v, .writeReg (q.offset i) (v ||| flags) ∈ M.log s) s := by
  have hread := h.access (a := .readReg (q.offset i)) nofun
  have hwritten := hwrite (M.log s) hread
  refine Use.op h.ok fun v s₁ he => ?_
  obtain ⟨hv, hlog⟩ := M.getReg he
  rw [← hlog, ← hv] at hwritten
  rw [← hlog] at hread
  refine Use.op hread.ok fun _ s₂ he => ?_
  rw [← M.setReg he] at hwritten
  refine Use.ret hwritten.ok ⟨hwritten, v, ?_⟩
  rw [M.setReg he]
  exact List.mem_append_right _ List.mem_cons_self

theorem confirm (h : At M rxQueues txQueues r t m s) (hconf : RxEnabled card m (M.log s)) :
    At M rxQueues txQueues r t (m + 1) s := by
  refine { h with rxEnabled := fun i hi => ?_ }
  rcases Nat.lt_succ_iff_lt_or_eq.mp hi with hi | rfl
  · exact h.rxEnabled i hi
  · exact hconf

theorem waitSetReg32 {i mask : Nat} {q : Reg} {asks : Access → Prop} (h : At M rxQueues txQueues r t m s)
    (hasked : ∃ a ∈ M.log s, asks a) :
    Safe (M.onQueue i) (useContract M rxQueues txQueues) (Ixy.waitSetReg32 q mask)
      (fun _ s => At M rxQueues txQueues r t m s ∧
        Confirmed card asks (q.offset i) (fun v => v &&& mask == mask) (M.log s)) s := by
  refine Safe.loop (J := fun _ s => At M rxQueues txQueues r t m s ∧ ∃ a ∈ M.log s, asks a)
    (fun _ => stable_use fun _ h => h.1.ok) (fun _ _ _ => trivial) (fun _ s ⟨h, a, ha, hasks⟩ => ?_) ⟨h, hasked⟩
  have h' := h.access (a := .readReg (q.offset i)) nofun
  refine Use.op h.ok fun v s' he => ?_
  obtain ⟨hread, hlog⟩ := M.getReg he
  rw [← hlog] at h'
  have hconf : v &&& mask = mask → Confirmed card asks (q.offset i) (fun v => v &&& mask == mask) (M.log s') := by
    intro hv
    rw [hread] at hv
    rw [hlog]
    exact ⟨M.log s, ⟨a, ha, hasks⟩, List.prefix_refl _, beq_iff_eq.mpr hv⟩
  rw [Prog.ret_bind]
  by_cases hv : v &&& mask = mask
  · rw [if_neg (not_not.mpr hv)]
    exact Use.ret h'.ok (Use.ret h'.ok ⟨h', hconf hv⟩)
  · rw [if_pos hv]
    refine Use.ret h'.ok ⟨h', a, ?_, hasks⟩
    rw [hlog]
    exact List.mem_append_left _ ha

end Phase

theorem onQueue_use {α : Type} {i : Nat} {p : Code α} {Q : α → S → Prop}
    (h : Safe (M.onQueue i) (useContract M rxQueues txQueues) p Q s) :
    Safe M.exec (useContract M rxQueues txQueues) (Driver.onQueue i p) Q s :=
  h.relabel fun _ _ => Option.map_id'.symm

theorem fillRxDescriptors_writes :
    Obeys (writesOnly fun _ _ => False) (Prog.iterate fillRxDescriptor 0) fun _ => True := by
  refine Obeys.loop (J := fun _ => True) (fun j _ => Obeys.op trivial fun n _ => ?_) trivial
  rw [Prog.ret_bind]
  split
  · refine Obeys.op trivial fun descriptors _ => ?_
    refine Obeys.op trivial fun mempool _ => ?_
    refine Obeys.op trivial fun r _ => ?_
    rw [Prog.ret_bind]
    split
    · exact Obeys.abort
    · iterate 4 refine Obeys.op trivial fun _ _ => ?_
      exact Obeys.ret trivial
  · exact Obeys.ret (Obeys.ret trivial)

theorem ixgbeRxPacket_writes : Obeys (writesOnly fun reg _ => reg = .rdt) ixgbeRxPacket fun _ => True := by
  iterate 3 refine Obeys.op trivial fun _ _ => ?_
  rw [Prog.ret_bind]
  split
  · split
    · exact Obeys.abort
    iterate 6 refine Obeys.op trivial fun _ _ => ?_
    rw [Prog.ret_bind]
    split
    · exact Obeys.abort
    iterate 5 refine Obeys.op trivial fun _ _ => ?_
    exact Obeys.op rfl fun _ _ => Obeys.ret trivial
  · exact Obeys.ret trivial

theorem ixgbeTxPacket_writes (buf : Nat) :
    Obeys (writesOnly fun reg _ => reg = .tdt) (ixgbeTxPacket buf) fun _ => True := by
  refine Obeys.op trivial fun cleanIndex _ => ?_
  refine Obeys.op trivial fun curIndex _ => ?_
  refine Obeys.loop (J := fun _ => True) (fun cleanIndex _ => ?_) trivial
  have hpost : ∀ cleanIndex : Nat, Obeys (writesOnly fun reg _ => reg = .tdt) (do
      txSt .cleanIndex cleanIndex
      let n ← txLd .numEntries
      if cleanIndex = incAndWrapRing curIndex n then return 0 else txPost curIndex buf) fun _ => True := by
    intro cleanIndex
    iterate 2 refine Obeys.op trivial fun _ _ => ?_
    rw [Prog.ret_bind]
    split
    · exact Obeys.ret trivial
    · iterate 12 refine Obeys.op trivial fun _ _ => ?_
      exact Obeys.op rfl fun _ _ => Obeys.ret trivial
  unfold txClean
  split
  · iterate 2 refine Obeys.op trivial fun _ _ => ?_
    rw [Prog.ret_bind]
    split
    · iterate 3 refine Obeys.op trivial fun _ _ => ?_
      exact Obeys.ret trivial
    · exact Obeys.ret (hpost cleanIndex)
  · exact Obeys.ret (hpost cleanIndex)

/-! ## Functions that only read -/

/-- The accesses of functions that read registers, and keep what they have read. -/
def readsOnly : Discipline DriverOp DriverRet where
  allows
    | .getReg32 _ | .addStats _ _ _ | .clearStats _ _ | .discard _ => True
    | _ => False
  answers _ _ := True

theorem readsOnly_reads : AllowsReads readsOnly := fun _ => trivial

theorem ixgbeReadStats_reads {order : Driver.ReadOrder} {stats : Option Nat} :
    Obeys readsOnly (Driver.ixgbeReadStats order stats) fun _ => True := by
  refine readsOnly_reads.ixgbeReadStats fun read => ?_
  cases stats with
  | none => exact Obeys.op trivial fun _ _ => Obeys.ret trivial
  | some stats =>
    iterate 4 refine Obeys.op trivial fun _ _ => ?_
    exact Obeys.ret trivial

theorem reads_use {α : Type} {p : DriverCode α} {K : List Access → Prop}
    (hok : ∀ l, K l → WritesOk card rxQueues txQueues l) (hK : ∀ l a, K l → a.Harmless → K (l ++ [a]))
    (h : K (M.log s)) (hp : Obeys readsOnly p fun _ => True) :
    Safe M.exec (useContract M rxQueues txQueues) p (fun _ s => K (M.log s)) s := by
  refine (hp.safe (K := fun s => K (M.log s)) (stable_use fun s h => hok _ h) (fun _ _ => trivial) ?_
    (fun _ _ _ => trivial) h).mono fun _ _ h => h.2
  intro o s x s' hs ho he
  refine ⟨trivial, ?_⟩
  cases o with
  | getReg32 reg =>
    rw [(M.getReg32 he).2]
    exact hK _ _ hs nofun
  | addStats | clearStats | discard =>
    obtain ⟨as, has, hlog⟩ := M.other id he
    rw [hlog]
    exact keeps_accesses hK hs has
  | setReg32 | on | calloc | allocateDma | memset => exact ho.elim

theorem Phase.reads {r t : Bool} {m : Nat} {α : Type} {p : DriverCode α} (h : At M rxQueues txQueues r t m s)
    (hp : Obeys readsOnly p fun _ => True) :
    Safe M.exec (useContract M rxQueues txQueues) p (fun _ => At M rxQueues txQueues r t m) s :=
  reads_use (fun _ h => h.ok) (fun _ _ h ha => h.access ha) h hp

/-! ## The reset -/

/-- Before the reset has been confirmed, nothing but EIMC and CTRL is written. -/
structure Resetting (card : Card) (rxQueues txQueues : Nat) (l : List Access) : Prop where
  ok : WritesOk card rxQueues txQueues l
  txOff : ∀ i < maxQueues, ∀ a ∈ l, ¬ enablesTx i a

section
variable {l : List Access} {reg v : Nat} {a : Access}

theorem Resetting.access (h : Resetting card rxQueues txQueues l) (ha : a.Harmless) :
    Resetting card rxQueues txQueues (l ++ [a]) := by
  refine ⟨h.ok.access ha, fun i hi b hb => ?_⟩
  rcases List.mem_append.mp hb with hb | hb
  · exact h.txOff i hi b hb
  · rw [List.mem_singleton.mp hb]
    exact ha.not_enablesTx i

theorem Resetting.start {as : List Access} (h : ∀ a ∈ as, a.Harmless) : Resetting card rxQueues txQueues as := by
  refine ⟨fun reg v pre a post heq ha => ?_, fun i hi a ha => (h a ha).not_enablesTx i⟩
  subst heq ha
  exact absurd rfl (h _ (List.mem_append_right _ List.mem_cons_self) reg v)

theorem Resetting.write (h : Resetting card rxQueues txQueues l) (hreg : reg = Ixgbe.eimc ∨ reg = Ixgbe.ctrl)
    (v : Nat) : Resetting card rxQueues txQueues (l ++ [.writeReg reg v]) := by
  have hlow : reg < 0x1000 := by
    rcases hreg with rfl | rfl <;> decide
  have hquiet : QuietReg reg := quietReg_of_outside (Or.inl hlow) (by omega)
  have howned : Owned rxQueues txQueues reg allBits := by
    rcases hreg with rfl | rfl
    · exact .eimc
    · exact .ctrl
  refine ⟨h.ok.write ⟨.all howned, fun heimc hctrl => (hreg.elim heimc hctrl).elim, fun hsetup => ?_,
    fun i hi heq => absurd heq (hquiet i hi).2.2, fun _ i hi heq => absurd heq (hquiet i hi).2.1⟩, fun i hi a ha => ?_⟩
  · exact absurd hsetup.ge (by omega)
  · rcases List.mem_append.mp ha with ha | ha
    · exact h.txOff i hi a ha
    · rw [List.mem_singleton.mp ha]
      exact (hquiet.quiet v i hi).2.1

/-- The reset has been asked for, and each of `confirmed` has been seen. -/
structure ResetAsked (card : Card) (rxQueues txQueues : Nat) (confirmed : List (Nat × (Nat → Bool))) (l : List Access) :
    Prop extends Resetting card rxQueues txQueues l where
  asked : ∃ a ∈ l, asksReset a
  confirmed : ∀ c ∈ confirmed, Confirmed card asksReset c.1 c.2 l

variable {confirmed : List (Nat × (Nat → Bool))}

theorem ResetAsked.step (h : ResetAsked card rxQueues txQueues confirmed l)
    (h' : Resetting card rxQueues txQueues (l ++ [a])) : ResetAsked card rxQueues txQueues confirmed (l ++ [a]) := by
  obtain ⟨b, hb, hasks⟩ := h.asked
  exact ⟨h', ⟨b, List.mem_append_left _ hb, hasks⟩, fun c hc => (h.confirmed c hc).concat a⟩

theorem ResetAsked.access (h : ResetAsked card rxQueues txQueues confirmed l) (ha : a.Harmless) :
    ResetAsked card rxQueues txQueues confirmed (l ++ [a]) := h.step (h.toResetting.access ha)

end

theorem poll_use {reg : Nat} {wanted : Nat → Bool} {confirmed : List (Nat × (Nat → Bool))}
    (h : ResetAsked card rxQueues txQueues confirmed (M.log s)) :
    Safe M.exec (useContract M rxQueues txQueues) (Driver.pollReg32 reg wanted)
      (fun _ s => ResetAsked card rxQueues txQueues ((reg, wanted) :: confirmed) (M.log s)) s := by
  refine Safe.loop (J := fun reg' s => reg' = reg ∧ ResetAsked card rxQueues txQueues confirmed (M.log s))
    (fun _ => stable_use fun s h => h.2.ok) (fun _ _ _ => trivial) (fun reg' s ⟨hreg, h⟩ => ?_) ⟨rfl, h⟩
  subst hreg
  have h' := h.access (a := .readReg reg') nofun
  refine Use.op h.ok fun v s' he => ?_
  obtain ⟨hread, hlog⟩ := M.getReg32 he
  have hconf : wanted v = true → Confirmed card asksReset reg' wanted (M.log s') := by
    intro hv
    rw [hread] at hv
    rw [hlog]
    exact ⟨M.log s, h.asked, List.prefix_refl _, hv⟩
  rw [← hlog] at h'
  rw [Prog.ret_bind]
  split
  · rename_i hv
    exact Use.ret h'.ok (Use.ret h'.ok { h' with confirmed := List.forall_mem_cons.mpr ⟨hconf hv, h'.confirmed⟩ })
  · exact Use.ret h'.ok ⟨rfl, h'⟩

theorem set_use {reg v : Nat} {K L : List Access → Prop} (hok : ∀ l, K l → WritesOk card rxQueues txQueues l)
    (hok' : ∀ l, L l → WritesOk card rxQueues txQueues l) (hK : ∀ l, K l → L (l ++ [.writeReg reg v]))
    (h : K (M.log s)) :
    Safe M.exec (useContract M rxQueues txQueues) (Driver.setReg32 reg v) (fun _ s => L (M.log s)) s := by
  have h' := hK _ h
  refine Use.op (hok _ h) fun _ s' he => ?_
  rw [← M.setReg32 he] at h'
  exact Use.ret (hok' _ h') h'

theorem Driver.reset_use (h : Resetting card rxQueues txQueues (M.log s)) :
    Safe M.exec (useContract M rxQueues txQueues) Driver.reset
      (fun _ => Phase.At M rxQueues txQueues false false 0) s := by
  refine (reads_use (fun _ h => h.ok) (fun _ _ h ha => h.access ha) h readsOnly_reads.scanRegs).seq fun _ s h => ?_
  refine (set_use (L := Resetting card rxQueues txQueues) (fun _ h => h.ok) (fun _ h => h.ok)
    (fun _ h => h.write (Or.inl rfl) _) h).seq fun _ s h => ?_
  refine (set_use (L := ResetAsked card rxQueues txQueues []) (fun _ h => h.ok) (fun _ h => h.ok) (fun l h => ?_)
    h).seq fun _ s h => ?_
  · exact ⟨h.write (Or.inr rfl) _, ⟨_, List.mem_append_right _ List.mem_cons_self, rfl⟩, nofun⟩
  refine (poll_use h).seq fun _ s h => ?_
  refine (set_use (L := ResetAsked card rxQueues txQueues _) (fun _ h => h.ok) (fun _ h => h.ok)
    (fun _ h => h.step (h.toResetting.write (Or.inl rfl) _)) h).seq fun _ s h => ?_
  refine (reads_use (fun _ h => h.ok) (fun _ _ h ha => h.access ha) h readsOnly_reads.scanRegs).seq fun _ s h => ?_
  refine (poll_use h).seq fun _ s h => ?_
  refine (poll_use h).mono fun _ s h => ?_
  refine ⟨h.ok, ⟨h.confirmed (Ixgbe.ctrl, _) ?_, h.confirmed (Ixgbe.eec, _) ?_, h.confirmed (Ixgbe.rdrxctl, _) ?_⟩,
    nofun, nofun, fun _ _ => h.txOff, nofun⟩
  · exact List.mem_cons_of_mem _ (List.mem_cons_of_mem _ List.mem_cons_self)
  · exact List.mem_cons_of_mem _ List.mem_cons_self
  · exact List.mem_cons_self

/-! ## The initialisation -/

section
variable {r t : Bool} {m i : Nat}

theorem Driver.initLink_use (h : Phase.At M rxQueues txQueues r t m s) :
    Safe M.exec (useContract M rxQueues txQueues) Driver.initLink
      (fun _ => Phase.At M rxQueues txQueues r t m) s := by
  have hreg : Plain r Ixgbe.autoc := plain_of_le (by decide) (by decide)
  have hmask : ∀ {clear set : Nat}, Within clear autocMask → Within set autocMask → ∀ v, ∀ k < 32,
      autocMask.testBit k = false → (maskOut v clear ||| set).testBit k = v.testBit k :=
    fun hclear hset v k hk hbit => (or_testBit hset _ k hk hbit).trans (maskOut_testBit hclear v k hk hbit)
  refine h.modify_then hreg .autoc (hmask (by decide) (by decide)) fun s h => ?_
  refine h.modify_then hreg .autoc (hmask (by decide) (by decide)) fun s h => ?_
  exact h.setFlags32 hreg .autoc (by decide)

theorem Driver.initRxQueue_use (hi : i < rxQueues) (hq : rxQueues ≤ maxQueues)
    (h : Phase.At M rxQueues txQueues true t m s) :
    Safe M.exec (useContract M rxQueues txQueues) (Driver.initRxQueue i)
      (fun _ => Phase.At M rxQueues txQueues true t m) s := by
  have hi' : i < maxQueues := by omega
  have hsrrctl : Plain true (Ixgbe.srrctl i) := by
    unfold Ixgbe.srrctl
    split
    · refine plain_of_quiet (quietReg_of_outside (by omega) (by omega)) ?_
      rw [Ixgbe.rxctrl]
      omega
    · exact plain_rxBlock hi' 0x14 (by decide) (by decide) (by decide)
  have hring : ∀ offset ∈ [0x00, 0x04, 0x08, 0x10], Plain true (Ixgbe.rxBlock i offset) ∧
      Owned rxQueues txQueues (Ixgbe.rxBlock i offset) allBits := by
    intro offset hoffset
    simp only [List.mem_cons, List.not_mem_nil, or_false] at hoffset
    refine ⟨plain_rxBlock hi' offset (by omega) (by omega) (by omega), .rxRing i offset hi ?_⟩
    simp only [List.mem_cons, List.not_mem_nil, or_false]
    omega
  refine h.modify_then hsrrctl (.srrctl i hi) (fun v k hk hbit => ?_) fun s h => ?_
  · exact (or_testBit (by decide) _ k hk hbit).trans (maskOut_testBit (by decide) v k hk hbit)
  refine (h.setFlags32 hsrrctl (.srrctl i hi) (by decide)).seq fun _ s h => ?_
  refine (h.accessOther id).seq fun mem s h => ?_
  refine (h.accessOther id).seq fun _ s h => ?_
  refine (h.setReg32 (hring 0x00 (by decide)).1 (hring 0x00 (by decide)).2).seq fun _ s h => ?_
  refine (h.setReg32 (hring 0x04 (by decide)).1 (hring 0x04 (by decide)).2).seq fun _ s h => ?_
  refine (h.setReg32 (hring 0x08 (by decide)).1 (hring 0x08 (by decide)).2).seq fun _ s h => ?_
  refine (h.setReg32 (hring 0x10 (by decide)).1 (hring 0x10 (by decide)).2).seq fun _ s h => ?_
  refine (h.setRdt hi hi' fun h0 => absurd rfl h0).seq fun _ s h => ?_
  refine onQueue_use ?_
  refine h.queueOp (fun _ _ => Op.noConfusion) fun _ s h => ?_
  refine h.queueOp (fun _ _ => Op.noConfusion) fun _ s h => ?_
  exact h.queueOp (fun _ _ => Op.noConfusion) fun _ s h => Use.ret h.ok h

theorem Driver.initRx_use (hq : rxQueues ≤ maxQueues) (h : Phase.At M rxQueues txQueues false t m s) :
    Safe M.exec (useContract M rxQueues txQueues) (Driver.initRx rxQueues)
      (fun _ => Phase.At M rxQueues txQueues false t m) s := by
  have hpbsize : ∀ i < 8, Plain true (Ixgbe.rxpbsize i) := by
    intro i hi
    refine plain_of_quiet (quietReg_of_outside ?_ ?_) ?_
    all_goals
      rw [Ixgbe.rxpbsize]
      try rw [Ixgbe.rxctrl]
      omega
  refine h.stopRx.seq fun _ s h => ?_
  refine (h.setReg32 (hpbsize 0 (by decide)) (.rxpbsize 0 (by decide))).seq fun _ s h => ?_
  refine (h.forRange (by decide) fun i hi s h => h.setReg32 (hpbsize i hi) (.rxpbsize i hi)).seq fun _ s h => ?_
  refine (h.setFlags32 (plain_of_le (by decide) (by decide)) .hlreg0 (by decide)).seq fun _ s h => ?_
  refine (h.setFlags32 (plain_of_quiet (quietReg_of_outside (by decide) (by decide)) (by decide)) .rdrxctl
    (by decide)).seq fun _ s h => ?_
  refine (h.setFlags32 (plain_of_le (by decide) (by decide)) .fctrl (by decide)).seq fun _ s h => ?_
  refine (h.forRange (Nat.zero_le _) fun i hi s h => initRxQueue_use hi hq h).seq fun _ s h => ?_
  refine (h.setFlags32 (plain_of_quiet (quietReg_of_outside (by decide) (by decide)) (by decide)) .ctrlExt
    (by decide)).seq fun _ s h => ?_
  refine (h.forRange (Nat.zero_le _) fun i hi s h => h.clearFlags32 ?_ (.dcaRxctrl i hi) (by decide)).seq
    fun _ s h => ?_
  · unfold Ixgbe.dcaRxctrl
    split
    · refine plain_of_quiet (quietReg_of_outside (by omega) (by omega)) ?_
      rw [Ixgbe.rxctrl]
      omega
    · exact plain_rxBlock (by omega) 0x0C (by decide) (by decide) (by decide)
  exact h.startRx

theorem Driver.initTxQueue_use (hi : i < rxQueues) (hq : rxQueues ≤ maxQueues)
    (h : Phase.At M rxQueues txQueues r false m s) :
    Safe M.exec (useContract M rxQueues txQueues) (Driver.initTxQueueWith Driver.txThresholds i)
      (fun _ => Phase.At M rxQueues txQueues r false m) s := by
  have hi' : i < maxQueues := by omega
  have hmax : i < max rxQueues txQueues := Nat.lt_of_lt_of_le hi (Nat.le_max_left _ _)
  refine (h.accessOther id).seq fun mem s h => ?_
  refine (h.accessOther id).seq fun _ s h => ?_
  refine (h.write32 (h.txRing hmax hi' 0x00 (by decide))).seq fun _ s h => ?_
  refine (h.write32 (h.txRing hmax hi' 0x04 (by decide))).seq fun _ s h => ?_
  refine (h.write32 (h.txRing hmax hi' 0x08 (by decide))).seq fun _ s h => ?_
  have hthresholds : Safe M.exec (useContract M rxQueues txQueues)
      ((getReg32 (Ixgbe.txdctl i)).bind fun v => setReg32 (Ixgbe.txdctl i) (txThresholds v))
      (fun _ => Phase.At M rxQueues txQueues r false m) s := by
    refine h.modify fun l hl => ?_
    refine Phase.txdctl hl hi' (.modify (.txdctl i hmax) txThresholds_testBit) fun _ hcard => ?_
    rw [txThresholds_enable]
    exact hcard l i hi' fun a ha => hl.txOff rfl hcard i hi' a (List.mem_append_left _ ha)
  refine hthresholds.seq fun _ s h => onQueue_use ?_
  refine h.queueOp nofun fun _ s h => ?_
  exact h.queueOp nofun fun _ s h => Use.ret h.ok h

theorem Driver.initTx_use (hq : rxQueues ≤ maxQueues) (h : Phase.At M rxQueues txQueues r false m s) :
    Safe M.exec (useContract M rxQueues txQueues) (Driver.initTx rxQueues)
      (fun _ => Phase.At M rxQueues txQueues r true m) s := by
  have hpbsize : ∀ i < 8, Plain r (Ixgbe.txpbsize i) := fun i hi => by
    refine plain_of_le ?_ ?_
    all_goals
      rw [Ixgbe.txpbsize]
      omega
  have hreg : ∀ {reg : Nat}, 0x4000 ≤ reg ∧ (reg < 0x6000 ∨ 0x7000 ≤ reg) → Plain r reg :=
    fun h => plain_of_le h.1 h.2
  refine (h.setFlags32 (hreg (by decide)) .hlreg0 (by decide)).seq fun _ s h => ?_
  refine (h.setReg32 (hpbsize 0 (by decide)) (.txpbsize 0 (by decide))).seq fun _ s h => ?_
  refine (h.forRange (by decide) fun i hi s h => h.setReg32 (hpbsize i hi) (.txpbsize i hi)).seq fun _ s h => ?_
  refine (h.setReg32 (hreg (by decide)) .dtxmxszrq).seq fun _ s h => ?_
  refine (h.clearFlags32 (hreg (by decide)) .rttdcs (by decide)).seq fun _ s h => ?_
  refine (h.forRange (Nat.zero_le _) fun i hi s h => initTxQueue_use hi hq h).seq fun _ s h => ?_
  exact h.enableDma

theorem Driver.startRxQueue_use (hm : m < rxQueues) (hq : rxQueues ≤ maxQueues)
    (h : Phase.At M rxQueues txQueues false t m s) :
    Safe (M.onQueue m) (useContract M rxQueues txQueues) startRxQueue
      (fun _ => Phase.At M rxQueues txQueues false t (m + 1)) s := by
  have hm' : m < maxQueues := by omega
  refine h.queueOp nofun fun mempool s h => ?_
  refine h.queueOp nofun fun _ s h => ?_
  refine h.queueOp nofun fun n s h => ?_
  rw [Prog.ret_bind]
  split
  · exact Use.abort h.ok
  refine (h.obeys fillRxDescriptors_writes fun _ _ _ hF => hF.elim).seq fun _ s h => ?_
  refine (h.askQueue fun l hl => hl.rxdctl hm hm').seq fun _ s ⟨h, v, hasked⟩ => ?_
  have hasked : ∃ a ∈ M.log s, enablesRx m a := ⟨_, hasked, rfl, by rw [or_and_self_right]; decide⟩
  refine (h.waitSetReg32 hasked).seq fun _ s ⟨h, hconf⟩ => ?_
  have h : Phase.At M rxQueues txQueues false t (m + 1) s := h.confirm hconf
  refine (h.setQueue fun _ hl => hl.plain (plain_rdh hm') (.all (.rxRing m 0x10 hm (by decide)))).seq fun _ s h => ?_
  refine h.queueOp nofun fun n s h => ?_
  exact h.setQueue fun _ hl => hl.rdt hm hm' fun _ => Nat.lt_succ_self m

theorem Driver.startTxQueue_use (hi : i < max rxQueues txQueues) (hi' : i < maxQueues)
    (h : Phase.At M rxQueues txQueues r true m s) :
    Safe (M.onQueue i) (useContract M rxQueues txQueues) startTxQueue
      (fun _ => Phase.At M rxQueues txQueues r true m) s := by
  refine h.queueOp nofun fun n s h => ?_
  rw [Prog.ret_bind]
  split
  · exact Use.abort h.ok
  refine (h.setQueue (q := .tdh) fun _ hl => hl.txRing hi hi' 0x10 (by decide)).seq fun _ s h => ?_
  refine (h.setQueue (q := .tdt) fun _ hl => hl.txRing hi hi' 0x18 (by decide)).seq fun _ s h => ?_
  refine (h.askQueue (q := .txdctl) fun l hl => ?_).seq fun _ s ⟨h, v, hasked⟩ => ?_
  · exact hl.txdctl hi' (.modify (.txdctl i hi) (or_testBit (by decide))) nofun
  · have hany : ∃ a, a ∈ M.log s ∧ True := ⟨_, hasked, trivial⟩
    exact (h.waitSetReg32 hany).mono fun _ _ h => h.1

theorem Driver.ixgbeSetPromisc_use {enabled : Bool} (h : Phase.At M rxQueues txQueues r t m s) :
    Safe M.exec (useContract M rxQueues txQueues) (Driver.ixgbeSetPromisc enabled)
      (fun _ => Phase.At M rxQueues txQueues r t m) s := by
  have hreg : Plain r Ixgbe.fctrl := plain_of_le (by decide) (by decide)
  cases enabled with
  | true => exact h.setFlags32 hreg .fctrl (by decide)
  | false => exact h.clearFlags32 hreg .fctrl (by decide)

theorem Driver.ixgbeInit_use {order : ReadOrder} (hlog : M.log s = []) :
    Safe M.exec (useContract M rxQueues txQueues) (Driver.ixgbeInit order rxQueues txQueues)
      (fun _ s => Phase.At M rxQueues txQueues false true rxQueues s ∧ rxQueues ≤ maxQueues ∧
        txQueues ≤ maxQueues) s := by
  have hnil : WritesOk card rxQueues txQueues (M.log s) := by
    rw [hlog]
    exact fun _ _ => Before.nil
  unfold Driver.ixgbeInit
  split
  · exact Use.abort hnil
  split
  · exact Use.abort hnil
  rename_i hrx htx
  have hrx : rxQueues ≤ maxQueues := by omega
  have htx : txQueues ≤ maxQueues := by omega
  refine Use.op hnil fun _ s' he => ?_
  obtain ⟨as, has, hlog'⟩ := M.other id he
  have h : Resetting card rxQueues txQueues (M.log s') := by
    rw [hlog', hlog]
    exact .start has
  refine (Driver.reset_use h).seq fun _ s h => ?_
  refine (initLink_use h).seq fun _ s h => ?_
  refine (h.reads ixgbeReadStats_reads).seq fun _ s h => ?_
  refine (initRx_use hrx h).seq fun _ s h => ?_
  refine (initTx_use hrx h).seq fun _ s h => ?_
  refine (Safe.forRange (J := fun m => Phase.At M rxQueues txQueues false true m) (fun _ => Phase.stable)
    (fun _ _ _ => trivial) (fun i s hi h => onQueue_use (startRxQueue_use hi hrx h)) (Nat.zero_le _) h).seq
    fun _ s h => ?_
  refine (h.forRange (Nat.zero_le _) fun i hi s h => onQueue_use (startTxQueue_use ?_ (by omega) h)).seq
    fun _ s h => ?_
  · exact Nat.lt_of_lt_of_le hi (Nat.le_max_right _ _)
  refine (ixgbeSetPromisc_use h).seq fun _ s h => ?_
  exact (h.reads readsOnly_reads.waitForLink).mono fun _ s h => ⟨h, hrx, htx⟩

/-! ## Operations after the initialisation -/

/-- The call is for a queue that exists. -/
def DriverCall.Valid (rxQueues txQueues : Nat) : DriverCall → Prop
  | .rxPacket i => i < rxQueues
  | .txPacket i _ => i < txQueues
  | _ => True

theorem Driver.call_use {order : ReadOrder} {c : DriverCall} (hc : c.Valid rxQueues txQueues)
    (hrx : rxQueues ≤ maxQueues) (htx : txQueues ≤ maxQueues)
    (h : Phase.At M rxQueues txQueues false true rxQueues s) :
    Safe M.exec (useContract M rxQueues txQueues) (Driver.call order c)
      (fun _ => Phase.At M rxQueues txQueues false true rxQueues) s := by
  cases c with
  | rxPacket i =>
    have hi : i < rxQueues := hc
    refine Safe.seq (onQueue_use (h.obeys ixgbeRxPacket_writes fun reg v l hreg hl => ?_)) fun _ s h => Use.ret h.ok h
    subst hreg
    exact hl.rdt hi (by omega) fun _ => hi
  | txPacket i buf =>
    have hi : i < txQueues := hc
    refine Safe.seq (onQueue_use (h.obeys (ixgbeTxPacket_writes buf) fun reg v l hreg hl => ?_))
      fun _ s h => Use.ret h.ok h
    subst hreg
    exact hl.txRing (Nat.lt_of_lt_of_le hi (Nat.le_max_right _ _)) (by omega) 0x18 (by decide)
  | setPromisc enabled => exact (ixgbeSetPromisc_use h).seq fun _ s h => Use.ret h.ok h
  | getLinkSpeed => exact (h.reads readsOnly_reads.ixgbeGetLinkSpeed).seq fun _ s h => Use.ret h.ok h
  | readStats stats => exact (h.reads ixgbeReadStats_reads).seq fun _ s h => Use.ret h.ok h

theorem Driver.calls_use {order : ReadOrder} {cs : List DriverCall} (hcs : ∀ c ∈ cs, c.Valid rxQueues txQueues)
    (hrx : rxQueues ≤ maxQueues) (htx : txQueues ≤ maxQueues)
    (h : Phase.At M rxQueues txQueues false true rxQueues s) :
    Safe M.exec (useContract M rxQueues txQueues) (Driver.calls order cs)
      (fun _ => Phase.At M rxQueues txQueues false true rxQueues) s := by
  induction cs generalizing s with
  | nil => exact Use.ret h.ok h
  | cons c cs ih =>
    refine (call_use (hcs c List.mem_cons_self) hrx htx h).seq fun result s h => ?_
    refine Safe.seq (ih (fun c hc => hcs c (List.mem_cons_of_mem _ hc)) h) fun results s h => ?_
    exact Use.ret h.ok h

end

/-- The driver from its start: `ixgbe_init`, and calls after it. -/
def Driver.session (order : ReadOrder) (rxQueues txQueues : Nat) (cs : List DriverCall) :
    DriverCode (List CallResult) := do
  ixgbeInit order rxQueues txQueues
  calls order cs

/-- Wherever the driver is, all its writes were right. -/
theorem Driver.session_writesOk {order : ReadOrder} {cs : List DriverCall} {s' : S} (hlog : M.log s = [])
    (hcs : ∀ c ∈ cs, c.Valid rxQueues txQueues)
    (hreach : Prog.Reaches M.exec (Driver.session order rxQueues txQueues cs) s s') :
    WritesOk card rxQueues txQueues (M.log s') := by
  have hsafe : Safe M.exec (useContract M rxQueues txQueues)
      (Driver.session order rxQueues txQueues cs) (fun _ _ => True) s := by
    refine (ixgbeInit_use hlog).seq fun _ s ⟨h, hrx, htx⟩ => ?_
    exact (calls_use hcs hrx htx h).mono fun _ _ _ => trivial
  exact hsafe.reaches hreach

end

/-! ## What the driver does not own -/

/-- What has last been written to a register. -/
def lastWritten (reg init : Nat) (l : List Access) : Nat :=
  l.foldl (fun v a => match a with
    | .writeReg reg' v' => if reg' = reg then v' else v
    | _ => v) init

/-- A register that holds what is written to it. -/
def Card.Keeps (card : Card) (reg init : Nat) : Prop := ∀ l, card.reg l reg = lastWritten reg init l

section
variable {card : Card} {rxQueues txQueues reg init k : Nat} {l : List Access}

theorem lastWritten_concat (l : List Access) (a : Access) : lastWritten reg init (l ++ [a]) =
    match a with
    | .writeReg reg' v' => if reg' = reg then v' else lastWritten reg init l
    | _ => lastWritten reg init l := by
  rw [lastWritten, List.foldl_append]
  rfl

/-- A bit that is not the driver's has the value that it had at the start. -/
theorem WritesOk.testBit_lastWritten (hreg : card.Keeps reg init) (hk : k < 32)
    (hfree : ∀ mask, Owned rxQueues txQueues reg mask → mask.testBit k = false)
    (h : WritesOk card rxQueues txQueues l) : (lastWritten reg init l).testBit k = init.testBit k := by
  -- a write repeats a bit that has just been read, so the induction is over the accesses
  induction l using List.reverseRecOn with
  | nil => rfl
  | append_singleton l a ih =>
    have ih := ih fun reg' v pre e post heq => h reg' v pre e (post ++ [a]) (by rw [heq]; simp)
    rw [lastWritten_concat]
    cases a with
    | writeReg reg' v =>
      by_cases heq : reg' = reg
      · subst heq
        obtain ⟨mask, howned, hbits⟩ := (h reg' v l _ [] rfl rfl).bits
        obtain ⟨l', rfl, hv⟩ := hbits k hk (hfree mask howned)
        rw [lastWritten_concat] at ih
        simp only [if_true]
        rw [hv, hreg l']
        exact ih
      · simp only [if_neg heq]
        exact ih
    | readReg | readRxStatus | readRxDesc | writeRxDesc | readTxDesc | writeTxDesc | fill => exact ih

end

section
variable {card : Card} {S : Type} {M : RegMachine card S} {rxQueues txQueues : Nat} {s s' : S}
variable {order : Driver.ReadOrder} {cs : List DriverCall}

/-- **Main result.** The driver never changes a bit that it does not own. -/
theorem session_keeps_bits {reg init k : Nat} (hlog : M.log s = []) (hcs : ∀ c ∈ cs, c.Valid rxQueues txQueues)
    (hreg : card.Keeps reg init) (hk : k < 32)
    (hfree : ∀ mask, Owned rxQueues txQueues reg mask → mask.testBit k = false)
    (hreach : Prog.Reaches M.exec (Driver.session order rxQueues txQueues cs) s s') :
    (card.reg (M.log s') reg).testBit k = init.testBit k := by
  rw [hreg]
  exact (Driver.session_writesOk hlog hcs hreach).testBit_lastWritten hreg hk hfree

end

/-! ## The driver's own memory -/

theorem execOnQueue_harmless {card : Card} {i : Nat} {o : Op} {s s' : DriverState} {x : Ret o}
    (ho : ¬ (DriverOp.on i o).OnReg) (he : execOnQueue card i o s = some (x, s')) :
    ∃ as : List Access, (∀ a ∈ as, a.Harmless) ∧ s'.log = s.log ++ as := by
  have hsilent : s'.log = s.log → ∃ as : List Access, (∀ a ∈ as, a.Harmless) ∧ s'.log = s.log ++ as :=
    fun hlog => ⟨[], nofun, by rw [hlog, List.append_nil]⟩
  have hone : ∀ a : Access, a.Harmless → s'.log = s.log ++ [a] →
      ∃ as : List Access, (∀ a ∈ as, a.Harmless) ∧ s'.log = s.log ++ as :=
    fun a ha hlog => ⟨[a], fun b hb => (List.mem_singleton.mp hb).symm ▸ ha, hlog⟩
  cases o with
  | setReg | getReg => exact absurd trivial ho
  | poolNew numEntries entrySize =>
    rw [execOnQueue] at he
    split at he
    · cases he
    · cases he
      exact hsilent rfl
  | rxDescLd a w =>
    cases w <;>
    · cases he
      exact hone (.readRxDesc a _) (fun _ _ => Access.noConfusion) rfl
  | rxDescStatus a =>
    cases he
    exact hone (.readRxStatus a) (fun _ _ => Access.noConfusion) rfl
  | rxDescSt a w v =>
    cases he
    exact hone (.writeRxDesc a w v) (fun _ _ => Access.noConfusion) rfl
  | txDescStatus a =>
    cases he
    exact hone (.readTxDesc a) (fun _ _ => Access.noConfusion) rfl
  | txDescSt a w v =>
    cases he
    exact hone (.writeTxDesc a w v) (fun _ _ => Access.noConfusion) rfl
  | rxLd | rxSt | txLd | txSt | bufLd | bufSt | alloc | free | reclaim =>
    cases he
    exact hsilent rfl
  | dataSt | nextRx | nextTx | write | idle | txCall | rxReturn | txReturn => cases he

/-- The machine with a record for every queue. -/
def Card.machine (card : Card) : RegMachine card DriverState where
  exec := execDriver card
  log := DriverState.log
  getReg32 he := by
    cases he
    exact ⟨rfl, rfl⟩
  setReg32 he := by
    cases he
    rfl
  getReg he := by
    cases he
    exact ⟨rfl, rfl⟩
  setReg he := by
    cases he
    rfl
  other {o s r s'} ho he := by
    cases o with
    | getReg32 | setReg32 => exact absurd trivial ho
    | on i o => exact execOnQueue_harmless ho he
    | allocateDma size =>
      obtain ⟨rest, -, rfl⟩ := exec_allocateDma he
      exact ⟨[], nofun, (List.append_nil _).symm⟩
    | memset virt size =>
      cases he
      refine ⟨[.fill virt size], fun a ha => ?_, rfl⟩
      rw [List.mem_singleton.mp ha]
      nofun
    | calloc | addStats | clearStats | discard =>
      cases he
      exact ⟨[], nofun, (List.append_nil _).symm⟩

/-- The driver with the structs of its queues in their areas of memory, where they overlap. -/
structure AreaState where
  driver : DriverState
  rxArea : Mem
  txArea : Mem

/-- The accesses to the structs go to the areas. -/
def execAreas (card : Card) : (o : DriverOp) → AreaState → Option (DriverRet o × AreaState)
  | .on i (.rxLd f), s => some (load f.width s.rxArea (rxOffset i f), s)
  | .on i (.rxSt f v), s => some ((), { s with rxArea := store f.width s.rxArea (rxOffset i f) v })
  | .on i (.txLd f), s => some (load f.width s.txArea (txOffset i f), s)
  | .on i (.txSt f v), s => some ((), { s with txArea := store f.width s.txArea (txOffset i f) v })
  | .calloc rxQueues txQueues, s => some ((), ⟨s.driver.calloc rxQueues txQueues, fun _ => 0, fun _ => 0⟩)
  | o, s => (execDriver card o s.driver).map fun r => (r.1, { s with driver := r.2 })

def Card.areas (card : Card) : RegMachine card AreaState where
  exec := execAreas card
  log s := s.driver.log
  getReg32 he := by
    cases he
    exact ⟨rfl, rfl⟩
  setReg32 he := by
    cases he
    rfl
  getReg he := by
    cases he
    exact ⟨rfl, rfl⟩
  setReg he := by
    cases he
    rfl
  other {o s r s'} ho he := by
    have hother : (execDriver card o s.driver).map (fun r => (r.1, { s with driver := r.2 })) = some (r, s') →
        ∃ as : List Access, (∀ a ∈ as, a.Harmless) ∧ s'.driver.log = s.driver.log ++ as := by
      intro he
      obtain ⟨⟨x, u⟩, hu, heq⟩ := Option.map_eq_some_iff.mp he
      cases heq
      exact card.machine.other ho hu
    have hsilent : s'.driver.log = s.driver.log →
        ∃ as : List Access, (∀ a ∈ as, a.Harmless) ∧ s'.driver.log = s.driver.log ++ as :=
      fun hlog => ⟨[], nofun, by rw [hlog, List.append_nil]⟩
    cases o with
    | on i o =>
      cases o with
      | rxLd | rxSt | txLd | txSt =>
        cases he
        exact hsilent rfl
      | _ => exact hother he
    | calloc =>
      cases he
      exact hsilent rfl
    | _ => exact hother he

/-- The rules are kept with several queues as well, whatever becomes of their structs. -/
theorem areas_writesOk {card : Card} {order : Driver.ReadOrder} {rxQueues txQueues : Nat} {cs : List DriverCall}
    {s s' : AreaState} (hlog : s.driver.log = []) (hcs : ∀ c ∈ cs, c.Valid rxQueues txQueues)
    (hreach : Prog.Reaches (execAreas card) (Driver.session order rxQueues txQueues cs) s s') :
    WritesOk card rxQueues txQueues s'.driver.log :=
  Driver.session_writesOk (M := card.areas) hlog hcs hreach

/-! ## A card that keeps FCTRL -/

/-- Does the access enable the queue of this TXDCTL register? -/
def Access.enables (reg : Nat) : Access → Bool
  | .writeReg reg' v => reg' == reg && v &&& queueEnable != 0
  | _ => false

/-- A card that is always ready. FCTRL keeps what is written to it, and transmit queues are off until they are
enabled. -/
def politeCard : Card where
  reg l reg :=
    if reg = Ixgbe.ctrl then 0
    else if reg = Ixgbe.fctrl then lastWritten Ixgbe.fctrl 0x80000003 l
    else if 0x6000 ≤ reg ∧ reg < 0x7000 ∧ l.any (Access.enables reg) = false then 0
    else 0xFFFFFFFF
  rxDesc _ _ := ⟨0, 0⟩
  txDesc _ _ := ⟨0, 0, 0⟩

theorem politeCard_reg {reg : Nat} (hctrl : reg ≠ Ixgbe.ctrl) (hfctrl : reg ≠ Ixgbe.fctrl)
    (htx : reg < 0x6000 ∨ 0x7000 ≤ reg) (l : List Access) : politeCard.reg l reg % 2 ^ 32 = 0xFFFFFFFF := by
  simp only [politeCard, if_neg hctrl, if_neg hfctrl]
  rw [if_neg (by omega)]
  decide

theorem politeCard_keeps : politeCard.Keeps Ixgbe.fctrl 0x80000003 := fun _ => rfl

theorem politeCard_txdctl {i : Nat} (hi : i < maxQueues) (l : List Access) :
    politeCard.reg l (Ixgbe.txdctl i) = if l.any (Access.enables (Ixgbe.txdctl i)) = false then 0 else 0xFFFFFFFF := by
  have hbounds : 0x6000 ≤ Ixgbe.txdctl i ∧ Ixgbe.txdctl i < 0x7000 := by
    rw [Ixgbe.txdctl]
    unfold maxQueues at hi
    omega
  have hctrl : Ixgbe.txdctl i ≠ Ixgbe.ctrl := by
    rw [Ixgbe.ctrl]
    omega
  have hfctrl : Ixgbe.txdctl i ≠ Ixgbe.fctrl := by
    rw [Ixgbe.fctrl]
    omega
  simp only [politeCard, if_neg hctrl, if_neg hfctrl, hbounds.1, hbounds.2, true_and]

theorem Access.enables_iff {i : Nat} {a : Access} : a.enables (Ixgbe.txdctl i) = true ↔ enablesTx i a := by
  cases a with
  | writeReg reg v => simp [Access.enables, enablesTx]
  | readReg | readRxStatus | readRxDesc | writeRxDesc | readTxDesc | writeTxDesc | fill =>
    simp [Access.enables, enablesTx]

theorem politeCard_ctrl (l : List Access) : politeCard.reg l Ixgbe.ctrl % 2 ^ 32 = 0 := rfl

theorem politeCard_responsive : politeCard.Responsive := by
  refine responsive_of_answers politeCard_ctrl (politeCard_reg (by decide) (by decide) (by decide))
    (politeCard_reg (by decide) (by decide) (by decide)) (fun i hi => politeCard_reg ?_ ?_ ?_) fun i hi l hl => ?_
  · rw [Ixgbe.rxdctl, rxBlock_eq hi, Ixgbe.ctrl]
    omega
  · rw [Ixgbe.rxdctl, rxBlock_eq hi, Ixgbe.fctrl]
    unfold maxQueues at hi
    omega
  · rw [Ixgbe.rxdctl, rxBlock_eq hi]
    unfold maxQueues at hi
    omega
  · obtain ⟨a, ha, hen⟩ := hl
    rw [politeCard_txdctl hi, List.any_eq_true.mpr ⟨a, ha, Access.enables_iff.mpr hen⟩]
    decide

theorem politeCard_txStaysOff : politeCard.TxStaysOff := by
  intro l i hi hl
  have hany : l.any (Access.enables (Ixgbe.txdctl i)) = false :=
    List.any_eq_false.mpr fun a ha hen => hl a ha (Access.enables_iff.mp hen)
  rw [politeCard_txdctl hi, hany]
  decide

/-- The driver on this card, with a queue of each kind. It turns promiscuous mode off again. -/
theorem politeCard_session : ∃ s', Prog.Reaches (execDriver politeCard)
      (Driver.session ⟨true, true⟩ 1 1 [.setPromisc false])
      (driverBoot twoRings [(0x1000, ⟨0x100000, 0x200000⟩)]) s' ∧
    (∃ v, .writeReg Ixgbe.fctrl v ∈ s'.log) ∧ (∃ a ∈ s'.log, enablesTx 0 a) ∧ ∃ a ∈ s'.log, advancesRdt 0 a := by
  have hinit : Ends (execDriver politeCard) (Driver.ixgbeInit ⟨true, true⟩ 1 1)
      (fun _ s' => InitCovers twoRings 1 1 s') (driverBoot twoRings [(0x1000, ⟨0x100000, 0x200000⟩)]) :=
    Driver.ends_ixgbeInit politeCard_responsive (printable_of_ctrl politeCard_ctrl) rfl (by decide) (Nat.le_refl 1)
      ⟨Nat.le_refl 2, Nat.le_refl 1⟩
  obtain ⟨_, s₁, hrun, hcovers⟩ := hinit
  obtain ⟨_, -, hrx⟩ := hcovers.rx 0 (by decide)
  obtain ⟨_, -, htx⟩ := hcovers.tx 0 (by decide)
  obtain ⟨a, ha, hen⟩ := htx.enabled
  have hread : execDriver politeCard (.getReg32 Ixgbe.fctrl) s₁ =
      some (politeCard.reg s₁.log Ixgbe.fctrl % 2 ^ 32, s₁.record (.readReg Ixgbe.fctrl)) := rfl
  generalize politeCard.reg s₁.log Ixgbe.fctrl % 2 ^ 32 = v at hread
  have hin : ∀ {a b c : Access}, a ∈ s₁.log → a ∈ s₁.log ++ [b] ++ [c] :=
    fun h => List.mem_append_left _ (List.mem_append_left _ h)
  refine ⟨_, .bind hrun (.op hread (.op rfl (.refl _ _))), ⟨_, List.mem_append_right _ List.mem_cons_self⟩,
    ⟨a, hin ha, hen⟩, _, hin hrx.started, rfl, by decide⟩

theorem Owned.mask_fctrl {rxQueues txQueues reg mask : Nat} (h : Owned rxQueues txQueues reg mask)
    (hreg : reg = Ixgbe.fctrl) (hrx : rxQueues ≤ maxQueues) :
    mask = Ixgbe.fctrlBam ||| Ixgbe.fctrlMpe ||| Ixgbe.fctrlUpe := by
  have hblock : ∀ i < rxQueues, ∀ offset, Ixgbe.rxBlock i offset = 0x01000 + offset + i * 0x40 :=
    fun i hi offset => rxBlock_eq (by omega) offset
  unfold maxQueues at hrx
  cases h with
  | fctrl => rfl
  | rxpbsize i hi | txpbsize i hi =>
    simp only [Ixgbe.rxpbsize, Ixgbe.txpbsize, Ixgbe.fctrl] at hreg
    omega
  | srrctl i hi | dcaRxctrl i hi =>
    simp only [Ixgbe.srrctl, Ixgbe.dcaRxctrl, hblock i hi, Ixgbe.fctrl] at hreg
    split at hreg <;> omega
  | rxdctl i hi =>
    rw [Ixgbe.rxdctl, hblock i hi, Ixgbe.fctrl] at hreg
    omega
  | rxRing i offset hi ho =>
    simp only [List.mem_cons, List.not_mem_nil, or_false] at ho
    rw [hblock i hi, Ixgbe.fctrl] at hreg
    omega
  | txdctl | txRing =>
    simp only [Ixgbe.txdctl, Ixgbe.fctrl] at hreg
    omega
  | eimc | ctrl | autoc | rxctrl | hlreg0 | rdrxctl | ctrlExt | dtxmxszrq | rttdcs | dmatxctl => cases hreg

theorem session_keeps_bits_polite : ∃ s', Prog.Reaches (execDriver politeCard)
      (Driver.session ⟨true, true⟩ 1 1 [.setPromisc false])
      (driverBoot twoRings [(0x1000, ⟨0x100000, 0x200000⟩)]) s' ∧
    (∃ v, .writeReg Ixgbe.fctrl v ∈ s'.log) ∧ (politeCard.reg s'.log Ixgbe.fctrl).testBit 31 = true := by
  obtain ⟨s', hreach, hwritten, -⟩ := politeCard_session
  refine ⟨s', hreach, hwritten, ?_⟩
  refine (session_keeps_bits (M := politeCard.machine) rfl (fun c hc => ?_) politeCard_keeps (by decide)
    (fun mask howned => ?_) hreach).trans (by decide)
  · rw [List.mem_singleton.mp hc]
    trivial
  · rw [howned.mask_fctrl rfl (by decide)]
    decide

section
variable {card : Card} {S : Type} {M : RegMachine card S} {rxQueues txQueues : Nat} {s s' : S}
variable {order : Driver.ReadOrder} {cs : List DriverCall}

/-- The order in which the card is set up. -/
structure SetUpInOrder (card : Card) (l : List Access) : Prop where
  reset : ∀ reg v, reg ≠ Ixgbe.eimc → reg ≠ Ixgbe.ctrl → Before l (· = .writeReg reg v) (ResetDone card)
  rxOff : ∀ reg v, ConfiguresRx reg → Before l (· = .writeReg reg v) RxOff
  rdt : ∀ i < maxQueues, Before l (advancesRdt i) (RxEnabled card i)
  txOn : card.TxStaysOff → ∀ i < maxQueues, Before l (enablesTx i) TxOn

theorem WritesOk.inOrder {l : List Access} (h : WritesOk card rxQueues txQueues l) : SetUpInOrder card l := by
  refine ⟨fun reg v heimc hctrl => (h reg v).mono fun _ hw => hw.reset heimc hctrl,
    fun reg v hreg => (h reg v).mono fun _ hw => hw.rxOff hreg, fun i hi pre e post heq he => ?_,
    fun hcard i hi pre e post heq he => ?_⟩
  · cases e with
    | writeReg reg v => exact (h reg v pre _ post heq rfl).rdt i hi he.1 he.2
    | readReg | readRxStatus | readRxDesc | writeRxDesc | readTxDesc | writeTxDesc | fill => exact he.elim
  · cases e with
    | writeReg reg v => exact (h reg v pre _ post heq rfl).txOn hcard i hi he.1 he.2
    | readReg | readRxStatus | readRxDesc | writeRxDesc | readTxDesc | writeTxDesc | fill => exact he.elim

/-- **Main result.** The driver keeps to the order, on every card and wherever it is. -/
theorem session_inOrder (hlog : M.log s = []) (hcs : ∀ c ∈ cs, c.Valid rxQueues txQueues)
    (hreach : Prog.Reaches M.exec (Driver.session order rxQueues txQueues cs) s s') :
    SetUpInOrder card (M.log s') := (Driver.session_writesOk hlog hcs hreach).inOrder

theorem session_inOrder_polite : politeCard.TxStaysOff ∧ ∃ s', Prog.Reaches (execDriver politeCard)
      (Driver.session ⟨true, true⟩ 1 1 [.setPromisc false])
      (driverBoot twoRings [(0x1000, ⟨0x100000, 0x200000⟩)]) s' ∧
    ((∃ a ∈ s'.log, enablesTx 0 a) ∧ ∃ a ∈ s'.log, advancesRdt 0 a) ∧ SetUpInOrder politeCard s'.log := by
  obtain ⟨s', hreach, -, hused⟩ := politeCard_session
  refine ⟨politeCard_txStaysOff, s', hreach, hused,
    session_inOrder (M := politeCard.machine) rfl (fun c hc => ?_) hreach⟩
  rw [List.mem_singleton.mp hc]
  trivial

end

end Ixy
