import Mathlib.Algebra.BigOperators.Fin
import Mathlib.Data.Nat.ModEq
import Ixy.Driver.Registers

/-!
# Statistics (`ixgbe_read_stats`, `stats_init`)

The counters of the card clear themselves when they are read, and count on at any moment, also between the reads of
one call. `stats_conserved`: nothing is lost or counted twice, whatever the compiler makes of the order of the reads
of the two halves of a byte counter.
-/

namespace Ixy

open Lib

/-! ## The counters -/

/-- The register that counts, or the low half of it. -/
def StatsField.low : StatsField → Nat
  | .rxPkts => Ixgbe.gprc
  | .txPkts => Ixgbe.gptc
  | .rxBytes => Ixgbe.gorcl
  | .txBytes => Ixgbe.gotcl

def StatsField.high : StatsField → Option Nat
  | .rxPkts | .txPkts => none
  | .rxBytes => some Ixgbe.gorch
  | .txBytes => some Ixgbe.gotch

structure Counters where
  /-- The registers, by offset. -/
  reg : Nat → Nat
  stats : Nat → StatsField → Nat
  /-- History: all packets and bytes so far. -/
  traffic : StatsField → Nat
  /-- History: what was read for nobody. -/
  discarded : StatsField → Nat

namespace Counters

def zero : Counters := ⟨fun _ => 0, fun _ _ => 0, fun _ => 0, fun _ => 0⟩

/-- Reading a counter clears it. -/
def clear (s : Counters) (reg : Nat) : Counters := { s with reg := Function.update s.reg reg 0 }

def setStats (s : Counters) (i : Nat) (f : StatsField) (v : Nat) : Counters :=
  { s with stats := Function.update s.stats i (Function.update (s.stats i) f v) }

def discard (s : Counters) (v : StatsField → Nat) : Counters := { s with discarded := fun f => s.discarded f + v f }

/-- What the registers hold of a counter. -/
def pending (s : Counters) (f : StatsField) : Nat := s.reg f.low + 2 ^ 32 * (f.high.elim 0 s.reg)

/-- `n` more packets, or bytes with a carry. The counters do not run over. -/
def count (f : StatsField) (n : Nat) (s : Counters) : Option Counters :=
  let sum := s.reg f.low + n
  let traffic := Function.update s.traffic f (s.traffic f + n)
  match f.high with
  | none => if sum < 2 ^ 32 then some { s with reg := Function.update s.reg f.low sum, traffic := traffic } else none
  | some high =>
    if s.reg high + sum / 2 ^ 32 < 2 ^ 32 then
      some { s with
        reg := Function.update (Function.update s.reg f.low (sum % 2 ^ 32)) high (s.reg high + sum / 2 ^ 32)
        traffic := traffic }
    else none

end Counters

/-- The accesses of `ixgbe_read_stats` and `stats_init`. -/
def execStats : (o : DriverOp) → Counters → Option (DriverRet o × Counters)
  | .getReg32 reg, s =>
    if reg ∈ [Ixgbe.gprc, Ixgbe.gptc, Ixgbe.gorcl, Ixgbe.gorch, Ixgbe.gotcl, Ixgbe.gotch] then
      some (s.reg reg, s.clear reg)
    else none
  | .addStats i f v, s => some ((), s.setStats i f ((s.stats i f + v) % 2 ^ 64))
  | .clearStats i f, s => some ((), s.setStats i f 0)
  | .discard v, s => some ((), s.discard v)
  | _, _ => none

/-! ## Runs -/

inductive StatsCall where
  | readStats (order : Driver.ReadOrder) (stats : Option Nat)
  | statsInit (order : Driver.ReadOrder) (dev : Bool) (stats : Nat)

def StatsCall.code : StatsCall → DriverCode Unit
  | .readStats order stats => Driver.ixgbeReadStats order stats
  | .statsInit order dev stats => Driver.statsInit order dev stats

/-- There are `k` structs, and one that counts already is not initialised again. -/
def StatsCall.Allowed (k : Nat) (s : Counters) : StatsCall → Prop
  | .readStats _ stats => ∀ i ∈ stats, i < k
  | .statsInit _ _ i => i < k ∧ ∀ f, s.stats i f = 0

/-- The states of a program that calls the functions one after the other, while the card counts. -/
inductive StatsReach (k : Nat) : Conf Counters DriverOp DriverRet Unit → Prop where
  | start : StatsReach k ⟨.zero, .ret ()⟩
  | call {s : Counters} (c : StatsCall) (h : StatsReach k ⟨s, .ret ()⟩) (hc : c.Allowed k s) : StatsReach k ⟨s, c.code⟩
  | move {c c' : Conf Counters DriverOp DriverRet Unit} (tick : Tick (StatsField × Nat)) (h : StatsReach k c)
      (hstep : Conf.step execStats (fun e => Counters.count e.1 e.2) tick c = some c') : StatsReach k c'

/-- The traffic is what the `k` structs hold, what was thrown away, what is still in the registers, and what the
driver holds in its hands. -/
def Counters.Accounts (k : Nat) (held : StatsField → Nat) (s : Counters) : Prop :=
  ∀ f, s.traffic f ≡ (∑ i ∈ Finset.range k, s.stats i f) + s.discarded f + s.pending f + held f [MOD 2 ^ 64]

/-- Nothing is lost, and nothing is counted twice. -/
def Counters.Conserved (k : Nat) (s : Counters) : Prop :=
  ∀ f, s.traffic f ≡ (∑ i ∈ Finset.range k, s.stats i f) + s.discarded f + s.pending f [MOD 2 ^ 64]

/-! ## Traffic -/

section
variable {k i reg n v : Nat} {f : StatsField} {held read : StatsField → Nat} {s s' : Counters}

theorem pending_eq (s : Counters) : s.pending = fun
    | .rxPkts => s.reg 0x04074
    | .txPkts => s.reg 0x04080
    | .rxBytes => s.reg 0x04088 + 2 ^ 32 * s.reg 0x0408C
    | .txBytes => s.reg 0x04090 + 2 ^ 32 * s.reg 0x04094 := by
  funext f
  cases f <;> rfl

theorem count_spec (h : s.count f n = some s') :
    s'.stats = s.stats ∧ s'.discarded = s.discarded ∧
      s'.traffic = Function.update s.traffic f (s.traffic f + n) ∧
      s'.pending = Function.update s.pending f (s.pending f + n) := by
  cases f
  all_goals
    obtain ⟨-, h⟩ := Option.ite_none_right_eq_some.mp h
    cases h
    refine ⟨rfl, rfl, rfl, ?_⟩
    funext g
    cases g <;> simp [pending_eq, StatsField.low, Ixgbe.gprc, Ixgbe.gptc, Ixgbe.gorcl, Ixgbe.gorch, Ixgbe.gotcl,
      Ixgbe.gotch] <;> omega

/-- How much a register counts for. -/
def StatsField.share (f : StatsField) (reg : Nat) : Nat :=
  if reg = f.low then 1 else if f.high = some reg then 2 ^ 32 else 0

theorem pending_clear (s : Counters) (reg : Nat) (f : StatsField) :
    (s.clear reg).pending f + f.share reg * s.reg reg = s.pending f := by
  cases f
  all_goals
    simp only [pending_eq, StatsField.share, StatsField.low, StatsField.high, Counters.clear, Function.update_apply,
      Option.some.injEq, Ixgbe.gprc, Ixgbe.gptc, Ixgbe.gorcl, Ixgbe.gorch, Ixgbe.gotcl, Ixgbe.gotch, reduceCtorEq,
      if_false]
    split_ifs <;> subst_vars <;> omega

theorem sum_setStats (s : Counters) (hi : i < k) (f : StatsField) (v : Nat) :
    s.stats i f + ∑ j ∈ Finset.range k, (s.setStats i f v).stats j f = v + ∑ j ∈ Finset.range k, s.stats j f := by
  have hupdate : (fun j => (s.setStats i f v).stats j f) = Function.update (fun j => s.stats j f) i v := by
    funext j
    by_cases hj : j = i
    · subst hj
      simp [Counters.setStats]
    · simp [Counters.setStats, hj]
  have hmem : i ∈ Finset.range k := Finset.mem_range.mpr hi
  rw [hupdate, Finset.sum_update_of_mem hmem, Finset.sdiff_singleton_eq_erase,
    ← Finset.add_sum_erase _ (fun j => s.stats j f) hmem, Nat.add_left_comm]

namespace Counters.Accounts

theorem count (h : s.Accounts k held) (hcount : s.count f n = some s') : s'.Accounts k held := by
  obtain ⟨hstats, hdiscarded, htraffic, hpending⟩ := count_spec hcount
  intro g
  rw [hstats, hdiscarded, htraffic, hpending]
  by_cases hg : g = f
  · subst hg
    rw [Function.update_self, Function.update_self, ← Nat.add_assoc, Nat.add_right_comm _ n]
    exact (h g).add_right n
  · rw [Function.update_of_ne hg, Function.update_of_ne hg]
    exact h g

/-- What is read from a register goes from the card to the driver. -/
theorem clear (h : s.Accounts k held) (reg : Nat) :
    (s.clear reg).Accounts k fun f => held f + f.share reg * s.reg reg := by
  intro f
  change _ ≡ _ + (s.clear reg).pending f + (held f + f.share reg * s.reg reg) [MOD _]
  rw [Nat.add_add_add_comm, pending_clear, Nat.add_right_comm]
  exact h f

theorem setStats (h : s.Accounts k held) (hi : i < k) (hv : held f ≡ v [MOD 2 ^ 64]) :
    (s.setStats i f ((s.stats i f + v) % 2 ^ 64)).Accounts k (Function.update held f 0) := by
  intro g
  have hg := h g
  by_cases hgf : g = f
  · subst hgf
    have hsum := sum_setStats s hi g ((s.stats i g + v) % 2 ^ 64)
    rw [Function.update_self, Nat.add_zero]
    change s.traffic g ≡ _ + s.discarded g + s.pending g [MOD _]
    unfold Nat.ModEq at hv hg ⊢
    generalize (∑ j ∈ Finset.range k, (s.setStats i g _).stats j g) = sum at hsum ⊢
    omega
  · have hsame : ∀ w j, (s.setStats i f w).stats j g = s.stats j g := by
      intro w j
      by_cases hj : j = i
      · subst hj
        simp [Counters.setStats, hgf]
      · simp [Counters.setStats, hj]
    rw [Function.update_of_ne hgf]
    simp only [hsame]
    exact hg

theorem discard (h : s.Accounts k held) (hv : ∀ f, held f ≡ read f [MOD 2 ^ 64]) : (s.discard read).Conserved k := by
  intro f
  have hf := (h f).trans ((hv f).add_left _)
  change _ ≡ _ + (s.discarded f + read f) + s.pending f [MOD _]
  rw [← Nat.add_assoc, Nat.add_right_comm]
  exact hf

end Counters.Accounts

/-! ## `ixgbe_read_stats` -/

/-- The card may count at any moment. -/
def statsContract : Contract Counters where
  rely s s' := ∃ f n, s.count f n = some s'
  guar _ _ := True
  inv _ := True
  aborts _ _ := False

theorem accounts_stable (k : Nat) (held : StatsField → Nat) : Stable statsContract (Counters.Accounts k held) := by
  refine ⟨fun s s' h hrely => ?_, fun _ _ => trivial⟩
  obtain ⟨f, n, hcount⟩ := hrely
  exact h.count hcount

theorem conserved_iff : s.Conserved k ↔ s.Accounts k fun _ => 0 := Iff.rfl

theorem getReg32_safe {α : Type} {K : Nat → DriverCode α} {Q : α → Counters → Prop}
    (hreg : reg ∈ [Ixgbe.gprc, Ixgbe.gptc, Ixgbe.gorcl, Ixgbe.gorch, Ixgbe.gotcl, Ixgbe.gotch])
    (hK : ∀ v s, s.Accounts k (fun f => held f + f.share reg * v) → Safe execStats statsContract (K v) Q s)
    (hs : s.Accounts k held) : Safe execStats statsContract ((Driver.getReg32 reg).bind K) Q s := by
  refine Safe.step (accounts_stable k held) (fun s hs => ?_) hs
  exact ⟨s.reg reg, s.clear reg, if_pos hreg, trivial, hK _ _ (hs.clear reg)⟩

theorem getReg64_safe {α : Type} {low high : Nat} {lowFirst : Bool} {K : Nat → DriverCode α}
    {Q : α → Counters → Prop}
    (hlow : low ∈ [Ixgbe.gprc, Ixgbe.gptc, Ixgbe.gorcl, Ixgbe.gorch, Ixgbe.gotcl, Ixgbe.gotch])
    (hhigh : high ∈ [Ixgbe.gprc, Ixgbe.gptc, Ixgbe.gorcl, Ixgbe.gorch, Ixgbe.gotcl, Ixgbe.gotch])
    (hK : ∀ l h s, s.Accounts k (fun f => held f + f.share low * l + f.share high * h) →
      Safe execStats statsContract (K ((l + h * 2 ^ 32) % 2 ^ 64)) Q s)
    (hs : s.Accounts k held) : Safe execStats statsContract ((Driver.getReg64 lowFirst low high).bind K) Q s := by
  cases lowFirst with
  | true =>
    rw [Driver.getReg64, if_pos rfl, Prog.bind_eq, Prog.bind_assoc]
    refine getReg32_safe hlow (fun l s hs => ?_) hs
    rw [Prog.bind_eq, Prog.bind_assoc]
    exact getReg32_safe hhigh (fun h s hs => hK l h s hs) hs
  | false =>
    rw [Driver.getReg64, if_neg Bool.false_ne_true, Prog.bind_eq, Prog.bind_assoc]
    refine getReg32_safe hhigh (fun h s hs => ?_) hs
    rw [Prog.bind_eq, Prog.bind_assoc]
    refine getReg32_safe hlow (fun l s hs => hK l h s fun f => ?_) hs
    change _ ≡ _ + (held f + f.share low * l + f.share high * h) [MOD _]
    rw [Nat.add_right_comm (held f)]
    exact hs f

theorem addStats_safe {α : Type} {K : Unit → DriverCode α} {Q : α → Counters → Prop} (hs : s.Accounts k held)
    (hi : i < k) (hv : held f ≡ v [MOD 2 ^ 64])
    (hK : ∀ s, s.Accounts k (Function.update held f 0) → Safe execStats statsContract (K ()) Q s) :
    Safe execStats statsContract ((Prog.access (DriverOp.addStats i f v)).bind K) Q s :=
  Safe.step (accounts_stable k held) (fun _ hs => ⟨(), _, rfl, trivial, hK _ (hs.setStats hi hv)⟩) hs

theorem conserved_safe (hs : s.Conserved k) :
    Safe execStats statsContract (.ret ()) (fun _ s => s.Conserved k) s := by
  refine Safe.ret (accounts_stable k fun _ => 0) ?_ (conserved_iff.mp hs)
  exact fun _ h => h

theorem accumulate_safe {stats : Option Nat} (hstats : ∀ i ∈ stats, i < k)
    (hread : ∀ f, held f ≡ read f [MOD 2 ^ 64]) (hs : s.Accounts k held) :
    Safe execStats statsContract (Driver.accumulate stats read) (fun _ s => s.Conserved k) s := by
  cases stats with
  | none =>
    refine Safe.step (accounts_stable k held) (fun s hs => ⟨(), _, rfl, trivial, ?_⟩) hs
    exact conserved_safe (hs.discard hread)
  | some i =>
    have hi : i < k := hstats i rfl
    refine addStats_safe hs hi (hread .rxPkts) fun s hs => ?_
    refine addStats_safe hs hi (hread .txPkts) fun s hs => ?_
    refine addStats_safe hs hi (hread .rxBytes) fun s hs => ?_
    refine Safe.step (accounts_stable k _) (fun s hs => ⟨(), _, rfl, trivial, conserved_safe fun f => ?_⟩) hs
    have hf := hs.setStats (f := .txBytes) hi (hread .txBytes) f
    cases f <;> exact hf

theorem ixgbeReadStats_safe {order : Driver.ReadOrder} {stats : Option Nat} (hstats : ∀ i ∈ stats, i < k)
    (hs : s.Conserved k) :
    Safe execStats statsContract (Driver.ixgbeReadStats order stats) (fun _ s => s.Conserved k) s := by
  refine getReg32_safe (by decide) (fun rxPkts s hs => ?_) (conserved_iff.mp hs)
  refine getReg32_safe (by decide) (fun txPkts s hs => ?_) hs
  refine getReg64_safe (by decide) (by decide) (fun rxLow rxHigh s hs => ?_) hs
  refine getReg64_safe (by decide) (by decide) (fun txLow txHigh s hs => ?_) hs
  refine accumulate_safe hstats (fun f => ?_) hs
  unfold Nat.ModEq
  cases f <;> simp [StatsField.share, StatsField.low, StatsField.high, Ixgbe.gprc, Ixgbe.gptc, Ixgbe.gorcl,
    Ixgbe.gorch, Ixgbe.gotcl, Ixgbe.gotch] <;> omega

theorem setStats_zero (hzero : s.stats i f = 0) : s.setStats i f 0 = s := by
  have hupdate : Function.update (s.stats i) f 0 = s.stats i := by
    rw [← hzero]
    exact Function.update_eq_self _ _
  rw [Counters.setStats, hupdate, Function.update_eq_self]

def Counters.Fresh (k i : Nat) (s : Counters) : Prop := s.Conserved k ∧ ∀ f, s.stats i f = 0

theorem fresh_stable (k i : Nat) : Stable statsContract (Counters.Fresh k i) := by
  refine ⟨fun s s' h hrely => ?_, fun _ _ => trivial⟩
  obtain ⟨f, n, hcount⟩ := hrely
  refine ⟨(conserved_iff.mp h.1).count hcount, fun g => ?_⟩
  rw [(count_spec hcount).1]
  exact h.2 g

theorem clearStats_safe {α : Type} {K : Unit → DriverCode α} {Q : α → Counters → Prop} (hs : s.Fresh k i)
    (hK : ∀ s, s.Fresh k i → Safe execStats statsContract (K ()) Q s) :
    Safe execStats statsContract ((Prog.access (DriverOp.clearStats i f)).bind K) Q s := by
  refine Safe.step (fresh_stable k i) (fun s hs => ⟨(), s, ?_, trivial, hK s hs⟩) hs
  exact congrArg (fun s => some ((), s)) (setStats_zero (hs.2 f))

theorem statsInit_safe {order : Driver.ReadOrder} {dev : Bool} (hs : s.Fresh k i) :
    Safe execStats statsContract (Driver.statsInit order dev i) (fun _ s => s.Conserved k) s := by
  refine clearStats_safe hs fun s hs => ?_
  refine clearStats_safe hs fun s hs => ?_
  refine clearStats_safe hs fun s hs => ?_
  refine clearStats_safe hs fun s hs => ?_
  cases dev with
  | true => exact ixgbeReadStats_safe nofun hs.1
  | false => exact conserved_safe hs.1

/-! ## Conservation -/

theorem StatsReach.safe {c : Conf Counters DriverOp DriverRet Unit} (h : StatsReach k c) :
    Safe execStats statsContract c.prog (fun _ s => s.Conserved k) c.state := by
  induction h with
  | start => exact conserved_safe fun f => by cases f <;> simp [Counters.zero, pending_eq, Nat.ModEq.refl]
  | call c _ hc ih =>
    have hs := Safe.post ih
    cases c with
    | readStats order stats => exact ixgbeReadStats_safe hc hs
    | statsInit order dev i => exact statsInit_safe ⟨hs, hc.2⟩
  | @move c c' tick _ hstep ih =>
    have hrun : Conf.run execStats (fun e => Counters.count e.1 e.2) [tick] c = some c' := by
      rw [Conf.run, hstep]
      rfl
    refine Safe.run (fun e s s' hcount => ?_) ih hrun
    exact ⟨e.1, e.2, hcount⟩

/-- **Main result.** Whenever no call is going on, the traffic so far is what the structs hold, what was read for
nobody and what is still in the registers. -/
theorem stats_conserved {c : Conf Counters DriverOp DriverRet Unit} (h : StatsReach k c) (hidle : c.prog = .ret ()) :
    c.state.Conserved k := by
  have hsafe := h.safe
  rw [hidle] at hsafe
  exact Safe.post (Q := fun _ s => Counters.Conserved k s) hsafe

theorem StatsReach.count {p : DriverCode Unit} (h : StatsReach k ⟨s, p⟩) (hcount : s.count f n = some s') :
    StatsReach k ⟨s', p⟩ := by
  refine .move (.env (f, n)) h ?_
  rw [Conf.step, hcount]
  rfl

theorem StatsReach.steps {c c' : Conf Counters DriverOp DriverRet Unit} (m : Nat) (h : StatsReach k c)
    (hrun : Conf.run execStats (fun e : StatsField × Nat => Counters.count e.1 e.2) (List.replicate m .prog) c =
      some c') :
    StatsReach k c' := by
  induction m generalizing c with
  | zero =>
    cases hrun
    exact h
  | succ m ih =>
    obtain ⟨c₁, hstep, hrun⟩ := Option.bind_eq_some_iff.mp hrun
    exact ih (.move .prog h hstep) hrun

end

theorem count_rxBytes {s : Counters} {n : Nat} (h : s.reg Ixgbe.gorch + (s.reg Ixgbe.gorcl + n) / 2 ^ 32 < 2 ^ 32) :
    s.count .rxBytes n = some { s with
      reg := Function.update (Function.update s.reg Ixgbe.gorcl ((s.reg Ixgbe.gorcl + n) % 2 ^ 32)) Ixgbe.gorch
        (s.reg Ixgbe.gorch + (s.reg Ixgbe.gorcl + n) / 2 ^ 32)
      traffic := Function.update s.traffic .rxBytes (s.traffic .rxBytes + n) } :=
  if_pos h

/-- The carry comes between the reads of the high and the low half: it stays in the register. -/
theorem stats_conserved_carry :
    ∃ c, StatsReach 1 c ∧ c.state.traffic .rxBytes = 2 ^ 32 + 4 ∧ c.state.stats 0 .rxBytes = 4 ∧
      c.state.pending .rxBytes = 2 ^ 32 ∧ c.state.Conserved 1 := by
  have hfull := (StatsReach.start (k := 1)).count (count_rxBytes (n := 2 ^ 32 - 1) (by decide))
  have hcall := StatsReach.call (.readStats ⟨false, true⟩ (some 0)) hfull (by simp [StatsCall.Allowed])
  have hhigh := StatsReach.steps 3 hcall rfl
  have hcarry := hhigh.count (count_rxBytes (n := 5) (by decide))
  have hdone := StatsReach.steps 7 hcarry rfl
  exact ⟨_, hdone, by decide, by decide, by decide, stats_conserved hdone rfl⟩

end Ixy
