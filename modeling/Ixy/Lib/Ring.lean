import Mathlib.Data.Nat.ModEq
import Mathlib.Data.Nat.Bitwise
import Mathlib.Data.List.Nodup
import Mathlib.Tactic.Ring

/-!
# Ring indices as unbounded counters

A ring of `n` slots is driven by indices that wrap modulo `n`. The proofs follow the unbounded
counter `k` behind an index `k % n`: two counters less than a lap apart that meet modulo `n` are
equal (`mod_inj`), so a window `[lo, hi)` of counters with `hi ≤ lo + n` occupies distinct slots.
For a power of two the mask `n - 1` computes the same wrap as `% n` (`land_mask`).
-/

namespace Ixy.Lib

/-- Counters in a common window of one lap with the same slot are equal. -/
theorem mod_inj {n a i j : Nat} (hi : a ≤ i) (hi' : i < a + n) (hj : a ≤ j) (hj' : j < a + n)
    (h : i % n = j % n) : i = j := by
  have hn : 0 < n := by omega
  have key : ∀ b c : Nat, b ≤ c → c < b + n → b % n = c % n → b = c := by
    intro b c hbc hlt hmod
    have hdvd : n ∣ c - b := (Nat.modEq_iff_dvd' hbc).mp hmod
    have hzero : c - b = 0 := Nat.eq_zero_of_dvd_of_lt hdvd (by omega)
    omega
  rcases Nat.le_total i j with hij | hij
  · exact key i j hij (by omega) h
  · exact (key j i hij (by omega) h.symm).symm

theorem mod_ne {n a i j : Nat} (hi : a ≤ i) (hi' : i < a + n) (hj : a ≤ j) (hj' : j < a + n)
    (h : i ≠ j) : i % n ≠ j % n := fun he => h (mod_inj hi hi' hj hj' he)

/-- The distance from slot `a` forward to slot `b`. -/
def ringDist (n a b : Nat) : Nat := (b + n - a) % n

theorem add_ringDist_mod {n a b : Nat} (ha : a < n) (hb : b < n) : (a + ringDist n a b) % n = b := by
  rw [ringDist, Nat.add_mod_mod, Nat.add_sub_cancel' (by omega), Nat.add_mod_right, Nat.mod_eq_of_lt hb]

theorem ringDist_mod {n lo hi : Nat} (h : lo ≤ hi) (h' : hi < lo + n) :
    ringDist n (lo % n) (hi % n) = hi - lo := by
  have hn : 0 < n := by omega
  have hlo := Nat.mod_lt lo hn
  have hsub : ringDist n (lo % n) (hi % n) ≡ hi - lo [MOD n] := by
    rw [ringDist]
    refine (Nat.mod_modEq _ _).trans ?_
    refine Nat.ModEq.add_right_cancel' (lo % n) ?_
    rw [Nat.sub_add_cancel (by omega)]
    calc hi % n + n ≡ hi [MOD n] := by
          refine Nat.ModEq.trans ?_ (Nat.mod_modEq hi n)
          exact Nat.add_modEq_right
      _ = hi - lo + lo := by omega
      _ ≡ hi - lo + lo % n [MOD n] := Nat.ModEq.add_left _ (Nat.mod_modEq lo n).symm
  have hlt : ringDist n (lo % n) (hi % n) < n := Nat.mod_lt _ hn
  have hmod : (hi - lo) % n = hi - lo := Nat.mod_eq_of_lt (by omega)
  rw [Nat.ModEq, Nat.mod_eq_of_lt hlt, hmod] at hsub
  exact hsub

/-- The `m` slots from counter `k` on. -/
def ringSlots (n k m : Nat) : List Nat := (List.range m).map fun j => (k + j) % n

@[simp] theorem ringSlots_zero (n k : Nat) : ringSlots n k 0 = [] := rfl

@[simp] theorem length_ringSlots (n k m : Nat) : (ringSlots n k m).length = m := by simp [ringSlots]

theorem ringSlots_succ (n k m : Nat) : ringSlots n k (m + 1) = k % n :: ringSlots n (k + 1) m := by
  simp only [ringSlots, List.range_succ_eq_map, List.map_cons, List.map_map, Nat.add_zero, List.cons.injEq, true_and]
  refine List.map_congr_left fun j _ => ?_
  rw [Function.comp_apply, Nat.succ_eq_add_one, Nat.add_right_comm, Nat.add_assoc]

theorem ringSlots_concat (n k m : Nat) : ringSlots n k (m + 1) = ringSlots n k m ++ [(k + m) % n] := by
  simp [ringSlots, List.range_succ]

theorem ringSlots_initial (n k : Nat) {m m' : Nat} (h : m ≤ m') : ringSlots n k m <+: ringSlots n k m' := by
  induction h with
  | refl => exact List.prefix_refl _
  | step _ ih => exact ih.trans ⟨_, (ringSlots_concat n k _).symm⟩

theorem nodup_ringSlots {n k m : Nat} (h : m ≤ n) : (ringSlots n k m).Nodup := by
  refine List.Nodup.map_on ?_ List.nodup_range
  intro i hi j hj heq
  rw [List.mem_range] at hi hj
  have := mod_inj (a := k) (by omega) (by omega) (by omega) (by omega) heq
  omega

theorem not_mem_ringSlots {n k m : Nat} (h : m < n) : (k + m) % n ∉ ringSlots n k m := by
  intro hmem
  obtain ⟨j, hj, heq⟩ := List.mem_map.mp hmem
  rw [List.mem_range] at hj
  have := mod_inj (a := k) (by omega) (by omega) (by omega) (by omega) heq
  omega

theorem land_mask {n k : Nat} (hn : n = 2 ^ k) (x : Nat) : x &&& (n - 1) = x % n := by
  subst hn
  exact Nat.and_two_pow_sub_one_eq_mod x k

theorem succ_mod_mod (n k : Nat) : (k % n + 1) % n = (k + 1) % n := by
  rw [Nat.mod_add_mod]

end Ixy.Lib
