import Mathlib.Data.List.Perm.Basic
import Mathlib.Data.List.Nodup
import Mathlib.Data.List.Range
import Mathlib.Data.List.Dedup
import Mathlib.Logic.Function.Basic

/-!
# An array used as a stack of free indices

`stackList f top` is the stack held in the cells `f 0 .. f (top - 1)`, top of the stack last.
`Partition num free held` says that the free indices and the held ones account for each index below
`num` exactly once; it is kept by popping an index and handing it out, and by pushing a held one.
-/

namespace Ixy.Lib

section
variable {α : Type}

/-- The contents of an array stack, oldest first. -/
def stackList (f : Nat → α) (top : Nat) : List α := (List.range top).map f

@[simp] theorem stackList_length (f : Nat → α) (top : Nat) : (stackList f top).length = top := by
  simp [stackList]

theorem stackList_succ (f : Nat → α) (top : Nat) :
    stackList f (top + 1) = stackList f top ++ [f top] := by
  simp [stackList, List.range_succ]

theorem stackList_congr {f g : Nat → α} {top : Nat} (h : ∀ i, i < top → f i = g i) :
    stackList f top = stackList g top :=
  List.map_congr_left fun i hi => h i (List.mem_range.mp hi)

theorem stackList_push (f : Nat → α) (top : Nat) (x : α) :
    stackList (Function.update f top x) (top + 1) = stackList f top ++ [x] := by
  rw [stackList_succ, Function.update_self]
  congr 1
  exact stackList_congr fun i hi => Function.update_of_ne (by omega) _ _

end

/-- The free indices and the held ones split the indices below `num`. -/
structure Partition (num : Nat) (free : List Nat) (held : Nat → Prop) : Prop where
  nodup : free.Nodup
  mem_iff : ∀ i, i ∈ free ↔ i < num ∧ ¬ held i

namespace Partition
variable {num i : Nat} {free : List Nat} {held held' : Nat → Prop}

theorem init (num : Nat) : Partition num (List.range num) fun _ => False :=
  ⟨List.nodup_range, fun i => by simp⟩

theorem congr (h : Partition num free held) (hh : ∀ i, i < num → (held i ↔ held' i)) :
    Partition num free held' := by
  refine ⟨h.nodup, fun i => ?_⟩
  rw [h.mem_iff]
  refine and_congr_right fun hi => ?_
  rw [hh i hi]

theorem pop (h : Partition num (free ++ [i]) held) :
    i < num ∧ ¬ held i ∧ Partition num free fun j => j = i ∨ held j := by
  have hi := (h.mem_iff i).mp (by simp)
  have hnd := List.nodup_append.mp h.nodup
  refine ⟨hi.1, hi.2, hnd.1, fun j => ?_⟩
  have hj := h.mem_iff j
  rw [List.mem_append, List.mem_singleton] at hj
  constructor
  · intro hmem
    have hne : j ≠ i := fun he => hnd.2.2 j hmem i (by simp) he
    have := hj.mp (Or.inl hmem)
    exact ⟨this.1, by rintro (he | he); exacts [hne he, this.2 he]⟩
  · rintro ⟨hlt, hno⟩
    rcases hj.mpr ⟨hlt, fun hh => hno (Or.inr hh)⟩ with hmem | he
    · exact hmem
    · exact absurd (Or.inl he) hno

theorem push (h : Partition num free held) (hi : i < num) (hheld : held i) :
    Partition num (free ++ [i]) fun j => j ≠ i ∧ held j := by
  have hnot : i ∉ free := fun hmem => ((h.mem_iff i).mp hmem).2 hheld
  constructor
  · rw [List.nodup_append]
    refine ⟨h.nodup, by simp, ?_⟩
    rintro a ha b hb rfl
    rw [List.mem_singleton] at hb
    exact hnot (hb ▸ ha)
  · intro j
    rw [List.mem_append, List.mem_singleton, h.mem_iff]
    constructor
    · rintro (⟨hlt, hno⟩ | rfl)
      · exact ⟨hlt, fun hh => hno hh.2⟩
      · exact ⟨hi, fun hh => hh.1 rfl⟩
    · rintro ⟨hlt, hno⟩
      by_cases he : j = i
      · exact Or.inr he
      · exact Or.inl ⟨hlt, fun hh => hno ⟨he, hh⟩⟩

theorem lt_of_mem (h : Partition num free held) (hi : i ∈ free) : i < num := ((h.mem_iff i).mp hi).1

theorem length_le (h : Partition num free held) : free.length ≤ num := by
  have hsub : free ⊆ List.range num := fun i hi => List.mem_range.mpr (h.lt_of_mem hi)
  simpa using (List.subperm_of_subset h.nodup hsub).length_le

theorem length_lt (h : Partition num free held) (hi : i < num) (hheld : held i) :
    free.length < num := by
  have hlen := (h.push hi hheld).length_le
  rw [List.length_append, List.length_singleton] at hlen
  omega

theorem perm [DecidablePred held] (h : Partition num free held) :
    (free ++ (List.range num).filter fun i => held i).Perm (List.range num) := by
  refine (List.perm_ext_iff_of_nodup ?_ List.nodup_range).mpr fun i => ?_
  · rw [List.nodup_append]
    refine ⟨h.nodup, List.nodup_range.filter _, ?_⟩
    rintro a ha b hb rfl
    exact ((h.mem_iff a).mp ha).2 (by simpa using (List.mem_filter.mp hb).2)
  · rw [List.mem_append, h.mem_iff, List.mem_filter, List.mem_range, decide_eq_true_eq]
    constructor
    · rintro (hi | hi)
      · exact hi.1
      · exact hi.1
    · intro hi
      by_cases hh : held i
      · exact Or.inr ⟨hi, hh⟩
      · exact Or.inl ⟨hi, hh⟩

/-- The stack is empty exactly when every index is held. -/
theorem length_eq_zero_iff [DecidablePred held] (h : Partition num free held) :
    free.length = 0 ↔ ((List.range num).filter fun i => held i).length = num := by
  have hlen := h.perm.length_eq
  rw [List.length_append, List.length_range] at hlen
  omega

end Partition

end Ixy.Lib
