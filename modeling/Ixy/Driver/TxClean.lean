import Ixy.Driver.Tx

/-!
# The clean-up loop of `ixgbe_tx_packet`

The loop compares two indices of the ring for inequality only. The NIC may set DD at any time, so what the loop reads
is any stream of status values. `txClean_window`: it ends all the same, after at most as many passes as there are
descriptors in flight, and never leaves the window of these.
-/

namespace Ixy

open Lib

/-- The queue, the coming status values, and what the loop has done. -/
structure CleanRun where
  q : TxQueue
  status : Nat → Nat
  /-- History: the descriptors whose status was read, and the buffers that were freed. -/
  reads : List Nat
  freed : List Nat

def execClean : (o : Op) → CleanRun → Option (Ret o × CleanRun)
  | .txLd f, s => some (s.q.get f, s)
  | .txDescStatus a, s => some (s.status s.reads.length, { s with reads := s.reads ++ [a] })
  | .reclaim b, s => some ((), { s with freed := s.freed ++ [b] })
  | _, _ => none

/-- The state after the descriptors of `visited` have been looked at and those of `passed` cleaned up. -/
def CleanRun.after (s : CleanRun) (visited passed : List Nat) : CleanRun :=
  { s with
    reads := s.reads ++ visited.map (descAddr s.q.descriptors)
    freed := s.freed ++ passed.map s.q.virtualAddresses }

@[simp] theorem CleanRun.after_nil (s : CleanRun) : s.after [] [] = s := by
  simp [CleanRun.after]

theorem CleanRun.after_cons (s : CleanRun) (i : Nat) (visited passed : List Nat) :
    (s.after [i] [i]).after visited passed = s.after (i :: visited) (i :: passed) := by
  simp [CleanRun.after]

/-- The status that the loop reads in its pass `j`. -/
def CleanRun.statusAt (s : CleanRun) (j : Nat) : Nat := s.status (s.reads.length + j)

theorem CleanRun.statusAt_after (s : CleanRun) (i j : Nat) : (s.after [i] [i]).statusAt j = s.statusAt (j + 1) := by
  simp only [CleanRun.statusAt, CleanRun.after, List.map_cons, List.map_nil, List.length_append, List.length_singleton]
  rw [Nat.add_assoc, Nat.add_comm 1 j]

/-! ## One pass -/

section
variable {s : CleanRun} {cur i : Nat}

theorem evals_txClean_end : Prog.Evals execClean (txClean cur cur) s (.done (.inr cur) s) := by
  rw [txClean, if_neg (not_not.mpr rfl)]
  exact .ret _ _

theorem evals_txClean_unsent (hne : i ≠ cur) (hdd : s.statusAt 0 &&& advtxdStatDD = 0) :
    Prog.Evals execClean (txClean cur i) s (.done (.inr i) (s.after [i] [])) := by
  have hafter : s.after [i] [] = { s with reads := s.reads ++ [descAddr s.q.descriptors i] } := by
    simp [CleanRun.after]
  rw [txClean, if_pos hne, hafter]
  refine .op rfl (.op rfl ?_)
  change Prog.Evals _ (if s.statusAt 0 &&& advtxdStatDD ≠ 0 then _ else _) _ _
  rw [if_neg (not_not.mpr hdd)]
  exact .ret _ _

theorem evals_txClean_sent (hne : i ≠ cur) (hdd : s.statusAt 0 &&& advtxdStatDD ≠ 0) :
    Prog.Evals execClean (txClean cur i) s (.done (.inl (incAndWrapRing i s.q.numEntries)) (s.after [i] [i])) := by
  rw [txClean, if_pos hne]
  refine .op rfl (.op rfl ?_)
  change Prog.Evals _ (if s.statusAt 0 &&& advtxdStatDD ≠ 0 then _ else _) _ _
  rw [if_pos hdd]
  exact .op rfl (.op rfl (.op rfl (.ret _ _)))

end

/-! ## The loop -/

/-- The loop, started with `d` descriptors in flight from counter `k` on, cleans up `m` of them and stops at the next
one because it is not done, or because it is the last. -/
structure CleanedUp (n : RingSize) (s : CleanRun) (k d m : Nat) (s' : CleanRun) : Prop where
  le : m ≤ d
  done : ∀ j < m, s.statusAt j &&& advtxdStatDD ≠ 0
  stop : m = d ∧ s' = s.after (ringSlots n.num k d) (ringSlots n.num k d) ∨
    m < d ∧ s.statusAt m &&& advtxdStatDD = 0 ∧ s' = s.after (ringSlots n.num k (m + 1)) (ringSlots n.num k m)

theorem CleanedUp.next {n : RingSize} {s s' : CleanRun} {k d m : Nat} (hdd : s.statusAt 0 &&& advtxdStatDD ≠ 0)
    (h : CleanedUp n (s.after [k % n.num] [k % n.num]) (k + 1) d m s') : CleanedUp n s k (d + 1) (m + 1) s' := by
  refine ⟨Nat.succ_le_succ h.le, fun j hj => ?_, ?_⟩
  · cases j with
    | zero => exact hdd
    | succ j =>
      have := h.done j (by omega)
      rwa [CleanRun.statusAt_after] at this
  · rcases h.stop with ⟨hm, hs'⟩ | ⟨hm, hlast, hs'⟩
    · rw [CleanRun.after_cons, ← ringSlots_succ] at hs'
      exact Or.inl ⟨congrArg (· + 1) hm, hs'⟩
    · rw [CleanRun.after_cons, ← ringSlots_succ, ← ringSlots_succ] at hs'
      rw [CleanRun.statusAt_after] at hlast
      exact Or.inr ⟨Nat.succ_lt_succ hm, hlast, hs'⟩

/-- Induction on the number of descriptors in flight. -/
theorem evals_txCleanLoop (n : RingSize) {d : Nat} : ∀ {k : Nat} {s : CleanRun}, s.q.numEntries = n.num → d < n.num →
    ∃ m s', Prog.Evals execClean (Prog.iterate (txClean ((k + d) % n.num)) (k % n.num)) s (.done ((k + m) % n.num) s') ∧
      CleanedUp n s k d m s' := by
  induction d with
  | zero =>
    intro k s _ _
    refine ⟨0, s, .loop_exit evals_txClean_end (.ret _ _), Nat.le_refl 0, nofun, Or.inl ⟨rfl, ?_⟩⟩
    rw [ringSlots_zero, CleanRun.after_nil]
  | succ d ih =>
    intro k s hn hd
    have hne : k % n.num ≠ (k + (d + 1)) % n.num :=
      mod_ne (a := k) (by omega) (by omega) (by omega) (by omega) (by omega)
    by_cases hdd : s.statusAt 0 &&& advtxdStatDD = 0
    · refine ⟨0, _, .loop_exit (evals_txClean_unsent hne hdd) (.ret _ _), Nat.zero_le _, nofun,
        Or.inr ⟨Nat.succ_pos d, hdd, ?_⟩⟩
      rw [ringSlots_succ, ringSlots_zero, ringSlots_zero]
    · obtain ⟨m, s', hrun, hclean⟩ := ih (k := k + 1) (s := s.after [k % n.num] [k % n.num]) hn (by omega)
      have hpass := evals_txClean_sent hne hdd
      rw [hn, n.incAndWrapRing_mod] at hpass
      rw [Nat.add_right_comm k 1 d, Nat.add_assoc k 1 m, Nat.add_comm 1 m] at hrun
      exact ⟨m + 1, s', .loop_next hpass hrun, hclean.next hdd⟩

/-- What the loop has done, from the slots of `ixgbe_tx_packet`'s indices: it has looked at the descriptors of
`visited`, freed the buffers of `passed` and leaves `final` as the new `clean_index`. -/
structure WindowCleaned (n : Nat) (s : CleanRun) (cleanIndex txIndex final : Nat) (s' : CleanRun)
    (visited passed : List Nat) : Prop where
  reads : s'.reads = s.reads ++ visited.map (descAddr s.q.descriptors)
  freed : s'.freed = s.freed ++ passed.map s.q.virtualAddresses
  /-- The slots are those from `clean_index` on, up to but excluding `tx_index`. -/
  window : visited <+: ringSlots n cleanIndex (ringDist n cleanIndex txIndex)
  excluded : txIndex ∉ visited
  nodup : visited.Nodup
  passes : visited.length ≤ ringDist n cleanIndex txIndex
  lap : ringDist n cleanIndex txIndex ≤ n - 1
  done : ∀ j < passed.length, s.statusAt j &&& advtxdStatDD ≠ 0
  final_eq : final = (cleanIndex + passed.length) % n
  final_lt : final < n
  stop : final = txIndex ∧ visited = passed ∨
    visited = passed ++ [final] ∧ s.statusAt passed.length &&& advtxdStatDD = 0

theorem CleanedUp.cleaned {n : RingSize} {s s' : CleanRun} {cleanIndex txIndex m : Nat} (hclean : cleanIndex < n.num)
    (htx : txIndex < n.num) (h : CleanedUp n s cleanIndex (ringDist n.num cleanIndex txIndex) m s') :
    ∃ visited passed, WindowCleaned n.num s cleanIndex txIndex ((cleanIndex + m) % n.num) s' visited passed := by
  have hend := add_ringDist_mod hclean htx
  have hd : ringDist n.num cleanIndex txIndex < n.num := Nat.mod_lt _ n.pos
  set d := ringDist n.num cleanIndex txIndex with hdist
  have hout : ∀ v ≤ d, txIndex ∉ ringSlots n.num cleanIndex v := by
    intro v hv hmem
    have hmem := (ringSlots_initial n.num cleanIndex hv).subset hmem
    rw [← hend] at hmem
    exact not_mem_ringSlots hd hmem
  have hfinal : (cleanIndex + m) % n.num < n.num := Nat.mod_lt _ n.pos
  have hlen := length_ringSlots n.num cleanIndex
  rcases h.stop with ⟨hm, rfl⟩ | ⟨hm, hlast, rfl⟩
  · refine ⟨ringSlots n.num cleanIndex d, ringSlots n.num cleanIndex d, rfl, rfl, List.prefix_refl _,
      hout d (Nat.le_refl d), nodup_ringSlots (by omega), (hlen d).le, Nat.le_sub_one_of_lt hd, ?_, ?_, hfinal,
      Or.inl ⟨?_, rfl⟩⟩
    · rw [hlen, ← hm]
      exact h.done
    · rw [hlen, hm]
    · rw [hm, hend]
  · refine ⟨ringSlots n.num cleanIndex (m + 1), ringSlots n.num cleanIndex m, rfl, rfl,
      ringSlots_initial n.num cleanIndex hm, hout (m + 1) hm, nodup_ringSlots (by omega), ?_,
      Nat.le_sub_one_of_lt hd, ?_, ?_, hfinal, Or.inr ⟨ringSlots_concat _ _ _, ?_⟩⟩
    · rw [hlen]
      exact hm
    · rw [hlen]
      exact h.done
    · rw [hlen]
    · rw [hlen]
      exact hlast

/-- **Main result.** The loop ends after at most `(tx_index - clean_index) mod n` passes. It looks at different slots in
the order of the ring, all before `tx_index`, frees the ones it passes and stops at the first one without DD or at
`tx_index`. -/
theorem txClean_window (n : RingSize) {s : CleanRun} {cleanIndex txIndex : Nat} (hnum : s.q.numEntries = n.num)
    (hclean : cleanIndex < n.num) (htx : txIndex < n.num) :
    ∃ final s' visited passed, Prog.Evals execClean (Prog.iterate (txClean txIndex) cleanIndex) s (.done final s') ∧
      WindowCleaned n.num s cleanIndex txIndex final s' visited passed := by
  have hd : ringDist n.num cleanIndex txIndex < n.num := Nat.mod_lt _ n.pos
  obtain ⟨m, s', hrun, hup⟩ := evals_txCleanLoop n (k := cleanIndex) hnum hd
  rw [add_ringDist_mod hclean htx, Nat.mod_eq_of_lt hclean] at hrun
  obtain ⟨visited, passed, hcleaned⟩ := hup.cleaned hclean htx
  exact ⟨_, s', visited, passed, hrun, hcleaned⟩

/-- Four entries, `clean_index` 3 and `tx_index` 2: the slots 3, 0 and 1 are in flight, and the last is not done. -/
def wrappedRun : CleanRun := ⟨⟨0x1000, 4, 3, 2, fun i => 100 + i⟩, fun j => if j < 2 then 1 else 0, [], []⟩

theorem txClean_window_wrapped : ∃ final s' visited passed,
    Prog.Evals execClean (Prog.iterate (txClean 2) 3) wrappedRun (.done final s') ∧
      WindowCleaned 4 wrappedRun 3 2 final s' visited passed :=
  txClean_window ⟨4, 2, rfl, by decide⟩ rfl (by decide) (by decide)

end Ixy
