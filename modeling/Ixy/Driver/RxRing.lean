import Ixy.Driver.Interference

/-!
# The receive ring as counters

The driver and the NIC chase each other round the ring. `RxProto` describes it by counters that
never wrap: `D` packets consumed, `W` packets written back by the NIC (`RDH = W % n`), the tail `T`
(`RDT = T % n`), `R` descriptors reset by the driver and `P ≤ R + 1` addresses posted by it, the last
of which may be in the middle of its reset. They satisfy `D ≤ W ≤ T ≤ R ≤ P` within one lap of the
ring, and the slots are divided accordingly:

* `[D, W)` have `DD` set, with the lengths that the NIC reported,
* `[W, R)` have `DD` clear and `[W, P)` hold an address posted since their last write-back.

The driver never reads `RDH`, so it only knows a lower bound `m` of `W`. `RxAt` is the protocol with
`W` hidden behind that bound; nothing the NIC does breaks it (`RxAt.nic`).
-/

namespace Ixy

open Lib

theorem RxRing.receive_eq {r r' : RxRing} {wb : RxDesc} (h : r.receive wb = some r') :
    r.rxdctl &&& queueEnable ≠ 0 ∧ r.rdh ≠ r.rdt ∧ wb.dd = true ∧ wb.eop = true ∧
    r' = { r with
      desc := Function.update r.desc (descAddr r.base r.rdh) wb
      rdh := (r.rdh + 1) % r.len
      fresh := Function.update r.fresh (descAddr r.base r.rdh) false
      wbs := r.wbs ++ [⟨r.rdh, wb.length,
        r.fresh (descAddr r.base r.rdh) && !(r.desc (descAddr r.base r.rdh)).dd⟩] } := by
  unfold RxRing.receive at h
  dsimp only at h
  split at h
  · rename_i hc
    exact ⟨hc.1, hc.2.1, hc.2.2.1, hc.2.2.2, (Option.some.inj h).symm⟩
  · cases h

theorem RxRing.Nic.lastPosted {r r' : RxRing} (h : r.Nic r') : r'.lastPosted = r.lastPosted := by
  cases h with
  | rest => rfl
  | rxdctl v => rfl
  | receive wb hr =>
    obtain ⟨-, -, -, -, rfl⟩ := RxRing.receive_eq hr
    rfl

/-! ## The protocol -/

/-- The receive ring at `base`, with the lengths `lens` known to have been reported first. -/
structure RxProto (n : RingSize) (base D : Nat) (lens : List Nat) (W T R P : Nat) (r : RxRing) :
    Prop where
  base_eq : r.base = base
  len : r.len = n.num
  rdh : r.rdh = W % n.num
  rdt : r.rdt = T % n.num
  order : D ≤ W ∧ W ≤ T ∧ T ≤ R ∧ R ≤ P ∧ P ≤ R + 1
  lap : T < D + n.num ∧ R ≤ D + n.num ∧ P ≤ W + n.num
  done : ∀ k, D ≤ k → k < W → (r.desc (n.addr base k)).dd = true ∧
    (r.desc (n.addr base k)).eop = true ∧
    (r.wbs.map (·.length))[k]? = some (r.desc (n.addr base k)).length
  clear : ∀ k, W ≤ k → k < R → (r.desc (n.addr base k)).dd = false
  posted : ∀ k, W ≤ k → k < P → r.fresh (n.addr base k) = true ∧
    (r.desc (n.addr base k)).lo = r.lastPosted (n.addr base k)
  slots : r.wbs.map (·.slot) = (List.range W).map (· % n.num)
  reset : ∀ e ∈ r.wbs, e.wasReset = true
  known : lens <+: r.wbs.map (·.length)

/-- The protocol as the driver knows it: at least `m` packets have been written back. -/
def RxAt (n : RingSize) (base D : Nat) (lens : List Nat) (m T R P : Nat) (r : RxRing) : Prop :=
  ∃ W, m ≤ W ∧ RxProto n base D lens W T R P r

section
variable {n : RingSize} {base D : Nat} {lens : List Nat} {m W T R P : Nat} {r r' : RxRing}

namespace RxProto

theorem wbs_length (h : RxProto n base D lens W T R P r) : r.wbs.length = W := by
  have := congrArg List.length h.slots
  simpa using this

theorem rdh_addr (h : RxProto n base D lens W T R P r) :
    descAddr r.base r.rdh = n.addr base W := by
  rw [h.base_eq, h.rdh, RingSize.addr]

theorem receive (h : RxProto n base D lens W T R P r) {wb : RxDesc} (hr : r.receive wb = some r') :
    RxProto n base D lens (W + 1) T R P r' := by
  obtain ⟨-, hne, hdd, heop, rfl⟩ := RxRing.receive_eq hr
  have hlen := h.wbs_length
  obtain ⟨hDW, hWT, hTR, hRP, hPR⟩ := h.order
  obtain ⟨hTD, hRD, hPW⟩ := h.lap
  have hWltT : W < T := by
    rcases Nat.lt_or_eq_of_le hWT with hlt | rfl
    · exact hlt
    · exact absurd (h.rdh.trans h.rdt.symm) hne
  rw [h.rdh_addr]
  refine ⟨h.base_eq, h.len, ?_, h.rdt, by omega, by omega, ?_, ?_, ?_, ?_, ?_, ?_⟩ <;> dsimp only
  · rw [h.rdh, h.len, succ_mod_mod]
  · intro k hDk hk
    rw [List.map_append]
    by_cases hkW : k = W
    · rw [hkW, Function.update_self]
      refine ⟨hdd, heop, ?_⟩
      rw [List.getElem?_append_right (by rw [List.length_map, hlen]), List.length_map, hlen]
      simp
    · have hother : n.addr base k ≠ n.addr base W :=
        RingSize.addr_ne hDk (by omega) hDW (by omega) hkW
      rw [Function.update_of_ne hother,
        List.getElem?_append_left (by rw [List.length_map, hlen]; omega)]
      exact h.done k hDk (by omega)
  · intro k hWk hkR
    rw [Function.update_of_ne (RingSize.addr_ne (a := D) (by omega) (by omega) hDW (by omega) (by omega))]
    exact h.clear k (by omega) hkR
  · intro k hWk hkP
    have hother : n.addr base k ≠ n.addr base W :=
      RingSize.addr_ne (a := W) (by omega) (by omega) (by omega) (by omega) (by omega)
    rw [Function.update_of_ne hother, Function.update_of_ne hother]
    exact h.posted k (by omega) hkP
  · rw [List.map_append, List.range_succ, List.map_append, h.slots]
    simp [h.rdh]
  · intro e he
    rw [List.mem_append, List.mem_singleton] at he
    rcases he with he | rfl
    · exact h.reset e he
    · simp [h.clear W (Nat.le_refl W) (by omega), (h.posted W (Nat.le_refl W) (by omega)).1]
  · rw [List.map_append]
    exact h.known.trans (List.prefix_append _ _)

end RxProto

namespace RxAt

theorem init (hbase : r.base = base) (hlen : r.len = n.num) (hrdh : r.rdh = 0) (hrdt : r.rdt = 0)
    (hwbs : r.wbs = []) : RxAt n base 0 [] 0 0 0 0 r := by
  have hn := n.pos
  exact ⟨0, Nat.le_refl 0, hbase, hlen, by rw [hrdh, Nat.zero_mod], by rw [hrdt, Nat.zero_mod],
    by omega, by omega, fun k _ hk => absurd hk (Nat.not_lt_zero k),
    fun k _ hk => absurd hk (Nat.not_lt_zero k), fun k _ hk => absurd hk (Nat.not_lt_zero k),
    by rw [hwbs]; rfl, by simp [hwbs], by simp⟩

/-- Nothing the NIC does breaks the protocol. -/
theorem nic (h : RxAt n base D lens m T R P r) (hr : r.Nic r') : RxAt n base D lens m T R P r' := by
  obtain ⟨W, hm, h⟩ := h
  cases hr with
  | rest => exact ⟨W, hm, h⟩
  | rxdctl v =>
    exact ⟨W, hm, h.base_eq, h.len, h.rdh, h.rdt, h.order, h.lap, h.done, h.clear, h.posted, h.slots,
      h.reset, h.known⟩
  | receive wb hr => exact ⟨W + 1, by omega, h.receive hr⟩

/-! ## What the driver does -/

/-- A packet is waiting exactly when the descriptor of counter `D` has `DD` set. -/
theorem waiting (h : RxAt n base D lens m T R P r) (hR : D < R)
    (hdd : (r.desc (n.addr base D)).dd = true) : RxAt n base D lens (D + 1) T R P r := by
  obtain ⟨W, hm, h⟩ := h
  refine ⟨W, ?_, h⟩
  by_contra hW
  have hDW := h.order.1
  rw [h.clear D (by omega) hR] at hdd
  cases hdd

theorem packet (h : RxAt n base D lens (D + 1) T R P r) (hlens : lens.length = D) :
    (r.desc (n.addr base D)).eop = true ∧
    RxAt n base D (lens ++ [(r.desc (n.addr base D)).length]) (D + 1) T R P r := by
  obtain ⟨W, hm, h⟩ := h
  obtain ⟨-, heop, hlen⟩ := h.done D (Nat.le_refl D) hm
  refine ⟨heop, W, hm, { h with known := ?_ }⟩
  obtain ⟨rest, hrest⟩ := h.known
  rw [← hrest, List.getElem?_append_right (by omega), hlens, Nat.sub_self] at hlen
  rw [← hrest]
  cases rest with
  | nil => cases hlen
  | cons x rest =>
    rw [List.getElem?_cons_zero, Option.some.injEq] at hlen
    exact ⟨rest, by rw [hlen, List.append_assoc, List.singleton_append]⟩

theorem post (h : RxAt n base D lens m T R R r) (hm : R + 1 ≤ m + n.num) (v : Nat) :
    RxAt n base D lens m T R (R + 1) (r.store (n.addr base R) .pktAddr v) := by
  obtain ⟨W, hW, h⟩ := h
  obtain ⟨hDW, hWT, hTR, -, -⟩ := h.order
  -- the second quadwords are those of before
  have hsame := fun a => RxDesc.writeBack_congr (d := (r.store (n.addr base R) .pktAddr v).desc a)
    (e := r.desc a) (by
      simp only [RxRing.store]
      by_cases ha : a = n.addr base R
      · rw [ha, Function.update_self]
      · rw [Function.update_of_ne ha])
  refine ⟨W, hW, h.base_eq, h.len, h.rdh, h.rdt, by omega, by have := h.lap; omega, ?_, ?_, ?_, h.slots,
    h.reset, h.known⟩
  · intro k hk hk'
    rw [(hsame _).1, (hsame _).2.1, (hsame _).2.2]
    exact h.done k hk hk'
  · intro k hk hk'
    rw [(hsame _).1]
    exact h.clear k hk hk'
  · intro k hk hk'
    simp only [RxRing.store]
    by_cases hkR : k = R
    · rw [hkR, Function.update_self, Function.update_self, Function.update_self]
      exact ⟨rfl, rfl⟩
    · have hne : n.addr base k ≠ n.addr base R :=
        RingSize.addr_ne (a := W) hk (by omega) (by omega) (by omega) hkR
      rw [Function.update_of_ne hne, Function.update_of_ne hne, Function.update_of_ne hne]
      exact h.posted k hk (by omega)

/-- Clearing the status: the second half of a reset. The descriptor leaves the window `[D, W)`. -/
theorem clearStatus {E : Nat} (h : RxAt n base D lens m T R (R + 1) r) (hD : D ≤ E) (hm : E ≤ m)
    (hR : R + 1 ≤ E + n.num) :
    RxAt n base E lens m T (R + 1) (R + 1) (r.store (n.addr base R) .hdrAddr 0) := by
  obtain ⟨W, hW, h⟩ := h
  obtain ⟨hDW, hWT, hTR, -, -⟩ := h.order
  obtain ⟨hTD, hRD, hPW⟩ := h.lap
  refine ⟨W, hW, h.base_eq, h.len, h.rdh, h.rdt, by omega, by omega, ?_, ?_, ?_, h.slots, h.reset,
    h.known⟩ <;> simp only [RxRing.store]
  · intro k hk hk'
    have hne : n.addr base k ≠ n.addr base R :=
      RingSize.addr_ne (a := E) hk (by omega) (by omega) (by omega) (by omega)
    rw [Function.update_of_ne hne]
    exact h.done k (by omega) hk'
  · intro k hk hk'
    by_cases hkR : k = R
    · rw [hkR, Function.update_self, RxDesc.dd_hdrAddr_zero]
    · have hne : n.addr base k ≠ n.addr base R :=
        RingSize.addr_ne (a := W) hk (by omega) (by omega) (by omega) hkR
      rw [Function.update_of_ne hne]
      exact h.clear k hk (by omega)
  · intro k hk hk'
    obtain ⟨hfresh, hlo⟩ := h.posted k hk hk'
    refine ⟨hfresh, ?_⟩
    rw [← hlo]
    by_cases ha : n.addr base k = n.addr base R
    · rw [ha, Function.update_self]
    · rw [Function.update_of_ne ha]

theorem setHead (h : RxAt n base D lens m 0 R P r) : RxAt n base D lens m 0 R P { r with rdh := 0 } := by
  obtain ⟨W, hW, h⟩ := h
  have hW0 : W = 0 := by have := h.order; omega
  exact ⟨W, hW, h.base_eq, h.len, by rw [hW0, Nat.zero_mod], h.rdt, h.order, h.lap, h.done, h.clear,
    h.posted, h.slots, h.reset, h.known⟩

theorem setTail {U v : Nat} (h : RxAt n base D lens m T R P r) (hv : v = U % n.num) (hT : T ≤ U)
    (hR : U ≤ R) (hD : U < D + n.num) : RxAt n base D lens m U R P { r with rdt := v } := by
  obtain ⟨W, hW, h⟩ := h
  obtain ⟨hDW, hWT, hTR, hRP, hPR⟩ := h.order
  obtain ⟨hTD, hRD, hPW⟩ := h.lap
  exact ⟨W, hW, h.base_eq, h.len, h.rdh, hv, by omega, by omega, h.done, h.clear, h.posted, h.slots,
    h.reset, h.known⟩

end RxAt
end

end Ixy
