import Ixy.Driver.Interference

/-!
# The transmit ring as counters

`acc` is the list of packets handed to the NIC so far and `A` its length, so that `TDT = A % n`; the
NIC has fetched the first `F` of them (`TDH = F % n`), and the driver has freed the first `C`. They
satisfy `C ≤ F ≤ A < C + n`: one slot is always spare, which is what tells a full ring from an empty
one. The slots of `[F, A)` hold what the driver wrote, with `DD` clear because writing
`olinfo_status` overlays the status word; a slot of `[C, F)` has `DD` set exactly if the NIC has
reported its packet. Completions come in any order, but the driver only ever looks at counter `C`.

`TxAt` hides `F` behind what the driver can know: the packets below `K` have been reported, and the
descriptor of the spare slot `A`, which only the driver writes, satisfies `P`. Nothing the NIC does
breaks it (`TxAt.nic`).
-/

namespace Ixy

open Lib

/-- The descriptor tells the NIC to send the packet `e`. -/
structure TxDesc.Sends (d : TxDesc) (e : TxEntry) : Prop where
  bufferAddr : d.bufferAddr = (e.phy + PktBuf.dataOffset) % 2 ^ 64
  dtalen : d.dtalen = e.size
  paylen : d.paylen = e.size

/-- What is logged when a packet is freed. -/
def TxEntry.freed (e : TxEntry) : Nat × Nat := (e.buf, e.pool)

structure TxProto (n : RingSize) (base : Nat) (acc : List TxEntry) (C F K : Nat) (virt : Nat → Nat)
    (t : TxRing) : Prop where
  base_eq : t.base = base
  len : t.len = n.num
  tdt : t.tdt = acc.length % n.num
  tdh : t.tdh = F % n.num
  accepted : t.accepted = acc
  order : C ≤ K ∧ K ≤ F ∧ F ≤ acc.length
  lap : acc.length < C + n.num
  reclaimed : t.reclaimed = (acc.take C).map TxEntry.freed
  recorded : ∀ k e, C ≤ k → acc[k]? = some e → virt (k % n.num) = e.buf
  posted : ∀ k e, F ≤ k → acc[k]? = some e →
    (t.desc (n.addr base k)).Sends e ∧ (t.desc (n.addr base k)).dd = false
  fetched_length : t.fetched.length = F
  fetched : ∀ k e f, acc[k]? = some e → t.fetched[k]? = some f → f.slot = k % n.num ∧ f.desc.Sends e
  pending : ∀ k, C ≤ k → k < F → ((t.desc (n.addr base k)).dd = true ↔ k ∈ t.completed)
  completed_lt : ∀ k ∈ t.completed, k < F
  completed_nodup : t.completed.Nodup
  known : ∀ k < K, k ∈ t.completed

/-- The protocol as the driver knows it. -/
def TxAt (n : RingSize) (base : Nat) (acc : List TxEntry) (C K : Nat) (virt : Nat → Nat)
    (P : TxDesc → Prop) (t : TxRing) : Prop :=
  ∃ F, TxProto n base acc C F K virt t ∧ P (t.desc (n.addr base acc.length))

/-! ## What the NIC does -/

theorem TxRing.fetch_eq {t t' : TxRing} {dma : Nat → Nat → List UInt8} (h : t.fetch dma = some t') :
    t.tdh ≠ t.tdt ∧ t' = { t with
      tdh := (t.tdh + 1) % t.len
      fetched := t.fetched ++ [⟨t.tdh, t.desc (descAddr t.base t.tdh),
        dma (t.desc (descAddr t.base t.tdh)).bufferAddr (t.desc (descAddr t.base t.tdh)).dtalen⟩] } := by
  unfold TxRing.fetch at h
  split at h
  · rename_i hne
    exact ⟨hne, (Option.some.inj h).symm⟩
  · cases h

theorem TxRing.complete_eq {t t' : TxRing} {k : Nat} {wb : TxDesc} (h : t.complete k wb = some t') :
    ∃ f, t.fetched[k]? = some f ∧ k ∉ t.completed ∧ wb.dd = true ∧ t' = { t with
      desc := Function.update t.desc (descAddr t.base f.slot) wb
      completed := k :: t.completed } := by
  unfold TxRing.complete at h
  split at h
  · cases h
  · rename_i f hf
    split at h
    · rename_i hc
      exact ⟨f, hf, hc.1, hc.2, (Option.some.inj h).symm⟩
    · cases h

section
variable {n : RingSize} {base : Nat} {acc : List TxEntry} {C F K : Nat} {virt : Nat → Nat}
variable {P : TxDesc → Prop} {t t' : TxRing}

namespace TxProto

theorem fetch (h : TxProto n base acc C F K virt t) {dma : Nat → Nat → List UInt8}
    (ht : t.fetch dma = some t') : TxProto n base acc C (F + 1) K virt t' := by
  obtain ⟨hne, rfl⟩ := TxRing.fetch_eq ht
  obtain ⟨hCK, hKF, hFA⟩ := h.order
  have hlt : F < acc.length := by
    rcases Nat.lt_or_eq_of_le hFA with hlt | rfl
    · exact hlt
    · exact absurd (h.tdh.trans h.tdt.symm) hne
  have haddr : descAddr t.base t.tdh = n.addr base F := by rw [h.base_eq, h.tdh, RingSize.addr]
  obtain ⟨e, he⟩ : ∃ e, acc[F]? = some e := ⟨acc[F], List.getElem?_eq_getElem hlt⟩
  obtain ⟨hsends, hclear⟩ := h.posted F e (Nat.le_refl F) he
  refine ⟨h.base_eq, h.len, h.tdt, ?_, h.accepted, by omega, h.lap, h.reclaimed, h.recorded,
    fun k e hk => h.posted k e (by omega), ?_, ?_, ?_, ?_, h.completed_nodup, h.known⟩ <;> dsimp only
  · rw [h.tdh, h.len, succ_mod_mod]
  · rw [List.length_append, List.length_singleton, h.fetched_length]
  · intro k e' f he' hf
    by_cases hkF : k = F
    · subst hkF
      rw [List.getElem?_append_right (by rw [h.fetched_length]), h.fetched_length, Nat.sub_self,
        List.getElem?_cons_zero, Option.some.injEq] at hf
      rw [he, Option.some.injEq] at he'
      rw [← hf, ← he']
      exact ⟨h.tdh, by rw [haddr]; exact hsends⟩
    · rcases Nat.lt_or_gt_of_ne hkF with hkF | hkF
      · rw [List.getElem?_append_left (by rw [h.fetched_length]; exact hkF)] at hf
        exact h.fetched k e' f he' hf
      · rw [List.getElem?_eq_none (by
          rw [List.length_append, List.length_singleton, h.fetched_length]; omega)] at hf
        cases hf
  · intro k hCk hk
    by_cases hkF : k = F
    · subst hkF
      rw [hclear]
      exact ⟨fun hd => absurd hd (by simp), fun hk => absurd (h.completed_lt k hk) (by omega)⟩
    · exact h.pending k hCk (by omega)
  · intro k hk
    exact Nat.lt_succ_of_lt (h.completed_lt k hk)

theorem complete (h : TxProto n base acc C F K virt t) {k : Nat} {wb : TxDesc}
    (ht : t.complete k wb = some t') : TxProto n base acc C F K virt t' ∧
      ∃ i, C ≤ i ∧ i < acc.length ∧ t'.desc = Function.update t.desc (n.addr base i) wb := by
  obtain ⟨f, hf, hnew, hdd, rfl⟩ := TxRing.complete_eq ht
  obtain ⟨hCK, hKF, hFA⟩ := h.order
  have hlap := h.lap
  have hkF : k < F := by
    rw [← h.fetched_length]
    exact (List.getElem?_eq_some_iff.mp hf).1
  have hKk : K ≤ k := by
    by_contra hlt
    exact hnew (h.known k (by omega))
  obtain ⟨e, he⟩ : ∃ e, acc[k]? = some e := ⟨acc[k], List.getElem?_eq_getElem (by omega)⟩
  have haddr : descAddr t.base f.slot = n.addr base k := by
    rw [h.base_eq, (h.fetched k e f he hf).1, RingSize.addr]
  rw [haddr]
  have hother : ∀ i, C ≤ i → i < C + n.num → i ≠ k → n.addr base i ≠ n.addr base k :=
    fun i hi hi' hik => RingSize.addr_ne hi hi' (by omega) (by omega) hik
  refine ⟨⟨h.base_eq, h.len, h.tdt, h.tdh, h.accepted, h.order, h.lap, h.reclaimed, h.recorded, ?_,
    h.fetched_length, h.fetched, ?_, ?_, ?_, ?_⟩, k, by omega, by omega, rfl⟩ <;> dsimp only
  · intro i e' hi he'
    have hilt := (List.getElem?_eq_some_iff.mp he').1
    rw [Function.update_of_ne (hother i (by omega) (by omega) (by omega))]
    exact h.posted i e' hi he'
  · intro i hi hiF
    by_cases hik : i = k
    · rw [hik, Function.update_self, hdd]
      simp
    · rw [Function.update_of_ne (hother i hi (by omega) hik), List.mem_cons, or_iff_right hik]
      exact h.pending i hi hiF
  · intro i hi
    rcases List.mem_cons.mp hi with rfl | hi
    · exact hkF
    · exact h.completed_lt i hi
  · exact List.nodup_cons.mpr ⟨hnew, h.completed_nodup⟩
  · exact fun i hi => List.mem_cons_of_mem _ (h.known i hi)

end TxProto

namespace TxAt

theorem init (hbase : t.base = base) (hlen : t.len = n.num) (htdh : t.tdh = 0) (htdt : t.tdt = 0)
    (hacc : t.accepted = []) (hfetched : t.fetched = []) (hcompleted : t.completed = [])
    (hreclaimed : t.reclaimed = []) : TxAt n base [] 0 0 virt (fun _ => True) t := by
  have hn := n.pos
  refine ⟨0, ⟨hbase, hlen, ?_, ?_, hacc, ?_, ?_, ?_, ?_, ?_, ?_, ?_, ?_, ?_, ?_, ?_⟩, trivial⟩
  all_goals simp [*]

/-- Nothing the NIC does breaks the protocol. -/
theorem nic (h : TxAt n base acc C K virt P t) {dma : Nat → Nat → List UInt8} (ht : t.Nic dma t') :
    TxAt n base acc C K virt P t' := by
  obtain ⟨F, h, hP⟩ := h
  cases ht with
  | rest => exact ⟨F, h, hP⟩
  | txdctl v =>
    exact ⟨F, ⟨h.base_eq, h.len, h.tdt, h.tdh, h.accepted, h.order, h.lap, h.reclaimed, h.recorded, h.posted,
      h.fetched_length, h.fetched, h.pending, h.completed_lt, h.completed_nodup, h.known⟩, hP⟩
  | fetch ht =>
    refine ⟨F + 1, h.fetch ht, ?_⟩
    obtain ⟨-, rfl⟩ := TxRing.fetch_eq ht
    exact hP
  | complete k wb ht =>
    obtain ⟨h', i, hCi, hi, hdesc⟩ := h.complete ht
    refine ⟨F, h', ?_⟩
    have hlap := h.lap
    rw [hdesc, Function.update_of_ne (RingSize.addr_ne (a := C) (by omega) (by omega) hCi (by omega) (by omega))]
    exact hP

/-! ## What the driver does -/

theorem len (h : TxAt n base acc C K virt P t) : t.len = n.num := h.choose_spec.1.len

theorem tdt (h : TxAt n base acc C K virt P t) : t.tdt = acc.length % n.num := h.choose_spec.1.tdt

theorem accepted (h : TxAt n base acc C K virt P t) : t.accepted = acc := h.choose_spec.1.accepted

theorem reclaimed_length (h : TxAt n base acc C K virt P t) : t.reclaimed.length = C := by
  obtain ⟨F, h, -⟩ := h
  have := h.order
  rw [h.reclaimed, List.length_map, List.length_take]
  omega

theorem inFlight (h : TxAt n base acc C K virt P t) : t.inFlight = acc.drop C := by
  rw [TxRing.inFlight, h.accepted, h.reclaimed_length]

theorem order (h : TxAt n base acc C K virt P t) : C ≤ acc.length ∧ acc.length < C + n.num := by
  obtain ⟨F, h, -⟩ := h
  have := h.order
  exact ⟨by omega, h.lap⟩

theorem known (h : TxAt n base acc C K virt P t) {k : Nat} (hk : k < K) : k ∈ t.completed :=
  h.choose_spec.1.known k hk

theorem known_le (h : TxAt n base acc C K virt P t) : C ≤ K ∧ K ≤ acc.length := by
  obtain ⟨F, h, -⟩ := h
  have horder := h.order
  omega

theorem weaken {L : Nat} (h : TxAt n base acc C K virt P t) (hC : C ≤ L) (hL : L ≤ K) :
    TxAt n base acc C L virt P t := by
  obtain ⟨F, h, hP⟩ := h
  have horder := h.order
  exact ⟨F, { h with order := by omega, known := fun k hk => h.known k (by omega) }, hP⟩

theorem report (h : TxAt n base acc C C virt P t) (hmem : C ∈ t.completed) :
    TxAt n base acc C (C + 1) virt P t := by
  obtain ⟨F, h, hP⟩ := h
  have hCF := h.completed_lt C hmem
  obtain ⟨-, -, hFA⟩ := h.order
  refine ⟨F, { h with order := by omega, known := fun k hk => ?_ }, hP⟩
  by_cases hkC : k = C
  · rw [hkC]
    exact hmem
  · exact h.known k (by omega)

theorem observe (h : TxAt n base acc C K virt P t) (hmem : C ∈ t.completed) :
    ∃ L, K ≤ L ∧ C + 1 ≤ L ∧ TxAt n base acc C L virt P t := by
  rcases Nat.lt_or_ge C K with hlt | hge
  · exact ⟨K, Nat.le_refl K, hlt, h⟩
  · exact ⟨C + 1, by omega, Nat.le_refl _, (h.weaken (Nat.le_refl C) h.known_le.1).report hmem⟩

/-- A packet in flight has been reported exactly if its descriptor has `DD` set. -/
theorem dd_iff (h : TxAt n base acc C K virt P t) (hC : C < acc.length) :
    (t.desc (n.addr base C)).dd = true ↔ C ∈ t.completed := by
  obtain ⟨F, h, -⟩ := h
  by_cases hCF : C < F
  · exact h.pending C (Nat.le_refl C) hCF
  · have hclear := (h.posted C acc[C] (by omega) (List.getElem?_eq_getElem hC)).2
    rw [hclear]
    exact ⟨fun hd => absurd hd (by simp), fun hmem => absurd (h.completed_lt C hmem) hCF⟩

theorem recorded (h : TxAt n base acc C K virt P t) {k : Nat} {e : TxEntry} (hk : C ≤ k)
    (he : acc[k]? = some e) : virt (k % n.num) = e.buf := by
  obtain ⟨F, h, -⟩ := h
  exact h.recorded k e hk he

theorem reclaim (h : TxAt n base acc C K virt P t) (hK : C + 1 ≤ K) {e : TxEntry}
    (he : acc[C]? = some e) :
    TxAt n base acc (C + 1) K virt P { t with reclaimed := t.reclaimed ++ [e.freed] } := by
  obtain ⟨F, h, hP⟩ := h
  obtain ⟨-, hKF, hFA⟩ := h.order
  have hlap := h.lap
  refine ⟨F, ⟨h.base_eq, h.len, h.tdt, h.tdh, h.accepted, by omega, by omega, ?_,
    fun k e hk => h.recorded k e (by omega), h.posted, h.fetched_length, h.fetched,
    fun k hk => h.pending k (by omega), h.completed_lt, h.completed_nodup, h.known⟩, hP⟩
  dsimp only
  rw [h.reclaimed, List.take_add_one, he, List.map_append]
  rfl

theorem record (h : TxAt n base acc C K virt P t) (b : Nat) :
    TxAt n base acc C K (Function.update virt (acc.length % n.num) b) P t := by
  obtain ⟨F, h, hP⟩ := h
  have hlap := h.lap
  refine ⟨F, { h with recorded := fun k e hk he => ?_ }, hP⟩
  have hlt := (List.getElem?_eq_some_iff.mp he).1
  rw [Function.update_of_ne (mod_ne (a := C) hk (by omega) (by omega) (by omega) (by omega))]
  exact h.recorded k e hk he

theorem write {Q : TxDesc → Prop} (h : TxAt n base acc C K virt P t) {f : TxDesc → TxDesc}
    (hf : ∀ d, P d → Q (f d)) : TxAt n base acc C K virt Q { t with
      desc := Function.update t.desc (n.addr base acc.length) (f (t.desc (n.addr base acc.length))) } := by
  obtain ⟨F, h, hspare⟩ := h
  obtain ⟨hCK, hKF, hFA⟩ := h.order
  have hlap := h.lap
  have hother : ∀ k, C ≤ k → k < acc.length → n.addr base k ≠ n.addr base acc.length :=
    fun k hk hk' => RingSize.addr_ne hk (by omega) (by omega) (by omega) (by omega)
  refine ⟨F, ⟨h.base_eq, h.len, h.tdt, h.tdh, h.accepted, h.order, h.lap, h.reclaimed, h.recorded,
    fun k e hk he => ?_, h.fetched_length, h.fetched, fun k hk hk' => ?_, h.completed_lt,
    h.completed_nodup, h.known⟩, ?_⟩ <;> dsimp only
  · have hlt := (List.getElem?_eq_some_iff.mp he).1
    rw [Function.update_of_ne (hother k (by omega) hlt)]
    exact h.posted k e hk he
  · rw [Function.update_of_ne (hother k hk (by omega))]
    exact h.pending k hk hk'
  · rw [Function.update_self]
    exact hf _ hspare

/-- Moving the tail hands the packet in the spare slot to the NIC, if another slot remains spare. -/
theorem handOver (h : TxAt n base acc C K virt P t) {e : TxEntry} (hroom : acc.length + 1 < C + n.num)
    (hvirt : virt (acc.length % n.num) = e.buf) (hP : ∀ d, P d → d.Sends e ∧ d.dd = false) {v : Nat}
    (hv : v = (acc.length + 1) % n.num) :
    TxAt n base (acc ++ [e]) C K virt (fun _ => True)
      { t with tdt := v, accepted := t.accepted ++ [e] } := by
  obtain ⟨F, h, hspare⟩ := h
  obtain ⟨hCK, hKF, hFA⟩ := h.order
  have hlen : (acc ++ [e]).length = acc.length + 1 := by simp
  -- the new list has the old packets below its last one
  have hget : ∀ k e', (acc ++ [e])[k]? = some e' → acc[k]? = some e' ∨ (k = acc.length ∧ e' = e) := by
    intro k e' he'
    rcases Nat.lt_trichotomy k acc.length with hk | hk | hk
    · rw [List.getElem?_append_left hk] at he'
      exact Or.inl he'
    · rw [hk, List.getElem?_concat_length, Option.some.injEq] at he'
      exact Or.inr ⟨hk, he'.symm⟩
    · rw [List.getElem?_eq_none (by rw [hlen]; omega)] at he'
      cases he'
  refine ⟨F, ⟨h.base_eq, h.len, by rw [hlen]; exact hv, h.tdh, by rw [h.accepted],
    by rw [hlen]; omega, by rw [hlen]; omega, ?_, ?_, ?_, h.fetched_length, ?_, h.pending, h.completed_lt,
    h.completed_nodup, h.known⟩, trivial⟩
  · dsimp only
    rw [h.reclaimed, List.take_append_of_le_length (by omega)]
  · intro k e' hk he'
    rcases hget k e' he' with he' | ⟨rfl, rfl⟩
    · exact h.recorded k e' hk he'
    · exact hvirt
  · intro k e' hk he'
    rcases hget k e' he' with he' | ⟨rfl, rfl⟩
    · exact h.posted k e' hk he'
    · exact hP _ hspare
  · intro k e' f he' hf
    rcases hget k e' he' with he' | ⟨rfl, rfl⟩
    · exact h.fetched k e' f he' hf
    · have hlt := (List.getElem?_eq_some_iff.mp hf).1
      rw [h.fetched_length] at hlt
      omega

theorem setHead (h : TxAt n base [] 0 0 virt P t) : TxAt n base [] 0 0 virt P { t with tdh := 0 } := by
  obtain ⟨F, h, hP⟩ := h
  obtain ⟨-, -, hF⟩ := h.order
  rw [List.length_nil, Nat.le_zero] at hF
  exact ⟨F, { h with tdh := by rw [hF, Nat.zero_mod] }, hP⟩

theorem setTail (h : TxAt n base [] 0 0 virt P t) : TxAt n base [] 0 0 virt P { t with tdt := 0 } := by
  obtain ⟨F, h, hP⟩ := h
  exact ⟨F, { h with tdt := (Nat.zero_mod _).symm }, hP⟩

/-- The driver's comparison of `clean_index` with `tx_index`: is there anything to clean? -/
theorem clean_ne_iff (h : TxAt n base acc C K virt P t) :
    C % n.num ≠ acc.length % n.num ↔ C < acc.length := by
  obtain ⟨F, h, -⟩ := h
  have hlap := h.lap
  have horder := h.order
  constructor
  · intro hne
    rcases Nat.lt_or_eq_of_le (show C ≤ acc.length by omega) with hlt | heq
    · exact hlt
    · exact absurd (by rw [← heq]) hne
  · intro hlt
    exact mod_ne (a := C) (by omega) (by omega) (by omega) (by omega) (by omega)

/-- The driver's comparison of `clean_index` with the next index: is the ring full? -/
theorem full_iff (h : TxAt n base acc C K virt P t) :
    C % n.num = (acc.length + 1) % n.num ↔ acc.length + 1 = C + n.num := by
  obtain ⟨F, h, -⟩ := h
  have hlap := h.lap
  have horder := h.order
  constructor
  · intro he
    by_contra hne
    exact mod_ne (a := C) (by omega) (by omega) (by omega) (by omega) (by omega) he
  · intro he
    rw [he, Nat.add_mod_right]

end TxAt
end

end Ixy
