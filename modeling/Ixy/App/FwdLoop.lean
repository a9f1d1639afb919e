import Ixy.App.Fwd
import Ixy.Driver.TxFifo

/-!
# What the main loop of `ixy-fwd` keeps

Buffers are counted, not followed: of the 4096 buffers, 1024 are posted, at most 1023 are in flight, one may be in
hand, and the rest are free or lost. A call of `ixgbe_tx_packet` that does not begin with the ring jammed takes its
packet, because cleaning frees what has been reported before the call. So the number of lost buffers is at most the
number of calls that began with the ring jammed, and without such calls the pool never runs empty (`fwd_buffers`).

Packets are followed: what the transmit ring accepts are the packets taken from the receive ring, in their order and
each at most once, without those that were lost (`fwd_in_order`).

`pkt_buf_free` reads the pool and the index of a buffer from the buffer's header, to which `start_rx_queue` lets the
first frames be written (`Ixy.Driver.RxFrames`). Both results are about the runs in which the frames leave alone what
the driver still needs of the headers (`keptStep`).
-/

namespace Ixy

open Lib

/-! ## The NIC -/

/-- The fields in the header of the buffer recorded for descriptor `i` that are not to be changed by a frame received
in descriptor `rdh`. -/
def keptFields (rdh i : Nat) : List PktBuf.Field :=
  if i = rdh then [.mempool, .mempoolIdx] else [.bufAddrPhy, .mempool, .mempoolIdx, .size]

/-- With the contents `m` of memory, the recorded buffers have these fields as before. -/
def HeadersKept (s : Dev) (m : Mem) : Prop :=
  ∀ i < s.rxq.numEntries, ∀ f ∈ keptFields s.rx.rdh i,
    PktBuf.get m (s.rxq.virtualAddresses i) f = PktBuf.get s.w.mem (s.rxq.virtualAddresses i) f

instance (s : Dev) (m : Mem) : Decidable (HeadersKept s m) :=
  inferInstanceAs (Decidable (∀ i < s.rxq.numEntries, ∀ f ∈ keptFields s.rx.rdh i,
    PktBuf.get m (s.rxq.virtualAddresses i) f = PktBuf.get s.w.mem (s.rxq.virtualAddresses i) f))

/-- What such a frame can do to memory. -/
def keptFrames (s : Dev) (m : Mem) : Prop := s.rx.rdh ≠ s.rx.rdt ∧ HeadersKept s m

/-- The buffers that are not free are posted, in flight, in hand, or lost. The others are on the free stack. -/
def FwdOk (s : Dev) : Prop :=
  ∀ ptr ∈ s.w.live, (s.w.pools ptr).missing ≤ 1024 + 1023 + 1 + s.app.jams ∧
    ∀ i < (s.w.pools ptr).freeStackTop, (s.w.pools ptr).freeStack i < (s.w.pools ptr).numEntries

/-- What the NIC has reported on the receive ring: the recorded buffer of the slot, and the length. -/
def Dev.received (s : Dev) : List (Nat × Nat) :=
  s.rx.wbs.map fun e => (s.rxq.virtualAddresses e.slot, e.length)

/-- Those before `rx_index`, which `ixgbe_rx_packet` has taken. -/
def Dev.taken (s : Dev) : List (Nat × Nat) :=
  s.received.take (s.received.length - ringDist s.rx.len s.rxq.rxIndex s.rx.rdh)

def TxEntry.packet (e : TxEntry) : Nat × Nat := (e.buf, e.size)

/-- What the transmit ring has accepted. -/
def Dev.sent (s : Dev) : List (Nat × Nat) := s.tx.accepted.map TxEntry.packet

/-- What is taken is sent, in the same order. -/
structure FwdInOrder (s : Dev) : Prop where
  order : s.sent.Sublist s.taken
  /-- Missing are at most the one in hand and one for each jam. -/
  lost : s.taken.length ≤ s.sent.length + s.app.jams + 1
  /-- The NIC fetches them with their lengths. -/
  wire : s.tx.fetched.map (·.desc.dtalen) <+: s.sent.map (·.2)

/-- What holds at every moment. -/
structure FwdInv (s : Dev) : Prop where
  ok : FwdOk s
  inOrder : FwdInOrder s

/-! ## Packets -/

section
variable {n : RingSize} {base base' D C K T R P : Nat} {lens lens' : List Nat} {acc : List TxEntry}
variable {virt : Nat → Nat} {Q : TxDesc → Prop} {r : RxRing} {t : TxRing}

/-- The packets of the lengths `lens`, in consecutive slots. -/
def rxPackets (n : RingSize) (virt : Nat → Nat) (lens : List Nat) : List (Nat × Nat) :=
  lens.mapIdx fun k l => (virt (k % n.num), l)

@[simp] theorem rxPackets_length : (rxPackets n virt lens).length = lens.length := by
  simp [rxPackets]

theorem rxPackets_concat (l : Nat) :
    rxPackets n virt (lens ++ [l]) = rxPackets n virt lens ++ [(virt (lens.length % n.num), l)] := by
  simp [rxPackets, List.mapIdx_concat]

theorem rxPackets_prefix {lens' : List Nat} (h : lens <+: lens') :
    rxPackets n virt lens <+: rxPackets n virt lens' := by
  obtain ⟨rest, rfl⟩ := h
  unfold rxPackets
  rw [List.mapIdx_append]
  exact List.prefix_append _ _

theorem RxProto.packets {W : Nat} (h : RxProto n base D lens W T R P r) (virt : Nat → Nat) :
    r.wbs.map (fun e => (virt e.slot, e.length)) = rxPackets n virt (r.wbs.map (·.length)) := by
  apply List.ext_getElem?
  intro k
  have hslot : (r.wbs.map (·.slot))[k]? = ((List.range W).map (· % n.num))[k]? := by rw [h.slots]
  rw [List.getElem?_map, List.getElem?_map] at hslot
  unfold rxPackets
  rw [List.getElem?_mapIdx, List.getElem?_map, List.getElem?_map]
  rcases hk : r.wbs[k]? with _ | e
  · rfl
  · have hkW : k < W := by
      rw [← h.wbs_length]
      exact (List.getElem?_eq_some_iff.mp hk).1
    rw [hk, List.getElem?_range hkW, Option.map_some, Option.map_some, Option.some.injEq] at hslot
    rw [Option.map_some, Option.map_some, Option.map_some, hslot]

theorem RxWithin.taken (h : RxWithin n base lens' lens.length r) (hpre : lens <+: lens') {d : Dev} (hrx : d.rx = r)
    (hindex : d.rxq.rxIndex = lens.length % n.num) : d.taken = rxPackets n d.rxq.virtualAddresses lens := by
  obtain ⟨D, lens'', T, R, P, hpre', hT, W, hW, h⟩ := h
  have hle := hpre.length_le
  have horder := h.order
  have hreceived : d.received = rxPackets n d.rxq.virtualAddresses (r.wbs.map (·.length)) := by
    rw [Dev.received, hrx]
    exact h.packets _
  have hprefix : rxPackets n d.rxq.virtualAddresses lens <+:
      rxPackets n d.rxq.virtualAddresses (r.wbs.map (·.length)) :=
    rxPackets_prefix ((hpre.trans hpre').trans h.known)
  rw [Dev.taken, hreceived, rxPackets_length, List.length_map, hrx, hindex, h.wbs_length, h.len, h.rdh,
    ringDist_mod (by omega) (by omega), Nat.sub_sub_self (by omega)]
  have htake := List.prefix_iff_eq_take.mp hprefix
  rw [rxPackets_length] at htake
  exact htake.symm

theorem TxHistory.wire (h : TxHistory n t) :
    t.fetched.map (·.desc.dtalen) <+: t.accepted.map (·.size) := by
  apply List.prefix_iff_getElem?.mpr
  intro k hk
  rw [List.length_map] at hk
  have hk' := Nat.lt_of_lt_of_le hk h.fetched_le
  have hsends := (h.fetched k _ _ (List.getElem?_eq_getElem hk') (List.getElem?_eq_getElem hk)).2
  rw [List.getElem?_map, List.getElem?_eq_getElem hk', List.getElem_map, hsends.dtalen]
  rfl

end

/-- Of the packets `lens` taken from the receive ring, `acc` have been accepted and `x` are missing. -/
structure FwdFlow (virt : Nat → Nat) (lens : List Nat) (acc : List TxEntry) (x : Nat) : Prop where
  order : (acc.map TxEntry.packet).Sublist (rxPackets queueEntries virt lens)
  count : lens.length = acc.length + x

section
variable {virt : Nat → Nat} {lens lens' : List Nat} {acc : List TxEntry} {e : TxEntry} {C K x l : Nat}
variable {r : RxRing} {t : TxRing}

theorem FwdFlow.nil (virt : Nat → Nat) : FwdFlow virt [] [] 0 := by
  constructor <;> simp

theorem FwdFlow.accepted (h : FwdFlow virt lens acc x)
    (he : e.packet = (virt (lens.length % queueEntries.num), l)) :
    FwdFlow virt (lens ++ [l]) (acc ++ [e]) x := by
  constructor
  · rw [rxPackets_concat, List.map_append, List.map_singleton, he]
    exact h.order.append (List.Sublist.refl _)
  · have hcount := h.count
    simp only [List.length_append, List.length_singleton]
    omega

theorem FwdFlow.lost (h : FwdFlow virt lens acc x) (l : Nat) : FwdFlow virt (lens ++ [l]) acc (x + 1) := by
  constructor
  · rw [rxPackets_concat]
    exact h.order.trans (List.sublist_append_left _ _)
  · have hcount := h.count
    simp only [List.length_append, List.length_singleton]
    omega

/-- With as many packets missing as there were jams, and one in hand, the order is kept. -/
theorem FwdFlow.inOrder {base base' : Nat} {virt' : Nat → Nat} {P : TxDesc → Prop} {d : Dev}
    (h : FwdFlow d.rxq.virtualAddresses lens acc x) (hindex : d.rxq.rxIndex = lens.length % queueEntries.num)
    (hr : RxWithin queueEntries base lens' lens.length r) (hpre : lens <+: lens')
    (ht : TxAt queueEntries base' acc C K virt' P t) (hx : x ≤ d.app.jams + 1) (w : World) :
    FwdInOrder (d.put w r t) := by
  have hsent : (d.put w r t).sent = acc.map TxEntry.packet := by
    change t.accepted.map _ = _
    rw [ht.accepted]
  have htaken : (d.put w r t).taken = rxPackets queueEntries d.rxq.virtualAddresses lens :=
    hr.taken (d := d.put w r t) hpre rfl hindex
  constructor
  · rw [hsent, htaken]
    exact h.order
  · have hcount := h.count
    rw [hsent, htaken, rxPackets_length, List.length_map]
    change lens.length ≤ acc.length + d.app.jams + 1
    omega
  · change t.fetched.map _ <+: (t.accepted.map _).map _
    rw [List.map_map]
    exact ht.history.wire

end

/-! ## Buffers -/

/-- The world with the packets `fl` in flight and `x` buffers in hand or lost. -/
structure FwdWorld (ptr : Nat) (virt : Nat → Nat) (fl : List TxEntry) (x : Nat) (w : World) : Prop where
  live : w.live = [ptr]
  entries : (w.pools ptr).numEntries = 4096
  count : (w.pools ptr).freeStackTop + 1024 + fl.length + x = 4096
  stack : ∀ i < (w.pools ptr).freeStackTop, (w.pools ptr).freeStack i < 4096
  /-- The recorded buffers know their pool and their index. -/
  headers : ∀ i < queueEntries.num, PktBuf.get w.mem (virt i) .mempool = ptr ∧
    PktBuf.get w.mem (virt i) .mempoolIdx < 4096
  /-- Only recorded buffers are in flight. -/
  flight : ∀ e ∈ fl, e.pool = ptr ∧ ∃ i < queueEntries.num, e.buf = virt i

section
variable {ptr x : Nat} {virt : Nat → Nat} {fl : List TxEntry} {w : World} {e : TxEntry}

namespace FwdWorld

theorem ok (h : FwdWorld ptr virt fl x w) (hfl : fl.length ≤ 1023) {d : Dev} (hw : d.w = w)
    (hx : x ≤ 1 + d.app.jams) : FwdOk d := by
  intro q hq
  rw [hw, h.live, List.mem_singleton] at hq
  subst hq
  have hcount := h.count
  rw [hw, Mempool.missing, h.entries]
  exact ⟨by omega, h.stack⟩

theorem alloc (h : FwdWorld ptr virt fl x w) (hsome : (pktBufAlloc w ptr).1 ≠ none) :
    FwdWorld ptr virt fl (x + 1) (pktBufAlloc w ptr).2 := by
  have htop : (w.pools ptr).freeStackTop ≠ 0 := fun h0 => hsome (pktBufAlloc_eq_none_iff.mpr h0)
  have hpool : (pktBufAlloc w ptr).2.pools ptr = (w.pools ptr).pop := by
    rw [pktBufAlloc_of_ne htop]
    exact Function.update_self ..
  have hcount := h.count
  refine ⟨by rw [pktBufAlloc_live, h.live], ?_, ?_, ?_, ?_, h.flight⟩
  · rw [hpool]
    exact h.entries
  · rw [hpool]
    change (w.pools ptr).freeStackTop - 1 + 1024 + fl.length + (x + 1) = 4096
    omega
  · rw [hpool]
    intro i hi
    have hi : i < (w.pools ptr).freeStackTop - 1 := hi
    exact h.stack i (by omega)
  · rw [pktBufAlloc_mem]
    exact h.headers

theorem free (h : FwdWorld ptr virt (e :: fl) x w) :
    PktBuf.get w.mem e.buf .mempool = e.pool ∧ FwdWorld ptr virt fl x (pktBufFree w e.buf) := by
  obtain ⟨hpool, i, hi, hbuf⟩ := h.flight e List.mem_cons_self
  obtain ⟨hmempool, hidx⟩ := h.headers i hi
  rw [← hbuf] at hmempool hidx
  have hcount := h.count
  rw [List.length_cons] at hcount
  have hpush : (pktBufFree w e.buf).pools ptr = (w.pools ptr).push (PktBuf.get w.mem e.buf .mempoolIdx) := by
    rw [pktBufFree, hmempool]
    exact Function.update_self ..
  have htop : ((w.pools ptr).push (PktBuf.get w.mem e.buf .mempoolIdx)).freeStackTop =
      (w.pools ptr).freeStackTop + 1 := Nat.mod_eq_of_lt (by omega)
  refine ⟨hmempool.trans hpool.symm, h.live, ?_, ?_, ?_, h.headers, ?_⟩
  · rw [hpush]
    exact h.entries
  · rw [hpush, htop]
    omega
  · rw [hpush, htop]
    intro j hj
    change Function.update (w.pools ptr).freeStack (w.pools ptr).freeStackTop _ j < _
    by_cases hlast : j = (w.pools ptr).freeStackTop
    · rw [hlast, Function.update_self]
      exact hidx
    · rw [Function.update_of_ne hlast]
      exact h.stack j (by omega)
  · intro e' he'
    exact h.flight e' (List.mem_cons_of_mem _ he')

theorem append (h : FwdWorld ptr virt fl (x + 1) w) {i : Nat} (hi : i < queueEntries.num)
    (he : Dev.entry w.mem (virt i) = e) : FwdWorld ptr virt (fl ++ [e]) x w := by
  have hcount := h.count
  refine ⟨h.live, h.entries, ?_, h.stack, h.headers, ?_⟩
  · rw [List.length_append, List.length_singleton]
    omega
  · intro e' he'
    rw [List.mem_append, List.mem_singleton] at he'
    rcases he' with he' | rfl
    · exact h.flight e' he'
    · rw [← he]
      exact ⟨(h.headers i hi).1, i, hi, rfl⟩

theorem write (h : FwdWorld ptr virt fl x w) {m : Mem} (hm : ∀ i < queueEntries.num, ∀ f ∈ [.mempool, .mempoolIdx],
    PktBuf.get m (virt i) f = PktBuf.get w.mem (virt i) f) : FwdWorld ptr virt fl x { w with mem := m } := by
  refine ⟨h.live, h.entries, h.count, h.stack, ?_, h.flight⟩
  intro i hi
  change PktBuf.get m _ _ = _ ∧ PktBuf.get m _ _ < _
  rw [hm i hi _ (by simp), hm i hi _ (by simp)]
  exact h.headers i hi

end FwdWorld
end

/-- That world, with `E` of the header of the buffer in hand, which is the one recorded for descriptor `k`. -/
def FwdHolding (c : Dev) (k : Nat) (E : TxEntry → Prop) (fl : List TxEntry) (x : Nat) (w : World) : Prop :=
  FwdWorld c.rxq.mempool c.rxq.virtualAddresses fl x w ∧ E (Dev.entry w.mem (c.rxq.virtualAddresses k))

section
variable {c : Dev} {base U x k l : Nat} {lens : List Nat} {E : TxEntry → Prop} {fl : List TxEntry}
variable {w : World} {r : RxRing} {t : TxRing} {m : Mem}

/-- Frames do not matter to the count, … -/
theorem FwdWorld.frame (h : FwdWorld c.rxq.mempool c.rxq.virtualAddresses fl x w)
    (hnum : c.rxq.numEntries = queueEntries.num) (hm : keptFrames (c.put w r t) m) :
    FwdWorld c.rxq.mempool c.rxq.virtualAddresses fl x { w with mem := m } := by
  refine h.write fun i hi f hf => hm.2 i (by rw [← hnum] at hi; exact hi) f ?_
  unfold keptFields
  split
  · exact hf
  · simp only [List.mem_cons, List.not_mem_nil, or_false] at hf ⊢
    rcases hf with rfl | rfl <;> simp

/-- … and do not go to the buffer in hand. -/
theorem FwdHolding.frame (h : FwdHolding c (lens.length % queueEntries.num) E fl x w)
    (hnum : c.rxq.numEntries = queueEntries.num) (hr : RxWithin queueEntries base (lens ++ [l]) U r)
    (hU : U ≤ lens.length + 1) (hm : keptFrames (c.put w r t) m) :
    FwdHolding c (lens.length % queueEntries.num) E fl x { w with mem := m } := by
  refine ⟨h.1.frame hnum hm, ?_⟩
  obtain ⟨W, hlen, hW, hrdh⟩ := hr.arrival hm.1
  rw [List.length_append, List.length_singleton] at hlen
  have hne : lens.length % queueEntries.num ≠ (c.put w r t).rx.rdh := by
    change _ ≠ r.rdh
    rw [hrdh]
    exact mod_ne (Nat.le_refl _) (by omega) (by omega) (by omega) (by omega)
  have hkept := hm.2 (lens.length % queueEntries.num) (Nat.lt_of_lt_of_eq (Nat.mod_lt _ queueEntries.pos) hnum.symm)
  rw [keptFields, if_neg hne] at hkept
  change ∀ f ∈ _, PktBuf.get m (c.rxq.virtualAddresses _) f = PktBuf.get w.mem (c.rxq.virtualAddresses _) f at hkept
  change E (Dev.entry m _)
  rw [Dev.entry, hkept .bufAddrPhy (by simp), hkept .size (by simp), hkept .mempool (by simp)]
  exact h.2

end

/-! ## The loop -/

/-- The two queues with `D` packets received and `acc` accepted for transmission, of which `C` have been freed. -/
structure FwdAt (c : Dev) (D : Nat) (acc : List TxEntry) (C : Nat) : Prop where
  rxNum : c.rxq.numEntries = queueEntries.num
  rxIndex : c.rxq.rxIndex = D % queueEntries.num
  txNum : c.txq.numEntries = queueEntries.num
  txClean : c.txq.cleanIndex = C % queueEntries.num
  txIndex : c.txq.txIndex = acc.length % queueEntries.num
  /-- The recorded buffers do not overlap. -/
  apart : ∀ i < queueEntries.num, ∀ j < queueEntries.num,
    c.rxq.virtualAddresses i = c.rxq.virtualAddresses j ∨
    Apart (c.rxq.virtualAddresses i) 24 (c.rxq.virtualAddresses j) 24

/-- The rings between two calls. -/
def FwdRx (c : Dev) (lens : List Nat) : RxRing → Prop :=
  RxIdle queueEntries c.rxq.descriptors lens.length lens

def FwdTx (c : Dev) (acc : List TxEntry) (C K : Nat) : TxRing → Prop :=
  TxAt queueEntries c.txq.descriptors acc C K c.txq.virtualAddresses anyDesc

section
variable {c d : Dev} {lens lens' : List Nat} {acc fl : List TxEntry} {C D K x y l buf : Nat} {e : TxEntry} {s : Dev}
variable {w : World} {r : RxRing} {t : TxRing}

theorem flight_le {base K : Nat} {virt : Nat → Nat} {P : TxDesc → Prop} {l : List TxEntry}
    (ht : TxAt queueEntries base l C K virt P t) : (l.drop C).length ≤ 1023 := by
  have hlap := ht.order.2
  rw [show queueEntries.num = 1024 from rfl] at hlap
  rw [List.length_drop]
  omega

theorem FwdFlow.inv {base base' : Nat} {virt : Nat → Nat} {P : TxDesc → Prop}
    (hflow : FwdFlow d.rxq.virtualAddresses lens acc x) (hindex : d.rxq.rxIndex = lens.length % queueEntries.num)
    (hw : FwdWorld d.rxq.mempool d.rxq.virtualAddresses fl y w) (hfl : fl.length ≤ 1023)
    (hr : RxWithin queueEntries base lens' lens.length r) (hpre : lens <+: lens')
    (ht : TxAt queueEntries base' acc C K virt P t) (hx : x ≤ d.app.jams + 1) (hy : y ≤ d.app.jams + 1) :
    FwdInv (d.put w r t) :=
  ⟨hw.ok (d := d.put w r t) hfl rfl (Nat.le_trans hy (Nat.le_of_eq (Nat.add_comm ..))),
    hflow.inOrder hindex hr hpre ht hx w⟩

theorem FwdAt.held (h : FwdAt c lens.length acc C) (hflow : FwdFlow c.rxq.virtualAddresses lens acc x)
    (hx : x ≤ c.app.jams) :
    Held keptFrames FwdInv c (FwdWorld c.rxq.mempool c.rxq.virtualAddresses (acc.drop C) x)
      (RxWithin queueEntries c.rxq.descriptors lens lens.length) (FwdTx c acc C K) where
  mem w r t m hw _ _ hm := hw.frame h.rxNum hm
  rx := RxWithin.stable
  tx := TxAt.stable
  inv w r t hw hr ht := hflow.inv h.rxIndex hw (flight_le ht) hr (List.prefix_refl _) ht (by omega) (by omega)

theorem FwdAt.rxIndex_lt (h : FwdAt c D acc C) : c.rxq.rxIndex < queueEntries.num := by
  rw [h.rxIndex]
  exact Nat.mod_lt _ queueEntries.pos

theorem FwdAt.sized (h : FwdAt c D acc C) (hl : l < 2 ^ 16)
    (hw : FwdWorld c.rxq.mempool c.rxq.virtualAddresses fl x w) :
    FwdHolding c (D % queueEntries.num) (·.size = l) fl x
      { w with mem := PktBuf.set w.mem (c.rxq.virtualAddresses c.rxq.rxIndex) .size l } := by
  refine ⟨hw.write ?_, ?_⟩
  · intro i hi f hf
    rcases h.apart i hi c.rxq.rxIndex h.rxIndex_lt with heq | hap
    · rw [← heq]
      refine PktBuf.get_set_of_ne _ _ _ ?_
      rintro rfl
      simp at hf
    · exact PktBuf.get_set_of_apart _ _ _ _ hap
  · change PktBuf.get (PktBuf.set w.mem (c.rxq.virtualAddresses c.rxq.rxIndex) .size l) _ .size = l
    rw [← h.rxIndex, PktBuf.get_set_self]
    exact Nat.mod_eq_of_lt (Nat.lt_of_lt_of_le hl (by decide))

theorem length_concat (l : Nat) : (lens ++ [l]).length = lens.length + 1 := List.length_append

theorem FwdRx.within (h : FwdRx d (lens ++ [l]) r) :
    RxWithin queueEntries d.rxq.descriptors (lens ++ [l]) (lens.length + 1) r := by
  rw [← length_concat l]
  exact RxIdle.within h

theorem Held.holding {base U : Nat} {E : TxEntry → Prop} {Tx : TxRing → Prop}
    (hnum : d.rxq.numEntries = queueEntries.num) (hU : U ≤ lens.length + 1) (htx : TxStable Tx)
    (hinv : ∀ w r t, FwdWorld d.rxq.mempool d.rxq.virtualAddresses fl y w →
      RxWithin queueEntries base (lens ++ [l]) U r → Tx t → FwdInv (d.put w r t)) :
    Held keptFrames FwdInv d (FwdHolding d (lens.length % queueEntries.num) E fl y)
      (RxWithin queueEntries base (lens ++ [l]) U) Tx where
  mem _ _ _ _ hw hr _ hm := hw.frame hnum hr hU hm
  rx := RxWithin.stable
  tx := htx
  inv w r t hw hr ht := hinv w r t hw.1 hr ht

end

/-! ## Start -/

section
variable {s : Dev} {w : World} {ptr j : Nat} {rest : List (Nat × DmaMemory)} {r : RxRing} {t : TxRing}

theorem FwdOk.inv {base base' : Nat} {virt : Nat → Nat} {d : Dev} (hok : FwdOk (d.put w r t))
    (hindex : d.rxq.rxIndex = 0) (hr : RxWithin queueEntries base [] 0 r)
    (ht : TxAt queueEntries base' [] 0 0 virt anyDesc t) : FwdInv (d.put w r t) :=
  ⟨hok, (FwdFlow.nil _).inOrder hindex hr (List.prefix_refl _) ht (Nat.zero_le _) w⟩

theorem RxStocked.fwdWorld {c : Dev} {mp : Mempool} (h : RxStocked queueEntries mp c)
    (hlive : c.w.live = [c.rxq.mempool]) : FwdWorld c.rxq.mempool c.rxq.virtualAddresses [] 0 c.w := by
  have hentries := h.forRx.entries
  refine ⟨hlive, ?_, ?_, ?_, ?_, ?_⟩
  · rw [h.pool]
    exact hentries
  · rw [h.pool]
    rfl
  · rw [h.pool]
    intro i hi
    have hi : i < 4096 - queueEntries.num := hi
    change mp.freeStack i < 4096
    rw [h.forRx.fresh.stack i (by omega)]
    omega
  · intro i hi
    have hheader := h.headers (4095 - i) (by omega)
    rw [h.recorded i hi, hheader.mempool, hheader.mempoolIdx]
    exact ⟨rfl, by omega⟩
  · intro e he
    cases he

theorem RxStocked.fwdAt {c : Dev} {mp : Mempool} (h : RxStocked queueEntries mp c)
    (hnum : c.txq.numEntries = queueEntries.num) (hclean : c.txq.cleanIndex = 0) (hindex : c.txq.txIndex = 0) :
    FwdAt c 0 [] 0 where
  rxNum := h.num
  rxIndex := h.index
  txNum := hnum
  txClean := hclean
  txIndex := hindex
  apart i hi j hj := by
    have hle := h.le
    have hsize := h.forRx.bufSize
    have hcount := h.forRx.entries
    by_cases hij : i = j
    · exact Or.inl (by rw [hij])
    · have hap := h.forRx.sized.entries_apart (i := 4095 - i) (j := 4095 - j) (by omega) (by omega) (by omega)
      rw [h.recorded i hi, h.recorded j hj]
      exact Or.inr (hap.mono (Nat.le_refl _) (by omega) (Nat.le_refl _) (by omega))

/-- The world once the queue has been started. -/
def fwdStarted (c : Dev) : World → Prop := FwdWorld c.rxq.mempool c.rxq.virtualAddresses [] 0

theorem FwdInit.stocked (h : FwdInit s) (hsup : RxSupply s w ptr rest)
    (hfill : RxFillable (rxPoolSet s w ptr rest) queueEntries.num) :
    FwdAt (rxFilled (rxPoolSet s w ptr rest) queueEntries.num) 0 [] 0 ∧
    fwdStarted (rxFilled (rxPoolSet s w ptr rest) queueEntries.num)
      (rxFilled (rxPoolSet s w ptr rest) queueEntries.num).w := by
  have hstocked := hsup.stocked h.rx h.memory hfill
  have hlive := (h.filled hsup (j := queueEntries.num) (by decide)).1
  obtain ⟨-, -, hptr, -, -, htxq, -⟩ := rxFilled_frame (rxPoolSet s w ptr rest) queueEntries.num
  refine ⟨hstocked.fwdAt ?_ ?_ ?_, hstocked.fwdWorld ?_⟩
  · rw [htxq]
    exact h.tx.num
  · rw [htxq]
    exact h.tx.clean
  · rw [htxq]
    exact h.tx.index
  · rw [hlive, hptr]
    rfl

end

end Ixy
