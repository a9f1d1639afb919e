import Ixy.App.Fwd

/-!
# Where `ixy-fwd` sends from

`start_rx_queue` posts the address of a buffer's header, so a frame of the first lap is written over the
header of its buffer: its first eight bytes become `buf_addr_phy`, the next eight `mempool`.
`ixgbe_rx_packet` returns that buffer, and `ixgbe_tx_packet` reads the address to send from out of it.

So what the forwarder sends is memory from an address that the received frame spells, not the frame
(`fwd_sends_from_frame`). This is stated until the NIC first reports a packet as sent: then
`pkt_buf_free` follows the overwritten `mempool`. Passes of the main loop are atomic, and the NIC
receives and fetches between them.
-/

namespace Ixy

open Lib

/-- The field of a header over which `frame` was written. -/
def frameField (frame : List UInt8) (f : PktBuf.Field) : Nat := PktBuf.get (fun x => frame.getD x 0) 0 f

/-- The forwarder, started in `s₁` and now in another state, and the frames received so far. They are
long enough to cover the header up to `size`. -/
inductive FwdFrames (s₁ : Dev) : List (List UInt8) → Dev → Prop
  | start : FwdFrames s₁ [] s₁
  | receive {frames : List (List UInt8)} {s s' : Dev} (frame : List UInt8) (wb : RxDesc) :
      FwdFrames s₁ frames s → 20 ≤ frame.length → frame.length ≤ 1518 →
      frameEvent s (.receive frame wb) = some s' → FwdFrames s₁ (frames ++ [frame]) s'
  | pass {frames : List (List UInt8)} {s s' : Dev} : FwdFrames s₁ frames s →
      Prog.Evals exec (fwdPass ()) s (.done (.inl ()) s') → FwdFrames s₁ frames s'
  | fetch {frames : List (List UInt8)} {s s' : Dev} : FwdFrames s₁ frames s →
      nicStep .fetch s = some s' → FwdFrames s₁ frames s'

/-! ## Frames in memory -/

theorem dmaWrite_of_lt {view : Nat → Nat} (frame : List UInt8) {m : Mem} {p j : Nat} (hj : j < frame.length)
    (hview : ∀ i < frame.length, ∀ i' < frame.length, view (p + i) = view (p + i') → i = i') :
    dmaWrite view m p frame (view (p + j)) = frame.getD j 0 := by
  induction frame generalizing m p j with
  | nil => cases hj
  | cons b bs ih =>
    rw [List.length_cons] at hj hview
    rw [dmaWrite]
    cases j with
    | zero =>
      rw [dmaWrite_of_not_mem, Nat.add_zero, Function.update_self]
      · rfl
      · intro i hi heq
        rw [Nat.add_assoc, Nat.add_comm 1 i] at heq
        have hzero := hview (i + 1) (by omega) 0 (by omega) heq
        omega
    | succ j =>
      rw [Nat.add_comm j 1, ← Nat.add_assoc, Nat.add_comm 1 j, ih (by omega)]
      · rfl
      · intro i hi i' hi' heq
        rw [Nat.add_assoc, Nat.add_assoc] at heq
        have hsucc := hview (1 + i) (by omega) (1 + i') (by omega) heq
        omega

theorem getElem?_concat_of_some {α : Type} {l : List α} {k : Nat} {x : α} (h : l[k]? = some x) (y : α) :
    (l ++ [y])[k]? = some x := by
  rw [List.getElem?_append_left (List.getElem?_eq_some_iff.mp h).1]
  exact h

theorem of_getElem?_concat {α : Type} {l : List α} {k : Nat} {x y : α} (h : (l ++ [y])[k]? = some x) :
    l[k]? = some x ∨ k = l.length ∧ x = y := by
  rcases Nat.lt_or_ge k l.length with hlt | hge
  · rw [List.getElem?_append_left hlt] at h
    exact Or.inl h
  · obtain ⟨hlast, -⟩ := List.getElem?_eq_some_iff.mp h
    rw [List.length_append, List.length_singleton] at hlast
    obtain rfl : k = l.length := by omega
    rw [List.getElem?_concat_length, Option.some.injEq] at h
    exact Or.inr ⟨rfl, h.symm⟩

section
variable {mp : Mempool} {frames : List (List UInt8)} {frame : List UInt8} {a b D k : Nat} {lens : List Nat}
variable {s s' : Dev}

/-- A frame of the first lap becomes the header of its buffer. -/
theorem FrameInv.header_written (h : FrameInv queueEntries mp D lens s) (hlo : 20 ≤ frame.length)
    (hhi : frame.length ≤ 1518) (hk : k < 1024) {f : PktBuf.Field} (hf : f ≠ .size) :
    PktBuf.get (dmaWrite s.dmaView s.w.mem (postAddr queueEntries mp k) frame) (mp.entryAddr (4095 - k)) f =
      frameField frame f := by
  have hview : ∀ x < frame.length, s.dmaView (postAddr queueEntries mp k + x) = mp.entryAddr (4095 - k) + x := by
    intro x hx
    rw [h.view_postAddr (by omega) (by omega), if_pos (show k < queueEntries.num from hk), Nat.add_zero]
  have hfield : f.offset + f.width ≤ 20 := by
    cases f with
    | size => exact absurd rfl hf
    | bufAddrPhy | mempool | mempoolIdx => decide
  apply load_shift
  intro i hi
  rw [Nat.add_assoc, Nat.zero_add, ← hview _ (by omega)]
  apply dmaWrite_of_lt _ (by omega)
  intro x hx x' hx' heq
  rw [hview x hx, hview x' hx'] at heq
  omega

/-! ## The invariant -/

/-- The packet accepted at position `k` is that of frame `k`: the NIC sends from where the frame says. -/
structure FromFrame (frames : List (List UInt8)) (lens : List Nat) (k : Nat) (e : TxEntry) : Prop where
  spelled : ∃ frame, frames[k]? = some frame ∧ e.phy = frameField frame .bufAddrPhy ∧
    e.pool = frameField frame .mempool
  size : lens[k]? = some e.size
  short : e.size < 2 ^ 16

/-- After `a` packets received and `b` forwarded. -/
structure FwdBytes (mp : Mempool) (frames : List (List UInt8)) (a b : Nat) (s : Dev) : Prop where
  flood : ∃ j, FwdFlood a frames.length b j s
  ring : ∃ lens, FrameInv queueEntries mp a lens s
  wbs : s.rx.wbs.length = frames.length
  headers : ∀ k < 1024, ∀ frame, frames[k]? = some frame → ∀ f ≠ PktBuf.Field.size,
    PktBuf.get s.w.mem (mp.entryAddr (4095 - k)) f = frameField frame f
  base : s.tx.base = s.txq.descriptors
  sent : ∀ k e, s.tx.accepted[k]? = some e → FromFrame frames (s.rx.wbs.map (·.length)) k e
  described : ∀ k e, s.tx.accepted[k]? = some e → s.tx.desc (descAddr s.txq.descriptors k) = txDescFor e
  head : s.tx.tdh = s.tx.fetched.length ∧ s.tx.fetched.length ≤ s.tx.accepted.length

theorem FwdBytes.receive (h : FwdBytes mp frames a b s) {wb : RxDesc} (hlo : 20 ≤ frame.length)
    (hhi : frame.length ≤ 1518) (he : frameEvent s (.receive frame wb) = some s') :
    FwdBytes mp (frames ++ [frame]) a b s' := by
  obtain ⟨j, hflood⟩ := h.flood
  obtain ⟨lens, hinv⟩ := h.ring
  have hinv' := hinv.receive hhi he
  obtain ⟨r, hr, rfl⟩ := Option.map_eq_some_iff.mp he
  obtain ⟨htarget, -, hlap⟩ := hinv.target hr
  obtain ⟨-, -, -, -, rfl⟩ := RxRing.receive_eq hr
  have hle := hinv.le
  rw [h.wbs] at htarget hlap
  refine ⟨⟨j, { hflood with rdh := ?_ }⟩, ⟨lens, hinv'⟩, ?_, ?_, h.base, ?_, h.described, h.head⟩
  · change (s.rx.rdh + 1) % s.rx.len = _
    rw [hflood.rdh, hflood.rxLen, List.length_append, List.length_singleton]
    omega
  · change (s.rx.wbs ++ [_]).length = _
    rw [List.length_append, List.length_append, h.wbs]
    rfl
  · intro k hk frame' hframe f hf
    change PktBuf.get (dmaWrite s.dmaView s.w.mem s.postedAddr frame) _ f = _
    rw [htarget]
    rcases of_getElem?_concat hframe with hframe | ⟨rfl, rfl⟩
    · have hlt := (List.getElem?_eq_some_iff.mp hframe).1
      rw [hinv.header_kept hhi (by omega) (by omega) (by omega)]
      exact h.headers k hk frame' hframe f hf
    · exact hinv.header_written hlo hhi hk hf
  · intro k e hk
    obtain ⟨⟨frame', hframe, hspelled⟩, hsize, hshort⟩ := h.sent k e hk
    refine ⟨⟨frame', getElem?_concat_of_some hframe _, hspelled⟩, ?_, hshort⟩
    rw [List.map_append]
    exact getElem?_concat_of_some hsize _

theorem FwdBytes.fetch (h : FwdBytes mp frames a b s) (he : nicStep .fetch s = some s') :
    FwdBytes mp frames a b s' := by
  obtain ⟨j, hflood⟩ := h.flood
  obtain ⟨lens, hinv⟩ := h.ring
  obtain ⟨t, ht, rfl⟩ := Option.map_eq_some_iff.mp he
  obtain ⟨hne, rfl⟩ := TxRing.fetch_eq ht
  have htail := hflood.tdt
  have hcount := hflood.accepted
  obtain ⟨hhead, hle⟩ := h.head
  refine ⟨⟨j, { hflood with }⟩, ⟨lens, { hinv with }⟩, h.wbs, h.headers, h.base, h.sent, h.described, ?_⟩
  change (s.tx.tdh + 1) % s.tx.len = (s.tx.fetched ++ [_]).length ∧ (s.tx.fetched ++ [_]).length ≤ s.tx.accepted.length
  rw [hflood.txLen, List.length_append, List.length_singleton]
  omega

/-! ## One pass -/

theorem FwdBytes.waiting (h : FwdBytes mp frames a b s) (hdd : (rxNext s).dd = true) :
    (rxNext s).eop = true ∧ a < frames.length ∧ (s.rx.wbs.map (·.length))[a]? = some (rxNext s).length := by
  obtain ⟨lens, hinv⟩ := h.ring
  have hnext : rxNext s = s.rx.desc (queueEntries.addr s.rxq.descriptors a) := by
    rw [rxNext, hinv.next_addr, RingSize.addr_lap]
  have hn := queueEntries.pos
  rw [hnext] at hdd ⊢
  obtain ⟨W, hW, hproto⟩ := RxAt.waiting hinv.ring (by omega) hdd
  obtain ⟨-, heop, hlen⟩ := hproto.done a (Nat.le_refl a) (by omega)
  refine ⟨heop, ?_, hlen⟩
  rw [← h.wbs, hproto.wbs_length]
  omega

theorem FwdBytes.rx (h : FwdBytes mp frames a b s) (hdd : (rxNext s).dd = true) {newBuf : Nat}
    (hsome : (pktBufAlloc (rxSized s (rxNext s).length).w s.rxq.mempool).1 = some newBuf) :
    FwdBytes mp frames (a + 1) b (rxDelivered s newBuf) := by
  obtain ⟨j, hflood⟩ := h.flood
  obtain ⟨lens, hinv⟩ := h.ring
  have hentries := hinv.forRx.entries
  have hdelivered := hflood.delivered hsome
  have hindex := Nat.mod_lt a queueEntries.pos
  rw [← hinv.index] at hindex
  have hring : ∃ lens, FrameInv queueEntries mp (a + 1) lens (rxDelivered s newBuf) := by
    have he : rxEvent s .rx = some ((rxDelivered s newBuf).rxReturn
        (some (s.rxq.virtualAddresses s.rxq.rxIndex))) := by
      rw [rxEvent, eval_rxCall_packet hdd (h.waiting hdd).1, hsome]
    obtain ⟨D, lens', hinv'⟩ := hinv.rx he
    -- the number of packets received can be read off the free stack
    have hD : D = a + 1 := by
      have htop := congrArg Mempool.freeStackTop hinv'.pool
      have htop' := hdelivered.top
      have hlt := (hinv.alloc hsome).1
      have hle := hinv'.le
      change ((rxDelivered s newBuf).w.pools s.rxq.mempool).freeStackTop = 4096 - (1024 + D) at htop
      change ((rxDelivered s newBuf).w.pools s.rxq.mempool).freeStackTop = 3072 - (a + 1) at htop'
      change 1024 + a < 4096 at hlt
      change 1024 + D ≤ 4096 at hle
      omega
    rw [hD] at hinv'
    exact ⟨lens', { hinv' with }⟩
  refine ⟨⟨j, hdelivered⟩, hring, h.wbs, ?_, h.base, h.sent, h.described, h.head⟩
  intro k hk frame hframe f hf
  have hmem : (rxDelivered s newBuf).w.mem =
      PktBuf.set s.w.mem (mp.entryAddr (4095 - s.rxq.rxIndex)) .size (rxNext s).length := by
    rw [← hinv.recorded _ hindex]
    exact pktBufAlloc_mem _ _
  rw [hmem, ← h.headers k hk frame hframe f hf]
  by_cases hsame : 4095 - k = 4095 - s.rxq.rxIndex
  · rw [hsame]
    exact PktBuf.get_set_of_ne _ _ _ hf
  · have hap := hinv.forRx.sized.entries_apart (i := 4095 - k) (j := 4095 - s.rxq.rxIndex) (by omega) (by omega)
      hsame
    have hsize := hinv.forRx.bufSize
    exact PktBuf.get_set_of_apart _ _ _ _
      (hap.mono (Nat.le_refl _) (by omega) (Nat.le_refl _) (by omega))

theorem rxTaken_size (c : Dev) {l : Nat} (hl : l < 2 ^ 16) :
    PktBuf.get (rxTaken c l).w.mem (c.rxq.virtualAddresses c.rxq.rxIndex) .size = l := by
  change PktBuf.get (pktBufAlloc (rxSized c l).w c.rxq.mempool).2.mem _ _ = _
  rw [pktBufAlloc_mem]
  change PktBuf.get (PktBuf.set c.w.mem _ .size l) _ .size = _
  rw [PktBuf.get_set_self]
  exact Nat.mod_eq_of_lt (Nat.lt_of_lt_of_le hl (by decide))

theorem txPosted_accepted (buf : Nat) (hlen : s.tx.len = 1024) (htdt : s.tx.tdt = b) (hindex : s.txq.txIndex = b)
    (hnum : s.txq.numEntries = 1024) (hb : b < 1023) :
    (txPosted s b buf).tx.accepted = s.tx.accepted ++ [Dev.entry s.w.mem buf] := by
  have hslot : b % queueEntries.num = b := Nat.mod_eq_of_lt (by change b < 1024; omega)
  have hnext : (txRecorded s.txq buf).txIndex = (b + 1) % queueEntries.num := by
    have hinc := queueEntries.incAndWrapRing_mod b
    rw [hslot] at hinc
    change incAndWrapRing s.txq.txIndex s.txq.numEntries % 2 ^ 16 = _
    rw [hindex, hnum, show (1024 : Nat) = queueEntries.num from rfl, hinc, Nat.mod_eq_of_lt (queueEntries.mod_lt _)]
  have hone := handedOver_one (n := queueEntries) (A := b) (s := { s with txq := txRecorded s.txq buf }) hlen
    (by rw [hslot]; exact htdt) (by decide)
  rw [← hnext, hslot] at hone
  have hrecorded : (txRecorded s.txq buf).virtualAddresses b = buf := by
    rw [← hindex]
    exact Function.update_self ..
  change s.tx.accepted ++ Dev.handedOver { s with txq := txRecorded s.txq buf } (txRecorded s.txq buf).txIndex = _
  rw [hone]
  change s.tx.accepted ++ [Dev.entry s.w.mem ((txRecorded s.txq buf).virtualAddresses b)] = _
  rw [hrecorded]

/-- The histories of the NIC are the same in both states. -/
structure SameNic (s s' : Dev) : Prop where
  fetched : s'.tx.fetched = s.tx.fetched
  wbs : s'.rx.wbs = s.rx.wbs

theorem FwdBytes.accept (h : FwdBytes mp frames (b + 1) b s) (hb : b < 1023) (hframe : frames[b]? = some frame)
    {buf : Nat} (hbuf : buf = mp.entryAddr (4095 - b))
    (hsize : (s.rx.wbs.map (·.length))[b]? = some (PktBuf.get s.w.mem buf .size))
    (hshort : PktBuf.get s.w.mem buf .size < 2 ^ 16) :
    ∃ s', Prog.Evals exec (fwdTransmit buf) s (.done (.inl ()) s') ∧ SameNic s s' ∧
      FwdBytes mp frames (b + 1) (b + 1) s' := by
  obtain ⟨j, hflood⟩ := h.flood
  obtain ⟨lens, hinv⟩ := h.ring
  obtain ⟨hpost, hposted⟩ := hflood.txCall.post hb buf
  have hmin : min b 1023 = b := by omega
  have hcount := hflood.accepted
  have haccepted := txPosted_accepted (s := { s.txCall with txq := s.txCall.txq.set .cleanIndex 0 }) (b := b)
    buf hflood.txLen (hflood.tdt.trans hmin) (hflood.txIndex.trans hmin) hflood.txNum hb
  have hlength : s.tx.accepted.length = b := hcount.trans hmin
  refine ⟨_, ?_, ?_, ⟨_, hposted⟩, ⟨lens, { hinv with }⟩, h.wbs, h.headers, h.base, ?_, ?_, ?_⟩
  · unfold fwdTransmit
    exact .op rfl (Prog.Evals.bind (p := ixgbeTxPacket buf) hpost (.ret _ _))
  · exact ⟨rfl, rfl⟩
  · intro k e hk
    rw [haccepted] at hk
    rcases of_getElem?_concat hk with hk | ⟨rfl, rfl⟩
    · exact h.sent k e hk
    · have hlast : ({ s.txCall with txq := s.txCall.txq.set .cleanIndex 0 } : Dev).tx.accepted.length = b := hlength
      rw [hlast]
      refine ⟨⟨frame, hframe, ?_, ?_⟩, hsize, hshort⟩
      · rw [← h.headers b (by omega) frame hframe _ (by decide), ← hbuf]
        rfl
      · rw [← h.headers b (by omega) frame hframe _ (by decide), ← hbuf]
        rfl
  · intro k e hk
    rw [haccepted] at hk
    rw [txPosted_desc]
    change Function.update s.tx.desc (descAddr s.txq.descriptors b) _ (descAddr s.txq.descriptors k) = _
    rcases of_getElem?_concat hk with hk | ⟨rfl, rfl⟩
    · have hlt := (List.getElem?_eq_some_iff.mp hk).1
      rw [Function.update_of_ne]
      · exact h.described k e hk
      · unfold descAddr
        change k < s.tx.accepted.length at hlt
        omega
    · have hlast : ({ s.txCall with txq := s.txCall.txq.set .cleanIndex 0 } : Dev).tx.accepted.length = b := hlength
      rw [hlast, Function.update_self]
  · rw [haccepted, List.length_append]
    exact ⟨h.head.1, Nat.le_trans h.head.2 (Nat.le_add_right ..)⟩

theorem FwdBytes.lost (h : FwdBytes mp frames (b + 1) b s) (hb : 1023 ≤ b) (buf : Nat) :
    ∃ s', Prog.Evals exec (fwdTransmit buf) s (.done (.inl ()) s') ∧ SameNic s s' ∧
      FwdBytes mp frames (b + 1) (b + 1) s' := by
  obtain ⟨j, hflood⟩ := h.flood
  obtain ⟨lens, hinv⟩ := h.ring
  refine ⟨_, ?_, ?_, ⟨_, hflood.txCall.dropped hb⟩, ⟨lens, { hinv with }⟩, h.wbs, h.headers, h.base, h.sent,
    h.described, h.head⟩
  · unfold fwdTransmit
    exact .op rfl (Prog.Evals.bind (p := ixgbeTxPacket buf) (hflood.txCall.lost hb buf) (.ret _ _))
  · exact ⟨rfl, rfl⟩

theorem evals_fwdPass_empty (hdd : (rxNext s).dd = false) :
    Prog.Evals exec (fwdPass ()) s (.done (.inl ()) s) := by
  have hstatus : ¬ (rxNext s).statusError &&& rxdadvStatDD ≠ 0 := by simpa [RxDesc.dd] using hdd
  unfold fwdPass ixgbeRxPacket
  refine .op rfl (.op rfl (.op rfl ?_))
  change Prog.Evals exec (Prog.bind (ite ((rxNext s).statusError &&& rxdadvStatDD ≠ 0) _ _) _) _ _
  rw [if_neg hstatus]
  exact .ret _ _

/-- A pass either ends with no packet left in hand, or aborts. -/
theorem FwdBytes.evals_pass (h : FwdBytes mp frames b b s) :
    (∃ D s', Prog.Evals exec (fwdPass ()) s (.done (.inl ()) s') ∧ SameNic s s' ∧ FwdBytes mp frames D D s' ∧
      ((rxNext s).dd = true → D = b + 1)) ∨
    (rxNext s).dd = true ∧ b = 3072 ∧ ∃ s', Prog.Evals exec (fwdPass ()) s (.aborted rxAllocFailed s') := by
  obtain ⟨j, hflood⟩ := h.flood
  obtain ⟨lens, hinv⟩ := h.ring
  cases hdd : (rxNext s).dd with
  | false =>
    refine Or.inl ⟨b, s, evals_fwdPass_empty hdd, ⟨rfl, rfl⟩, h, ?_⟩
    intro hfalse
    cases hfalse
  | true =>
    obtain ⟨heop, hlt, hlen⟩ := h.waiting hdd
    cases hsome : (pktBufAlloc (rxSized s (rxNext s).length).w s.rxq.mempool).1 with
    | none =>
      refine Or.inr ⟨rfl, ?_, _, 16, (eval_ixgbeRxPacket_packet _ hdd heop 0).trans (by rw [hsome])⟩
      have hempty : ((rxSized s (rxNext s).length).w.pools s.rxq.mempool).freeStackTop = 0 :=
        pktBufAlloc_eq_none_iff.mp hsome
      change (s.w.pools s.rxq.mempool).freeStackTop = 0 at hempty
      have htop := hflood.top
      have hle : 1024 + b ≤ 4096 := hinv.le
      omega
    | some newBuf =>
      have hrx := h.rx hdd hsome
      have hbuf : s.rxq.virtualAddresses s.rxq.rxIndex = mp.entryAddr (4095 - s.rxq.rxIndex) := by
        apply hinv.recorded
        rw [hinv.index]
        exact Nat.mod_lt _ queueEntries.pos
      have hshort : (rxNext s).length < 2 ^ 16 := Nat.mod_lt _ (by decide)
      have hsize := rxTaken_size s hshort
      change PktBuf.get (rxDelivered s newBuf).w.mem _ _ = _ at hsize
      obtain ⟨s', hevals, hsame, hs'⟩ : ∃ s', Prog.Evals exec (fwdTransmit (s.rxq.virtualAddresses s.rxq.rxIndex))
          (rxDelivered s newBuf) (.done (.inl ()) s') ∧ SameNic (rxDelivered s newBuf) s' ∧
          FwdBytes mp frames (b + 1) (b + 1) s' := by
        rcases Nat.lt_or_ge b 1023 with hb | hb
        · have hindex : s.rxq.rxIndex = b := hflood.rxIndex.trans (Nat.mod_eq_of_lt (by omega))
          rw [hindex] at hbuf hsize ⊢
          apply hrx.accept hb (List.getElem?_eq_getElem hlt) hbuf
          · rw [hsize]
            exact hlen
          · rw [hsize]
            exact hshort
        · exact hrx.lost hb _
      refine Or.inl ⟨b + 1, s', evals_fwdPass_packet hdd heop hsome hevals, ⟨hsame.fetched, hsame.wbs⟩, hs', ?_⟩
      exact fun _ => rfl

theorem FwdBytes.pass (h : FwdBytes mp frames b b s)
    (he : Prog.Evals exec (fwdPass ()) s (.done (.inl ()) s')) : ∃ D, FwdBytes mp frames D D s' := by
  rcases h.evals_pass with ⟨D, s'', he', -, hs, -⟩ | ⟨-, -, s'', he'⟩
  · cases he.unique he'
    exact ⟨D, hs⟩
  · cases he.unique he'

/-! ## Whole runs -/

theorem FwdFrames.bytes {s₁ : Dev} (h₁ : FwdBytes mp [] 0 0 s₁) (hrun : FwdFrames s₁ frames s) :
    ∃ D, FwdBytes mp frames D D s := by
  induction hrun with
  | start => exact ⟨0, h₁⟩
  | receive frame wb _ hlo hhi he ih =>
    obtain ⟨D, h⟩ := ih
    exact ⟨D, h.receive hlo hhi he⟩
  | pass _ he ih =>
    obtain ⟨D, h⟩ := ih
    exact h.pass he
  | fetch _ he ih =>
    obtain ⟨D, h⟩ := ih
    exact ⟨D, h.fetch he⟩

theorem FwdBytes.fetched (h : FwdBytes mp frames b b s) (he : nicStep .fetch s = some s') :
    ∃ frame l slot desc, frames[s.tx.fetched.length]? = some frame ∧
      (s.rx.wbs.map (·.length))[s.tx.fetched.length]? = some l ∧
      s'.tx.fetched = s.tx.fetched ++ [⟨slot, desc, dmaRead s.dmaView s.w.mem
        ((frameField frame .bufAddrPhy + PktBuf.dataOffset) % 2 ^ 64) l⟩] := by
  obtain ⟨j, hflood⟩ := h.flood
  obtain ⟨t, ht, rfl⟩ := Option.map_eq_some_iff.mp he
  obtain ⟨hne, rfl⟩ := TxRing.fetch_eq ht
  have hlt : s.tx.fetched.length < s.tx.accepted.length := by
    have htdt := hflood.tdt.trans hflood.accepted.symm
    have hhead := h.head
    omega
  obtain ⟨e, hk⟩ : ∃ e, s.tx.accepted[s.tx.fetched.length]? = some e := ⟨_, List.getElem?_eq_getElem hlt⟩
  obtain ⟨⟨frame, hframe, hphy, -⟩, hsize, hshort⟩ := h.sent _ _ hk
  have hdesc := h.described _ _ hk
  rw [← h.base, ← h.head.1] at hdesc
  refine ⟨frame, _, s.tx.tdh, s.tx.desc (descAddr s.tx.base s.tx.tdh), hframe, hsize, ?_⟩
  have hsends := (txDescFor_sends hshort).1
  rw [← hdesc] at hsends
  change s.tx.fetched ++ [⟨_, _, dmaRead _ _ _ _⟩] = _
  rw [hsends.bufferAddr, hsends.dtalen, hphy]

end

/-! ## Start -/

theorem FwdInit.bytes {s s₀ s₁ : Dev} (h : FwdInit s) (hjams : s.app.jams = 0) (hcont : RxContiguous s)
    (hrx : Prog.Evals exec startRxQueue s (.done () s₀)) (htx : Prog.Evals exec startTxQueue s₀ (.done () s₁)) :
    ∃ mp, FwdBytes mp [] 0 0 s₁ := by
  obtain ⟨mp, hready, -, -, hview, ptr, dma, rest, hsup, hbase, hphy⟩ :=
    (startRxQueue_evals h.rx hrx).ready h.rx h.memory
  have hinv : FrameInv queueEntries mp 0 [] s₀ := by
    apply hready.frameInv
    rw [hview, hbase, hphy]
    exact hcont ptr dma rest hsup
  obtain ⟨s₀', s₁', hrx', htx', henabled, htx₀, htxq₀, hflood⟩ :=
    h.evals_starts hjams (by rw [hsup]; exact List.cons_ne_nil _ _)
  cases hrx.unique hrx'
  cases htx.unique htx'
  subst henabled
  have hnone : ∀ (k : Nat) e, (txEnabled s₀).tx.accepted[k]? ≠ some e := by
    intro k e hk
    have hlt := (List.getElem?_eq_some_iff.mp hk).1
    rw [hflood.accepted] at hlt
    omega
  have hfetched : (txEnabled s₀).tx.fetched = [] := by
    change s₀.tx.fetched = []
    rw [htx₀, h.tx.fetched]
  refine ⟨mp, ⟨0, hflood⟩, ⟨[], { hinv with }⟩, ?_, ?_, ?_, ?_, ?_, ?_⟩
  · -- `RDH` is 0, and the NIC has not been round the ring
    obtain ⟨W, -, hproto⟩ := hinv.ring
    have hrdh : s₀.rx.rdh = 0 % 1024 := hflood.rdh
    have hlap : W ≤ 0 + 1024 - 1 := hproto.order.2.1
    rw [hproto.rdh] at hrdh
    change W % 1024 = 0 % 1024 at hrdh
    change s₀.rx.wbs.length = 0
    rw [hproto.wbs_length]
    omega
  · intro k _ frame hframe
    cases hframe
  · change s₀.tx.base = s₀.txq.descriptors
    rw [htx₀, htxq₀, h.tx.descriptors]
  · intro k e hk
    exact absurd hk (hnone k e)
  · intro k e hk
    exact absurd hk (hnone k e)
  · rw [hfetched]
    exact ⟨rfl, Nat.zero_le _⟩

/-- **The forwarder sends from where the frame says.** Until the NIC first reports a packet as sent, the
`k`-th packet it sends is read from the physical address in the first eight bytes of the `k`-th frame
received, plus 64, whatever is there; it has the length reported for that frame. -/
theorem fwd_sends_from_frame {s s₀ s₁ s₂ s₃ : Dev} (h : FwdInit s) (hjams : s.app.jams = 0) (hcont : RxContiguous s)
    (hrx : Prog.Evals exec startRxQueue s (.done () s₀)) (htx : Prog.Evals exec startTxQueue s₀ (.done () s₁))
    {frames : List (List UInt8)} (hrun : FwdFrames s₁ frames s₂) (hfetch : nicStep .fetch s₂ = some s₃) :
    ∃ frame l slot desc, frames[s₂.tx.fetched.length]? = some frame ∧
      (s₂.rx.wbs.map (·.length))[s₂.tx.fetched.length]? = some l ∧
      s₃.tx.fetched = s₂.tx.fetched ++ [⟨slot, desc, dmaRead s₂.dmaView s₂.w.mem
        ((frameField frame .bufAddrPhy + PktBuf.dataOffset) % 2 ^ 64) l⟩] := by
  obtain ⟨mp, h₁⟩ := h.bytes hjams hcont hrx htx
  obtain ⟨D, h₂⟩ := hrun.bytes h₁
  exact h₂.fetched hfetch

/-- Two devices whose mempool will be physically contiguous. -/
def contiguousFwd : Dev := bootDev 1024 [(64, ⟨0x200000, 0x200000⟩)] []

theorem contiguousFwd_init : FwdInit contiguousFwd where
  rx := ⟨rfl, rfl, rfl, rfl, rfl, rfl, rfl, rfl, rfl, rfl⟩
  tx := ⟨rfl, rfl, rfl, rfl, rfl, rfl, rfl, rfl, rfl, rfl, rfl⟩
  memory := by
    rintro ptr dma rest ⟨⟩
    exact ⟨by decide, by decide⟩
  live := rfl

/-- A frame that begins with eight bytes `0xFF` makes the NIC send 60 bytes from physical address 63. -/
theorem fwd_sends_from_frame_broadcast : ∃ s₀ s₁ s₂ s₃,
    Prog.Evals exec startRxQueue contiguousFwd (.done () s₀) ∧ Prog.Evals exec startTxQueue s₀ (.done () s₁) ∧
    FwdFrames s₁ [frame60] s₂ ∧ nicStep .fetch s₂ = some s₃ ∧
    s₃.tx.fetched.map (·.frame) = [dmaRead s₂.dmaView s₂.w.mem 63 60] := by
  have hcont : RxContiguous contiguousFwd := by
    rintro ptr dma rest ⟨⟩ k -
    rfl
  obtain ⟨s₀, s₁, hrx, htx, henabled, htx₀, -, hflood⟩ :=
    contiguousFwd_init.evals_starts rfl (List.cons_ne_nil _ _)
  obtain ⟨mp, h₁⟩ := contiguousFwd_init.bytes rfl hcont hrx htx
  -- the frame arrives
  obtain ⟨s₂, he, hrecv, hnext⟩ := hflood.receive (dmaWrite s₁.dmaView s₁.w.mem s₁.postedAddr frame60)
  have hrun₂ : FwdFrames s₁ [frame60] s₂ := .receive frame60 wb60 .start (by decide) (by decide) he
  have h₂ : FwdBytes mp [frame60] 0 0 s₂ := h₁.receive (by decide) (by decide) he
  have hwbs : s₂.rx.wbs.map (·.length) = [60] := by
    have hnone : s₁.rx.wbs = [] := List.length_eq_zero_iff.mp h₁.wbs
    obtain ⟨r, hr, rfl⟩ := Option.map_eq_some_iff.mp he
    obtain ⟨-, -, -, -, rfl⟩ := RxRing.receive_eq hr
    change (s₁.rx.wbs ++ [_]).map _ = _
    rw [hnone]
    rfl
  have hfetched : s₂.tx.fetched = [] := by
    obtain ⟨r, -, rfl⟩ := Option.map_eq_some_iff.mp he
    subst henabled
    change s₀.tx.fetched = []
    rw [htx₀]
    rfl
  -- it is forwarded, and fetched
  rcases h₂.evals_pass with ⟨D, s₃, hpass, hsame, h₃, hD⟩ | ⟨-, habsurd, -⟩
  · obtain rfl := hD (by rw [hnext]; decide)
    have hrun₃ := hrun₂.pass hpass
    obtain ⟨j, hflood₃⟩ := h₃.flood
    have hready : s₃.tx.tdh ≠ s₃.tx.tdt := by
      rw [h₃.head.1, hsame.fetched, hfetched, hflood₃.tdt]
      decide
    obtain ⟨s₄, hfetch⟩ : ∃ s₄, nicStep .fetch s₃ = some s₄ := by
      rw [nicStep, TxRing.fetch, if_pos hready]
      exact ⟨_, rfl⟩
    refine ⟨s₀, s₁, s₃, s₄, hrx, htx, hrun₃, hfetch, ?_⟩
    obtain ⟨frame, l, slot, desc, hframe, hl, hnew⟩ :=
      fwd_sends_from_frame contiguousFwd_init rfl hcont hrx htx hrun₃ hfetch
    rw [hsame.fetched, hfetched] at hframe hl hnew
    rw [hsame.wbs, hwbs] at hl
    cases hframe
    cases hl
    rw [hnew]
    rfl
  · cases habsurd

end Ixy
