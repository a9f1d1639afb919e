import Ixy.Driver.RxBuffers

/-!
# Where received frames go

The NIC writes a frame from the posted address upwards. `struct pkt_buf` starts with its header, so
the posted address has to skip it: `ixgbe_rx_packet` posts `buf_addr_phy + offsetof(data)`, but
`start_rx_queue` posts `buf_addr_phy`.

As long as nothing is freed, the `c`-th address posted on the queue is that of entry `4095 - c` of its
mempool (`postAddr`): the first `n` come from `start_rx_queue`, the later ones from the refill. Each
frame goes to the next address in that order, so the first `n` frames overwrite headers and all later
ones do not. The invariant (`FrameInv`) also has to say that entries which are still free have intact
headers, because the refill reads the physical address from there.
-/

namespace Ixy

open Lib

theorem dmaWrite_of_not_mem {view : Nat → Nat} {x : Nat} (frame : List UInt8) {m : Mem} {p : Nat}
    (h : ∀ j < frame.length, view (p + j) ≠ x) : dmaWrite view m p frame x = m x := by
  induction frame generalizing m p with
  | nil => rfl
  | cons b bs ih =>
    have hne : view p ≠ x := h 0 (by simp)
    rw [dmaWrite, ih fun j hj => ?_, Function.update_of_ne (Ne.symm hne)]
    rw [Nat.add_assoc, Nat.add_comm 1 j]
    exact h (j + 1) (by simpa using hj)

inductive FrameEvent where
  | rx
  | receive (frame : List UInt8) (wb : RxDesc)

/-- A call of `ixgbe_rx_packet`, or the NIC writing a frame and then its descriptor. -/
def frameEvent (s : Dev) : FrameEvent → Option Dev
  | .rx => rxEvent s .rx
  | .receive frame wb =>
    nicStep (.receive wb) (s.setMem (dmaWrite s.dmaView s.w.mem s.postedAddr frame))

/-- The frame would be written to the data area of one buffer of the queue's mempool. -/
def FrameInData (s : Dev) (frame : List UInt8) : Prop :=
  ∃ j < (s.w.pools s.rxq.mempool).numEntries, ∀ x < frame.length,
    (s.w.pools s.rxq.mempool).entryAddr j + PktBuf.dataOffset ≤ s.dmaView (s.postedAddr + x) ∧
    s.dmaView (s.postedAddr + x) <
      (s.w.pools s.rxq.mempool).entryAddr j + (s.w.pools s.rxq.mempool).bufSize

/-- The memory offered for the mempool of the queue is physically contiguous. -/
def RxContiguous (s : Dev) : Prop :=
  ∀ ptr dma rest, s.app.supply = (ptr, dma) :: rest →
    ∀ k < 4096 * 2048, s.dmaView (dma.phy + k) = dma.virt + k

/-- The `c`-th address posted on the queue. -/
def postAddr (n : RingSize) (mp : Mempool) (c : Nat) : Nat :=
  mp.baseAddrPhy + (4095 - c) * 2048 + if c < n.num then 0 else PktBuf.dataOffset

/-- The state between two events, after `D` packets have been delivered. -/
structure FrameInv (n : RingSize) (mp : Mempool) (D : Nat) (lens : List Nat) (s : Dev) : Prop where
  num : s.rxq.numEntries = n.num
  index : s.rxq.rxIndex = D % n.num
  lens_length : lens.length = D
  ring : RxIdle n s.rxq.descriptors D lens s.rx
  forRx : mp.ForRx s.rxq.mempool
  view : ∀ k < 4096 * 2048, s.dmaView (mp.baseAddrPhy + k) = mp.baseAddr + k
  le : n.num + D ≤ 4096
  pool : s.w.pools s.rxq.mempool = mp.withTop (4096 - (n.num + D))
  headers : ∀ k < 4096 - (n.num + D), HeaderOk s.w.mem s.rxq.mempool mp k
  recorded : ∀ i < n.num, s.rxq.virtualAddresses i = mp.entryAddr (4095 - i)
  posted : ∀ c, D ≤ c → c < D + n.num → s.rx.lastPosted (n.addr s.rxq.descriptors c) = postAddr n mp c

theorem RxReady.frameInv {n : RingSize} {mp : Mempool} {s : Dev} (h : RxReady n mp s)
    (hview : ∀ k < 4096 * 2048, s.dmaView (mp.baseAddrPhy + k) = mp.baseAddr + k) :
    FrameInv n mp 0 [] s := by
  have hle := h.le
  refine ⟨h.num, by rw [h.index, Nat.zero_mod], rfl, h.ring, h.forRx, hview, hle, h.pool,
    fun k hk => h.headers k (by omega), h.recorded, fun c _ hc => ?_⟩
  have hphy := h.forRx.phy_le
  rw [h.posted c (by omega), h.recorded c (by omega), (h.headers (4095 - c) (by omega)).bufAddrPhy,
    h.forRx.bufSize, postAddr, if_pos (by omega), Nat.mod_eq_of_lt (by omega)]
  rfl

/-! ## One event -/

section
variable {n : RingSize} {mp : Mempool} {D : Nat} {lens : List Nat} {s s' : Dev}

theorem FrameInv.next_addr (h : FrameInv n mp D lens s) :
    descAddr s.rxq.descriptors s.rxq.rxIndex = n.addr s.rxq.descriptors (D + n.num) := by
  rw [RingSize.addr_lap, h.index, RingSize.addr]

theorem FrameInv.reposted (h : FrameInv n mp D lens s) (hdd : (rxNext s).dd = true) (phy : Nat) :
    RxIdle n s.rxq.descriptors (D + 1) (lens ++ [(rxNext s).length]) (rxReposted s phy) := by
  have hn := n.pos
  have haddr := h.next_addr
  have hnext : rxNext s = s.rx.desc (n.addr s.rxq.descriptors D) := by
    rw [rxNext, haddr, RingSize.addr_lap]
  have hwait := RxAt.waiting h.ring (by omega) (by rw [← hnext]; exact hdd)
  have hpkt := (hwait.packet h.lens_length).2
  rw [← hnext] at hpkt
  have hpost := hpkt.post (by omega) ((phy + PktBuf.dataOffset) % 2 ^ 64)
  have hclear := hpost.clearStatus (E := D + 1) (by omega) (by omega) (by omega)
  have htail := hclear.setTail (U := D + n.num) (v := s.rxq.rxIndex)
    (by rw [Nat.add_mod_right]; exact h.index) (by omega) (by omega) (by omega)
  rw [← haddr] at htail
  rw [RxIdle, show D + 1 + n.num - 1 = D + n.num by omega, show D + 1 + n.num = D + n.num + 1 by omega]
  exact htail

theorem FrameInv.alloc (h : FrameInv n mp D lens s) {m : Mem} {newBuf : Nat}
    (hb : (pktBufAlloc { s.w with mem := m } s.rxq.mempool).1 = some newBuf) :
    n.num + D < 4096 ∧ newBuf = mp.entryAddr (4095 - (n.num + D)) ∧
    (pktBufAlloc { s.w with mem := m } s.rxq.mempool).2.pools s.rxq.mempool =
      mp.withTop (4096 - (n.num + (D + 1))) := by
  have htop : (({ s.w with mem := m } : World).pools s.rxq.mempool).freeStackTop ≠ 0 := by
    rw [Ne, ← pktBufAlloc_eq_none_iff, hb]
    exact Option.some_ne_none _
  have halloc := pktBufAlloc_of_ne htop
  rw [halloc, Option.some.injEq] at hb
  have hlt : n.num + D < 4096 := by
    have htop' := htop
    change (s.w.pools s.rxq.mempool).freeStackTop ≠ 0 at htop'
    rw [h.pool, Mempool.withTop] at htop'
    dsimp only at htop'
    omega
  have hstack : mp.freeStack (4096 - (n.num + D) - 1) = 4095 - (n.num + D) := by
    have hentries := h.forRx.entries
    rw [h.forRx.fresh.stack _ (by omega)]
    omega
  refine ⟨hlt, ?_, ?_⟩
  · rw [← hb]
    change (s.w.pools s.rxq.mempool).entryAddr _ = _
    rw [h.pool]
    change mp.entryAddr (mp.freeStack (4096 - (n.num + D) - 1)) = _
    rw [hstack]
  · rw [halloc]
    change Function.update s.w.pools s.rxq.mempool (s.w.pools s.rxq.mempool).pop s.rxq.mempool = _
    rw [Function.update_self, h.pool]
    change mp.withTop (4096 - (n.num + D) - 1) = _
    rw [Nat.sub_sub]
    rfl

theorem HeaderOk.set_size {m : Mem} {ptr k i l : Nat} (h : HeaderOk m ptr mp k) (hs : mp.Sized ptr)
    (hk : k < mp.numEntries) (hi : i < mp.numEntries) (hki : k ≠ i) :
    HeaderOk (PktBuf.set m (mp.entryAddr i) .size l) ptr mp k := by
  have hle := hs.header_le
  rw [PktBuf.sizeOf] at hle
  refine h.congr fun f _ => PktBuf.get_set_of_apart _ _ _ _ ?_
  exact (hs.entries_apart hk hi hki).mono (Nat.le_refl _) (by omega) (Nat.le_refl _) (by omega)

theorem FrameInv.rx (h : FrameInv n mp D lens s) (he : rxEvent s .rx = some s') :
    ∃ D lens, FrameInv n mp D lens s' := by
  have hn := n.pos
  have hentries := h.forRx.entries
  rcases rxEvent_rx he with ⟨-, rfl⟩ | ⟨hdd, newBuf, halloc, rfl⟩
  · exact ⟨D, lens, h.num, h.index, h.lens_length, h.ring, h.forRx, h.view, h.le, h.pool, h.headers,
      h.recorded, h.posted⟩
  · obtain ⟨hlt, hbuf, hpool⟩ := h.alloc halloc
    have hidx : s.rxq.rxIndex < n.num := by rw [h.index]; exact Nat.mod_lt _ hn
    -- the size is written to a buffer that was handed out by `start_rx_queue`
    have hmem : (rxTaken s (rxNext s).length).w.mem =
        PktBuf.set s.w.mem (mp.entryAddr (4095 - s.rxq.rxIndex)) .size (rxNext s).length := by
      rw [← h.recorded _ hidx]
      exact pktBufAlloc_mem _ _
    have hheaders : ∀ k < 4096 - (n.num + D),
        HeaderOk (rxTaken s (rxNext s).length).w.mem s.rxq.mempool mp k := by
      intro k hk
      rw [hmem]
      exact (h.headers k hk).set_size h.forRx.sized (by omega) (by omega) (by omega)
    refine ⟨D + 1, lens ++ [(rxNext s).length], h.num, ?_, by simp [h.lens_length], h.reposted hdd _,
      h.forRx, h.view, by omega, hpool, fun k hk => hheaders k (by omega), h.recorded, fun c hc hc' => ?_⟩
    · change incAndWrapRing s.rxq.rxIndex s.rxq.numEntries % 2 ^ 16 = _
      rw [h.index, h.num, n.incAndWrapRing_mod, Nat.mod_eq_of_lt (n.mod_lt _)]
    · change Function.update s.rx.lastPosted (descAddr s.rxq.descriptors s.rxq.rxIndex)
        ((PktBuf.get (rxTaken s (rxNext s).length).w.mem newBuf .bufAddrPhy + PktBuf.dataOffset) % 2 ^ 64)
        (n.addr s.rxq.descriptors c) = _
      rw [h.next_addr]
      by_cases hcD : c = D + n.num
      · have hphy := h.forRx.phy_le
        rw [hcD, Function.update_self, hbuf, (hheaders _ (by omega)).bufAddrPhy, h.forRx.bufSize, postAddr,
          if_neg (by omega), PktBuf.dataOffset, Nat.mod_eq_of_lt (a := mp.baseAddrPhy + _) (by omega),
          Nat.mod_eq_of_lt (by omega), Nat.add_comm n.num D]
      · rw [Function.update_of_ne (RingSize.addr_ne (a := D + 1) hc (by omega) (by omega) (by omega) hcD)]
        exact h.posted c (by omega) (by omega)

theorem FrameInv.target (h : FrameInv n mp D lens s) {wb : RxDesc} {r : RxRing}
    (hr : s.rx.receive wb = some r) :
    s.postedAddr = postAddr n mp s.rx.wbs.length ∧ D ≤ s.rx.wbs.length ∧
      s.rx.wbs.length + 1 < D + n.num := by
  obtain ⟨W, -, hproto⟩ := h.ring
  obtain ⟨-, hne, -⟩ := RxRing.receive_eq hr
  obtain ⟨hDW, hWT, -⟩ := hproto.order
  have hWT' : W ≠ D + n.num - 1 := fun he => hne (by rw [hproto.rdh, hproto.rdt, he])
  rw [hproto.wbs_length]
  refine ⟨?_, hDW, by omega⟩
  rw [Dev.postedAddr, hproto.rdh_addr, (hproto.posted W (Nat.le_refl _) (by omega)).2]
  exact h.posted W hDW (by omega)

theorem FrameInv.view_postAddr (h : FrameInv n mp D lens s) {c x : Nat} (hc : c < 4096) (hx : x < 1518) :
    s.dmaView (postAddr n mp c + x) =
      mp.entryAddr (4095 - c) + (if c < n.num then 0 else PktBuf.dataOffset) + x := by
  have hentries := h.forRx.entries
  have hoff : (if c < n.num then 0 else PktBuf.dataOffset) ≤ 64 := by
    split
    · exact Nat.zero_le _
    · exact Nat.le_refl _
  rw [h.forRx.sized.entryAddr_eq (by omega), h.forRx.bufSize, postAddr]
  generalize (if c < n.num then 0 else PktBuf.dataOffset) = off at *
  rw [Nat.add_assoc, Nat.add_assoc, h.view _ (by omega)]
  omega

/-- A frame leaves the headers of all entries but the one it goes to, and that one as well if it
starts behind the header. -/
theorem FrameInv.header_kept (h : FrameInv n mp D lens s) {frame : List UInt8} (hlen : frame.length ≤ 1518)
    {c k : Nat} (hc : c < 4096) (hk : k < 4096) (hck : k ≠ 4095 - c ∨ n.num ≤ c) (f : PktBuf.Field) :
    PktBuf.get (dmaWrite s.dmaView s.w.mem (postAddr n mp c) frame) (mp.entryAddr k) f =
      PktBuf.get s.w.mem (mp.entryAddr k) f := by
  have hentries := h.forRx.entries
  refine PktBuf.get_congr f fun x hx hx' => dmaWrite_of_not_mem frame fun j hj => ?_
  rw [h.view_postAddr hc (by omega)]
  by_cases hsame : k = 4095 - c
  · rw [if_neg (by omega), PktBuf.dataOffset, ← hsame]
    omega
  · have hoff : (if c < n.num then 0 else PktBuf.dataOffset) ≤ 64 := by
      split
      · exact Nat.zero_le _
      · exact Nat.le_refl _
    have hap := h.forRx.sized.entries_apart (i := k) (j := 4095 - c) (by omega) (by omega) hsame
    rw [h.forRx.bufSize] at hap
    rcases hap with hap | hap <;> omega

theorem FrameInv.receive (h : FrameInv n mp D lens s) {frame : List UInt8} {wb : RxDesc}
    (hlen : frame.length ≤ 1518) (he : frameEvent s (.receive frame wb) = some s') :
    FrameInv n mp D lens s' := by
  obtain ⟨r, hr, rfl⟩ := Option.map_eq_some_iff.mp he
  obtain ⟨htarget, hDW, hWD⟩ := h.target hr
  have hle := h.le
  refine ⟨h.num, h.index, h.lens_length, RxAt.nic h.ring (.receive wb hr), h.forRx, h.view, h.le, h.pool,
    fun k hk => ?_, h.recorded, ?_⟩
  · refine (h.headers k hk).congr fun f _ => ?_
    change PktBuf.get (dmaWrite s.dmaView s.w.mem s.postedAddr frame) _ f = _
    rw [htarget]
    exact h.header_kept hlen (by omega) (by omega) (Or.inl (by omega)) f
  · intro c hc hc'
    change r.lastPosted _ = _
    rw [(RxRing.Nic.receive wb hr).lastPosted]
    exact h.posted c hc hc'

/-- A frame goes to the data area of a buffer exactly if its address was posted by a refill. -/
theorem FrameInv.inData_iff (h : FrameInv n mp D lens s) {frame : List UInt8} {wb : RxDesc} {r : RxRing}
    (hpos : 0 < frame.length) (hlen : frame.length ≤ 1518) (hr : s.rx.receive wb = some r) :
    FrameInData s frame ↔ n.num ≤ s.rx.wbs.length := by
  obtain ⟨htarget, -, hWD⟩ := h.target hr
  have hle := h.le
  have hentries := h.forRx.entries
  rw [FrameInData, h.pool, htarget]
  constructor
  · rintro ⟨j, hj, hall⟩
    by_contra hlt
    obtain ⟨hlo, hhi⟩ := hall 0 hpos
    have hj' : j < mp.numEntries := hj
    change mp.entryAddr j + PktBuf.dataOffset ≤ _ at hlo
    change _ < mp.entryAddr j + mp.bufSize at hhi
    have htgt := h.forRx.sized.entryAddr_eq (i := 4095 - s.rx.wbs.length) (by omega)
    rw [h.view_postAddr (by omega) (by omega), if_pos (by omega), htgt,
      h.forRx.sized.entryAddr_eq hj', h.forRx.bufSize] at hlo hhi
    rw [PktBuf.dataOffset] at hlo
    -- the start of an entry is not behind the header of any entry
    omega
  · intro hge
    refine ⟨4095 - s.rx.wbs.length, by change _ < mp.numEntries; omega, fun x hx => ?_⟩
    change mp.entryAddr _ + PktBuf.dataOffset ≤ _ ∧ _ < mp.entryAddr _ + mp.bufSize
    rw [h.view_postAddr (by omega) (by omega), if_neg (by omega), h.forRx.bufSize, PktBuf.dataOffset]
    omega

theorem FrameInv.runs (h : FrameInv n mp D lens s) {es : List FrameEvent}
    (hes : runs frameEvent s es = some s')
    (hframes : ∀ frame wb, .receive frame wb ∈ es → frame.length ≤ 1518) :
    ∃ D lens, FrameInv n mp D lens s' := by
  refine runs_inv (I := fun s => ∃ D lens, FrameInv n mp D lens s)
    (C := fun _ e => ∀ frame wb, e = .receive frame wb → frame.length ≤ 1518) ?_ ⟨D, lens, h⟩ hes ?_
  · rintro s e s' ⟨D, lens, h⟩ hC he
    cases e with
    | rx => exact h.rx he
    | receive frame wb => exact ⟨D, lens, h.receive (hC frame wb rfl) he⟩
  · rintro es₁ e s₁ hpre - frame wb rfl
    exact hframes frame wb (hpre.subset (by simp))

/-- **Where frames are written.** Started by `start_rx_queue`, and with any interleaving of frames and
calls before: a frame is written to the data area of one buffer of the queue's mempool exactly if `n`
frames have been received before it. In that case it leaves all headers of the pool as they are. -/
theorem frameInData_iff_lap {s₀ s₁ s₂ : Dev} (h : RxInit n s) (hmem : RxMemory s) (hcont : RxContiguous s)
    (hstart : Prog.Evals exec startRxQueue s (.done () s₀)) {es : List FrameEvent}
    (hframes : ∀ frame wb, .receive frame wb ∈ es → frame.length ≤ 1518)
    (hrun : Lib.runs frameEvent s₀ es = some s₁) {frame : List UInt8} {wb : RxDesc}
    (hpos : 0 < frame.length) (hlen : frame.length ≤ 1518)
    (hreceive : frameEvent s₁ (.receive frame wb) = some s₂) :
    (FrameInData s₁ frame ↔ n.num ≤ s₁.rx.wbs.length) ∧
    (n.num ≤ s₁.rx.wbs.length → ∀ k < (s₁.w.pools s₁.rxq.mempool).numEntries, ∀ f,
      PktBuf.get s₂.w.mem ((s₁.w.pools s₁.rxq.mempool).entryAddr k) f =
        PktBuf.get s₁.w.mem ((s₁.w.pools s₁.rxq.mempool).entryAddr k) f) := by
  obtain ⟨mp, hready, -, -, hview, ptr, dma, rest, hsup, hbase, hphy⟩ :=
    (startRxQueue_evals h hstart).ready h hmem
  have hinv₀ : FrameInv n mp 0 [] s₀ := hready.frameInv (by
    rw [hview, hbase, hphy]
    exact hcont ptr dma rest hsup)
  obtain ⟨D, lens, hinv⟩ := hinv₀.runs hrun hframes
  obtain ⟨r, hr, rfl⟩ := Option.map_eq_some_iff.mp hreceive
  refine ⟨hinv.inData_iff hpos hlen hr, fun hlap k hk f => ?_⟩
  obtain ⟨htarget, -, hWD⟩ := hinv.target hr
  have hle := hinv.le
  rw [hinv.pool] at hk ⊢
  have hk : k < 4096 := by rw [← hinv.forRx.entries]; exact hk
  change PktBuf.get (dmaWrite s₁.dmaView s₁.w.mem s₁.postedAddr frame) (mp.entryAddr k) f =
    PktBuf.get s₁.w.mem (mp.entryAddr k) f
  rw [htarget]
  exact hinv.header_kept hlen (by omega) hk (Or.inr hlap) f

end

/-! ## A ring of two descriptors -/

def contiguousDev : Dev := bootDev 2 [(64, ⟨0x200000, 0x200000⟩)] []

def frame60 : List UInt8 := List.replicate 60 0xFF

/-- The third frame on a ring of two descriptors goes to a data area. -/
theorem frameInData_iff_lap_third : ∃ s₀ s₁ s₂, rxStart 60 contiguousDev = some s₀ ∧
    runs frameEvent s₀ [.receive frame60 wb60, .rx, .receive frame60 wb60, .rx] = some s₁ ∧
    frameEvent s₁ (.receive frame60 wb60) = some s₂ ∧ FrameInData s₁ frame60 := by
  have hrun := (show ((rxStart 60 contiguousDev).bind fun s => runs frameEvent s
      [.receive frame60 wb60, .rx, .receive frame60 wb60, .rx]).map (fun s =>
        (s.rx.wbs.length, (frameEvent s (.receive frame60 wb60)).isSome)) = some (2, true) by
    decide +kernel)
  obtain ⟨s₁, hrun, hs₁⟩ := Option.map_eq_some_iff.mp hrun
  obtain ⟨s₀, hstart, hrun⟩ := Option.bind_eq_some_iff.mp hrun
  rw [Prod.mk.injEq] at hs₁
  obtain ⟨s₂, hreceive⟩ := Option.isSome_iff_exists.mp hs₁.2
  refine ⟨s₀, s₁, s₂, hstart, hrun, hreceive, (frameInData_iff_lap (n := twoSlots)
    ⟨rfl, rfl, rfl, rfl, rfl, rfl, rfl, rfl, rfl, rfl⟩ ?_ ?_ (rxStart_evals hstart) ?_ hrun (by decide)
    (by decide) hreceive).1.mpr (by rw [hs₁.1]; exact Nat.le_refl 2)⟩
  · rintro ptr dma rest ⟨⟩
    exact ⟨by decide, by decide⟩
  · rintro ptr dma rest ⟨⟩ k -
    rfl
  · intro frame wb hmem
    simp only [List.mem_cons, FrameEvent.receive.injEq, reduceCtorEq, List.not_mem_nil, or_false,
      false_or] at hmem
    rcases hmem with ⟨rfl, -⟩ | ⟨rfl, -⟩ <;> decide

/-- **The first frame overwrites a header.** The buffer posted in descriptor 0 belongs to the pool at
64; after a frame of `0xFF` bytes its header says otherwise. -/
theorem rxFrame_counterexample : ∃ s₀ s₁, rxStart 60 contiguousDev = some s₀ ∧
    frameEvent s₀ (.receive frame60 wb60) = some s₁ ∧
    s₀.postedAddr = PktBuf.get s₀.w.mem (s₀.rxq.virtualAddresses 0) .bufAddrPhy ∧
    PktBuf.get s₀.w.mem (s₀.rxq.virtualAddresses 0) .mempool = 64 ∧
    PktBuf.get s₁.w.mem (s₀.rxq.virtualAddresses 0) .mempool = 2 ^ 64 - 1 := by
  have hrun := (show (rxStart 60 contiguousDev).bind (fun s => (frameEvent s
      (.receive frame60 wb60)).map fun s₁ => (s.postedAddr,
        PktBuf.get s.w.mem (s.rxq.virtualAddresses 0) .bufAddrPhy,
        PktBuf.get s.w.mem (s.rxq.virtualAddresses 0) .mempool,
        PktBuf.get s₁.w.mem (s.rxq.virtualAddresses 0) .mempool)) =
      some (0x9ff800, 0x9ff800, 64, 2 ^ 64 - 1) by decide +kernel)
  obtain ⟨s₀, hstart, hrun⟩ := Option.bind_eq_some_iff.mp hrun
  obtain ⟨s₁, hrun, hs₁⟩ := Option.map_eq_some_iff.mp hrun
  simp only [Prod.mk.injEq] at hs₁
  obtain ⟨hposted, hphy, hpool, hpool'⟩ := hs₁
  exact ⟨s₀, s₁, hstart, hrun, hposted.trans hphy.symm, hpool, hpool'⟩

end Ixy
