import Ixy.Driver.RxRing

/-!
# Receiving: `start_rx_queue` and `ixgbe_rx_packet`
-/

namespace Ixy

open Lib

/-- One pass of the loop of `start_rx_queue`: post a buffer in descriptor `i`. -/
def fillRxDescriptor (i : Nat) : Code (Nat ⊕ Unit) := do
  let n ← rxLd .numEntries
  if i < n then do
    let descriptors ← rxLd .descriptors
    let rxd := descAddr descriptors i
    let mempool ← rxLd .mempool
    let r ← alloc mempool
    match r with
    | none => .abort "failed to allocate rx descriptor"
    | some buf => do
      let phy ← bufLd buf .bufAddrPhy
      rxDescSt rxd .pktAddr phy
      rxDescSt rxd .hdrAddr 0
      rxSt (.virtualAddresses i) buf
      return .inl (i + 1)
  else return .inr ()

/-- The end of `start_rx_queue`: enable the queue and hand it to the NIC. -/
def enableRxQueue : Code Unit := do
  setFlags32 .rxdctl queueEnable
  waitSetReg32 .rxdctl queueEnable
  -- rx queue starts out full
  setReg32 .rdh 0
  let n ← rxLd .numEntries
  setReg32 .rdt ((n + (2 ^ 32 - 1)) % 2 ^ 32)

/-- `start_rx_queue`. -/
def startRxQueue : Code Unit := do
  let mempool ← Prog.access (Op.poolNew 4096 2048)
  rxSt .mempool mempool
  let n ← rxLd .numEntries
  if n &&& (n - 1) ≠ 0 then .abort "number of queue entries must be a power of 2"
  else do
    Prog.iterate fillRxDescriptor 0
    enableRxQueue

/-- The message of `ixgbe_rx_packet` when the mempool is empty. -/
def rxAllocFailed : String :=
  "failed to allocate new mbuf for rx, you are either leaking memory or your mempool is too small"

/-- The end of `ixgbe_rx_packet`: give the descriptor a new buffer and hand it to the NIC. -/
def rxRefill (descPtr rxIndex buf : Nat) : Code (Option Nat) := do
  let mempool ← rxLd .mempool
  let r ← alloc mempool
  match r with
  | none => .abort rxAllocFailed
  | some newBuf => do
    let phy ← bufLd newBuf .bufAddrPhy
    rxDescSt descPtr .pktAddr ((phy + PktBuf.dataOffset) % 2 ^ 64)
    rxDescSt descPtr .hdrAddr 0
    let n ← rxLd .numEntries
    rxSt .rxIndex (incAndWrapRing rxIndex n)
    setReg32 .rdt rxIndex
    return some buf

/-- `ixgbe_rx_packet`. -/
def ixgbeRxPacket : Code (Option Nat) := do
  let rxIndex ← rxLd .rxIndex
  let descriptors ← rxLd .descriptors
  let descPtr := descAddr descriptors rxIndex
  let status ← Prog.access (Op.rxDescStatus descPtr)
  if status &&& rxdadvStatDD ≠ 0 then
    if status &&& rxdadvStatEOP = 0 then
      .abort "multi-segment packets are not supported - increase buffer size or decrease MTU"
    else do
      -- got a packet, read and copy the whole descriptor
      let lo ← rxDescLd descPtr .pktAddr
      let hi ← rxDescLd descPtr .hdrAddr
      let buf ← rxLd (.virtualAddresses rxIndex)
      bufSt buf .size (RxDesc.length ⟨lo, hi⟩)
      rxRefill descPtr rxIndex buf
  else return none

/-! ## `ixgbe_rx_packet` under interference -/

/-- `buf->size` of the buffer recorded at `rx_index` has been set. -/
def rxSized (c : Dev) (l : Nat) : Dev :=
  c.setMem (PktBuf.set c.w.mem (c.rxq.virtualAddresses c.rxq.rxIndex) .size l)

/-- A new buffer has been allocated. -/
def rxRefilled (c : Dev) (l : Nat) : Dev :=
  { rxSized c l with w := (pktBufAlloc (rxSized c l).w c.rxq.mempool).2 }

/-- The index has moved on. -/
def rxTaken (c : Dev) (l : Nat) : Dev :=
  { rxRefilled c l with rxq := c.rxq.set .rxIndex (incAndWrapRing c.rxq.rxIndex c.rxq.numEntries) }

/-- Only the index has. -/
def rxAdvanced (c : Dev) : Dev :=
  { c with rxq := c.rxq.set .rxIndex (incAndWrapRing c.rxq.rxIndex c.rxq.numEntries) }

/-- The ring between two calls. -/
def RxIdle (n : RingSize) (base D : Nat) (lens : List Nat) : RxRing → Prop :=
  RxAt n base D lens D (D + n.num - 1) (D + n.num) (D + n.num)

/-- The ring at any point of a call: the packets `lens` are known to be written back, and the tail is less than a
lap ahead of packet `U`. -/
def RxWithin (n : RingSize) (base : Nat) (lens : List Nat) (U : Nat) (r : RxRing) : Prop :=
  ∃ D lens' T R P, lens <+: lens' ∧ T < U + n.num ∧ RxAt n base D lens' lens.length T R P r

section
variable {n : RingSize} {base D : Nat} {lens lens' : List Nat} {m T R P U : Nat} {r : RxRing}

theorem RxAt.stable : RxStable (RxAt n base D lens m T R P) := fun _ _ h hr => h.nic hr

theorem RxAt.within (h : RxAt n base D lens' m T R P r) (hpre : lens <+: lens') (hm : lens.length ≤ m)
    (hT : T < U + n.num) : RxWithin n base lens U r := by
  obtain ⟨W, hW, h⟩ := h
  exact ⟨D, lens', T, R, P, hpre, hT, W, Nat.le_trans hm hW, h⟩

theorem RxIdle.within (h : RxIdle n base lens.length lens r) : RxWithin n base lens lens.length r := by
  have hn := n.pos
  exact RxAt.within h (List.prefix_refl lens) (Nat.le_refl _) (by omega)

theorem RxWithin.stable : RxStable (RxWithin n base lens U) := by
  rintro r r' ⟨D, lens', T, R, P, hpre, hT, h⟩ hr
  exact ⟨D, lens', T, R, P, hpre, hT, h.nic hr⟩

theorem RxWithin.arrival (h : RxWithin n base lens U r) (hne : r.rdh ≠ r.rdt) :
    ∃ W, lens.length ≤ W ∧ W + 1 < U + n.num ∧ r.rdh = W % n.num := by
  obtain ⟨D, lens', T, R, P, -, hT, W, hW, h⟩ := h
  refine ⟨W, hW, ?_, h.rdh⟩
  have hWT : W ≠ T := fun he => hne (by rw [h.rdh, h.rdt, he])
  have horder := h.order
  omega

/-- Nothing arrives before the tail has moved. -/
theorem RxAt.still (h : RxAt n base D lens m 0 R P r) : r.rdh = r.rdt := by
  obtain ⟨W, -, h⟩ := h
  have hW : W = 0 := by have := h.order; omega
  rw [h.rdh, h.rdt, hW]

end

/-- What a caller of `ixgbe_rx_packet` provides: the queue has taken the packets `lens`, and the states the call goes
through are held. The world is in `W` at first, in `Ws l` once the size `l` has been set and in `Wr l` once a new
buffer has been allocated. -/
structure RxCaller (M : Dev → Mem → Prop) (inv : Dev → Prop) (aborts : String → Dev → Prop) (n : RingSize) (c : Dev)
    (lens : List Nat) (W : World → Prop) (Ws Wr : Nat → World → Prop) (Tx : TxRing → Prop) : Prop where
  num : c.rxq.numEntries = n.num
  index : c.rxq.rxIndex = lens.length % n.num
  start : Held M inv c W (RxWithin n c.rxq.descriptors lens lens.length) Tx
  size : ∀ l w, l < 2 ^ 16 → W w →
    Ws l { w with mem := PktBuf.set w.mem (c.rxq.virtualAddresses c.rxq.rxIndex) .size l }
  sized : ∀ l, l < 2 ^ 16 → Held M inv c (Ws l) (RxWithin n c.rxq.descriptors (lens ++ [l]) lens.length) Tx
  failed : ∀ l w r t, l < 2 ^ 16 → Ws l w → (pktBufAlloc w c.rxq.mempool).1 = none →
    RxWithin n c.rxq.descriptors (lens ++ [l]) lens.length r → Tx t → aborts rxAllocFailed (c.put w r t)
  alloc : ∀ l w, l < 2 ^ 16 → Ws l w → (pktBufAlloc w c.rxq.mempool).1 ≠ none →
    Wr l (pktBufAlloc w c.rxq.mempool).2
  refilled : ∀ l, l < 2 ^ 16 → Held M inv c (Wr l) (RxWithin n c.rxq.descriptors (lens ++ [l]) lens.length) Tx
  taken : ∀ l, l < 2 ^ 16 → Held M inv (rxAdvanced c) (Wr l)
    (RxWithin n c.rxq.descriptors (lens ++ [l]) (lens.length + 1)) Tx

/-- What `ixgbe_rx_packet` answers: nothing, or the buffer recorded at `rx_index` with the next
length that the NIC reported. -/
def RxAnswer (n : RingSize) (c : Dev) (lens : List Nat) (W : World → Prop) (Wr : Nat → World → Prop)
    (Tx : TxRing → Prop) : Option Nat → Dev → Prop
  | none => At c W (RxIdle n c.rxq.descriptors lens.length lens) Tx
  | some buf => fun s => ∃ l < 2 ^ 16, buf = c.rxq.virtualAddresses c.rxq.rxIndex ∧
      At (rxAdvanced c) (Wr l) (RxIdle n c.rxq.descriptors (lens.length + 1) (lens ++ [l])) Tx s

section
variable {M : Dev → Mem → Prop} {inv : Dev → Prop} {aborts : String → Dev → Prop} {n : RingSize} {c : Dev}
variable {lens : List Nat} {W : World → Prop} {Ws Wr : Nat → World → Prop} {Tx : TxRing → Prop}

theorem RxCaller.descPtr (h : RxCaller M inv aborts n c lens W Ws Wr Tx) :
    descAddr c.rxq.descriptors c.rxq.rxIndex = n.addr c.rxq.descriptors lens.length := by
  rw [h.index, RingSize.addr]

theorem RxCaller.tail (h : RxCaller M inv aborts n c lens W Ws Wr Tx) :
    c.rxq.rxIndex = (lens.length + n.num) % n.num := by
  rw [h.index, Nat.add_mod_right]

theorem RxAt.inHand {base l D T R P U : Nat} {r : RxRing}
    (hr : RxAt n base D (lens ++ [l]) (lens.length + 1) T R P r) (hT : T < U + n.num) :
    RxWithin n base (lens ++ [l]) U r :=
  hr.within (List.prefix_refl _) (Nat.le_of_eq List.length_append) hT

theorem Held.inHand {d : Dev} {X : World → Prop} {base l D T R P U : Nat}
    (h : Held M inv d X (RxWithin n base (lens ++ [l]) U) Tx) (hT : T < U + n.num) :
    Held M inv d X (RxAt n base D (lens ++ [l]) (lens.length + 1) T R P) Tx :=
  h.mono RxAt.stable h.tx (fun _ hr => hr.inHand hT) (fun _ ht => ht)

theorem rxRefill_safe (h : RxCaller M inv aborts n c lens W Ws Wr Tx) {l : Nat} (hl : l < 2 ^ 16) {s : Dev}
    (hs : At c (Ws l) (RxAt n c.rxq.descriptors lens.length (lens ++ [l]) (lens.length + 1) (lens.length + n.num - 1)
      (lens.length + n.num) (lens.length + n.num)) Tx s) :
    Safe exec (driverContract M inv aborts) (rxRefill (n.addr c.rxq.descriptors lens.length) c.rxq.rxIndex
      (c.rxq.virtualAddresses c.rxq.rxIndex)) (RxAnswer n c lens W Wr Tx) s := by
  have hn := n.pos
  have hlap : lens.length + n.num - 1 < lens.length + n.num := by omega
  have hsized := h.sized l hl
  have hrefilled := h.refilled l hl
  have htaken := h.taken l hl
  unfold rxRefill
  refine At.step (hsized.inHand hlap) (fun w r t hw hr ht => ⟨_, _, rfl, ?_⟩) hs
  refine At.step (hsized.inHand hlap) (fun w r t hw hr ht => ⟨_, _, rfl, ?_⟩) ⟨w, r, t, rfl, hw, hr, ht⟩
  change Safe exec _ ((Prog.ret (pktBufAlloc w c.rxq.mempool).1).bind _) _
    (c.put (pktBufAlloc w c.rxq.mempool).2 r t)
  cases halloc : (pktBufAlloc w c.rxq.mempool).1 with
  | none =>
    rw [pktBufAlloc_empty (pktBufAlloc_eq_none_iff.mp halloc)]
    have hempty := hsized.and (Y := fun w => (pktBufAlloc w c.rxq.mempool).1 = none) fun w m hnone => by
      rw [pktBufAlloc_eq_none_iff] at hnone ⊢
      exact hnone
    refine Safe.abort (At.stable (hempty.inHand hlap)) ?_ ⟨w, r, t, rfl, ⟨hw, halloc⟩, hr, ht⟩
    rintro _ ⟨w, r, t, rfl, ⟨hw, halloc⟩, hr, ht⟩
    exact h.failed l w r t hl hw halloc (hr.inHand hlap) ht
  | some newBuf =>
    have hnew := h.alloc l w hl hw (by rw [halloc]; exact Option.some_ne_none newBuf)
    refine At.step (hrefilled.inHand hlap) (fun w r t hw hr ht => ⟨_, _, rfl, ?_⟩) ⟨_, r, t, rfl, hnew, hr, ht⟩
    -- the descriptor of counter `D` is the one of counter `D + n`
    rw [← RingSize.addr_lap]
    refine At.step (hrefilled.inHand hlap) (fun w r t hw hr ht => ⟨_, _, rfl, ?_⟩) ⟨w, r, t, rfl, hw, hr, ht⟩
    refine At.step (hrefilled.inHand hlap) (fun w r t hw hr ht => ⟨_, _, rfl, ?_⟩)
      ⟨w, _, t, rfl, hw, hr.post (by omega) _, ht⟩
    refine At.step (hrefilled.inHand hlap) (fun w r t hw hr ht => ⟨_, _, rfl, ?_⟩)
      ⟨w, _, t, rfl, hw, hr.clearStatus (E := lens.length + 1) (by omega) (by omega) (by omega), ht⟩
    refine At.step (hrefilled.inHand hlap) (fun w r t hw hr ht => ⟨_, _, rfl, ?_⟩) ⟨w, r, t, rfl, hw, hr, ht⟩
    refine At.step (htaken.inHand (by omega)) (fun w r t hw hr ht => ⟨_, _, rfl, ?_⟩) ⟨w, r, t, rfl, hw, hr, ht⟩
    have htail := hr.setTail (U := lens.length + n.num) h.tail (by omega) (by omega) (by omega)
    refine At.ret (htaken.inHand (by omega)) (fun w r t hw hr ht => ?_) ⟨w, _, t, rfl, hw, htail, ht⟩
    refine ⟨l, hl, rfl, w, r, t, rfl, hw, ?_, ht⟩
    rw [RxIdle, show lens.length + 1 + n.num - 1 = lens.length + n.num by omega,
      show lens.length + 1 + n.num = lens.length + n.num + 1 by omega]
    exact hr

/-- **`ixgbe_rx_packet` follows the protocol**, whatever the NIC does between its accesses. -/
theorem ixgbeRxPacket_safe (h : RxCaller M inv aborts n c lens W Ws Wr Tx) {s : Dev}
    (hs : At c W (RxIdle n c.rxq.descriptors lens.length lens) Tx s) :
    Safe exec (driverContract M inv aborts) ixgbeRxPacket (RxAnswer n c lens W Wr Tx) s := by
  have hn := n.pos
  have hstart : ∀ {lens' m R P}, lens <+: lens' → lens.length ≤ m → Held M inv c W
      (RxAt n c.rxq.descriptors lens.length lens' m (lens.length + n.num - 1) R P) Tx :=
    fun hpre hm => h.start.mono RxAt.stable h.start.tx (fun r hr => hr.within hpre hm (by omega)) fun _ ht => ht
  have hidle : Held M inv c W (RxIdle n c.rxq.descriptors lens.length lens) Tx :=
    hstart (List.prefix_refl lens) (Nat.le_refl _)
  have hwaiting : ∀ {m R P}, lens.length ≤ m → Held M inv c W
      (RxAt n c.rxq.descriptors lens.length lens m (lens.length + n.num - 1) R P) Tx :=
    fun hm => hstart (List.prefix_refl lens) hm
  unfold ixgbeRxPacket
  refine At.step hidle (fun w r t hw hr ht => ⟨_, _, rfl, ?_⟩) hs
  refine At.step hidle (fun w r t hw hr ht => ⟨_, _, rfl, ?_⟩) ⟨w, r, t, rfl, hw, hr, ht⟩
  refine At.step hidle (fun w r t hw hr ht => ⟨_, _, rfl, ?_⟩) ⟨w, r, t, rfl, hw, hr, ht⟩
  simp only [Prog.ret_bind, Dev.put, RxQueue.get, h.descPtr]
  by_cases hdd : (r.desc (n.addr c.rxq.descriptors lens.length)).dd = true
  · -- a packet is waiting: its descriptor is the driver's until the tail moves past it
    have hwait := RxAt.waiting hr (by omega) hdd
    rw [if_pos (by simpa [RxDesc.dd] using hdd),
      if_neg (by simpa [RxDesc.eop] using (hwait.packet rfl).1)]
    refine At.step (hwaiting (Nat.le_succ _)) (fun w r t hw hr ht => ⟨_, _, rfl, ?_⟩) ⟨w, r, t, rfl, hw, hwait, ht⟩
    refine At.step (hwaiting (Nat.le_succ _)) (fun w r t hw hr ht => ⟨_, _, rfl, ?_⟩) ⟨w, r, t, rfl, hw, hr, ht⟩
    have hpkt := (hr.packet rfl).2
    have hpre := List.prefix_append lens [(r.desc (n.addr c.rxq.descriptors lens.length)).length]
    have hl : (r.desc (n.addr c.rxq.descriptors lens.length)).length < 2 ^ 16 := Nat.mod_lt _ (by norm_num)
    simp only [Prog.ret_bind, Dev.put, RxDesc.length] at hpkt hpre hl ⊢
    generalize (r.desc (n.addr c.rxq.descriptors lens.length)).hi / 2 ^ 32 % 2 ^ 16 = l at hpkt hpre hl ⊢
    refine At.step (hstart hpre (Nat.le_succ _)) (fun w r t hw hr ht => ⟨_, _, rfl, ?_⟩)
      ⟨w, r, t, rfl, hw, hpkt, ht⟩
    refine At.step (hstart hpre (Nat.le_succ _)) (fun w r t hw hr ht => ⟨_, _, rfl, ?_⟩) ⟨w, r, t, rfl, hw, hr, ht⟩
    exact rxRefill_safe h hl ⟨_, r, t, rfl, h.size l w hl hw, hr, ht⟩
  · rw [if_neg (by simpa [RxDesc.dd] using hdd)]
    exact At.ret hidle (fun w r t hw hr ht => ⟨w, r, t, rfl, hw, hr, ht⟩) ⟨w, r, t, rfl, hw, hr, ht⟩

end

/-! ## `start_rx_queue` under interference -/

/-- A buffer has been allocated for the next descriptor. -/
def rxAllocated (c : Dev) : Dev := { c with w := (pktBufAlloc c.w c.rxq.mempool).2 }

/-- The first `j` descriptors have been given buffers. -/
def rxFilled (c : Dev) : Nat → Dev
  | 0 => c
  | j + 1 =>
    { rxAllocated (rxFilled c j) with
      rxq := (rxFilled c j).rxq.set (.virtualAddresses j)
        ((pktBufAlloc (rxFilled c j).w (rxFilled c j).rxq.mempool).1.getD 0) }

/-- The queue with its new mempool. -/
def rxPoolSet (c : Dev) (w : World) (ptr : Nat) (rest : List (Nat × DmaMemory)) : Dev :=
  { c.pooled w rest with rxq := c.rxq.set .mempool ptr }

/-- What `start_rx_queue` gets from `memory_allocate_mempool`. -/
structure RxSupply (c : Dev) (w : World) (ptr : Nat) (rest : List (Nat × DmaMemory)) : Prop where
  exists_dma : ∃ dma, c.app.supply = (ptr, dma) :: rest ∧ w = memoryAllocateMempool c.w ptr dma 4096 2048

/-- The ring with the first `P` descriptors posted and the first `R` reset: they hold the addresses of
the buffers recorded for them. -/
def RxPosted (n : RingSize) (c : Dev) (T R P : Nat) (r : RxRing) : Prop :=
  RxAt n c.rxq.descriptors 0 [] 0 T R P r ∧ ∀ i < P, r.lastPosted (n.addr c.rxq.descriptors i) =
    PktBuf.get c.w.mem (c.rxq.virtualAddresses i) .bufAddrPhy

section
variable {M : Dev → Mem → Prop} {inv : Dev → Prop} {aborts : String → Dev → Prop} {n : RingSize} {c : Dev}
variable {W : Dev → World → Prop} {Tx : TxRing → Prop} {T R P : Nat} {r : RxRing}

theorem RxPosted.stable : RxStable (RxPosted n c T R P) :=
  fun _ _ h hr => ⟨h.1.nic hr, by rw [hr.lastPosted]; exact h.2⟩

theorem rxFilled_frame (c : Dev) (j : Nat) :
    (rxFilled c j).w.mem = c.w.mem ∧ (rxFilled c j).rxq.descriptors = c.rxq.descriptors ∧
    (rxFilled c j).rxq.mempool = c.rxq.mempool ∧ (rxFilled c j).rxq.numEntries = c.rxq.numEntries ∧
    (rxFilled c j).rxq.rxIndex = c.rxq.rxIndex ∧ (rxFilled c j).txq = c.txq ∧
    (rxFilled c j).app = c.app ∧ (rxFilled c j).dmaView = c.dmaView := by
  induction j with
  | zero => exact ⟨rfl, rfl, rfl, rfl, rfl, rfl, rfl, rfl⟩
  | succ j ih =>
    obtain ⟨hmem, hrest⟩ := ih
    exact ⟨by simpa [rxFilled, rxAllocated] using hmem, hrest⟩

theorem rxFilled_virtualAddresses_of_ne {j i : Nat} (h : i ≠ j) :
    (rxFilled c (j + 1)).rxq.virtualAddresses i = (rxFilled c j).rxq.virtualAddresses i := by
  simp [rxFilled, RxQueue.set, Function.update_of_ne h]

theorem RxPosted.post {j b : Nat} (h : RxPosted n (rxFilled c j) 0 j j r) (hj : j < n.num)
    (hb : (pktBufAlloc (rxFilled c j).w (rxFilled c j).rxq.mempool).1 = some b) :
    RxPosted n (rxFilled c (j + 1)) 0 j (j + 1)
      (r.store (n.addr (rxFilled c j).rxq.descriptors j) .pktAddr
        (PktBuf.get (rxFilled c j).w.mem b .bufAddrPhy)) := by
  have hmem : (rxFilled c (j + 1)).w.mem = (rxFilled c j).w.mem := by
    rw [(rxFilled_frame c (j + 1)).1, (rxFilled_frame c j).1]
  refine ⟨h.1.post (by omega) _, fun i hi => ?_⟩
  rw [hmem]
  change Function.update r.lastPosted _ _ (n.addr (rxFilled c j).rxq.descriptors i) = _
  by_cases hij : i = j
  · rw [hij, Function.update_self]
    simp [rxFilled, RxQueue.set, hb]
  · have hne : n.addr (rxFilled c j).rxq.descriptors i ≠ n.addr (rxFilled c j).rxq.descriptors j :=
      RingSize.addr_ne (Nat.zero_le i) (by omega) (Nat.zero_le j) (by omega) hij
    rw [Function.update_of_ne hne, rxFilled_virtualAddresses_of_ne hij]
    exact h.2 i (by omega)

theorem RxPosted.clearStatus {j : Nat} (h : RxPosted n (rxFilled c (j + 1)) 0 j (j + 1) r)
    (hj : j < n.num) : RxPosted n (rxFilled c (j + 1)) 0 (j + 1) (j + 1)
      (r.store (n.addr (rxFilled c j).rxq.descriptors j) .hdrAddr 0) :=
  ⟨h.1.clearStatus (Nat.le_refl 0) (Nat.le_refl 0) (by omega), h.2⟩

theorem rxFilled_succ {j b : Nat}
    (hb : (pktBufAlloc (rxFilled c j).w (rxFilled c j).rxq.mempool).1 = some b) :
    rxFilled c (j + 1) = { rxAllocated (rxFilled c j) with
      rxq := (rxFilled c j).rxq.set (.virtualAddresses j) b } := by
  rw [rxFilled, hb, Option.getD_some]

theorem rxAllocated_mem (c : Dev) : (rxAllocated c).w.mem = c.w.mem := pktBufAlloc_mem _ _

/-- What is needed of the queue `c` whose ring is to be filled. Nothing arrives meanwhile, so the world is known. -/
structure RxFiller (M : Dev → Mem → Prop) (inv : Dev → Prop) (aborts : String → Dev → Prop) (n : RingSize) (c : Dev)
    (Tx : TxRing → Prop) : Prop where
  num : c.rxq.numEntries = n.num
  arrives : ∀ s m, M s m → s.rx.rdh ≠ s.rx.rdt
  tx : TxStable Tx
  filled : ∀ j r t, j ≤ n.num → RxWithin n c.rxq.descriptors [] 0 r → Tx t → inv ((rxFilled c j).rings r t)
  failed : ∀ j r t, j < n.num → (pktBufAlloc (rxFilled c j).w c.rxq.mempool).1 = none →
    RxWithin n c.rxq.descriptors [] 0 r → Tx t →
    aborts "failed to allocate rx descriptor" ((rxFilled c j).rings r t)
  allocated : ∀ j r t, j < n.num → (pktBufAlloc (rxFilled c j).w c.rxq.mempool).1 ≠ none →
    RxWithin n c.rxq.descriptors [] 0 r → Tx t → inv ((rxAllocated (rxFilled c j)).rings r t)

theorem RxPosted.within {j : Nat} (h : RxPosted n (rxFilled c j) T R P r) (hT : T < n.num) :
    RxWithin n c.rxq.descriptors [] 0 r := by
  rw [RxPosted, (rxFilled_frame c j).2.1] at h
  exact h.1.within (List.prefix_refl _) (Nat.le_refl 0) (by rw [Nat.zero_add]; exact hT)

/-- There was a buffer for each of the first `j` descriptors. -/
def RxFillable (c : Dev) (j : Nat) : Prop :=
  ∀ i < j, (pktBufAlloc (rxFilled c i).w c.rxq.mempool).1 ≠ none

theorem RxFillable.succ {j : Nat} (h : RxFillable c j)
    (hj : (pktBufAlloc (rxFilled c j).w c.rxq.mempool).1 ≠ none) : RxFillable c (j + 1) := by
  intro i hi
  by_cases hij : i = j
  · rw [hij]
    exact hj
  · exact h i (by omega)

theorem RxFiller.held_filled (h : RxFiller M inv aborts n c Tx) {i j R P : Nat} (hj : j ≤ n.num) :
    Held M inv (rxFilled c j) (· = (rxFilled c j).w) (RxPosted n (rxFilled c i) 0 R P) Tx :=
  .still h.arrives (fun _ hr => hr.1.still) RxPosted.stable h.tx
    fun r t hr ht => h.filled j r t hj (hr.within n.pos) ht

theorem RxFiller.held_allocated (h : RxFiller M inv aborts n c Tx) {i j R P : Nat} (hj : j < n.num)
    (hsome : (pktBufAlloc (rxFilled c j).w c.rxq.mempool).1 ≠ none) :
    Held M inv (rxAllocated (rxFilled c j)) (· = (rxAllocated (rxFilled c j)).w)
      (RxPosted n (rxFilled c i) 0 R P) Tx :=
  .still h.arrives (fun _ hr => hr.1.still) RxPosted.stable h.tx
    fun r t hr ht => h.allocated j r t hj hsome (hr.within n.pos) ht

/-- The loop between two passes. -/
def RxFillAt (n : RingSize) (c : Dev) (Tx : TxRing → Prop) (j : Nat) (s : Dev) : Prop :=
  RxFillable c j ∧ At (rxFilled c j) (· = (rxFilled c j).w) (RxPosted n (rxFilled c j) 0 j j) Tx s

theorem fillRxDescriptor_safe (h : RxFiller M inv aborts n c Tx) {j : Nat} (hj : j ≤ n.num) {s : Dev}
    (hs : RxFillAt n c Tx j s) :
    Safe exec (driverContract M inv aborts) (fillRxDescriptor j) (fun res s => match res with
      | .inl i => i ≤ n.num ∧ RxFillAt n c Tx i s
      | .inr _ => RxFillAt n c Tx n.num s) s := by
  obtain ⟨hfillable, hs⟩ := hs
  obtain ⟨-, hbase, hpool, hnum, -⟩ := rxFilled_frame c j
  have hfilled := h.held_filled (i := j) (R := j) (P := j) hj
  unfold fillRxDescriptor
  refine At.step hfilled (fun w r t hw hr ht => ⟨_, _, rfl, ?_⟩) hs
  simp only [Prog.ret_bind, Dev.put, RxQueue.get, hnum, h.num]
  by_cases hlt : j < n.num
  · rw [if_pos hlt]
    refine At.step hfilled (fun w r t hw hr ht => ⟨_, _, rfl, ?_⟩) ⟨w, r, t, rfl, hw, hr, ht⟩
    refine At.step hfilled (fun w r t hw hr ht => ⟨_, _, rfl, ?_⟩) ⟨w, r, t, rfl, hw, hr, ht⟩
    refine At.step hfilled (fun w r t hw hr ht => ⟨_, _, rfl, ?_⟩) ⟨w, r, t, rfl, hw, hr, ht⟩
    subst hw
    change Safe exec _ ((Prog.ret (pktBufAlloc (rxFilled c j).w (rxFilled c j).rxq.mempool).1).bind _) _
      ((rxAllocated (rxFilled c j)).rings r t)
    cases halloc : (pktBufAlloc (rxFilled c j).w (rxFilled c j).rxq.mempool).1 with
    | none =>
      rw [rxAllocated, pktBufAlloc_empty (pktBufAlloc_eq_none_iff.mp halloc)]
      refine Safe.abort (At.stable hfilled) ?_ ⟨_, r, t, rfl, rfl, hr, ht⟩
      rintro _ ⟨_, r, t, rfl, rfl, hr, ht⟩
      exact h.failed j r t hlt (by rw [← hpool]; exact halloc) (hr.within n.pos) ht
    | some b =>
      have hsome : (pktBufAlloc (rxFilled c j).w c.rxq.mempool).1 ≠ none := by
        rw [← hpool, halloc]
        simp
      have hallocated : ∀ {i R P}, Held M inv (rxAllocated (rxFilled c j)) _ (RxPosted n (rxFilled c i) 0 R P) Tx :=
        h.held_allocated hlt hsome
      have haddr : descAddr (rxFilled c j).rxq.descriptors j =
          n.addr (rxFilled c j).rxq.descriptors j := by
        rw [RingSize.addr, Nat.mod_eq_of_lt hlt]
      simp only [Prog.ret_bind, Dev.rings, Dev.put, RxQueue.get, haddr]
      refine At.step hallocated (fun w r t hw hr ht => ⟨_, _, rfl, ?_⟩) ⟨_, r, t, rfl, rfl, hr, ht⟩
      subst hw
      refine At.step hallocated (fun w r t hw hr ht => ⟨_, _, rfl, ?_⟩) ⟨_, r, t, rfl, rfl, hr, ht⟩
      have hpost := hr.post hlt halloc
      rw [← rxAllocated_mem] at hpost
      refine At.step hallocated (fun w r t hw hr ht => ⟨_, _, rfl, ?_⟩) ⟨w, _, t, rfl, hw, hpost, ht⟩
      have hclear := hr.clearStatus hlt
      refine At.step hallocated (fun w r t hw hr ht => ⟨_, _, rfl, ?_⟩) ⟨w, _, t, rfl, hw, hclear, ht⟩
      subst hw
      refine At.ret (h.held_filled hlt) (fun w r t hw hr ht => ?_)
        ⟨_, r, t, congrArg (Dev.rings · r t) (rxFilled_succ halloc).symm, rfl, hr, ht⟩
      exact ⟨hlt, hfillable.succ hsome, w, r, t, rfl, hw, hr, ht⟩
  · rw [if_neg hlt]
    obtain rfl : j = n.num := by omega
    exact At.ret hfilled (fun w r t hw hr ht => ⟨hfillable, w, r, t, rfl, hw, hr, ht⟩) ⟨w, r, t, rfl, hw, hr, ht⟩

/-- The ring has been handed over: from now on the world is in `W c`. -/
structure RxDone (M : Dev → Mem → Prop) (inv : Dev → Prop) (n : RingSize) (c : Dev) (W : Dev → World → Prop)
    (Tx : TxRing → Prop) : Prop where
  world : W c c.w
  held : Held M inv c (W c) (RxPosted n c (n.num - 1) n.num n.num) Tx

/-- What a caller of `start_rx_queue` provides. -/
structure RxStarter (M : Dev → Mem → Prop) (inv : Dev → Prop) (aborts : String → Dev → Prop) (n : RingSize) (c : Dev)
    (W : Dev → World → Prop) (Tx : TxRing → Prop) : Prop where
  arrives : ∀ s m, M s m → s.rx.rdh ≠ s.rx.rdt
  tx : TxStable Tx
  start : ∀ r t, RxWithin n c.rxq.descriptors [] 0 r → Tx t → inv (c.rings r t)
  pooled : ∀ w ptr rest, RxSupply c w ptr rest → ∀ r t, RxWithin n c.rxq.descriptors [] 0 r → Tx t →
    inv ((c.pooled w rest).rings r t)
  filler : ∀ w ptr rest, RxSupply c w ptr rest → RxFiller M inv aborts n (rxPoolSet c w ptr rest) Tx
  done : ∀ w ptr rest, RxSupply c w ptr rest → RxFillable (rxPoolSet c w ptr rest) n.num →
    RxDone M inv n (rxFilled (rxPoolSet c w ptr rest) n.num) W Tx

/-- The state that `start_rx_queue` leaves. -/
def RxStarted (n : RingSize) (c : Dev) (W : Dev → World → Prop) (Tx : TxRing → Prop) (s : Dev) : Prop :=
  ∃ w ptr rest, RxSupply c w ptr rest ∧ RxFillable (rxPoolSet c w ptr rest) n.num ∧
    At (rxFilled (rxPoolSet c w ptr rest) n.num) (W (rxFilled (rxPoolSet c w ptr rest) n.num))
      (RxPosted n (rxFilled (rxPoolSet c w ptr rest) n.num) (n.num - 1) n.num n.num) Tx s

theorem RxPosted.rxdctl (h : RxPosted n c T R P r) (v : Nat) :
    RxPosted n c T R P { r with rxdctl := v } := RxPosted.stable r _ h (.rxdctl v)

theorem enableRxQueue_safe (hnum : c.rxq.numEntries = n.num)
    (hheld : Held M inv c (· = c.w) (RxPosted n c 0 n.num n.num) Tx) (hdone : RxDone M inv n c W Tx) {s : Dev}
    (hs : At c (· = c.w) (RxPosted n c 0 n.num n.num) Tx s) :
    Safe exec (driverContract M inv aborts) enableRxQueue
      (fun _ => At c (W c) (RxPosted n c (n.num - 1) n.num n.num) Tx) s := by
  have hn := n.pos
  have hlt := n.lt
  unfold enableRxQueue
  refine At.step hheld (fun w r t hw hr ht => ⟨_, _, rfl, ?_⟩) hs
  refine At.step hheld (fun w r t hw hr ht => ⟨_, _, rfl, ?_⟩) ⟨w, r, t, rfl, hw, hr, ht⟩
  refine Safe.loop (J := fun _ => At c (· = c.w) (RxPosted n c 0 n.num n.num) Tx)
    (fun _ => At.stable hheld) (fun _ _ _ => trivial) ?_ ⟨w, _, t, rfl, hw, hr.rxdctl _, ht⟩
  -- every pass polls the register once
  rintro _ s hs
  refine At.step hheld (fun w r t hw hr ht => ⟨_, _, rfl, ?_⟩) hs
  rw [Prog.ret_bind]
  split
  · exact At.ret hheld (fun w r t hw hr ht => ⟨w, r, t, rfl, hw, hr, ht⟩) ⟨w, r, t, rfl, hw, hr, ht⟩
  · refine At.ret hheld (fun w r t hw hr ht => ?_) ⟨w, r, t, rfl, hw, hr, ht⟩
    refine At.step hheld (fun w r t hw hr ht => ⟨_, _, rfl, ?_⟩) ⟨w, r, t, rfl, hw, hr, ht⟩
    refine At.step hheld (fun w r t hw hr ht => ⟨_, _, rfl, ?_⟩) ⟨w, _, t, rfl, hw, ⟨hr.1.setHead, hr.2⟩, ht⟩
    refine At.step hheld (fun w r t hw hr ht => ⟨_, _, rfl, ?_⟩) ⟨w, r, t, rfl, hw, hr, ht⟩
    have htail : ((c.put w r t).rxq.get .numEntries + (2 ^ 32 - 1)) % 2 ^ 32 = (n.num - 1) % n.num := by
      change (c.rxq.numEntries + (2 ^ 32 - 1)) % 2 ^ 32 = _
      rw [hnum, Nat.mod_eq_of_lt (a := n.num - 1) (by omega)]
      omega
    exact At.ret hdone.held (fun w r t hw hr ht => ⟨w, r, t, rfl, hw, hr, ht⟩)
      ⟨w, _, t, rfl, by rw [hw]; exact hdone.world, ⟨hr.1.setTail htail (by omega) (by omega) (by omega), hr.2⟩, ht⟩

theorem fillRing_safe (h : RxFiller M inv aborts n c Tx)
    (hdone : RxFillable c n.num → RxDone M inv n (rxFilled c n.num) W Tx) {s : Dev}
    (hs : At c (· = c.w) (RxAt n c.rxq.descriptors 0 [] 0 0 0 0) Tx s) :
    Safe exec (driverContract M inv aborts) (Prog.loop fillRxDescriptor 0 fun _ => enableRxQueue)
      (fun _ s => RxFillable c n.num ∧ At (rxFilled c n.num) (W (rxFilled c n.num))
        (RxPosted n (rxFilled c n.num) (n.num - 1) n.num n.num) Tx s) s := by
  have hnum : (rxFilled c n.num).rxq.numEntries = n.num := by
    rw [(rxFilled_frame c n.num).2.2.2.1, h.num]
  refine Safe.loop (J := fun j s => j ≤ n.num ∧ RxFillAt n c Tx j s) ?_ (fun _ _ _ => trivial) ?_
    ⟨Nat.zero_le _, ?_⟩
  · refine fun j => .cover ?_
    rintro s ⟨hj, hfillable, hat⟩
    exact ⟨_, At.stable (h.held_filled hj), hat, fun _ hat => ⟨hj, hfillable, hat⟩⟩
  · rintro j s ⟨hj, hat⟩
    refine (fillRxDescriptor_safe h hj hat).mono fun res s hres => ?_
    cases res with
    | inl i => exact hres
    | inr u =>
      obtain ⟨hfillable, hat⟩ := hres
      refine (enableRxQueue_safe hnum (h.held_filled (Nat.le_refl _)) (hdone hfillable) hat).mono fun _ s hs => ?_
      exact ⟨hfillable, hs⟩
  · obtain ⟨w, r, t, rfl, hw, hr, ht⟩ := hs
    exact ⟨fun i hi => absurd hi (Nat.not_lt_zero i), w, r, t, rfl, hw,
      ⟨hr, fun i hi => absurd hi (Nat.not_lt_zero i)⟩, ht⟩

/-- **`start_rx_queue` posts a buffer in every descriptor**, whatever the NIC does meanwhile. -/
theorem startRxQueue_safe (h : RxStarter M inv aborts n c W Tx) {s : Dev}
    (hs : At c (· = c.w) (RxAt n c.rxq.descriptors 0 [] 0 0 0 0) Tx s) :
    Safe exec (driverContract M inv aborts) startRxQueue (fun _ => RxStarted n c W Tx) s := by
  have hwithin : ∀ r, RxAt n c.rxq.descriptors 0 [] 0 0 0 0 r → RxWithin n c.rxq.descriptors [] 0 r :=
    fun r hr => hr.within (List.prefix_refl _) (Nat.le_refl 0) (by rw [Nat.zero_add]; exact n.pos)
  have hheld : ∀ d : Dev, (∀ r t, RxWithin n c.rxq.descriptors [] 0 r → Tx t → inv (d.rings r t)) →
      Held M inv d (· = d.w) (RxAt n c.rxq.descriptors 0 [] 0 0 0 0) Tx :=
    fun d hinv => .still h.arrives (fun _ hr => hr.still) RxAt.stable h.tx fun r t hr ht => hinv r t (hwithin r hr) ht
  unfold startRxQueue
  refine Safe.op (At.stable (hheld c h.start)) ?_ hs
  rintro _ ptr s' ⟨w₀, r, t, rfl, hw₀, hr, ht⟩ he
  refine ⟨trivial, ?_⟩
  obtain ⟨dma, rest, hsup, hs'⟩ := exec_poolNew he
  obtain ⟨w, hw⟩ : ∃ w, w = memoryAllocateMempool c.w ptr dma 4096 2048 := ⟨_, rfl⟩
  have hsupply : RxSupply c w ptr rest := ⟨dma, hsup, hw⟩
  rw [show (c.put w₀ r t).w = c.w from hw₀, ← hw] at hs'
  subst hs'
  have hfiller := h.filler w ptr rest hsupply
  have hset := hheld (rxPoolSet c w ptr rest) fun r t hr ht => hfiller.filled 0 r t (Nat.zero_le _) hr ht
  refine At.step (hheld (c.pooled w rest) (h.pooled w ptr rest hsupply)) (fun w' r t hw' hr ht => ⟨_, _, rfl, ?_⟩)
    ⟨w, r, t, rfl, rfl, hr, ht⟩
  refine At.step hset (fun w' r t hw' hr ht => ⟨_, _, rfl, ?_⟩) ⟨w', r, t, rfl, hw', hr, ht⟩
  have hnum : ((rxPoolSet c w ptr rest).put w' r t).rxq.get .numEntries = n.num := hfiller.num
  rw [Prog.ret_bind, hnum, if_neg (by rw [n.check]; simp)]
  refine (fillRing_safe hfiller (h.done w ptr rest hsupply) ⟨w', r, t, rfl, hw', hr, ht⟩).mono fun _ s hs => ?_
  exact ⟨w, ptr, rest, hsupply, hs⟩

end

end Ixy
