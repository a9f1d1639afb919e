import Ixy.Driver.RxProtocol
import Ixy.Lib.Run
import Ixy.Memory.Conservation

/-!
# Which buffers the receive ring records

`virtual_addresses` is to map a descriptor back to the buffer whose address was posted in it.
`RxRingOk` states that, and what the recorded buffers have to satisfy for it to make sense: they are
distinct, not free, and not with the application.

`start_rx_queue` establishes it. `ixgbe_rx_packet`, however, posts the address of a new buffer without
recording it, so the first packet delivered breaks it: the recorded buffer is then the one the
application holds. The main result says that this is the only way: the ring is as it should be
throughout a run exactly when no call of the run finds a packet.

Calls are atomic here. The runs interleave them with the NIC and with the application freeing what it
holds.
-/

namespace Ixy

open Lib

/-! ## The state after `start_rx_queue` -/

/-- The pool with another number of free entries. -/
def Mempool.withTop (mp : Mempool) (top : Nat) : Mempool := { mp with freeStackTop := top }

/-- A pool of which nothing has been taken: index `i` is at place `i` of the free stack. -/
structure Mempool.Fresh (mp : Mempool) : Prop where
  top : mp.freeStackTop = mp.numEntries
  stack : ∀ i < mp.numEntries, mp.freeStack i = i

theorem newMempool_fresh (w : World) (ptr : Nat) (dma : DmaMemory) (numEntries entrySize : Nat) :
    (newMempool w ptr dma numEntries entrySize).Fresh := by
  constructor
  · simp [newMempool, memoryAllocateMempool]
  · intro i hi
    simp only [newMempool, memoryAllocateMempool, Function.update_self] at hi ⊢
    rw [if_pos hi]

/-- Filling the ring takes the entries from the top of the stack and records them in that order. -/
theorem rxFilled_pool {c : Dev} {mp : Mempool} (hmp : c.w.pools c.rxq.mempool = mp) (hf : mp.Fresh) :
    ∀ j ≤ mp.numEntries,
      (rxFilled c j).w.pools c.rxq.mempool = mp.withTop (mp.numEntries - j) ∧
      ∀ i < j, (rxFilled c j).rxq.virtualAddresses i = mp.entryAddr (mp.numEntries - 1 - i) := by
  intro j
  induction j with
  | zero =>
    intro _
    refine ⟨?_, fun i hi => absurd hi (Nat.not_lt_zero i)⟩
    rw [Nat.sub_zero, ← hf.top]
    exact hmp
  | succ j ih =>
    intro hj
    obtain ⟨hpool, hvirt⟩ := ih (by omega)
    have hmempool : (rxFilled c j).rxq.mempool = c.rxq.mempool := (rxFilled_frame c j).2.2.1
    have htop : ((rxFilled c j).w.pools c.rxq.mempool).freeStackTop ≠ 0 := by
      rw [hpool, Mempool.withTop]
      dsimp only
      omega
    have halloc := pktBufAlloc_of_ne htop
    rw [hpool] at halloc
    have hidx : mp.freeStack (mp.numEntries - j - 1) = mp.numEntries - 1 - j := by
      rw [hf.stack _ (by omega)]
      omega
    simp only [Mempool.entryAddr, Mempool.withTop, hidx] at halloc
    constructor
    · simp only [rxFilled, rxAllocated, hmempool, halloc, Function.update_self, Mempool.pop,
        Mempool.withTop]
      rw [Nat.sub_sub]
    · intro i hi
      by_cases hij : i = j
      · simp only [rxFilled, hmempool, halloc, RxQueue.set, Option.getD_some, hij, Function.update_self,
          Mempool.entryAddr]
      · rw [rxFilled_virtualAddresses_of_ne hij]
        exact hvirt i (by omega)

/-- The memory offered for the mempool of the queue: a 64-bit pointer, and physical addresses that do
not wrap. -/
def RxMemory (s : Dev) : Prop :=
  ∀ ptr dma rest, s.app.supply = (ptr, dma) :: rest → ptr < 2 ^ 64 ∧ dma.phy + 4096 * 2048 ≤ 2 ^ 64

/-- The mempool of a receive queue, as `start_rx_queue` makes it at `ptr`. -/
structure Mempool.ForRx (mp : Mempool) (ptr : Nat) : Prop where
  sized : mp.Sized ptr
  entries : mp.numEntries = 4096
  bufSize : mp.bufSize = 2048
  phy_le : mp.baseAddrPhy + 4096 * 2048 ≤ 2 ^ 64
  fresh : mp.Fresh

/-- The queue and the world after `start_rx_queue`, in terms of the mempool `mp` as it was made. -/
structure RxStocked (n : RingSize) (mp : Mempool) (s : Dev) : Prop where
  num : s.rxq.numEntries = n.num
  index : s.rxq.rxIndex = 0
  forRx : mp.ForRx s.rxq.mempool
  le : n.num ≤ 4096
  pool : s.w.pools s.rxq.mempool = mp.withTop (4096 - n.num)
  headers : ∀ k < 4096, HeaderOk s.w.mem s.rxq.mempool mp k
  recorded : ∀ i < n.num, s.rxq.virtualAddresses i = mp.entryAddr (4095 - i)

/-- … with the ring. -/
structure RxReady (n : RingSize) (mp : Mempool) (s : Dev) : Prop extends RxStocked n mp s where
  ring : RxIdle n s.rxq.descriptors 0 [] s.rx
  posted : ∀ i < n.num, s.rx.lastPosted (n.addr s.rxq.descriptors i) =
    PktBuf.get s.w.mem (s.rxq.virtualAddresses i) .bufAddrPhy

theorem RxSupply.pool {c : Dev} {w : World} {ptr : Nat} {rest : List (Nat × DmaMemory)}
    (h : RxSupply c w ptr rest) (hmem : RxMemory c) :
    (w.pools ptr).ForRx ptr ∧ (∀ k < 4096, HeaderOk w.mem ptr (w.pools ptr) k) ∧
    ∃ dma, c.app.supply = (ptr, dma) :: rest ∧ (w.pools ptr).baseAddr = dma.virt ∧
      (w.pools ptr).baseAddrPhy = dma.phy := by
  obtain ⟨dma, hsup, rfl⟩ := h.exists_dma
  obtain ⟨hptr, hphy⟩ := hmem ptr dma rest hsup
  have hnum := newMempool_numEntries c.w ptr dma 4096 2048
  have hsize := newMempool_bufSize c.w ptr dma 4096 2048
  rw [if_neg (by decide)] at hsize
  have hsized : (newMempool c.w ptr dma 4096 2048).Sized ptr := by
    refine ⟨?_, ?_, hptr⟩
    · rw [newMempool_bytes (by decide)]
      decide
    · rw [hsize]
      decide
  obtain ⟨hvirt, hbase⟩ := newMempool_base c.w ptr dma 4096 2048
  exact ⟨⟨hsized, hnum, hsize, by rw [← hbase] at hphy; exact hphy, newMempool_fresh ..⟩,
    fun k hk => newMempool_header c.w hsized hk, dma, hsup, hvirt, hbase⟩

/-- The world is the one that the driver has left. -/
def exactWorld (c : Dev) (w : World) : Prop := w = c.w

theorem startRxQueue_evals {n : RingSize} {s s₀ : Dev} (h : RxInit n s)
    (he : Prog.Evals exec startRxQueue s (.done () s₀)) : RxStarted n s exactWorld anyTx s₀ := by
  obtain ⟨fuel, he⟩ := he
  have hstarter : RxStarter noFrames (fun _ => True) (fun _ _ => True) n s exactWorld anyTx :=
    ⟨fun _ _ hm => hm.elim, anyTx_stable, fun _ _ _ _ => trivial, fun _ _ _ _ _ _ _ _ => trivial, fun _ _ _ _ =>
      ⟨h.num, fun _ _ hm => hm.elim, anyTx_stable, fun _ _ _ _ _ _ => trivial, fun _ _ _ _ _ _ _ => trivial,
        fun _ _ _ _ _ _ _ => trivial⟩, fun _ _ _ _ _ => ⟨rfl, .quiet RxPosted.stable anyTx_stable
          fun _ _ _ _ _ _ => trivial⟩⟩
  have hsafe := startRxQueue_safe hstarter
    ⟨s.w, s.rx, s.tx, rfl, rfl, .init h.descriptors.symm h.len h.rdh h.rdt h.wbs, trivial⟩
  exact hsafe.eval fuel he

section
variable {n : RingSize} {s : Dev} {w : World} {ptr : Nat} {rest : List (Nat × DmaMemory)}

theorem RxSupply.stocked (hsup : RxSupply s w ptr rest) (h : RxInit n s) (hmem : RxMemory s)
    (hfill : RxFillable (rxPoolSet s w ptr rest) n.num) :
    RxStocked n (w.pools ptr) (rxFilled (rxPoolSet s w ptr rest) n.num) := by
  obtain ⟨hrx, hheader, -⟩ := hsup.pool hmem
  have hpool : (rxPoolSet s w ptr rest).w.pools (rxPoolSet s w ptr rest).rxq.mempool = w.pools ptr := rfl
  have hfilled := rxFilled_pool hpool hrx.fresh
  rw [hrx.entries] at hfilled
  -- with more than 4096 descriptors the fill would have run out of buffers
  have hle : n.num ≤ 4096 := by
    by_contra hgt
    refine hfill 4096 (by omega) (pktBufAlloc_eq_none_iff.mpr ?_)
    rw [(hfilled 4096 (Nat.le_refl _)).1]
    rfl
  obtain ⟨hpool, hvirt⟩ := hfilled n.num hle
  obtain ⟨hm, -, hptr, hentries, hindex, -⟩ := rxFilled_frame (rxPoolSet s w ptr rest) n.num
  generalize rxFilled (rxPoolSet s w ptr rest) n.num = c at *
  have hptr : c.rxq.mempool = ptr := hptr
  refine ⟨hentries.trans h.num, hindex.trans h.index, ?_, hle, ?_, ?_, hvirt⟩
  · rw [hptr]
    exact hrx
  · rw [hptr]
    exact hpool
  · intro k hk
    rw [hptr, hm]
    exact hheader k hk

theorem RxStarted.ready {s₀ : Dev} {Tx : TxRing → Prop} (h : RxInit n s) (hmem : RxMemory s)
    (hs : RxStarted n s exactWorld Tx s₀) :
    ∃ mp, RxReady n mp s₀ ∧ s₀.app.held = [] ∧ s₀.app.delivered = [] ∧ s₀.dmaView = s.dmaView ∧
      ∃ ptr dma rest, s.app.supply = (ptr, dma) :: rest ∧ mp.baseAddr = dma.virt ∧
        mp.baseAddrPhy = dma.phy := by
  obtain ⟨w, ptr, rest, hsup, hfill, _, r, t, rfl, rfl, hr, -⟩ := hs
  obtain ⟨-, -, dma, hdma⟩ := hsup.pool hmem
  have hstocked := hsup.stocked h hmem hfill
  obtain ⟨-, -, -, -, -, -, happ, hview⟩ := rxFilled_frame (rxPoolSet s w ptr rest) n.num
  generalize rxFilled (rxPoolSet s w ptr rest) n.num = c at *
  refine ⟨w.pools ptr, ⟨⟨hstocked.num, hstocked.index, hstocked.forRx, hstocked.le, hstocked.pool, hstocked.headers,
    hstocked.recorded⟩, ?_, hr.2⟩, ?_, ?_, hview, ptr, dma, rest, hdma⟩
  · rw [RxIdle, Nat.zero_add]
    exact hr.1
  · change c.app.held = _
    rw [happ]
    exact h.held
  · change c.app.delivered = _
    rw [happ]
    exact h.delivered

end

/-! ## The invariant -/

/-- The physical address `x` lies inside the buffer `b` of the pool. -/
def Mempool.InBuffer (mp : Mempool) (b x : Nat) : Prop :=
  ∃ k < mp.numEntries, b = mp.entryAddr k ∧ mp.baseAddrPhy + k * mp.bufSize ≤ x ∧
    x < mp.baseAddrPhy + k * mp.bufSize + mp.bufSize

/-- The ring records the buffers it has posted. -/
structure RxRingOk (n : RingSize) (s : Dev) : Prop where
  /-- The address last posted in a descriptor lies inside the recorded buffer. -/
  posted : ∀ i < n.num, (s.w.pools s.rxq.mempool).InBuffer (s.rxq.virtualAddresses i)
    (s.rx.lastPosted (descAddr s.rxq.descriptors i))
  /-- Recorded buffers are distinct. -/
  distinct : ∀ i < n.num, ∀ j < n.num, s.rxq.virtualAddresses i = s.rxq.virtualAddresses j → i = j
  /-- They are not free … -/
  notFree : ∀ i < n.num, ∀ k ∈ (s.w.pools s.rxq.mempool).free,
    s.rxq.virtualAddresses i ≠ (s.w.pools s.rxq.mempool).entryAddr k
  /-- … and not with the application. -/
  notHeld : ∀ i < n.num, s.rxq.virtualAddresses i ∉ s.app.held

theorem RxReady.ringOk {n : RingSize} {mp : Mempool} {s : Dev} (h : RxReady n mp s)
    (hheld : s.app.held = []) : RxRingOk n s := by
  have hle := h.le
  have hentries := h.forRx.entries
  have hsize := h.forRx.bufSize
  refine ⟨fun i hi => ?_, fun i hi j hj he => ?_, fun i hi k hk he => ?_, fun i hi => ?_⟩
  · have hk := (h.headers (4095 - i) (by omega)).bufAddrPhy
    have hphy := h.forRx.phy_le
    have hpost := h.posted i hi
    rw [RingSize.addr, Nat.mod_eq_of_lt hi, h.recorded i hi, hk, hsize] at hpost
    rw [h.pool, h.recorded i hi]
    refine ⟨4095 - i, by change _ < mp.numEntries; omega, rfl, ?_⟩
    change mp.baseAddrPhy + (4095 - i) * mp.bufSize ≤ _ ∧ _ < mp.baseAddrPhy + (4095 - i) * mp.bufSize + mp.bufSize
    rw [hpost, hsize, Nat.mod_eq_of_lt (by omega)]
    omega
  · rw [h.recorded i hi, h.recorded j hj] at he
    have := h.forRx.sized.entryAddr_inj (by omega) (by omega) he
    omega
  · rw [h.pool, Mempool.free, stackList, List.mem_map] at hk
    obtain ⟨a, ha, rfl⟩ := hk
    have ha : a < 4096 - n.num := List.mem_range.mp ha
    rw [h.recorded i hi, h.pool] at he
    have hstack : (mp.withTop (4096 - n.num)).freeStack a = a := h.forRx.fresh.stack a (by omega)
    rw [hstack] at he
    have := h.forRx.sized.entryAddr_inj (by omega) (by omega) he
    omega
  · rw [hheld]
    exact List.not_mem_nil

/-! ## Runs -/

/-- `ixgbe_rx_packet`, and the application getting what it returns. -/
def rxCall : Code Unit := do
  let r ← ixgbeRxPacket
  Prog.access (Op.rxReturn r)

inductive RxEvent where
  | rx
  | receive (wb : RxDesc)
  | free (b : Nat)

/-- One event. A call that aborts ends the run, and the application frees only what it holds. -/
def rxEvent (s : Dev) : RxEvent → Option Dev
  | .rx =>
    match Prog.eval exec 20 rxCall s with
    | some (.done _ s') => some s'
    | _ => none
  | .receive wb => nicStep (.receive wb) s
  | .free b => if b ∈ s.app.held then some (s.free b) else none

/-- The descriptor that the next call looks at. -/
def rxNext (s : Dev) : RxDesc := s.rx.desc (descAddr s.rxq.descriptors s.rxq.rxIndex)

section
variable {s s' : Dev}

/-- The ring after a new buffer has been posted at `rx_index`. -/
def rxReposted (s : Dev) (phy : Nat) : RxRing :=
  let a := descAddr s.rxq.descriptors s.rxq.rxIndex
  { (s.rx.store a .pktAddr ((phy + PktBuf.dataOffset) % 2 ^ 64)).store a .hdrAddr 0 with
    rdt := s.rxq.rxIndex }

theorem eval_rxCall_empty (h : (rxNext s).dd = false) :
    Prog.eval exec 20 rxCall s = some (.done () (s.rxReturn none)) := by
  have hdd : ¬ (rxNext s).statusError &&& rxdadvStatDD ≠ 0 := by simpa [RxDesc.dd] using h
  refine (Prog.eval_op rfl 19).trans ?_
  refine (Prog.eval_op rfl 18).trans ?_
  refine (Prog.eval_op rfl 17).trans ?_
  change Prog.eval exec 17 (Prog.bind (ite ((rxNext s).statusError &&& rxdadvStatDD ≠ 0) _ _) _) s = _
  rw [if_neg hdd]
  rfl

/-- The state after a packet has been delivered, except for what the application gets. -/
def rxDelivered (s : Dev) (newBuf : Nat) : Dev :=
  { rxTaken s (rxNext s).length with
    rx := rxReposted s (PktBuf.get (rxTaken s (rxNext s).length).w.mem newBuf .bufAddrPhy) }

/-- A call that finds a packet delivers the recorded buffer and posts a new one, or aborts. -/
theorem eval_ixgbeRxPacket_packet {β : Type} (f : Option Nat → Code β) (h : (rxNext s).dd = true)
    (h' : (rxNext s).eop = true) (fuel : Nat) :
    Prog.eval exec (fuel + 16) (ixgbeRxPacket.bind f) s =
      match (pktBufAlloc (rxSized s (rxNext s).length).w s.rxq.mempool).1 with
      | none => some (.aborted rxAllocFailed (rxSized s (rxNext s).length))
      | some newBuf => Prog.eval exec (fuel + 1) (f (some (s.rxq.virtualAddresses s.rxq.rxIndex)))
          (rxDelivered s newBuf) := by
  have hdd : (rxNext s).statusError &&& rxdadvStatDD ≠ 0 := by simpa [RxDesc.dd] using h
  have heop : ¬ (rxNext s).statusError &&& rxdadvStatEOP = 0 := by simpa [RxDesc.eop] using h'
  refine (Prog.eval_op rfl (fuel + 15)).trans ?_
  refine (Prog.eval_op rfl (fuel + 14)).trans ?_
  refine (Prog.eval_op rfl (fuel + 13)).trans ?_
  change Prog.eval exec (fuel + 13) (Prog.bind (ite ((rxNext s).statusError &&& rxdadvStatDD ≠ 0)
    (ite ((rxNext s).statusError &&& rxdadvStatEOP = 0) _ _) _) _) s = _
  rw [if_pos hdd, if_neg heop]
  refine (Prog.eval_op rfl (fuel + 12)).trans ?_
  refine (Prog.eval_op rfl (fuel + 11)).trans ?_
  refine (Prog.eval_op rfl (fuel + 10)).trans ?_
  refine (Prog.eval_op rfl (fuel + 9)).trans ?_
  refine (Prog.eval_op rfl (fuel + 8)).trans ?_
  refine (Prog.eval_op rfl (fuel + 7)).trans ?_
  change Prog.eval exec (fuel + 7) (Prog.bind (Prog.bind
    (Prog.ret (pktBufAlloc (rxSized s (rxNext s).length).w s.rxq.mempool).1) _) _)
    (rxRefilled s (rxNext s).length) = _
  cases halloc : (pktBufAlloc (rxSized s (rxNext s).length).w s.rxq.mempool).1 with
  | none =>
    rw [rxRefilled, pktBufAlloc_empty (pktBufAlloc_eq_none_iff.mp halloc)]
    rfl
  | some newBuf =>
    rfl

theorem eval_rxCall_packet (h : (rxNext s).dd = true) (h' : (rxNext s).eop = true) :
    Prog.eval exec 20 rxCall s =
      match (pktBufAlloc (rxSized s (rxNext s).length).w s.rxq.mempool).1 with
      | none => some (.aborted rxAllocFailed (rxSized s (rxNext s).length))
      | some newBuf => some (.done () ((rxDelivered s newBuf).rxReturn
          (some (s.rxq.virtualAddresses s.rxq.rxIndex)))) := by
  refine (eval_ixgbeRxPacket_packet _ h h' 4).trans ?_
  cases (pktBufAlloc (rxSized s (rxNext s).length).w s.rxq.mempool).1 with
  | none => rfl
  | some newBuf => rfl

theorem eval_rxCall_multiSegment (h : (rxNext s).dd = true) (h' : (rxNext s).eop = false) :
    Prog.eval exec 20 rxCall s = some (.aborted
      "multi-segment packets are not supported - increase buffer size or decrease MTU" s) := by
  have hdd : (rxNext s).statusError &&& rxdadvStatDD ≠ 0 := by simpa [RxDesc.dd] using h
  have heop : (rxNext s).statusError &&& rxdadvStatEOP = 0 := by simpa [RxDesc.eop] using h'
  refine (Prog.eval_op rfl 19).trans ?_
  refine (Prog.eval_op rfl 18).trans ?_
  refine (Prog.eval_op rfl 17).trans ?_
  change Prog.eval exec 17 (Prog.bind (ite ((rxNext s).statusError &&& rxdadvStatDD ≠ 0)
    (ite ((rxNext s).statusError &&& rxdadvStatEOP = 0) _ _) _) _) s = _
  rw [if_pos hdd, if_pos heop]
  rfl

theorem rxEvent_rx (h : rxEvent s .rx = some s') :
    ((rxNext s).dd = false ∧ s' = s.rxReturn none) ∨
    ((rxNext s).dd = true ∧ ∃ newBuf,
      (pktBufAlloc (rxSized s (rxNext s).length).w s.rxq.mempool).1 = some newBuf ∧
      s' = (rxDelivered s newBuf).rxReturn (some (s.rxq.virtualAddresses s.rxq.rxIndex))) := by
  rw [rxEvent] at h
  cases hdd : (rxNext s).dd with
  | false =>
    rw [eval_rxCall_empty hdd] at h
    exact Or.inl ⟨rfl, (Option.some.inj h).symm⟩
  | true =>
    refine Or.inr ⟨rfl, ?_⟩
    cases heop : (rxNext s).eop with
    | false =>
      rw [eval_rxCall_multiSegment hdd heop] at h
      cases h
    | true =>
      rw [eval_rxCall_packet hdd heop] at h
      cases halloc : (pktBufAlloc (rxSized s (rxNext s).length).w s.rxq.mempool).1 with
      | none =>
        rw [halloc] at h
        cases h
      | some newBuf =>
        rw [halloc] at h
        exact ⟨newBuf, rfl, (Option.some.inj h).symm⟩

/-- The index stays on the ring. -/
structure RxIndexed (n : RingSize) (s : Dev) : Prop where
  num : s.rxq.numEntries = n.num
  index : s.rxq.rxIndex < n.num

theorem RxIndexed.event {n : RingSize} (h : RxIndexed n s) {e : RxEvent} (he : rxEvent s e = some s') :
    RxIndexed n s' := by
  cases e with
  | rx =>
    rcases rxEvent_rx he with ⟨-, rfl⟩ | ⟨-, newBuf, -, rfl⟩
    · exact ⟨h.num, h.index⟩
    · refine ⟨h.num, ?_⟩
      change incAndWrapRing s.rxq.rxIndex s.rxq.numEntries % 2 ^ 16 < n.num
      have hmod := n.incAndWrapRing_mod s.rxq.rxIndex
      rw [Nat.mod_eq_of_lt h.index] at hmod
      rw [h.num, hmod, Nat.mod_eq_of_lt (n.mod_lt _)]
      exact Nat.mod_lt _ n.pos
  | receive wb =>
    obtain ⟨r, -, rfl⟩ := Option.map_eq_some_iff.mp he
    exact ⟨h.num, h.index⟩
  | free b =>
    rw [rxEvent] at he
    split at he
    · cases he
      exact ⟨h.num, h.index⟩
    · cases he

theorem rxDelivered_not_ok {n : RingSize} (h : RxIndexed n s) (newBuf : Nat) :
    ¬ RxRingOk n ((rxDelivered s newBuf).rxReturn (some (s.rxq.virtualAddresses s.rxq.rxIndex))) :=
  fun hok => hok.notHeld s.rxq.rxIndex h.index List.mem_cons_self

/-- Nothing has been delivered since `s₀`. -/
structure RxQuiet (s₀ s : Dev) : Prop where
  w : s.w = s₀.w
  rxq : s.rxq = s₀.rxq
  held : s.app.held = []
  lastPosted : s.rx.lastPosted = s₀.rx.lastPosted

theorem RxQuiet.ok {n : RingSize} {s₀ : Dev} (h : RxQuiet s₀ s) (hok : RxRingOk n s₀) : RxRingOk n s := by
  refine ⟨?_, ?_, ?_, fun i hi => ?_⟩
  · rw [h.w, h.rxq, h.lastPosted]
    exact hok.posted
  · rw [h.rxq]
    exact hok.distinct
  · rw [h.w, h.rxq]
    exact hok.notFree
  · rw [h.held]
    exact List.not_mem_nil

theorem RxQuiet.event {s₀ : Dev} (h : RxQuiet s₀ s) {e : RxEvent} (he : rxEvent s e = some s')
    (hquiet : e = .rx → (rxNext s).dd = false) : RxQuiet s₀ s' := by
  cases e with
  | rx =>
    rcases rxEvent_rx he with ⟨-, rfl⟩ | ⟨hdd, -⟩
    · exact ⟨h.w, h.rxq, h.held, h.lastPosted⟩
    · rw [hquiet rfl] at hdd
      cases hdd
  | receive wb =>
    obtain ⟨r, hr, rfl⟩ := Option.map_eq_some_iff.mp he
    exact ⟨h.w, h.rxq, h.held, (RxRing.Nic.receive wb hr).lastPosted.trans h.lastPosted⟩
  | free b =>
    rw [rxEvent, if_neg (by rw [h.held]; exact List.not_mem_nil)] at he
    cases he

theorem RxIndexed.runs {n : RingSize} (h : RxIndexed n s) {es : List RxEvent}
    (hes : runs rxEvent s es = some s') : RxIndexed n s' :=
  runs_inv (C := fun _ _ => True) (fun _ _ _ hs _ he => hs.event he) h hes fun _ _ _ _ _ => trivial

/-- **When the receive ring records its buffers.** Started by `start_rx_queue`, the ring is as it
should be in every state of a run exactly if no call of the run is made while a packet waits. -/
theorem rxRingOk_iff_no_packet {n : RingSize} {s₀ : Dev} (h : RxInit n s) (hmem : RxMemory s)
    (hstart : Prog.Evals exec startRxQueue s (.done () s₀)) {es : List RxEvent}
    (hrun : runs rxEvent s₀ es = some s') :
    (∀ es₁ s₁, es₁ <+: es → runs rxEvent s₀ es₁ = some s₁ → RxRingOk n s₁) ↔
    ∀ es₁ s₁, es₁ ++ [.rx] <+: es → runs rxEvent s₀ es₁ = some s₁ → (rxNext s₁).dd = false := by
  obtain ⟨mp, hready, hheld, -, -⟩ := (startRxQueue_evals h hstart).ready h hmem
  have hindexed : RxIndexed n s₀ := ⟨hready.num, by rw [hready.index]; exact n.pos⟩
  constructor
  · intro hok es₁ s₁ hpre h₁
    by_contra hdd
    -- the call is part of the run, so it has returned
    obtain ⟨rest, hrest⟩ := hpre
    have hrun' := hrun
    rw [← hrest, runs_append, runs_append, h₁, Option.bind_some, runs_singleton] at hrun'
    obtain ⟨s₂, hcall, -⟩ := Option.bind_eq_some_iff.mp hrun'
    have hall := hok (es₁ ++ [.rx]) s₂ ⟨rest, hrest⟩ (by
      rw [runs_append, h₁, Option.bind_some, runs_singleton, hcall])
    rcases rxEvent_rx hcall with ⟨hno, -⟩ | ⟨-, newBuf, -, rfl⟩
    · exact hdd hno
    · exact rxDelivered_not_ok (hindexed.runs h₁) newBuf hall
  · intro hquiet es₁ s₁ hpre h₁
    have hq : RxQuiet s₀ s₀ := ⟨rfl, rfl, hheld, rfl⟩
    have hend : RxQuiet s₀ s₁ := runs_inv (C := fun s e => e = .rx → (rxNext s).dd = false)
      (fun _ _ _ hs hC he => hs.event he hC) hq h₁ fun es₂ e s₂ hpre₂ h₂ he =>
        hquiet es₂ s₂ (he ▸ hpre₂.trans hpre) h₂
    exact hend.ok (hready.ringOk hheld)

end

/-! ## A ring of two descriptors -/

/-- The state after the undisturbed run of `start_rx_queue`, if `fuel` is enough. -/
def rxStart (fuel : Nat) (s : Dev) : Option Dev :=
  match Prog.eval exec fuel startRxQueue s with
  | some (.done _ s₀) => some s₀
  | _ => none

theorem rxStart_evals {fuel : Nat} {s s₀ : Dev} (h : rxStart fuel s = some s₀) :
    Prog.Evals exec startRxQueue s (.done () s₀) := by
  refine ⟨fuel, ?_⟩
  unfold rxStart at h
  split at h
  · rename_i heval
    rw [heval, Option.some.inj h]
  · cases h

def twoSlots : RingSize := ⟨2, 1, rfl, by decide⟩

def twoSlotsDev : Dev := bootDev 2 [(64, ⟨0x200000, 0x40000000⟩)] []

theorem twoSlots_init : RxInit twoSlots twoSlotsDev :=
  ⟨rfl, rfl, rfl, rfl, rfl, rfl, rfl, rfl, rfl, rfl⟩

theorem twoSlots_memory : RxMemory twoSlotsDev := by
  rintro ptr dma rest ⟨⟩
  exact ⟨by decide, by decide⟩

/-- The write-back of a packet of 60 bytes. -/
def wb60 : RxDesc := ⟨0, 60 * 2 ^ 32 + 3⟩

/-- Polling an empty ring, and then receiving a packet, is no problem. -/
theorem rxRingOk_iff_no_packet_poll : ∃ s₀ s', rxStart 60 twoSlotsDev = some s₀ ∧
    runs rxEvent s₀ [.rx, .receive wb60] = some s' ∧ RxRingOk twoSlots s' := by
  obtain ⟨s', hrun⟩ := Option.isSome_iff_exists.mp
    (show ((rxStart 60 twoSlotsDev).bind (runs rxEvent · [.rx, .receive wb60])).isSome by decide +kernel)
  obtain ⟨s₀, hstart, hrun⟩ := Option.bind_eq_some_iff.mp hrun
  have hempty : (rxNext s₀).dd = false := by
    have := (show (rxStart 60 twoSlotsDev).map (fun s => (rxNext s).dd) = some false by decide +kernel)
    rwa [hstart, Option.map_some, Option.some.injEq] at this
  refine ⟨s₀, s', hstart, hrun, (rxRingOk_iff_no_packet twoSlots_init twoSlots_memory
    (rxStart_evals hstart) hrun).mpr (fun es₁ s₁ hpre h₁ => ?_) _ _ (List.prefix_refl _) hrun⟩
  rcases es₁ with _ | ⟨e, _ | ⟨e', es⟩⟩
  · cases h₁
    exact hempty
  · simp [List.cons_prefix_cons] at hpre
  · have := hpre.length_le
    simp at this

/-- **The ring forgets the buffers it posts.** After one packet the address in descriptor 0 is not
inside the buffer recorded for it, and that buffer is with the application; after three packets the
application has been given the same buffer twice, although it has freed none. -/
theorem rxRing_counterexample : ∃ s₀ s₁ s₃, rxStart 60 twoSlotsDev = some s₀ ∧
    runs rxEvent s₀ [.receive wb60, .rx] = some s₁ ∧
    ¬ (s₁.w.pools s₁.rxq.mempool).InBuffer (s₁.rxq.virtualAddresses 0)
      (s₁.rx.lastPosted (descAddr s₁.rxq.descriptors 0)) ∧
    s₁.rxq.virtualAddresses 0 ∈ s₁.app.held ∧
    runs rxEvent s₀ [.receive wb60, .rx, .receive wb60, .rx, .receive wb60, .rx] = some s₃ ∧
    s₃.app.delivered.map (·.1) = [10483712, 10481664, 10483712] := by
  have h₁ := (show ((rxStart 60 twoSlotsDev).bind (runs rxEvent · [.receive wb60, .rx])).map (fun s =>
      (s.rxq.virtualAddresses 0, s.app.held, s.rx.lastPosted (descAddr s.rxq.descriptors 0),
        (s.w.pools s.rxq.mempool).baseAddr, (s.w.pools s.rxq.mempool).baseAddrPhy,
        (s.w.pools s.rxq.mempool).bufSize)) =
      some (10483712, [10483712], 1082124352, 2097152, 1073741824, 2048) by decide +kernel)
  have h₃ := (show ((rxStart 60 twoSlotsDev).bind
      (runs rxEvent · [.receive wb60, .rx, .receive wb60, .rx, .receive wb60, .rx])).map
      (fun s => s.app.delivered.map (·.1)) = some [10483712, 10481664, 10483712] by decide +kernel)
  obtain ⟨s₁, h₁, hs₁⟩ := Option.map_eq_some_iff.mp h₁
  obtain ⟨s₃, h₃, hs₃⟩ := Option.map_eq_some_iff.mp h₃
  obtain ⟨s₀, hstart, h₁⟩ := Option.bind_eq_some_iff.mp h₁
  rw [hstart, Option.bind_some] at h₃
  simp only [Prod.mk.injEq] at hs₁
  obtain ⟨hvirt, hheld, hposted, hbase, hphy, hsize⟩ := hs₁
  refine ⟨s₀, s₁, s₃, hstart, h₁, ?_, ?_, h₃, hs₃⟩
  · rw [hvirt, hposted]
    rintro ⟨k, -, hk, hlo, hhi⟩
    rw [Mempool.entryAddr, hbase, hsize] at hk
    rw [hphy, hsize] at hlo hhi
    omega
  · rw [hvirt, hheld]
    exact List.mem_singleton_self _

end Ixy
