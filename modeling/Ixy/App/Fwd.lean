import Ixy.Driver.RxFrames
import Ixy.Driver.Tx

/-!
# `ixy-fwd`

The forwarder receives on one device and transmits what it gets on another; `rx` is the ring of the
first and `tx` that of the second. It never looks at the result of `ixgbe_tx_packet`. When the transmit
ring is full the call returns 0 and the packet's buffer is neither in flight nor free: it is lost.

So the forwarder runs out of buffers when the second NIC reports nothing as sent (`fwd_counterexample`). This is
shown by following such a run packet by packet (`FwdFlood`), whatever the frames are. What the main loop keeps in
every run is the subject of `Ixy.App.FwdLoop`.
-/

namespace Ixy

open Lib

/-- Transmit function takes care of freeing the packet. -/
def fwdTransmit (buf : Nat) : Code (Unit ⊕ Unit) := do
  Prog.access Op.txCall
  let _ ← ixgbeTxPacket buf
  return .inl ()

/-- One pass of the main loop, without the statistics. -/
def fwdPass (_ : Unit) : Code (Unit ⊕ Unit) := do
  let r ← ixgbeRxPacket
  match r with
  | none => return .inl ()
  | some buf => fwdTransmit buf

/-- The number of buffers that are not on the free stack. -/
def Mempool.missing (mp : Mempool) : Nat := mp.numEntries - mp.freeStackTop

/-- The state at the start. -/
structure FwdInit (s : Dev) : Prop where
  rx : RxInit queueEntries s
  tx : TxStart queueEntries s
  memory : RxMemory s
  live : s.w.live = []

/-! ## Start -/

section
variable {s c : Dev} {w : World} {ptr j : Nat} {rest : List (Nat × DmaMemory)}

theorem rxFilled_live (c : Dev) (j : Nat) : (rxFilled c j).w.live = c.w.live := by
  induction j with
  | zero => rfl
  | succ j ih =>
    change (pktBufAlloc (rxFilled c j).w _).2.live = _
    rw [pktBufAlloc_live, ih]

theorem RxSupply.live (h : RxSupply c w ptr rest) : w.live = ptr :: c.w.live := by
  obtain ⟨dma, -, rfl⟩ := h.exists_dma
  rw [memoryAllocateMempool_live]

theorem FwdInit.filled (h : FwdInit s) (hsup : RxSupply s w ptr rest) (hj : j ≤ 4096) :
    (rxFilled (rxPoolSet s w ptr rest) j).w.live = [ptr] ∧
    (rxFilled (rxPoolSet s w ptr rest) j).w.pools ptr = (w.pools ptr).withTop (4096 - j) ∧
    (w.pools ptr).numEntries = 4096 := by
  have hrx := (hsup.pool h.memory).1
  refine ⟨?_, ?_, hrx.entries⟩
  · rw [rxFilled_live]
    change w.live = _
    rw [hsup.live, h.live]
  · rw [← hrx.entries] at hj ⊢
    exact (rxFilled_pool (c := rxPoolSet s w ptr rest) rfl hrx.fresh j hj).1

end

/-! ## Losing buffers -/

/-- After `a` packets received and `b` forwarded with nothing ever reported on the transmit ring; the NIC
has written back `W` packets, and `j` calls have begun with the transmit ring jammed. -/
structure FwdFlood (a W b j : Nat) (s : Dev) : Prop where
  rxNum : s.rxq.numEntries = 1024
  rxIndex : s.rxq.rxIndex = a % 1024
  rxBase : s.rxq.descriptors = s.rx.base
  rxLen : s.rx.len = 1024
  rdh : s.rx.rdh = W % 1024
  rdt : s.rx.rdt = (a + 1023) % 1024
  enabled : s.rx.rxdctl &&& queueEnable ≠ 0
  live : s.w.live = [s.rxq.mempool]
  entries : (s.w.pools s.rxq.mempool).numEntries = 4096
  top : (s.w.pools s.rxq.mempool).freeStackTop = 3072 - a
  txNum : s.txq.numEntries = 1024
  clean : s.txq.cleanIndex = 0
  txIndex : s.txq.txIndex = min b 1023
  txLen : s.tx.len = 1024
  tdt : s.tx.tdt = min b 1023
  accepted : s.tx.accepted.length = min b 1023
  reclaimed : s.tx.reclaimed = []
  completed : s.tx.completed = []
  slot : 0 < b → (s.tx.desc (descAddr s.txq.descriptors 0)).dd = false
  jams : s.app.jams = j

section
variable {a b j W : Nat} {s : Dev}

/-- A packet arrives, whatever its frame leaves in memory. -/
theorem FwdFlood.receive (h : FwdFlood a a b j s) (m : Mem) :
    ∃ s', nicStep (.receive wb60) (s.setMem m) = some s' ∧ FwdFlood a (a + 1) b j s' ∧ rxNext s' = wb60 := by
  have hne : s.rx.rdh ≠ s.rx.rdt := by
    rw [h.rdh, h.rdt]
    omega
  have hcond : s.rx.rxdctl &&& queueEnable ≠ 0 ∧ s.rx.rdh ≠ s.rx.rdt ∧ wb60.dd ∧ wb60.eop :=
    ⟨h.enabled, hne, by decide, by decide⟩
  refine ⟨_, by rw [nicStep, RxRing.receive]; exact congrArg _ (if_pos hcond), ?_, ?_⟩
  · refine { h with rdh := ?_ }
    change (s.rx.rdh + 1) % s.rx.len = _
    rw [h.rdh, h.rxLen]
    omega
  · change Function.update s.rx.desc (descAddr s.rx.base s.rx.rdh) wb60 (descAddr s.rxq.descriptors s.rxq.rxIndex) = _
    rw [h.rxBase, h.rxIndex, h.rdh, Function.update_self]

theorem FwdFlood.delivered (h : FwdFlood a W b j s) {newBuf : Nat}
    (hsome : (pktBufAlloc (rxSized s (rxNext s).length).w s.rxq.mempool).1 = some newBuf) :
    FwdFlood (a + 1) W b j (rxDelivered s newBuf) := by
  have htop : ((rxSized s (rxNext s).length).w.pools s.rxq.mempool).freeStackTop ≠ 0 := by
    rw [Ne, ← pktBufAlloc_eq_none_iff, hsome]
    exact Option.some_ne_none _
  have hnext := pktBufAlloc_top (w := (rxSized s (rxNext s).length).w) htop
  have hlayout := pktBufAlloc_layout (rxSized s (rxNext s).length).w s.rxq.mempool s.rxq.mempool
  refine ⟨h.rxNum, ?_, h.rxBase, h.rxLen, h.rdh, ?_, h.enabled, ?_, ?_, ?_, h.txNum, h.clean, h.txIndex,
    h.txLen, h.tdt, h.accepted, h.reclaimed, h.completed, h.slot, h.jams⟩
  · change incAndWrapRing s.rxq.rxIndex s.rxq.numEntries % 2 ^ 16 = _
    rw [h.rxIndex, h.rxNum, show (1024 : Nat) = queueEntries.num from rfl, queueEntries.incAndWrapRing_mod,
      Nat.mod_eq_of_lt (queueEntries.mod_lt _)]
  · change s.rxq.rxIndex = _
    rw [h.rxIndex]
    omega
  · exact (pktBufAlloc_live _ _).trans h.live
  · exact hlayout.numEntries.trans h.entries
  · have hold : ((rxSized s (rxNext s).length).w.pools s.rxq.mempool).freeStackTop = 3072 - a := h.top
    change ((pktBufAlloc (rxSized s (rxNext s).length).w s.rxq.mempool).2.pools
      s.rxq.mempool).freeStackTop = _
    omega

theorem evals_fwdPass_packet (hdd : (rxNext s).dd = true) (heop : (rxNext s).eop = true) {newBuf : Nat}
    (hsome : (pktBufAlloc (rxSized s (rxNext s).length).w s.rxq.mempool).1 = some newBuf)
    {out : Prog.Outcome (Unit ⊕ Unit) Dev}
    (hout : Prog.Evals exec (fwdTransmit (s.rxq.virtualAddresses s.rxq.rxIndex)) (rxDelivered s newBuf) out) :
    Prog.Evals exec (fwdPass ()) s out := by
  obtain ⟨fuel, hout⟩ := hout
  refine ⟨fuel + 16, (eval_ixgbeRxPacket_packet _ hdd heop fuel).trans ?_⟩
  rw [hsome]
  exact Prog.eval_mono (Nat.le_succ fuel) hout

theorem FwdFlood.rx (h : FwdFlood a (a + 1) b j s) (hpkt : rxNext s = wb60) (ha : a < 3072) :
    ∃ buf s', FwdFlood (a + 1) (a + 1) b j s' ∧
      ∀ out, Prog.Evals exec (fwdTransmit buf) s' out → Prog.Evals exec (fwdPass ()) s out := by
  have htop : (s.w.pools s.rxq.mempool).freeStackTop ≠ 0 := by
    rw [h.top]
    omega
  obtain ⟨newBuf, hsome⟩ := Option.ne_none_iff_exists'.mp
    (mt (pktBufAlloc_eq_none_iff (w := (rxSized s (rxNext s).length).w)).mp htop)
  refine ⟨s.rxq.virtualAddresses s.rxq.rxIndex, rxDelivered s newBuf, h.delivered hsome, fun out hout => ?_⟩
  exact evals_fwdPass_packet (by rw [hpkt]; decide) (by rw [hpkt]; decide) hsome hout

theorem FwdFlood.clean_stops (h : FwdFlood a W b j s) :
    Prog.Evals exec (txClean s.txq.txIndex s.txq.cleanIndex) s (.done (.inr 0) s) := by
  rw [h.clean]
  unfold txClean
  split
  · rename_i hne
    rw [h.txIndex] at hne
    have hdd := h.slot (by omega)
    have hstatus : ¬ (s.tx.desc (descAddr s.txq.descriptors 0)).olinfoStatus &&& advtxdStatDD ≠ 0 := by
      simpa [TxDesc.dd] using hdd
    refine .op rfl (.op rfl ?_)
    change Prog.Evals exec (ite ((s.tx.desc (descAddr s.txq.descriptors 0)).olinfoStatus &&& advtxdStatDD ≠ 0)
      _ _) _ _
    rw [if_neg hstatus]
    exact .ret _ _
  · exact .ret _ _

theorem FwdFlood.post (h : FwdFlood a W b j s) (hb : b < 1023) (buf : Nat) :
    Prog.Evals exec (ixgbeTxPacket buf) s (.done 1 (txPosted { s with txq := s.txq.set .cleanIndex 0 } b buf)) ∧
    FwdFlood a W (b + 1) j (txPosted { s with txq := s.txq.set .cleanIndex 0 } b buf) := by
  have hindex : s.txq.txIndex = b := by
    rw [h.txIndex]
    omega
  have hinc : incAndWrapRing b 1024 = b + 1 := by
    have hwrap := queueEntries.incAndWrapRing_mod b
    rw [show queueEntries.num = 1024 from rfl, Nat.mod_eq_of_lt (by omega), Nat.mod_eq_of_lt (by omega)] at hwrap
    exact hwrap
  have hnext : incAndWrapRing s.txq.txIndex s.txq.numEntries % 2 ^ 16 = min (b + 1) 1023 := by
    rw [hindex, h.txNum, hinc]
    omega
  have htdt : s.tx.tdt = b := by
    rw [h.tdt]
    omega
  constructor
  · have hevals := evals_ixgbeTxPacket buf h.clean_stops (by rw [hindex, h.txNum, hinc]; omega)
    rw [hindex] at hevals
    exact hevals
  · refine ⟨h.rxNum, h.rxIndex, h.rxBase, h.rxLen, h.rdh, h.rdt, h.enabled, h.live, h.entries, h.top, h.txNum,
      rfl, hnext, h.txLen, hnext, ?_, h.reclaimed, h.completed, fun _ => ?_, h.jams⟩
    · rw [txPosted_accepted_length]
      change s.tx.accepted.length +
        ringDist s.tx.len s.tx.tdt (incAndWrapRing s.txq.txIndex s.txq.numEntries % 2 ^ 16) = _
      rw [hnext, h.accepted, h.txLen, htdt, ringDist]
      omega
    · rw [txPosted_desc]
      change (Function.update s.tx.desc (descAddr s.txq.descriptors b) _ (descAddr s.txq.descriptors 0)).dd = _
      rcases Nat.eq_zero_or_pos b with rfl | hpos
      · rw [Function.update_self]
        exact txDescFor_dd _
      · rw [Function.update_of_ne (by unfold descAddr; omega)]
        exact h.slot hpos

theorem FwdFlood.lost (h : FwdFlood a W b j s) (hb : 1023 ≤ b) (buf : Nat) :
    Prog.Evals exec (ixgbeTxPacket buf) s (.done 0 { s with txq := s.txq.set .cleanIndex 0 }) := by
  have hindex : s.txq.txIndex = 1023 := by
    rw [h.txIndex]
    omega
  unfold ixgbeTxPacket
  refine .op rfl (.op rfl (.loop_exit h.clean_stops (.op rfl (.op rfl ?_))))
  change Prog.Evals exec (ite (0 = incAndWrapRing s.txq.txIndex s.txq.numEntries) _ _) _ _
  rw [hindex, h.txNum, if_pos (by decide)]
  exact .ret _ _

theorem FwdFlood.dropped (h : FwdFlood a W b j s) (hb : 1023 ≤ b) :
    FwdFlood a W (b + 1) j { s with txq := s.txq.set .cleanIndex 0 } := by
  have hmin : min (b + 1) 1023 = min b 1023 := by omega
  exact { h with
    clean := rfl
    txIndex := by rw [hmin]; exact h.txIndex
    tdt := by rw [hmin]; exact h.tdt
    accepted := by rw [hmin]; exact h.accepted
    slot := fun _ => h.slot (by omega) }

theorem FwdFlood.txCall (h : FwdFlood a W b j s) : FwdFlood a W b (j + if 1023 ≤ b then 1 else 0) s.txCall := by
  have hjam : s.tx.Jammed ↔ 1023 ≤ b := by
    rw [TxRing.Jammed, TxRing.inFlight, h.reclaimed, h.completed, h.txLen, List.length_nil, List.drop_zero,
      h.accepted, and_iff_left List.not_mem_nil]
    omega
  refine { h with jams := ?_ }
  change s.app.jams + (if s.tx.Jammed then 1 else 0) = _
  rw [h.jams]
  simp only [hjam]

theorem FwdFlood.transmit (h : FwdFlood a W b j s) (buf : Nat) :
    ∃ s', Prog.Evals exec (fwdTransmit buf) s (.done (.inl ()) s') ∧
      FwdFlood a W (b + 1) (j + if 1023 ≤ b then 1 else 0) s' := by
  have hcall := h.txCall
  unfold fwdTransmit
  rcases Nat.lt_or_ge b 1023 with hb | hb
  · obtain ⟨hpost, hflood⟩ := hcall.post hb buf
    refine ⟨_, .op rfl ?_, hflood⟩
    exact Prog.Evals.bind (p := ixgbeTxPacket buf) hpost (.ret _ _)
  · exact ⟨_, .op rfl (Prog.Evals.bind (p := ixgbeTxPacket buf) (hcall.lost hb buf) (.ret _ _)), hcall.dropped hb⟩

end

/-- An environment that can deliver a packet of 60 bytes, with some frame. -/
def DeliversWb60 {A : Type} (step : A → Dev → Option Dev) : Prop :=
  ∀ s, ∃ act m, step act s = nicStep (.receive wb60) (s.setMem m)

section
variable {a b j W : Nat} {s : Dev} {A : Type} {step : A → Dev → Option Dev}

theorem FwdFlood.packet (h : FwdFlood a a a j s) (hstep : DeliversWb60 step) (ha : a < 3072) :
    ∃ ts s', Conf.run exec step ts ⟨s, Prog.iterate fwdPass ()⟩ = some ⟨s', Prog.iterate fwdPass ()⟩ ∧
      FwdFlood (a + 1) (a + 1) (a + 1) (j + if 1023 ≤ a then 1 else 0) s' := by
  obtain ⟨act, m, hact⟩ := hstep s
  obtain ⟨s₁, hreceive, hrecv, hpkt⟩ := h.receive m
  rw [hreceive] at hact
  obtain ⟨buf, s₂, hrx, hevals⟩ := hrecv.rx hpkt ha
  obtain ⟨s₃, htx, hflood⟩ := hrx.transmit buf
  obtain ⟨m, hm⟩ := Conf.run_of_evals exec step (Prog.resume fwdPass .ret) (hevals _ htx)
  refine ⟨.env act :: .prog :: List.replicate m .prog, s₃, ?_, hflood⟩
  simp only [Conf.run, Conf.step, hact, Option.map_some, Option.bind_some, Prog.iterate]
  exact hm

theorem FwdFlood.packets (h : FwdFlood 0 0 0 0 s) (hstep : DeliversWb60 step) (k : Nat) (hk : k ≤ 3072) :
    ∃ ts s', Conf.run exec step ts ⟨s, Prog.iterate fwdPass ()⟩ = some ⟨s', Prog.iterate fwdPass ()⟩ ∧
      FwdFlood k k k (k - 1023) s' := by
  induction k with
  | zero => exact ⟨[], s, rfl, h⟩
  | succ k ih =>
    obtain ⟨ts, s₁, hrun, hflood⟩ := ih (by omega)
    obtain ⟨ts', s₂, hrun', hflood'⟩ := hflood.packet hstep (by omega)
    refine ⟨ts ++ ts', s₂, by rw [Conf.run_append, hrun, Option.bind_some, hrun'], ?_⟩
    have hjams : k - 1023 + (if 1023 ≤ k then 1 else 0) = k + 1 - 1023 := by
      split <;> omega
    rw [hjams] at hflood'
    exact hflood'

/-- Descriptor `j` has been given the buffer `buf`. -/
def rxFillStep (s : Dev) (j buf : Nat) : Dev :=
  let a := descAddr s.rxq.descriptors j
  let w := (pktBufAlloc s.w s.rxq.mempool).2
  { s with
    w := w
    rxq := s.rxq.set (.virtualAddresses j) buf
    rx := (s.rx.store a .pktAddr (PktBuf.get w.mem buf .bufAddrPhy)).store a .hdrAddr 0 }

theorem evals_fillRxDescriptor {buf : Nat} (hlt : j < s.rxq.numEntries)
    (halloc : (pktBufAlloc s.w s.rxq.mempool).1 = some buf) :
    Prog.Evals exec (fillRxDescriptor j) s (.done (.inl (j + 1)) (rxFillStep s j buf)) := by
  unfold fillRxDescriptor
  refine .op rfl ?_
  change Prog.Evals exec (ite (j < s.rxq.numEntries) _ _) _ _
  rw [if_pos hlt]
  refine .op rfl (.op rfl (.op rfl ?_))
  change Prog.Evals exec ((Prog.ret (pktBufAlloc s.w s.rxq.mempool).1).bind _) _ _
  rw [halloc]
  exact ⟨6, rfl⟩

theorem evals_fillRxDescriptor_end (h : s.rxq.numEntries = j) :
    Prog.Evals exec (fillRxDescriptor j) s (.done (.inr ()) s) := by
  unfold fillRxDescriptor
  refine .op rfl ?_
  change Prog.Evals exec (ite (j < s.rxq.numEntries) _ _) _ _
  rw [if_neg (by omega)]
  exact .ret _ _

/-- The undisturbed start with the first `j` descriptors filled. -/
structure FwdFilled (c : Dev) (j : Nat) (s : Dev) : Prop where
  w : s.w = (rxFilled c j).w
  rxq : s.rxq = (rxFilled c j).rxq
  txq : s.txq = c.txq
  tx : s.tx = c.tx
  app : s.app = c.app
  base : s.rx.base = c.rx.base
  len : s.rx.len = c.rx.len

theorem FwdFilled.fill {c : Dev} {m : Nat} (hnum : c.rxq.numEntries = m) (hfill : RxFillable c m)
    (h : FwdFilled c j s) (hj : j ≤ m) (k : Unit → Code Unit) :
    ∃ s', FwdFilled c m s' ∧
      ∀ out, Prog.Evals exec (k ()) s' out → Prog.Evals exec (.loop fillRxDescriptor j k) s out := by
  induction hd : m - j generalizing j s with
  | zero =>
    obtain rfl : j = m := by omega
    refine ⟨s, h, fun out hout => .loop_exit (evals_fillRxDescriptor_end ?_) hout⟩
    rw [h.rxq, (rxFilled_frame c j).2.2.2.1, hnum]
  | succ d ih =>
    obtain ⟨-, -, hpool, hframe, -⟩ := rxFilled_frame c j
    obtain ⟨buf, hbuf⟩ := Option.ne_none_iff_exists'.mp (hfill j (by omega))
    have hlt : j < s.rxq.numEntries := by
      rw [h.rxq, hframe, hnum]
      omega
    have halloc : (pktBufAlloc s.w s.rxq.mempool).1 = some buf := by
      rw [h.w, h.rxq, hpool]
      exact hbuf
    have hstep : FwdFilled c (j + 1) (rxFillStep s j buf) := by
      refine ⟨?_, ?_, h.txq, h.tx, h.app, h.base, h.len⟩
      · change (pktBufAlloc s.w s.rxq.mempool).2 = _
        rw [h.w, h.rxq]
        rfl
      · change s.rxq.set (.virtualAddresses j) buf = _
        rw [h.rxq, rxFilled, hpool, hbuf]
        rfl
    obtain ⟨s', hs', hout⟩ := ih hstep (by omega) (by omega)
    exact ⟨s', hs', fun out h => .loop_next (evals_fillRxDescriptor hlt halloc) (hout out h)⟩

/-- The queue enabled, and handed to the NIC. -/
def rxEnabled (s : Dev) : Dev :=
  { s with rx := { s.rx with
      rxdctl := s.rx.rxdctl ||| queueEnable
      rdh := 0
      rdt := (s.rxq.numEntries + (2 ^ 32 - 1)) % 2 ^ 32 } }

theorem evals_enableRxQueue : Prog.Evals exec enableRxQueue s (.done () (rxEnabled s)) := by
  unfold enableRxQueue
  refine .op rfl (.op rfl (Prog.Evals.bind (p := waitSetReg32 .rxdctl queueEnable)
    (evals_waitSetReg32 rfl ?_) ⟨4, rfl⟩))
  exact or_and_self_right _ _

theorem FwdInit.fillable (h : FwdInit s) {w : World} {ptr : Nat} {rest : List (Nat × DmaMemory)}
    (hsup : RxSupply s w ptr rest) : RxFillable (rxPoolSet s w ptr rest) 1024 := by
  intro i hi
  refine mt pktBufAlloc_eq_none_iff.mp ?_
  change ((rxFilled (rxPoolSet s w ptr rest) i).w.pools ptr).freeStackTop ≠ 0
  rw [(h.filled hsup (by omega)).2.1]
  change 4096 - i ≠ 0
  omega

theorem FwdInit.flood (h : FwdInit s) (hjams : s.app.jams = 0) {w : World} {ptr : Nat}
    {rest : List (Nat × DmaMemory)} (hsup : RxSupply s w ptr rest) {s₁ : Dev}
    (h₁ : FwdFilled (rxPoolSet s w ptr rest) 1024 s₁) : FwdFlood 0 0 0 0 (txEnabled (rxEnabled s₁)) := by
  obtain ⟨-, hdesc, hpool, hnum, hindex, -⟩ := rxFilled_frame (rxPoolSet s w ptr rest) 1024
  obtain ⟨hlive, hpools, hentries⟩ := h.filled hsup (j := 1024) (by omega)
  rw [← h₁.w] at hlive hpools
  rw [← h₁.rxq] at hdesc hpool hnum hindex
  have hptr : s₁.rxq.mempool = ptr := hpool
  have htx : s₁.tx = s.tx := h₁.tx
  have hrxnum : s₁.rxq.numEntries = 1024 := hnum.trans h.rx.num
  have htdt : (rxEnabled s₁).tx.tdt = 0 := by
    change s₁.tx.tdt = 0
    rw [htx, h.tx.tdt]
  rw [txEnabled_eq htdt]
  refine
    { rxNum := hrxnum
      rxIndex := hindex.trans h.rx.index
      rxBase := hdesc.trans (h.rx.descriptors.trans h₁.base.symm)
      rxLen := h₁.len.trans h.rx.len
      rdh := rfl
      rdt := ?_
      enabled := ?_
      live := by rw [← hptr] at hlive; exact hlive
      entries := ?_
      top := ?_
      txNum := ?_
      clean := ?_
      txIndex := ?_
      txLen := ?_
      tdt := rfl
      accepted := ?_
      reclaimed := ?_
      completed := ?_
      slot := fun hb => absurd hb (Nat.lt_irrefl 0)
      jams := ?_ }
  · change (s₁.rxq.numEntries + (2 ^ 32 - 1)) % 2 ^ 32 = _
    rw [hrxnum]
    decide
  · change (s₁.rx.rxdctl ||| queueEnable) &&& queueEnable ≠ 0
    rw [or_and_self_right]
    decide
  · change (s₁.w.pools s₁.rxq.mempool).numEntries = _
    rw [hptr, hpools]
    exact hentries
  · change (s₁.w.pools s₁.rxq.mempool).freeStackTop = _
    rw [hptr, hpools]
    rfl
  · change s₁.txq.numEntries = _
    rw [h₁.txq]
    exact h.tx.num
  · change s₁.txq.cleanIndex = _
    rw [h₁.txq]
    exact h.tx.clean
  · change s₁.txq.txIndex = _
    rw [h₁.txq]
    exact h.tx.index
  · change s₁.tx.len = _
    rw [htx]
    exact h.tx.len
  · change s₁.tx.accepted.length = _
    rw [htx, h.tx.accepted]
    rfl
  · change s₁.tx.reclaimed = _
    rw [htx, h.tx.reclaimed]
  · change s₁.tx.completed = _
    rw [htx, h.tx.completed]
  · change s₁.app.jams = _
    rw [h₁.app]
    exact hjams

theorem FwdInit.evals_starts (h : FwdInit s) (hjams : s.app.jams = 0) (hsup : s.app.supply ≠ []) :
    ∃ s₀ s₁, Prog.Evals exec startRxQueue s (.done () s₀) ∧ Prog.Evals exec startTxQueue s₀ (.done () s₁) ∧
      s₁ = txEnabled s₀ ∧ s₀.tx = s.tx ∧ s₀.txq = s.txq ∧ FwdFlood 0 0 0 0 s₁ := by
  obtain ⟨⟨ptr, dma⟩, rest, hsup⟩ := List.exists_cons_of_ne_nil hsup
  have hnew := exec_poolNew_of hsup 4096 2048
  obtain ⟨w, hw⟩ : ∃ w, w = memoryAllocateMempool s.w ptr dma 4096 2048 := ⟨_, rfl⟩
  have hsupply : RxSupply s w ptr rest := ⟨dma, hsup, hw⟩
  rw [← hw] at hnew
  have hnum : (rxPoolSet s w ptr rest).rxq.numEntries = 1024 := h.rx.num
  obtain ⟨s₁, h₁, hfill⟩ := FwdFilled.fill hnum (h.fillable hsupply) (s := rxPoolSet s w ptr rest)
    ⟨rfl, rfl, rfl, rfl, rfl, rfl, rfl⟩ (Nat.zero_le _) (fun _ => enableRxQueue)
  have hflood := h.flood hjams hsupply h₁
  refine ⟨rxEnabled s₁, _, ?_, evals_startTxQueue (hflood.txNum), rfl, h₁.tx, h₁.txq, hflood⟩
  unfold startRxQueue
  refine .op hnew (.op rfl (.op rfl ?_))
  change Prog.Evals exec (ite ((rxPoolSet s w ptr rest).rxq.numEntries &&&
    ((rxPoolSet s w ptr rest).rxq.numEntries - 1) ≠ 0) _ _) _ _
  rw [hnum, if_neg (by decide)]
  exact hfill _ evals_enableRxQueue

end

end Ixy
