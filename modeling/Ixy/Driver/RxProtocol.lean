import Ixy.Driver.Rx

/-!
# The head/tail protocol of the receive ring

A receiving application is started by `start_rx_queue` and then polls the queue and frees buffers in
any order (`rxMain`). The NIC moves between any two accesses. `RxProtocolOk` is what the driver's
comments promise about `RDH`, `RDT`, `rx_index` and the `DD` bits, and what the application gets; the
main result is that it holds in every state of every run.

The proof is a loop invariant (`RxLoop`) over the specifications of the two driver functions: between
two requests the ring is idle at the counter of packets delivered.
-/

namespace Ixy

open Lib

/-- Serve one request of the application. -/
def rxServe (_ : Unit) : Code (Unit ⊕ Unit) := do
  let call ← Prog.access Op.nextRx
  match call with
  | .rx => do
    let r ← ixgbeRxPacket
    Prog.access (Op.rxReturn r)
    return .inl ()
  | .free b => do
    free b
    Prog.access Op.idle
    return .inl ()

/-- A receiving application, from the start of its queue. -/
def rxMain : Code Unit := do
  startRxQueue
  Prog.access Op.idle
  Prog.iterate rxServe ()

/-- The state that `init_rx` leaves. What the descriptors hold does not matter. -/
structure RxInit (n : RingSize) (s : Dev) : Prop where
  num : s.rxq.numEntries = n.num
  index : s.rxq.rxIndex = 0
  descriptors : s.rxq.descriptors = s.rx.base
  len : s.rx.len = n.num
  rdh : s.rx.rdh = 0
  rdt : s.rx.rdt = 0
  wbs : s.rx.wbs = []
  busy : s.app.busy = true
  held : s.app.held = []
  delivered : s.app.delivered = []

/-- Between two calls. Slots are counted from `rx_index` round the ring. -/
structure RxBetween (n : RingSize) (s : Dev) : Prop where
  /-- `RDT` is one behind `rx_index`. -/
  tail : s.rx.rdt = (s.rxq.rxIndex + n.num - 1) % n.num
  /-- The slots from `rx_index` up to `RDH` are those with `DD` set. -/
  done : ∀ j < n.num, (s.rx.slot ((s.rxq.rxIndex + j) % n.num)).dd =
    decide (j < ringDist n.num s.rxq.rxIndex s.rx.rdh)
  /-- They hold the write-backs that have not been consumed. -/
  pending : s.rx.wbs.length = s.app.delivered.length + ringDist n.num s.rxq.rxIndex s.rx.rdh ∧
    ∀ j < ringDist n.num s.rxq.rxIndex s.rx.rdh,
      (s.rx.wbs.map (·.length))[s.app.delivered.length + j]? =
        some (s.rx.slot ((s.rxq.rxIndex + j) % n.num)).length
  /-- The slots from `RDH` up to `RDT` are clear and hold what the driver has posted since their last
  write-back. -/
  posted : ∀ j, ringDist n.num s.rxq.rxIndex s.rx.rdh ≤ j → j < ringDist n.num s.rxq.rxIndex s.rx.rdt →
    (s.rx.slot ((s.rxq.rxIndex + j) % n.num)).dd = false ∧
    s.rx.fresh (descAddr s.rx.base ((s.rxq.rxIndex + j) % n.num)) = true ∧
    (s.rx.slot ((s.rxq.rxIndex + j) % n.num)).lo =
      s.rx.lastPosted (descAddr s.rx.base ((s.rxq.rxIndex + j) % n.num))

/-- The protocol. -/
structure RxProtocolOk (n : RingSize) (s : Dev) : Prop where
  /-- The NIC writes back descriptor after descriptor. -/
  slots : s.rx.wbs.map (·.slot) = (List.range s.rx.wbs.length).map (· % n.num)
  /-- It only writes descriptors that have been reset since the write-back before. -/
  reset : ∀ e ∈ s.rx.wbs, e.wasReset = true
  /-- The `k`-th result has the length of the `k`-th write-back as its size, … -/
  sizes : s.app.delivered.map (·.2) <+: s.rx.wbs.map (·.length)
  /-- … and is the buffer recorded for the slot of that write-back. -/
  buffers : s.app.delivered.map (·.1) =
    (s.rx.wbs.take s.app.delivered.length).map fun e => s.rxq.virtualAddresses e.slot
  between : s.app.busy = false → RxBetween n s

/-- The results so far have the sizes `lens`, and went round the recorded buffers. -/
structure RxDelivered (n : RingSize) (c : Dev) (lens : List Nat) : Prop where
  sizes : c.app.delivered.map (·.2) = lens
  buffers : c.app.delivered.map (·.1) =
    (List.range lens.length).map fun k => c.rxq.virtualAddresses (k % n.num)

section
variable {n : RingSize} {c : Dev} {lens : List Nat} {r : RxRing} {t : TxRing}

theorem RxDelivered.length (h : RxDelivered n c lens) : c.app.delivered.length = lens.length := by
  rw [← h.sizes, List.length_map]

theorem RxProtocolOk.of_within {lens' : List Nat} {U : Nat} {w : World} (hr : RxWithin n c.rxq.descriptors lens' U r)
    (hpre : lens <+: lens') (hd : RxDelivered n c lens)
    (hbetween : c.app.busy = false → RxBetween n (c.put w r t)) : RxProtocolOk n (c.put w r t) := by
  obtain ⟨D, lens'', T, R, P, hpre', hT, W, hW, h⟩ := hr
  have hlen := h.wbs_length
  have hknown : lens <+: r.wbs.map (·.length) := (hpre.trans hpre').trans h.known
  have hle : lens.length ≤ W := by
    have := hknown.length_le
    rwa [List.length_map, hlen] at this
  refine ⟨?_, h.reset, ?_, ?_, hbetween⟩
  · change r.wbs.map (·.slot) = (List.range r.wbs.length).map (· % n.num)
    rw [h.slots, hlen]
  · rw [show (c.put w r t).app = c.app from rfl, hd.sizes]
    exact hknown
  · change c.app.delivered.map (·.1) =
      (r.wbs.take c.app.delivered.length).map fun e => c.rxq.virtualAddresses e.slot
    have hmap : (r.wbs.take lens.length).map (fun e => c.rxq.virtualAddresses e.slot) =
        ((r.wbs.map (·.slot)).take lens.length).map c.rxq.virtualAddresses := by
      rw [← List.map_take, List.map_map]
      rfl
    rw [hd.buffers, hd.length, hmap, h.slots, ← List.map_take, List.take_range, Nat.min_eq_left hle,
      List.map_map]
    rfl

theorem RxIdle.between {D : Nat} {w : World} (hr : RxIdle n c.rxq.descriptors D lens r)
    (hindex : c.rxq.rxIndex = D % n.num) (hlens : lens.length = D) (hd : RxDelivered n c lens) :
    RxBetween n (c.put w r t) := by
  obtain ⟨W, hW, h⟩ := hr
  have hn := n.pos
  obtain ⟨hDW, hWT, -, -, -⟩ := h.order
  have hslot : ∀ j, (c.put w r t).rx.slot (((c.put w r t).rxq.rxIndex + j) % n.num) =
      r.desc (n.addr c.rxq.descriptors (D + j)) := by
    intro j
    change r.desc (descAddr r.base ((c.rxq.rxIndex + j) % n.num)) = _
    rw [h.base_eq, hindex, Nat.mod_add_mod, RingSize.addr]
  have haddr : ∀ j, descAddr (c.put w r t).rx.base (((c.put w r t).rxq.rxIndex + j) % n.num) =
      n.addr c.rxq.descriptors (D + j) := by
    intro j
    change descAddr r.base ((c.rxq.rxIndex + j) % n.num) = _
    rw [h.base_eq, hindex, Nat.mod_add_mod, RingSize.addr]
  have hhead : ringDist n.num (c.put w r t).rxq.rxIndex (c.put w r t).rx.rdh = W - D := by
    change ringDist n.num c.rxq.rxIndex r.rdh = _
    rw [hindex, h.rdh]
    exact ringDist_mod hDW (by omega)
  have htail : ringDist n.num (c.put w r t).rxq.rxIndex (c.put w r t).rx.rdt = n.num - 1 := by
    change ringDist n.num c.rxq.rxIndex r.rdt = _
    rw [hindex, h.rdt, ringDist_mod (by omega) (by omega)]
    omega
  have hcount : (c.put w r t).app.delivered.length = D := by
    rw [← hlens]
    exact hd.length
  refine ⟨?_, fun j hj => ?_, ⟨?_, fun j hj => ?_⟩, fun j hj hj' => ?_⟩
  · change r.rdt = (c.rxq.rxIndex + n.num - 1) % n.num
    rw [h.rdt, hindex, Nat.add_sub_assoc hn, Nat.add_sub_assoc hn, Nat.mod_add_mod]
  · rw [hslot, hhead]
    by_cases hjW : j < W - D
    · rw [(h.done (D + j) (by omega) (by omega)).1, decide_eq_true hjW]
    · rw [h.clear (D + j) (by omega) (by omega), decide_eq_false hjW]
  · rw [hhead, hcount]
    change r.wbs.length = _
    rw [h.wbs_length]
    omega
  · rw [hhead] at hj
    rw [hslot, hcount]
    exact (h.done (D + j) (by omega) (by omega)).2.2
  · rw [hhead] at hj
    rw [htail] at hj'
    rw [hslot, haddr]
    exact ⟨h.clear (D + j) (by omega) (by omega), h.posted (D + j) (by omega) (by omega)⟩

end

/-! ## The run -/

/-- The only reason to abort is a lack of buffers. -/
def rxAborts (msg : String) (_ : Dev) : Prop :=
  msg = rxAllocFailed ∨ msg = "failed to allocate rx descriptor"

/-- Any transmit ring: receiving does not depend on it. -/
def anyTx (_ : TxRing) : Prop := True

theorem anyTx_stable : TxStable anyTx := fun _ _ _ _ _ => trivial

/-- Nor on the world. -/
def anyWorld (_ : World) : Prop := True

/-- The size of the buffer recorded at `rx_index` is `l`. -/
def RxSizeIs (c : Dev) (l : Nat) (w : World) : Prop :=
  PktBuf.get w.mem (c.rxq.virtualAddresses c.rxq.rxIndex) .size = l

section
variable {n : RingSize} {c : Dev} {lens : List Nat}

/-- A queue whose results have the sizes `lens`. -/
structure RxQueueAt (n : RingSize) (c : Dev) (lens : List Nat) : Prop where
  num : c.rxq.numEntries = n.num
  index : c.rxq.rxIndex = lens.length % n.num
  delivered : RxDelivered n c lens

/-- The state between two requests. -/
def RxLoop (n : RingSize) (s : Dev) : Prop :=
  ∃ c lens, RxQueueAt n c lens ∧ c.app.busy = false ∧
    At c anyWorld (RxIdle n c.rxq.descriptors lens.length lens) anyTx s

theorem RxQueueAt.idle_held (hq : RxQueueAt n c lens) : Held noFrames (RxProtocolOk n) c anyWorld
    (RxIdle n c.rxq.descriptors lens.length lens) anyTx :=
  .quiet RxAt.stable anyTx_stable fun _ _ _ _ hr _ => .of_within (RxIdle.within hr) (List.prefix_refl lens)
    hq.delivered fun _ => RxIdle.between hr hq.index rfl hq.delivered

theorem rxLoop_stable (n : RingSize) :
    Stable (driverContract noFrames (RxProtocolOk n) rxAborts) (RxLoop n) := by
  refine .cover ?_
  rintro s ⟨c, lens, hq, hbusy, hat⟩
  exact ⟨_, At.stable hq.idle_held, hat, fun _ hat => ⟨c, lens, hq, hbusy, hat⟩⟩

theorem RxQueueAt.busy_ok (hq : RxQueueAt n c lens) (c' : Dev) (hbusy : c.app.busy = true) (happ : c'.app = c.app)
    (hdesc : c'.rxq.descriptors = c.rxq.descriptors) (hvirt : c'.rxq.virtualAddresses = c.rxq.virtualAddresses)
    {lens' : List Nat} {U : Nat} {w : World} {r : RxRing} {t : TxRing} (hr : RxWithin n c.rxq.descriptors lens' U r)
    (hpre : lens <+: lens') : RxProtocolOk n (c'.put w r t) := by
  refine .of_within (by rw [hdesc]; exact hr) hpre ⟨?_, ?_⟩ fun h => ?_
  · rw [happ]
    exact hq.delivered.sizes
  · rw [happ, hvirt]
    exact hq.delivered.buffers
  · rw [happ, hbusy] at h
    cases h

theorem RxQueueAt.caller (hq : RxQueueAt n c lens) (hbusy : c.app.busy = true) :
    RxCaller noFrames (RxProtocolOk n) rxAborts n c lens anyWorld (RxSizeIs c) (RxSizeIs c) anyTx where
  num := hq.num
  index := hq.index
  start := .quiet RxWithin.stable anyTx_stable fun _ _ _ _ hr _ =>
    hq.busy_ok c hbusy rfl rfl rfl hr (List.prefix_refl lens)
  size l w hl _ := (PktBuf.get_set_self ..).trans (Nat.mod_eq_of_lt (lt_trans hl (by decide)))
  sized l _ := .quiet RxWithin.stable anyTx_stable fun _ _ _ _ hr _ =>
    hq.busy_ok c hbusy rfl rfl rfl hr (List.prefix_append lens [l])
  failed _ _ _ _ _ _ _ _ _ := Or.inl rfl
  alloc l w _ hw _ := by
    rw [RxSizeIs, pktBufAlloc_mem]
    exact hw
  refilled l _ := .quiet RxWithin.stable anyTx_stable fun _ _ _ _ hr _ =>
    hq.busy_ok c hbusy rfl rfl rfl hr (List.prefix_append lens [l])
  taken l _ := .quiet RxWithin.stable anyTx_stable fun _ _ _ _ hr _ =>
    hq.busy_ok (rxAdvanced c) hbusy rfl rfl rfl hr (List.prefix_append lens [l])

theorem RxQueueAt.next (hq : RxQueueAt n c lens) {d : Dev} {l : Nat} (hrxq : d.rxq = (rxAdvanced c).rxq)
    (hdel : d.app.delivered = c.app.delivered ++ [(c.rxq.virtualAddresses c.rxq.rxIndex, l)]) :
    RxQueueAt n d (lens ++ [l]) := by
  have hmod := n.mod_lt (lens.length + 1)
  refine ⟨?_, ?_, ⟨?_, ?_⟩⟩
  · rw [hrxq]
    exact hq.num
  · rw [hrxq]
    change incAndWrapRing c.rxq.rxIndex c.rxq.numEntries % 2 ^ 16 = _
    rw [hq.index, hq.num, n.incAndWrapRing_mod, Nat.mod_eq_of_lt hmod, List.length_append, List.length_singleton]
  · rw [hdel, List.map_append, hq.delivered.sizes]
    rfl
  · rw [hdel, hrxq, List.map_append, hq.delivered.buffers, List.length_append, List.length_singleton,
      List.range_succ, List.map_append, List.map_singleton, List.map_singleton, hq.index]
    rfl

theorem RxQueueAt.of_eq {d : Dev} (hq : RxQueueAt n c lens) (hrxq : d.rxq = c.rxq)
    (hdel : d.app.delivered = c.app.delivered) : RxQueueAt n d lens :=
  ⟨by rw [hrxq]; exact hq.num, by rw [hrxq]; exact hq.index,
    ⟨by rw [hdel]; exact hq.delivered.sizes, by rw [hdel, hrxq]; exact hq.delivered.buffers⟩⟩

/-- The request taken from the script. -/
def rxCalled (c : Dev) : Dev :=
  { c with app := { c.app with rxScript := c.app.rxScript.tail, busy := true } }

theorem exec_nextRx {s s' : Dev} {call : RxCall} (h : exec .nextRx s = some (call, s')) :
    s' = rxCalled s ∧ ∀ b, call = .free b → b ∈ s.app.held := by
  simp only [exec] at h
  split at h
  · rename_i cs hscript
    cases h
    exact ⟨by rw [rxCalled, hscript, List.tail_cons], by simp⟩
  · rename_i b cs hscript
    split at h
    · rename_i hb
      cases h
      refine ⟨by rw [rxCalled, hscript, List.tail_cons], ?_⟩
      rintro _ ⟨⟩
      exact hb
    · cases h
  · cases h

/-- The application goes on after every request. -/
def RxServed (n : RingSize) : Unit ⊕ Unit → Dev → Prop
  | .inl _ => RxLoop n
  | .inr _ => fun _ => False

theorem rxServe_safe {s : Dev} (hs : RxLoop n s) :
    Safe exec (driverContract noFrames (RxProtocolOk n) rxAborts) (rxServe ()) (RxServed n) s := by
  have hdone : ∀ s, RxLoop n s → Safe exec (driverContract noFrames (RxProtocolOk n) rxAborts)
      (Prog.ret (.inl ())) (RxServed n) s := by
    intro s hs
    refine Safe.ret (rxLoop_stable n) ?_ hs
    exact fun _ h => h
  refine Safe.op (rxLoop_stable n) ?_ hs
  rintro _ call s' ⟨c, lens, hq, -, w, r, t, rfl, -, hr, ht⟩ he
  refine ⟨trivial, ?_⟩
  obtain ⟨rfl, -⟩ := exec_nextRx he
  have hq : RxQueueAt n (rxCalled c) lens := hq.of_eq rfl rfl
  have hbusy : ∀ c' : Dev, c'.rxq = c.rxq → c'.app.delivered = c.app.delivered → c'.app.busy = true →
      Held noFrames (RxProtocolOk n) c' anyWorld (RxIdle n c.rxq.descriptors lens.length lens) anyTx :=
    fun c' hrxq hdel hbusy => .quiet RxAt.stable anyTx_stable fun _ r _ _ hr _ =>
      (hq.of_eq (d := c') hrxq hdel).busy_ok c' hbusy rfl rfl rfl (by rw [hrxq]; exact RxIdle.within hr)
        (List.prefix_refl lens)
  rw [Prog.ret_bind]
  cases call with
  | rx =>
    change Safe exec _ (ixgbeRxPacket.bind _) _ ((rxCalled c).put w r t)
    refine Safe.bind ((ixgbeRxPacket_safe (hq.caller rfl) ⟨w, r, t, rfl, trivial, hr, ht⟩).mono fun res s hres => ?_)
    cases res with
    | none =>
      refine At.step (hbusy (rxCalled c) rfl rfl rfl)
        (fun w r t hw hr ht => ⟨_, _, rfl, ?_⟩) hres
      exact hdone _ ⟨(rxCalled c).rxReturn none, lens, hq.of_eq rfl (List.append_nil _), rfl,
        w, r, t, rfl, trivial, hr, ht⟩
    | some b =>
      obtain ⟨l, hl, rfl, hat⟩ := hres
      refine At.step (((hq.caller rfl).taken l hl).inHand (by omega)) (fun w r t hw hr ht => ⟨_, _, rfl, ?_⟩) hat
      have hlen : (lens ++ [l]).length = lens.length + 1 := List.length_append
      refine hdone _ ⟨((rxAdvanced (rxCalled c)).put w r t).rxReturn (some _), lens ++ [l], hq.next rfl ?_, rfl,
        w, r, t, rfl, trivial, by rw [hlen]; exact hr, ht⟩
      exact congrArg (fun x => c.app.delivered ++ [(_, x)]) hw
  | free b =>
    refine At.step (hbusy (rxCalled c) rfl rfl rfl)
      (fun w r t hw hr ht => ⟨_, _, rfl, ?_⟩) ⟨w, r, t, rfl, trivial, hr, ht⟩
    refine At.step (hbusy ((rxCalled c).free b) rfl rfl rfl)
      (fun w r t hw hr ht => ⟨_, _, rfl, ?_⟩) ⟨_, r, t, rfl, trivial, hr, ht⟩
    exact hdone _ ⟨((rxCalled c).free b).idle, lens, hq.of_eq rfl rfl, rfl, w, r, t, rfl, trivial, hr, ht⟩

theorem rxMain_safe {s : Dev} (h : RxInit n s) :
    Safe exec (driverContract noFrames (RxProtocolOk n) rxAborts) rxMain (fun _ _ => False) s := by
  have hinit : At s (· = s.w) (RxAt n s.rxq.descriptors 0 [] 0 0 0 0) anyTx s :=
    ⟨s.w, s.rx, s.tx, rfl, rfl, .init h.descriptors.symm h.len h.rdh h.rdt h.wbs, trivial⟩
  have hdel : ∀ c : Dev, c.app.delivered = [] → RxDelivered n c [] :=
    fun c hc => ⟨by rw [hc]; rfl, by rw [hc]; rfl⟩
  have hok : ∀ c : Dev, c.rxq.descriptors = s.rxq.descriptors → c.app.delivered = [] →
      c.app.busy = true → ∀ w r t, RxWithin n s.rxq.descriptors [] 0 r → RxProtocolOk n (c.put w r t) :=
    fun c hdesc hc hbusy w r t hr => .of_within (by rw [hdesc]; exact hr) (List.prefix_refl []) (hdel c hc)
      fun hb => absurd hb (by rw [hbusy]; simp)
  have hposted : ∀ w ptr rest j, Held noFrames (RxProtocolOk n) (rxFilled (rxPoolSet s w ptr rest) j) anyWorld
      (RxPosted n (rxFilled (rxPoolSet s w ptr rest) j) (n.num - 1) n.num n.num) anyTx := by
    intro w ptr rest j
    obtain ⟨-, hdesc, -, -, -, -, happ, -⟩ := rxFilled_frame (rxPoolSet s w ptr rest) j
    refine .quiet RxPosted.stable anyTx_stable fun w' r t _ hr _ => hok _ hdesc ?_ ?_ w' r t ?_
    · rw [happ]
      exact h.delivered
    · rw [happ]
      exact h.busy
    · exact hr.within (Nat.sub_lt n.pos Nat.one_pos)
  have hstarter : RxStarter noFrames (RxProtocolOk n) rxAborts n s (fun _ => anyWorld) anyTx := by
    refine ⟨fun _ _ hm => hm.elim, anyTx_stable, fun r t hr _ => hok s rfl h.delivered h.busy _ r t hr,
      fun w ptr rest _ r t hr _ => hok (s.pooled w rest) rfl h.delivered h.busy _ r t hr,
      fun w ptr rest _ => ⟨h.num, fun _ _ hm => hm.elim, anyTx_stable, fun j r t _ hr _ => ?_,
        fun _ _ _ _ _ _ _ => Or.inr rfl, fun j r t _ _ hr _ => ?_⟩,
      fun w ptr rest _ _ => ⟨trivial, hposted w ptr rest n.num⟩⟩
    all_goals obtain ⟨-, hdesc, -, -, -, -, happ, -⟩ := rxFilled_frame (rxPoolSet s w ptr rest) j
    · exact hok _ hdesc (by rw [happ]; exact h.delivered) (by rw [happ]; exact h.busy) _ r t hr
    · exact hok (rxAllocated _) hdesc (by rw [rxAllocated, happ]; exact h.delivered)
        (by rw [rxAllocated, happ]; exact h.busy) _ r t hr
  refine Safe.bind ((startRxQueue_safe hstarter hinit).mono fun _ s₁ hstarted => ?_)
  obtain ⟨w, ptr, rest, -, -, hat⟩ := hstarted
  have hheld := hposted w ptr rest n.num
  obtain ⟨-, hdesc, -, hnum, hindex, -, happ, -⟩ := rxFilled_frame (rxPoolSet s w ptr rest) n.num
  generalize rxFilled (rxPoolSet s w ptr rest) n.num = c at *
  refine At.step hheld (fun w r t hw hr ht => ⟨_, _, rfl, ?_⟩) hat
  have hdel' : c.app.delivered = [] := by rw [happ]; exact h.delivered
  refine Safe.loop (J := fun _ => RxLoop n) (fun _ => rxLoop_stable n) (fun _ _ _ => trivial) ?_
    ⟨c.idle, [], ⟨?_, ?_, hdel _ hdel'⟩, rfl, w, r, t, rfl, trivial, ?_, ht⟩
  · rintro _ s hs
    refine (rxServe_safe hs).mono fun res s hres => ?_
    cases res with
    | inl u => exact hres
    | inr u => exact hres.elim
  · exact hnum.trans h.num
  · exact (hindex.trans h.index).trans (Nat.zero_mod _).symm
  · rw [RxIdle, List.length_nil, Nat.zero_add]
    exact hr.1

/-- **The receive protocol.** In every state of every interleaving of a receiving application with the
NIC: between calls `RDT` is one behind `rx_index`, the slots from `rx_index` up to `RDH` are the
received packets that have not been consumed, and those from there up to `RDT` are clear and posted;
the NIC only writes descriptors that were reset; and the `k`-th result is the `k`-th write-back. The
driver aborts for lack of buffers only. -/
theorem rx_protocol (n : RingSize) {s : Dev} (h : RxInit n s) (ts : List (Tick NicAct))
    {c : Conf Dev Op Ret Unit} (hrun : Conf.run exec nicStep ts ⟨s, rxMain⟩ = some c) :
    RxProtocolOk n c.state ∧ ∀ msg, c.prog = .abort msg →
      msg = rxAllocFailed ∨ msg = "failed to allocate rx descriptor" := by
  have hsafe := Safe.run (fun _ _ _ => nicRely_of_nicStep) (rxMain_safe h) hrun
  refine ⟨hsafe.inv, fun msg hmsg => ?_⟩
  rw [hmsg] at hsafe
  exact hsafe.aborts

/-- A ring of two descriptors, on which one packet is received and delivered. -/
theorem rx_protocol_onePacket : ∃ c, Conf.run exec nicStep
      (List.replicate 33 .prog ++ .env (.receive ⟨0, 60 * 2 ^ 32 + 3⟩) :: List.replicate 17 .prog)
      ⟨bootDev 2 [(64, ⟨0x200000, 0x40000000⟩)] [.rx, .rx], rxMain⟩ = some c ∧
    c.state.app.delivered.length = 1 ∧ RxProtocolOk ⟨2, 1, rfl, by decide⟩ c.state := by
  obtain ⟨c, hrun, hlen⟩ := Option.map_eq_some_iff.mp (show (Conf.run exec nicStep
      (List.replicate 33 .prog ++ .env (.receive ⟨0, 60 * 2 ^ 32 + 3⟩) :: List.replicate 17 .prog)
      ⟨bootDev 2 [(64, ⟨0x200000, 0x40000000⟩)] [.rx, .rx], rxMain⟩).map
        (·.state.app.delivered.length) = some 1 by decide +kernel)
  exact ⟨c, hrun, hlen, (rx_protocol ⟨2, 1, rfl, by decide⟩
    ⟨rfl, rfl, rfl, rfl, rfl, rfl, rfl, rfl, rfl, rfl⟩ _ hrun).1⟩

end

end Ixy
