import Ixy.Driver.TxRing

/-!
# Transmitting: `start_tx_queue` and `ixgbe_tx_packet`

`ixgbe_tx_packet` first frees what the NIC has reported, oldest first, and then posts the packet if a
slot is left. Its specification (`ixgbeTxPacket_safe`) is relative to what its caller knows about the
world: `HI fl w` is to hold of the packets `fl` in flight and the world `w`, with the packet to be sent
in hand, and freeing the oldest packet has to keep it. The driver reads the header of the packet in hand
more than once, so `HI` also has to say what it is.
-/

namespace Ixy

open Lib

/-- `start_tx_queue`. -/
def startTxQueue : Code Unit := do
  let n ← txLd .numEntries
  if n &&& (n - 1) ≠ 0 then .abort "number of queue entries must be a power of 2"
  else do
    -- tx queue starts out empty
    setReg32 .tdh 0
    setReg32 .tdt 0
    setFlags32 .txdctl queueEnable
    waitSetReg32 .txdctl queueEnable

/-- One pass of the loop of step 1: clean up the descriptor at `cleanIndex` if it was sent out. -/
def txClean (curIndex cleanIndex : Nat) : Code (Nat ⊕ Nat) :=
  if cleanIndex ≠ curIndex then do
    let descriptors ← txLd .descriptors
    let status ← Prog.access (Op.txDescStatus (descAddr descriptors cleanIndex))
    if status &&& advtxdStatDD ≠ 0 then do
      let buf ← txLd (.virtualAddresses cleanIndex)
      Prog.access (Op.reclaim buf)
      let n ← txLd .numEntries
      return .inl (incAndWrapRing cleanIndex n)
    else
      -- reached an unsent descriptor, can't continue cleaning
      return .inr cleanIndex
  else return .inr cleanIndex

/-- The end of step 2: describe the packet in the descriptor at `txd` and hand it to the NIC. -/
def txDescribe (txd buf : Nat) : Code Nat := do
  let phy ← bufLd buf .bufAddrPhy
  txDescSt txd .bufferAddr ((phy + PktBuf.dataOffset) % 2 ^ 64)
  let size ← bufLd buf .size
  txDescSt txd .cmdTypeLen (advtxdFlags ||| size)
  let size ← bufLd buf .size
  txDescSt txd .olinfoStatus (size * 2 ^ advtxdPaylenShift % 2 ^ 32)
  let txIndex ← txLd .txIndex
  setReg32 .tdt txIndex
  return 1

/-- Step 2 with a slot left: send out our packet. -/
def txPost (curIndex buf : Nat) : Code Nat := do
  txSt (.virtualAddresses curIndex) buf
  let txIndex ← txLd .txIndex
  let n ← txLd .numEntries
  txSt .txIndex (incAndWrapRing txIndex n)
  let descriptors ← txLd .descriptors
  txDescribe (descAddr descriptors curIndex) buf

/-- `ixgbe_tx_packet`. -/
def ixgbeTxPacket (buf : Nat) : Code Nat := do
  let cleanIndex ← txLd .cleanIndex
  let curIndex ← txLd .txIndex
  let cleanIndex ← Prog.iterate (txClean curIndex) cleanIndex
  txSt .cleanIndex cleanIndex
  -- we are full if the next index is the one we are trying to reclaim
  let n ← txLd .numEntries
  if cleanIndex = incAndWrapRing curIndex n then return 0
  else txPost curIndex buf

/-! ## The descriptor -/

/-- The descriptor written for the packet `e`. -/
def txDescFor (e : TxEntry) : TxDesc :=
  { bufferAddr := (e.phy + PktBuf.dataOffset) % 2 ^ 64
    cmdTypeLen := advtxdFlags ||| e.size
    olinfoStatus := e.size * 2 ^ advtxdPaylenShift % 2 ^ 32 }

theorem txDescFor_dd (e : TxEntry) : (txDescFor e).dd = false := by
  simp only [TxDesc.dd, txDescFor, advtxdStatDD, advtxdPaylenShift, Nat.and_one_is_mod,
    bne_eq_false_iff_eq]
  omega

theorem txDescFor_sends {e : TxEntry} (h : e.size < 2 ^ 16) :
    (txDescFor e).Sends e ∧ (txDescFor e).dd = false := by
  refine ⟨⟨rfl, ?_, ?_⟩, txDescFor_dd e⟩
  · rw [TxDesc.dtalen, txDescFor, Nat.or_mod_two_pow, Nat.mod_eq_of_lt h,
      show advtxdFlags % 2 ^ 16 = 0 by decide, Nat.zero_or]
  · simp only [TxDesc.paylen, txDescFor, advtxdPaylenShift]
    omega

/-! ## `ixgbe_tx_packet` under interference -/

/-- The state with another transmit queue. -/
def txState (c : Dev) (q : TxQueue) : Dev := { c with txq := q }

/-- Anything. -/
def anyDesc (_ : TxDesc) : Prop := True

theorem TxAt.stable {n : RingSize} {base : Nat} {acc : List TxEntry} {C K : Nat} {virt : Nat → Nat}
    {P : TxDesc → Prop} : TxStable (TxAt n base acc C K virt P) := fun _ _ _ h ht => h.nic ht

/-- The ring at any point of a call at which the first `C` packets have been freed. -/
def TxSome (n : RingSize) (base : Nat) (acc : List TxEntry) (C : Nat) (virt : Nat → Nat) (t : TxRing) : Prop :=
  ∃ K P, TxAt n base acc C K virt P t

theorem TxSome.stable {n : RingSize} {base : Nat} {acc : List TxEntry} {C : Nat} {virt : Nat → Nat} :
    TxStable (TxSome n base acc C virt) := by
  rintro dma t t' ⟨K, P, h⟩ ht
  exact ⟨K, P, h.nic ht⟩

/-- The queue as `init_tx` leaves it. What the descriptors hold does not matter. -/
structure TxStart (n : RingSize) (s : Dev) : Prop where
  num : s.txq.numEntries = n.num
  clean : s.txq.cleanIndex = 0
  index : s.txq.txIndex = 0
  descriptors : s.txq.descriptors = s.tx.base
  len : s.tx.len = n.num
  tdh : s.tx.tdh = 0
  tdt : s.tx.tdt = 0
  accepted : s.tx.accepted = []
  fetched : s.tx.fetched = []
  completed : s.tx.completed = []
  reclaimed : s.tx.reclaimed = []

theorem TxStart.ring {n : RingSize} {s : Dev} (h : TxStart n s) :
    TxAt n s.txq.descriptors [] 0 0 s.txq.virtualAddresses anyDesc s.tx :=
  .init h.descriptors.symm h.len h.tdh h.tdt h.accepted h.fetched h.completed h.reclaimed

/-- What a caller of `ixgbe_tx_packet` provides; `e` is what the header of its packet says. -/
structure TxCaller (M : Dev → Mem → Prop) (inv : Dev → Prop) (n : RingSize) (c : Dev) (buf : Nat) (e : TxEntry)
    (acc : List TxEntry) (C : Nat) (Rx : RxRing → Prop) (HI : List TxEntry → World → Prop) : Prop where
  num : c.txq.numEntries = n.num
  clean : c.txq.cleanIndex = C % n.num
  index : c.txq.txIndex = acc.length % n.num
  entry : ∀ fl w, HI fl w → Dev.entry w.mem buf = e
  size : e.size < 2 ^ 16
  free : ∀ e' fl w, HI (e' :: fl) w →
    PktBuf.get w.mem e'.buf .mempool = e'.pool ∧ HI fl (pktBufFree w e'.buf)
  before : ∀ q C', Held M inv (txState c q) (HI (acc.drop C')) Rx
    (TxSome n c.txq.descriptors acc C' q.virtualAddresses)
  after : ∀ q C', C' ≤ acc.length → Held M inv (txState c q) (HI (acc.drop C')) Rx
    (TxAt n c.txq.descriptors (acc ++ [e]) C' C' q.virtualAddresses anyDesc)

/-- What `ixgbe_tx_packet` answers: 0 if the ring is full, and 1 if it has handed the packet over. The
packets below `K`, reported before the call, have been freed. -/
def TxAnswer (n : RingSize) (c : Dev) (e : TxEntry) (acc : List TxEntry) (K : Nat) (Rx : RxRing → Prop)
    (HI : List TxEntry → World → Prop) (res : Nat) (s : Dev) : Prop :=
  ∃ q C, K ≤ C ∧ C ≤ acc.length ∧ q.numEntries = n.num ∧ q.descriptors = c.txq.descriptors ∧
    q.cleanIndex = C % n.num ∧
    ((res = 0 ∧ acc.length + 1 = C + n.num ∧ q.txIndex = acc.length % n.num ∧
        At (txState c q) (HI (acc.drop C)) Rx
          (TxAt n c.txq.descriptors acc C C q.virtualAddresses anyDesc) s) ∨
      (res = 1 ∧ q.txIndex = (acc.length + 1) % n.num ∧
        At (txState c q) (HI (acc.drop C)) Rx
          (TxAt n c.txq.descriptors (acc ++ [e]) C C q.virtualAddresses anyDesc) s))

section
variable {M : Dev → Mem → Prop} {inv : Dev → Prop} {aborts : String → Dev → Prop} {n : RingSize} {c : Dev}
variable {buf : Nat} {e : TxEntry} {acc : List TxEntry} {C K : Nat} {Rx : RxRing → Prop}
variable {HI : List TxEntry → World → Prop}

theorem TxCaller.held (h : TxCaller M inv n c buf e acc C Rx HI) (q : TxQueue) {C' L : Nat} {P : TxDesc → Prop} :
    Held M inv (txState c q) (HI (acc.drop C')) Rx (TxAt n c.txq.descriptors acc C' L q.virtualAddresses P) :=
  (h.before q C').mono (h.before q C').rx TxAt.stable (fun _ hr => hr) fun _ ht => ⟨L, P, ht⟩

/-- Step 1 between two passes, with the packets below the local `clean_index` freed and those below
`K` known to be reported. -/
def TxCleanAt (n : RingSize) (c : Dev) (acc : List TxEntry) (K : Nat) (Rx : RxRing → Prop)
    (HI : List TxEntry → World → Prop) (x : Nat) (s : Dev) : Prop :=
  ∃ C L, x = C % n.num ∧ K ≤ L ∧ At (txState c c.txq) (HI (acc.drop C)) Rx
    (TxAt n c.txq.descriptors acc C L c.txq.virtualAddresses anyDesc) s

/-- Step 1 at its end: all of these have been freed. -/
def TxCleanEnd (n : RingSize) (c : Dev) (acc : List TxEntry) (K : Nat) (Rx : RxRing → Prop)
    (HI : List TxEntry → World → Prop) (x : Nat) (s : Dev) : Prop :=
  ∃ C, x = C % n.num ∧ K ≤ C ∧ At (txState c c.txq) (HI (acc.drop C)) Rx
    (TxAt n c.txq.descriptors acc C C c.txq.virtualAddresses anyDesc) s

theorem TxCleanAt.stable (h : TxCaller M inv n c buf e acc C Rx HI) (x : Nat) :
    Stable (driverContract M inv aborts) (TxCleanAt n c acc K Rx HI x) := by
  refine .cover ?_
  rintro s ⟨C, L, hx, hL, hat⟩
  exact ⟨_, At.stable (h.held c.txq), hat, fun _ hat => ⟨C, L, hx, hL, hat⟩⟩

/-- After one pass: go on, or stop. -/
def TxCleaned (n : RingSize) (c : Dev) (acc : List TxEntry) (K : Nat) (Rx : RxRing → Prop)
    (HI : List TxEntry → World → Prop) : Nat ⊕ Nat → Dev → Prop
  | .inl x => TxCleanAt n c acc K Rx HI x
  | .inr x => TxCleanEnd n c acc K Rx HI x

/-- One pass frees the oldest packet if it was sent, and stops otherwise. -/
theorem txClean_safe (h : TxCaller M inv n c buf e acc C Rx HI) {x : Nat} {s : Dev}
    (hs : TxCleanAt n c acc K Rx HI x s) :
    Safe exec (driverContract M inv aborts) (txClean c.txq.txIndex x) (TxCleaned n c acc K Rx HI) s := by
  obtain ⟨C, L, rfl, hL, w, r, t, rfl, hw, hr, ht⟩ := hs
  have hheld : ∀ {C' L P}, Held M inv (txState c c.txq) (HI (acc.drop C')) Rx
      (TxAt n c.txq.descriptors acc C' L c.txq.virtualAddresses P) := h.held c.txq
  have hstop : ∀ w r t, HI (acc.drop C) w → Rx r →
      TxAt n c.txq.descriptors acc C L c.txq.virtualAddresses anyDesc t → L ≤ C →
      Safe exec (driverContract M inv aborts) (Prog.ret (.inr (C % n.num))) (TxCleaned n c acc K Rx HI)
        ((txState c c.txq).put w r t) := by
    intro w r t hw hr ht hLC
    refine At.ret hheld (fun w r t hw hr ht => ?_) ⟨w, r, t, rfl, hw, hr, ht.weaken (Nat.le_refl C) ht.known_le.1⟩
    exact ⟨C, rfl, Nat.le_trans hL hLC, w, r, t, rfl, hw, hr, ht⟩
  unfold txClean
  by_cases hne : C % n.num ≠ c.txq.txIndex
  · rw [if_pos hne]
    rw [h.index] at hne
    have hlt : C < acc.length := ht.clean_ne_iff.mp hne
    refine At.step hheld (fun w r t hw hr ht => ⟨_, _, rfl, ?_⟩) ⟨w, r, t, rfl, hw, hr, ht⟩
    refine At.step hheld (fun w r t hw hr ht => ⟨_, _, rfl, ?_⟩) ⟨w, r, t, rfl, hw, hr, ht⟩
    change Safe exec _ (if (t.desc (n.addr c.txq.descriptors C)).olinfoStatus &&& advtxdStatDD ≠ 0
      then _ else _) _ ((txState c c.txq).put w r t)
    by_cases hdd : (t.desc (n.addr c.txq.descriptors C)).dd = true
    · rw [if_pos (by simpa [TxDesc.dd] using hdd)]
      -- the oldest packet has been reported, and stays so
      obtain ⟨N, hLN, hCN, hsent⟩ := ht.observe ((ht.dd_iff hlt).mp hdd)
      refine At.step hheld (fun w r t hw hr ht => ⟨_, _, rfl, ?_⟩) ⟨w, r, t, rfl, hw, hr, hsent⟩
      refine At.step hheld (fun w r t hw hr ht => ⟨_, _, rfl, ?_⟩) ⟨w, r, t, rfl, hw, hr, ht⟩
      have hget : acc[C]? = some acc[C] := List.getElem?_eq_getElem hlt
      have hbuf : c.txq.virtualAddresses (C % n.num) = acc[C].buf := ht.recorded (Nat.le_refl C) hget
      rw [List.drop_eq_getElem_cons hlt] at hw
      obtain ⟨hpool, hw'⟩ := h.free _ _ w hw
      have hstate : ((txState c c.txq).put w r t).reclaim (c.txq.virtualAddresses (C % n.num)) =
          (txState c c.txq).put (pktBufFree w acc[C].buf) r
            { t with reclaimed := t.reclaimed ++ [acc[C].freed] } := by
        rw [hbuf, TxEntry.freed, ← hpool]
        rfl
      change Safe exec _ _ _
        (((txState c c.txq).put w r t).reclaim (c.txq.virtualAddresses (C % n.num)))
      rw [hstate]
      refine At.step hheld (fun w r t hw hr ht => ⟨_, _, rfl, ?_⟩) ⟨_, r, _, rfl, hw', hr, ht.reclaim hCN hget⟩
      refine At.ret hheld (fun w r t hw hr ht => ?_) ⟨w, r, t, rfl, hw, hr, ht⟩
      refine ⟨C + 1, N, ?_, Nat.le_trans hL hLN, w, r, t, rfl, hw, hr, ht⟩
      change incAndWrapRing _ c.txq.numEntries = _
      rw [h.num, n.incAndWrapRing_mod]
    · rw [if_neg (by simpa [TxDesc.dd] using hdd)]
      refine hstop w r t hw hr ht ?_
      by_contra hgt
      exact hdd ((ht.dd_iff hlt).mpr (ht.known (by omega)))
  · rw [if_neg hne]
    refine hstop w r t hw hr ht ?_
    rw [h.index, ht.clean_ne_iff] at hne
    have hle := ht.known_le
    omega

theorem handedOver_one {s : Dev} {A : Nat} (hlen : s.tx.len = n.num) (htdt : s.tx.tdt = A % n.num)
    (hn : 1 < n.num) : s.handedOver ((A + 1) % n.num) =
      [Dev.entry s.w.mem (s.txq.virtualAddresses (A % n.num))] := by
  rw [Dev.handedOver, hlen, htdt, ringDist_mod (by omega) (by omega), Nat.add_sub_cancel_left]
  simp

/-- The queue after `virtual_addresses` and `tx_index` have been written. -/
def txRecorded (q : TxQueue) (buf : Nat) : TxQueue :=
  (q.set (.virtualAddresses q.txIndex) buf).set .txIndex (incAndWrapRing q.txIndex q.numEntries)

/-- The queue `q` when step 1 is over: the first `C` packets have been freed, and there is a slot left. -/
structure TxRoom (n : RingSize) (c : Dev) (acc : List TxEntry) (K C : Nat) (q : TxQueue) : Prop where
  known : K ≤ C
  num : q.numEntries = n.num
  descriptors : q.descriptors = c.txq.descriptors
  clean : q.cleanIndex = C % n.num
  room : acc.length + 1 < C + n.num

theorem txDescribe_safe (h : TxCaller M inv n c buf e acc C Rx HI) {C' : Nat} {q : TxQueue}
    (hq : TxRoom n c acc K C' q) (hindex : q.txIndex = (acc.length + 1) % n.num)
    (hvirt : q.virtualAddresses (acc.length % n.num) = buf) {s : Dev}
    (hs : At (txState c q) (HI (acc.drop C')) Rx
      (TxAt n c.txq.descriptors acc C' C' q.virtualAddresses anyDesc) s) :
    Safe exec (driverContract M inv aborts) (txDescribe (n.addr c.txq.descriptors acc.length) buf)
      (TxAnswer n c e acc K Rx HI) s := by
  have hheld : ∀ {P}, Held M inv (txState c q) (HI (acc.drop C')) Rx
      (TxAt n c.txq.descriptors acc C' C' q.virtualAddresses P) := h.held q
  have hle : C' ≤ acc.length := by
    obtain ⟨_, _, _, -, -, -, ht⟩ := hs
    exact ht.order.1
  have hphy : ∀ w r t, HI (acc.drop C') w →
      exec (.bufLd buf .bufAddrPhy) ((txState c q).put w r t) = some (e.phy, (txState c q).put w r t) := by
    intro w r t hw
    rw [← h.entry _ w hw]
    rfl
  have hsize : ∀ w r t, HI (acc.drop C') w →
      exec (.bufLd buf .size) ((txState c q).put w r t) = some (e.size, (txState c q).put w r t) := by
    intro w r t hw
    rw [← h.entry _ w hw]
    rfl
  unfold txDescribe
  refine At.step hheld (fun w r t hw hr ht => ⟨_, _, hphy w r t hw, ?_⟩) hs
  refine At.step hheld (fun w r t hw hr ht => ⟨_, _, rfl, ?_⟩) ⟨w, r, t, rfl, hw, hr, ht⟩
  have haddr := ht.write (Q := fun d => d.bufferAddr = (txDescFor e).bufferAddr)
    (f := fun d => { d with bufferAddr := (txDescFor e).bufferAddr }) fun _ _ => rfl
  refine At.step hheld (fun w r t hw hr ht => ⟨_, _, hsize w r t hw, ?_⟩) ⟨w, r, _, rfl, hw, hr, haddr⟩
  refine At.step hheld (fun w r t hw hr ht => ⟨_, _, rfl, ?_⟩) ⟨w, r, t, rfl, hw, hr, ht⟩
  have hcmd := ht.write (f := fun d => { d with cmdTypeLen := (txDescFor e).cmdTypeLen })
    (Q := fun d => d.bufferAddr = (txDescFor e).bufferAddr ∧ d.cmdTypeLen = (txDescFor e).cmdTypeLen)
    fun _ hd => ⟨hd, rfl⟩
  refine At.step hheld (fun w r t hw hr ht => ⟨_, _, hsize w r t hw, ?_⟩) ⟨w, r, _, rfl, hw, hr, hcmd⟩
  refine At.step hheld (fun w r t hw hr ht => ⟨_, _, rfl, ?_⟩) ⟨w, r, t, rfl, hw, hr, ht⟩
  have hstatus := ht.write (f := fun d => { d with olinfoStatus := (txDescFor e).olinfoStatus })
    (Q := (· = txDescFor e)) fun d hd => by rw [hd.1, hd.2]
  refine At.step hheld (fun w r t hw hr ht => ⟨_, _, rfl, ?_⟩) ⟨w, r, _, rfl, hw, hr, hstatus⟩
  refine At.step hheld (fun w r t hw hr ht => ⟨_, _, rfl, ?_⟩) ⟨w, r, t, rfl, hw, hr, ht⟩
  have hone : ((txState c q).put w r t).setReg .tdt q.txIndex = (txState c q).put w r
      { t with tdt := q.txIndex, accepted := t.accepted ++ [e] } := by
    have hlist := handedOver_one (n := n) (s := (txState c q).put w r t) ht.len ht.tdt
      (by have := ht.order; have := hq.room; omega)
    change _ = [Dev.entry w.mem (q.virtualAddresses (acc.length % n.num))] at hlist
    rw [hvirt, h.entry _ w hw] at hlist
    rw [Dev.setReg, hindex, hlist]
    rfl
  change Safe exec _ _ _ (((txState c q).put w r t).setReg .tdt q.txIndex)
  rw [hone]
  have hbuf : buf = e.buf := congrArg TxEntry.buf (h.entry _ w hw)
  have hover := ht.handOver (e := e) hq.room (hvirt.trans hbuf)
    (fun d hd => by rw [hd]; exact txDescFor_sends h.size) hindex
  refine At.ret (h.after q C' hle) (fun w r t hw hr ht => ?_) ⟨w, r, _, rfl, hw, hr, hover⟩
  exact ⟨q, C', hq.known, hle, hq.num, hq.descriptors, hq.clean, Or.inr ⟨rfl, hindex, w, r, t, rfl, hw, hr, ht⟩⟩

theorem txPost_safe (h : TxCaller M inv n c buf e acc C Rx HI) {C' : Nat} {q : TxQueue}
    (hq : TxRoom n c acc K C' q) (hindex : q.txIndex = acc.length % n.num) {s : Dev}
    (hs : At (txState c q) (HI (acc.drop C')) Rx
      (TxAt n c.txq.descriptors acc C' C' q.virtualAddresses anyDesc) s) :
    Safe exec (driverContract M inv aborts) (txPost q.txIndex buf) (TxAnswer n c e acc K Rx HI) s := by
  unfold txPost
  refine At.step (h.held q) (fun w r t hw hr ht => ⟨_, _, rfl, ?_⟩) hs
  have hrec := ht.record buf
  rw [← hindex] at hrec
  change Safe exec _ _ _ ((txState c (q.set (.virtualAddresses q.txIndex) buf)).put w r t)
  refine At.step (h.held _) (fun w r t hw hr ht => ⟨_, _, rfl, ?_⟩) ⟨w, r, t, rfl, hw, hr, hrec⟩
  refine At.step (h.held _) (fun w r t hw hr ht => ⟨_, _, rfl, ?_⟩) ⟨w, r, t, rfl, hw, hr, ht⟩
  refine At.step (h.held _) (fun w r t hw hr ht => ⟨_, _, rfl, ?_⟩) ⟨w, r, t, rfl, hw, hr, ht⟩
  change Safe exec _ _ _ ((txState c (txRecorded q buf)).put w r t)
  refine At.step (h.held _) (fun w r t hw hr ht => ⟨_, _, rfl, ?_⟩) ⟨w, r, t, rfl, hw, hr, ht⟩
  change Safe exec _ (txDescribe (descAddr q.descriptors q.txIndex) buf) _ _
  rw [hq.descriptors, hindex]
  refine txDescribe_safe h (q := txRecorded q buf) ⟨hq.known, hq.num, hq.descriptors, hq.clean, hq.room⟩ ?_ ?_
    ⟨w, r, t, rfl, hw, hr, ht⟩
  · change incAndWrapRing q.txIndex q.numEntries % 2 ^ 16 = _
    rw [hindex, hq.num, n.incAndWrapRing_mod, Nat.mod_eq_of_lt (n.mod_lt _)]
  · change Function.update q.virtualAddresses q.txIndex buf _ = _
    rw [hindex, Function.update_self]

/-- **`ixgbe_tx_packet` follows the protocol**, whatever the NIC does between its accesses. -/
theorem ixgbeTxPacket_safe (h : TxCaller M inv n c buf e acc C Rx HI) {s : Dev}
    (hs : At c (HI (acc.drop C)) Rx (TxAt n c.txq.descriptors acc C K c.txq.virtualAddresses anyDesc) s) :
    Safe exec (driverContract M inv aborts) (ixgbeTxPacket buf) (TxAnswer n c e acc K Rx HI) s := by
  unfold ixgbeTxPacket
  refine At.step (h.held c.txq) (fun w r t hw hr ht => ⟨_, _, rfl, ?_⟩) hs
  refine At.step (h.held c.txq) (fun w r t hw hr ht => ⟨_, _, rfl, ?_⟩) ⟨w, r, t, rfl, hw, hr, ht⟩
  refine Safe.loop (J := TxCleanAt n c acc K Rx HI) (TxCleanAt.stable h) (fun _ _ _ => trivial) ?_
    ⟨C, K, h.clean, Nat.le_refl K, w, r, t, rfl, hw, hr, ht⟩
  intro x s hs
  refine (txClean_safe h hs).mono fun res s hres => ?_
  cases res with
  | inl y => exact hres
  | inr y =>
    obtain ⟨C', rfl, hK, hat⟩ := hres
    have hclean : (c.txq.set .cleanIndex (C' % n.num)).cleanIndex = C' % n.num :=
      Nat.mod_eq_of_lt (n.mod_lt _)
    refine At.step (h.held c.txq) (fun w r t hw hr ht => ⟨_, _, rfl, ?_⟩) hat
    change Safe exec _ _ _ ((txState c (c.txq.set .cleanIndex (C' % n.num))).put w r t)
    refine At.step (h.held _) (fun w r t hw hr ht => ⟨_, _, rfl, ?_⟩) ⟨w, r, t, rfl, hw, hr, ht⟩
    change Safe exec _ (if C' % n.num = incAndWrapRing c.txq.txIndex c.txq.numEntries then Prog.ret 0
      else txPost c.txq.txIndex buf) _ _
    rw [h.num]
    by_cases hfull : C' % n.num = incAndWrapRing c.txq.txIndex n.num
    · rw [if_pos hfull]
      rw [h.index, n.incAndWrapRing_mod, ht.full_iff] at hfull
      refine At.ret (h.held _) (fun w r t hw hr ht => ?_) ⟨w, r, t, rfl, hw, hr, ht⟩
      exact ⟨c.txq.set .cleanIndex (C' % n.num), C', hK, ht.order.1, h.num, rfl, hclean,
        Or.inl ⟨rfl, hfull, h.index, w, r, t, rfl, hw, hr, ht⟩⟩
    · rw [if_neg hfull]
      rw [h.index, n.incAndWrapRing_mod, ht.full_iff] at hfull
      have hlap := ht.order.2
      exact txPost_safe h (q := c.txq.set .cleanIndex (C' % n.num)) ⟨hK, h.num, rfl, hclean, by omega⟩ h.index
        ⟨w, r, t, rfl, hw, hr, ht⟩

theorem TxAnswer.stable (h : TxCaller M inv n c buf e acc C Rx HI) (res : Nat) :
    Stable (driverContract M inv aborts) (TxAnswer n c e acc K Rx HI res) := by
  refine .cover ?_
  rintro s ⟨q, C', hK, hle, hnum, hdesc, hclean, ⟨hres, hfull, hindex, hat⟩ | ⟨hres, hindex, hat⟩⟩
  · exact ⟨_, At.stable (h.held q), hat, fun _ hat =>
      ⟨q, C', hK, hle, hnum, hdesc, hclean, Or.inl ⟨hres, hfull, hindex, hat⟩⟩⟩
  · exact ⟨_, At.stable (h.after q C' hle), hat, fun _ hat =>
      ⟨q, C', hK, hle, hnum, hdesc, hclean, Or.inr ⟨hres, hindex, hat⟩⟩⟩

/-- **`start_tx_queue` leaves an empty ring**, whatever the NIC does meanwhile. -/
theorem startTxQueue_safe {W : World → Prop} (hnum : c.txq.numEntries = n.num)
    (hheld : Held M inv c W Rx (TxAt n c.txq.descriptors [] 0 0 c.txq.virtualAddresses anyDesc)) {s : Dev}
    (hs : At c W Rx (TxAt n c.txq.descriptors [] 0 0 c.txq.virtualAddresses anyDesc) s) :
    Safe exec (driverContract M inv aborts) startTxQueue
      (fun _ => At c W Rx (TxAt n c.txq.descriptors [] 0 0 c.txq.virtualAddresses anyDesc)) s := by
  unfold startTxQueue
  refine At.step hheld (fun w r t hw hr ht => ⟨_, _, rfl, ?_⟩) hs
  have hget : (c.put w r t).txq.get .numEntries = n.num := hnum
  rw [Prog.ret_bind, hget, if_neg (by rw [n.check]; simp)]
  refine At.step hheld (fun w r t hw hr ht => ⟨_, _, rfl, ?_⟩) ⟨w, r, t, rfl, hw, hr, ht⟩
  refine At.step hheld (fun w r t hw hr ht => ⟨_, _, rfl, ?_⟩) ⟨w, r, _, rfl, hw, hr, ht.setHead⟩
  have htdt : (c.put w r t).setReg .tdt 0 = c.put w r { t with tdt := 0 } := by
    have htdt := ht.tdt
    rw [List.length_nil, Nat.zero_mod] at htdt
    simp [Dev.setReg, Dev.handedOver, Dev.put, htdt, ringDist]
  change Safe exec _ _ _ ((c.put w r t).setReg .tdt 0)
  rw [htdt]
  refine At.step hheld (fun w r t hw hr ht => ⟨_, _, rfl, ?_⟩) ⟨w, r, _, rfl, hw, hr, ht.setTail⟩
  refine At.step hheld (fun w r t hw hr ht => ⟨_, _, rfl, ?_⟩) ⟨w, r, t, rfl, hw, hr, ht⟩
  refine Safe.loop (J := fun _ => At c W Rx (TxAt n c.txq.descriptors [] 0 0 c.txq.virtualAddresses anyDesc))
    (fun _ => At.stable hheld) (fun _ _ _ => trivial) ?_
    ⟨w, r, _, rfl, hw, hr, TxAt.stable (fun _ _ => []) t _ ht (.txdctl _)⟩
  rintro _ s hs
  refine At.step hheld (fun w r t hw hr ht => ⟨_, _, rfl, ?_⟩) hs
  rw [Prog.ret_bind]
  split
  · exact At.ret hheld (fun w r t hw hr ht => ⟨w, r, t, rfl, hw, hr, ht⟩) ⟨w, r, t, rfl, hw, hr, ht⟩
  · refine At.ret hheld (fun w r t hw hr ht => ?_) ⟨w, r, t, rfl, hw, hr, ht⟩
    exact At.ret hheld (fun w r t hw hr ht => ⟨w, r, t, rfl, hw, hr, ht⟩) ⟨w, r, t, rfl, hw, hr, ht⟩

end

/-! ## Undisturbed calls -/

section
variable {s : Dev}

/-- The state after the packet has been posted at `curIndex`. -/
def txPosted (s : Dev) (curIndex buf : Nat) : Dev :=
  let q := txRecorded s.txq buf
  let a := descAddr s.txq.descriptors curIndex
  let d := txDescFor (Dev.entry s.w.mem buf)
  let t := s.tx.store a .bufferAddr d.bufferAddr
  let t := t.store a .cmdTypeLen d.cmdTypeLen
  let t := t.store a .olinfoStatus d.olinfoStatus
  ({ s with txq := q, tx := t } : Dev).setReg .tdt q.txIndex

theorem evals_txPost (buf : Nat) :
    Prog.Evals exec (txPost s.txq.txIndex buf) s (.done 1 (txPosted s s.txq.txIndex buf)) := ⟨14, rfl⟩

theorem txPosted_desc (s : Dev) (cur buf : Nat) : (txPosted s cur buf).tx.desc =
    Function.update s.tx.desc (descAddr s.txq.descriptors cur) (txDescFor (Dev.entry s.w.mem buf)) := by
  simp [txPosted, TxRing.store, Dev.setReg]

theorem txPosted_accepted_length (s : Dev) (cur buf : Nat) : (txPosted s cur buf).tx.accepted.length =
    s.tx.accepted.length + ringDist s.tx.len s.tx.tdt (txRecorded s.txq buf).txIndex := by
  simp [txPosted, TxRing.store, Dev.setReg, Dev.handedOver]

theorem evals_ixgbeTxPacket (buf : Nat) {x : Nat}
    (hclean : Prog.Evals exec (txClean s.txq.txIndex s.txq.cleanIndex) s (.done (.inr x) s))
    (hroom : x ≠ incAndWrapRing s.txq.txIndex s.txq.numEntries) :
    Prog.Evals exec (ixgbeTxPacket buf) s
      (.done 1 (txPosted { s with txq := s.txq.set .cleanIndex x } s.txq.txIndex buf)) := by
  unfold ixgbeTxPacket
  refine .op rfl (.op rfl (.loop_exit hclean (.op rfl (.op rfl ?_))))
  change Prog.Evals exec (ite (x = incAndWrapRing s.txq.txIndex s.txq.numEntries) _ _) _ _
  rw [if_neg hroom]
  exact evals_txPost (s := { s with txq := s.txq.set .cleanIndex x }) buf

/-- The transmit queue, which starts out empty, enabled. -/
def txEnabled (s : Dev) : Dev :=
  let s := (s.setReg .tdh 0).setReg .tdt 0
  s.setReg .txdctl (s.tx.txdctl ||| queueEnable)

theorem txEnabled_eq (h : s.tx.tdt = 0) : txEnabled s =
    { s with tx := { s.tx with tdh := 0, tdt := 0, txdctl := s.tx.txdctl ||| queueEnable } } := by
  simp [txEnabled, Dev.setReg, Dev.handedOver, ringDist, h]

theorem evals_startTxQueue (h : s.txq.numEntries = 1024) :
    Prog.Evals exec startTxQueue s (.done () (txEnabled s)) := by
  unfold startTxQueue
  refine .op rfl ?_
  change Prog.Evals exec (ite (s.txq.numEntries &&& (s.txq.numEntries - 1) ≠ 0) _ _) _ _
  rw [h, if_neg (by decide)]
  refine .op rfl (.op rfl (.op rfl (.op rfl ?_)))
  refine evals_waitSetReg32 rfl ?_
  exact or_and_self_right _ _

end

end Ixy
