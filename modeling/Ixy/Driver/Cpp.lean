import Ixy.Driver.Startup

/-!
# The C++ driver (`ixgbe.cpp`)

A port of `ixgbe.c`. Its functions make the same accesses, with three exceptions. `init_link` has the arguments of a
`set_reg32` in the wrong order, `init_tx` sets other thresholds, and `rx_packet` does not copy the descriptor. The last
one makes no difference unless the card can see the driver read its own memory (`Cpp.calls_evals`). `drivers_agree_iff`:
as every run of `init_link` does something else, the drivers agree only on a card that never gets through its reset.
-/

namespace Ixy

open Lib

/-! ## The functions -/

namespace Cpp

/-- `ixgbe::init_link`. The first write is to the offset that was meant as its value. -/
def initLink : DriverCode Unit := do
  let v ← Driver.getReg32 0
  Driver.setReg32 (maskOut v Ixgbe.autocLmsMask ||| Ixgbe.autocLms10gSerial) 0
  let v ← Driver.getReg32 Ixgbe.autoc
  Driver.setReg32 Ixgbe.autoc (maskOut v Ixgbe.autoc10gPmaPmdMask ||| Ixgbe.autoc10gXaui)
  -- negotiate link
  Driver.setFlags32 Ixgbe.autoc Ixgbe.autocAnRestart

/-- The thresholds of a transmit queue. -/
def txThresholds (txdctl : Nat) : Nat := maskOut txdctl 0x3F ||| 32

/-- `ixgbe::init_tx`. -/
def initTx (rxQueues : Nat) : DriverCode Unit := Driver.initTxWith txThresholds rxQueues

/-- `ixgbe::reset_and_init`. -/
def resetAndInit (order : Driver.ReadOrder) (rxQueues txQueues : Nat) : DriverCode Unit :=
  Driver.resetAndInitWith initLink txThresholds order rxQueues txQueues

/-- `ixgbe::get_link_speed`. -/
def getLinkSpeed : DriverCode Nat := do
  let links ← Driver.getReg32 Ixgbe.links
  if links &&& Ixgbe.linksUp = 0 then return 0
  else if links &&& Ixgbe.linksSpeed82599 = Ixgbe.linksSpeed10082599 then return 100
  else if links &&& Ixgbe.linksSpeed82599 = Ixgbe.linksSpeed1g82599 then return 1000
  else if links &&& Ixgbe.linksSpeed82599 = Ixgbe.linksSpeed10g82599 then return 10000
  else return 0

/-- `ixgbe::set_promisc`. -/
def setPromisc (enabled : Bool) : DriverCode Unit :=
  if enabled then Driver.setFlags32 Ixgbe.fctrl (Ixgbe.fctrlMpe ||| Ixgbe.fctrlUpe)
  else Driver.clearFlags32 Ixgbe.fctrl (Ixgbe.fctrlMpe ||| Ixgbe.fctrlUpe)

/-- `ixgbe::rx_packet`. -/
def rxPacket : Code (Option Nat) := do
  let rxIndex ← rxLd .rxIndex
  let descriptors ← rxLd .descriptors
  let descPtr := descAddr descriptors rxIndex
  let status ← Prog.access (Op.rxDescStatus descPtr)
  if status &&& rxdadvStatDD ≠ 0 then
    if status &&& rxdadvStatEOP = 0 then
      .abort "multi-segment packets are not supported - increase buffer size or decrease MTU"
    else do
      let buf ← rxLd (.virtualAddresses rxIndex)
      -- the length is read from the descriptor itself, which is not copied
      let hi ← rxDescLd descPtr .hdrAddr
      bufSt buf .size (RxDesc.length ⟨0, hi⟩)
      let mempool ← rxLd .mempool
      let r ← alloc mempool
      match r with
      | none =>
        .abort "failed to allocate new mbuf for rx, you are either leaking memory or your mempool is too small"
      | some newBuf => do
        -- reset the descriptor
        let phy ← bufLd newBuf .bufAddrPhy
        rxDescSt descPtr .pktAddr ((phy + PktBuf.dataOffset) % 2 ^ 64)
        rxDescSt descPtr .hdrAddr 0
        let n ← rxLd .numEntries
        rxSt .rxIndex (incAndWrapRing rxIndex n)
        setReg32 .rdt rxIndex
        return some buf
  else return none

/-- One pass of the loop of `ixgbe::tx_packet`. -/
def txClean (curIndex cleanIndex : Nat) : Code (Nat ⊕ Nat) :=
  if cleanIndex ≠ curIndex then do
    let descriptors ← txLd .descriptors
    let status ← Prog.access (Op.txDescStatus (descAddr descriptors cleanIndex))
    if status &&& advtxdStatDD ≠ 0 then do
      let buf ← txLd (.virtualAddresses cleanIndex)
      Prog.access (Op.reclaim buf)
      let n ← txLd .numEntries
      return .inl (incAndWrapRing cleanIndex n)
    else return .inr cleanIndex
  else return .inr cleanIndex

/-- `ixgbe::tx_packet`. -/
def txPacket (buf : Nat) : Code Nat := do
  let cleanIndex ← txLd .cleanIndex
  let curIndex ← txLd .txIndex
  let cleanIndex ← Prog.iterate (txClean curIndex) cleanIndex
  txSt .cleanIndex cleanIndex
  let n ← txLd .numEntries
  if cleanIndex = incAndWrapRing curIndex n then return 0
  else do
    txSt (.virtualAddresses curIndex) buf
    let txIndex ← txLd .txIndex
    let n ← txLd .numEntries
    txSt .txIndex (incAndWrapRing txIndex n)
    let descriptors ← txLd .descriptors
    let txd := descAddr descriptors curIndex
    let phy ← bufLd buf .bufAddrPhy
    txDescSt txd .bufferAddr ((phy + PktBuf.dataOffset) % 2 ^ 64)
    let size ← bufLd buf .size
    txDescSt txd .cmdTypeLen (advtxdFlags ||| size)
    let size ← bufLd buf .size
    txDescSt txd .olinfoStatus (size * 2 ^ advtxdPaylenShift % 2 ^ 32)
    -- send out by advancing tail
    let txIndex ← txLd .txIndex
    setReg32 .tdt txIndex
    return 1

/-- `ixgbe::do_read_stats`. -/
def doReadStats (order : Driver.ReadOrder) (stats : Option Nat) : DriverCode Unit := do
  let rxPkts ← Driver.getReg32 Ixgbe.gprc
  let txPkts ← Driver.getReg32 Ixgbe.gptc
  let rxBytes ← Driver.getReg64 order.rxLowFirst Ixgbe.gorcl Ixgbe.gorch
  let txBytes ← Driver.getReg64 order.txLowFirst Ixgbe.gotcl Ixgbe.gotch
  match stats with
  | none =>
    Prog.access (DriverOp.discard fun
      | .rxPkts => rxPkts
      | .txPkts => txPkts
      | .rxBytes => rxBytes
      | .txBytes => txBytes)
  | some stats => do
    Prog.access (DriverOp.addStats stats .rxPkts rxPkts)
    Prog.access (DriverOp.addStats stats .txPkts txPkts)
    Prog.access (DriverOp.addStats stats .rxBytes rxBytes)
    Prog.access (DriverOp.addStats stats .txBytes txBytes)

end Cpp

def Cpp.call (order : Driver.ReadOrder) : DriverCall → DriverCode CallResult
  | .rxPacket i => do return .received (← Driver.onQueue i rxPacket)
  | .txPacket i buf => do return .sent (← Driver.onQueue i (txPacket buf))
  | .setPromisc enabled => do
    setPromisc enabled
    return .unit
  | .getLinkSpeed => do return .speed (← getLinkSpeed)
  | .readStats stats => do
    doReadStats order stats
    return .unit

def Cpp.calls (order : Driver.ReadOrder) (cs : List DriverCall) : DriverCode (List CallResult) :=
  callsWith (Cpp.call order) cs

/-! ## The copy of the descriptor -/

/-- A read from a descriptor that the card has handed over. -/
def Access.copies : Access → Bool
  | .readRxDesc _ _ => true
  | _ => false

/-- A history without these reads. -/
def visible (l : List Access) : List Access := l.filter fun a => !a.copies

theorem visible_concat (l : List Access) (a : Access) : visible (l ++ [a]) = visible l ++ visible [a] :=
  List.filter_append ..

/-- A card to which these reads make no difference. What the driver does with its own memory it cannot see. -/
structure Card.Blind (card : Card) : Prop where
  reg : ∀ l, card.reg (visible l) = card.reg l
  rxDesc : ∀ l, card.rxDesc (visible l) = card.rxDesc l
  txDesc : ∀ l, card.txDesc (visible l) = card.txDesc l

/-- Two states that differ in nothing but these reads. -/
structure DriverState.SameButCopies (s s' : DriverState) : Prop where
  rest : s' = { s with log := s'.log }
  log : visible s.log = visible s'.log

section
variable {card : Card} {s s' : DriverState}

namespace DriverState.SameButCopies

theorem rfl' : s.SameButCopies s := ⟨rfl, rfl⟩

theorem symm (h : s.SameButCopies s') : s'.SameButCopies s := by
  refine ⟨?_, h.log.symm⟩
  rw [h.rest]

theorem rxq (h : s.SameButCopies s') : s'.rxq = s.rxq := by rw [h.rest]

theorem record (h : s.SameButCopies s') (a : Access) : (s.record a).SameButCopies (s'.record a) := by
  refine ⟨?_, ?_⟩
  · rw [h.rest]
    rfl
  · simp only [DriverState.record, visible_concat, h.log]

theorem copy (h : s.SameButCopies s') {a : Access} (ha : a.copies = true) : s.SameButCopies (s'.record a) := by
  refine ⟨?_, ?_⟩
  · rw [h.rest]
    rfl
  · have hnone : visible [a] = [] := by simp [visible, ha]
    rw [DriverState.record, visible_concat, hnone, List.append_nil, h.log]

end DriverState.SameButCopies

namespace Card.Blind

theorem reg_eq (hcard : card.Blind) (h : s.SameButCopies s') (reg : Nat) :
    card.reg s'.log reg = card.reg s.log reg := by
  rw [← hcard.reg s.log, h.log, hcard.reg]

theorem rxDesc_eq (hcard : card.Blind) (h : s.SameButCopies s') (a : Nat) :
    card.rxDesc s'.log a = card.rxDesc s.log a := by
  rw [← hcard.rxDesc s.log, h.log, hcard.rxDesc]

theorem txDesc_eq (hcard : card.Blind) (h : s.SameButCopies s') (a : Nat) :
    card.txDesc s'.log a = card.txDesc s.log a := by
  rw [← hcard.txDesc s.log, h.log, hcard.txDesc]

theorem execOnQueue (hcard : card.Blind) (i : Nat) :
    Prog.Indistinct (execOnQueue card i) DriverState.SameButCopies := by
  intro o s s' r u hs he
  -- the answers are the same, and one more access does not change what differs
  have hreg := hcard.reg_eq hs
  have hrx := hcard.rxDesc_eq hs
  have htx := hcard.txDesc_eq hs
  have hrecord := hs.record
  obtain ⟨hrest, hlog⟩ := hs
  generalize s'.log = l at *
  subst hrest
  cases o with
  | poolNew numEntries entrySize =>
    rw [Ixy.execOnQueue] at he
    split at he
    · cases he
    · rename_i ptr dma rest hsup
      cases he
      exact ⟨{ s with w := _, poolSupply := rest, log := l }, by rw [Ixy.execOnQueue, hsup], rfl, hlog⟩
  | rxDescLd a w =>
    cases w <;>
    · cases he
      exact ⟨_, by rw [Ixy.execOnQueue, hrx], hrecord _⟩
  | rxDescStatus a =>
    cases he
    exact ⟨_, by rw [Ixy.execOnQueue, hrx], hrecord _⟩
  | txDescStatus a =>
    cases he
    exact ⟨_, by rw [Ixy.execOnQueue, htx], hrecord _⟩
  | getReg r =>
    cases he
    exact ⟨_, by rw [Ixy.execOnQueue, hreg], hrecord _⟩
  | rxDescSt a w v | txDescSt a w v | setReg r v =>
    cases he
    exact ⟨_, rfl, hrecord _⟩
  | rxLd | rxSt | txLd | txSt | bufLd | bufSt | alloc | free | reclaim =>
    cases he
    exact ⟨_, rfl, rfl, hlog⟩
  | dataSt | nextRx | nextTx | write | idle | txCall | rxReturn | txReturn => cases he

theorem execDriver (hcard : card.Blind) : Prog.Indistinct (execDriver card) DriverState.SameButCopies := by
  intro o s s' r u hs he
  have hreg := hcard.reg_eq hs
  have hqueue := fun i o r u => hcard.execOnQueue i o s s' r u hs
  have hrecord := hs.record
  obtain ⟨hrest, hlog⟩ := hs
  generalize s'.log = l at *
  subst hrest
  cases o with
  | getReg32 reg =>
    cases he
    exact ⟨_, by rw [Ixy.execDriver, hreg], hrecord _⟩
  | on i o => exact hqueue i o r u he
  | allocateDma size =>
    obtain ⟨rest, hsup, rfl⟩ := exec_allocateDma he
    exact ⟨{ s with ringSupply := rest, log := l }, by rw [Ixy.execDriver, hsup], rfl, hlog⟩
  | setReg32 | memset =>
    cases he
    exact ⟨_, rfl, hrecord _⟩
  | calloc | addStats | clearStats | discard =>
    cases he
    exact ⟨_, rfl, rfl, hlog⟩

end Card.Blind

/-! ## The operations of the two drivers -/

theorem Cpp.getLinkSpeed_eq : Cpp.getLinkSpeed = Driver.ixgbeGetLinkSpeed := rfl

theorem Cpp.setPromisc_eq (enabled : Bool) : Cpp.setPromisc enabled = Driver.ixgbeSetPromisc enabled := rfl

theorem Cpp.txPacket_eq (buf : Nat) : Cpp.txPacket buf = ixgbeTxPacket buf := rfl

theorem Cpp.doReadStats_eq (order : Driver.ReadOrder) (stats : Option Nat) :
    Cpp.doReadStats order stats = Driver.ixgbeReadStats order stats := by
  cases stats with
  | none => rfl
  | some stats => rfl

/-- What the C++ driver does with a descriptor that is done: the length is read from it. -/
def Cpp.rxDone (descPtr rxIndex : Nat) : Code (Option Nat) := do
  let buf ← rxLd (.virtualAddresses rxIndex)
  let hi ← rxDescLd descPtr .hdrAddr
  bufSt buf .size (RxDesc.length ⟨0, hi⟩)
  rxRefill descPtr rxIndex buf

/-- The C driver copies all of it. -/
def Driver.rxDone (descPtr rxIndex : Nat) : Code (Option Nat) := do
  let lo ← rxDescLd descPtr .pktAddr
  let hi ← rxDescLd descPtr .hdrAddr
  let buf ← rxLd (.virtualAddresses rxIndex)
  bufSt buf .size (RxDesc.length ⟨lo, hi⟩)
  rxRefill descPtr rxIndex buf

/-- The rest of both, with the buffer and the length at hand. -/
def rxSizeAndRefill (descPtr rxIndex buf length : Nat) : Code (Option Nat) := do
  bufSt buf .size length
  rxRefill descPtr rxIndex buf

theorem Cpp.evals_rxDone_iff {i descPtr rxIndex : Nat} {out : Prog.Outcome (Option Nat) DriverState} :
    Prog.Evals (execOnQueue card i) (Cpp.rxDone descPtr rxIndex) s out ↔
      Prog.Evals (execOnQueue card i) (rxSizeAndRefill descPtr rxIndex ((s.rxq i).virtualAddresses rxIndex)
        (card.rxDesc s.log descPtr).length) (s.record (.readRxDesc descPtr .hdrAddr)) out := by
  refine (Prog.evals_op_iff rfl).trans ?_
  exact (Prog.evals_op_iff rfl).trans Iff.rfl

theorem Driver.evals_rxDone_iff (hcard : card.Blind) {i descPtr rxIndex : Nat}
    {out : Prog.Outcome (Option Nat) DriverState} :
    Prog.Evals (execOnQueue card i) (Driver.rxDone descPtr rxIndex) s out ↔
      Prog.Evals (execOnQueue card i) (rxSizeAndRefill descPtr rxIndex ((s.rxq i).virtualAddresses rxIndex)
        (card.rxDesc s.log descPtr).length)
        ((s.record (.readRxDesc descPtr .pktAddr)).record (.readRxDesc descPtr .hdrAddr)) out := by
  have hcopy := hcard.rxDesc_eq (DriverState.SameButCopies.rfl'.copy (s := s) (a := .readRxDesc descPtr .pktAddr) rfl)
  rw [← hcopy descPtr]
  refine (Prog.evals_op_iff rfl).trans ?_
  refine (Prog.evals_op_iff rfl).trans ?_
  exact (Prog.evals_op_iff rfl).trans Iff.rfl

theorem rxDone_same (hcard : card.Blind) (i descPtr rxIndex : Nat) :
    Prog.SameRuns (execOnQueue card i) DriverState.SameButCopies (Cpp.rxDone descPtr rxIndex)
      (Driver.rxDone descPtr rxIndex) := by
  have hadded : ∀ {s s' : DriverState}, s.SameButCopies s' → (s.record (.readRxDesc descPtr .hdrAddr)).SameButCopies
      ((s'.record (.readRxDesc descPtr .pktAddr)).record (.readRxDesc descPtr .hdrAddr)) :=
    fun hs => (hs.copy rfl).record _
  constructor
  · intro s s' out hs h
    obtain ⟨out', h', hout⟩ := Prog.Alike.refl (hcard.execOnQueue i) _ _ _ out (hadded hs) (Cpp.evals_rxDone_iff.mp h)
    refine ⟨out', (Driver.evals_rxDone_iff hcard).mpr ?_, hout⟩
    rw [hcard.rxDesc_eq hs, hs.rxq]
    exact h'
  · intro s s' out hs h
    obtain ⟨out', h', hout⟩ := Prog.Alike.refl (hcard.execOnQueue i) _ _ _ out (hadded hs.symm).symm
      ((Driver.evals_rxDone_iff hcard).mp h)
    refine ⟨out', Cpp.evals_rxDone_iff.mpr ?_, hout⟩
    rw [hcard.rxDesc_eq hs, hs.rxq]
    exact h'

theorem Cpp.rxPacket_same (hcard : card.Blind) (i : Nat) :
    Prog.SameRuns (execOnQueue card i) DriverState.SameButCopies Cpp.rxPacket ixgbeRxPacket := by
  have hexec := hcard.execOnQueue i
  refine .op hexec fun rxIndex => ?_
  refine .op hexec fun descriptors => ?_
  refine .op hexec fun status => ?_
  simp only [Prog.ret_bind]
  split
  · split
    · exact .refl hexec _
    · exact rxDone_same hcard i (descAddr descriptors rxIndex) rxIndex
  · exact .refl hexec _

theorem onQueue_same {α : Type} {i : Nat} {p p' : Code α}
    (h : Prog.SameRuns (execOnQueue card i) DriverState.SameButCopies p p') :
    Prog.SameRuns (execDriver card) DriverState.SameButCopies (Driver.onQueue i p) (Driver.onQueue i p') := by
  simpa only [Prog.SameRuns, Prog.Alike, Driver.evals_onQueue] using h

theorem Cpp.call_same (hcard : card.Blind) (order : Driver.ReadOrder) (c : DriverCall) :
    Prog.SameRuns (execDriver card) DriverState.SameButCopies (Cpp.call order c) (Driver.call order c) := by
  have hexec := hcard.execDriver
  cases c with
  | rxPacket i => exact .bind (onQueue_same (Cpp.rxPacket_same hcard i)) fun _ => .refl hexec _
  | txPacket i buf =>
    rw [Cpp.call, Cpp.txPacket_eq]
    exact .refl hexec _
  | setPromisc enabled =>
    rw [Cpp.call, Cpp.setPromisc_eq]
    exact .refl hexec _
  | getLinkSpeed =>
    rw [Cpp.call, Cpp.getLinkSpeed_eq]
    exact .refl hexec _
  | readStats stats =>
    rw [Cpp.call, Cpp.doReadStats_eq]
    exact .refl hexec _

theorem callsWith_same (hcard : card.Blind) {call call' : DriverCall → DriverCode CallResult}
    (hcall : ∀ c, Prog.SameRuns (execDriver card) DriverState.SameButCopies (call c) (call' c)) (cs : List DriverCall) :
    Prog.SameRuns (execDriver card) DriverState.SameButCopies (callsWith call cs) (callsWith call' cs) := by
  induction cs with
  | nil => exact .refl hcard.execDriver _
  | cons c cs ih => exact .bind (hcall c) fun result => .bind ih fun results => .refl hcard.execDriver _

/-- **Main result.** Whatever operations are called for, both drivers end in the same ways, from the same state and on
any card to which the copies make no difference. -/
theorem Cpp.calls_evals (hcard : card.Blind) (order : Driver.ReadOrder) (cs : List DriverCall) (s : DriverState) :
    (∀ out, Prog.Evals (execDriver card) (Cpp.calls order cs) s out →
      ∃ out', Prog.Evals (execDriver card) (Driver.calls order cs) s out' ∧
        out.Like DriverState.SameButCopies out') ∧
    ∀ out, Prog.Evals (execDriver card) (Driver.calls order cs) s out →
      ∃ out', Prog.Evals (execDriver card) (Cpp.calls order cs) s out' ∧ out.Like DriverState.SameButCopies out' := by
  obtain ⟨hcpp, hc⟩ := callsWith_same hcard (Cpp.call_same hcard order) cs
  exact ⟨fun out => hcpp s s out .rfl', fun out => hc s s out .rfl'⟩

end

/-- A card that has always received a packet of 60 bytes. -/
def doneCard : Card := ⟨fun _ _ => 0, fun _ _ => ⟨0, 60 * 2 ^ 32 + 3⟩, fun _ _ => ⟨0, 0, 0⟩⟩

theorem doneCard_blind : doneCard.Blind := ⟨fun _ => rfl, fun _ => rfl, fun _ => rfl⟩

/-- A receive queue with one buffer to spare. -/
def driverReceiving : DriverState :=
  { driverBoot [] [] with
    w := memoryAllocateMempool (driverBoot [] []).w 0x1000 ⟨0x100000, 0x300000⟩ 1 2048
    rxq := fun _ => ⟨0x10000, 0x1000, 1024, 0, fun _ => 0x200000⟩ }

theorem Cpp.calls_evals_received : doneCard.Blind ∧ ∃ u u',
    Prog.Evals (execDriver doneCard) (Cpp.calls ⟨true, true⟩ [.rxPacket 0]) driverReceiving
      (.done [.received (some 0x200000)] u) ∧
    Prog.Evals (execDriver doneCard) (Driver.calls ⟨true, true⟩ [.rxPacket 0]) driverReceiving
      (.done [.received (some 0x200000)] u') ∧ u.SameButCopies u' := by
  obtain ⟨u, hcpp⟩ : ∃ u, Prog.Evals (execDriver doneCard) (Cpp.calls ⟨true, true⟩ [.rxPacket 0]) driverReceiving
      (.done [.received (some 0x200000)] u) := ⟨_, 20, rfl⟩
  obtain ⟨_, hc, hlike⟩ := (Cpp.calls_evals doneCard_blind ⟨true, true⟩ [.rxPacket 0] driverReceiving).1 _ hcpp
  cases hlike with
  | done _ h => exact ⟨doneCard_blind, u, _, hcpp, hc, h⟩

/-- The thresholds differ whatever the register holds: the C driver sets bit 2, which the C++ driver clears. -/
theorem Cpp.txThresholds_ne (txdctl : Nat) : Cpp.txThresholds txdctl ≠ Driver.txThresholds txdctl := by
  have hcpp : (Cpp.txThresholds txdctl).testBit 2 = false := by
    have hmask : Nat.testBit (0xFFFFFFFF ^^^ 0x3F) 2 = false := by decide
    rw [Cpp.txThresholds, maskOut, Nat.testBit_or, Nat.testBit_and, hmask, Bool.and_false]
    decide
  have hc : (Driver.txThresholds txdctl).testBit 2 = true := by
    have hpthresh : Nat.testBit (36 &&& 0x7F) 2 = true := by decide
    rw [Driver.txThresholds, Nat.testBit_or, Nat.testBit_or, Nat.testBit_or, hpthresh, Bool.or_true, Bool.true_or,
      Bool.true_or]
  intro heq
  rw [heq, hc] at hcpp
  cases hcpp

/-! ## Agreement -/

def Access.regWrite : Access → Option (Nat × Nat)
  | .writeReg reg v => some (reg, v)
  | _ => none

/-- The register writes of a history. -/
def regWrites (l : List Access) : List (Nat × Nat) := l.filterMap Access.regWrite

/-- At some point of its run, the program has made these register writes. -/
def Issues (card : Card) (p : DriverCode Unit) (s : DriverState) (writes : List (Nat × Nat)) : Prop :=
  ∃ s', Prog.Reaches (execDriver card) p s s' ∧ regWrites s'.log = writes

/-- What operations leave behind. -/
structure Effects where
  w : World
  writes : List (Nat × Nat)
  rxDesc : Nat → RxDesc
  txDesc : Nat → TxDesc
  rxq : Nat → RxQueue
  txq : Nat → TxQueue
  stats : Nat → StatsField → Nat

def DriverState.effects (card : Card) (s : DriverState) : Effects :=
  ⟨s.w, regWrites s.log, card.rxDesc s.log, card.txDesc s.log, s.rxq, s.txq, s.stats⟩

/-- Two programs end in the same ways. -/
def SameOutcomes {α : Type} (card : Card) (p p' : DriverCode α) (s s' : DriverState) : Prop :=
  (∀ a e, (∃ u, Prog.Evals (execDriver card) p s (.done a u) ∧ u.effects card = e) ↔
    ∃ u, Prog.Evals (execDriver card) p' s' (.done a u) ∧ u.effects card = e) ∧
  ∀ msg e, (∃ u, Prog.Evals (execDriver card) p s (.aborted msg u) ∧ u.effects card = e) ↔
    ∃ u, Prog.Evals (execDriver card) p' s' (.aborted msg u) ∧ u.effects card = e

/-- The drivers agree on a card, a number of queues and what is allocated. The compilers may have chosen different
orders for the reads of `read_stats`. -/
structure DriversAgree (card : Card) (order order' : Driver.ReadOrder) (rxQueues txQueues : Nat) (s : DriverState) :
    Prop where
  init : ∀ writes, Issues card (Driver.resetAndInit order rxQueues txQueues) s writes ↔
    Issues card (Cpp.resetAndInit order' rxQueues txQueues) s writes
  calls : ∀ s₁ s₂, Prog.Evals (execDriver card) (Driver.resetAndInit order rxQueues txQueues) s (.done () s₁) →
    Prog.Evals (execDriver card) (Cpp.resetAndInit order' rxQueues txQueues) s (.done () s₂) →
    ∀ cs, SameOutcomes card (Driver.calls order cs) (Cpp.calls order' cs) s₁ s₂

section
variable {card : Card} {s : DriverState}

/-! ## The first write after the reset -/

theorem execOnQueue_log {i : Nat} {o : Op} {r : Ret o} {s' : DriverState}
    (h : execOnQueue card i o s = some (r, s')) : s.log <+: s'.log := by
  cases o
  case poolNew numEntries entrySize =>
    rw [execOnQueue] at h
    split at h
    · cases h
    · cases h
      exact List.prefix_refl _
  case rxDescLd a w =>
    cases w <;>
    · cases h
      exact List.prefix_append _ _
  all_goals
    cases h <;> first
      | exact List.prefix_refl _
      | exact List.prefix_append _ _

theorem execDriver_log (o : DriverOp) (s : DriverState) (r : DriverRet o) (s' : DriverState)
    (h : execDriver card o s = some (r, s')) : s.log <+: s'.log := by
  cases o
  case on i o => exact execOnQueue_log h
  case allocateDma size =>
    rw [execDriver] at h
    split at h
    · cases h
    · cases h
      exact List.prefix_refl _
  all_goals
    cases h
    first
      | exact List.prefix_refl _
      | exact List.prefix_append _ _

theorem Issues.prefix_total {p : DriverCode Unit} {ws ws' : List (Nat × Nat)} (h : Issues card p s ws)
    (h' : Issues card p s ws') : ws <+: ws' ∨ ws' <+: ws := by
  obtain ⟨s₁, h₁, rfl⟩ := h
  obtain ⟨s₂, h₂, rfl⟩ := h'
  rcases h₁.prefix_total execDriver_log h₂ with hpre | hpre
  · exact Or.inl (hpre.filterMap _)
  · exact Or.inr (hpre.filterMap _)

theorem regWrites_modified (s : DriverState) (reg reg' v : Nat) :
    regWrites ((s.record (.readReg reg)).record (.writeReg reg' v)).log = regWrites s.log ++ [(reg', v)] := by
  simp only [DriverState.record, regWrites, List.append_assoc, List.filterMap_append]
  rfl

theorem Driver.issues_link (order : ReadOrder) (rxQueues txQueues : Nat) {s' : DriverState}
    (h : Prog.Evals (execDriver card) reset s (.done () s')) : ∃ v, v ≠ 0 ∧
      Issues card (resetAndInit order rxQueues txQueues) s (regWrites s'.log ++ [(Ixgbe.autoc, v)]) := by
  refine ⟨maskOut (card.reg s'.log Ixgbe.autoc % 2 ^ 32) Ixgbe.autocLmsMask ||| Ixgbe.autocLms10gSerial, ?_, _,
    .bind h (.op rfl (.op rfl (.refl _ _))), regWrites_modified _ _ _ _⟩
  rw [Ne, Nat.or_eq_zero_iff]
  exact fun hzero => absurd hzero.2 (by decide)

theorem Cpp.issues_link (order : Driver.ReadOrder) (rxQueues txQueues : Nat) {s' : DriverState}
    (h : Prog.Evals (execDriver card) Driver.reset s (.done () s')) : ∃ reg,
      Issues card (Cpp.resetAndInit order rxQueues txQueues) s (regWrites s'.log ++ [(reg, 0)]) :=
  ⟨maskOut (card.reg s'.log 0 % 2 ^ 32) Ixgbe.autocLmsMask ||| Ixgbe.autocLms10gSerial, _,
    .bind h (.op rfl (.op rfl (.refl _ _))), regWrites_modified _ _ _ _⟩

theorem not_driversAgree_of_ready {order order' : Driver.ReadOrder} {rxQueues txQueues : Nat} (h : card.Ready s.log) :
    ¬ DriversAgree card order order' rxQueues txQueues s := by
  intro hagree
  obtain ⟨s', hreset⟩ := Driver.evals_reset h
  obtain ⟨v, hv, hc⟩ := Driver.issues_link order rxQueues txQueues hreset
  obtain ⟨reg, hcpp⟩ := Cpp.issues_link order' rxQueues txQueues hreset
  -- both are the first write after the reset
  have heq : regWrites s'.log ++ [(Ixgbe.autoc, v)] = regWrites s'.log ++ [(reg, 0)] := by
    rcases ((hagree.init _).mp hc).prefix_total hcpp with hpre | hpre
    · exact hpre.eq_of_length (by simp)
    · exact (hpre.eq_of_length (by simp)).symm
  simp only [List.append_cancel_left_eq, List.cons.injEq, Prod.mk.injEq, and_true] at heq
  exact hv heq.2

/-- A card that never gets ready keeps both drivers in the same loop. -/
theorem driversAgree_of_not_ready {order order' : Driver.ReadOrder} {rxQueues txQueues : Nat} (h : ¬ card.Ready s.log) :
    DriversAgree card order order' rxQueues txQueues s := by
  have hstuck : ∀ out, ¬ Prog.Evals (execDriver card) Driver.reset s out :=
    fun out hreset => h (Driver.ready_of_evals_reset hreset)
  refine ⟨fun writes => ⟨?_, ?_⟩, fun s₁ s₂ hinit => ?_⟩
  · rintro ⟨s', hreach, hwrites⟩
    exact ⟨s', Prog.Reaches.of_stuck _ hstuck hreach, hwrites⟩
  · rintro ⟨s', hreach, hwrites⟩
    exact ⟨s', Prog.Reaches.of_stuck _ hstuck hreach, hwrites⟩
  · rcases Prog.Evals.of_bind hinit with ⟨_, _, hreset, -⟩ | ⟨_, _, hreset, -⟩
    · exact absurd hreset (hstuck _)
    · exact absurd hreset (hstuck _)

/-- **Main result.** The drivers agree exactly on the cards that never get ready after the reset, whatever the number of
queues, the memory and the compilers. -/
theorem drivers_agree_iff (card : Card) (order order' : Driver.ReadOrder) (rxQueues txQueues : Nat) (s : DriverState) :
    DriversAgree card order order' rxQueues txQueues s ↔ ¬ card.Ready s.log := by
  refine ⟨fun hagree hready => ?_, driversAgree_of_not_ready⟩
  exact not_driversAgree_of_ready hready hagree

end

/-- On a card that is always ready, the fourth write of the C driver is to AUTOC, and that of the C++ driver puts 0 in
another register. -/
theorem drivers_agree_counterexample :
    Issues readyCard (Driver.resetAndInit ⟨true, true⟩ 1 1) (driverBoot twoRings [(0x1000, ⟨0x100000, 0x200000⟩)])
      [(0x00888, 0x7FFFFFFF), (0x00000, 0x04000008), (0x00888, 0x7FFFFFFF), (0x042A0, 0xFFFF7FFF)] ∧
    Issues readyCard (Cpp.resetAndInit ⟨true, true⟩ 1 1) (driverBoot twoRings [(0x1000, ⟨0x100000, 0x200000⟩)])
      [(0x00888, 0x7FFFFFFF), (0x00000, 0x04000008), (0x00888, 0x7FFFFFFF), (0x06000, 0)] ∧
    ¬ DriversAgree readyCard ⟨true, true⟩ ⟨true, true⟩ 1 1 (driverBoot twoRings [(0x1000, ⟨0x100000, 0x200000⟩)]) := by
  refine ⟨⟨_, ⟨15, _, rfl⟩, rfl⟩, ⟨_, ⟨15, _, rfl⟩, rfl⟩, not_driversAgree_of_ready ?_⟩
  exact readyCard_responsive.ready (printable_of_ctrl readyCard_ctrl) _

end Ixy
