import Ixy.Driver.Tx
import Ixy.Lib.Fifo
import Ixy.Memory.Conservation

/-!
# The transmit ring is a bounded FIFO

A sending application calls `ixgbe_tx_packet` with buffers of its own, and allocates, frees and writes
buffers in between (`txMain`); the NIC fetches and reports between any two accesses. The history of the
ring is at every moment that of a FIFO of capacity `n - 1` (`tx_ring_fifo`): what the calls accepted is
fetched in order, and freed in order once it has been reported.

The proof has two parts. A loop invariant (`TxLoop`) over the specification of `ixgbe_tx_packet` gives
`TxOk` in every state. Given `TxOk` before and after a move, the move is one of the FIFO's own
(`TxRefines.access`, `TxRefines.nic`), because only four of the accesses touch the history.
-/

namespace Ixy

open Lib

/-- Serve one request of the application. -/
def txServe (_ : Unit) : Code (Unit ⊕ Unit) := do
  let call ← Prog.access Op.nextTx
  match call with
  | .tx b => do
    let r ← ixgbeTxPacket b
    Prog.access (Op.txReturn b r)
    return .inl ()
  | .alloc p => do
    let _ ← alloc p
    Prog.access Op.idle
    return .inl ()
  | .free b => do
    free b
    Prog.access Op.idle
    return .inl ()
  | .write m => do
    Prog.access (Op.write m)
    Prog.access Op.idle
    return .inl ()

/-- A sending application, on a queue that has been started. -/
def txMain : Code Unit := Prog.iterate txServe ()

/-- The state at the start. Any buffers may be out. -/
structure TxInit (n : RingSize) (s : Dev) : Prop extends TxStart n s where
  pools : PoolsOk s.w
  returned : s.app.returned = []

/-- The history of the ring. -/
structure TxHistory (n : RingSize) (t : TxRing) : Prop where
  fetched_le : t.fetched.length ≤ t.accepted.length
  /-- The `k`-th descriptor fetched is in slot `k % n` and describes the `k`-th packet accepted. -/
  fetched : ∀ k e f, t.accepted[k]? = some e → t.fetched[k]? = some f → f.slot = k % n.num ∧ f.desc.Sends e
  completed_lt : ∀ k ∈ t.completed, k < t.fetched.length
  completed_nodup : t.completed.Nodup
  /-- Packets are freed in order, each once and to its own pool, … -/
  reclaimed : t.reclaimed = (t.accepted.take t.reclaimed.length).map TxEntry.freed
  /-- … after the NIC has reported them. -/
  reclaimed_completed : ∀ k < t.reclaimed.length, k ∈ t.completed
  room : t.accepted.length ≤ t.reclaimed.length + (n.num - 1)

/-- The buffers for which `ixgbe_tx_packet` has returned 1. -/
def acceptedBufs (results : List TxResult) : List Nat := (results.filter (·.ret = 1)).map (·.buf)

/-- The world with the packets `fl` in flight: their buffers are out, and know their pool. -/
structure TxWorld (fl : List TxEntry) (w : World) : Prop where
  pools : PoolsOk w
  nodup : (fl.map (·.buf)).Nodup
  out : ∀ e ∈ fl, e.buf ∈ w.out
  pool : ∀ e ∈ fl, PktBuf.get w.mem e.buf .mempool = e.pool

/-- What holds at every moment. -/
structure TxOk (n : RingSize) (s : Dev) : Prop where
  history : TxHistory n s.tx
  world : TxWorld s.tx.inFlight s.w
  /-- A call returns 1, or returns 0 and has found `n - 1` packets in flight. -/
  results : ∀ x ∈ s.app.returned, x.ret = 1 ∨ x.ret = 0 ∧ x.inFlight = n.num - 1
  /-- What the calls have accepted so far … -/
  accepted : acceptedBufs s.app.returned <+: s.tx.accepted.map (·.buf)
  /-- … is what they returned 1 for. -/
  idle : s.app.busy = false → s.tx.accepted.map (·.buf) = acceptedBufs s.app.returned

/-! ## The ring -/

section
variable {n : RingSize} {base : Nat} {acc : List TxEntry} {C K : Nat} {virt : Nat → Nat}
variable {P : TxDesc → Prop} {t t' : TxRing}

theorem TxAt.history (h : TxAt n base acc C K virt P t) : TxHistory n t := by
  have hC := h.reclaimed_length
  obtain ⟨F, h, -⟩ := h
  have horder := h.order
  have hlap := h.lap
  refine ⟨?_, ?_, ?_, h.completed_nodup, ?_, fun k hk => h.known k (by omega), ?_⟩
  · rw [h.fetched_length, h.accepted]
    omega
  · rw [h.accepted]
    exact h.fetched
  · rw [h.fetched_length]
    exact h.completed_lt
  · rw [hC, h.accepted]
    exact h.reclaimed
  · rw [hC, h.accepted]
    omega

/-! ## The FIFO -/

/-- The queue `f` has the history of the ring `t`. -/
structure TxRefines (t : TxRing) (f : Fifo TxEntry (n.num - 1)) : Prop where
  accepted : f.accepted = t.accepted
  fetched : f.fetched = t.fetched.length
  completed : f.completed = t.completed
  freed : f.freed = t.reclaimed.length

/-- The request taken from the script. -/
def txCalled (c : Dev) : Dev :=
  { c with app := { c.app with txScript := c.app.txScript.tail, busy := true } }

theorem exec_nextTx {s s' : Dev} {call : TxCall} (h : exec .nextTx s = some (call, s')) :
    s' = txCalled s ∧ s.Admits call := by
  simp only [exec] at h
  split at h
  · rename_i cs hscript
    split at h
    · rename_i hadmits
      cases h
      exact ⟨by rw [txCalled, hscript, List.tail_cons], hadmits⟩
    · cases h
  · cases h

/-- All that an access can do to the history: accept packets, or free one. -/
theorem exec_tx {o : Op} {r : Ret o} {s s' : Dev} (h : exec o s = some (r, s')) :
    s'.tx.fetched = s.tx.fetched ∧ s'.tx.completed = s.tx.completed ∧
    ((∃ l, s'.tx.accepted = s.tx.accepted ++ l) ∧ s'.tx.reclaimed = s.tx.reclaimed ∨
      s'.tx.accepted = s.tx.accepted ∧ ∃ x, s'.tx.reclaimed = s.tx.reclaimed ++ [x]) := by
  have hsame : ∀ s₁ : Dev, s₁.tx = s.tx → s₁.tx.fetched = s.tx.fetched ∧ s₁.tx.completed = s.tx.completed ∧
      ((∃ l, s₁.tx.accepted = s.tx.accepted ++ l) ∧ s₁.tx.reclaimed = s.tx.reclaimed ∨
        s₁.tx.accepted = s.tx.accepted ∧ ∃ x, s₁.tx.reclaimed = s.tx.reclaimed ++ [x]) := by
    intro s₁ h₁
    rw [h₁]
    exact ⟨rfl, rfl, Or.inl ⟨⟨[], (List.append_nil _).symm⟩, rfl⟩⟩
  cases o with
  | reclaim b =>
    cases h
    exact ⟨rfl, rfl, Or.inr ⟨rfl, _, rfl⟩⟩
  | setReg reg v =>
    cases h
    cases reg with
    | tdt => exact ⟨rfl, rfl, Or.inl ⟨⟨_, rfl⟩, rfl⟩⟩
    | tdh => exact ⟨rfl, rfl, Or.inl ⟨⟨[], (List.append_nil _).symm⟩, rfl⟩⟩
    | txdctl => exact ⟨rfl, rfl, Or.inl ⟨⟨[], (List.append_nil _).symm⟩, rfl⟩⟩
    | rdh => exact hsame _ rfl
    | rdt => exact hsame _ rfl
    | rxdctl => exact hsame _ rfl
  | txDescSt a w v =>
    cases h
    cases w <;> exact ⟨rfl, rfl, Or.inl ⟨⟨[], (List.append_nil _).symm⟩, rfl⟩⟩
  | rxDescLd a w => cases w <;> (cases h; exact hsame _ rfl)
  | poolNew numEntries entrySize =>
    obtain ⟨dma, rest, -, rfl⟩ := exec_poolNew h
    exact hsame _ rfl
  | nextRx =>
    simp only [exec] at h
    split at h
    · cases h
      exact hsame _ rfl
    · split at h
      · cases h
        exact hsame _ rfl
      · cases h
    · cases h
  | nextTx =>
    obtain ⟨rfl, -⟩ := exec_nextTx h
    exact hsame _ rfl
  | _ => cases h; exact hsame _ rfl

theorem TxRefines.access {f : Fifo TxEntry (n.num - 1)} {o : Op} {r : Ret o} {s s' : Dev}
    (hf : f.Reachable) (h : TxRefines s.tx f) (hok : TxHistory n s'.tx)
    (he : exec o s = some (r, s')) : ∃ f' : Fifo TxEntry (n.num - 1), f'.Reachable ∧ TxRefines s'.tx f' := by
  obtain ⟨hfetched, hcompleted, ⟨⟨l, hacc⟩, hrec⟩ | ⟨hacc, x, hrec⟩⟩ := exec_tx he
  · have hroom := hok.room
    rw [hacc, hrec, List.length_append] at hroom
    obtain ⟨f', hf', hacc', hfetched', hcompleted', hfreed'⟩ := hf.acceptAll l (by
      rw [h.accepted, h.freed]
      exact hroom)
    refine ⟨f', hf', ?_, ?_, ?_, ?_⟩
    · rw [hacc', h.accepted, hacc]
    · rw [hfetched', h.fetched, hfetched]
    · rw [hcompleted', h.completed, hcompleted]
    · rw [hfreed', h.freed, hrec]
  · have hdone : f.freed ∈ f.completed := by
      rw [h.freed, h.completed, ← hcompleted]
      exact hok.reclaimed_completed _ (by rw [hrec, List.length_append]; simp)
    refine ⟨f.free hdone, hf.step (.free f hdone), ?_, ?_, ?_, ?_⟩
    · exact h.accepted.trans hacc.symm
    · exact h.fetched.trans (by rw [hfetched])
    · exact h.completed.trans hcompleted.symm
    · rw [hrec, List.length_append, ← h.freed]
      rfl

theorem TxRefines.nic {f : Fifo TxEntry (n.num - 1)} {a : NicAct} {s s' : Dev} (hf : f.Reachable)
    (h : TxRefines s.tx f) (hok : TxHistory n s'.tx) (ha : nicStep a s = some s') :
    ∃ f' : Fifo TxEntry (n.num - 1), f'.Reachable ∧ TxRefines s'.tx f' := by
  obtain ⟨r, t, rfl, -, ht⟩ := nicStep_moves ha
  change TxHistory n t at hok
  change ∃ f', _ ∧ TxRefines t f'
  cases ht with
  | rest => exact ⟨f, hf, h⟩
  | txdctl v => exact ⟨f, hf, h.accepted, h.fetched, h.completed, h.freed⟩
  | fetch ht =>
    obtain ⟨-, rfl⟩ := TxRing.fetch_eq ht
    have hlt : f.fetched < f.accepted.length := by
      have := hok.fetched_le
      simp only [List.length_append, List.length_singleton] at this
      rw [h.fetched, h.accepted]
      omega
    refine ⟨f.fetch hlt, hf.step (.fetch f hlt), h.accepted, ?_, h.completed, h.freed⟩
    rw [List.length_append, ← h.fetched]
    rfl
  | complete k wb ht =>
    obtain ⟨e, he, hnew, -, rfl⟩ := TxRing.complete_eq ht
    have hlt : k < f.fetched := by
      rw [h.fetched]
      exact (List.getElem?_eq_some_iff.mp he).1
    rw [← h.completed] at hnew
    refine ⟨f.complete k hlt hnew, hf.step (.complete f k hlt hnew), h.accepted, h.fetched, ?_, h.freed⟩
    change k :: f.completed = k :: s.tx.completed
    rw [h.completed]

end

/-! ## The world -/

section
variable {fl : List TxEntry} {w : World} {e : TxEntry} {b : Nat}

namespace TxWorld

theorem nil (h : PoolsOk w) : TxWorld [] w := ⟨h, List.nodup_nil, by simp, by simp⟩

theorem free (h : TxWorld (e :: fl) w) : TxWorld fl (pktBufFree w e.buf) := by
  have hnodup := h.nodup
  rw [List.map_cons, List.nodup_cons] at hnodup
  have hout := h.out e (List.mem_cons_self ..)
  refine ⟨pktBufFree_ok h.pools hout, hnodup.2, fun e' he' => ?_, fun e' he' => ?_⟩
  · refine (h.pools.nodup.mem_erase_iff).mpr ⟨?_, h.out e' (List.mem_cons_of_mem _ he')⟩
    rintro heq
    exact hnodup.1 (heq ▸ List.mem_map_of_mem he')
  · exact h.pool e' (List.mem_cons_of_mem _ he')

theorem freeOther (h : TxWorld fl w) (hb : b ∈ w.out) (hfl : b ∉ fl.map (·.buf)) :
    TxWorld fl (pktBufFree w b) := by
  refine ⟨pktBufFree_ok h.pools hb, h.nodup, fun e he => ?_, h.pool⟩
  refine (h.pools.nodup.mem_erase_iff).mpr ⟨?_, h.out e he⟩
  rintro heq
  exact hfl (heq ▸ List.mem_map_of_mem he)

theorem alloc {p : Nat} (h : TxWorld fl w) (hp : p ∈ w.live) : TxWorld fl (pktBufAlloc w p).2 := by
  by_cases htop : (w.pools p).freeStackTop = 0
  · rw [pktBufAlloc_empty htop]
    exact h
  · obtain ⟨i, -, -, -, hout, hok⟩ := pktBufAlloc_ok h.pools hp htop
    refine ⟨hok, h.nodup, fun e he => ?_, fun e he => ?_⟩
    · rw [hout]
      exact List.mem_cons_of_mem _ (h.out e he)
    · rw [pktBufAlloc_mem]
      exact h.pool e he

theorem append (h : TxWorld fl w) (hb : b ∈ w.out) (hfl : b ∉ fl.map (·.buf)) :
    TxWorld (fl ++ [Dev.entry w.mem b]) w := by
  refine ⟨h.pools, ?_, ?_, ?_⟩
  · rw [List.map_append, List.nodup_append]
    refine ⟨h.nodup, by simp, ?_⟩
    rintro x hx y hy rfl
    rw [List.map_singleton, List.mem_singleton] at hy
    exact hfl (by rw [show b = x from hy.symm]; exact hx)
  · intro e he
    rcases List.mem_append.mp he with he | he
    · exact h.out e he
    · rw [List.mem_singleton.mp he]
      exact hb
  · intro e he
    rcases List.mem_append.mp he with he | he
    · exact h.pool e he
    · rw [List.mem_singleton.mp he]
      rfl

theorem write {s : Dev} {m : Mem} (h : TxWorld fl s.w) (hm : s.Admits (.write m)) :
    TxWorld fl { s.w with mem := m } := by
  have hkeep : ∀ p ∈ s.w.live, ∀ i < (s.w.pools p).numEntries, ∀ f, f ≠ PktBuf.Field.size →
      PktBuf.get m ((s.w.pools p).entryAddr i) f =
        PktBuf.get s.w.mem ((s.w.pools p).entryAddr i) f := by
    intro p hp i hi f hf
    refine hm p hp i hi f ?_
    cases f <;> simp at hf ⊢
  refine ⟨PoolOp.apply_ok (.write m) h.pools hkeep, h.nodup, h.out, fun e he => ?_⟩
  obtain ⟨p, hp, i, hi, hbuf⟩ := h.pools.owned _ (h.out e he)
  rw [← h.pool e he, hbuf]
  exact hkeep p hp i hi .mempool (by simp)

end TxWorld
end

/-! ## The run -/

/-- Any receive ring: sending does not depend on it. -/
def anyRx (_ : RxRing) : Prop := True

theorem anyRx_stable : RxStable anyRx := fun _ _ _ _ => trivial

/-- Sending never aborts. -/
def noAborts (_ : String) (_ : Dev) : Prop := False

/-- The world with the packets `fl` in flight and the buffer `b` in the hands of the application. -/
structure TxInHand (b : Nat) (fl : List TxEntry) (w : World) : Prop extends TxWorld fl w where
  mem_out : b ∈ w.out
  not_mem : b ∉ fl.map (·.buf)

theorem TxInHand.free {b : Nat} {e : TxEntry} {fl : List TxEntry} {w : World} (h : TxInHand b (e :: fl) w) :
    TxInHand b fl (pktBufFree w e.buf) := by
  have hne := h.not_mem
  rw [List.map_cons, List.mem_cons, not_or] at hne
  exact ⟨h.toTxWorld.free, (h.pools.nodup.mem_erase_iff).mpr ⟨hne.1, h.mem_out⟩, hne.2⟩

section
variable {n : RingSize} {c : Dev} {acc : List TxEntry} {C : Nat}

/-- The queue between two requests. -/
structure TxQueueAt (n : RingSize) (c : Dev) (acc : List TxEntry) (C : Nat) : Prop where
  num : c.txq.numEntries = n.num
  clean : c.txq.cleanIndex = C % n.num
  index : c.txq.txIndex = acc.length % n.num
  results : ∀ x ∈ c.app.returned, x.ret = 1 ∨ x.ret = 0 ∧ x.inFlight = n.num - 1
  accepted : acc.map (·.buf) = acceptedBufs c.app.returned

/-- The state between two requests. -/
def TxLoop (n : RingSize) (s : Dev) : Prop :=
  ∃ c acc C, TxQueueAt n c acc C ∧ At c (TxWorld (acc.drop C)) anyRx
    (TxAt n c.txq.descriptors acc C C c.txq.virtualAddresses anyDesc) s

theorem TxOk.of_at {base K : Nat} {virt : Nat → Nat} {P : TxDesc → Prop} {w : World} {r : RxRing} {t : TxRing}
    (ht : TxAt n base acc C K virt P t) (hworld : TxWorld (acc.drop C) w)
    (hresults : ∀ x ∈ c.app.returned, x.ret = 1 ∨ x.ret = 0 ∧ x.inFlight = n.num - 1)
    (haccepted : acceptedBufs c.app.returned <+: acc.map (·.buf))
    (hidle : c.app.busy = false → acc.map (·.buf) = acceptedBufs c.app.returned) :
    TxOk n (c.put w r t) := by
  refine ⟨ht.history, ?_, hresults, ?_, ?_⟩
  · change TxWorld t.inFlight w
    rw [ht.inFlight]
    exact hworld
  · change _ <+: t.accepted.map _
    rw [ht.accepted]
    exact haccepted
  · change _ → t.accepted.map _ = _
    rw [ht.accepted]
    exact hidle

theorem TxQueueAt.held (h : TxQueueAt n c acc C) (c' : Dev) (hret : c'.app.returned = c.app.returned)
    {W : World → Prop} {base C' : Nat} {virt : Nat → Nat} (hW : ∀ w, W w → TxWorld (acc.drop C') w) :
    Held noFrames (TxOk n) c' W anyRx (TxSome n base acc C' virt) := by
  refine .quiet anyRx_stable TxSome.stable fun w r t hw _ ⟨K, P, ht⟩ => ?_
  refine .of_at ht (hW w hw) ?_ ?_ fun _ => ?_ <;> rw [hret]
  · exact h.results
  · exact h.accepted ▸ List.prefix_refl _
  · exact h.accepted

theorem TxQueueAt.idle_held (h : TxQueueAt n c acc C) {d : Dev} (hret : d.app.returned = c.app.returned) {K : Nat} :
    Held noFrames (TxOk n) d (TxWorld (acc.drop C)) anyRx
      (TxAt n c.txq.descriptors acc C K c.txq.virtualAddresses anyDesc) :=
  (h.held d hret fun _ hw => hw).mono anyRx_stable TxAt.stable (fun _ hr => hr) fun _ ht => ⟨K, anyDesc, ht⟩

theorem txLoop_stable (n : RingSize) : Stable (driverContract noFrames (TxOk n) noAborts) (TxLoop n) := by
  refine .cover ?_
  rintro s ⟨c, acc, C, hq, hat⟩
  exact ⟨_, At.stable (hq.idle_held rfl), hat, fun _ hat => ⟨c, acc, C, hq, hat⟩⟩

/-- The world inside a call with the buffer `b`, whose header says `e`. -/
def TxCallWorld (b : Nat) (e : TxEntry) (fl : List TxEntry) (w : World) : Prop :=
  TxInHand b fl w ∧ Dev.entry w.mem b = e

theorem TxCallWorld.append {b : Nat} {e : TxEntry} {fl : List TxEntry} {w : World} (h : TxCallWorld b e fl w) :
    TxWorld (fl ++ [e]) w := by
  rw [← h.2]
  exact h.1.toTxWorld.append h.1.mem_out h.1.not_mem

theorem TxQueueAt.caller (h : TxQueueAt n c acc C) (hbusy : c.app.busy = true) {b : Nat} {e : TxEntry}
    (hsize : e.size < 2 ^ 16) :
    TxCaller noFrames (TxOk n) n c b e acc C anyRx (TxCallWorld b e) where
  num := h.num
  clean := h.clean
  index := h.index
  entry _ _ hw := hw.2
  size := hsize
  free e' _ _ hw := ⟨hw.1.pool e' (List.mem_cons_self ..), hw.1.free, hw.2⟩
  before q C' := h.held (txState c q) rfl fun _ hw => hw.1.toTxWorld
  after q C' hle := by
    refine .quiet anyRx_stable TxAt.stable fun w r t hw _ ht => ?_
    refine .of_at (c := txState c q) ht ?_ h.results ?_ fun hb => absurd hb (by rw [txState, hbusy]; simp)
    · rw [List.drop_append_of_le_length hle]
      exact hw.append
    · rw [List.map_append, h.accepted]
      exact List.prefix_append _ _

/-- The application goes on after every request. -/
def TxServed (n : RingSize) : Unit ⊕ Unit → Dev → Prop
  | .inl _ => TxLoop n
  | .inr _ => fun _ => False

theorem txServed_of_loop {s : Dev} (hs : TxLoop n s) :
    Safe exec (driverContract noFrames (TxOk n) noAborts) (Prog.ret (.inl ())) (TxServed n) s := by
  refine Safe.ret (txLoop_stable n) ?_ hs
  exact fun _ h => h

theorem txOther_safe (h : TxQueueAt n c acc C) {s : Dev}
    (hs : At c (TxWorld (acc.drop C)) anyRx (TxAt n c.txq.descriptors acc C C c.txq.virtualAddresses anyDesc) s) :
    Safe exec (driverContract noFrames (TxOk n) noAborts)
      (Prog.op Op.idle fun _ => Prog.ret (.inl ())) (TxServed n) s := by
  refine At.step (h.idle_held rfl) (fun w r t hw hr ht => ⟨_, _, rfl, ?_⟩) hs
  exact txServed_of_loop ⟨c.idle, acc, C, ⟨h.num, h.clean, h.index, h.results, h.accepted⟩, w, r, t, rfl, hw, hr, ht⟩

theorem TxQueueAt.returned (h : TxQueueAt n c acc C) {b : Nat} {e : TxEntry} (hb : b = e.buf) {res : Nat} {s : Dev}
    {K : Nat} (hs : TxAnswer n c e acc K anyRx (TxCallWorld b e) res s) : TxLoop n (s.txReturn b res) := by
  obtain ⟨q, C', -, hle, hnum, hdesc, hclean, hres⟩ := hs
  have hlen : (acc.drop C').length = acc.length - C' := List.length_drop ..
  rcases hres with ⟨rfl, hfull, hindex, w, r, t, rfl, hw, hr, ht⟩ | ⟨rfl, hindex, w, r, t, rfl, hw, hr, ht⟩
  · refine ⟨((txState c q).put w r t).txReturn b 0, acc, C', ⟨hnum, hclean, hindex, ?_, ?_⟩,
      w, r, t, rfl, hw.1.toTxWorld, hr, by rw [← hdesc] at ht; exact ht⟩
    · intro x hx
      rcases List.mem_append.mp hx with hx | hx
      · exact h.results x hx
      · refine Or.inr ?_
        rw [List.mem_singleton.mp hx]
        refine ⟨rfl, ?_⟩
        change t.inFlight.length = n.num - 1
        rw [ht.inFlight, hlen]
        omega
    · rw [h.accepted]
      change acceptedBufs c.app.returned = acceptedBufs (c.app.returned ++ [⟨b, 0, _⟩])
      simp [acceptedBufs]
  · refine ⟨((txState c q).put w r t).txReturn b 1, acc ++ [e], C', ⟨hnum, hclean, ?_, ?_, ?_⟩,
      w, r, t, rfl, ?_, hr, by rw [← hdesc] at ht; exact ht⟩
    · rw [List.length_append]
      exact hindex
    · intro x hx
      rcases List.mem_append.mp hx with hx | hx
      · exact h.results x hx
      · rw [List.mem_singleton.mp hx]
        exact Or.inl rfl
    · rw [List.map_append, h.accepted]
      change _ = acceptedBufs (c.app.returned ++ [⟨b, 1, _⟩])
      simp [acceptedBufs, hb]
    · rw [List.drop_append_of_le_length hle]
      exact hw.append

theorem txServe_safe {s : Dev} (hs : TxLoop n s) :
    Safe exec (driverContract noFrames (TxOk n) noAborts) (txServe ()) (TxServed n) s := by
  refine Safe.op (txLoop_stable n) ?_ hs
  rintro _ call s' ⟨c, acc, C, hq, w, r, t, rfl, hw, hr, ht⟩ he
  refine ⟨trivial, ?_⟩
  obtain ⟨rfl, hadmits⟩ := exec_nextTx he
  have hq : TxQueueAt n (txCalled c) acc C := ⟨hq.num, hq.clean, hq.index, hq.results, hq.accepted⟩
  have hfl : t.inFlight = acc.drop C := ht.inFlight
  -- the request was admissible in the world `w`, and is carried out in it
  have hheld : Held noFrames (TxOk n) (txCalled c) (· = w) anyRx
      (TxAt n c.txq.descriptors acc C C c.txq.virtualAddresses anyDesc) :=
    (hq.held _ rfl fun w' hw' => hw' ▸ hw).mono anyRx_stable TxAt.stable (fun _ hr => hr) fun _ ht => ⟨C, anyDesc, ht⟩
  rw [Prog.ret_bind]
  cases call with
  | tx b =>
    obtain ⟨hout, hnew, hsize⟩ := hadmits
    change b ∉ t.inFlight.map _ at hnew
    rw [hfl] at hnew
    have hcaller := hq.caller rfl (b := b) (e := Dev.entry w.mem b) hsize
    refine Safe.bind (p := ixgbeTxPacket b) ((ixgbeTxPacket_safe hcaller
      ⟨w, r, t, rfl, ⟨⟨hw, hout, hnew⟩, rfl⟩, hr, ht⟩).mono fun res s hres => ?_)
    refine Safe.step (TxAnswer.stable hcaller res) (fun s hs => ?_) hres
    exact ⟨(), s.txReturn b res, rfl, trivial, txServed_of_loop (hq.returned rfl hs)⟩
  | alloc p =>
    refine At.step hheld (fun w' r t hw' hr ht => ⟨_, _, rfl, ?_⟩) ⟨w, r, t, rfl, rfl, hr, ht⟩
    subst hw'
    exact txOther_safe hq ⟨(pktBufAlloc w' p).2, r, t, rfl, hw.alloc hadmits, hr, ht⟩
  | free b =>
    obtain ⟨hout, hnew⟩ := hadmits
    change b ∉ t.inFlight.map _ at hnew
    rw [hfl] at hnew
    refine At.step hheld (fun w' r t hw' hr ht => ⟨_, _, rfl, ?_⟩) ⟨w, r, t, rfl, rfl, hr, ht⟩
    subst hw'
    exact txOther_safe (c := (txCalled c).free b) ⟨hq.num, hq.clean, hq.index, hq.results, hq.accepted⟩
      ⟨pktBufFree w' b, r, t, rfl, hw.freeOther hout hnew, hr, ht⟩
  | write m =>
    refine At.step hheld (fun w' r t hw' hr ht => ⟨_, _, rfl, ?_⟩) ⟨w, r, t, rfl, rfl, hr, ht⟩
    subst hw'
    exact txOther_safe hq ⟨{ w' with mem := m }, r, t, rfl, hw.write (s := c.put w' r t) hadmits, hr, ht⟩

theorem txMain_safe {s : Dev} (h : TxInit n s) :
    Safe exec (driverContract noFrames (TxOk n) noAborts) txMain (fun _ _ => False) s := by
  have hstart : TxLoop n s := by
    refine ⟨s, [], 0, ⟨h.num, by rw [h.clean, Nat.zero_mod], by rw [h.index, List.length_nil, Nat.zero_mod],
      by simp [h.returned], by simp [h.returned, acceptedBufs]⟩, s.w, s.rx, s.tx, rfl, .nil h.pools, trivial, h.ring⟩
  refine Safe.loop (J := fun _ => TxLoop n) (fun _ => txLoop_stable n) (fun _ _ _ => trivial) ?_ hstart
  rintro _ s hs
  refine (txServe_safe hs).mono fun res s hres => ?_
  cases res with
  | inl u => exact hres
  | inr u => exact hres.elim

/-- **The transmit ring is a FIFO of capacity `n - 1`.** In every state of every interleaving of a
sending application with the NIC, the history of the ring is that of a FIFO: packets are fetched in
the order in which the calls accepted them, with the address and the lengths of their headers; each
is freed once, in order, to its own pool, after the NIC has reported it; a call returns 0 only when
`n - 1` packets are in flight; and nothing aborts. -/
theorem tx_ring_fifo (n : RingSize) {s : Dev} (h : TxInit n s) (ts : List (Tick NicAct))
    {c : Conf Dev Op Ret Unit} (hrun : Conf.run exec nicStep ts ⟨s, txMain⟩ = some c) :
    (∃ f : Fifo TxEntry (n.num - 1), f.Reachable ∧ TxRefines c.state.tx f) ∧ TxOk n c.state ∧
      ∀ msg, c.prog ≠ .abort msg := by
  have hsafe := Safe.run (fun _ _ _ => nicRely_of_nicStep) (txMain_safe h) hrun
  refine ⟨?_, hsafe.inv, fun msg hmsg => ?_⟩
  · refine Safe.run_keeps (fun _ _ _ => nicRely_of_nicStep)
      (R := fun s => ∃ f : Fifo TxEntry (n.num - 1), f.Reachable ∧ TxRefines s.tx f) ?_ ?_ ts (txMain_safe h) hrun ?_
    · rintro o s r s' - hok he ⟨f, hf, hR⟩
      exact hR.access hf hok.history he
    · rintro a s s' - hok ha ⟨f, hf, hR⟩
      exact hR.nic hf hok.history ha
    · refine ⟨Fifo.empty, .refl, h.accepted.symm, ?_, h.completed.symm, ?_⟩
      · change 0 = s.tx.fetched.length
        rw [h.fetched, List.length_nil]
      · change 0 = s.tx.reclaimed.length
        rw [h.reclaimed, List.length_nil]
  · rw [hmsg] at hsafe
    exact hsafe.aborts

end

/-- A sender with a ring of two descriptors and a buffer of each of two pools. -/
def twoPoolsDev : Dev :=
  { bootDev 2 [] [] with
    w := twoPools
    app := ⟨[], [], [.tx 4096, .tx 10240, .tx 10240], false, [], [], [], 0⟩ }

/-- The first buffer is accepted, the second one only after the first has been reported and freed. -/
def twoPoolsTicks : List (Tick NicAct) :=
  List.replicate 31 .prog ++ .env .fetch :: .env (.complete 0 ⟨0, 0, 1⟩) :: List.replicate 27 .prog

theorem tx_ring_fifo_twoPools : ∃ c, Conf.run exec nicStep twoPoolsTicks ⟨twoPoolsDev, txMain⟩ = some c ∧
    c.state.tx.accepted.map (·.buf) = [4096, 10240] ∧ c.state.tx.reclaimed = [(4096, 16)] ∧
    c.state.app.returned = [⟨4096, 1, 1⟩, ⟨10240, 0, 1⟩, ⟨10240, 1, 1⟩] ∧
    TxOk ⟨2, 1, rfl, by decide⟩ c.state := by
  obtain ⟨c, hrun, hstate⟩ := Option.map_eq_some_iff.mp (show
    (Conf.run exec nicStep twoPoolsTicks ⟨twoPoolsDev, txMain⟩).map (fun c =>
      (c.state.tx.accepted.map (·.buf), c.state.tx.reclaimed, c.state.app.returned)) =
      some ([4096, 10240], [(4096, 16)], [⟨4096, 1, 1⟩, ⟨10240, 0, 1⟩, ⟨10240, 1, 1⟩]) by decide +kernel)
  simp only [Prod.mk.injEq] at hstate
  refine ⟨c, hrun, hstate.1, hstate.2.1, hstate.2.2, (tx_ring_fifo ⟨2, 1, rfl, by decide⟩ ?_ _ hrun).2.1⟩
  exact ⟨⟨rfl, rfl, rfl, rfl, rfl, rfl, rfl, rfl, rfl, rfl, rfl⟩, twoPools_reach.ok, rfl⟩

end Ixy
