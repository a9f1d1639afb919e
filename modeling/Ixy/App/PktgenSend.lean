import Ixy.App.Pktgen
import Ixy.Memory.Dma

/-!
# `ixy-pktgen`: the send loop

The loop allocates a buffer, does not look whether it got one, and hands it to `ixgbe_tx_packet` until that takes it.
The ring keeps a slot spare, so at most 1023 buffers are in flight and one is in hand. The entries that `init_mempool`
gave back first, 2047 … 1024, stay at the bottom of the free stack (`pgBottom`), and only the first 1024 buffers are
ever sent (`PgSent`).

That no null pointer and no buffer that is still posted is used does not depend on physical addresses. The frames do.
The first 1024 buffers lie in one huge page, so it is enough that `memory_allocate_dma` has translated the address of
that page (`PgVisible`), wherever the other page is. When the pagemap hides the frame number, `virt_to_phys` makes
physical address 0 of it and the NIC sends other memory (`pktgen_counterexample`).
-/

namespace Ixy

open Lib

/-! ## The send loop -/

/-- The entries that are given back first, and that the send loop never gets to. -/
def pgBottom : List Nat := (List.range 1024).map (numBufs - 1 - ·)

/-- The world while packets are sent, with the packets `fl` in flight and `n` buffers in hand. -/
structure PgWorld (mp : Mempool) (ptr : Nat) (s₀ : Dev) (m : Mem) (fl : List TxEntry) (n : Nat) (w : World) :
    Prop where
  mem : w.mem = m
  pool : ∃ rest, (∀ i ∈ rest, i < 1024) ∧ PgPool mp ptr s₀ (pgBottom ++ rest) w
  length : w.out.length = fl.length + n
  flight : ∀ e ∈ fl, ∃ i < 1024, e.buf = mp.entryAddr i

/-- The buffers while packets are sent; `acc` are the packets accepted. -/
structure PgBuffers (mp : Mempool) (ptr : Nat) (s₀ : Dev) (m : Mem) (acc : List TxEntry) : Prop where
  mempool : mp.ForPktgen ptr s₀
  filled : ∀ i < numBufs, Template m (mp.entryAddr i)
  accepted : ∀ e ∈ acc, ∃ i < 1024, e = Dev.entry m (mp.entryAddr i)

/-- And the queue; the first `C` of them have been freed. -/
structure PgSending (mp : Mempool) (ptr : Nat) (s₀ : Dev) (m : Mem) (c : Dev) (acc : List TxEntry) (C : Nat) : Prop
    extends PgBuffers mp ptr s₀ m acc where
  num : c.txq.numEntries = queueEntries.num
  clean : c.txq.cleanIndex = C % queueEntries.num
  index : c.txq.txIndex = acc.length % queueEntries.num
  view : c.dmaView = s₀.dmaView

section
variable {mp : Mempool} {ptr i n C : Nat} {s₀ c : Dev} {m : Mem} {fl acc : List TxEntry} {e : TxEntry} {w : World}

theorem PgReturning.world (h : PgReturning mp ptr s₀ numBufs w) : PgWorld mp ptr s₀ w.mem [] 0 w := by
  have hpool := h.pool
  have hcount := hpool.count
  rw [List.length_map, List.length_range] at hcount
  refine ⟨rfl, ⟨((List.range 1024).map (1024 + ·)).map (numBufs - 1 - ·), fun i hi => ?_, ?_⟩, ?_, by simp⟩
  · rw [List.map_map] at hi
    obtain ⟨j, -, rfl⟩ := List.mem_map.mp hi
    change numBufs - 1 - (1024 + j) < 1024
    rw [numBufs]
    omega
  · rw [show numBufs = 1024 + 1024 from rfl, List.range_add, List.map_append] at hpool
    exact hpool
  · rw [List.length_nil]
    omega

namespace PgWorld

/-- There is a buffer to take, because the ring has a slot spare. -/
theorem alloc (h : PgWorld mp ptr s₀ m fl 0 w) (hmp : mp.ForPktgen ptr s₀) (hfl : fl.length < 1024) :
    ∃ i < 1024, mp.entryAddr i ∉ w.out ∧ (pktBufAlloc w ptr).1 = some (mp.entryAddr i) ∧
      mp.entryAddr i ∈ (pktBufAlloc w ptr).2.out ∧ PgWorld mp ptr s₀ m fl 1 (pktBufAlloc w ptr).2 := by
  obtain ⟨rest, hrest, hpool⟩ := h.pool
  have hlength := h.length
  have hcount := hpool.count
  rw [List.length_append, pgBottom, List.length_map, List.length_range, numBufs] at hcount
  rcases List.eq_nil_or_concat rest with rfl | ⟨rest, i, rfl⟩
  · rw [List.length_nil] at hcount
    omega
  · rw [List.concat_eq_append] at hrest hpool
    rw [← List.append_assoc] at hpool
    obtain ⟨-, hnot, hsome, hout, hpool⟩ := hpool.alloc hmp
    refine ⟨i, hrest i (by simp), hnot, hsome, by rw [hout]; exact List.mem_cons_self .., ?_⟩
    refine ⟨(pktBufAlloc_mem w ptr).trans h.mem, ⟨rest, fun j hj => hrest j (by simp [hj]), hpool⟩, ?_, h.flight⟩
    rw [hout, List.length_cons, hlength]

theorem free (h : PgWorld mp ptr s₀ m (e :: fl) n w) (hmp : mp.ForPktgen ptr s₀) (hout : e.buf ∈ w.out) :
    PgWorld mp ptr s₀ m fl n (pktBufFree w e.buf) := by
  obtain ⟨i, hi, hbuf⟩ := h.flight e (List.mem_cons_self ..)
  obtain ⟨rest, hrest, hpool⟩ := h.pool
  have hlen : (pktBufFree w e.buf).out.length = w.out.length - 1 := List.length_erase_of_mem hout
  refine ⟨h.mem, ⟨rest ++ [i], fun j hj => ?_, ?_⟩, ?_, fun e' he' => h.flight e' (List.mem_cons_of_mem _ he')⟩
  · rcases List.mem_append.mp hj with hj | hj
    · exact hrest j hj
    · rw [List.mem_singleton.mp hj]
      exact hi
  · rw [← List.append_assoc, hbuf]
    rw [hbuf] at hout
    exact hpool.free hmp (Nat.lt_trans hi (by decide)) hout
  · rw [hlen, h.length, List.length_cons]
    omega

theorem sent (h : PgWorld mp ptr s₀ m fl 1 w) (hi : i < 1024) :
    PgWorld mp ptr s₀ m (fl ++ [Dev.entry m (mp.entryAddr i)]) 0 w := by
  refine ⟨h.mem, h.pool, ?_, fun e he => ?_⟩
  · rw [h.length, List.length_append, List.length_singleton, Nat.add_zero]
  · rcases List.mem_append.mp he with he | he
    · exact h.flight e he
    · exact ⟨i, hi, by rw [List.mem_singleton.mp he]; rfl⟩

end PgWorld

namespace PgBuffers

theorem sent (h : PgBuffers mp ptr s₀ m acc) (hw : PgWorld mp ptr s₀ m fl n w) (he : e ∈ acc) :
    PgSent s₀ m e := by
  obtain ⟨i, hi, rfl⟩ := h.accepted e he
  obtain ⟨dma, rest, hsup, hbase, hphy⟩ := h.mempool.supply
  obtain ⟨l, -, hpool⟩ := hw.pool
  have hlt : i < numBufs := Nat.lt_trans hi (by decide)
  have htemplate := h.filled i hlt
  refine ⟨ptr, dma, rest, hsup, i, hi, ?_, ?_, htemplate.size, htemplate⟩
  · rw [← hbase]
    exact h.mempool.entryAddr hlt
  · have hheader := (hpool.header h.mempool hlt).bufAddrPhy
    rw [hw.mem, hphy, h.mempool.bufSize] at hheader
    exact hheader

theorem held (h : PgBuffers mp ptr s₀ m acc) {d : Dev} (hview : d.dmaView = s₀.dmaView)
    {W : World → Prop} {base C' : Nat} {virt : Nat → Nat} (hn : n ≤ 1)
    (hW : ∀ w, W w → TxWorld (acc.drop C') w ∧ PgWorld mp ptr s₀ m (acc.drop C') n w) :
    Held noFrames (PgOk s₀) d W anyRx (TxSome queueEntries base acc C' virt) := by
  refine .quiet anyRx_stable TxSome.stable fun w r t hw _ ⟨K, P, ht⟩ => ?_
  obtain ⟨hworld, hw⟩ := hW w hw
  obtain ⟨rest, -, hpool⟩ := hw.pool
  have hcount := hpool.count
  have htop := hpool.top_eq
  have hlen := hw.length
  refine ⟨ht.history, ?_, hview, hpool.outside, ?_, fun _ => ⟨ptr, hpool.live, ?_, fun i hi => ?_, ?_, ?_⟩⟩
  · change TxWorld t.inFlight w
    rw [ht.inFlight]
    exact hworld
  · change ∀ e ∈ t.accepted, PgSent s₀ w.mem e
    rw [ht.accepted, hw.mem]
    exact fun e he => h.sent hw he
  · exact hpool.layout.numEntries.trans h.mempool.entries
  · change Template w.mem ((w.pools ptr).entryAddr i)
    rw [hw.mem, hpool.layout.entryAddr]
    exact h.filled i hi
  · change (w.pools ptr).freeStackTop + t.inFlight.length ≤ numBufs
    rw [ht.inFlight]
    omega
  · change numBufs ≤ (w.pools ptr).freeStackTop + t.inFlight.length + 1
    rw [ht.inFlight]
    omega

theorem append (h : PgBuffers mp ptr s₀ m acc) (hi : i < 1024) :
    PgBuffers mp ptr s₀ m (acc ++ [Dev.entry m (mp.entryAddr i)]) := by
  refine ⟨h.mempool, h.filled, fun e he => ?_⟩
  rcases List.mem_append.mp he with he | he
  · exact h.accepted e he
  · exact ⟨i, hi, List.mem_singleton.mp he⟩

end PgBuffers

/-- Entry `i` is in hand. -/
def PgInHand (mp : Mempool) (ptr : Nat) (s₀ : Dev) (m : Mem) (i : Nat) (fl : List TxEntry) (w : World) : Prop :=
  TxInHand (mp.entryAddr i) fl w ∧ PgWorld mp ptr s₀ m fl 1 w

theorem PgInHand.append (h : PgInHand mp ptr s₀ m i fl w) (hi : i < 1024) :
    TxWorld (fl ++ [Dev.entry m (mp.entryAddr i)]) w ∧
      PgWorld mp ptr s₀ m (fl ++ [Dev.entry m (mp.entryAddr i)]) 0 w := by
  refine ⟨?_, h.2.sent hi⟩
  rw [← h.2.mem]
  exact h.1.toTxWorld.append h.1.mem_out h.1.not_mem

theorem PgSending.caller (h : PgSending mp ptr s₀ m c acc C) (hi : i < 1024) :
    TxCaller noFrames (PgOk s₀) queueEntries c (mp.entryAddr i) (Dev.entry m (mp.entryAddr i)) acc C anyRx
      (PgInHand mp ptr s₀ m i) where
  num := h.num
  clean := h.clean
  index := h.index
  entry _ _ hw := by rw [hw.2.mem]
  size := by
    change PktBuf.get m (mp.entryAddr i) .size < 2 ^ 16
    rw [(h.filled i (Nat.lt_trans hi (by decide))).size]
    decide
  free e' _ _ hw :=
    ⟨hw.1.pool e' (List.mem_cons_self ..), hw.1.free, hw.2.free h.mempool (hw.1.out e' (List.mem_cons_self ..))⟩
  before q C' := h.held (d := txState c q) h.view (Nat.le_refl 1) fun _ hw => ⟨hw.1.toTxWorld, hw.2⟩
  after q C' hle := by
    refine ((h.append hi).held (d := txState c q) h.view (Nat.zero_le 1) fun w hw => ?_).mono anyRx_stable
      TxAt.stable (fun _ hr => hr) fun _ ht => ⟨C', anyDesc, ht⟩
    rw [List.drop_append_of_le_length hle]
    exact hw.append hi

/-- Between two packets. -/
def PgLoop (mp : Mempool) (ptr : Nat) (s₀ : Dev) (m : Mem) (s : Dev) : Prop :=
  ∃ c acc C, PgSending mp ptr s₀ m c acc C ∧
    At c (fun w => TxWorld (acc.drop C) w ∧ PgWorld mp ptr s₀ m (acc.drop C) 0 w) anyRx
      (TxAt queueEntries c.txq.descriptors acc C C c.txq.virtualAddresses anyDesc) s

/-- With entry `i` in hand. -/
def PgTrying (mp : Mempool) (ptr : Nat) (s₀ : Dev) (m : Mem) (i : Nat) (s : Dev) : Prop :=
  ∃ c acc C, PgSending mp ptr s₀ m c acc C ∧ At c (PgInHand mp ptr s₀ m i (acc.drop C)) anyRx
    (TxAt queueEntries c.txq.descriptors acc C C c.txq.virtualAddresses anyDesc) s

theorem PgSending.loop_held (h : PgSending mp ptr s₀ m c acc C) : Held noFrames (PgOk s₀) c
    (fun w => TxWorld (acc.drop C) w ∧ PgWorld mp ptr s₀ m (acc.drop C) 0 w) anyRx
    (TxAt queueEntries c.txq.descriptors acc C C c.txq.virtualAddresses anyDesc) :=
  (h.held h.view (Nat.zero_le 1) fun _ hw => hw).mono anyRx_stable TxAt.stable (fun _ hr => hr)
    fun _ ht => ⟨C, anyDesc, ht⟩

theorem pgLoop_stable : Stable (pgContract s₀) (PgLoop mp ptr s₀ m) := by
  refine .cover ?_
  rintro s ⟨c, acc, C, h, hat⟩
  exact ⟨_, At.stable h.loop_held, hat, fun _ hat => ⟨c, acc, C, h, hat⟩⟩

theorem pgTrying_stable (hi : i < 1024) :
    Stable (pgContract s₀) (PgTrying mp ptr s₀ m i) := by
  refine .cover ?_
  rintro s ⟨c, acc, C, h, hat⟩
  exact ⟨_, At.stable ((h.caller hi).held c.txq), hat, fun _ hat => ⟨c, acc, C, h, hat⟩⟩

theorem pktgenTry_safe (hi : i < 1024) {s : Dev} (hs : PgTrying mp ptr s₀ m i s) :
    Safe exec (pgContract s₀) (pktgenTry (mp.entryAddr i) ()) (fun res s => match res with
      | .inl _ => PgTrying mp ptr s₀ m i s
      | .inr _ => PgLoop mp ptr s₀ m s) s := by
  obtain ⟨c, acc, C, h, hat⟩ := hs
  unfold pktgenTry
  refine Safe.bind (p := ixgbeTxPacket (mp.entryAddr i)) ((ixgbeTxPacket_safe (h.caller hi) hat).mono
    fun res s hres => ?_)
  obtain ⟨q, C', -, hle, hnum, hdesc, hclean, hres⟩ := hres
  rcases hres with ⟨rfl, -, hindex, hat⟩ | ⟨rfl, hindex, hat⟩
  · have htrying : PgTrying mp ptr s₀ m i s :=
      ⟨txState c q, acc, C', ⟨h.toPgBuffers, hnum, hclean, hindex, h.view⟩, by rw [← hdesc] at hat; exact hat⟩
    rw [if_pos rfl]
    refine Safe.ret (pgTrying_stable hi) ?_ htrying
    exact fun s hs => hs
  · obtain ⟨w, r, t, rfl, hw, hr, ht⟩ := hat
    rw [← hdesc] at ht
    have hloop : PgLoop mp ptr s₀ m ((txState c q).put w r t) := by
      refine ⟨txState c q, acc ++ [Dev.entry m (mp.entryAddr i)], C',
        ⟨h.append hi, hnum, hclean, by rw [List.length_append]; exact hindex, h.view⟩, w, r, t, rfl, ?_, hr, ht⟩
      rw [List.drop_append_of_le_length hle]
      exact hw.append hi
    rw [if_neg (by decide)]
    refine Safe.ret pgLoop_stable ?_ hloop
    exact fun s hs => hs

theorem pktgenSend_safe {s : Dev} (hs : PgLoop mp ptr s₀ m s) :
    Safe exec (pgContract s₀) (pktgenSend ptr ()) (fun res s => match res with
      | .inl _ => PgLoop mp ptr s₀ m s
      | .inr _ => False) s := by
  unfold pktgenSend
  refine Safe.step pgLoop_stable ?_ hs
  rintro _ ⟨c, acc, C, h, w, r, t, rfl, ⟨hworld, hw⟩, hr, ht⟩
  -- the ring holds at most 1023 packets, so a buffer is left
  have hroom : (acc.drop C).length < 1024 := by
    rw [List.length_drop]
    have hlap := ht.order.2
    rw [show queueEntries.num = 1024 from rfl] at hlap
    omega
  obtain ⟨i, hi, hfree, hsome, hout, hw'⟩ := hw.alloc h.mempool hroom
  obtain ⟨rest, -, hpool⟩ := hw.pool
  have hinHand : PgInHand mp ptr s₀ m i (acc.drop C) (pktBufAlloc w ptr).2 := by
    refine ⟨⟨hworld.alloc hpool.mem_live, hout, fun hin => ?_⟩, hw'⟩
    obtain ⟨e, he, hbuf⟩ := List.mem_map.mp hin
    exact hfree (hbuf ▸ hworld.out e he)
  refine ⟨_, _, rfl, trivial, ?_⟩
  change Safe exec _ ((Prog.ret (pktBufAlloc w ptr).1).bind _) _ (c.put (pktBufAlloc w ptr).2 r t)
  rw [hsome]
  refine Safe.loop (J := fun _ => PgTrying mp ptr s₀ m i) (fun _ => pgTrying_stable hi)
    (fun _ _ _ => trivial) ?_ ⟨c, acc, C, h, _, r, t, rfl, hinHand, hr, ht⟩
  rintro _ s hs
  refine (pktgenTry_safe hi hs).mono fun res s hres => ?_
  cases res with
  | inl u => exact hres
  | inr u =>
    refine Safe.ret pgLoop_stable ?_ hres
    exact fun s hs => hs

theorem pktgenMain_safe {s : Dev} (h : PgInit s) :
    Safe exec (pgContract s) pktgenMain (fun _ _ => False) s := by
  unfold pktgenMain
  refine Safe.bind (p := initMempool) ((initMempool_safe h ⟨s.w, s.rx, s.tx, rfl, rfl, trivial, h.ring⟩).mono
    fun ptr s₁ hs₁ => ?_)
  obtain ⟨mp, hmp, app, hbusy, hat⟩ := hs₁
  have hheld : Held noFrames (PgOk s) { s with app := app } (PgReturning mp ptr s numBufs) anyRx
      (TxAt queueEntries s.txq.descriptors [] 0 0 s.txq.virtualAddresses anyDesc) :=
    pgHeld_empty (fun _ hw => hw.pool.ok) hbusy
  refine Safe.bind (p := startTxQueue) ((startTxQueue_safe (c := { s with app := app }) h.num hheld hat).mono
    fun _ s₂ hs₂ => ?_)
  refine At.step hheld (fun w r t hw hr ht => ⟨_, _, rfl, ?_⟩) hs₂
  refine Safe.loop (J := fun _ => PgLoop mp ptr s w.mem) (fun _ => pgLoop_stable) (fun _ _ _ => trivial) ?_
    ⟨Dev.idle { s with app := app }, [], 0, ⟨⟨hmp, hw.filled, by simp⟩, h.num, h.clean, h.index, rfl⟩,
      w, r, t, rfl, ⟨.nil hw.pool.pools, hw.world⟩, hr, ht⟩
  rintro _ s hs
  refine (pktgenSend_safe hs).mono fun res s hres => ?_
  cases res with
  | inl u => exact hres
  | inr u => exact hres.elim

end

/-! ## The frames -/

/-- Every frame fetched so far is the packet. -/
def PgFrames (t : TxRing) : Prop :=
  ∀ f ∈ t.fetched, f.desc.dtalen = pktSize ∧ f.desc.paylen = pktSize ∧ f.frame = List.replicate pktSize 0xFF

/-- The NIC sees the first huge page of the pool where `memory_allocate_dma` says that it is. -/
def PgVisible (s₀ : Dev) : Prop :=
  ∀ ptr dma rest, s₀.app.supply = (ptr, dma) :: rest →
    dma.phy + 2 ^ 21 ≤ 2 ^ 64 ∧ ∀ k < 2 ^ 21, s₀.dmaView (dma.phy + k) = dma.virt + k

theorem evals_pgDma {t : PageTable} {h : Nat} {dma : DmaMemory} (hentry : t.entry (512 * h) ≠ 0)
    (hdma : (⟨2 ^ 21 * h, pfn (t.entry (512 * h)) * 4096 % 2 ^ 64⟩ : DmaMemory) = dma) :
    Prog.Evals execKernel (memoryAllocateDma (numBufs * 2048)) ⟨t.entry, [h]⟩ (.done dma ⟨t.entry, []⟩) := by
  rw [← hdma]
  exact evals_memoryAllocateDma (k := ⟨t.entry, [h]⟩) rfl (show numBufs * 2048 ≠ 0 by decide) hentry

/-- The NIC sees it there if the pagemap shows the frame of that page. -/
theorem PgVisible.of_dma {t : PageTable} {h ptr : Nat} {dma : DmaMemory} {k : Kernel} {rest : List (Nat × DmaMemory)}
    {s₀ : Dev} (hdma : Prog.Evals execKernel (memoryAllocateDma (numBufs * 2048)) ⟨t.entry, [h]⟩ (.done dma k))
    (hsup : s₀.app.supply = (ptr, dma) :: rest) (hshown : pfn (t.entry (512 * h)) = t.frame (512 * h))
    (hview : ∀ y < 2 ^ 21, s₀.dmaView (t.phys (2 ^ 21 * h + y)) = 2 ^ 21 * h + y) : PgVisible s₀ := by
  have hentry : t.entry (512 * h) ≠ 0 := fun hentry =>
    nomatch hdma.unique (evals_memoryAllocateDma_untranslated (k := ⟨t.entry, [h]⟩) rfl
      (show numBufs * 2048 ≠ 0 by decide) hentry)
  have hle : t.frame (512 * h) * 4096 + 2 ^ 21 ≤ 2 ^ 64 := by
    have hfits := t.fits (512 * h + 511)
    rw [t.huge h 511 (by decide)] at hfits
    exact Nat.le_trans (Nat.le_of_eq (by ring)) hfits
  cases hdma.unique (evals_pgDma hentry rfl)
  intro ptr' dma' rest' hsup'
  rw [hsup] at hsup'
  cases hsup'
  dsimp only
  rw [hshown, Nat.mod_eq_of_lt (by omega)]
  refine ⟨hle, fun y hy => ?_⟩
  rw [← t.phys_huge h hy]
  exact hview y hy

section
variable {s₀ s s' : Dev} {m : Mem} {e : TxEntry} {d : TxDesc}

theorem PgSent.reads (h : PgSent s₀ m e) (hd : d.Sends e) : ∃ ptr dma rest, s₀.app.supply = (ptr, dma) :: rest ∧
    ∃ i < 1024, Template m (dma.virt + i * 2048) ∧ d.dtalen = pktSize ∧ d.paylen = pktSize ∧
      d.bufferAddr = (dma.phy + (i * 2048 + PktBuf.dataOffset)) % 2 ^ 64 := by
  obtain ⟨ptr, dma, rest, hsup, i, hi, hbuf, hphy, hsize, htemplate⟩ := h
  refine ⟨ptr, dma, rest, hsup, i, hi, hbuf ▸ htemplate, hd.dtalen.trans hsize, hd.paylen.trans hsize, ?_⟩
  rw [hd.bufferAddr, hphy, Nat.mod_add_mod, Nat.add_assoc]

theorem dmaRead_eq_replicate {view : Nat → Nat} {p n : Nat} {v : UInt8} (h : ∀ j < n, m (view (p + j)) = v) :
    dmaRead view m p n = List.replicate n v := by
  rw [dmaRead, List.eq_replicate_iff]
  refine ⟨by rw [List.length_map, List.length_range], fun x hx => ?_⟩
  obtain ⟨j, hj, rfl⟩ := List.mem_map.mp hx
  exact h j (List.mem_range.mp hj)

theorem PgSent.frame (h : PgSent s₀ m e) (hd : d.Sends e) (hvisible : PgVisible s₀) :
    dmaRead s₀.dmaView m d.bufferAddr d.dtalen = List.replicate pktSize 0xFF := by
  obtain ⟨ptr, dma, rest, hsup, i, hi, htemplate, hdtalen, -, haddr⟩ := h.reads hd
  obtain ⟨hle, hview⟩ := hvisible ptr dma rest hsup
  rw [PktBuf.dataOffset] at haddr
  rw [Nat.mod_eq_of_lt (by omega)] at haddr
  rw [hdtalen, haddr]
  refine dmaRead_eq_replicate fun j hj => ?_
  rw [← htemplate.data j hj]
  rw [pktSize] at hj
  rw [PktBuf.dataOffset, Nat.add_assoc, hview _ (by omega), Nat.add_assoc, Nat.add_assoc, Nat.add_assoc]

theorem TxHistory.fetch {n : RingSize} {t t' : TxRing} {dma : Nat → Nat → List UInt8} (h : TxHistory n t')
    (ht : t.fetch dma = some t') : ∃ f, t'.fetched = t.fetched ++ [f] ∧
      f.frame = dma f.desc.bufferAddr f.desc.dtalen ∧ ∃ e ∈ t.accepted, f.desc.Sends e := by
  obtain ⟨-, rfl⟩ := TxRing.fetch_eq ht
  refine ⟨_, rfl, rfl, ?_⟩
  have hle := h.fetched_le
  rw [List.length_append, List.length_singleton] at hle
  have hlt : t.fetched.length < t.accepted.length := hle
  exact ⟨_, List.getElem_mem hlt, (h.fetched t.fetched.length _ _ (List.getElem?_eq_getElem hlt)
    List.getElem?_concat_length).2⟩

theorem PgFrames.nic {a : NicAct} (hvisible : PgVisible s₀) (h : PgFrames s.tx) (hok : PgOk s₀ s) (hok' : PgOk s₀ s')
    (ha : nicStep a s = some s') : PgFrames s'.tx := by
  obtain ⟨r, t, rfl, -, ht⟩ := nicStep_moves ha
  change PgFrames t
  have hhistory : TxHistory queueEntries t := hok'.history
  cases ht with
  | rest => exact h
  | txdctl v => exact h
  | complete k wb ht =>
    obtain ⟨f, -, -, -, rfl⟩ := TxRing.complete_eq ht
    exact h
  | fetch ht =>
    obtain ⟨f, hfetched, hframe, e, he, hsends⟩ := hhistory.fetch ht
    have hsent := hok.accepted e he
    unfold PgFrames
    rw [hfetched]
    intro g hg
    rcases List.mem_append.mp hg with hg | hg
    · exact h g hg
    · rw [List.mem_singleton.mp hg]
      obtain ⟨-, -, -, -, -, -, -, hdtalen, hpaylen, -⟩ := hsent.reads hsends
      refine ⟨hdtalen, hpaylen, ?_⟩
      rw [hframe, Dev.dma, hok.view]
      exact hsent.frame hsends hvisible

/-- **The packet generator is safe.** In every state of every run: it has not used a null pointer, so every allocation
has given a buffer; no buffer that could be allocated next is posted and not yet reported; and once it sends, all 2048
buffers hold the template, and each is free, in flight, or the one in hand. If the NIC sees the first huge page of the
pool where `memory_allocate_dma` says that it is, every frame it has fetched is the template of 60 bytes. -/
theorem pktgen_safe {s : Dev} (h : PgInit s) (ts : List (Tick NicAct)) {c : Conf Dev Op Ret Unit}
    (hrun : Conf.run exec nicStep ts ⟨s, pktgenMain⟩ = some c) :
    (∀ msg, c.prog ≠ .abort msg) ∧
    (∀ ptr ∈ c.state.w.live, ∀ b, (pktBufAlloc c.state.w ptr).1 = some b → ∀ k e,
      c.state.tx.accepted[k]? = some e → k ∉ c.state.tx.completed → e.buf ≠ b) ∧
    PgOk s c.state ∧ (PgVisible s → PgFrames c.state.tx) := by
  have hsafe := Safe.run (fun _ _ _ => nicRely_of_nicStep) (pktgenMain_safe h) hrun
  have hok : PgOk s c.state := hsafe.inv
  refine ⟨fun msg hmsg => ?_, fun ptr hptr b hb k e he hk => ?_, hok, fun hvisible => ?_⟩
  · rw [hmsg] at hsafe
    exact hsafe.aborts
  · -- a packet that has not been reported has not been freed, so its buffer is out
    have htop : (c.state.w.pools ptr).freeStackTop ≠ 0 := by
      rw [Ne, ← pktBufAlloc_eq_none_iff, hb]
      exact Option.some_ne_none b
    obtain ⟨i, -, hfree, hsome, -, -⟩ := pktBufAlloc_ok hok.world.pools hptr htop
    rw [hb, Option.some.injEq] at hsome
    have hge : c.state.tx.reclaimed.length ≤ k := by
      by_contra hlt
      exact hk (hok.history.reclaimed_completed k (by omega))
    have hin : e ∈ c.state.tx.inFlight := by
      refine List.mem_of_getElem? (i := k - c.state.tx.reclaimed.length) ?_
      rw [TxRing.inFlight, List.getElem?_drop, Nat.add_sub_cancel' hge, he]
    rintro rfl
    exact hfree (hsome ▸ hok.world.out e hin)
  · refine Safe.run_keeps (fun _ _ _ => nicRely_of_nicStep) (R := fun s => PgFrames s.tx) ?_ ?_ ts
      (pktgenMain_safe h) hrun ?_
    · intro o s r s' _ _ he hR
      unfold PgFrames
      rw [(exec_tx he).1]
      exact hR
    · exact fun a s s' hok hok' ha hR => hR.nic hvisible hok hok' ha
    · change PgFrames s.tx
      unfold PgFrames
      rw [h.fetched]
      exact fun f hf => absurd hf List.not_mem_nil

end

/-- The generator with memory as `gapTable` has it: the two huge pages of the pool are not next to each other. -/
def pktgenDev : Dev :=
  { bootDev 1024 [(64, ⟨0x200000, 0x200000⟩)] [] with
    dmaView := fun p => if p < 0x400000 then p else p - 0x200000 }

theorem pktgenDev_init : PgInit pktgenDev := by
  refine ⟨⟨rfl, rfl, rfl, rfl, rfl, rfl, rfl, rfl, rfl, rfl, rfl⟩, rfl, rfl, rfl, ?_⟩
  rintro ptr dma rest ⟨⟩
  decide

theorem pktgenDev_visible : PgVisible pktgenDev := by
  have haddr : (⟨2 ^ 21 * 1, pfn (gapTable.entry (512 * 1)) * 4096 % 2 ^ 64⟩ : DmaMemory) = ⟨0x200000, 0x200000⟩ := by
    rw [DmaMemory.mk.injEq]
    decide +kernel
  refine PgVisible.of_dma (evals_pgDma (by decide +kernel) haddr) rfl (by decide +kernel) fun y hy => ?_
  rw [gapTable.phys_huge 1 hy, show gapTable.frame (512 * 1) = 512 by decide +kernel]
  exact if_pos (by omega)

/-- The first buffers are taken and filled. -/
theorem pktgen_safe_firstBuffers : ∃ c, Conf.run exec nicStep (List.replicate 250 .prog)
      ⟨pktgenDev, pktgenMain⟩ = some c ∧
    c.state.w.out = [6287360, 6289408] ∧ (∀ msg, c.prog ≠ .abort msg) ∧ PgFrames c.state.tx := by
  obtain ⟨c, hrun, hout⟩ := Option.map_eq_some_iff.mp (show
    (Conf.run exec nicStep (List.replicate 250 .prog) ⟨pktgenDev, pktgenMain⟩).map (·.state.w.out) =
      some [6287360, 6289408] by decide +kernel)
  have h := pktgen_safe pktgenDev_init _ hrun
  exact ⟨c, hrun, hout, h.1, h.2.2.2 pktgenDev_visible⟩

/-! ## Hidden frame numbers -/

section
variable {s : Dev} {ptr : Nat}

theorem evals_pktgenSend {b : Nat} (hb : (pktBufAlloc s.w ptr).1 = some b) (hnum : s.txq.numEntries = 1024)
    (hclean : s.txq.cleanIndex = 0) (hindex : s.txq.txIndex = 0) :
    Prog.Evals exec (pktgenSend ptr ()) s (.done (.inl ())
      (txPosted { s with w := (pktBufAlloc s.w ptr).2, txq := s.txq.set .cleanIndex 0 } 0 b)) := by
  have hnone : Prog.Evals exec (txClean s.txq.txIndex s.txq.cleanIndex) { s with w := (pktBufAlloc s.w ptr).2 }
      (.done (.inr 0) { s with w := (pktBufAlloc s.w ptr).2 }) := by
    rw [hclean, hindex, txClean, if_neg (not_not_intro rfl)]
    exact .ret _ _
  have hsend := evals_ixgbeTxPacket (s := { s with w := (pktBufAlloc s.w ptr).2 }) b hnone (by
    change 0 ≠ incAndWrapRing s.txq.txIndex s.txq.numEntries
    rw [hnum, hindex]
    decide)
  rw [hindex] at hsend
  unfold pktgenSend
  refine .op rfl ?_
  change Prog.Evals exec ((Prog.ret (pktBufAlloc s.w ptr).1).bind _) _ _
  rw [hb]
  refine .loop_exit (b := ()) ?_ (.ret _ _)
  exact Prog.Evals.bind (p := ixgbeTxPacket b) hsend (.ret _ _)

theorem PgInit.sends (h : PgInit s) (hsup : s.app.supply ≠ []) :
    ∃ ts c, Conf.run exec nicStep ts ⟨s, pktgenMain⟩ = some c ∧ c.state.tx.tdh ≠ c.state.tx.tdt := by
  obtain ⟨ptr, s₁, hinit, hunsent, mp, hmp, app, -, w, r, t, hs₁, hw, -, -⟩ := (initMempool_ends hsup).and_safe
    (initMempool_safe h ⟨s.w, s.rx, s.tx, rfl, rfl, trivial, h.ring⟩)
  have hnum : s₁.txq.numEntries = 1024 := by rw [hunsent.txq, h.num]; rfl
  have hindex : s₁.txq.txIndex = 0 := by rw [hunsent.txq, h.index]
  obtain ⟨i, -, -, hsome, -, -⟩ := hw.world.alloc hmp (by decide)
  rw [show w = s₁.w by rw [hs₁]; rfl] at hsome
  obtain ⟨m₁, hm₁⟩ := Conf.run_of_evals exec nicStep (fun ptr => startTxQueue.bind fun _ =>
    (Prog.access Op.idle).bind fun _ => Prog.iterate (pktgenSend ptr) ()) hinit
  obtain ⟨m₂, hm₂⟩ := Conf.run_of_evals exec nicStep (fun _ => (Prog.access Op.idle).bind fun _ =>
    Prog.iterate (pktgenSend ptr) ()) (evals_startTxQueue hnum)
  obtain ⟨m₃, hm₃⟩ := Conf.run_loop_next exec nicStep .ret (evals_pktgenSend (s := (txEnabled s₁).idle) hsome hnum
    (by rw [← h.clean, ← hunsent.txq]; rfl) hindex)
  have hrun : Conf.run exec nicStep (List.replicate m₁ .prog ++ (List.replicate m₂ .prog ++ .prog ::
      List.replicate m₃ .prog)) ⟨s, pktgenMain⟩ =
      Conf.run exec nicStep (List.replicate m₃ .prog) ⟨(txEnabled s₁).idle, .loop (pktgenSend ptr) () .ret⟩ := by
    rw [Conf.run_append, show Conf.run exec nicStep (List.replicate m₁ .prog) ⟨s, pktgenMain⟩ = _ from hm₁,
      Option.bind_some, Conf.run_append, Conf.after, hm₂, Option.bind_some]
    rfl
  refine ⟨_, _, hrun.trans hm₃, ?_⟩
  change 0 ≠ incAndWrapRing s₁.txq.txIndex s₁.txq.numEntries % 2 ^ 16
  rw [hnum, hindex]
  decide

end

/-- The generator when the pagemap is `hiddenTable`. Memory is in a row, and the NIC sees it where it is. -/
def hiddenDev : Dev := bootDev 1024 [(64, ⟨0x200000, 0⟩)] []

theorem hiddenDev_init : PgInit hiddenDev := by
  refine ⟨⟨rfl, rfl, rfl, rfl, rfl, rfl, rfl, rfl, rfl, rfl, rfl⟩, rfl, rfl, rfl, ?_⟩
  rintro ptr dma rest ⟨⟩
  decide

theorem hiddenDev_frame {m : Mem} {e : TxEntry} {d : TxDesc} (hm : PgOutside hiddenDev m) (h : PgSent hiddenDev m e)
    (hd : d.Sends e) : dmaRead hiddenDev.dmaView m d.bufferAddr d.dtalen = List.replicate pktSize 0 := by
  obtain ⟨ptr, dma, rest, hsup, i, hi, -, hdtalen, -, haddr⟩ := h.reads hd
  have houtside := hm ptr dma rest hsup
  cases hsup
  rw [PktBuf.dataOffset, Nat.zero_add, Nat.mod_eq_of_lt (by omega)] at haddr
  rw [hdtalen, haddr]
  refine dmaRead_eq_replicate fun j hj => houtside _ (Or.inl ?_)
  rw [pktSize] at hj
  change i * 2048 + 64 + j < 0x200000
  omega

/-- **The generator sends other memory.** Where the pagemap shows no frame numbers, `memory_allocate_dma` returns
physical address 0, and the first frame that the NIC fetches is 60 zero bytes. -/
theorem pktgen_counterexample :
    Prog.Evals execKernel (memoryAllocateDma (numBufs * 2048)) ⟨hiddenTable.entry, [1]⟩
      (.done ⟨0x200000, 0⟩ ⟨hiddenTable.entry, []⟩) ∧
    hiddenDev.app.supply = [(64, ⟨0x200000, 0⟩)] ∧ (∀ v < 2 ^ 61, hiddenDev.dmaView (hiddenTable.phys v) = v) ∧
    ∃ ts c, Conf.run exec nicStep ts ⟨hiddenDev, pktgenMain⟩ = some c ∧
      ∃ f ∈ c.state.tx.fetched, f.frame = List.replicate pktSize 0 := by
  refine ⟨?_, rfl, fun v hv => ?_, ?_⟩
  · have haddr : (⟨2 ^ 21 * 1, pfn (hiddenTable.entry (512 * 1)) * 4096 % 2 ^ 64⟩ : DmaMemory) = ⟨0x200000, 0⟩ := by
      rw [DmaMemory.mk.injEq]
      decide +kernel
    exact evals_pgDma (by decide +kernel) haddr
  · change (512 * (v / 4096 / 512 % 2 ^ 40) + v / 4096 % 512) * 4096 + v % 4096 = v
    omega
  · obtain ⟨ts, c, hrun, hne⟩ := hiddenDev_init.sends (List.cons_ne_nil _ _)
    obtain ⟨t, ht⟩ : ∃ t, c.state.tx.fetch c.state.dma = some t := ⟨_, if_pos hne⟩
    have hrun' : Conf.run exec nicStep (ts ++ [.env .fetch]) ⟨hiddenDev, pktgenMain⟩ =
        some ⟨{ c.state with tx := t }, c.prog⟩ := by
      rw [Conf.run_append, hrun, Option.bind_some]
      simp only [Conf.run, Conf.step, nicStep, ← Dev.dma.eq_1, ht, Option.map_some, Option.bind_some]
    have hok : PgOk hiddenDev c.state :=
      (Safe.run (fun _ _ _ => nicRely_of_nicStep) (pktgenMain_safe hiddenDev_init) hrun).inv
    have hok' : PgOk hiddenDev { c.state with tx := t } :=
      (Safe.run (fun _ _ _ => nicRely_of_nicStep) (pktgenMain_safe hiddenDev_init) hrun').inv
    obtain ⟨f, hfetched, hframe, e, he, hsends⟩ := hok'.history.fetch ht
    refine ⟨_, _, hrun', f, ?_, ?_⟩
    · rw [hfetched]
      exact List.mem_append_right _ (List.mem_singleton_self f)
    · rw [hframe, Dev.dma, hok.view]
      exact hiddenDev_frame hok.outside (hok.accepted e he) hsends

end Ixy
