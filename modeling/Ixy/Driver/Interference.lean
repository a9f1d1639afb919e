import Ixy.Driver.Device
import Ixy.Lib.Safe

/-!
# Driver code under interference by the NIC

Between two accesses of the driver the NIC moves on the two rings, and writes received frames to memory; the rest
of the state stays what the driver left. `At c W Rx Tx` says just that: the state is `c` but for the world, which
satisfies `W`, and the rings, which satisfy `Rx` and `Tx`. Which contents of memory the NIC may leave is a parameter
`M` of the contract; where frames do not matter it is `noFrames`. `Held` is what makes `At` stable, and `At.step` is
the rule for one access.
-/

namespace Ixy

open Lib

/-- A move of the NIC on the receive ring, or none. -/
inductive RxRing.Nic (r : RxRing) : RxRing → Prop
  | rest : RxRing.Nic r r
  | rxdctl (v : Nat) : RxRing.Nic r { r with rxdctl := v }
  | receive (wb : RxDesc) {r' : RxRing} (h : r.receive wb = some r') : RxRing.Nic r r'

/-- A move of the NIC on the transmit ring, or none. -/
inductive TxRing.Nic (dma : Nat → Nat → List UInt8) (t : TxRing) : TxRing → Prop
  | rest : TxRing.Nic dma t t
  | txdctl (v : Nat) : TxRing.Nic dma t { t with txdctl := v }
  | fetch {t' : TxRing} (h : t.fetch dma = some t') : TxRing.Nic dma t t'
  | complete (k : Nat) (wb : TxDesc) {t' : TxRing} (h : t.complete k wb = some t') : TxRing.Nic dma t t'

/-- The frames as the NIC finds them in memory. -/
def Dev.dma (s : Dev) : Nat → Nat → List UInt8 := dmaRead s.dmaView s.w.mem

/-- A state whose world and rings have been replaced. -/
def Dev.put (c : Dev) (w : World) (r : RxRing) (t : TxRing) : Dev := { c with w := w, rx := r, tx := t }

/-- Only its rings have been replaced. -/
def Dev.rings (c : Dev) (r : RxRing) (t : TxRing) : Dev := c.put c.w r t

/-- What can happen to the state between two accesses of the driver. -/
def nicRely (M : Dev → Mem → Prop) (s s' : Dev) : Prop :=
  ∃ m r t, s' = s.put { s.w with mem := m } r t ∧ (m = s.w.mem ∨ M s m) ∧ s.rx.Nic r ∧ s.tx.Nic s.dma t

/-- Memory is left alone. -/
def noFrames (_ : Dev) (_ : Mem) : Prop := False

theorem nicStep_moves {a : NicAct} {s s' : Dev} (h : nicStep a s = some s') :
    ∃ r t, s' = s.put s.w r t ∧ s.rx.Nic r ∧ s.tx.Nic s.dma t := by
  cases a with
  | rxdctl v =>
    cases h
    exact ⟨_, s.tx, rfl, .rxdctl v, .rest⟩
  | txdctl v =>
    cases h
    exact ⟨s.rx, _, rfl, .rest, .txdctl v⟩
  | receive wb =>
    obtain ⟨r, hr, rfl⟩ := Option.map_eq_some_iff.mp h
    exact ⟨r, s.tx, rfl, .receive wb hr, .rest⟩
  | fetch =>
    obtain ⟨t, ht, rfl⟩ := Option.map_eq_some_iff.mp h
    exact ⟨s.rx, t, rfl, .rest, .fetch ht⟩
  | complete k wb =>
    obtain ⟨t, ht, rfl⟩ := Option.map_eq_some_iff.mp h
    exact ⟨s.rx, t, rfl, .rest, .complete k wb ht⟩

theorem nicRely_of_nicStep {M : Dev → Mem → Prop} {a : NicAct} {s s' : Dev} (h : nicStep a s = some s') :
    nicRely M s s' := by
  obtain ⟨r, t, rfl, hr, ht⟩ := nicStep_moves h
  exact ⟨s.w.mem, r, t, rfl, Or.inl rfl, hr, ht⟩

/-- The contract of driver code: the NIC interferes, `inv` has to hold throughout. -/
def driverContract (M : Dev → Mem → Prop) (inv : Dev → Prop) (aborts : String → Dev → Prop) : Contract Dev where
  rely := nicRely M
  guar := fun _ _ => True
  inv := inv
  aborts := aborts

/-- The state is `c`, with a world in `W` and rings in `Rx` and `Tx`. -/
def At (c : Dev) (W : World → Prop) (Rx : RxRing → Prop) (Tx : TxRing → Prop) (s : Dev) : Prop :=
  ∃ w r t, s = c.put w r t ∧ W w ∧ Rx r ∧ Tx t

/-- A predicate of the receive ring that the NIC keeps. -/
def RxStable (Rx : RxRing → Prop) : Prop := ∀ r r', Rx r → r.Nic r' → Rx r'

/-- A predicate of the transmit ring that the NIC keeps, whatever it reads from memory. -/
def TxStable (Tx : TxRing → Prop) : Prop := ∀ dma t t', Tx t → t.Nic dma t' → Tx t'

/-- The NIC keeps the three predicates, and they imply the invariant. -/
structure Held (M : Dev → Mem → Prop) (inv : Dev → Prop) (c : Dev) (W : World → Prop) (Rx : RxRing → Prop)
    (Tx : TxRing → Prop) : Prop where
  mem : ∀ w r t m, W w → Rx r → Tx t → M (c.put w r t) m → W { w with mem := m }
  rx : RxStable Rx
  tx : TxStable Tx
  inv : ∀ w r t, W w → Rx r → Tx t → inv (c.put w r t)

section
variable {M : Dev → Mem → Prop} {inv : Dev → Prop} {aborts : String → Dev → Prop} {c : Dev} {W : World → Prop}
variable {Rx Rx' : RxRing → Prop} {Tx Tx' : TxRing → Prop}

theorem Held.mono (h : Held M inv c W Rx Tx) (hrx : RxStable Rx') (htx : TxStable Tx') (hRx : ∀ r, Rx' r → Rx r)
    (hTx : ∀ t, Tx' t → Tx t) : Held M inv c W Rx' Tx' where
  mem w r t m hw hr ht := h.mem w r t m hw (hRx r hr) (hTx t ht)
  rx := hrx
  tx := htx
  inv w r t hw hr ht := h.inv w r t hw (hRx r hr) (hTx t ht)

theorem Held.and {Y : World → Prop} (h : Held M inv c W Rx Tx) (hY : ∀ w m, Y w → Y { w with mem := m }) :
    Held M inv c (fun w => W w ∧ Y w) Rx Tx where
  mem w r t m hw hr ht hm := ⟨h.mem w r t m hw.1 hr ht hm, hY w m hw.2⟩
  rx := h.rx
  tx := h.tx
  inv w r t hw hr ht := h.inv w r t hw.1 hr ht

/-- Where no frame is written, memory need not be considered. -/
theorem Held.quiet (hrx : RxStable Rx) (htx : TxStable Tx) (hinv : ∀ w r t, W w → Rx r → Tx t → inv (c.put w r t)) :
    Held noFrames inv c W Rx Tx :=
  ⟨fun _ _ _ _ _ _ _ h => h.elim, hrx, htx, hinv⟩

/-- Nor need it where no frame can arrive, because the head of the receive ring is at the tail. -/
theorem Held.still (harrives : ∀ s m, M s m → s.rx.rdh ≠ s.rx.rdt) (hstill : ∀ r, Rx r → r.rdh = r.rdt)
    (hrx : RxStable Rx) (htx : TxStable Tx) (hinv : ∀ r t, Rx r → Tx t → inv (c.rings r t)) :
    Held M inv c (· = c.w) Rx Tx := by
  refine ⟨fun w r t m _ hr _ hm => absurd (hstill r hr) (harrives _ m hm), hrx, htx, ?_⟩
  rintro _ r t rfl hr ht
  exact hinv r t hr ht

theorem At.rely (h : Held M inv c W Rx Tx) {s s' : Dev} (hs : At c W Rx Tx s) (hrely : nicRely M s s') :
    At c W Rx Tx s' := by
  obtain ⟨w, r, t, rfl, hw, hr, ht⟩ := hs
  obtain ⟨m, r', t', rfl, hm, hr', ht'⟩ := hrely
  refine ⟨{ w with mem := m }, r', t', rfl, ?_, h.rx _ _ hr hr', h.tx _ _ _ ht ht'⟩
  rcases hm with rfl | hm
  · exact hw
  · exact h.mem w r t m hw hr ht hm

theorem At.holds (h : Held M inv c W Rx Tx) {s : Dev} (hs : At c W Rx Tx s) : inv s := by
  obtain ⟨w, r, t, rfl, hw, hr, ht⟩ := hs
  exact h.inv w r t hw hr ht

theorem At.stable (h : Held M inv c W Rx Tx) : Stable (driverContract M inv aborts) (At c W Rx Tx) :=
  ⟨fun _ _ hs hrely => hs.rely h hrely, fun _ hs => hs.holds h⟩

theorem At.step {α : Type} {o : Op} {k : Ret o → Code α} {Q : α → Dev → Prop} (h : Held M inv c W Rx Tx)
    (hstep : ∀ w r t, W w → Rx r → Tx t → ∃ a s', exec o (c.put w r t) = some (a, s') ∧
      Safe exec (driverContract M inv aborts) (k a) Q s')
    {s : Dev} (hs : At c W Rx Tx s) : Safe exec (driverContract M inv aborts) (.op o k) Q s := by
  refine Safe.step (At.stable h) ?_ hs
  rintro _ ⟨w, r, t, rfl, hw, hr, ht⟩
  obtain ⟨a, s', he, hk⟩ := hstep w r t hw hr ht
  exact ⟨a, s', he, trivial, hk⟩

theorem At.ret {α : Type} {a : α} {Q : α → Dev → Prop} (h : Held M inv c W Rx Tx)
    (hQ : ∀ w r t, W w → Rx r → Tx t → Q a (c.put w r t)) {s : Dev} (hs : At c W Rx Tx s) :
    Safe exec (driverContract M inv aborts) (.ret a) Q s := by
  refine Safe.ret (At.stable h) ?_ hs
  rintro _ ⟨w, r, t, rfl, hw, hr, ht⟩
  exact hQ w r t hw hr ht

end

end Ixy
