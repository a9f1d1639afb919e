import Ixy.Lib.Ends
import Ixy.Lib.Reach
import Ixy.Driver.Init

/-!
# The driver gets through its initialisation

`ixgbe_init` waits for the card in five places, and for the link in a sixth. The wait for the link has a limit, so it
ends on every card (`waitForLink_ends`). The others have none, and neither have the two messages that print the
registers as a string. The card decides whether the reset comes to an end (`Card.Ready`), and `ixgbeInit_returns`: on a
card that does at some time whatever it is asked to do, `ixgbe_init` returns with every queue configured and started.

`init_covers_iff`: whenever it returns, every queue was configured before it was enabled exactly if there are not more
transmit than receive queues.
-/

namespace Ixy

open Lib

section
variable {card : Card} {s : DriverState}

/-! ## Reading until the card answers as wanted -/

/-- Reads of `n` registers from `reg` on, `step` bytes apart. -/
def regReads (reg step n : Nat) : List Access := (List.range' reg n step).map .readReg

theorem regReads_zero (reg n : Nat) : regReads reg 0 n = List.replicate n (.readReg reg) := by
  rw [regReads, List.range'_0, List.map_replicate]

theorem regReads_succ (reg step n : Nat) :
    regReads reg step (n + 1) = [.readReg reg] ++ regReads (reg + step) step n := rfl

/-- The first `n` answers to such reads are not as wanted, and the next one is. -/
def Card.Answers (card : Card) (reg step : Nat) (wanted : Nat → Bool) (l : List Access) (n : Nat) : Prop :=
  (∀ m < n, wanted (card.reg (l ++ regReads reg step m) (reg + step * m) % 2 ^ 32) = false) ∧
    wanted (card.reg (l ++ regReads reg step n) (reg + step * n) % 2 ^ 32) = true

theorem Card.answers_zero {reg step : Nat} {wanted : Nat → Bool} {l : List Access} :
    card.Answers reg step wanted l 0 ↔ wanted (card.reg l reg % 2 ^ 32) = true := by
  simp [Card.Answers, regReads]

theorem Card.answers_succ {reg step n : Nat} {wanted : Nat → Bool} {l : List Access} :
    card.Answers reg step wanted l (n + 1) ↔ wanted (card.reg l reg % 2 ^ 32) = false ∧
      card.Answers (reg + step) step wanted (l ++ [.readReg reg]) n := by
  have hshift : ∀ m, card.reg (l ++ regReads reg step (m + 1)) (reg + step * (m + 1)) =
      card.reg (l ++ [.readReg reg] ++ regReads (reg + step) step m) (reg + step + step * m) := fun m => by
    rw [regReads_succ, List.append_assoc, Nat.mul_succ, Nat.add_comm (step * m), Nat.add_assoc]
  have hfirst : card.reg (l ++ regReads reg step 0) (reg + step * 0) = card.reg l reg := by
    rw [show regReads reg step 0 = [] from rfl, List.append_nil, Nat.mul_zero, Nat.add_zero]
  simp only [Card.Answers, hshift]
  constructor
  · rintro ⟨hbefore, hlast⟩
    refine ⟨by rw [← hfirst]; exact hbefore 0 (Nat.succ_pos n), fun m hm => ?_, hlast⟩
    rw [← hshift]
    exact hbefore (m + 1) (Nat.succ_lt_succ hm)
  · rintro ⟨hnot, hbefore, hlast⟩
    refine ⟨fun m hm => ?_, hlast⟩
    cases m with
    | zero =>
      rw [hfirst]
      exact hnot
    | succ m =>
      rw [hshift]
      exact hbefore m (Nat.lt_of_succ_lt_succ hm)

/-- The state after `n + 1` reads. -/
def DriverState.scanned (s : DriverState) (reg step n : Nat) : DriverState :=
  { s with log := s.log ++ regReads reg step (n + 1) }

theorem DriverState.scanned_succ (s : DriverState) (reg step n : Nat) :
    s.scanned reg step (n + 1) = (s.record (.readReg reg)).scanned (reg + step) step n := by
  rw [DriverState.scanned, DriverState.scanned, DriverState.record, regReads_succ, List.append_assoc]

theorem Driver.evals_scanRegs {reg step n : Nat} {wanted : Nat → Bool} (h : card.Answers reg step wanted s.log n) :
    Prog.Evals (execDriver card) (scanRegs step reg wanted) s (.done () (s.scanned reg step n)) := by
  induction n generalizing s reg with
  | zero =>
    refine .loop_exit (b := ()) (.op rfl ?_) (.ret () _)
    rw [Prog.ret_bind, if_pos (Card.answers_zero.mp h)]
    exact .ret _ _
  | succ n ih =>
    obtain ⟨hfirst, hrest⟩ := Card.answers_succ.mp h
    rw [DriverState.scanned_succ]
    refine .loop_next (y := reg + step) (.op rfl ?_) (ih hrest)
    rw [Prog.ret_bind, if_neg (ne_true_of_eq_false hfirst)]
    exact .ret _ _

theorem Driver.answers_of_evals {reg step : Nat} {wanted : Nat → Bool} {out : Prog.Outcome Unit DriverState}
    (h : Prog.Evals (execDriver card) (scanRegs step reg wanted) s out) :
    ∃ n, card.Answers reg step wanted s.log n ∧ out = .done () (s.scanned reg step n) := by
  obtain ⟨fuel, h⟩ := h
  -- a pass of the loop takes two steps
  induction fuel using Nat.strong_induction_on generalizing s reg with
  | _ fuel ih =>
  match fuel, h with
  | fuel + 2, h =>
  change Prog.eval _ fuel (Prog.bind (if wanted (card.reg s.log reg % 2 ^ 32) then _ else _) _) _ = _ at h
  cases hfirst : wanted (card.reg s.log reg % 2 ^ 32) with
  | false =>
    rw [hfirst, if_neg Bool.false_ne_true] at h
    obtain ⟨n, hn, rfl⟩ := ih fuel (by omega) (s := s.record (.readReg reg)) h
    exact ⟨n + 1, Card.answers_succ.mpr ⟨hfirst, hn⟩, by rw [DriverState.scanned_succ]⟩
  | true =>
    rw [hfirst, if_pos rfl] at h
    refine ⟨0, Card.answers_zero.mpr hfirst, ?_⟩
    match fuel, h with
    | fuel + 1, h => exact (Option.some.inj h).symm

theorem Driver.evals_scan_iff {α : Type} {reg step : Nat} {wanted : Nat → Bool} {f : Unit → DriverCode α}
    {out : Prog.Outcome α DriverState} :
    Prog.Evals (execDriver card) ((scanRegs step reg wanted).bind f) s out ↔
      ∃ n, card.Answers reg step wanted s.log n ∧
        Prog.Evals (execDriver card) (f ()) (s.scanned reg step n) out := by
  constructor
  · intro h
    rcases h.of_bind with ⟨_, _, hscan, h⟩ | ⟨msg, _, hscan, -⟩
    · obtain ⟨n, hn, hout⟩ := answers_of_evals hscan
      cases hout
      exact ⟨n, hn, h⟩
    · obtain ⟨_, -, hout⟩ := answers_of_evals hscan
      cases hout
  · rintro ⟨n, hn, h⟩
    exact (evals_scanRegs hn).bind h

/-! ## The reset -/

/-- The card comes to an answer as wanted, and then `next` is true of the history. -/
def Card.Gives (card : Card) (reg step : Nat) (wanted : Nat → Bool) (l : List Access) (next : List Access → Prop) :
    Prop :=
  ∃ n, card.Answers reg step wanted l n ∧ next (l ++ regReads reg step (n + 1))

/-- The card gets through its reset. A register with a zero byte ends each of the two messages; and the card resets
itself, reads its EEPROM and initialises DMA, at some time each. -/
def Card.Ready (card : Card) (l : List Access) : Prop :=
  card.Gives 0 4 Driver.hasZeroByte l fun l =>
  card.Gives Ixgbe.ctrl 0 (fun v => v &&& Ixgbe.ctrlRstMask == 0)
    (l ++ [.writeReg Ixgbe.eimc 0x7FFFFFFF] ++ [.writeReg Ixgbe.ctrl Ixgbe.ctrlRstMask]) fun l =>
  card.Gives 0 4 Driver.hasZeroByte (l ++ [.writeReg Ixgbe.eimc 0x7FFFFFFF]) fun l =>
  card.Gives Ixgbe.eec 0 (fun v => v &&& Ixgbe.eecArd == Ixgbe.eecArd) l fun l =>
  card.Gives Ixgbe.rdrxctl 0 (fun v => v &&& Ixgbe.rdrxctlDmaidone == Ixgbe.rdrxctlDmaidone) l fun _ => True

theorem Driver.evals_reset (h : card.Ready s.log) : ∃ s', Prog.Evals (execDriver card) reset s (.done () s') := by
  obtain ⟨p, hfirst, a, hctrl, q, hsecond, b, heec, c, hdma, -⟩ := h
  exact ⟨_, (evals_scanRegs hfirst).bind (.op rfl (.op rfl ((evals_scanRegs hctrl).bind (.op rfl
    ((evals_scanRegs hsecond).bind ((evals_scanRegs heec).bind (evals_scanRegs hdma)))))))⟩

theorem Driver.ready_of_evals_reset {out : Prog.Outcome Unit DriverState}
    (h : Prog.Evals (execDriver card) reset s out) : card.Ready s.log := by
  obtain ⟨p, hfirst, h⟩ := evals_scan_iff.mp h
  obtain ⟨_, _, he, h⟩ := h.of_op
  cases he
  obtain ⟨_, _, he, h⟩ := h.of_op
  cases he
  obtain ⟨a, hctrl, h⟩ := evals_scan_iff.mp h
  obtain ⟨_, _, he, h⟩ := h.of_op
  cases he
  obtain ⟨q, hsecond, h⟩ := evals_scan_iff.mp h
  obtain ⟨b, heec, h⟩ := evals_scan_iff.mp h
  obtain ⟨c, hdma, -⟩ := answers_of_evals h
  exact ⟨p, hfirst, a, hctrl, q, hsecond, b, heec, c, hdma, trivial⟩

/-! ## The link -/

/-- The speed that a value of LINKS stands for, 0 if there is no link. -/
def linkSpeed (links : Nat) : Nat :=
  if links &&& Ixgbe.linksUp = 0 then 0
  else if links &&& Ixgbe.linksSpeed82599 = Ixgbe.linksSpeed10082599 then 100
  else if links &&& Ixgbe.linksSpeed82599 = Ixgbe.linksSpeed1g82599 then 1000
  else if links &&& Ixgbe.linksSpeed82599 = Ixgbe.linksSpeed10g82599 then 10000
  else 0

/-- The speed that the card reports after a history. -/
def Card.speed (card : Card) (l : List Access) : Nat := linkSpeed (card.reg l Ixgbe.links % 2 ^ 32)

theorem Driver.evals_getLinkSpeed (card : Card) (s : DriverState) :
    Prog.Evals (execDriver card) ixgbeGetLinkSpeed s (.done (card.speed s.log) (s.record (.readReg Ixgbe.links))) := by
  refine .op rfl ?_
  rw [Prog.ret_bind, Card.speed, linkSpeed]
  split
  · exact .ret _ _
  split
  · exact .ret _ _
  split
  · exact .ret _ _
  split
  · exact .ret _ _
  · exact .ret _ _

theorem Driver.evals_pollLink (card : Card) (k : Nat) : ∀ s : DriverState, ∃ n ≤ k,
    (∀ m < n, card.speed (s.log ++ regReads Ixgbe.links 0 m) = 0) ∧
    (n = k ∨ card.speed (s.log ++ regReads Ixgbe.links 0 n) ≠ 0) ∧
    Prog.Evals (execDriver card) (Prog.iterate pollLink (100000 * k)) s (.done () (s.scanned Ixgbe.links 0 n)) := by
  induction k with
  | zero =>
    intro s
    refine ⟨0, Nat.le_refl 0, nofun, Or.inl rfl, .loop_exit ((evals_getLinkSpeed card s).bind ?_) (.ret () _)⟩
    rw [if_neg (by omega)]
    exact .ret _ _
  | succ k ih =>
    intro s
    by_cases hup : card.speed s.log = 0
    · obtain ⟨n, hn, hdown, hend, hrun⟩ := ih (s.record (.readReg Ixgbe.links))
      have hshift : ∀ m, s.log ++ regReads Ixgbe.links 0 (m + 1) =
          (s.record (.readReg Ixgbe.links)).log ++ regReads Ixgbe.links 0 m := fun m => by
        rw [DriverState.record, List.append_assoc, regReads_succ, Nat.add_zero]
      refine ⟨n + 1, Nat.succ_le_succ hn, fun m hm => ?_, ?_, ?_⟩
      · cases m with
        | zero => simpa [regReads] using hup
        | succ m =>
          rw [hshift]
          exact hdown m (by omega)
      · rw [hshift]
        exact hend.imp_left (congrArg (· + 1))
      · rw [DriverState.scanned_succ]
        refine .loop_next ((evals_getLinkSpeed card s).bind ?_) hrun
        rw [if_pos ⟨hup, by omega⟩, show 100000 * (k + 1) - 100000 = 100000 * k by omega]
        exact .ret _ _
    · refine ⟨0, Nat.zero_le _, nofun, Or.inr (by simpa [regReads] using hup), ?_⟩
      refine .loop_exit ((evals_getLinkSpeed card s).bind ?_) (.ret () _)
      rw [if_neg fun h => hup h.1]
      exact .ret _ _

/-- The wait for the link ends on every card. It reads LINKS until the link is up, but not more than 101 times, then
once more to print the speed, and does nothing else. -/
theorem waitForLink_ends (card : Card) (s : DriverState) : ∃ n ≤ 100,
    (∀ m < n, card.speed (s.log ++ List.replicate m (.readReg Ixgbe.links)) = 0) ∧
    (n = 100 ∨ card.speed (s.log ++ List.replicate n (.readReg Ixgbe.links)) ≠ 0) ∧
    Prog.Evals (execDriver card) Driver.waitForLink s
      (.done () { s with log := s.log ++ List.replicate (n + 2) (.readReg Ixgbe.links) }) := by
  obtain ⟨n, hn, hdown, hend, hrun⟩ := Driver.evals_pollLink card 100 s
  simp only [regReads_zero] at hdown hend
  refine ⟨n, hn, hdown, hend, ?_⟩
  have hlast : (s.scanned Ixgbe.links 0 n).record (.readReg Ixgbe.links) =
      { s with log := s.log ++ List.replicate (n + 2) (.readReg Ixgbe.links) } := by
    rw [DriverState.scanned, DriverState.record, List.append_assoc, regReads_zero, ← List.replicate_succ']
  rw [← hlast]
  exact hrun.bind ((Driver.evals_getLinkSpeed card _).bind (.ret () _))

/-! ## The other waits -/

/-- How many registers there are in the 128 KiB that are mapped. -/
def mappedRegs : Nat := 0x8000

/-- Asked to do something, the card does it at some time. -/
structure Card.Responsive (card : Card) : Prop where
  reset : ∀ l, .writeReg Ixgbe.ctrl Ixgbe.ctrlRstMask ∈ l →
    ∃ n, card.Answers Ixgbe.ctrl 0 (fun v => v &&& Ixgbe.ctrlRstMask == 0) l n
  eeprom : ∀ l, .writeReg Ixgbe.ctrl Ixgbe.ctrlRstMask ∈ l →
    ∃ n, card.Answers Ixgbe.eec 0 (fun v => v &&& Ixgbe.eecArd == Ixgbe.eecArd) l n
  dma : ∀ l, .writeReg Ixgbe.ctrl Ixgbe.ctrlRstMask ∈ l →
    ∃ n, card.Answers Ixgbe.rdrxctl 0 (fun v => v &&& Ixgbe.rdrxctlDmaidone == Ixgbe.rdrxctlDmaidone) l n
  rxEnable : ∀ i < maxQueues, ∀ l, (∃ a ∈ l, enablesRx i a) →
    ∃ n, card.Answers (Ixgbe.rxdctl i) 0 (fun v => v &&& queueEnable == queueEnable) l n
  txEnable : ∀ i < maxQueues, ∀ l, (∃ a ∈ l, enablesTx i a) →
    ∃ n, card.Answers (Ixgbe.txdctl i) 0 (fun v => v &&& queueEnable == queueEnable) l n

/-- Read as a string, the registers end. -/
def Card.Printable (card : Card) : Prop := ∀ l, ∃ n < mappedRegs, card.Answers 0 4 Driver.hasZeroByte l n

theorem Card.Responsive.ready (h : card.Responsive) (hprint : card.Printable) (l : List Access) : card.Ready l := by
  obtain ⟨p, -, hp⟩ := hprint l
  have hasked : .writeReg Ixgbe.ctrl Ixgbe.ctrlRstMask ∈ l ++ regReads 0 4 (p + 1) ++
      [.writeReg Ixgbe.eimc 0x7FFFFFFF] ++ [.writeReg Ixgbe.ctrl Ixgbe.ctrlRstMask] :=
    List.mem_append_right _ List.mem_cons_self
  obtain ⟨a, ha⟩ := h.reset _ hasked
  have hasked := List.mem_append_left (regReads Ixgbe.ctrl 0 (a + 1)) hasked
  have hasked := List.mem_append_left [.writeReg Ixgbe.eimc 0x7FFFFFFF] hasked
  obtain ⟨q, -, hq⟩ := hprint (_ ++ [.writeReg Ixgbe.eimc 0x7FFFFFFF])
  have hasked := List.mem_append_left (regReads 0 4 (q + 1)) hasked
  obtain ⟨b, hb⟩ := h.eeprom _ hasked
  obtain ⟨c, hc⟩ := h.dma _ (List.mem_append_left (regReads Ixgbe.eec 0 (b + 1)) hasked)
  exact ⟨p, hp, a, ha, q, hq, b, hb, c, hc, trivial⟩

theorem Driver.evals_waitQueueReg {i n mask : Nat} {r : Reg} {s : DriverState}
    (h : card.Answers (r.offset i) 0 (fun v => v &&& mask == mask) s.log n) :
    Prog.Evals (execOnQueue card i) (Ixy.waitSetReg32 r mask) s (.done () (s.scanned (r.offset i) 0 n)) := by
  have hread : execOnQueue card i (.getReg r) s =
      some (card.reg s.log (r.offset i) % 2 ^ 32, s.record (.readReg (r.offset i))) := rfl
  induction n generalizing s with
  | zero =>
    have hset := Card.answers_zero.mp h
    generalize card.reg s.log (r.offset i) % 2 ^ 32 = v at hread hset
    exact evals_waitSetReg32 hread (beq_iff_eq.mp hset)
  | succ n ih =>
    obtain ⟨hfirst, hrest⟩ := Card.answers_succ.mp h
    generalize card.reg s.log (r.offset i) % 2 ^ 32 = v at hread hfirst
    rw [DriverState.scanned_succ]
    refine .loop_next (y := ()) (.op hread ?_) (ih hrest rfl)
    rw [Prog.ret_bind, if_pos (beq_eq_false_iff_ne.mp hfirst)]
    exact .ret _ _

/-! ## Configuring the queues -/

/-- There is memory for this many rings and mempools. -/
structure Supplied (rings pools : Nat) (s : DriverState) : Prop where
  rings : rings ≤ s.ringSupply.length
  pools : pools ≤ s.poolSupply.length

section
variable {rings pools reg v flags : Nat}

theorem Supplied.getReg32 (h : Supplied rings pools s) :
    Ends (execDriver card) (Driver.getReg32 reg) (fun _ s => Supplied rings pools s) s :=
  Ends.op rfl (Ends.ret ⟨h.rings, h.pools⟩)

theorem Supplied.setReg32 (h : Supplied rings pools s) :
    Ends (execDriver card) (Driver.setReg32 reg v) (fun _ s => Supplied rings pools s) s :=
  Ends.op rfl (Ends.ret ⟨h.rings, h.pools⟩)

theorem Supplied.setFlags32 (h : Supplied rings pools s) :
    Ends (execDriver card) (Driver.setFlags32 reg flags) (fun _ s => Supplied rings pools s) s :=
  h.getReg32.seq fun _ _ h => h.setReg32

theorem Supplied.clearFlags32 (h : Supplied rings pools s) :
    Ends (execDriver card) (Driver.clearFlags32 reg flags) (fun _ s => Supplied rings pools s) s :=
  h.getReg32.seq fun _ _ h => h.setReg32

theorem Supplied.memset {virt size : Nat} (h : Supplied rings pools s) :
    Ends (execDriver card) (Prog.access (DriverOp.memset virt size)) (fun _ s => Supplied rings pools s) s :=
  Ends.op rfl (Ends.ret ⟨h.rings, h.pools⟩)

theorem Supplied.rxSt {i : Nat} {f : RxField} (h : Supplied rings pools s) :
    Ends (execOnQueue card i) (Ixy.rxSt f v) (fun _ s => Supplied rings pools s) s :=
  Ends.op rfl (Ends.ret ⟨h.rings, h.pools⟩)

theorem Supplied.txSt {i : Nat} {f : TxField} (h : Supplied rings pools s) :
    Ends (execOnQueue card i) (Ixy.txSt f v) (fun _ s => Supplied rings pools s) s :=
  Ends.op rfl (Ends.ret ⟨h.rings, h.pools⟩)

theorem Driver.evals_onQueue {α : Type} {card : Card} {i : Nat} {p : Code α} {s : DriverState}
    {out : Prog.Outcome α DriverState} :
    Prog.Evals (execDriver card) (onQueue i p) s out ↔ Prog.Evals (execOnQueue card i) p s out := by
  have hrun : ∀ fuel, Prog.eval (execDriver card) fuel (onQueue i p) s = Prog.eval (execOnQueue card i) fuel p s :=
    fun fuel => Prog.eval_relabel (fun o s => Option.map_id'.symm) fuel p s
  simp only [Prog.Evals, hrun]

theorem Driver.ends_onQueue {α : Type} {i : Nat} {p : Code α} {Q : α → DriverState → Prop}
    (h : Ends (execOnQueue card i) p Q s) : Ends (execDriver card) (onQueue i p) Q s := by
  obtain ⟨a, s', hrun, hq⟩ := h
  exact ⟨a, s', evals_onQueue.mpr hrun, hq⟩

theorem Supplied.allocateDma {size : Nat} (h : Supplied (rings + 1) pools s) :
    Ends (execDriver card) (Prog.access (DriverOp.allocateDma size)) (fun _ s => Supplied rings pools s) s := by
  have hlen := h.rings
  cases hsup : s.ringSupply with
  | nil =>
    rw [hsup] at hlen
    cases hlen
  | cons mem rest =>
    rw [hsup] at hlen
    refine Ends.op (r := mem) (u := { s with ringSupply := rest }) ?_ (Ends.ret ?_)
    · rw [execDriver, hsup]
    · exact ⟨Nat.le_of_succ_le_succ hlen, h.pools⟩

theorem Supplied.forRange {lo hi : Nat} {body : Nat → DriverCode Unit} (h : Supplied rings pools s) (hle : lo ≤ hi)
    (hbody : ∀ i s, Supplied rings pools s → Ends (execDriver card) (body i) (fun _ s => Supplied rings pools s) s) :
    Ends (execDriver card) (Prog.forRange lo hi body) (fun _ s => Supplied rings pools s) s :=
  Ends.forRange (J := fun _ s => Supplied rings pools s) (fun i s _ => hbody i s) hle h

theorem Supplied.forQueues {queues : Nat} {body : Nat → DriverCode Unit} (h : Supplied (queues + rings) pools s)
    (hbody : ∀ i rings s, Supplied (rings + 1) pools s →
      Ends (execDriver card) (body i) (fun _ s => Supplied rings pools s) s) :
    Ends (execDriver card) (Prog.forRange 0 queues body) (fun _ s => Supplied rings pools s) s := by
  have hpass : ∀ i s, i < queues → Supplied (queues - i + rings) pools s →
      Ends (execDriver card) (body i) (fun _ s => Supplied (queues - (i + 1) + rings) pools s) s := by
    intro i s hi h
    apply hbody
    rwa [show queues - (i + 1) + rings + 1 = queues - i + rings by omega]
  refine (Ends.forRange (J := fun i s => Supplied (queues - i + rings) pools s) hpass (Nat.zero_le queues) h).mono
    fun _ s h => ?_
  rwa [Nat.sub_self, Nat.zero_add] at h

theorem Driver.ends_initRxQueue (i : Nat) (h : Supplied (rings + 1) pools s) :
    Ends (execDriver card) (initRxQueue i) (fun _ s => Supplied rings pools s) s := by
  refine h.getReg32.seq fun v s h => ?_
  refine h.setReg32.seq fun _ s h => ?_
  refine h.setFlags32.seq fun _ s h => ?_
  refine h.allocateDma.seq fun mem s h => ?_
  refine h.memset.seq fun _ s h => ?_
  -- where the ring is, its length, and that it is empty
  iterate 5 refine h.setReg32.seq fun _ s h => ?_
  refine ends_onQueue (h.rxSt.seq fun _ s h => ?_)
  refine h.rxSt.seq fun _ s h => ?_
  exact h.rxSt

theorem Driver.ends_initRx {queues : Nat} (h : Supplied (queues + rings) pools s) :
    Ends (execDriver card) (initRx queues) (fun _ s => Supplied rings pools s) s := by
  refine h.clearFlags32.seq fun _ s h => ?_
  refine h.setReg32.seq fun _ s h => ?_
  refine (h.forRange (by decide) fun i s h => h.setReg32).seq fun _ s h => ?_
  refine h.setFlags32.seq fun _ s h => ?_
  refine h.setFlags32.seq fun _ s h => ?_
  refine h.setFlags32.seq fun _ s h => ?_
  refine (h.forQueues fun i _ s h => ends_initRxQueue i h).seq fun _ s h => ?_
  refine h.setFlags32.seq fun _ s h => ?_
  refine (h.forRange (Nat.zero_le _) fun i s h => h.clearFlags32).seq fun _ s h => ?_
  exact h.setFlags32

theorem Driver.ends_initTxQueue {thresholds : Nat → Nat} (i : Nat) (h : Supplied (rings + 1) pools s) :
    Ends (execDriver card) (initTxQueueWith thresholds i) (fun _ s => Supplied rings pools s) s := by
  refine h.allocateDma.seq fun mem s h => ?_
  refine h.memset.seq fun _ s h => ?_
  iterate 3 refine h.setReg32.seq fun _ s h => ?_
  refine h.getReg32.seq fun _ s h => ?_
  refine h.setReg32.seq fun _ s h => ?_
  exact ends_onQueue (h.txSt.seq fun _ s h => h.txSt)

theorem Driver.ends_initTx {thresholds : Nat → Nat} {queues : Nat} (h : Supplied (queues + rings) pools s) :
    Ends (execDriver card) (initTxWith thresholds queues) (fun _ s => Supplied rings pools s) s := by
  refine h.setFlags32.seq fun _ s h => ?_
  refine h.setReg32.seq fun _ s h => ?_
  refine (h.forRange (by decide) fun i s h => h.setReg32).seq fun _ s h => ?_
  refine h.setReg32.seq fun _ s h => ?_
  refine h.clearFlags32.seq fun _ s h => ?_
  refine (h.forQueues fun i _ s h => ends_initTxQueue i h).seq fun _ s h => ?_
  exact h.setReg32

/-! ## Starting the queues -/

theorem Supplied.setQueueReg {i : Nat} {r : Reg} (h : Supplied rings pools s) :
    Ends (execOnQueue card i) (Ixy.setReg32 r v) (fun _ s => Supplied rings pools s) s :=
  Ends.op rfl (Ends.ret ⟨h.rings, h.pools⟩)

theorem Supplied.askQueue {i : Nat} {r : Reg} (h : Supplied rings pools s) :
    Ends (execOnQueue card i) (Ixy.setFlags32 r queueEnable)
      (fun _ s => Supplied rings pools s ∧ ∃ v, .writeReg (r.offset i) (v ||| queueEnable) ∈ s.log) s := by
  refine Ends.op (r := card.reg s.log (r.offset i) % 2 ^ 32) rfl ?_
  exact Ends.op rfl (Ends.ret ⟨⟨h.rings, h.pools⟩, _, List.mem_append_right _ List.mem_cons_self⟩)

theorem Supplied.waitQueue {i : Nat} {r : Reg} (h : Supplied rings pools s)
    (hans : ∃ n, card.Answers (r.offset i) 0 (fun v => v &&& queueEnable == queueEnable) s.log n) :
    Ends (execOnQueue card i) (Ixy.waitSetReg32 r queueEnable) (fun _ s => Supplied rings pools s) s := by
  obtain ⟨n, hn⟩ := hans
  exact ⟨(), _, Driver.evals_waitQueueReg hn, h.rings, h.pools⟩

theorem Card.Responsive.rx (hcard : card.Responsive) {i : Nat} (hi : i < maxQueues) {l : List Access}
    (h : .writeReg (Ixgbe.rxdctl i) (v ||| queueEnable) ∈ l) :
    ∃ n, card.Answers (Ixgbe.rxdctl i) 0 (fun v => v &&& queueEnable == queueEnable) l n :=
  hcard.rxEnable i hi l ⟨_, h, rfl, by rw [or_and_self_right]; decide⟩

theorem Card.Responsive.tx (hcard : card.Responsive) {i : Nat} (hi : i < maxQueues) {l : List Access}
    (h : .writeReg (Ixgbe.txdctl i) (v ||| queueEnable) ∈ l) :
    ∃ n, card.Answers (Ixgbe.txdctl i) 0 (fun v => v &&& queueEnable == queueEnable) l n :=
  hcard.txEnable i hi l ⟨_, h, rfl, by rw [or_and_self_right]; decide⟩

/-- The state after a pass of the loop of `start_rx_queue`. -/
def DriverState.filled (s : DriverState) (i j buf : Nat) (w : World) : DriverState :=
  (({ s with w := w } : DriverState).record
      (.writeRxDesc (descAddr (s.rxq i).descriptors j) .pktAddr (PktBuf.get w.mem buf .bufAddrPhy))
    |>.record (.writeRxDesc (descAddr (s.rxq i).descriptors j) .hdrAddr 0)).setRxq i (.virtualAddresses j) buf

theorem Driver.evals_fillRxDescriptor (card : Card) {i j buf : Nat} {s : DriverState}
    (hj : j < (s.rxq i).numEntries) (hbuf : (pktBufAlloc s.w (s.rxq i).mempool).1 = some buf) :
    Prog.Evals (execOnQueue card i) (fillRxDescriptor j) s
      (.done (.inl (j + 1)) (s.filled i j buf (pktBufAlloc s.w (s.rxq i).mempool).2)) := by
  have halloc : execOnQueue card i (.alloc (s.rxq i).mempool) s =
      some (some buf, { s with w := (pktBufAlloc s.w (s.rxq i).mempool).2 }) := by
    rw [execOnQueue, hbuf]
  refine .op rfl ?_
  change Prog.Evals _ (if j < (s.rxq i).numEntries then _ else _) _ _
  rw [if_pos hj]
  exact .op rfl (.op rfl (.op halloc (.op rfl (.op rfl (.op rfl (.op rfl (.ret _ _)))))))

/-- The loop of `start_rx_queue` has filled `j` descriptors, and there are buffers for the others. -/
structure Fillable (i rings pools j : Nat) (s : DriverState) : Prop extends Supplied rings pools s where
  num : (s.rxq i).numEntries = queueEntries.num
  room : queueEntries.num - j ≤ (s.w.pools (s.rxq i).mempool).freeStackTop

theorem Fillable.pass {i j buf : Nat} (h : Fillable i rings pools j s) (hj : j < queueEntries.num) :
    Fillable i rings pools (j + 1) (s.filled i j buf (pktBufAlloc s.w (s.rxq i).mempool).2) := by
  have hq : (s.filled i j buf (pktBufAlloc s.w (s.rxq i).mempool).2).rxq i =
      (s.rxq i).set (.virtualAddresses j) buf := DriverState.setRxq_self _ _ _ _
  have hroom := h.room
  have htop := pktBufAlloc_top (w := s.w) (p := (s.rxq i).mempool) (by omega)
  refine ⟨⟨h.rings, h.pools⟩, ?_, ?_⟩
  · rw [hq]
    exact h.num
  · rw [hq]
    change _ ≤ ((pktBufAlloc s.w (s.rxq i).mempool).2.pools (s.rxq i).mempool).freeStackTop
    omega

theorem Fillable.fill {i : Nat} (h : Fillable i rings pools 0 s) :
    Ends (execOnQueue card i) (Prog.iterate fillRxDescriptor 0) (fun _ s => Supplied rings pools s) s := by
  refine Ends.loop (J := Fillable i rings pools) (μ := fun j _ => queueEntries.num - j) (fun j s h => ?_) h
  by_cases hj : j < queueEntries.num
  · have hne : (s.w.pools (s.rxq i).mempool).freeStackTop ≠ 0 := by
      have := h.room
      omega
    obtain ⟨buf, hbuf⟩ := Option.ne_none_iff_exists'.mp fun hnone => hne (pktBufAlloc_eq_none_iff.mp hnone)
    refine ⟨_, _, Driver.evals_fillRxDescriptor card (by rw [h.num]; exact hj) hbuf, h.pass hj, ?_⟩
    omega
  · refine Ends.op rfl ?_
    change Ends _ (if j < (s.rxq i).numEntries then _ else _) _ _
    rw [if_neg (by rw [h.num]; exact hj)]
    exact Ends.ret (Ends.ret h.toSupplied)

theorem Driver.ends_enableRxQueue (hcard : card.Responsive) {i : Nat} (hi : i < maxQueues)
    (h : Supplied rings pools s) :
    Ends (execOnQueue card i) enableRxQueue (fun _ s => Supplied rings pools s) s := by
  refine h.askQueue.seq fun _ s ⟨h, v, hasked⟩ => ?_
  refine (h.waitQueue (r := .rxdctl) (hcard.rx hi hasked)).seq fun _ s h => ?_
  refine h.setQueueReg.seq fun _ s h => ?_
  exact Ends.op rfl h.setQueueReg

theorem Driver.ends_startRxQueue (hcard : card.Responsive) {i : Nat} (hi : i < maxQueues)
    (h : Supplied rings (pools + 1) s) (hnum : (s.rxq i).numEntries = queueEntries.num) :
    Ends (execOnQueue card i) startRxQueue (fun _ s => Supplied rings pools s) s := by
  have hlen := h.pools
  cases hsup : s.poolSupply with
  | nil =>
    rw [hsup] at hlen
    cases hlen
  | cons p rest =>
    obtain ⟨ptr, dma⟩ := p
    rw [hsup] at hlen
    have hpool : execOnQueue card i (.poolNew 4096 2048) s =
        some (ptr, { s with w := memoryAllocateMempool s.w ptr dma 4096 2048, poolSupply := rest }) := by
      rw [execOnQueue, hsup]
    have htop : ((memoryAllocateMempool s.w ptr dma 4096 2048).pools ptr).freeStackTop = 4096 := by
      rw [memoryAllocateMempool]
      simp only [Function.update_self]
    generalize memoryAllocateMempool s.w ptr dma 4096 2048 = w at hpool htop
    set s₁ : DriverState := DriverState.setRxq { s with w := w, poolSupply := rest } i .mempool ptr with hs₁
    have hq : s₁.rxq i = (s.rxq i).set .mempool ptr := DriverState.setRxq_self _ _ _ _
    have hnum₁ : (s₁.rxq i).numEntries = queueEntries.num := by
      rw [hq]
      exact hnum
    have hptr : (s₁.rxq i).mempool = ptr := by
      rw [hq]
      rfl
    have hrings : s₁.ringSupply = s.ringSupply := by rw [hs₁, DriverState.setRxq]
    have hpools : s₁.poolSupply = rest := by rw [hs₁, DriverState.setRxq]
    have hw : s₁.w = w := by rw [hs₁, DriverState.setRxq]
    have hfill : Fillable i rings pools 0 s₁ := by
      refine ⟨⟨?_, ?_⟩, hnum₁, ?_⟩
      · rw [hrings]
        exact h.rings
      · rw [hpools]
        exact Nat.le_of_succ_le_succ hlen
      · rw [hptr, hw, htop]
        decide
    refine Ends.op hpool (Ends.op (u := s₁) (r := ()) rfl ?_)
    refine Ends.op (congrArg (fun n => some (n, s₁)) hnum₁) ?_
    rw [Prog.ret_bind, if_neg (by decide)]
    exact hfill.fill.seq fun _ s h => ends_enableRxQueue hcard hi h

theorem Driver.ends_startTxQueue (hcard : card.Responsive) {i : Nat} (hi : i < maxQueues)
    (h : Supplied rings pools s) (hnum : (s.txq i).numEntries = queueEntries.num) :
    Ends (execOnQueue card i) startTxQueue (fun _ s => Supplied rings pools s) s := by
  refine Ends.op (congrArg (fun n => some (n, s)) hnum) ?_
  rw [Prog.ret_bind, if_neg (by decide)]
  refine h.setQueueReg.seq fun _ s h => ?_
  refine h.setQueueReg.seq fun _ s h => ?_
  refine h.askQueue.seq fun _ s ⟨h, v, hasked⟩ => ?_
  exact h.waitQueue (r := .txdctl) (hcard.tx hi hasked)

/-! ## The whole initialisation -/

theorem Driver.ends_initLink (h : Supplied rings pools s) :
    Ends (execDriver card) initLink (fun _ s => Supplied rings pools s) s := by
  refine h.getReg32.seq fun _ s h => ?_
  refine h.setReg32.seq fun _ s h => ?_
  refine h.getReg32.seq fun _ s h => ?_
  refine h.setReg32.seq fun _ s h => ?_
  exact h.setFlags32

theorem Driver.ends_getReg64 {lowFirst : Bool} {low high : Nat} (h : Supplied rings pools s) :
    Ends (execDriver card) (getReg64 lowFirst low high) (fun _ s => Supplied rings pools s) s := by
  cases lowFirst with
  | true => exact h.getReg32.seq fun _ s h => h.getReg32.seq fun _ s h => Ends.ret h
  | false => exact h.getReg32.seq fun _ s h => h.getReg32.seq fun _ s h => Ends.ret h

theorem Driver.ends_clearCounters (order : ReadOrder) (h : Supplied rings pools s) :
    Ends (execDriver card) (ixgbeReadStats order none) (fun _ s => Supplied rings pools s) s := by
  refine h.getReg32.seq fun _ s h => ?_
  refine h.getReg32.seq fun _ s h => ?_
  refine (ends_getReg64 h).seq fun _ s h => ?_
  refine (ends_getReg64 h).seq fun _ s h => ?_
  exact Ends.op rfl (Ends.ret h)

end

theorem ends_quiet {p : DriverCode Unit} {K : DriverState → Prop} {R : Unit → DriverState → Prop}
    (h : Ends (execDriver card) p R s) (hK : ∀ s a, K s → Quiet a → K (s.record a))
    (hp : Obeys quietOps p fun _ => True) (hs : K s) : Ends (execDriver card) p (fun _ s => K s) s :=
  (h.and_safe (quiet_safe hK hp hs)).mono fun _ _ h => h.2

theorem Driver.ends_resetAndInit (hcard : card.Responsive) (hprint : card.Printable) (order : ReadOrder)
    {rings : List DmaMemory} {rxQueues txQueues : Nat} (hrx : rxQueues ≤ maxQueues) (htx : txQueues ≤ rxQueues)
    (hinit : InitAt rings rxQueues 0 0 0 0 s) (hsup : s.ringSupply = rings)
    (h : Supplied (rxQueues + rxQueues) rxQueues s) :
    Ends (execDriver card) (resetAndInit order rxQueues txQueues) (fun _ _ => True) s := by
  have hK : ∀ s a, (InitAt rings rxQueues 0 0 0 0 s ∧ s.ringSupply = rings) ∧
      Supplied (rxQueues + rxQueues) rxQueues s → Quiet a →
      (InitAt rings rxQueues 0 0 0 0 (s.record a) ∧ (s.record a).ringSupply = rings) ∧
        Supplied (rxQueues + rxQueues) rxQueues (s.record a) :=
    fun s a hs ha => ⟨⟨hs.1.1.quiet ha, hs.1.2⟩, hs.2.rings, hs.2.pools⟩
  obtain ⟨s₁, hreset⟩ := evals_reset (hcard.ready hprint s.log)
  refine (ends_quiet (R := fun _ _ => True) ⟨(), s₁, hreset, trivial⟩ hK reset_quiet ⟨⟨hinit, hsup⟩, h⟩).seq
    fun _ s hs => ?_
  refine (ends_quiet (ends_initLink hs.2) hK initLink_quiet hs).seq fun _ s hs => ?_
  refine (ends_quiet (ends_clearCounters order hs.2) hK clearCounters_quiet hs).seq fun _ s hs => ?_
  refine ((ends_initRx hs.2).and_safe (initRx_safe hrx hs.1.1 hs.1.2)).seq fun _ s hs => ?_
  have htxRings : Supplied (rxQueues + 0) rxQueues _ := hs.1
  refine ((ends_initTx htxRings).and_safe (initTxWith_safe hrx hs.2.1 hs.2.2)).seq fun _ s hs => ?_
  refine (Ends.forRange (J := fun m s => Supplied 0 (rxQueues - m) s ∧ InitAt rings rxQueues rxQueues rxQueues m 0 s)
    (fun i s hi hs => ?_) (Nat.zero_le _) hs).seq fun _ s hs => ?_
  · obtain ⟨mem, -, hconf⟩ := hs.2.rxConf i hi
    have hpools : Supplied 0 (rxQueues - (i + 1) + 1) s := by
      rw [show rxQueues - (i + 1) + 1 = rxQueues - i by omega]
      exact hs.1
    exact ends_onQueue ((ends_startRxQueue hcard (by omega) hpools hconf.numEntries).and_safe
      (startRxQueue_safe hi hrx hs.2))
  refine (Ends.forRange (J := fun n s => Supplied 0 (rxQueues - rxQueues) s ∧
      InitAt rings rxQueues rxQueues rxQueues rxQueues n s)
    (fun i s hi hs => ?_) (Nat.zero_le _) hs).seq fun _ s hs => ?_
  · have hlt : i < rxQueues := by omega
    obtain ⟨mem, -, hconf⟩ := hs.2.txConf i hlt
    refine ends_onQueue (((ends_startTxQueue hcard (by omega) hs.1 hconf.numEntries).and_safe
      (startTxQueue_safe (by omega) hs.2.txAllocated fun _ => hs.2)).mono fun _ s hs => ?_)
    exact ⟨hs.1, hs.2.2 hlt⟩
  refine hs.1.setFlags32.seq fun _ s hs => ?_
  obtain ⟨n, -, -, -, hlink⟩ := evals_pollLink card 100 s
  exact ⟨(), _, hlink.bind ((evals_getLinkSpeed card _).bind (.ret () _)), trivial⟩

theorem Driver.ends_ixgbeInit {order : ReadOrder} {rxQueues txQueues : Nat} (hcard : card.Responsive)
    (hprint : card.Printable) (hlog : s.log = []) (hrx : rxQueues ≤ maxQueues) (htx : txQueues ≤ rxQueues)
    (hmem : Supplied (rxQueues + rxQueues) rxQueues s) :
    Ends (execDriver card) (ixgbeInit order rxQueues txQueues)
      (fun _ s' => InitCovers s.ringSupply rxQueues txQueues s') s := by
  have hends : Ends (execDriver card) (Driver.ixgbeInit order rxQueues txQueues) (fun _ _ => True) s := by
    rw [Driver.ixgbeInit, if_neg (by omega), if_neg (by omega)]
    refine Ends.op rfl ?_
    exact ends_resetAndInit hcard hprint order hrx htx (InitAt.start hlog rxQueues) rfl ⟨hmem.rings, hmem.pools⟩
  exact (hends.and_safe (Driver.ixgbeInit_safe hlog)).mono fun _ _ h => h.2.mpr htx

theorem responsive_of_answers (hctrl : ∀ l, card.reg l Ixgbe.ctrl % 2 ^ 32 = 0)
    (heec : ∀ l, card.reg l Ixgbe.eec % 2 ^ 32 = 0xFFFFFFFF)
    (hrdrxctl : ∀ l, card.reg l Ixgbe.rdrxctl % 2 ^ 32 = 0xFFFFFFFF)
    (hrx : ∀ i < maxQueues, ∀ l, card.reg l (Ixgbe.rxdctl i) % 2 ^ 32 = 0xFFFFFFFF)
    (htx : ∀ i < maxQueues, ∀ l, (∃ a ∈ l, enablesTx i a) → card.reg l (Ixgbe.txdctl i) % 2 ^ 32 = 0xFFFFFFFF) :
    card.Responsive := by
  have hset : ∀ {mask reg : Nat} {l : List Access}, 0xFFFFFFFF &&& mask = mask →
      card.reg l reg % 2 ^ 32 = 0xFFFFFFFF → ∃ n, card.Answers reg 0 (fun v => v &&& mask == mask) l n := by
    intro mask reg l hmask hread
    refine ⟨0, Card.answers_zero.mpr ?_⟩
    rw [hread, hmask]
    exact beq_self_eq_true mask
  have henable : 0xFFFFFFFF &&& queueEnable = queueEnable := by decide
  refine ⟨fun l _ => ⟨0, Card.answers_zero.mpr ?_⟩, fun l _ => hset (by decide) (heec l),
    fun l _ => hset (by decide) (hrdrxctl l), fun i hi l _ => hset henable (hrx i hi l),
    fun i hi l hl => hset henable (htx i hi l hl)⟩
  rw [hctrl, Nat.zero_and]
  rfl

theorem printable_of_ctrl (hctrl : ∀ l, card.reg l Ixgbe.ctrl % 2 ^ 32 = 0) : card.Printable := by
  refine fun l => ⟨0, by decide, Card.answers_zero.mpr ?_⟩
  change Driver.hasZeroByte (card.reg l Ixgbe.ctrl % 2 ^ 32) = true
  rw [hctrl]
  rfl

end

/-! ## A card that is always ready -/

/-- A card that is always ready. -/
def readyCard : Card :=
  ⟨fun _ reg => if reg = Ixgbe.ctrl then 0 else 0xFFFFFFFF, fun _ _ => ⟨0, 0⟩, fun _ _ => ⟨0, 0, 0⟩⟩

def driverBoot (rings : List DmaMemory) (pools : List (Nat × DmaMemory)) : DriverState where
  w := ⟨fun _ => 0, fun _ => ⟨0, 0, 0, 0, 0, fun _ => 0⟩, [], []⟩
  poolSupply := pools
  ringSupply := rings
  rxAllocated := 0
  txAllocated := 0
  rxq := fun _ => ⟨0, 0, 0, 0, fun _ => 0⟩
  txq := fun _ => ⟨0, 0, 0, 0, fun _ => 0⟩
  stats := fun _ _ => 0
  log := []

def twoRings : List DmaMemory := [⟨0x10000, 0x30000⟩, ⟨0x20000, 0x40000⟩]

theorem readyCard_ctrl (l : List Access) : readyCard.reg l Ixgbe.ctrl % 2 ^ 32 = 0 := rfl

theorem readyCard_responsive : readyCard.Responsive := by
  have hother : ∀ reg ≠ Ixgbe.ctrl, ∀ l, readyCard.reg l reg % 2 ^ 32 = 0xFFFFFFFF := fun reg hreg l => by
    simp only [readyCard, if_neg hreg]
    decide
  refine responsive_of_answers readyCard_ctrl (hother _ (by decide)) (hother _ (by decide)) (fun i hi => hother _ ?_)
    fun i hi l _ => hother _ ?_ l
  · rw [Ixgbe.rxdctl, rxBlock_eq hi, Ixgbe.ctrl]
    omega
  · rw [Ixgbe.txdctl, Ixgbe.ctrl]
    omega

/-! ## Results -/

section
variable {card : Card} {s : DriverState}

/-- **Main result.** Whenever `ixgbe_init` returns, all queues are covered exactly if there are not more transmit
than receive queues. -/
theorem init_covers_iff {order : Driver.ReadOrder} {rxQueues txQueues : Nat} {s' : DriverState} (hlog : s.log = [])
    (hrun : Prog.Evals (execDriver card) (Driver.ixgbeInit order rxQueues txQueues) s (.done () s')) :
    InitCovers s.ringSupply rxQueues txQueues s' ↔ txQueues ≤ rxQueues := by
  obtain ⟨fuel, hrun⟩ := hrun
  exact (Driver.ixgbeInit_safe hlog).eval fuel hrun

theorem init_covers_one : ∃ s', Prog.Evals (execDriver readyCard) (Driver.ixgbeInit ⟨true, true⟩ 1 1)
    (driverBoot twoRings [(0x1000, ⟨0x100000, 0x200000⟩)]) (.done () s') ∧ (InitCovers twoRings 1 1 s' ↔ 1 ≤ 1) := by
  have hends : Ends (execDriver readyCard) (Driver.ixgbeInit ⟨true, true⟩ 1 1) _
      (driverBoot twoRings [(0x1000, ⟨0x100000, 0x200000⟩)]) :=
    Driver.ends_ixgbeInit readyCard_responsive (printable_of_ctrl readyCard_ctrl) rfl (by decide) (Nat.le_refl 1)
      ⟨Nat.le_refl 2, Nat.le_refl 1⟩
  obtain ⟨_, s', hrun, -⟩ := hends
  exact ⟨s', hrun, init_covers_iff rfl hrun⟩

def Access.writes (reg : Nat) : Access → Bool
  | .writeReg r _ => r == reg
  | _ => false

/-- With one transmit and no receive queue, queue 0 is enabled without ever having got a ring. -/
theorem init_counterexample : ∃ s', Prog.Evals (execDriver readyCard) (Driver.ixgbeInit ⟨true, true⟩ 0 1)
    (driverBoot [] []) (.done () s') ∧ s'.txAllocated = 0 ∧ (∃ a ∈ s'.log, enablesTx 0 a) ∧
    s'.log.any (Access.writes (Ixgbe.tdbal 0)) = false ∧ ¬ InitCovers [] 0 1 s' := by
  refine ⟨_, ⟨200, rfl⟩, rfl, ⟨.writeReg (Ixgbe.txdctl 0) 0xFFFFFFFF, ?_, rfl, by decide⟩, rfl, fun hcovers => ?_⟩
  · decide
  · obtain ⟨mem, -, hcov⟩ := hcovers.tx 0 Nat.one_pos
    exact Nat.lt_irrefl _ hcov.inside

/-- **Main result.** On a responsive card whose registers end as a string, `ixgbe_init` returns, and all queues are
configured and started. With more than one queue the structs overlap (`Ixy.Driver.QueueArea`), and this is not their
memory any more. -/
theorem ixgbeInit_returns {order : Driver.ReadOrder} {rxQueues txQueues : Nat} (hcard : card.Responsive)
    (hprint : card.Printable) (hlog : s.log = []) (hrx : rxQueues ≤ 1) (htx : txQueues ≤ rxQueues)
    (hmem : Supplied (rxQueues + rxQueues) rxQueues s) :
    ∃ s', Prog.Evals (execDriver card) (Driver.ixgbeInit order rxQueues txQueues) s (.done () s') ∧
      InitCovers s.ringSupply rxQueues txQueues s' := by
  obtain ⟨_, s', hrun, hcovers⟩ := Driver.ends_ixgbeInit hcard hprint hlog (Nat.le_trans hrx (by decide)) htx hmem
  exact ⟨s', hrun, hcovers⟩

theorem ixgbeInit_returns_ready : readyCard.Responsive ∧ readyCard.Printable ∧
    ∃ s', Prog.Evals (execDriver readyCard) (Driver.ixgbeInit ⟨true, true⟩ 1 1)
        (driverBoot twoRings [(0x1000, ⟨0x100000, 0x200000⟩)]) (.done () s') ∧ InitCovers twoRings 1 1 s' :=
  ⟨readyCard_responsive, printable_of_ctrl readyCard_ctrl,
    ixgbeInit_returns readyCard_responsive (printable_of_ctrl readyCard_ctrl) rfl (Nat.le_refl 1) (Nat.le_refl 1)
      ⟨Nat.le_refl 2, Nat.le_refl 1⟩⟩

end

end Ixy
