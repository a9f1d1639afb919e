import Ixy.Driver.Init

/-!
# How the driver uses the registers

Two rules of the data sheet for the driver's use of the card. It leaves alone the registers and the bits that it does
not own: a bit of a register that is not `Owned` has the value that was there before, also where the register is
written. And it keeps to the order of the initialisation: nothing is programmed before the reset has been confirmed,
receive rings are set up while the receiver is off, and no queue is used before it is enabled.

Both are rules for histories of accesses. `WriteOk` is what they come down to for a single write, given the history
before it, and `Phase` what is known at the stages of the initialisation. That the driver keeps the rules is shown in
`Ixy.Driver.RegisterRun`.
-/

namespace Ixy

open Lib

/-! ## The bits of the driver -/

def allBits : Nat := 0xFFFFFFFF

/-- The bits of AUTOC that `init_link` sets. -/
def autocMask : Nat := Ixgbe.autocLmsMask ||| Ixgbe.autoc10gPmaPmdMask ||| Ixgbe.autocAnRestart

/-- The registers that the driver writes, each with the bits that it may change. -/
inductive Owned (rxQueues txQueues : Nat) : Nat → Nat → Prop
  | eimc : Owned rxQueues txQueues Ixgbe.eimc allBits
  | ctrl : Owned rxQueues txQueues Ixgbe.ctrl allBits
  | autoc : Owned rxQueues txQueues Ixgbe.autoc autocMask
  | rxctrl : Owned rxQueues txQueues Ixgbe.rxctrl Ixgbe.rxctrlRxen
  | rxpbsize (i : Nat) (h : i < 8) : Owned rxQueues txQueues (Ixgbe.rxpbsize i) allBits
  | hlreg0 : Owned rxQueues txQueues Ixgbe.hlreg0
      (Ixgbe.hlreg0Rxcrcstrp ||| Ixgbe.hlreg0Txcrcen ||| Ixgbe.hlreg0Txpaden)
  | rdrxctl : Owned rxQueues txQueues Ixgbe.rdrxctl Ixgbe.rdrxctlCrcstrip
  | fctrl : Owned rxQueues txQueues Ixgbe.fctrl (Ixgbe.fctrlBam ||| Ixgbe.fctrlMpe ||| Ixgbe.fctrlUpe)
  | ctrlExt : Owned rxQueues txQueues Ixgbe.ctrlExt Ixgbe.ctrlExtNsDis
  | txpbsize (i : Nat) (h : i < 8) : Owned rxQueues txQueues (Ixgbe.txpbsize i) allBits
  | dtxmxszrq : Owned rxQueues txQueues Ixgbe.dtxmxszrq allBits
  | rttdcs : Owned rxQueues txQueues Ixgbe.rttdcs Ixgbe.rttdcsArbdis
  | dmatxctl : Owned rxQueues txQueues Ixgbe.dmatxctl allBits
  | srrctl (i : Nat) (h : i < rxQueues) :
      Owned rxQueues txQueues (Ixgbe.srrctl i) (Ixgbe.srrctlDesctypeMask ||| Ixgbe.srrctlDropEn)
  | dcaRxctrl (i : Nat) (h : i < rxQueues) : Owned rxQueues txQueues (Ixgbe.dcaRxctrl i) (1 <<< 12)
  | rxdctl (i : Nat) (h : i < rxQueues) : Owned rxQueues txQueues (Ixgbe.rxdctl i) queueEnable
  | rxRing (i offset : Nat) (h : i < rxQueues) (ho : offset ∈ [0x00, 0x04, 0x08, 0x10, 0x18]) :
      Owned rxQueues txQueues (Ixgbe.rxBlock i offset) allBits
  | txdctl (i : Nat) (h : i < max rxQueues txQueues) :
      Owned rxQueues txQueues (Ixgbe.txdctl i) (36 ||| 8 <<< 8 ||| 4 <<< 16 ||| queueEnable)
  | txRing (i offset : Nat) (h : i < max rxQueues txQueues) (ho : offset ∈ [0x00, 0x04, 0x08, 0x10, 0x18]) :
      Owned rxQueues txQueues (0x06000 + offset + i * 0x40) allBits

/-- A write keeps the bits that are not the driver's: they are those of the value that it has just read. -/
def KeepsBits (card : Card) (rxQueues txQueues : Nat) (l : List Access) (reg v : Nat) : Prop :=
  ∃ mask, Owned rxQueues txQueues reg mask ∧ ∀ k < 32, mask.testBit k = false →
    ∃ l', l = l' ++ [.readReg reg] ∧ v.testBit k = (card.reg l' reg).testBit k

/-! ## The order of the initialisation -/

/-- The driver has asked for something, has then read a register and found it as wanted. -/
def Confirmed (card : Card) (asks : Access → Prop) (reg : Nat) (wanted : Nat → Bool) (l : List Access) : Prop :=
  ∃ l', (∃ a ∈ l', asks a) ∧ l' ++ [.readReg reg] <+: l ∧ wanted (card.reg l' reg % 2 ^ 32) = true

def asksReset (a : Access) : Prop := a = .writeReg Ixgbe.ctrl Ixgbe.ctrlRstMask

/-- The card has reset itself, has read its EEPROM and has initialised DMA, and the driver knows. -/
structure ResetDone (card : Card) (l : List Access) : Prop where
  ctrl : Confirmed card asksReset Ixgbe.ctrl (fun v => v &&& Ixgbe.ctrlRstMask == 0) l
  eec : Confirmed card asksReset Ixgbe.eec (fun v => v &&& Ixgbe.eecArd == Ixgbe.eecArd) l
  rdrxctl : Confirmed card asksReset Ixgbe.rdrxctl
    (fun v => v &&& Ixgbe.rdrxctlDmaidone == Ixgbe.rdrxctlDmaidone) l

/-- The receiver is off: so says the last write to RXCTRL. -/
def RxOff (l : List Access) : Prop :=
  ∃ pre v post, l = pre ++ .writeReg Ixgbe.rxctrl v :: post ∧ v &&& Ixgbe.rxctrlRxen = 0 ∧
    ∀ a ∈ post, ∀ v', a ≠ .writeReg Ixgbe.rxctrl v'

/-- The registers that set up the receive buffers and rings. -/
def ConfiguresRx (reg : Nat) : Prop :=
  (∃ i < 8, reg = Ixgbe.rxpbsize i) ∨
    ∃ i < maxQueues, reg = Ixgbe.srrctl i ∨ reg = Ixgbe.rdbal i ∨ reg = Ixgbe.rdbah i ∨ reg = Ixgbe.rdlen i

/-- The queue is enabled, and the driver knows. -/
def RxEnabled (card : Card) (i : Nat) : List Access → Prop :=
  Confirmed card (enablesRx i) (Ixgbe.rxdctl i) fun v => v &&& queueEnable == queueEnable

/-- The transmitter as a whole has been enabled. -/
def TxOn (l : List Access) : Prop := .writeReg Ixgbe.dmatxctl Ixgbe.dmatxctlTe ∈ l

/-- A card on which no transmit queue is enabled before the driver asks for it. -/
def Card.TxStaysOff (card : Card) : Prop :=
  ∀ l, ∀ i < maxQueues, (∀ a ∈ l, ¬ enablesTx i a) → card.reg l (Ixgbe.txdctl i) % 2 ^ 32 &&& queueEnable = 0

/-- What is right about a write. -/
structure WriteOk (card : Card) (rxQueues txQueues : Nat) (l : List Access) (reg v : Nat) : Prop where
  bits : KeepsBits card rxQueues txQueues l reg v
  reset : reg ≠ Ixgbe.eimc → reg ≠ Ixgbe.ctrl → ResetDone card l
  rxOff : ConfiguresRx reg → RxOff l
  rdt : ∀ i < maxQueues, reg = Ixgbe.rdt i → v ≠ 0 → RxEnabled card i l
  txOn : card.TxStaysOff → ∀ i < maxQueues, reg = Ixgbe.txdctl i → v &&& queueEnable ≠ 0 → TxOn l

/-- All writes of a history are right. -/
def WritesOk (card : Card) (rxQueues txQueues : Nat) (l : List Access) : Prop :=
  ∀ reg v, Before l (· = .writeReg reg v) fun pre => WriteOk card rxQueues txQueues pre reg v

section
variable {card : Card} {rxQueues txQueues reg v mask flags i k : Nat} {wanted : Nat → Bool} {l : List Access}
variable {a : Access}

theorem WritesOk.write (h : WritesOk card rxQueues txQueues l) (hw : WriteOk card rxQueues txQueues l reg v) :
    WritesOk card rxQueues txQueues (l ++ [.writeReg reg v]) := by
  refine fun reg' v' => (h reg' v').concat fun heq => ?_
  cases heq
  exact hw

/-- Anything but a write to a register. -/
def Access.Harmless (a : Access) : Prop := ∀ reg v, a ≠ .writeReg reg v

theorem Access.Harmless.not_enablesTx (h : a.Harmless) (i : Nat) : ¬ enablesTx i a := by
  cases a with
  | writeReg reg v => exact absurd rfl (h reg v)
  | readReg | readRxStatus | readRxDesc | writeRxDesc | readTxDesc | writeTxDesc | fill => exact id

theorem keeps_accesses {K : List Access → Prop} (hK : ∀ l a, K l → a.Harmless → K (l ++ [a])) {as : List Access}
    (h : K l) (has : ∀ a ∈ as, a.Harmless) : K (l ++ as) := by
  induction as generalizing l with
  | nil =>
    rw [List.append_nil]
    exact h
  | cons a as ih =>
    have h' := ih (hK l a h (has a List.mem_cons_self)) fun b hb => has b (List.mem_cons_of_mem a hb)
    rwa [List.append_assoc] at h'

theorem WritesOk.access (h : WritesOk card rxQueues txQueues l) (ha : a.Harmless) :
    WritesOk card rxQueues txQueues (l ++ [a]) :=
  fun reg v => (h reg v).concat fun heq => absurd heq (ha reg v)

theorem Confirmed.concat {asks : Access → Prop} (h : Confirmed card asks reg wanted l) (a : Access) :
    Confirmed card asks reg wanted (l ++ [a]) := by
  obtain ⟨l', hasked, hpre, hwanted⟩ := h
  exact ⟨l', hasked, hpre.trans (List.prefix_append l [a]), hwanted⟩

theorem ResetDone.concat (h : ResetDone card l) (a : Access) : ResetDone card (l ++ [a]) :=
  ⟨h.ctrl.concat a, h.eec.concat a, h.rdrxctl.concat a⟩

theorem RxOff.concat (h : RxOff l) (ha : ∀ v, a = .writeReg Ixgbe.rxctrl v → v &&& Ixgbe.rxctrlRxen = 0) :
    RxOff (l ++ [a]) := by
  by_cases hwrite : ∃ v, a = .writeReg Ixgbe.rxctrl v
  · obtain ⟨v, rfl⟩ := hwrite
    exact ⟨l, v, [], rfl, ha v rfl, nofun⟩
  · obtain ⟨pre, v, post, rfl, hv, hpost⟩ := h
    refine ⟨pre, v, post ++ [a], by simp, hv, fun b hb v' heq => ?_⟩
    rcases List.mem_append.mp hb with hb | hb
    · exact hpost b hb v' heq
    · exact hwrite ⟨v', (List.mem_singleton.mp hb).symm.trans heq⟩

/-! ## Bits -/

/-- Every bit of `flags` is one of `mask`. -/
def Within (flags mask : Nat) : Prop := ∀ k < 32, mask.testBit k = false → flags.testBit k = false

instance : Decidable (Within flags mask) := inferInstanceAs (Decidable (∀ k < 32, _ → _))

theorem allBits_testBit (hk : k < 32) : allBits.testBit k = true := by
  rw [allBits, show 0xFFFFFFFF = 2 ^ 32 - 1 from rfl, Nat.testBit_two_pow_sub_one]
  exact decide_eq_true hk

/-- A register that belongs to the driver may be set to anything. -/
theorem KeepsBits.all (h : Owned rxQueues txQueues reg allBits) : KeepsBits card rxQueues txQueues l reg v := by
  refine ⟨allBits, h, fun k hk hbit => ?_⟩
  rw [allBits_testBit hk] at hbit
  cases hbit

/-- Otherwise it is read, and its value modified within `mask`. -/
theorem KeepsBits.modify {f : Nat → Nat} (h : Owned rxQueues txQueues reg mask)
    (hf : ∀ v, ∀ k < 32, mask.testBit k = false → (f v).testBit k = v.testBit k) :
    KeepsBits card rxQueues txQueues (l ++ [.readReg reg]) reg (f (card.reg l reg % 2 ^ 32)) := by
  refine ⟨mask, h, fun k hk hbit => ⟨l, rfl, ?_⟩⟩
  rw [hf _ k hk hbit, Nat.testBit_mod_two_pow, decide_eq_true hk, Bool.true_and]

theorem or_testBit (hflags : Within flags mask) (v k : Nat) (hk : k < 32) (hbit : mask.testBit k = false) :
    (v ||| flags).testBit k = v.testBit k := by
  rw [Nat.testBit_or, hflags k hk hbit, Bool.or_false]

theorem maskOut_testBit (hflags : Within flags mask) (v k : Nat) (hk : k < 32) (hbit : mask.testBit k = false) :
    (maskOut v flags).testBit k = v.testBit k := by
  have hall := allBits_testBit hk
  rw [maskOut, Nat.testBit_and, Nat.testBit_xor, hflags k hk hbit, ← allBits, hall, Bool.xor_false, Bool.and_true]

theorem maskOut_and (v : Nat) (hmask : mask < 2 ^ 32) : maskOut v mask &&& mask = 0 := by
  apply Nat.eq_of_testBit_eq
  intro k
  rw [maskOut, Nat.testBit_and, Nat.testBit_and, Nat.testBit_xor, Nat.zero_testBit]
  by_cases hk : k < 32
  · have hall := allBits_testBit hk
    rw [← allBits, hall]
    cases v.testBit k <;> cases mask.testBit k <;> rfl
  · rw [Nat.testBit_lt_two_pow (Nat.lt_of_lt_of_le hmask (Nat.pow_le_pow_right (by decide) (by omega))), Bool.and_false]

theorem txThresholds_eq (v : Nat) : Driver.txThresholds v = v ||| 0x040824 := by
  rw [Driver.txThresholds, Nat.or_assoc, Nat.or_assoc]
  rfl

theorem txThresholds_testBit (v k : Nat) (hk : k < 32)
    (hbit : (36 ||| 8 <<< 8 ||| 4 <<< 16 ||| queueEnable).testBit k = false) :
    (Driver.txThresholds v).testBit k = v.testBit k := by
  rw [txThresholds_eq]
  exact or_testBit (by decide) v k hk hbit

theorem txThresholds_enable (v : Nat) : Driver.txThresholds v &&& queueEnable = v &&& queueEnable := by
  rw [txThresholds_eq, Nat.and_or_distrib_right, show 0x040824 &&& queueEnable = 0 from rfl, Nat.or_zero]

/-! ## Phases -/

/-- Where the initialisation has got to after the reset: whether the receiver has to be off (`r`), whether the
transmitter has been enabled (`t`), and that the first `m` receive queues are known to be enabled. -/
structure Phase (card : Card) (rxQueues txQueues : Nat) (r t : Bool) (m : Nat) (l : List Access) : Prop where
  ok : WritesOk card rxQueues txQueues l
  reset : ResetDone card l
  rxOff : r = true → RxOff l
  txOn : t = true → TxOn l
  txOff : t = false → card.TxStaysOff → ∀ i < maxQueues, ∀ a ∈ l, ¬ enablesTx i a
  rxEnabled : ∀ i < m, RxEnabled card i l

namespace Phase
variable {r t : Bool} {m : Nat}

theorem access (h : Phase card rxQueues txQueues r t m l) (ha : a.Harmless) :
    Phase card rxQueues txQueues r t m (l ++ [a]) := by
  refine ⟨h.ok.access ha, h.reset.concat a, fun hr => (h.rxOff hr).concat fun v heq => absurd heq (ha _ v),
    fun ht => List.mem_append_left _ (h.txOn ht), fun ht hcard i hi b hb => ?_, fun i hi => (h.rxEnabled i hi).concat a⟩
  rcases List.mem_append.mp hb with hb | hb
  · exact h.txOff ht hcard i hi b hb
  · rw [List.mem_singleton.mp hb]
    exact ha.not_enablesTx i

theorem accesses {as : List Access} (h : Phase card rxQueues txQueues r t m l) (has : ∀ a ∈ as, a.Harmless) :
    Phase card rxQueues txQueues r t m (l ++ as) :=
  keeps_accesses (fun _ _ h ha => h.access ha) h has

theorem write (h : Phase card rxQueues txQueues r t m l) (hbits : KeepsBits card rxQueues txQueues l reg v)
    (hsetup : ConfiguresRx reg → r = true) (hrxctrl : r = true → reg = Ixgbe.rxctrl → v &&& Ixgbe.rxctrlRxen = 0)
    (hrdt : ∀ i < maxQueues, reg = Ixgbe.rdt i → v ≠ 0 → i < m)
    (htx : card.TxStaysOff → ∀ i < maxQueues, reg = Ixgbe.txdctl i → v &&& queueEnable ≠ 0 → t = true) :
    Phase card rxQueues txQueues r t m (l ++ [.writeReg reg v]) := by
  refine ⟨h.ok.write ⟨hbits, fun _ _ => h.reset, fun hreg => h.rxOff (hsetup hreg),
      fun i hi hreg hv => h.rxEnabled i (hrdt i hi hreg hv), fun hcard i hi hreg hv => h.txOn (htx hcard i hi hreg hv)⟩,
    h.reset.concat _, fun hr => (h.rxOff hr).concat fun v' heq => ?_, fun ht => List.mem_append_left _ (h.txOn ht),
    fun ht hcard i hi b hb hen => ?_, fun i hi => (h.rxEnabled i hi).concat _⟩
  · cases heq
    exact hrxctrl hr rfl
  · rcases List.mem_append.mp hb with hb | hb
    · exact h.txOff ht hcard i hi b hb hen
    · rw [List.mem_singleton.mp hb] at hen
      rw [htx hcard i hi hen.1 hen.2] at ht
      cases ht

end Phase

/-- A register with nothing to see to but its bits. -/
structure Plain (r : Bool) (reg : Nat) : Prop where
  quiet : QuietReg reg
  rxctrl : reg ≠ Ixgbe.rxctrl
  setup : ConfiguresRx reg → r = true

theorem Phase.plain {r t : Bool} {m : Nat} (h : Phase card rxQueues txQueues r t m l) (hreg : Plain r reg)
    (hbits : KeepsBits card rxQueues txQueues l reg v) : Phase card rxQueues txQueues r t m (l ++ [.writeReg reg v]) :=
  h.write hbits hreg.setup (fun _ heq => absurd heq hreg.rxctrl) (fun i hi heq => absurd heq (hreg.quiet i hi).2.2)
    fun _ i hi heq => absurd heq (hreg.quiet i hi).2.1

theorem ConfiguresRx.lt (h : ConfiguresRx reg) : reg < 0x4000 := by
  rcases h with ⟨i, hi, rfl⟩ | ⟨i, hi, h⟩
  · rw [Ixgbe.rxpbsize]
    omega
  · rw [Ixgbe.srrctl, Ixgbe.rdbal, Ixgbe.rdbah, Ixgbe.rdlen, rxBlock_eq hi, rxBlock_eq hi, rxBlock_eq hi,
      rxBlock_eq hi] at h
    unfold maxQueues at hi
    split at h <;> omega

theorem ConfiguresRx.ge (h : ConfiguresRx reg) : 0x1000 ≤ reg := by
  rcases h with ⟨i, hi, rfl⟩ | ⟨i, hi, h⟩
  · rw [Ixgbe.rxpbsize]
    omega
  · rw [Ixgbe.srrctl, Ixgbe.rdbal, Ixgbe.rdbah, Ixgbe.rdlen, rxBlock_eq hi, rxBlock_eq hi, rxBlock_eq hi,
      rxBlock_eq hi] at h
    split at h <;> omega

theorem not_configuresRx_rxBlock {offset : Nat} (hi : i < maxQueues) (hlt : offset < 0x40) (hge : 0x0C ≤ offset)
    (hsrrctl : offset ≠ 0x14) : ¬ ConfiguresRx (Ixgbe.rxBlock i offset) := by
  rintro (⟨j, hj, h⟩ | ⟨j, hj, h⟩)
  · rw [rxBlock_eq hi, Ixgbe.rxpbsize] at h
    unfold maxQueues at hi
    omega
  · rw [Ixgbe.srrctl, Ixgbe.rdbal, Ixgbe.rdbah, Ixgbe.rdlen, rxBlock_eq hi, rxBlock_eq hj, rxBlock_eq hj,
      rxBlock_eq hj, rxBlock_eq hj] at h
    unfold maxQueues at hi hj
    split at h <;> omega

theorem Phase.rdt {r t : Bool} {m : Nat} (h : Phase card rxQueues txQueues r t m l) (hi : i < rxQueues)
    (hi' : i < maxQueues) (hv : v ≠ 0 → i < m) :
    Phase card rxQueues txQueues r t m (l ++ [.writeReg (Ixgbe.rdt i) v]) := by
  refine h.write (.all (.rxRing i 0x18 hi (by decide))) (fun hsetup => ?_) (fun _ heq => ?_) (fun j hj heq hne => ?_)
    fun _ j hj heq => absurd heq (rdt_ne hi' hj).2.1
  · exact absurd hsetup (not_configuresRx_rxBlock hi' (by decide) (by decide) (by decide))
  · rw [Ixgbe.rdt, rxBlock_eq hi', Ixgbe.rxctrl] at heq
    unfold maxQueues at hi'
    omega
  · rw [← (rdt_ne hi' hj).2.2 heq]
    exact hv hne

theorem Phase.rxdctl {r t : Bool} {m : Nat} (h : Phase card rxQueues txQueues r t m (l ++ [.readReg (Ixgbe.rxdctl i)]))
    (hi : i < rxQueues) (hi' : i < maxQueues) :
    Phase card rxQueues txQueues r t m (l ++ [.readReg (Ixgbe.rxdctl i)] ++
      [.writeReg (Ixgbe.rxdctl i) (card.reg l (Ixgbe.rxdctl i) % 2 ^ 32 ||| queueEnable)]) := by
  refine h.write (.modify (.rxdctl i hi) (or_testBit (by decide))) (fun hsetup => ?_) (fun _ heq => ?_)
    (fun j hj heq => absurd heq (rxdctl_ne hi' hj).1) fun _ j hj heq => absurd heq (rxdctl_ne hi' hj).2.1
  · exact absurd hsetup (not_configuresRx_rxBlock hi' (by decide) (by decide) (by decide))
  · rw [Ixgbe.rxdctl, rxBlock_eq hi', Ixgbe.rxctrl] at heq
    unfold maxQueues at hi'
    omega

theorem Phase.txdctl {r t : Bool} {m : Nat} (h : Phase card rxQueues txQueues r t m l)
    (hi' : i < maxQueues) (hbits : KeepsBits card rxQueues txQueues l (Ixgbe.txdctl i) v)
    (hv : t = false → card.TxStaysOff → v &&& queueEnable = 0) :
    Phase card rxQueues txQueues r t m (l ++ [.writeReg (Ixgbe.txdctl i) v]) := by
  refine h.write hbits (fun hsetup => ?_) (fun _ heq => ?_) (fun j hj heq => absurd heq (txdctl_ne hi' hj).1)
    fun hcard j hj heq hne => ?_
  · have := hsetup.lt
    rw [Ixgbe.txdctl] at this
    omega
  · rw [Ixgbe.txdctl, Ixgbe.rxctrl] at heq
    omega
  · cases t with
    | true => rfl
    | false => exact absurd (hv rfl hcard) hne

theorem Phase.rxctrl {t : Bool} {m : Nat} (h : Phase card rxQueues txQueues false t m l)
    (hbits : KeepsBits card rxQueues txQueues l Ixgbe.rxctrl v) :
    Phase card rxQueues txQueues false t m (l ++ [.writeReg Ixgbe.rxctrl v]) := by
  have hquiet : QuietReg Ixgbe.rxctrl := quietReg_of_outside (by decide) (by decide)
  refine h.write hbits (fun hsetup => ?_) nofun (fun j hj heq => absurd heq (hquiet j hj).2.2)
    fun _ j hj heq => absurd heq (hquiet j hj).2.1
  rcases hsetup with ⟨j, hj, heq⟩ | ⟨j, hj, heq⟩
  · rw [Ixgbe.rxctrl, Ixgbe.rxpbsize] at heq
    omega
  · rw [Ixgbe.rxctrl, Ixgbe.srrctl, Ixgbe.rdbal, Ixgbe.rdbah, Ixgbe.rdlen, rxBlock_eq hj, rxBlock_eq hj, rxBlock_eq hj,
      rxBlock_eq hj] at heq
    unfold maxQueues at hj
    split at heq <;> omega

theorem plain_rdh {r : Bool} (hi : i < maxQueues) : Plain r (Ixgbe.rdh i) := by
  refine ⟨quietReg_rxBlock hi 0x10 (by decide) (by decide) (by decide), ?_, fun hsetup => ?_⟩
  · rw [Ixgbe.rdh, rxBlock_eq hi, Ixgbe.rxctrl]
    unfold maxQueues at hi
    omega
  · exact absurd hsetup (not_configuresRx_rxBlock hi (by decide) (by decide) (by decide))

theorem plain_of_le {r : Bool} (h : 0x4000 ≤ reg) (htx : reg < 0x6000 ∨ 0x7000 ≤ reg) : Plain r reg := by
  refine ⟨quietReg_of_outside (by omega) htx, ?_, fun hsetup => absurd hsetup.lt (by omega)⟩
  rw [Ixgbe.rxctrl]
  omega

theorem plain_txBlock {r : Bool} (hi : i < maxQueues) (offset : Nat) (hoffset : offset < 0x40)
    (htxdctl : offset ≠ 0x28) : Plain r (0x06000 + offset + i * 0x40) := by
  refine ⟨quietReg_txBlock hi offset hoffset htxdctl, ?_, fun hsetup => absurd hsetup.lt (by omega)⟩
  rw [Ixgbe.rxctrl]
  omega

theorem Phase.txRing {r t : Bool} {m : Nat} (h : Phase card rxQueues txQueues r t m l) (hi : i < max rxQueues txQueues)
    (hi' : i < maxQueues) (offset : Nat) (hoffset : offset ∈ [0x00, 0x04, 0x08, 0x10, 0x18]) :
    Phase card rxQueues txQueues r t m (l ++ [.writeReg (0x06000 + offset + i * 0x40) v]) := by
  refine h.plain (plain_txBlock hi' offset ?_ ?_) (.all (.txRing i offset hi hoffset))
  all_goals
    simp only [List.mem_cons, List.not_mem_nil, or_false] at hoffset
    omega

/-- While the receiver is off, all of its registers are plain. -/
theorem plain_of_quiet (hquiet : QuietReg reg) (hrxctrl : reg ≠ Ixgbe.rxctrl) : Plain true reg :=
  ⟨hquiet, hrxctrl, fun _ => rfl⟩

theorem plain_rxBlock (hi : i < maxQueues) (offset : Nat) (hoffset : offset < 0x40) (hrdt : offset ≠ 0x18)
    (hrxdctl : offset ≠ 0x28) : Plain true (Ixgbe.rxBlock i offset) := by
  refine plain_of_quiet (quietReg_rxBlock hi offset hoffset hrdt hrxdctl) ?_
  rw [rxBlock_eq hi, Ixgbe.rxctrl]
  unfold maxQueues at hi
  omega

end

end Ixy
