import Mathlib.Tactic.Ring
import Mathlib.Data.Nat.Log

/-!
# Byte-addressed memory

A memory is a total map from addresses to bytes. Scalars are stored little-endian: `load w m a`
reads `w` bytes at `a`, `store w m a v` writes them. All that later proofs need is read-over-write,
for the same place (`load_store_self`) and for disjoint places (`load_store_of_disjoint`).
-/

namespace Ixy.Lib

/-- Memory: every address holds a byte. -/
abbrev Mem := Nat → UInt8

/-- The intervals `[a, a + m)` and `[b, b + n)` have no address in common. -/
def Apart (a m b n : Nat) : Prop := a + m ≤ b ∨ b + n ≤ a

theorem mul_add_le {i n : Nat} (size : Nat) (hi : i < n) : i * size + size ≤ n * size := by
  have hle : (i + 1) * size ≤ n * size := Nat.mul_le_mul_right _ hi
  rwa [Nat.add_mul, Nat.one_mul] at hle

theorem Apart.symm {a m b n : Nat} (h : Apart a m b n) : Apart b n a m := Or.symm h

theorem Apart.mono {a m b n a' m' b' n' : Nat} (h : Apart a m b n) (ha : a ≤ a')
    (ham : a' + m' ≤ a + m) (hb : b ≤ b') (hbn : b' + n' ≤ b + n) : Apart a' m' b' n' := by
  rcases h with h | h
  · exact Or.inl (by omega)
  · exact Or.inr (by omega)

/-- The `w`-byte little-endian number at `a`. -/
def load : Nat → Mem → Nat → Nat
  | 0, _, _ => 0
  | w + 1, m, a => (m a).toNat + 256 * load w m (a + 1)

/-- The `i`-th byte of a number. -/
def byteOf (v i : Nat) : UInt8 := UInt8.ofNat (v / 256 ^ i)

/-- Write the low `w` bytes of `v` at `a`. -/
def store (w : Nat) (m : Mem) (a v : Nat) : Mem :=
  fun x => if a ≤ x ∧ x < a + w then byteOf v (x - a) else m x

/-! ## Reading depends only on the bytes read -/

theorem load_congr {m m' : Mem} (w : Nat) {a : Nat} (h : ∀ x, a ≤ x → x < a + w → m x = m' x) :
    load w m a = load w m' a := by
  induction w generalizing a with
  | zero => rfl
  | succ w ih =>
    rw [load, load, h a (le_refl _) (by omega)]
    rw [ih fun x hx hx' => h x (by omega) (by omega)]

theorem load_shift {m m' : Mem} (w : Nat) {a b : Nat} (h : ∀ i < w, m (a + i) = m' (b + i)) :
    load w m a = load w m' b := by
  induction w generalizing a b with
  | zero => rfl
  | succ w ih =>
    have hfirst := h 0 (by omega)
    rw [Nat.add_zero, Nat.add_zero] at hfirst
    rw [load, load, hfirst, ih]
    intro i hi
    have hnext := h (i + 1) (by omega)
    rw [Nat.add_assoc, Nat.add_assoc, Nat.add_comm 1 i]
    exact hnext

/-! ## Reading over writing -/

theorem store_of_not_mem {w : Nat} {m : Mem} {a v x : Nat} (h : x < a ∨ a + w ≤ x) :
    store w m a v x = m x := by
  rw [store, if_neg (by omega)]

/-- Two memories that agree up to a shift still do after the same write to both. -/
theorem store_shift {a b : Mem} {k n : Nat} (h : ∀ x < n, a (k + x) = b x) (w o v : Nat) :
    ∀ x < n, store w a (k + o) v (k + x) = store w b o v x := by
  intro x hx
  rw [store, store, Nat.add_sub_add_left, h x hx]
  simp only [Nat.add_le_add_iff_left, Nat.add_assoc, Nat.add_lt_add_iff_left]

theorem byteOf_zero (v : Nat) : (byteOf v 0).toNat = v % 256 := by simp [byteOf]

theorem byteOf_succ (v i : Nat) : byteOf v (i + 1) = byteOf (v / 256) i := by
  rw [byteOf, byteOf, pow_succ, Nat.mul_comm, Nat.div_div_eq_div_mul]

/-- The number whose bytes are spelled out from `a` on is read back modulo the width. -/
theorem load_of_bytes {m : Mem} (w : Nat) {a v : Nat} (h : ∀ i, i < w → m (a + i) = byteOf v i) :
    load w m a = v % 256 ^ w := by
  induction w generalizing a v with
  | zero => simp [load, Nat.mod_one]
  | succ w ih =>
    have h0 : (m a).toNat = v % 256 := by
      have := h 0 (by omega)
      rw [Nat.add_zero] at this
      rw [this, byteOf_zero]
    have hrest := @ih (a + 1) (v / 256) fun i hi => by
      rw [← byteOf_succ, ← h (i + 1) (by omega)]
      congr 1
      omega
    rw [load, h0, hrest, pow_succ, Nat.mul_comm (256 ^ w) 256, Nat.mod_mul]

theorem byte_of_load (m : Mem) {w k : Nat} (a : Nat) (hk : k < w) : m (a + k) = byteOf (load w m a) k := by
  induction w generalizing a k with
  | zero => omega
  | succ w ih =>
    have hbyte := (m a).toNat_lt
    cases k with
    | zero =>
      refine UInt8.toNat_inj.mp ?_
      rw [byteOf_zero, load, Nat.add_mul_mod_self_left, Nat.add_zero, Nat.mod_eq_of_lt hbyte]
    | succ k =>
      rw [byteOf_succ, load, Nat.add_mul_div_left _ _ (by decide), Nat.div_eq_of_lt hbyte, Nat.zero_add,
        ← ih (a + 1) (by omega), Nat.add_right_comm, Nat.add_assoc]

@[simp] theorem load_store_self (w : Nat) (m : Mem) (a v : Nat) :
    load w (store w m a v) a = v % 256 ^ w := by
  refine load_of_bytes w fun i hi => ?_
  rw [store, if_pos (by omega), Nat.add_sub_cancel_left]

theorem load_store_of_disjoint {w w' : Nat} {m : Mem} {a b v : Nat} (h : Apart a w b w') :
    load w (store w' m b v) a = load w m a := by
  refine load_congr w fun x hx hx' => store_of_not_mem ?_
  rcases h with h | h <;> omega

end Ixy.Lib
