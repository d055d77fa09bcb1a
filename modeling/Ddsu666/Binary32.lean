/- Single precision words of IEEE 754: their fields, the exact value of each, and their bytes. -/
import Mathlib.Data.Nat.Bitwise
import Mathlib.Algebra.Order.Field.Rat
import Mathlib.Tactic.Ring
import Mathlib.Tactic.FieldSimp
import Mathlib.Tactic.GCongr
import Mathlib.Tactic.Positivity
import Mathlib.Algebra.Order.Field.Power

namespace Binary32

def signBit (w : UInt32) : Bool := w.toNat.testBit 31

def exponentField (w : UInt32) : ℕ := w.toNat / 2 ^ 23 % 2 ^ 8

def fractionField (w : UInt32) : ℕ := w.toNat % 2 ^ 23

/-- Neither zero, subnormal, infinite nor a NaN. -/
def Normal (w : UInt32) : Prop := 1 ≤ exponentField w ∧ exponentField w ≤ 254

instance (w : UInt32) : Decidable (Normal w) := inferInstanceAs (Decidable (_ ∧ _))

def signFactor (w : UInt32) : ℚ := if signBit w then -1 else 1

/-- The rational number that a finite word denotes. -/
def value (w : UInt32) : ℚ :=
  if exponentField w = 0 then signFactor w * fractionField w * 2 ^ (-149 : ℤ)
  else signFactor w * 2 ^ ((exponentField w : ℤ) - 127) * (1 + fractionField w / 2 ^ 23)

/-- The four bytes of a word as the network carries them. -/
def bigEndian (w : UInt32) : List UInt8 :=
  [UInt8.ofNat (w.toNat / 2 ^ 24), UInt8.ofNat (w.toNat / 2 ^ 16), UInt8.ofNat (w.toNat / 2 ^ 8),
    UInt8.ofNat w.toNat]

@[simp] theorem length_bigEndian (w : UInt32) : (bigEndian w).length = 4 := rfl

theorem value_normal {w : UInt32} (h : Normal w) :
    value w =
      signFactor w * 2 ^ ((exponentField w : ℤ) - 127) * (1 + fractionField w / 2 ^ 23) := by
  have hne : exponentField w ≠ 0 := by
    have := h.1
    omega
  rw [value, if_neg hne]

/-! Exact results. -/

/-- A number of at most 24 significant bits, within the range of the normal numbers. -/
def Single (x : ℚ) : Prop :=
  ∃ k z : ℤ, |k| < 2 ^ 24 ∧ x = k * 2 ^ z ∧ 2 ^ (-126 : ℤ) ≤ |x| ∧ |x| < 2 ^ (128 : ℤ)

theorem Single.neg {x : ℚ} (h : Single x) : Single (-x) := by
  obtain ⟨k, z, hk, rfl, low, high⟩ := h
  refine ⟨-k, z, ?_, ?_, ?_, ?_⟩
  · rwa [abs_neg]
  · push_cast
    ring
  · rwa [abs_neg]
  · rwa [abs_neg]

theorem two_pow_mul (a : ℕ) (z : ℤ) : (2 : ℚ) ^ a * 2 ^ z = 2 ^ (a + z) := by
  rw [zpow_add₀ (by decide), zpow_natCast]

/-- A significand with its leading bit, at any exponent of a normal number. -/
theorem single_significand {k : ℕ} {z : ℤ} (leading : 2 ^ 23 ≤ k) (bits : k < 2 ^ 24)
    (small : -149 ≤ z) (large : z ≤ 104) : Single (k * 2 ^ z) := by
  have hpow : (0 : ℚ) < 2 ^ z := zpow_pos (by decide) z
  have habs : |(k : ℚ) * 2 ^ z| = k * 2 ^ z := abs_of_nonneg (by positivity)
  refine ⟨k, z, ?_, rfl, ?_, ?_⟩
  · rw [abs_of_nonneg (by positivity)]
    exact_mod_cast bits
  · calc (2 : ℚ) ^ (-126 : ℤ) ≤ 2 ^ ((23 : ℕ) + z) := zpow_le_zpow_right₀ (by decide) (by omega)
      _ = 2 ^ 23 * 2 ^ z := (two_pow_mul 23 z).symm
      _ ≤ k * 2 ^ z := by gcongr; exact_mod_cast leading
      _ = |(k : ℚ) * 2 ^ z| := habs.symm
  · calc |(k : ℚ) * 2 ^ z| = k * 2 ^ z := habs
      _ < 2 ^ 24 * 2 ^ z := by gcongr; exact_mod_cast bits
      _ = 2 ^ ((24 : ℕ) + z) := two_pow_mul 24 z
      _ ≤ 2 ^ (128 : ℤ) := zpow_le_zpow_right₀ (by decide) (by omega)

/-- A fraction of at most 23 bits behind a leading one, scaled. -/
theorem single_fraction {q j : ℕ} {e : ℤ} (hq : q < 2 ^ j) (hj : j ≤ 23) (small : -126 ≤ e)
    (large : e ≤ 127) : Single (2 ^ e * (1 + q / 2 ^ j)) := by
  have hpow : 2 ^ j * 2 ^ (23 - j) = 2 ^ 23 := by rw [← pow_add, Nat.add_sub_cancel' hj]
  have hleading : 2 ^ 23 ≤ (2 ^ j + q) * 2 ^ (23 - j) := by
    rw [Nat.add_mul, hpow]
    exact Nat.le_add_right _ _
  have hbits : (2 ^ j + q) * 2 ^ (23 - j) < 2 ^ 24 := by
    calc (2 ^ j + q) * 2 ^ (23 - j) < (2 ^ j + 2 ^ j) * 2 ^ (23 - j) := by gcongr
      _ = 2 ^ 24 := by rw [Nat.add_mul, hpow]; rfl
  have h := single_significand (z := e - 23) hleading hbits (by omega) (by omega)
  have hsame : (((2 ^ j + q) * 2 ^ (23 - j) : ℕ) : ℚ) * 2 ^ (e - 23) =
      2 ^ e * (1 + q / 2 ^ j) := by
    have hcast : (2 : ℚ) ^ j * 2 ^ (23 - j) = 2 ^ 23 := by exact_mod_cast hpow
    have hrest : (2 : ℚ) ^ (23 - j) = 2 ^ 23 / 2 ^ j := eq_div_of_mul_eq (by positivity)
      (by rw [mul_comm, hcast])
    rw [zpow_sub₀ (by decide)]
    push_cast
    rw [hrest]
    field_simp
    norm_num
  rwa [hsame] at h

theorem single_two_pow {e : ℤ} (small : -126 ≤ e) (large : e ≤ 127) : Single (2 ^ e) := by
  simpa using single_fraction (q := 0) (j := 0) (by decide) (by decide) small large

/-! Numbers are read from their most significant bit down. -/

/-- One more leading bit doubles the prefix that was read and adds the bit. -/
theorem div_two_pow_step (m j : ℕ) :
    m / 2 ^ j = 2 * (m / 2 ^ (j + 1)) + (m.testBit j).toNat := by
  have hbit : m / 2 ^ j % 2 = (m.testBit j).toNat := by
    rw [Nat.testBit_eq_decide_div_mod_eq]
    rcases Nat.mod_two_eq_zero_or_one (m / 2 ^ j) with h | h <;> simp [h]
  rw [Nat.pow_succ, ← Nat.div_div_eq_div_mul, ← hbit]
  omega

theorem testBit_exponentField (w : UInt32) {j : ℕ} (hj : j < 8) :
    (exponentField w).testBit j = w.toNat.testBit (23 + j) := by
  rw [exponentField, Nat.testBit_mod_two_pow, Nat.testBit_div_two_pow, decide_eq_true hj,
    Bool.true_and, Nat.add_comm]

theorem testBit_fractionField (w : UInt32) {j : ℕ} (hj : j < 23) :
    (fractionField w).testBit j = w.toNat.testBit j := by
  rw [fractionField, Nat.testBit_mod_two_pow, decide_eq_true hj, Bool.true_and]

theorem exponentField_lt (w : UInt32) : exponentField w < 2 ^ 8 := Nat.mod_lt _ (by decide)

theorem fractionField_lt (w : UInt32) : fractionField w < 2 ^ 23 := Nat.mod_lt _ (by decide)

/-- A one with the first `k` of 23 fraction bits behind it. -/
def leading (m k : ℕ) : ℚ := 1 + ((m / 2 ^ (23 - k) : ℕ) : ℚ) / 2 ^ k

theorem leading_zero {m : ℕ} (h : m < 2 ^ 23) : leading m 0 = 1 := by
  rw [leading, Nat.div_eq_of_lt h]
  simp

theorem leading_all (m : ℕ) : leading m 23 = 1 + m / 2 ^ 23 := by
  rw [leading, Nat.sub_self, pow_zero, Nat.div_one]

theorem leading_succ (m : ℕ) {k : ℕ} (hk : k + 1 ≤ 23) :
    leading m (k + 1) =
      leading m k + if m.testBit (23 - (k + 1)) then 1 / 2 ^ (k + 1) else 0 := by
  have hnext := div_two_pow_step m (23 - (k + 1))
  rw [show 23 - (k + 1) + 1 = 23 - k by omega] at hnext
  rw [leading, leading, hnext]
  cases m.testBit (23 - (k + 1)) with
  | false =>
      rw [if_neg (by decide), Bool.toNat_false]
      push_cast
      field_simp
      ring
  | true =>
      rw [if_pos rfl, Bool.toNat_true]
      push_cast
      field_simp
      ring

theorem single_leading {m k : ℕ} (h : m < 2 ^ 23) (hk : k ≤ 23) : Single (leading m k) := by
  have hsmall : m / 2 ^ (23 - k) < 2 ^ k := by
    apply Nat.div_lt_of_lt_mul
    rwa [← pow_add, Nat.sub_add_cancel hk]
  simpa only [leading, zpow_zero, one_mul] using
    single_fraction (e := 0) hsmall hk (by decide) (by decide)

/-- The bytes put together again give the word. -/
theorem bigEndian_sum (w : UInt32) :
    2 ^ 24 * (w.toNat / 2 ^ 24 % 256) + (2 ^ 16 * (w.toNat / 2 ^ 16 % 256) +
      (2 ^ 8 * (w.toNat / 2 ^ 8 % 256) + w.toNat % 256)) = w.toNat := by
  have h := w.toNat_lt
  omega

end Binary32
