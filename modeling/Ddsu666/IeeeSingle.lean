/- The arithmetic of single precision: an operation does not round a result that needs no
rounding. -/
import Mathlib
import Ddsu666.Binary32

namespace Binary32
open Float.Model Float.Model.UnpackedFloat

/-! Rounding keeps a number whose significand has 24 bits, however many zeros follow them. -/

theorem targetExponent_binary32 {t : ℤ} (h : -125 ≤ t) :
    Format.binary32.targetExponent t = t - 24 := by
  have hm : (Format.binary32.mantissaBits : ℤ) = 24 := rfl
  have hmin : Format.binary32.minExponent = -149 := by decide
  rw [Format.targetExponent, hm, hmin]
  omega

theorem log2_shifted {q : ℕ} (low : 2 ^ 23 ≤ q) (high : q < 2 ^ 24) (n : ℕ) :
    (q * 2 ^ n).log2 = 23 + n := by
  have hpos : 0 < q * 2 ^ n := Nat.mul_pos (by omega) (Nat.two_pow_pos n)
  rw [Nat.log2_eq_iff (by omega), pow_add, show 23 + n + 1 = 24 + n by omega, pow_add]
  exact ⟨Nat.mul_le_mul_right _ low, Nat.mul_lt_mul_of_pos_right high (Nat.two_pow_pos n)⟩

theorem shiftRight_zeros (q n : ℕ) :
    (⟨q * 2 ^ n, false, false⟩ : ExtendedMantissa) >>> n = ⟨q, false, false⟩ := by
  change Nat.repeat ExtendedMantissa.shiftRightOne n _ = _
  induction n generalizing q with
  | zero => simp [Nat.repeat]
  | succ n ih =>
      rw [Nat.repeat, show q * 2 ^ (n + 1) = q * 2 * 2 ^ n by ring, ih]
      simp [ExtendedMantissa.shiftRightOne]

section Significand

variable {q : ℕ} {z : ℤ} (low : 2 ^ 23 ≤ q) (high : q < 2 ^ 24) (small : -149 ≤ z)

include low high small

theorem totalExponent_shifted (n : ℕ) :
    Format.binary32.targetExponent (totalExponent (q * 2 ^ n) (z - n)) = z := by
  rw [totalExponent, log2_shifted low high, targetExponent_binary32 (by push_cast; omega)]
  push_cast
  omega

theorem shiftToTargetExponent_shifted (n : ℕ) :
    shiftToTargetExponent Format.binary32 (q * 2 ^ n) (z - n) .exact = (⟨q, false, false⟩, z) := by
  have hshift : (z - (z - n)).toNat = n := by omega
  rw [shiftToTargetExponent, totalExponent_shifted low high small, shiftToExponent, hshift]
  simp only [ExtendedMantissa.ofMantissaAndAccuracy, shiftRight_zeros, Prod.mk.injEq, true_and]
  omega

theorem roundWithAccuracy_shifted (s : Sign) (n : ℕ) :
    roundWithAccuracy Format.binary32 s (q * 2 ^ n) (z - n) .exact =
      .finite s q z (by omega) := by
  have hagain := shiftToTargetExponent_shifted low high small 0
  simp only [pow_zero, mul_one, Nat.cast_zero, sub_zero] at hagain
  simp only [roundWithAccuracy, shiftToTargetExponent_shifted low high small, hagain,
    ExtendedMantissa.roundedMantissa, ExtendedMantissa.accuracy, Accuracy.roundToNearestEven]
  rw [dif_neg (by omega)]

end Significand

/-- Of two significands of a number, the one at the smaller exponent has zeros behind the other. -/
theorem significand_shifted {m q : ℕ} {e : ℤ} {n : ℕ} (h : (m : ℚ) * 2 ^ e = q * 2 ^ (e + n)) :
    m = q * 2 ^ n := by
  have hpow : (2 : ℚ) ^ e ≠ 0 := zpow_ne_zero e (by decide)
  rw [zpow_add₀ (by decide), zpow_natCast, ← mul_assoc, mul_right_comm] at h
  exact_mod_cast mul_right_cancel₀ hpow h

theorem log2_unshifted {m n : ℕ} (low : 2 ^ 23 ≤ m * 2 ^ n) (high : m * 2 ^ n < 2 ^ 24) :
    m.log2 + n = 23 := by
  have hne : m ≠ 0 := by
    rintro rfl
    simp at low
  have hlow : m.log2 + n < 24 := by
    rw [← Nat.pow_lt_pow_iff_right (by decide : 1 < 2), pow_add]
    exact (Nat.mul_le_mul_right _ (Nat.log2_self_le hne)).trans_lt high
  have hhigh : 23 < m.log2 + 1 + n := by
    rw [← Nat.pow_lt_pow_iff_right (by decide : 1 < 2), pow_add]
    exact low.trans_lt (Nat.mul_lt_mul_of_pos_right Nat.lt_log2_self (Nat.two_pow_pos n))
  omega

theorem round_normal {q m : ℕ} {z e : ℤ} (low : 2 ^ 23 ≤ q) (high : q < 2 ^ 24) (small : -149 ≤ z)
    (same : (m : ℚ) * 2 ^ e = q * 2 ^ z) (s : Sign) :
    UnpackedFloat.round Format.binary32 s m e = .finite s q z (by omega) := by
  rcases le_total e z with hle | hle
  · obtain ⟨n, rfl⟩ := Int.le.dest hle
    obtain rfl := significand_shifted same
    have htarget := totalExponent_shifted low high small n
    have hround := roundWithAccuracy_shifted low high small s n
    rw [add_sub_cancel_right] at htarget hround
    have hkeep : (e - (e + n)).toNat = 0 := by omega
    simp only [UnpackedFloat.round, htarget, decreaseExponent, hkeep, Nat.shiftLeft_zero,
      Nat.cast_zero, sub_zero, hround]
  · obtain ⟨n, rfl⟩ := Int.le.dest hle
    obtain rfl := significand_shifted same.symm
    have htarget : Format.binary32.targetExponent (totalExponent m (z + n)) = z := by
      have hlog := log2_unshifted low high
      rw [totalExponent, targetExponent_binary32 (by omega)]
      omega
    have hround := roundWithAccuracy_shifted low high small s 0
    rw [pow_zero, mul_one, Nat.cast_zero, sub_zero] at hround
    have hshift : (z + n - z).toNat = n := by omega
    simp only [UnpackedFloat.round, htarget, decreaseExponent, hshift, Nat.shiftLeft_eq,
      add_sub_cancel_right, hround]

/-- The significand of 24 bits that a normal number has. -/
theorem Single.significand {x : ℚ} (h : Single x) (pos : 0 < x) :
    ∃ (q : ℕ) (z : ℤ), 2 ^ 23 ≤ q ∧ q < 2 ^ 24 ∧ -149 ≤ z ∧ z ≤ 104 ∧ x = q * 2 ^ z := by
  obtain ⟨k, z, hk, rfl, hlow, hhigh⟩ := h
  have hpow : (0 : ℚ) < 2 ^ z := zpow_pos (by decide) z
  have hkpos : (0 : ℚ) < k := (mul_pos_iff_of_pos_right hpow).mp pos
  obtain ⟨m, rfl⟩ := Int.eq_ofNat_of_zero_le (by exact_mod_cast hkpos.le)
  rw [Int.cast_natCast] at pos hkpos hlow hhigh ⊢
  rw [Nat.abs_cast] at hk
  rw [abs_of_pos pos] at hlow hhigh
  have hne : m ≠ 0 := by
    rintro rfl
    simp at hkpos
  have hbits : m.log2 ≤ 23 := by
    apply Nat.le_of_lt_succ
    rw [Nat.log2_lt hne]
    exact_mod_cast hk
  obtain ⟨n, hn⟩ := Nat.exists_eq_add_of_le hbits
  have hleading : 2 ^ 23 ≤ m * 2 ^ n := by
    rw [hn, pow_add]
    exact Nat.mul_le_mul_right _ (Nat.log2_self_le hne)
  have hshort : m * 2 ^ n < 2 ^ 24 := by
    rw [show 24 = m.log2 + 1 + n by omega, pow_add]
    exact Nat.mul_lt_mul_of_pos_right Nat.lt_log2_self (Nat.two_pow_pos n)
  have hsame : (m : ℚ) * 2 ^ z = ((m * 2 ^ n : ℕ) : ℚ) * 2 ^ (z - n) := by
    rw [zpow_sub₀ (by decide), zpow_natCast]
    push_cast
    field_simp
  refine ⟨m * 2 ^ n, z - n, hleading, hshort, ?_, ?_, hsame⟩
  · rw [hsame] at hlow
    by_contra hsmall
    refine absurd hlow (not_le.mpr ?_)
    calc ((m * 2 ^ n : ℕ) : ℚ) * 2 ^ (z - n) < 2 ^ 24 * 2 ^ (z - n) := by
          gcongr
          exact_mod_cast hshort
      _ = 2 ^ ((24 : ℕ) + (z - n)) := two_pow_mul 24 _
      _ ≤ 2 ^ (-126 : ℤ) := zpow_le_zpow_right₀ (by decide) (by omega)
  · rw [hsame] at hhigh
    by_contra hlarge
    refine absurd hhigh (not_lt.mpr ?_)
    calc (2 : ℚ) ^ (128 : ℤ) ≤ 2 ^ ((23 : ℕ) + (z - n)) :=
          zpow_le_zpow_right₀ (by decide) (by omega)
      _ = 2 ^ 23 * 2 ^ (z - n) := (two_pow_mul 23 _).symm
      _ ≤ ((m * 2 ^ n : ℕ) : ℚ) * 2 ^ (z - n) := by
          gcongr
          exact_mod_cast hleading

/-! A normal number survives being packed into its 32 bits. -/

theorem unpack_pack_normal {q : ℕ} {z : ℤ} (low : 2 ^ 23 ≤ q) (high : q < 2 ^ 24)
    (small : -149 ≤ z) (large : z ≤ 104) (s : Sign) (pos : 0 < q) :
    UnpackedFloat.unpack Format.binary32
      (UnpackedFloat.pack Format.binary32 (.finite s q z pos)) = .finite s q z pos := by
  have hlog : q.log2 = 23 := by simpa using log2_shifted low high 0
  obtain ⟨b, hb⟩ := Int.eq_ofNat_of_zero_le (by omega : 0 ≤ z + 150)
  have hbias : (z + (Format.binary32.exponentBias : ℕ) +
      (Format.binary32.mantissaBitsWithoutImplicit : ℕ)).toNat = b := by
    have hbiased : (Format.binary32.exponentBias : ℤ) = 127 := by decide
    have hfraction : (Format.binary32.mantissaBitsWithoutImplicit : ℤ) = 23 := rfl
    rw [hbiased, hfraction]
    omega
  have hpack : UnpackedFloat.pack Format.binary32 (.finite s q z pos) =
      packComponents Format.binary32 s (BitVec.ofNat _ b) (BitVec.ofNat _ q) := by
    simp only [UnpackedFloat.pack, hbias, hlog]
    rw [if_neg (by simp; omega), if_pos (by decide)]
  rw [hpack]
  simp only [UnpackedFloat.unpack, unpackMantissa_packComponents, unpackExponent_packComponents,
    unpackSign_packComponents, Sign.ofBitVec_toBitVec]
  have hexponent : (BitVec.ofNat 8 b).toNat = b := Nat.mod_eq_of_lt (by omega)
  have hfraction : (BitVec.ofNat 23 q).toNat = q - 2 ^ 23 := by
    rw [BitVec.toNat_ofNat]
    omega
  have hdiffers : ∀ field : BitVec 8, b ≠ field.toNat → BitVec.ofNat 8 b ≠ field := by
    intro field hne heq
    rw [← heq] at hne
    exact hne hexponent.symm
  have htop : BitVec.ofNat 8 b ≠ -1#8 := hdiffers _ (by change b ≠ 255; omega)
  have hbottom : BitVec.ofNat 8 b ≠ 0#8 := hdiffers _ (by change b ≠ 0; omega)
  have hsignificand : (1#1 ++ BitVec.ofNat 23 q).toNat = q := by
    rw [BitVec.toNat_append, ← Nat.shiftLeft_add_eq_or_of_lt (BitVec.isLt _), hfraction]
    simp [Nat.shiftLeft_eq]
    omega
  have hbiased : (Format.binary32.exponentBias : ℤ) = 127 := by decide
  rw [if_neg htop, if_neg hbottom]
  refine (UnpackedFloat.finite.injEq ..).mpr ⟨rfl, hsignificand, ?_⟩
  rw [hexponent, hbiased, ← hb]
  simp

/-! The numbers that floats denote. -/

def ratOf : UnpackedFloat → Option ℚ
  | .finite s m e _ => some (s.apply m * 2 ^ e)
  | .zero _ => some 0
  | .infinity _ | .notANumber => none

/-- A float in the form in which normal numbers are packed. -/
def Denotes (u : UnpackedFloat) (x : ℚ) : Prop :=
  ∃ (s : Sign) (q : ℕ) (z : ℤ) (pos : 0 < q), u = .finite s q z pos ∧ 2 ^ 23 ≤ q ∧ q < 2 ^ 24 ∧
    -149 ≤ z ∧ z ≤ 104 ∧ x = s.apply q * 2 ^ z

theorem Denotes.packed {u : UnpackedFloat} {x : ℚ} (h : Denotes u x) :
    ratOf (UnpackedFloat.unpack Format.binary32 (UnpackedFloat.pack Format.binary32 u)) =
      some x := by
  obtain ⟨s, q, z, pos, rfl, low, high, small, large, rfl⟩ := h
  rw [unpack_pack_normal low high small large s pos, ratOf]

/-- Without its sign a normal number is one too. -/
theorem single_unsigned {s : Sign} {m : ℕ} {e : ℤ} (h : Single (s.apply m * 2 ^ e)) :
    Single (m * 2 ^ e) := by
  cases s with
  | positive => exact_mod_cast h
  | negative =>
      have hneg := h.neg
      simpa [Sign.apply] using hneg

theorem Single.pos_unsigned {m : ℕ} {e : ℤ} (h : Single (m * 2 ^ e)) : (0 : ℚ) < m * 2 ^ e := by
  obtain ⟨-, -, -, -, hlow, -⟩ := h
  have hpos : (0 : ℚ) < |(m : ℚ) * 2 ^ e| := (zpow_pos (by decide) _).trans_le hlow
  rwa [abs_of_nonneg (by positivity)] at hpos

theorem round_denotes {s : Sign} {m : ℕ} {e : ℤ} (h : Single (s.apply m * 2 ^ e)) :
    Denotes (UnpackedFloat.round Format.binary32 s m e) (s.apply m * 2 ^ e) := by
  have hsingle := single_unsigned h
  obtain ⟨q, z, low, high, small, large, same⟩ := hsingle.significand hsingle.pos_unsigned
  refine ⟨s, q, z, by omega, round_normal low high small same s, low, high, small, large, ?_⟩
  cases s with
  | positive => simpa [Sign.apply] using same
  | negative => simpa [Sign.apply] using same

/-- With 24 bits or more the significand need not be extended first. -/
theorem roundWithAccuracy_denotes {s : Sign} {m : ℕ} {e : ℤ} (h : Single (s.apply m * 2 ^ e))
    (long : 2 ^ 23 ≤ m) :
    Denotes (roundWithAccuracy Format.binary32 s m e .exact) (s.apply m * 2 ^ e) := by
  have hsingle := single_unsigned h
  obtain ⟨q, z, low, high, small, large, same⟩ := hsingle.significand hsingle.pos_unsigned
  have hle : e ≤ z := by
    have hlt : (2 : ℚ) ^ ((23 : ℕ) + e) < 2 ^ ((24 : ℕ) + z) := by
      rw [← two_pow_mul, ← two_pow_mul]
      calc (2 : ℚ) ^ 23 * 2 ^ e ≤ m * 2 ^ e := by
            gcongr
            exact_mod_cast long
        _ = q * 2 ^ z := same
        _ < 2 ^ 24 * 2 ^ z := by
            gcongr
            exact_mod_cast high
    have := (zpow_lt_zpow_iff_right₀ (by decide)).mp hlt
    omega
  obtain ⟨n, rfl⟩ := Int.le.dest hle
  obtain rfl := significand_shifted same
  have hround := roundWithAccuracy_shifted low high small s n
  rw [add_sub_cancel_right] at hround
  refine ⟨s, q, e + n, by omega, hround, low, high, small, large, ?_⟩
  cases s with
  | positive => simpa [Sign.apply] using same
  | negative => simpa [Sign.apply] using same

theorem normalize_denotes {m e : ℤ} (h : Single (m * 2 ^ e)) (zeroSign : Sign) :
    Denotes (UnpackedFloat.normalize Format.binary32 m e zeroSign) (m * 2 ^ e) := by
  rcases lt_trichotomy m 0 with hneg | rfl | hpos
  · have happly : (Sign.negative.apply ((-m).toNat : ℕ) : ℤ) = m := by
      simp only [Sign.apply]
      omega
    rw [UnpackedFloat.normalize, Int.compare_eq_lt.mpr hneg]
    have hround := round_denotes (s := .negative) (m := (-m).toNat) (e := e)
    rw [happly] at hround
    exact hround h
  · obtain ⟨-, -, -, -, hlow, -⟩ := h
    rw [Int.cast_zero, zero_mul, abs_zero] at hlow
    exact absurd hlow (not_le.mpr (zpow_pos (by decide) _))
  · have happly : (Sign.positive.apply (m.toNat : ℕ) : ℤ) = m := by
      simp only [Sign.apply]
      omega
    rw [UnpackedFloat.normalize, Int.compare_eq_gt.mpr hpos]
    have hround := round_denotes (s := .positive) (m := m.toNat) (e := e)
    rw [happly] at hround
    exact hround h

/-- What unpacking yields: at most 24 bits, and fewer only at the least exponent. -/
def Canonical : UnpackedFloat → Prop
  | .finite _ m e _ => m < 2 ^ 24 ∧ -149 ≤ e ∧ e ≤ 104 ∧ (2 ^ 23 ≤ m ∨ e = -149)
  | .zero _ | .infinity _ | .notANumber => True

theorem canonical_unpack (b : BitVec Format.binary32.numBits) :
    Canonical (UnpackedFloat.unpack Format.binary32 b) := by
  have hbiased : (Format.binary32.exponentBias : ℤ) = 127 := by decide
  have hfraction : (unpackMantissa b).toNat < 2 ^ 23 := BitVec.isLt _
  have hexponent : (unpackExponent b).toNat < 2 ^ 8 := BitVec.isLt _
  simp only [UnpackedFloat.unpack]
  split
  · split <;> trivial
  · rename_i htop
    split
    · split
      · trivial
      · rename_i hzero _
        refine ⟨by omega, ?_, ?_, .inr ?_⟩
        all_goals
          rw [hzero, hbiased]
          simp
    · rename_i hnormal
      have hlow : (unpackExponent b).toNat ≠ 0 := fun h => hnormal (BitVec.eq_of_toNat_eq h)
      have hhigh : (unpackExponent b).toNat ≠ 2 ^ 8 - 1 :=
        fun h => htop (BitVec.eq_of_toNat_eq (h.trans (by decide)))
      have hsignificand : (1#1 ++ unpackMantissa b).toNat = 2 ^ 23 + (unpackMantissa b).toNat := by
        rw [BitVec.toNat_append, ← Nat.shiftLeft_add_eq_or_of_lt hfraction]
        rfl
      refine ⟨by omega, ?_, ?_, .inl (by omega)⟩
      all_goals
        rw [hbiased]
        simp only [Nat.cast_ofNat]
        omega

theorem not_single_zero : ¬ Single 0 := by
  rintro ⟨-, -, -, -, hlow, -⟩
  rw [abs_zero] at hlow
  exact absurd hlow (not_le.mpr (zpow_pos (by decide) _))

theorem Canonical.denotes {u : UnpackedFloat} {x : ℚ} (c : Canonical u) (value : ratOf u = some x)
    (h : Single x) : Denotes u x := by
  cases u with
  | infinity | notANumber => cases value
  | zero =>
      obtain rfl := Option.some.inj value
      exact absurd h not_single_zero
  | finite s m e pos =>
      obtain rfl := Option.some.inj value
      obtain ⟨bits, small, large, normal⟩ := c
      refine ⟨s, m, e, pos, rfl, ?_, bits, small, large, rfl⟩
      by_contra hshort
      obtain rfl := normal.resolve_left hshort
      obtain ⟨-, -, -, -, hlow, -⟩ := single_unsigned h
      rw [abs_of_nonneg (by positivity)] at hlow
      refine absurd hlow (not_le.mpr ?_)
      calc (m : ℚ) * 2 ^ (-149 : ℤ) < 2 ^ 23 * 2 ^ (-149 : ℤ) := by
            gcongr
            exact_mod_cast not_le.mp hshort
        _ = 2 ^ ((23 : ℕ) + -149 : ℤ) := two_pow_mul 23 _
        _ = 2 ^ (-126 : ℤ) := by norm_num

theorem apply_mul (s₁ s₂ : Sign) (m₁ m₂ : ℕ) :
    (s₁ * s₂).apply ((m₁ * m₂ : ℕ) : ℤ) = s₁.apply m₁ * s₂.apply m₂ := by
  rw [Nat.cast_mul]
  cases s₁ with
  | positive => cases s₂ with
      | positive => rfl
      | negative => exact (mul_neg _ _).symm
  | negative => cases s₂ with
      | positive => exact (neg_mul _ _).symm
      | negative => exact (neg_mul_neg _ _).symm

/-- The product of two floats, at least one of them not subnormal, still has 24 bits to keep. -/
theorem mul_denotes {u v : UnpackedFloat} {p q : ℚ} (cu : Canonical u) (cv : Canonical v)
    (hu : ratOf u = some p) (hv : ratOf v = some q) (h : Single (p * q)) :
    Denotes (UnpackedFloat.mul Format.binary32 u v) (p * q) := by
  cases u with
  | infinity | notANumber => cases hu
  | zero =>
      obtain rfl := Option.some.inj hu
      rw [zero_mul] at h
      exact absurd h not_single_zero
  | finite s₁ m₁ e₁ pos₁ =>
      cases v with
      | infinity | notANumber => cases hv
      | zero =>
          obtain rfl := Option.some.inj hv
          rw [mul_zero] at h
          exact absurd h not_single_zero
      | finite s₂ m₂ e₂ pos₂ =>
          obtain rfl := Option.some.inj hu
          obtain rfl := Option.some.inj hv
          have hproduct : (s₁.apply m₁ * 2 ^ e₁ * (s₂.apply m₂ * 2 ^ e₂) : ℚ) =
              ((s₁ * s₂).apply ((m₁ * m₂ : ℕ) : ℤ) : ℤ) * 2 ^ (e₁ + e₂) := by
            rw [apply_mul, zpow_add₀ (by decide)]
            push_cast
            ring
          rw [hproduct] at h ⊢
          refine roundWithAccuracy_denotes h ?_
          by_contra hshort
          have hfirst : ¬ 2 ^ 23 ≤ m₁ := by
            intro hlong
            exact hshort (hlong.trans (Nat.le_mul_of_pos_right m₁ pos₂))
          have hsecond : ¬ 2 ^ 23 ≤ m₂ := by
            intro hlong
            exact hshort (hlong.trans (Nat.le_mul_of_pos_left m₂ pos₁))
          obtain rfl := cu.2.2.2.resolve_left hfirst
          obtain rfl := cv.2.2.2.resolve_left hsecond
          obtain ⟨-, -, -, -, hlow, -⟩ := single_unsigned h
          rw [abs_of_nonneg (by positivity)] at hlow
          refine absurd hlow (not_le.mpr ?_)
          calc ((m₁ * m₂ : ℕ) : ℚ) * 2 ^ (-149 + -149 : ℤ) < 2 ^ 23 * 2 ^ (-149 + -149 : ℤ) := by
                gcongr
                exact_mod_cast not_le.mp hshort
            _ = 2 ^ ((23 : ℕ) + (-149 + -149) : ℤ) := two_pow_mul 23 _
            _ ≤ 2 ^ (-126 : ℤ) := zpow_le_zpow_right₀ (by decide) (by decide)

theorem apply_shiftLeft (s : Sign) (m n : ℕ) :
    s.apply ((m <<< n : ℕ) : ℤ) = s.apply (m : ℤ) * 2 ^ n := by
  rw [Nat.shiftLeft_eq]
  cases s with
  | positive => simp [Sign.apply]
  | negative => simp [Sign.apply]

/-- Both significands are brought to the smaller exponent, and their sum keeps 24 bits. -/
theorem add_denotes {u v : UnpackedFloat} {p q : ℚ} (cu : Canonical u) (cv : Canonical v)
    (hu : ratOf u = some p) (hv : ratOf v = some q) (h : Single (p + q)) :
    Denotes (UnpackedFloat.add Format.binary32 u v) (p + q) := by
  cases u with
  | infinity | notANumber => cases hu
  | zero =>
      cases v with
      | infinity | notANumber => cases hv
      | zero =>
          obtain rfl := Option.some.inj hu
          obtain rfl := Option.some.inj hv
          rw [add_zero] at h
          exact absurd h not_single_zero
      | finite =>
          obtain rfl := Option.some.inj hu
          rw [zero_add] at h ⊢
          exact cv.denotes hv h
  | finite s₁ m₁ e₁ pos₁ =>
      cases v with
      | infinity | notANumber => cases hv
      | zero =>
          obtain rfl := Option.some.inj hv
          rw [add_zero] at h ⊢
          exact cu.denotes hu h
      | finite s₂ m₂ e₂ pos₂ =>
          obtain rfl := Option.some.inj hu
          obtain rfl := Option.some.inj hv
          have haligned : ∀ (s : Sign) (m : ℕ) (e least : ℤ), least ≤ e →
              (s.apply m * 2 ^ e : ℚ) =
                (s.apply ((m <<< (e - least).toNat : ℕ) : ℤ) : ℤ) * 2 ^ least := by
            intro s m e least hle
            rw [apply_shiftLeft]
            push_cast
            rw [mul_assoc, two_pow_mul, show ((e - least).toNat : ℤ) + least = e by omega]
          rw [haligned s₁ m₁ e₁ _ (min_le_left e₁ e₂), haligned s₂ m₂ e₂ _ (min_le_right e₁ e₂),
            ← add_mul, ← Int.cast_add] at h ⊢
          exact normalize_denotes h .positive

theorem apply_neg (s : Sign) (m : ℤ) : (-s).apply m = -s.apply m := by
  cases s with
  | positive => rfl
  | negative => exact (neg_neg m).symm

theorem neg_denotes {u : UnpackedFloat} {p : ℚ} (cu : Canonical u) (hu : ratOf u = some p)
    (h : Single p) : Denotes u.neg (-p) := by
  obtain ⟨s, q, z, pos, rfl, low, high, small, large, rfl⟩ := cu.denotes hu h
  refine ⟨-s, q, z, pos, rfl, low, high, small, large, ?_⟩
  rw [apply_neg]
  push_cast
  ring

/-! The machine's single precision numbers. -/

def toRat? (x : Float32) : Option ℚ := ratOf x.toModel.unpack

theorem canonical (x : Float32) : Canonical x.toModel.unpack := canonical_unpack _

theorem Denotes.toRat? {u : UnpackedFloat} {x : ℚ} (h : Denotes u x) :
    toRat? ⟨Float32.Model.pack u⟩ = some x := h.packed

/-- The float nearest to a power of two. -/
def twoPow (e : ℤ) : Float32 :=
  ⟨Float32.Model.pack (UnpackedFloat.round Format.binary32 .positive 1 e)⟩

theorem twoPow_exact {e : ℤ} (h : Single (2 ^ e)) : toRat? (twoPow e) = some (2 ^ e) := by
  have hone : ((Sign.positive.apply ((1 : ℕ) : ℤ) : ℤ) : ℚ) * 2 ^ e = 2 ^ e := by
    simp [Sign.apply]
  rw [← hone] at h
  rw [← hone]
  exact (round_denotes h).toRat?

theorem neg_exact {x : Float32} {p : ℚ} (hx : toRat? x = some p) (h : Single p) :
    toRat? x.neg = some (-p) :=
  (neg_denotes (canonical x) hx h).toRat?

theorem add_exact {x y : Float32} {p q : ℚ} (hx : toRat? x = some p) (hy : toRat? y = some q)
    (h : Single (p + q)) : toRat? (x.add y) = some (p + q) :=
  (add_denotes (canonical x) (canonical y) hx hy h).toRat?

theorem mul_exact {x y : Float32} {p q : ℚ} (hx : toRat? x = some p) (hy : toRat? y = some q)
    (h : Single (p * q)) : toRat? (x.mul y) = some (p * q) :=
  (mul_denotes (canonical x) (canonical y) hx hy h).toRat?

end Binary32
