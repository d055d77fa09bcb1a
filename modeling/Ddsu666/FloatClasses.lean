/- What `float_from_8hex` of tools.c makes of each class of finite words, in exact arithmetic. -/
import Ddsu666.MeterFloat

namespace Ddsu666
open Binary32

def encodedWord (arr : Fin 4 → ℕ) : UInt32 := UInt32.ofNat (wordOf arr)

section Exact

variable {arr : Fin 4 → ℕ} (small : ∀ j, arr j < 2 ^ 8)

include small

theorem encodedWord_toNat : wordOf arr = (encodedWord arr).toNat := by
  have h0 := small 0
  have h1 := small 1
  have h2 := small 2
  have h3 := small 3
  rw [encodedWord, UInt32.toNat_ofNat_of_lt']
  rw [wordOf, UInt32.size]
  omega

/-- The leading one is added whatever the exponent field is. -/
theorem floatFrom8hex_exact :
    (floatFrom8hex arr : ℚ) = signFactor (encodedWord arr) *
      2 ^ ((exponentField (encodedWord arr) : ℤ) - 127) *
        (1 + fractionField (encodedWord arr) / 2 ^ 23) := by
  have hw := encodedWord_toNat small
  have hsign : isOne (binaryString arr) 0 = signBit (encodedWord arr) := by
    rw [isOne_binaryString small (by decide), hw, signBit]
  have hanswer := Option.some.inj (fractionLoop_turns (F := ℚ) small hw (k := 23) le_rfl).1
  rw [leading_all] at hanswer
  rw [floatFrom8hex]
  simp only [hsign, exponentLoop_word small hw, hanswer, signFactor, FloatArith.mul,
    FloatArith.neg, FloatArith.pow2]
  cases signBit (encodedWord arr) with
  | false => rw [if_neg (by decide), if_neg (by decide), one_mul]
  | true => rw [if_pos rfl, if_pos rfl, neg_one_mul]

theorem floatFrom8hex_subnormal (h : exponentField (encodedWord arr) = 0) :
    (floatFrom8hex arr : ℚ) ≠ value (encodedWord arr) := by
  obtain ⟨w, hword⟩ : ∃ w, encodedWord arr = w := ⟨_, rfl⟩
  rw [floatFrom8hex_exact small]
  rw [hword] at h ⊢
  have hfraction : (fractionField w : ℚ) < 2 ^ 23 := by exact_mod_cast fractionField_lt w
  have hsign : signFactor w ≠ 0 := by
    rw [signFactor]
    split <;> norm_num
  have hscale : (2 : ℚ) ^ ((0 : ℤ) - 127) = 2 ^ 22 * 2 ^ (-149 : ℤ) := by norm_num
  have hpow : (2 : ℚ) ^ (-149 : ℤ) ≠ 0 := zpow_ne_zero _ (by norm_num)
  rw [value, if_pos h, h, Nat.cast_zero, hscale]
  intro same
  have hsignificand : 2 ^ 22 * (1 + (fractionField w : ℚ) / 2 ^ 23) = fractionField w := by
    apply mul_right_cancel₀ hpow
    apply mul_left_cancel₀ hsign
    linear_combination same
  linarith

/-- Among the finite words the decoder is right about the normal ones, and about no other. -/
theorem floatFrom8hex_exact_iff (finite : exponentField (encodedWord arr) ≤ 254) :
    (floatFrom8hex arr : ℚ) = value (encodedWord arr) ↔ 1 ≤ exponentField (encodedWord arr) := by
  constructor
  · intro h
    by_contra hzero
    exact floatFrom8hex_subnormal small (by omega) h
  · intro h
    rw [floatFrom8hex_exact small, value_normal ⟨h, finite⟩]

end Exact

theorem floatFrom8hex_exact_volts :
    (floatFrom8hex ![0x43, 0x66, 0, 0] : ℚ) = value (encodedWord ![0x43, 0x66, 0, 0]) ↔
      1 ≤ exponentField (encodedWord ![0x43, 0x66, 0, 0]) :=
  floatFrom8hex_exact_iff (by decide) (by decide)

/-- The word of zeros, sent where there is no current, is decoded to a positive number. -/
theorem zero_word_decoded :
    ¬ ∀ arr : Fin 4 → ℕ, (∀ j, arr j < 2 ^ 8) → exponentField (encodedWord arr) ≤ 254 →
      (floatFrom8hex arr : ℚ) = value (encodedWord arr) := by
  intro claim
  have small : ∀ j, (![0, 0, 0, 0] : Fin 4 → ℕ) j < 2 ^ 8 := by decide
  exact floatFrom8hex_subnormal small (by decide) (claim _ small (by decide))

end Ddsu666
