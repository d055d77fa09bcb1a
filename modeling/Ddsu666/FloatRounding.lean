/- The intermediate values of `float_from_8hex` of tools.c on normal words: none is rounded. -/
import Ddsu666.FloatClasses

namespace Ddsu666
open Binary32 FloatArith SingleArith

/-- The factor `mult` with its sign. -/
def scaleOf {F : Type} [FloatArith F] (result : List Char) : F :=
  if isOne result 0 then neg (pow2 (exponentLoop result)) else pow2 (exponentLoop result)

theorem floatFrom8hex_product {F : Type} [FloatArith F] (arr : Fin 4 → ℕ) :
    (floatFrom8hex arr : F) =
      mul (scaleOf (binaryString arr)) (fractionLoop (binaryString arr) 23).1 := rfl

/-- A variable that has an exact value, which is a normal number of single precision. -/
structure Exactly {F : Type} [SingleArith F] (x : F) (q : ℚ) : Prop where
  value : toRat? x = some q
  single : Single q

theorem single_value {w : UInt32} (normal : Normal w) : Single (value w) := by
  obtain ⟨hlow, hhigh⟩ := id normal
  have hsingle := single_fraction (e := (exponentField w : ℤ) - 127) (fractionField_lt w) le_rfl
    (by omega) (by omega)
  rw [value_normal normal, mul_assoc, signFactor]
  split
  · rw [neg_one_mul]
    exact hsingle.neg
  · rwa [one_mul]

section Normal

variable {F : Type} [SingleArith F] {arr : Fin 4 → ℕ} (small : ∀ j, arr j < 2 ^ 8)

include small

/-- Position `i` is the last one that the loop has handled. -/
theorem fractionLoop_exactly {i : ℕ} (first : 8 ≤ i) (last : i ≤ 31) :
    Exactly (fractionLoop (binaryString arr) (i - 8) : F × F).1
        (1 + ((fractionField (encodedWord arr) / 2 ^ (31 - i) : ℕ) : ℚ) / 2 ^ (i - 8)) ∧
      Exactly (fractionLoop (binaryString arr) (i - 8) : F × F).2 (2 ^ (-((i : ℤ) - 7))) := by
  have hturns : i - 8 ≤ 23 := by omega
  have hleft : 23 - (i - 8) = 31 - i := by omega
  have hexponent : -((i : ℤ) - 7) = -((i - 8 + 1 : ℕ) : ℤ) := by omega
  obtain ⟨hanswer, hweight⟩ :=
    fractionLoop_turns (F := F) small (encodedWord_toNat small) hturns
  have hsingle := single_leading (fractionField_lt (encodedWord arr)) hturns
  unfold leading at hanswer hsingle
  rw [hleft] at hanswer hsingle
  refine ⟨⟨hanswer, hsingle⟩, ?_, single_two_pow (by omega) (by omega)⟩
  rw [hweight, hexponent, zpow_neg, zpow_natCast, one_div]

variable (normal : Normal (encodedWord arr))

include normal

theorem scaleOf_exactly :
    Exactly (scaleOf (binaryString arr) : F) (signFactor (encodedWord arr) *
      2 ^ ((exponentField (encodedWord arr) : ℤ) - 127)) := by
  have hw := encodedWord_toNat small
  have hsign : isOne (binaryString arr) 0 = signBit (encodedWord arr) := by
    rw [isOne_binaryString small (by decide), hw, signBit]
  obtain ⟨hlow, hhigh⟩ := normal
  have hsingle := single_two_pow (e := (exponentField (encodedWord arr) : ℤ) - 127)
    (by omega) (by omega)
  have hpow := pow2_exact (F := F) hsingle
  unfold scaleOf signFactor
  rw [hsign, exponentLoop_word small hw]
  cases signBit (encodedWord arr) with
  | false =>
      rw [if_neg (by decide), if_neg (by decide), one_mul]
      exact ⟨hpow, hsingle⟩
  | true =>
      rw [if_pos rfl, if_pos rfl, neg_one_mul]
      exact ⟨neg_exact hpow hsingle, hsingle.neg⟩

theorem floatFrom8hex_exactly :
    Exactly (floatFrom8hex arr : F) (floatFrom8hex arr : ℚ) := by
  have hscale := scaleOf_exactly (F := F) small normal
  have hanswer := (fractionLoop_exactly (F := F) small (i := 31) (by decide) le_rfl).1
  rw [Nat.sub_self, pow_zero, Nat.div_one] at hanswer
  have hsingle := single_value normal
  rw [value_normal normal] at hsingle
  rw [floatFrom8hex_product, floatFrom8hex_exact small]
  exact ⟨mul_exact hscale.value hanswer.value hsingle, hsingle⟩

end Normal

/-- What the single precision of the machine computes on a normal word, loop turn by loop turn, is
what exact arithmetic computes. -/
theorem floatFrom8hex_never_rounds {arr : Fin 4 → ℕ} (small : ∀ j, arr j < 2 ^ 8)
    (normal : Normal (encodedWord arr)) :
    (∀ i, 9 ≤ i → i ≤ 31 →
      Exactly (fractionLoop (binaryString arr) (i - 8) : Float32 × Float32).1
          (1 + ((fractionField (encodedWord arr) / 2 ^ (31 - i) : ℕ) : ℚ) / 2 ^ (i - 8)) ∧
        Exactly (fractionLoop (binaryString arr) (i - 8) : Float32 × Float32).2
          (2 ^ (-((i : ℤ) - 7)))) ∧
      (∀ i, 9 ≤ i → i ≤ 31 →
        (fractionLoop (binaryString arr) (i - 8) : ℚ × ℚ) =
          (1 + ((fractionField (encodedWord arr) / 2 ^ (31 - i) : ℕ) : ℚ) / 2 ^ (i - 8),
            2 ^ (-((i : ℤ) - 7)))) ∧
      Exactly (scaleOf (binaryString arr) : Float32) (signFactor (encodedWord arr) *
        2 ^ ((exponentField (encodedWord arr) : ℤ) - 127)) ∧
      Exactly (floatFrom8hex arr : Float32) (floatFrom8hex arr : ℚ) := by
  refine ⟨?_, ?_, scaleOf_exactly small normal, floatFrom8hex_exactly small normal⟩
  · intro i first last
    exact fractionLoop_exactly small (by omega) last
  · intro i first last
    obtain ⟨hanswer, hweight⟩ := fractionLoop_exactly (F := ℚ) small (by omega) last
    exact Prod.ext (Option.some.inj hanswer.value) (Option.some.inj hweight.value)

/-- The largest fraction at the smallest exponent: all 23 turns add something. -/
theorem floatFrom8hex_never_rounds_smallest :
    Exactly (floatFrom8hex ![0x00, 0xFF, 0xFF, 0xFF] : Float32)
      (floatFrom8hex ![0x00, 0xFF, 0xFF, 0xFF] : ℚ) :=
  (floatFrom8hex_never_rounds (by decide) (by decide)).2.2.2

end Ddsu666
