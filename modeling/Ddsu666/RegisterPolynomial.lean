/- What a shift register computes: the remainder of polynomial division over the field with two
   elements. -/
import Mathlib
import Ddsu666.ShiftRegister

namespace ShiftRegister
open Polynomial

variable {w : ℕ}

/-- The least significant bit of a register is the highest coefficient. -/
noncomputable def registerPoly (r : BitVec w) : (ZMod 2)[X] :=
  ∑ i ∈ Finset.range w, C (bit (r.getLsbD i)) * X ^ (w - 1 - i)

/-- The divisor, whose highest coefficient the register leaves out. -/
noncomputable def generator (poly : BitVec w) : (ZMod 2)[X] := X ^ w + registerPoly poly

/-- The first bit of a message is its highest coefficient. -/
noncomputable def messagePoly : List Bool → (ZMod 2)[X]
  | [] => 0
  | b :: bits => C (bit b) * X ^ bits.length + messagePoly bits

theorem coeff_registerPoly (r : BitVec w) (k : ℕ) :
    (registerPoly r).coeff k = if k < w then bit (r.getLsbD (w - 1 - k)) else 0 := by
  simp only [registerPoly, finsetSum_coeff, coeff_C_mul_X_pow]
  split
  · rename_i hk
    rw [Finset.sum_eq_single_of_mem (w - 1 - k) (Finset.mem_range.mpr (by omega))]
    · rw [if_pos (by omega)]
    · intro i hi hne
      rw [Finset.mem_range] at hi
      rw [if_neg (by omega)]
  · apply Finset.sum_eq_zero
    intro i hi
    rw [Finset.mem_range] at hi
    rw [if_neg (by omega)]

theorem degree_registerPoly (r : BitVec w) : (registerPoly r).degree < w := by
  rw [degree_lt_iff_coeff_zero]
  intro k hk
  rw [coeff_registerPoly, if_neg (Nat.not_lt.mpr hk)]

theorem generator_monic (poly : BitVec w) : (generator poly).Monic :=
  monic_X_pow_add (degree_registerPoly poly)

theorem degree_generator (poly : BitVec w) : (generator poly).degree = w := by
  rw [generator, degree_add_eq_left_of_degree_lt] <;> rw [degree_X_pow]
  exact degree_registerPoly poly

theorem registerPoly_xor (r s : BitVec w) :
    registerPoly (r ^^^ s) = registerPoly r + registerPoly s := by
  ext k
  rw [coeff_add, coeff_registerPoly, coeff_registerPoly, coeff_registerPoly]
  split
  · rw [BitVec.getLsbD_xor, bit_xor]
  · rw [add_zero]

theorem registerPoly_select (b : Bool) (r : BitVec w) :
    registerPoly (if b then r else 0#w) = C (bit b) * registerPoly r := by
  cases b with
  | false => simp [registerPoly, bit]
  | true => simp [bit]

section Positive

variable (hw : 0 < w)

include hw

theorem registerPoly_one : registerPoly (1#w) = X ^ (w - 1) := by
  ext k
  rw [coeff_registerPoly, coeff_X_pow]
  by_cases hk : k < w
  · by_cases hlast : k = w - 1
    · simp [hlast, hw, bit]
    · rw [if_pos hk, if_neg hlast]
      simp [bit, BitVec.getLsbD_one, show w - 1 - k ≠ 0 by omega]
  · rw [if_neg hk, if_neg (by omega)]

/-- Shifting without feedback multiplies by `X`, up to the coefficient that falls out. -/
theorem registerPoly_ushiftRight (r : BitVec w) :
    X * registerPoly r = registerPoly (r >>> 1) + C (bit (r.getLsbD 0)) * X ^ w := by
  ext k
  rw [coeff_add, coeff_registerPoly, coeff_C_mul_X_pow]
  cases k with
  | zero =>
      rw [coeff_X_mul_zero, if_pos hw, if_neg hw.ne, BitVec.getLsbD_ushiftRight,
        BitVec.getLsbD_of_ge _ _ (by omega), bit, if_neg Bool.false_ne_true, add_zero]
  | succ k =>
      rw [coeff_X_mul, coeff_registerPoly]
      rcases Nat.lt_trichotomy (k + 1) w with hk | hk | hk
      · rw [if_pos (by omega), if_pos hk, if_neg hk.ne, BitVec.getLsbD_ushiftRight,
          show 1 + (w - 1 - (k + 1)) = w - 1 - k by omega, add_zero]
      · rw [if_pos (by omega), if_neg (by omega), if_pos hk, show w - 1 - k = 0 by omega, zero_add]
      · rw [if_neg (by omega), if_neg (by omega), if_neg (by omega), add_zero]

theorem registerPoly_shift (poly r : BitVec w) :
    X * registerPoly r =
      registerPoly (shift poly r) + C (bit (r.getLsbD 0)) * generator poly := by
  have htwo : C (bit (r.getLsbD 0)) * registerPoly poly +
      C (bit (r.getLsbD 0)) * registerPoly poly = 0 := CharTwo.add_self_eq_zero _
  calc X * registerPoly r
      = registerPoly (r >>> 1) + C (bit (r.getLsbD 0)) * X ^ w := registerPoly_ushiftRight hw r
    _ = registerPoly (r >>> 1) + C (bit (r.getLsbD 0)) * X ^ w +
          (C (bit (r.getLsbD 0)) * registerPoly poly +
            C (bit (r.getLsbD 0)) * registerPoly poly) := by rw [htwo, add_zero]
    _ = registerPoly (shift poly r) + C (bit (r.getLsbD 0)) * generator poly := by
          rw [shift, registerPoly_xor, registerPoly_select, generator]
          ring

theorem registerPoly_feed (poly r : BitVec w) (b : Bool) :
    ∃ c, registerPoly r * X + C (bit b) * X ^ w =
      registerPoly (feed poly r b) + c * generator poly := by
  have hpow : (X : (ZMod 2)[X]) ^ w = X * X ^ (w - 1) := by
    rw [← pow_succ', Nat.sub_add_cancel hw]
  have hloaded : registerPoly r * X + C (bit b) * X ^ w =
      X * registerPoly (r ^^^ if b then 1#w else 0#w) := by
    rw [registerPoly_xor, registerPoly_select, registerPoly_one hw, hpow]
    ring
  exact ⟨_, hloaded.trans (registerPoly_shift hw poly _)⟩

/-- The register keeps the remainder of what has been fed so far. -/
theorem registerPoly_run (poly r : BitVec w) (bits : List Bool) :
    ∃ c, registerPoly r * X ^ bits.length + messagePoly bits * X ^ w =
      registerPoly (run poly r bits) + c * generator poly := by
  induction bits generalizing r with
  | nil => exact ⟨0, by simp [messagePoly]⟩
  | cons b bits ih =>
      obtain ⟨c, hfeed⟩ := registerPoly_feed hw poly r b
      obtain ⟨d, hrest⟩ := ih (feed poly r b)
      refine ⟨c * X ^ bits.length + d, ?_⟩
      calc registerPoly r * X ^ (b :: bits).length + messagePoly (b :: bits) * X ^ w
          = (registerPoly r * X + C (bit b) * X ^ w) * X ^ bits.length +
              messagePoly bits * X ^ w := by
            rw [messagePoly, List.length_cons]
            ring
        _ = (registerPoly (feed poly r b) * X ^ bits.length + messagePoly bits * X ^ w) +
              c * X ^ bits.length * generator poly := by
            rw [hfeed]
            ring
        _ = registerPoly (run poly r (b :: bits)) +
              (c * X ^ bits.length + d) * generator poly := by
            rw [hrest, run_cons]
            ring

theorem run_remainder (poly r : BitVec w) (bits : List Bool) :
    registerPoly (run poly r bits) =
      (messagePoly bits * X ^ w + registerPoly r * X ^ bits.length) %ₘ generator poly := by
  obtain ⟨c, hrun⟩ := registerPoly_run hw poly r bits
  refine (div_modByMonic_unique c _ (generator_monic poly) ⟨?_, ?_⟩).2.symm
  · rw [add_comm (messagePoly bits * X ^ w), hrun]
    ring
  · rw [degree_generator]
    exact degree_registerPoly _

end Positive

end ShiftRegister
