/- `crc_cal` as polynomial division: the result is the remainder of the message, read backwards. -/
import Ddsu666.ModbusCrc
import Ddsu666.RegisterPolynomial

namespace Ddsu666
open CheckedBuffer ShiftRegister Polynomial

/-- The remainder that defines the check word: the bits of the message in the order of the line,
behind an initial register of ones. -/
noncomputable def modbusRemainder (bytes : List UInt8) : (ZMod 2)[X] :=
  (messagePoly (txBits bytes) * X ^ 16 +
    (∑ i ∈ Finset.range 16, X ^ i) * X ^ (8 * bytes.length)) %ₘ (X ^ 16 + X ^ 15 + X ^ 2 + 1)

theorem generator_crcPoly : generator crcPoly = X ^ 16 + X ^ 15 + X ^ 2 + 1 := by
  have hbits : ∀ i ∈ Finset.range 16, C (bit (crcPoly.getLsbD i)) * X ^ (16 - 1 - i) =
      if i = 0 ∨ i = 13 ∨ i = 15 then (X : (ZMod 2)[X]) ^ (16 - 1 - i) else 0 := by
    intro i hi
    rw [Finset.mem_range] at hi
    have hbit : crcPoly.getLsbD i = decide (i = 0 ∨ i = 13 ∨ i = 15) := by
      interval_cases i <;> decide
    rw [hbit]
    by_cases h : i = 0 ∨ i = 13 ∨ i = 15 <;> simp [h, bit]
  rw [generator, registerPoly, Finset.sum_congr rfl hbits]
  simp [Finset.sum_range_succ]
  ring

theorem registerPoly_ones : registerPoly 0xFFFF#16 = ∑ i ∈ Finset.range 16, X ^ i := by
  ext k
  rw [coeff_registerPoly, finsetSum_coeff]
  simp only [coeff_X_pow, Finset.sum_ite_eq, Finset.mem_range]
  by_cases hk : k < 16
  · have hbit : (0xFFFF#16).getLsbD (16 - 1 - k) = true := by
      interval_cases k <;> decide
    rw [if_pos hk, if_pos hk, hbit]
    rfl
  · rw [if_neg hk, if_neg hk]

theorem registerPoly_crc (bytes : List UInt8) :
    registerPoly (run crcPoly 0xFFFF#16 (txBits bytes)) = modbusRemainder bytes := by
  rw [run_remainder (by decide), generator_crcPoly, registerPoly_ones, length_txBits,
    modbusRemainder]

theorem register_testBit (r : BitVec 16) (i : ℕ) :
    (register r).toNat.testBit i = r.getLsbD i := by
  have hnat : (register r).toNat = r.toNat := by
    change (r.setWidth 32).toNat = r.toNat
    rw [BitVec.toNat_setWidth, Nat.mod_eq_of_lt (r.isLt.trans (by decide))]
  rw [hnat, BitVec.testBit_toNat]

theorem register_lt (r : BitVec 16) : (register r).toNat < 2 ^ 16 := by
  apply Nat.lt_pow_two_of_testBit
  intro i hi
  rw [register_testBit, BitVec.getLsbD_of_ge _ _ hi]

/-- The result is the remainder with its bits reversed, and never reaches the upper half of the
`unsigned int` it is computed in. -/
theorem crcCal_remainder {pBuff : Buffer UInt8} {bytes : List UInt8} (h : Holds pBuff bytes)
    (small : bytes.length ≤ 256) :
    ∃ crc, crcCal pBuff bytes.length = .ok crc ∧ crc.toNat < 2 ^ 16 ∧
      ∀ i < 16, crc.toNat.testBit i = true ↔ (modbusRemainder bytes).coeff (15 - i) = 1 := by
  refine ⟨_, crcCal_ok h small, register_lt _, ?_⟩
  intro i hi
  rw [register_testBit, ← registerPoly_crc, coeff_registerPoly, if_pos (by omega),
    show 16 - 1 - (15 - i) = i by omega]
  cases (run crcPoly 0xFFFF#16 (txBits bytes)).getLsbD i <;> simp [bit]

/-- The query for the parameters, without its check bytes. -/
theorem crcCal_remainder_query :
    ∃ crc, crcCal ([0x01, 0x03, 0x20, 0x00, 0x00, 0x12].map some) 6 = .ok crc ∧
      crc.toNat < 2 ^ 16 ∧ ∀ i < 16, crc.toNat.testBit i = true ↔
        (modbusRemainder [0x01, 0x03, 0x20, 0x00, 0x00, 0x12]).coeff (15 - i) = 1 :=
  crcCal_remainder (holds_map [0x01, 0x03, 0x20, 0x00, 0x00, 0x12]) (by decide)

end Ddsu666
