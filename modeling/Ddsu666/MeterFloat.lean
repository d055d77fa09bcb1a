/- The bit-string float decoder `float_from_8hex` of tools.c. -/
import Ddsu666.IeeeSingle
import Mathlib.Data.Fintype.Basic
import Mathlib.Tactic.FinCases

namespace Ddsu666

/-- The C arithmetic the decoder needs. -/
class FloatArith (F : Type) where
  zero : F
  one : F
  half : F
  pow2 : ℤ → F
  ofNat : ℕ → F
  neg : F → F
  add : F → F → F
  mul : F → F → F

/-- Arithmetic that may round, seen through the numbers that its finite values denote. What C
promises for `float`: an operation does not round where its exact result is a normal number of
single precision. -/
class SingleArith (F : Type) extends FloatArith F where
  toRat? : F → Option ℚ
  zero_exact : toRat? zero = some 0
  one_exact : toRat? one = some 1
  half_exact : toRat? half = some (1 / 2)
  pow2_exact : ∀ {e : ℤ}, Binary32.Single (2 ^ e) → toRat? (pow2 e) = some (2 ^ e)
  neg_exact : ∀ {x : F} {p : ℚ}, toRat? x = some p → Binary32.Single p →
    toRat? (neg x) = some (-p)
  add_exact : ∀ {x y : F} {p q : ℚ}, toRat? x = some p → toRat? y = some q →
    Binary32.Single (p + q) → toRat? (add x y) = some (p + q)
  mul_exact : ∀ {x y : F} {p q : ℚ}, toRat? x = some p → toRat? y = some q →
    Binary32.Single (p * q) → toRat? (mul x y) = some (p * q)

instance : FloatArith ℚ where
  zero := 0
  one := 1
  half := 1 / 2
  pow2 e := 2 ^ e
  ofNat n := n
  neg x := -x
  add x y := x + y
  mul x y := x * y

/-- The arithmetic that never rounds. -/
instance : SingleArith ℚ where
  toRat? := some
  zero_exact := rfl
  one_exact := rfl
  half_exact := rfl
  pow2_exact _ := rfl
  neg_exact h _ := by cases h; rfl
  add_exact h k _ := by cases h; cases k; rfl
  mul_exact h k _ := by cases h; cases k; rfl

instance : FloatArith Float32 where
  zero := ⟨Float32.Model.ofNat 0⟩
  one := Binary32.twoPow 0
  half := Binary32.twoPow (-1)
  pow2 := Binary32.twoPow
  ofNat n := ⟨Float32.Model.ofNat n⟩
  neg := Float32.neg
  add := Float32.add
  mul := Float32.mul

/-- The arithmetic of the machine, which rounds to nearest. -/
instance : SingleArith Float32 where
  toRat? := Binary32.toRat?
  zero_exact := by decide
  one_exact := Binary32.twoPow_exact (Binary32.single_two_pow (by decide) (by decide))
  half_exact := by
    have h := Binary32.twoPow_exact (Binary32.single_two_pow (e := -1) (by decide) (by decide))
    rwa [show (2 : ℚ) ^ (-1 : ℤ) = 1 / 2 by norm_num] at h
  pow2_exact := Binary32.twoPow_exact
  neg_exact := Binary32.neg_exact
  add_exact := Binary32.add_exact
  mul_exact := Binary32.mul_exact

def bitChar (digit mask : ℕ) : Char := if digit &&& mask ≠ 0 then '1' else '0'

/-- One hex digit as four characters, the highest bit first. -/
def digitChars (digit : ℕ) : List Char :=
  [bitChar digit 8, bitChar digit 4, bitChar digit 2, bitChar digit 1]

def binaryString (arr : Fin 4 → ℕ) : List Char :=
  (List.finRange 4).flatMap fun j => digitChars (arr j / 16) ++ digitChars (arr j % 16)

def isOne (result : List Char) (i : ℕ) : Bool := result[i]? == some '1'

def exponentStep (result : List Char) (expow : ℤ) (i : ℕ) : ℤ :=
  if isOne result i then expow + 2 ^ (8 - i) else expow

/-- The loop over positions 1 to 8, less the bias. -/
def exponentLoop (result : List Char) : ℤ :=
  (List.range' 1 8).foldl (exponentStep result) 0 - 127

section Decoder

variable {F : Type} [FloatArith F]
open FloatArith

/-- The pair is `answer` and the weight `fraction` of the next position. -/
def fractionStep (result : List Char) (acc : F × F) (i : ℕ) : F × F :=
  (if isOne result i then add acc.1 acc.2 else acc.1, mul acc.2 half)

def fractionLoop (result : List Char) (n : ℕ) : F × F :=
  (List.range' 9 n).foldl (fractionStep result) (one, half)

def floatFrom8hex (arr : Fin 4 → ℕ) : F :=
  let result := binaryString arr
  let sign := isOne result 0
  let mult := pow2 (exponentLoop result)
  let mult := if sign then neg mult else mult
  mul mult (fractionLoop result 23 : F × F).1

end Decoder

def wordOf (arr : Fin 4 → ℕ) : ℕ :=
  2 ^ 24 * arr 0 + (2 ^ 16 * arr 1 + (2 ^ 8 * arr 2 + arr 3))

theorem bitChar_two_pow (digit i : ℕ) :
    bitChar digit (2 ^ i) = if digit.testBit i then '1' else '0' := by
  rw [bitChar, Nat.and_two_pow]
  cases digit.testBit i <;> simp

theorem digitChars_eq (digit : ℕ) :
    digitChars digit = [3, 2, 1, 0].map fun i => if digit.testBit i then '1' else '0' := by
  have h3 := bitChar_two_pow digit 3
  have h2 := bitChar_two_pow digit 2
  have h1 := bitChar_two_pow digit 1
  have h0 := bitChar_two_pow digit 0
  norm_num at h3 h2 h1 h0
  simp only [digitChars, h3, h2, h1, h0, List.map_cons, List.map_nil]
  norm_num

theorem byteChars_eq (b : ℕ) :
    digitChars (b / 16) ++ digitChars (b % 16) =
      [7, 6, 5, 4, 3, 2, 1, 0].map fun i => if b.testBit i then '1' else '0' := by
  have hhigh : ∀ i, (b / 16).testBit i = b.testBit (4 + i) := by
    intro i
    rw [show 16 = 2 ^ 4 by rfl, Nat.testBit_div_two_pow, Nat.add_comm]
  have hlow : ∀ i, i < 4 → (b % 16).testBit i = b.testBit i := by
    intro i hi
    rw [show 16 = 2 ^ 4 by rfl, Nat.testBit_mod_two_pow, decide_eq_true hi, Bool.true_and]
  simp only [digitChars_eq, List.map_cons, List.map_nil, hhigh, hlow 3 (by decide),
    hlow 2 (by decide), hlow 1 (by decide), hlow 0 (by decide)]
  rfl

theorem testBit_wordOf {arr : Fin 4 → ℕ} (small : ∀ j, arr j < 2 ^ 8) (j : Fin 4) {u : ℕ}
    (hu : u < 8) : (wordOf arr).testBit (8 * (3 - j) + u) = (arr j).testBit u := by
  have h3 := small 3
  have h2 : 2 ^ 8 * arr 2 + arr 3 < 2 ^ 16 := by
    have := small 2
    omega
  have h1 : 2 ^ 16 * arr 1 + (2 ^ 8 * arr 2 + arr 3) < 2 ^ 24 := by
    have := small 1
    omega
  unfold wordOf
  fin_cases j
  · rw [Nat.testBit_two_pow_mul_add _ h1, if_neg (by simp)]
    simp
  · rw [Nat.testBit_two_pow_mul_add _ h1, if_pos (by simp; omega),
      Nat.testBit_two_pow_mul_add _ h2, if_neg (by simp)]
    simp
  · rw [Nat.testBit_two_pow_mul_add _ h1, if_pos (by simp; omega),
      Nat.testBit_two_pow_mul_add _ h2, if_pos (by simp; omega),
      Nat.testBit_two_pow_mul_add _ h3, if_neg (by simp)]
    simp
  · rw [Nat.testBit_two_pow_mul_add _ h1, if_pos (by simp; omega),
      Nat.testBit_two_pow_mul_add _ h2, if_pos (by simp; omega),
      Nat.testBit_two_pow_mul_add _ h3, if_pos (by simpa using hu)]
    simp

theorem binaryString_eq {arr : Fin 4 → ℕ} (small : ∀ j, arr j < 2 ^ 8) :
    binaryString arr =
      (List.range 32).map fun i => if (wordOf arr).testBit (31 - i) then '1' else '0' := by
  have hbyte : ∀ j : Fin 4, digitChars (arr j / 16) ++ digitChars (arr j % 16) =
      [7, 6, 5, 4, 3, 2, 1, 0].map fun u =>
        if (wordOf arr).testBit (8 * (3 - j) + u) then '1' else '0' := by
    intro j
    rw [byteChars_eq]
    apply List.map_congr_left
    intro u member
    have hu : u < 8 := by
      simp only [List.mem_cons, List.not_mem_nil, or_false] at member
      omega
    rw [testBit_wordOf small j hu]
  simp only [binaryString, hbyte]
  rfl

/-- Position `i` of the string is binary digit `31 - i` of the word. -/
theorem isOne_binaryString {arr : Fin 4 → ℕ} (small : ∀ j, arr j < 2 ^ 8) {i : ℕ} (hi : i < 32) :
    isOne (binaryString arr) i = (wordOf arr).testBit (31 - i) := by
  rw [isOne, binaryString_eq small, List.getElem?_map, List.getElem?_range hi]
  cases h : (wordOf arr).testBit (31 - i) <;> simp [h]

section Word

variable {arr : Fin 4 → ℕ} (small : ∀ j, arr j < 2 ^ 8) {w : UInt32} (hw : wordOf arr = w.toNat)

include small hw
open Binary32

/-- After `k` turns the exponent loop has read the leading `k` bits of the field. -/
theorem exponentLoop_turns {k : ℕ} (hk : k ≤ 8) :
    (List.range' 1 k).foldl (exponentStep (binaryString arr)) 0 =
      2 ^ (8 - k) * ((exponentField w / 2 ^ (8 - k) : ℕ) : ℤ) := by
  induction k with
  | zero =>
      rw [Nat.div_eq_of_lt (exponentField_lt w)]
      rfl
  | succ k ih =>
      have hbit : isOne (binaryString arr) (1 + k) = (exponentField w).testBit (8 - (k + 1)) := by
        rw [isOne_binaryString small (by omega), hw, testBit_exponentField w (by omega)]
        congr 1
        omega
      have hleading := div_two_pow_step (exponentField w) (8 - (k + 1))
      rw [show 8 - (k + 1) + 1 = 8 - k by omega] at hleading
      rw [List.range'_1_concat, List.foldl_append, ih (by omega), List.foldl_cons, List.foldl_nil,
        exponentStep, hbit, hleading, show 8 - (1 + k) = 8 - (k + 1) by omega,
        show (2 : ℤ) ^ (8 - k) = 2 ^ (8 - (k + 1)) * 2 by
          rw [← pow_succ, show 8 - (k + 1) + 1 = 8 - k by omega]]
      cases (exponentField w).testBit (8 - (k + 1)) with
      | false => simp [mul_assoc]
      | true =>
          simp only [if_true, Bool.toNat_true]
          push_cast
          ring

theorem exponentLoop_word : exponentLoop (binaryString arr) = (exponentField w : ℤ) - 127 := by
  have h := exponentLoop_turns small hw (k := 8) le_rfl
  simp only [Nat.sub_self, pow_zero, Nat.div_one, one_mul] at h
  rw [exponentLoop, h]

section Rounding

variable {F : Type} [SingleArith F]
open SingleArith

/-- After `k` turns `answer` is one plus the leading `k` fraction bits, and `fraction` is the
weight of the next position; nothing has been rounded. -/
theorem fractionLoop_turns {k : ℕ} (hk : k ≤ 23) :
    toRat? (fractionLoop (binaryString arr) k : F × F).1 = some (leading (fractionField w) k) ∧
      toRat? (fractionLoop (binaryString arr) k : F × F).2 = some (1 / 2 ^ (k + 1)) := by
  induction k with
  | zero =>
      rw [leading_zero (fractionField_lt w)]
      simp [fractionLoop, one_exact, half_exact]
  | succ k ih =>
      obtain ⟨hanswer, hweight⟩ := ih (by omega)
      have hbit : isOne (binaryString arr) (9 + k) = (fractionField w).testBit (23 - (k + 1)) := by
        rw [isOne_binaryString small (by omega), hw, testBit_fractionField w (by omega)]
        congr 1
        omega
      have hloop : (fractionLoop (binaryString arr) (k + 1) : F × F) =
          fractionStep (binaryString arr) (fractionLoop (binaryString arr) k) (9 + k) := by
        rw [fractionLoop, List.range'_1_concat, List.foldl_append]
        rfl
      have hsingle := single_leading (fractionField_lt w) hk
      have hnext := leading_succ (fractionField w) hk
      rw [hloop, fractionStep, hbit]
      constructor
      · cases hone : (fractionField w).testBit (23 - (k + 1)) with
        | false =>
            rw [hone, if_neg (by decide), add_zero] at hnext
            rw [if_neg (by decide), hanswer, hnext]
        | true =>
            rw [hone, if_pos rfl] at hnext
            rw [hnext] at hsingle ⊢
            exact add_exact hanswer hweight hsingle
      · have hhalf : (1 : ℚ) / 2 ^ (k + 1) * (1 / 2) = 1 / 2 ^ (k + 1 + 1) := by
          field_simp
          ring
        have hshift : (1 : ℚ) / 2 ^ (k + 1 + 1) = 2 ^ (-((k + 1 + 1 : ℕ) : ℤ)) := by
          rw [zpow_neg, zpow_natCast, one_div]
        rw [← hhalf]
        apply mul_exact hweight half_exact
        rw [hhalf, hshift]
        exact single_two_pow (by omega) (by omega)

/-- On a normal word the decoder returns exactly the number encoded. -/
theorem floatFrom8hex_normal (normal : Normal w) :
    toRat? (floatFrom8hex arr : F) = some (value w) := by
  have hsign : isOne (binaryString arr) 0 = signBit w := by
    rw [isOne_binaryString small (by decide), hw, signBit]
  have hanswer := (fractionLoop_turns (F := F) small hw (k := 23) le_rfl).1
  rw [leading_all] at hanswer
  have hlow := normal.1
  have hhigh := normal.2
  have hscale := single_two_pow (e := (exponentField w : ℤ) - 127) (by omega) (by omega)
  have hmult : toRat? (FloatArith.pow2 ((exponentField w : ℤ) - 127) : F) =
      some (2 ^ ((exponentField w : ℤ) - 127)) := pow2_exact hscale
  have hproduct := single_fraction (e := (exponentField w : ℤ) - 127) (fractionField_lt w) le_rfl
    (by omega) (by omega)
  rw [value_normal normal, floatFrom8hex]
  simp only [hsign, exponentLoop_word small hw, signFactor]
  cases signBit w with
  | false =>
      rw [if_neg (by decide), if_neg (by decide), one_mul]
      exact mul_exact hmult hanswer hproduct
  | true =>
      rw [if_pos rfl, if_pos rfl, neg_one_mul]
      apply mul_exact (neg_exact hmult hscale) hanswer
      rw [neg_mul]
      exact hproduct.neg

end Rounding

end Word

end Ddsu666
