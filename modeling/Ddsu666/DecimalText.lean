/- Decimal numerals with a point: what a text says, and what is printed with a fixed number of
   decimals. -/
import Mathlib.Algebra.Order.Field.Rat
import Mathlib.Algebra.Order.Floor.Ring
import Mathlib.Data.Rat.Floor
import Mathlib.Tactic.FieldSimp
import Mathlib.Tactic.Linarith
import Mathlib.Tactic.Positivity
import Mathlib.Tactic.Ring

namespace DecimalText

/-- One or more digits. -/
def Digits (text : List Char) : Prop := text ≠ [] ∧ ∀ c ∈ text, c.isDigit = true

instance (text : List Char) : Decidable (Digits text) := inferInstanceAs (Decidable (_ ∧ _))

/-- Digits, a point and more digits. -/
def unsigned? (text : List Char) : Option ℚ :=
  let whole := text.takeWhile (· ≠ '.')
  let decimals := (text.dropWhile (· ≠ '.')).tail
  if Digits whole ∧ Digits decimals then
    some ((Nat.ofDigitChars 10 whole 0 : ℚ) +
      Nat.ofDigitChars 10 decimals 0 / 10 ^ decimals.length)
  else none

def number? : List Char → Option ℚ
  | '-' :: text => (unsigned? text).map fun q => -q
  | text => unsigned? text

/-- `n` units of the last place, with `decimals` digits behind the point. -/
def fixedPoint (decimals n : ℕ) : List Char :=
  let low := Nat.toDigits 10 (n % 10 ^ decimals)
  Nat.toDigits 10 (n / 10 ^ decimals) ++
    '.' :: (List.replicate (decimals - low.length) '0' ++ low)

theorem isDigit_ne {c d : Char} (h : c.isDigit = true) (other : d.isDigit = false) : c ≠ d := by
  rintro rfl
  rw [h] at other
  cases other

theorem digits_toDigits (n : ℕ) : Digits (Nat.toDigits 10 n) :=
  ⟨Nat.toDigits_ne_nil, fun _ hc => Nat.isDigit_of_mem_toDigits (by decide) (by decide) hc⟩

theorem digits_padded (k n : ℕ) : Digits (List.replicate k '0' ++ Nat.toDigits 10 n) := by
  constructor
  · exact List.append_ne_nil_of_right_ne_nil _ Nat.toDigits_ne_nil
  · intro c hc
    rcases List.mem_append.mp hc with hc | hc
    · obtain rfl := List.eq_of_mem_replicate hc
      decide
    · exact (digits_toDigits n).2 c hc

theorem ofDigitChars_padded (k n : ℕ) :
    Nat.ofDigitChars 10 (List.replicate k '0' ++ Nat.toDigits 10 n) 0 = n := by
  rw [Nat.ofDigitChars_append, Nat.ofDigitChars_replicate_zero, Nat.mul_zero,
    Nat.ofDigitChars_ten_toDigits]

/-- The point ends the first group of digits. -/
theorem unsigned_point {whole decimals : List Char} (hwhole : Digits whole)
    (hdecimals : Digits decimals) :
    unsigned? (whole ++ '.' :: decimals) =
      some ((Nat.ofDigitChars 10 whole 0 : ℚ) +
        Nat.ofDigitChars 10 decimals 0 / 10 ^ decimals.length) := by
  have hnot : ∀ c ∈ whole, decide (c ≠ '.') = true := by
    intro c hc
    exact decide_eq_true (isDigit_ne (hwhole.2 c hc) (by decide))
  have htake : (whole ++ '.' :: decimals).takeWhile (· ≠ '.') = whole := by
    rw [List.takeWhile_append_of_pos hnot]
    simp
  have hdrop : (whole ++ '.' :: decimals).dropWhile (· ≠ '.') = '.' :: decimals := by
    rw [List.dropWhile_append_of_pos hnot]
    simp
  simp only [unsigned?, htake, hdrop, List.tail_cons]
  exact if_pos ⟨hwhole, hdecimals⟩

/-- What is printed is read back without loss. -/
theorem unsigned_fixedPoint {decimals : ℕ} (some_decimals : 0 < decimals) (n : ℕ) :
    unsigned? (fixedPoint decimals n) = some ((n : ℚ) / 10 ^ decimals) := by
  have hlow : (Nat.toDigits 10 (n % 10 ^ decimals)).length ≤ decimals :=
    (Nat.length_toDigits_le_iff (by decide) some_decimals).mpr
      (Nat.mod_lt _ (Nat.pow_pos (by decide)))
  have hread := unsigned_point (digits_toDigits (n / 10 ^ decimals))
    (digits_padded (decimals - (Nat.toDigits 10 (n % 10 ^ decimals)).length) (n % 10 ^ decimals))
  have hsplit : (n : ℚ) = (n / 10 ^ decimals : ℕ) * 10 ^ decimals + (n % 10 ^ decimals : ℕ) := by
    exact_mod_cast (Nat.div_add_mod' n (10 ^ decimals)).symm
  have hpow : (10 : ℚ) ^ decimals ≠ 0 := by positivity
  rw [ofDigitChars_padded, Nat.ofDigitChars_ten_toDigits, List.length_append,
    List.length_replicate, Nat.sub_add_cancel hlow] at hread
  rw [fixedPoint, hread]
  refine congrArg some ?_
  rw [eq_div_iff hpow, add_mul, div_mul_cancel₀ _ hpow]
  exact hsplit.symm

/-- Nothing that begins with a digit is taken for a negative number. -/
theorem number_unsigned {text : List Char} (h : ∀ c ∈ text.head?, c.isDigit = true) :
    number? text = unsigned? text := by
  cases text with
  | nil => rfl
  | cons c text =>
      have hminus : c ≠ '-' := isDigit_ne (h c rfl) (by decide)
      simp only [number?]
      split
      · rename_i heq
        exact absurd (List.cons.inj heq).1 hminus
      · rfl

theorem fixedPoint_head (decimals n : ℕ) : ∀ c ∈ (fixedPoint decimals n).head?,
    c.isDigit = true := by
  intro c hc
  rw [fixedPoint, List.head?_append_of_ne_nil _ Nat.toDigits_ne_nil] at hc
  exact (digits_toDigits _).2 c (List.mem_of_mem_head? hc)

theorem number_fixedPoint {decimals : ℕ} (some_decimals : 0 < decimals) (n : ℕ) :
    number? (fixedPoint decimals n) = some ((n : ℚ) / 10 ^ decimals) := by
  rw [number_unsigned (fixedPoint_head decimals n), unsigned_fixedPoint some_decimals]

theorem number_minus_fixedPoint {decimals : ℕ} (some_decimals : 0 < decimals) (n : ℕ) :
    number? ('-' :: fixedPoint decimals n) = some (-((n : ℚ) / 10 ^ decimals)) := by
  rw [number?, unsigned_fixedPoint some_decimals]
  rfl

theorem length_fixedPoint {decimals k n : ℕ} (some_decimals : 0 < decimals) (some_digits : 0 < k)
    (small : n < 10 ^ (k + decimals)) : (fixedPoint decimals n).length ≤ k + decimals + 1 := by
  have hwhole : (Nat.toDigits 10 (n / 10 ^ decimals)).length ≤ k :=
    (Nat.length_toDigits_le_iff (by decide) some_digits).mpr
      (Nat.div_lt_of_lt_mul (by rwa [← pow_add, Nat.add_comm]))
  have hlow : (Nat.toDigits 10 (n % 10 ^ decimals)).length ≤ decimals :=
    (Nat.length_toDigits_le_iff (by decide) some_decimals).mpr
      (Nat.mod_lt _ (Nat.pow_pos (by decide)))
  simp only [fixedPoint, List.length_append, List.length_cons, List.length_replicate]
  omega

/-- `text` is a numeral that is off by no more than half a unit of its last place. -/
def Rounds (decimals : ℕ) (q : ℚ) (text : List Char) : Prop :=
  ∃ r, number? text = some r ∧ |r - q| ≤ 1 / (2 * 10 ^ decimals)

theorem Rounds.fixedPoint {decimals n : ℕ} (some_decimals : 0 < decimals) {q : ℚ}
    (near : |(n : ℚ) - q * 10 ^ decimals| ≤ 1 / 2) :
    Rounds decimals q (fixedPoint decimals n) := by
  refine ⟨_, number_fixedPoint some_decimals n, ?_⟩
  have hpow : (0 : ℚ) < 10 ^ decimals := by positivity
  have hscale : (n : ℚ) / 10 ^ decimals - q = (n - q * 10 ^ decimals) / 10 ^ decimals := by
    field_simp
  rw [hscale, abs_div, abs_of_pos hpow, div_le_div_iff₀ hpow (by positivity)]
  linarith [mul_le_mul_of_nonneg_right near (by positivity : (0 : ℚ) ≤ 2 * 10 ^ decimals)]

theorem Rounds.minus {decimals n : ℕ} (some_decimals : 0 < decimals) {q : ℚ}
    (near : |(n : ℚ) - q * 10 ^ decimals| ≤ 1 / 2) :
    Rounds decimals (-q) ('-' :: DecimalText.fixedPoint decimals n) := by
  obtain ⟨r, hr, hclose⟩ := Rounds.fixedPoint some_decimals near
  rw [number_fixedPoint some_decimals] at hr
  obtain rfl := Option.some.inj hr
  refine ⟨_, number_minus_fixedPoint some_decimals n, ?_⟩
  rwa [neg_sub_neg, abs_sub_comm]

/-- The nearest whole number, halves to the even neighbour, is off by a half at most. -/
theorem nearest_floor {x : ℚ} (pos : 0 ≤ x) {up : Prop} [Decidable up]
    (above : up → 1 / 2 ≤ x - ⌊x⌋.toNat) (below : ¬ up → x - ⌊x⌋.toNat ≤ 1 / 2) :
    |((if up then ⌊x⌋.toNat + 1 else ⌊x⌋.toNat : ℕ) : ℚ) - x| ≤ 1 / 2 := by
  have hfloor : ((⌊x⌋.toNat : ℕ) : ℚ) = ⌊x⌋ := by
    exact_mod_cast Int.toNat_of_nonneg (Int.floor_nonneg.mpr pos)
  have hlow := Int.floor_le x
  have hhigh := Int.lt_floor_add_one x
  rw [hfloor] at above below
  rw [abs_le]
  split
  · have := above ‹_›
    push_cast
    rw [hfloor]
    constructor <;> linarith
  · have := below ‹_›
    rw [hfloor]
    constructor <;> linarith

end DecimalText
