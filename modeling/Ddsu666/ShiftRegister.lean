/- Reflected feedback shift registers of any width, and the error patterns they detect. -/
import Mathlib.Algebra.BigOperators.Group.Finset.Basic
import Mathlib.Algebra.Field.ZMod
import Mathlib.Data.List.GetD
import Mathlib.Data.List.Induction

namespace ShiftRegister

variable {w : Nat} (poly : BitVec w)

/-- One shift towards the least significant end, with feedback of the bit that falls out. -/
def shift (r : BitVec w) : BitVec w := (r >>> 1) ^^^ (if r.getLsbD 0 then poly else 0#w)

def feed (r : BitVec w) (b : Bool) : BitVec w := shift poly (r ^^^ (if b then 1#w else 0#w))

def run (r : BitVec w) (bits : List Bool) : BitVec w := bits.foldl (feed poly) r

@[simp] theorem run_nil (r : BitVec w) : run poly r [] = r := rfl

@[simp] theorem run_cons (r : BitVec w) (b : Bool) (bits : List Bool) :
    run poly r (b :: bits) = run poly (feed poly r b) bits := rfl

theorem run_append (r : BitVec w) (as bs : List Bool) :
    run poly r (as ++ bs) = run poly (run poly r as) bs := List.foldl_append

/-! The register is linear in its contents and in the bits it is fed. -/

@[simp] theorem shift_zero : shift poly 0#w = 0#w := by simp [shift]

theorem xor_exchange (a b c d : BitVec w) : a ^^^ b ^^^ (c ^^^ d) = a ^^^ c ^^^ (b ^^^ d) := by
  ac_rfl

theorem select_xor (p : BitVec w) (a b : Bool) :
    (if (a ^^ b) then p else 0#w) = (if a then p else 0#w) ^^^ (if b then p else 0#w) := by
  cases a <;> cases b <;> simp

theorem shift_xor (a b : BitVec w) : shift poly (a ^^^ b) = shift poly a ^^^ shift poly b := by
  simp only [shift, BitVec.getLsbD_xor, BitVec.ushiftRight_xor_distrib, select_xor]
  exact xor_exchange _ _ _ _

theorem feed_xor (r s : BitVec w) (a b : Bool) :
    feed poly (r ^^^ s) (a ^^ b) = feed poly r a ^^^ feed poly s b := by
  simp only [feed, select_xor, ← shift_xor]
  rw [xor_exchange]

/-- Superposition of two runs of the same length. -/
theorem run_xor (r s : BitVec w) (as bs : List Bool) (same : as.length = bs.length) :
    run poly (r ^^^ s) (List.zipWith xor as bs) = run poly r as ^^^ run poly s bs := by
  induction as generalizing r s bs with
  | nil =>
      cases bs with
      | nil => rfl
      | cons b bs => cases same
  | cons a as ih =>
      cases bs with
      | nil => cases same
      | cons b bs =>
          simp only [List.zipWith_cons_cons, run_cons, feed_xor]
          exact ih _ _ bs (Nat.succ.inj same)

theorem xor_eq_zero {a b : BitVec w} (h : a ^^^ b = 0#w) : a = b := BitVec.xor_eq_zero_iff.mp h

/-! Silence only shifts, and a top feedback bit makes shifting lose nothing. -/

theorem run_silence (r : BitVec w) (n : Nat) :
    run poly r (List.replicate n false) = (shift poly)^[n] r := by
  induction n generalizing r with
  | zero => rfl
  | succ n ih =>
      simp only [List.replicate_succ, run_cons, ih, Function.iterate_succ_apply]
      simp [feed]

section Injective

variable {poly} (top : poly.msb = true)

include top

theorem shift_eq_zero {r : BitVec w} (h : shift poly r = 0#w) : r = 0#w := by
  have hw : 0 < w := by
    rcases Nat.eq_zero_or_pos w with rfl | hw
    · rw [BitVec.eq_nil poly] at top
      cases top
    · exact hw
  have hlow : r.getLsbD 0 = false := by
    by_contra hr
    have hbit := congrArg (fun x => x.getLsbD (w - 1)) h
    rw [BitVec.msb_eq_getLsbD_last] at top
    simp [shift, hr, top, Nat.add_sub_cancel' hw] at hbit
  simp only [shift, hlow, Bool.false_eq_true, if_false, BitVec.xor_zero] at h
  apply BitVec.eq_of_getLsbD_eq
  intro i hi
  cases i with
  | zero => simpa using hlow
  | succ i =>
      have hbit := congrArg (fun x => x.getLsbD i) h
      simpa [Nat.add_comm 1 i] using hbit

theorem shift_injective : Function.Injective (shift poly) := by
  intro a b h
  apply xor_eq_zero
  apply shift_eq_zero top
  rw [shift_xor, h, BitVec.xor_self]

theorem iterate_eq_zero {n : Nat} {r : BitVec w} (h : (shift poly)^[n] r = 0#w) : r = 0#w := by
  apply (shift_injective top).iterate n
  rw [h, Function.iterate_fixed (shift_zero poly)]

end Injective

/-! Parity of the register is kept by a shift whose feedback is of odd weight. -/

def bit (b : Bool) : ZMod 2 := if b then 1 else 0

def parity (r : BitVec w) : ZMod 2 := ∑ i ∈ Finset.range w, bit (r.getLsbD i)

theorem bit_xor (a b : Bool) : bit (a ^^ b) = bit a + bit b := by
  cases a <;> cases b <;> decide

theorem parity_xor (a b : BitVec w) : parity (a ^^^ b) = parity a + parity b := by
  simp only [parity, BitVec.getLsbD_xor, bit_xor, Finset.sum_add_distrib]

theorem parity_zero : parity (0#w) = 0 := by simp [parity, bit]

theorem parity_one (hw : 0 < w) : parity (1#w) = 1 := by
  unfold parity
  rw [Finset.sum_eq_single_of_mem 0 (Finset.mem_range.mpr hw)]
  · simp [bit, hw]
  · intro i hi hne
    simp [bit, BitVec.getLsbD_one, hne]

theorem parity_ushiftRight (r : BitVec w) : parity (r >>> 1) + bit (r.getLsbD 0) = parity r := by
  have hout : bit (r.getLsbD w) = 0 := by simp [bit]
  have hcell : ∀ i, (r >>> 1).getLsbD i = r.getLsbD (i + 1) := by
    intro i
    rw [BitVec.getLsbD_ushiftRight, Nat.add_comm]
  simp only [parity, hcell]
  rw [← Finset.sum_range_succ' (fun i => bit (r.getLsbD i)), Finset.sum_range_succ, hout, add_zero]

section Odd

variable {poly} (odd : parity poly = 1)

include odd

theorem parity_shift (r : BitVec w) : parity (shift poly r) = parity r := by
  rw [← parity_ushiftRight r, shift, parity_xor]
  cases r.getLsbD 0 with
  | false => simp [parity_zero, bit]
  | true => simp [odd, bit]

theorem parity_run (hw : 0 < w) (r : BitVec w) (bits : List Bool) :
    parity (run poly r bits) = parity r + (bits.count true : ZMod 2) := by
  induction bits generalizing r with
  | nil => simp
  | cons b bits ih =>
      rw [run_cons, ih, feed, parity_shift odd, parity_xor]
      cases b with
      | false => simp [parity_zero]
      | true =>
          rw [if_pos rfl, parity_one hw, List.count_cons_self, Nat.cast_add, Nat.cast_one,
            add_assoc, add_comm 1]

end Odd

/-! Up to `w` bits may be loaded at once and then shifted, instead of being fed one by one. -/

/-- The bits as a register value, the first of them least significant. -/
def word : List Bool → BitVec w
  | [] => 0#w
  | b :: bits => (if b then 1#w else 0#w) ^^^ (word bits <<< 1)

theorem getLsbD_word (bits : List Bool) (i : Nat) :
    (word bits : BitVec w).getLsbD i = (decide (i < w) && bits.getD i false) := by
  induction bits generalizing i with
  | nil => simp [word]
  | cons b bits ih =>
      cases i with
      | zero => cases b <;> simp [word]
      | succ i =>
          have hone : (if b then 1#w else 0#w).getLsbD (i + 1) = false := by
            cases b <;> simp [BitVec.getLsbD_one]
          simp only [word, BitVec.getLsbD_xor, hone, Bool.false_xor, BitVec.getLsbD_shiftLeft, ih]
          by_cases hi : i + 1 < w
          · simp [hi, show i < w by omega]
          · simp [hi]

theorem shift_shiftLeft {r : BitVec w} (clear : r.getLsbD (w - 1) = false) :
    shift poly (r <<< 1) = r := by
  apply BitVec.eq_of_getLsbD_eq
  intro i hi
  have hlow : (r <<< 1).getLsbD 0 = false := by simp
  simp only [shift, hlow, Bool.false_eq_true, if_false, BitVec.xor_zero,
    BitVec.getLsbD_ushiftRight, BitVec.getLsbD_shiftLeft]
  by_cases hlast : i = w - 1
  · rw [hlast, clear]
    simp [show ¬ 1 + (w - 1) < w by omega]
  · simp [show 1 + i < w by omega]

theorem run_eq_shift_word (r : BitVec w) (bits : List Bool) (fits : bits.length ≤ w) :
    run poly r bits = (shift poly)^[bits.length] (r ^^^ word bits) := by
  induction bits generalizing r with
  | nil => simp [word]
  | cons b bits ih =>
      have hshort : bits.length + 1 ≤ w := fits
      have hclear : (word bits : BitVec w).getLsbD (w - 1) = false := by
        rw [getLsbD_word, List.getD_eq_default _ _ (by omega), Bool.and_false]
      rw [run_cons, ih _ (by omega), List.length_cons, Function.iterate_succ_apply, word,
        ← BitVec.xor_assoc, shift_xor, shift_shiftLeft poly hclear]
      rfl

/-- A register that is fed its own bits ends in zero. -/
theorem run_own_bits (r : BitVec w) :
    run poly r ((List.range w).map fun i => r.getLsbD i) = 0#w := by
  have hword : word ((List.range w).map fun i => r.getLsbD i) = r := by
    apply BitVec.eq_of_getLsbD_eq
    intro i hi
    rw [getLsbD_word]
    simp [hi]
  rw [run_eq_shift_word poly r _ (by simp), hword, BitVec.xor_self,
    Function.iterate_fixed (shift_zero poly)]

theorem word_eq_zero {bits : List Bool} (fits : bits.length ≤ w)
    (h : (word bits : BitVec w) = 0#w) :
    bits = List.replicate bits.length false := by
  apply List.eq_replicate_of_mem
  intro b member
  obtain ⟨i, hi, rfl⟩ := List.mem_iff_getElem.mp member
  have hbit := congrArg (fun x => x.getLsbD i) h
  simp only [getLsbD_word, BitVec.getLsbD_zero, Bool.and_eq_false_iff,
    decide_eq_false_iff_not] at hbit
  have := hbit.resolve_left (by omega)
  simpa [hi] using this

/-! Detection is stated on an error pattern: the bits in which two messages differ. -/

def positions (e : List Bool) : Finset ℕ :=
  (Finset.range e.length).filter fun k => e.getD k false = true

theorem mem_positions {e : List Bool} {k : ℕ} : k ∈ positions e ↔ e.getD k false = true := by
  simp only [positions, Finset.mem_filter, Finset.mem_range, and_iff_right_iff_imp]
  intro h
  by_contra hk
  rw [List.getD_eq_default _ _ (Nat.not_lt.mp hk)] at h
  cases h

theorem positions_snoc (e : List Bool) (b : Bool) :
    positions (e ++ [b]) = if b then insert e.length (positions e) else positions e := by
  ext k
  rw [mem_positions]
  rcases Nat.lt_trichotomy k e.length with hk | rfl | hk
  · rw [List.getD_append _ _ _ _ hk, ← mem_positions]
    cases b <;> simp [hk.ne]
  · have hout : e.length ∉ positions e := by simp [positions]
    cases b <;> simp [hout]
  · have hout : k ∉ positions e := by simp [positions, hk.le]
    rw [List.getD_eq_default _ _ (by simpa using hk)]
    cases b <;> simp [hout, hk.ne']

theorem card_positions (e : List Bool) : (positions e).card = e.count true := by
  induction e using List.reverseRecOn with
  | nil => rfl
  | append_singleton e b ih =>
      rw [positions_snoc, List.count_append, ← ih]
      cases b with
      | false => simp
      | true =>
          rw [if_pos rfl, Finset.card_insert_of_notMem (by simp [positions])]
          simp

theorem silent_of_count {e : List Bool} (h : e.count true = 0) :
    e = List.replicate e.length false := by
  apply List.eq_replicate_of_mem
  intro b member
  cases b with
  | false => rfl
  | true => exact absurd member (List.count_eq_zero.mp h)

theorem exists_first {e : List Bool} (h : true ∈ e) :
    ∃ i rest, e = List.replicate i false ++ true :: rest := by
  induction e with
  | nil => cases h
  | cons b e ih =>
      cases b with
      | true => exact ⟨0, e, rfl⟩
      | false =>
          obtain ⟨i, rest, rfl⟩ := ih (by simpa using h)
          exact ⟨i + 1, rest, rfl⟩

theorem count_of_no_position {e : List Bool} (h : ∀ k, k ∉ positions e) : e.count true = 0 := by
  rw [← card_positions, Finset.card_eq_zero]
  exact Finset.eq_empty_of_forall_notMem h

/-- A bounded search for a return to `x`, so that a period can be settled by evaluation. -/
def avoids {α : Type} [DecidableEq α] (step : α → α) (x : α) : ℕ → α → Bool
  | 0, _ => true
  | n + 1, y => let z := step y; !decide (z = x) && avoids step x n z

theorem avoids_sound {α : Type} [DecidableEq α] {step : α → α} {x : α} {n : ℕ} {y : α}
    (h : avoids step x n y = true) : ∀ d, 0 < d → d ≤ n → step^[d] y ≠ x := by
  induction n generalizing y with
  | zero => intro d hpos hle; omega
  | succ n ih =>
      simp only [avoids, Bool.and_eq_true, Bool.not_eq_true', decide_eq_false_iff_not] at h
      intro d hpos hle
      cases d with
      | zero => omega
      | succ d =>
          rw [Function.iterate_succ_apply]
          rcases Nat.eq_zero_or_pos d with rfl | hd
          · exact h.1
          · exact ih h.2 d hd (Nat.le_of_succ_le_succ hle)

theorem detects_odd {poly : BitVec w} (odd : parity poly = 1) (hw : 0 < w) {e : List Bool}
    (h : Odd (positions e).card) : run poly 0#w e ≠ 0#w := by
  intro hzero
  have hpar := parity_run odd hw 0#w e
  rw [hzero, parity_zero, zero_add, ← card_positions] at hpar
  have heven : (positions e).card % 2 = 0 :=
    Nat.mod_eq_zero_of_dvd ((ZMod.natCast_eq_zero_iff _ _).mp hpar.symm)
  rw [Nat.odd_iff] at h
  omega

/-- Two single bits are told apart as long as the register does not return to `1` in between. -/
theorem detects_pair {poly : BitVec w} (top : poly.msb = true) {n : ℕ}
    (period : ∀ d, 0 < d → d < n → (shift poly)^[d] 1#w ≠ 1#w) {e : List Bool}
    (len : e.length ≤ n) (h : (positions e).card = 2) : run poly 0#w e ≠ 0#w := by
  rw [card_positions] at h
  obtain ⟨i, rest, rfl⟩ := exists_first (List.count_pos_iff.mp (by omega : 0 < e.count true))
  have hrest : rest.count true = 1 := by
    simpa [List.count_replicate] using h
  obtain ⟨j, last, rfl⟩ := exists_first (List.count_pos_iff.mp (by omega : 0 < rest.count true))
  have hlast : last.count true = 0 := by
    simpa [List.count_replicate] using hrest
  rw [silent_of_count hlast] at len ⊢
  simp only [List.length_append, List.length_replicate, List.length_cons] at len
  intro hzero
  simp only [run_append, run_silence, run_cons] at hzero
  have hfirst := shift_eq_zero top (iterate_eq_zero top hzero)
  have hback : (shift poly)^[j] (shift poly 1#w) = 1#w := by
    apply xor_eq_zero
    simpa [feed, Function.iterate_fixed (shift_zero poly)] using hfirst
  exact period (j + 1) (Nat.succ_pos j) (by omega) hback

/-- A burst no wider than the register leaves a trace, wherever it lies. -/
theorem detects_burst {poly : BitVec w} (top : poly.msb = true) {e : List Bool} {p : ℕ}
    (some_error : (positions e).Nonempty) (burst : positions e ⊆ Finset.Ico p (p + w)) :
    run poly 0#w e ≠ 0#w := by
  have hsplit : e = e.take p ++ ((e.drop p).take w ++ e.drop (p + w)) := by
    rw [← List.drop_drop, List.take_append_drop, List.take_append_drop]
  have hbefore : (e.take p).count true = 0 := by
    apply count_of_no_position
    intro k hk
    rw [mem_positions] at hk
    have hlt : k < p := by
      by_contra hge
      rw [List.getD_eq_default _ _ (by simp; omega)] at hk
      cases hk
    have hmem : k ∈ positions e := by
      rw [mem_positions]
      simpa [List.getD_eq_getElem?_getD, List.getElem?_take, hlt] using hk
    have := Finset.mem_Ico.mp (burst hmem)
    omega
  have hafter : (e.drop (p + w)).count true = 0 := by
    apply count_of_no_position
    intro k hk
    have hmem : p + w + k ∈ positions e := by
      rw [mem_positions] at hk ⊢
      simpa [List.getD_eq_getElem?_getD, List.getElem?_drop] using hk
    have := Finset.mem_Ico.mp (burst hmem)
    omega
  intro hzero
  rw [hsplit, run_append, silent_of_count hbefore, run_silence,
    Function.iterate_fixed (shift_zero poly), run_append, silent_of_count hafter,
    run_silence] at hzero
  have hmid := iterate_eq_zero top hzero
  have hfits : ((e.drop p).take w).length ≤ w := by simp
  rw [run_eq_shift_word poly _ _ hfits] at hmid
  have hword := iterate_eq_zero top hmid
  rw [BitVec.zero_xor] at hword
  have hquiet : ((e.drop p).take w).count true = 0 := by
    rw [word_eq_zero hfits hword]
    simp [List.count_replicate]
  have hnone : (positions e).card = 0 := by
    rw [card_positions, hsplit, List.count_append, List.count_append, hbefore, hquiet, hafter]
  exact some_error.card_ne_zero hnone

end ShiftRegister
