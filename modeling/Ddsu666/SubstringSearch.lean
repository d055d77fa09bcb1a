/- The first occurrence of a string in another one. -/
import Mathlib.Data.List.Basic
import Mathlib.Data.List.Infix

namespace SubstringSearch

variable {α : Type*} [DecidableEq α]

/-- What begins with the first occurrence, as a pointer to it would be read. -/
def search (needle : List α) : List α → Option (List α)
  | [] => if needle = [] then some [] else none
  | x :: xs => if needle <+: x :: xs then some (x :: xs) else search needle xs

/-- Whatever follows, `needle` behind `before` is its first occurrence. -/
def FirstAfter (needle before : List α) : Prop := ¬ needle <:+: before ++ needle.dropLast

theorem search_eq_none {needle s : List α} : search needle s = none ↔ ¬ needle <:+: s := by
  induction s with
  | nil =>
      rw [search, List.infix_nil]
      split
      · simp_all
      · simp_all
  | cons x xs ih =>
      rw [search, List.infix_cons_iff, not_or]
      split
      · simp_all
      · simp_all

theorem search_prefix {needle s : List α} (h : needle <+: s) : search needle s = some s := by
  cases s with
  | nil =>
      rw [List.prefix_nil.mp h]
      rfl
  | cons x xs => exact if_pos h

theorem search_suffix {needle s t : List α} (h : search needle s = some t) : t <:+ s := by
  induction s with
  | nil =>
      rw [search] at h
      split at h
      · cases h
        exact List.suffix_refl []
      · cases h
  | cons x xs ih =>
      rw [search] at h
      split at h
      · cases h
        exact List.suffix_refl (x :: xs)
      · exact (ih h).trans (List.suffix_cons x xs)

omit [DecidableEq α] in
theorem begins_with_front (needle before rest : List α) :
    before ++ needle.dropLast <+: before ++ (needle ++ rest) := by
  rw [List.prefix_append_right_inj]
  exact (List.dropLast_prefix needle).trans (List.prefix_append needle rest)

omit [DecidableEq α] in
theorem FirstAfter.nil {needle : List α} (nonempty : needle ≠ []) : FirstAfter needle [] := by
  intro early
  have hlength := early.length_le
  have hpos := List.length_pos_iff.mpr nonempty
  rw [List.nil_append, List.length_dropLast] at hlength
  omega

theorem search_first {needle before : List α} (first : FirstAfter needle before) (rest : List α) :
    search needle (before ++ (needle ++ rest)) = some (needle ++ rest) := by
  induction before with
  | nil => exact search_prefix (List.prefix_append needle rest)
  | cons x before ih =>
      unfold FirstAfter at first
      rw [List.cons_append, List.infix_cons_iff, not_or] at first
      have hlater : ¬ needle <+: x :: (before ++ (needle ++ rest)) := by
        -- an occurrence that begins in front of the needle ends in front of its end
        intro occurs
        refine first.1 (List.prefix_of_prefix_length_le occurs
          (begins_with_front needle (x :: before) rest) ?_)
        rw [List.length_cons, List.length_append, List.length_dropLast]
        omega
      rw [List.cons_append, search, if_neg hlater, ih first.2]

/-- Every result is such a first occurrence. -/
theorem search_some {needle s t : List α} (nonempty : needle ≠ [])
    (h : search needle s = some t) :
    ∃ before rest, s = before ++ (needle ++ rest) ∧ t = needle ++ rest ∧
      FirstAfter needle before := by
  induction s with
  | nil =>
      rw [search, if_neg nonempty] at h
      cases h
  | cons x xs ih =>
      rw [search] at h
      split at h
      · rename_i occurs
        obtain ⟨rest, hrest⟩ := occurs
        cases h
        exact ⟨[], rest, hrest.symm, hrest.symm, FirstAfter.nil nonempty⟩
      · rename_i later
        obtain ⟨before, rest, rfl, rfl, first⟩ := ih h
        refine ⟨x :: before, rest, rfl, rfl, ?_⟩
        unfold FirstAfter
        rw [List.cons_append, List.infix_cons_iff, not_or]
        refine ⟨fun early => later ?_, first⟩
        exact early.trans (begins_with_front needle (x :: before) rest)

section Separators

omit [DecidableEq α]

variable {needle a b : List α} {c : α}

/-- No occurrence reaches across an element that the needle does not have. -/
theorem infix_separated (absent : c ∉ needle) (h : needle <:+: a ++ c :: b) :
    needle <:+: a ∨ needle <:+: b := by
  have hbegin : ∀ {xs : List α}, xs <+: c :: b → c ∉ xs → xs = [] := by
    intro xs front missing
    rcases List.prefix_cons_iff.mp front with rfl | ⟨ys, rfl, -⟩
    · rfl
    · exact absurd List.mem_cons_self missing
  rcases List.infix_append_iff.mp h with inside | behind | ⟨left, right, rfl, hleft, hright⟩
  · exact Or.inl inside
  · rcases List.infix_cons_iff.mp behind with front | inside
    · rw [hbegin front absent]
      exact Or.inr List.nil_infix
    · exact Or.inr inside
  · rw [List.mem_append, not_or] at absent
    rw [hbegin hright absent.2, List.append_nil]
    exact Or.inl hleft.isInfix

/-- An occurrence that ends in another element is not completed by this one. -/
theorem infix_concat (last : needle.getLast? ≠ some c) (h : needle <:+: a ++ [c]) :
    needle <:+: a := by
  rcases List.infix_concat_iff.mp h with suffix | inside
  · rcases List.suffix_concat_iff.mp suffix with rfl | ⟨front, rfl, -⟩
    · exact List.nil_infix
    · exact absurd List.getLast?_concat last
  · exact inside

theorem FirstAfter.separated {before : List α} (absent : c ∉ needle) (free : ¬ needle <:+: a)
    (first : FirstAfter needle before) : FirstAfter needle (a ++ c :: before) := by
  unfold FirstAfter
  rw [List.append_assoc, List.cons_append]
  intro occurs
  rcases infix_separated absent occurs with early | late
  · exact free early
  · exact first late

theorem firstAfter_singleton : FirstAfter [c] a ↔ c ∉ a := by
  unfold FirstAfter
  rw [List.dropLast_singleton, List.append_nil, List.singleton_infix_iff]

end Separators

end SubstringSearch
