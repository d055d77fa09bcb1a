/- Reading JSON: objects whose members are strings, from the bytes of a text in UTF-8. A reader
   gives what it read and the text behind it. -/
import Mathlib.Data.List.Basic
import Mathlib.Data.List.TakeWhile

namespace JsonText

abbrev Text := List UInt8

abbrev Reader (α : Type) := Text → Option (α × Text)

/-- A reader takes exactly `x`, whatever comes after it. -/
def Reads {α : Type} (r : Reader α) (x : Text) (a : α) : Prop :=
  ∀ rest, r (x ++ rest) = some (a, rest)

def expect (b : UInt8) : Text → Option Text
  | [] => none
  | c :: rest => if c = b then some rest else none

def Blank (b : UInt8) : Prop := b = 32 ∨ b = 9 ∨ b = 10 ∨ b = 13

instance (b : UInt8) : Decidable (Blank b) := inferInstanceAs (Decidable (_ ∨ _))

def skipBlank (text : Text) : Text := text.dropWhile fun b => Blank b

/-! Strings, one character at a time. -/

def hexValue? (b : UInt8) : Option ℕ :=
  if 48 ≤ b ∧ b ≤ 57 then some (b.toNat - 48)
  else if 65 ≤ b ∧ b ≤ 70 then some (b.toNat - 55)
  else if 97 ≤ b ∧ b ≤ 102 then some (b.toNat - 87)
  else none

/-- A code unit in four digits; halves of surrogate pairs are not read. -/
def unicode? : Reader Text
  | a :: b :: c :: d :: rest => do
      let w ← hexValue? a
      let x ← hexValue? b
      let y ← hexValue? c
      let z ← hexValue? d
      let n := ((w * 16 + x) * 16 + y) * 16 + z
      if n.isValidChar then some (String.utf8EncodeChar (Char.ofNat n), rest) else none
  | _ => none

/-- The letters behind a backslash that stand for one byte. -/
def letters : List (UInt8 × UInt8) :=
  [(34, 34), (92, 92), (47, 47), (98, 8), (102, 12), (110, 10), (114, 13), (116, 9)]

def escape? : Reader Text
  | [] => none
  | b :: rest =>
      if b = 117 then unicode? rest else (letters.lookup b).map fun c => ([c], rest)

def character? : Reader Text
  | [] => none
  | b :: rest =>
      if b = 92 then escape? rest
      else if b < 32 ∨ b = 34 then none
      else some ([b], rest)

/-- The rest of a string up to its closing quotation mark. -/
def characters? : ℕ → Reader Text
  | 0, _ => none
  | fuel + 1, text =>
      match character? text with
      | some (c, rest) => (characters? fuel rest).map fun (cs, after) => (c ++ cs, after)
      | none => (expect 34 text).map fun after => ([], after)

def string? (text : Text) : Option (Text × Text) := do
  let rest ← expect 34 text
  characters? rest.length rest

/-! Objects. -/

def member? (text : Text) : Option ((Text × Text) × Text) := do
  let (name, rest) ← string? (skipBlank text)
  let rest ← expect 58 (skipBlank rest)
  let (value, rest) ← string? (skipBlank rest)
  return ((name, value), rest)

/-- One member or more, and the closing brace. -/
def members? : ℕ → Reader (List (Text × Text))
  | 0, _ => none
  | fuel + 1, text => do
      let (m, rest) ← member? text
      match expect 44 (skipBlank rest) with
      | some more => (members? fuel more).map fun (ms, after) => (m :: ms, after)
      | none => (expect 125 (skipBlank rest)).map fun after => ([m], after)

def object? (text : Text) : Option (List (Text × Text)) := do
  let inner ← expect 123 (skipBlank text)
  let (ms, after) ← match expect 125 (skipBlank inner) with
    | some after => some ([], after)
    | none => members? inner.length inner
  if skipBlank after = [] then some ms else none

/-! What the readers make of a text that was written piece by piece. -/

def quoted (x : Text) : Text := 34 :: (x ++ [34])

theorem skipBlank_append {x : Text} (blank : ∀ b ∈ x, Blank b) (rest : Text) :
    skipBlank (x ++ rest) = skipBlank rest :=
  List.dropWhile_append_of_pos fun b hb => decide_eq_true (blank b hb)

theorem skipBlank_cons {b : UInt8} (black : ¬ Blank b) (rest : Text) :
    skipBlank (b :: rest) = b :: rest :=
  List.dropWhile_cons_of_neg (by simpa using black)

theorem expect_cons (b : UInt8) (rest : Text) : expect b (b :: rest) = some rest := if_pos rfl

theorem unicode_append {x v after : Text} (h : unicode? x = some (v, after)) (more : Text) :
    unicode? (x ++ more) = some (v, after ++ more) := by
  match x, h with
  | a :: b :: c :: d :: rest, h =>
      simp only [unicode?, Option.bind_eq_bind, Option.bind_eq_some_iff] at h
      obtain ⟨w, hw, x, hx, y, hy, z, hz, h⟩ := h
      split at h
      · rename_i valid
        obtain ⟨rfl, rfl⟩ := Prod.mk.inj (Option.some.inj h)
        simp only [List.cons_append, unicode?, hw, hx, hy, hz, Option.bind_eq_bind,
          Option.bind_some, if_pos valid]
      · cases h

theorem escape_append {x v after : Text} (h : escape? x = some (v, after)) (more : Text) :
    escape? (x ++ more) = some (v, after ++ more) := by
  cases x with
  | nil => cases h
  | cons b rest =>
      rw [escape?] at h
      rw [List.cons_append, escape?]
      by_cases hunit : b = 117
      · rw [if_pos hunit] at h ⊢
        exact unicode_append h more
      · rw [if_neg hunit] at h ⊢
        obtain ⟨c, hc, hsplit⟩ := Option.map_eq_some_iff.mp h
        obtain ⟨rfl, rfl⟩ := Prod.mk.inj hsplit
        rw [hc, Option.map_some]

/-- No character needs what comes after it. -/
theorem character_append {x v after : Text} (h : character? x = some (v, after)) (more : Text) :
    character? (x ++ more) = some (v, after ++ more) := by
  cases x with
  | nil => cases h
  | cons b rest =>
      rw [character?] at h
      rw [List.cons_append, character?]
      by_cases slash : b = 92
      · rw [if_pos slash] at h ⊢
        exact escape_append h more
      · rw [if_neg slash] at h ⊢
        by_cases bare : b < 32 ∨ b = 34
        · rw [if_pos bare] at h
          cases h
        · rw [if_neg bare] at h ⊢
          obtain ⟨rfl, rfl⟩ := Prod.mk.inj (Option.some.inj h)
          rfl

/-- The first text is the second one, spelled character by character. -/
inductive Spells : Text → Text → Prop
  | nil : Spells [] []
  | cons {c cs v vs : Text} (first : character? c = some (v, [])) (more : Spells cs vs) :
      Spells (c ++ cs) (v ++ vs)

theorem Spells.characters {x v : Text} (h : Spells x v) {n : ℕ} (enough : x.length < n)
    (rest : Text) : characters? n (x ++ 34 :: rest) = some (v, rest) := by
  induction h generalizing n with
  | nil =>
      obtain ⟨n, rfl⟩ := Nat.exists_eq_succ_of_ne_zero (Nat.ne_zero_of_lt enough)
      rfl
  | @cons c cs v vs first more ih =>
      obtain ⟨n, rfl⟩ := Nat.exists_eq_succ_of_ne_zero (Nat.ne_zero_of_lt enough)
      have some_bytes : 0 < c.length := by
        cases c with
        | nil => cases first
        | cons b c => exact Nat.succ_pos _
      rw [List.length_append] at enough
      have hmore := ih (n := n) (by omega)
      rw [List.append_assoc, characters?, character_append first]
      simp only [List.nil_append, hmore, Option.map_some]

theorem Spells.string {x v : Text} (h : Spells x v) : Reads string? (quoted x) v := by
  intro rest
  rw [quoted, List.cons_append, List.append_assoc, string?, expect_cons]
  exact h.characters (by simp) rest

theorem reads_member {before gap name value k v : Text} (hbefore : ∀ b ∈ before, Blank b)
    (hgap : ∀ b ∈ gap, Blank b) (hname : Spells name k) (hvalue : Spells value v) :
    Reads member? (before ++ (quoted name ++ 58 :: (gap ++ quoted value))) (k, v) := by
  intro rest
  have hquote : ¬ Blank 34 := by decide
  have hcolon : ¬ Blank 58 := by decide
  have hfirst := hname.string (58 :: (gap ++ (quoted value ++ rest)))
  have hsecond := hvalue.string rest
  have hstart : ∀ x text, skipBlank (quoted x ++ text) = quoted x ++ text :=
    fun x text => skipBlank_cons hquote _
  simp only [List.append_assoc, List.cons_append, member?, skipBlank_append hbefore, hstart,
    hfirst, Option.bind_eq_bind, Option.bind_some, skipBlank_cons hcolon, expect_cons,
    skipBlank_append hgap, hsecond]
  rfl

/-- No member begins with the closing brace. -/
theorem Reads.open {line rest : Text} {m : Text × Text} (h : Reads member? line m) :
    expect 125 (skipBlank (line ++ rest)) = none := by
  have hread := h rest
  cases hstart : skipBlank (line ++ rest) with
  | nil => rfl
  | cons b text =>
      by_cases closing : b = 125
      · rw [closing] at hstart
        rw [member?, hstart] at hread
        cases hread
      · exact if_neg closing

theorem member_blank {sep : Text} (blank : ∀ b ∈ sep, Blank b) (text : Text) :
    member? (sep ++ text) = member? text := by
  rw [member?, skipBlank_append blank, ← member?]

theorem members_blank {sep : Text} (blank : ∀ b ∈ sep, Blank b) (n : ℕ) (text : Text) :
    members? n (sep ++ text) = members? n text := by
  cases n with
  | zero => rfl
  | succ n => rw [members?, members?, member_blank blank]

theorem Reads.pos {line : Text} {m : Text × Text} (h : Reads member? line m) : 0 < line.length := by
  cases line with
  | nil => cases h []
  | cons b line => exact Nat.succ_pos _

theorem lines_le {sep : Text} {lines : List Text} {ms : List (Text × Text)}
    (h : List.Forall₂ (Reads member?) lines ms) :
    lines.length ≤ (List.intercalate sep lines).length := by
  induction h with
  | nil => exact Nat.zero_le _
  | @cons line m lines ms hline hlines ih =>
      have hpos := hline.pos
      cases hlines with
      | nil =>
          rw [List.intercalate_singleton]
          exact hpos
      | @cons next m' lines ms' hnext hlines =>
          rw [List.intercalate_cons_cons, List.length_append, List.length_append,
            List.length_cons]
          omega

/-- Lines with a comma between them, and the closing brace. -/
theorem members_lines {sep close : Text} (hsep : ∀ b ∈ sep, Blank b)
    (hclose : ∀ b ∈ close, Blank b) {lines : List Text} {ms : List (Text × Text)}
    (h : List.Forall₂ (Reads member?) lines ms) (some_line : lines ≠ []) {n : ℕ}
    (enough : lines.length ≤ n) (rest : Text) :
    members? n (List.intercalate (44 :: sep) lines ++ (close ++ 125 :: rest)) =
      some (ms, rest) := by
  have hcomma : ¬ Blank 44 := by decide
  have hbrace : ¬ Blank 125 := by decide
  induction h generalizing n with
  | nil => exact absurd rfl some_line
  | @cons line m lines ms hline hlines ih =>
      obtain ⟨n, rfl⟩ := Nat.exists_eq_succ_of_ne_zero (Nat.ne_zero_of_lt enough)
      cases hlines with
      | nil =>
          have hread := hline (close ++ 125 :: rest)
          have hend : expect 44 (125 :: rest) = none := rfl
          simp only [List.intercalate_singleton, members?, hread, Option.bind_eq_bind,
            Option.bind_some, skipBlank_append hclose, skipBlank_cons hbrace, hend, expect_cons,
            Option.map_some]
      | @cons next m' lines ms' hnext hlines =>
          have hread := hline (44 :: (sep ++ (List.intercalate (44 :: sep) (next :: lines) ++
            (close ++ 125 :: rest))))
          have hmore := ih (List.cons_ne_nil _ _) (n := n) (Nat.le_of_succ_le_succ enough)
          simp only [List.intercalate_cons_cons, List.append_assoc, List.cons_append, members?,
            hread, Option.bind_eq_bind, Option.bind_some, skipBlank_cons hcomma, expect_cons,
            members_blank hsep, hmore, Option.map_some]

/-- An object that was written line by line is read back. -/
theorem object_lines {start sep close : Text} (hstart : ∀ b ∈ start, Blank b)
    (hsep : ∀ b ∈ sep, Blank b) (hclose : ∀ b ∈ close, Blank b) {lines : List Text}
    {ms : List (Text × Text)} (h : List.Forall₂ (Reads member?) lines ms) :
    object? (123 :: (start ++ (List.intercalate (44 :: sep) lines ++ (close ++ [125])))) =
      some ms := by
  have hopen : ¬ Blank 123 := by decide
  have hbrace : ¬ Blank 125 := by decide
  rw [object?, skipBlank_cons hopen, expect_cons]
  simp only [Option.bind_eq_bind, Option.bind_some, skipBlank_append hstart]
  cases h with
  | nil =>
      rw [List.intercalate_nil, List.nil_append, skipBlank_append hclose, skipBlank_cons hbrace,
        expect_cons]
      rfl
  | @cons line m lines ms hline hlines =>
      have hall : List.Forall₂ (Reads member?) (line :: lines) (m :: ms) := .cons hline hlines
      have hle : (line :: lines).length ≤ (List.intercalate (44 :: sep) (line :: lines)).length :=
        lines_le hall
      have henough : (line :: lines).length ≤ (start ++
          (List.intercalate (44 :: sep) (line :: lines) ++ (close ++ [125]))).length := by
        simp only [List.length_append]
        omega
      have hclosed := members_lines hsep hclose hall (List.cons_ne_nil _ _) henough []
      have hinside : expect 125 (skipBlank (List.intercalate (44 :: sep) (line :: lines) ++
          (close ++ [125]))) = none := by
        cases lines with
        | nil =>
            rw [List.intercalate_singleton]
            exact hline.open
        | cons next lines =>
            rw [List.intercalate_cons_cons, List.append_assoc, List.append_assoc]
            exact hline.open
      rw [hinside, members_blank hstart, hclosed]
      rfl

end JsonText
