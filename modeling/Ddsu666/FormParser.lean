/- Forms as `form_parse` of form_parser.c reads them: three searches and two copies for each field,
   none of which is checked but the first search. -/
import Ddsu666.CheckedBuffer
import Ddsu666.StringHeap
import Ddsu666.SubstringSearch

namespace Ddsu666

open CheckedBuffer SubstringSearch StringHeap

/-- A pointer into the form is what remains of the text behind it. -/
abbrev FormText := List UInt8

inductive FormFault where
  | nullPointer
  | pastTerminator
  | buffer (f : CheckedBuffer.Fault)
  deriving DecidableEq, Repr

/-- `char *key = "name=\"";` -/
def key : FormText := [110, 97, 109, 101, 61, 34]

def crlf : FormText := [13, 10]

def strstr (haystack needle : FormText) : Option FormText := search needle haystack

def strchr (s : FormText) (c : UInt8) : Option FormText := search [c] s

/-- The terminator is the last place a pointer may move to. -/
def advance (s : FormText) (n : ℕ) : Except FormFault FormText :=
  if n ≤ s.length then .ok (s.drop n) else .error .pastTerminator

/-- A search that found nothing leaves a null pointer, which may not be used. -/
def nonNull : Option FormText → Except FormFault FormText
  | none => .error .nullPointer
  | some s => .ok s

def checked {β : Type} (x : Except CheckedBuffer.Fault β) : Except FormFault β :=
  x.mapError .buffer

/-- `len = end - start; memcpy(dst, start, len); dst[len] = '\0';` with a `len` as wide as a
pointer. -/
def copyText (start stop : FormText) (dst : Buffer UInt8) : Except FormFault (Buffer UInt8) := do
  let len := start.length - stop.length
  let dst ← checked (copyLoop (start.map some) dst 0 len)
  checked (store dst len 0)

/-- Which of its requests cJSON gets the memory for: the object, and the member of each round. -/
structure FormGrants where
  object : Bool
  member : ℕ → Bool

abbrev FormMember := FormText × FormText

structure FormState where
  data : FormText
  name : Buffer UInt8
  value : Buffer UInt8
  root : List FormMember
  hasItem : Bool
  rounds : ℕ
  deriving DecidableEq, Repr

/-- A member that could not be allocated is missing, and nobody notices. -/
def addStringToObject (grants : FormGrants) (rounds : ℕ) (root : List FormMember)
    (m : FormMember) : List FormMember :=
  if grants.member rounds then root ++ [m] else root

/-- The body of the loop; `none` is `goto exit`. -/
def formRound (grants : FormGrants) (s : FormState) : Except FormFault (Option FormState) :=
  match strstr s.data key with
  | none => .ok none
  | some index => do
      let start ← advance index key.length
      let stop ← nonNull (strchr start 34)
      let name ← copyText start stop s.name
      let start ← advance stop 5
      let stop ← nonNull (strstr start crlf)
      let value ← copyText start stop s.value
      let n ← checked (loadsUntil 0 name 0)
      let v ← checked (loadsUntil 0 value 0)
      return some
        { data := stop
          name := name
          value := value
          root := addStringToObject grants s.rounds s.root (n, v)
          hasItem := true
          rounds := s.rounds + 1 }

theorem bind_ok {ε β γ : Type} {x : Except ε β} {f : β → Except ε γ} {c : γ} :
    x >>= f = .ok c ↔ ∃ b, x = .ok b ∧ f b = .ok c := by
  cases x with
  | error e => simp [bind, Except.bind]
  | ok b => simp [bind, Except.bind]

theorem advance_ok {s t : FormText} {n : ℕ} :
    advance s n = .ok t ↔ n ≤ s.length ∧ t = s.drop n := by
  unfold advance
  split
  · rename_i inside
    simp [inside, eq_comm]
  · rename_i outside
    simp [outside]

theorem nonNull_ok {p : Option FormText} {s : FormText} : nonNull p = .ok s ↔ p = some s := by
  cases p with
  | none => simp [nonNull]
  | some t => simp [nonNull]

theorem checked_ok {β : Type} {x : Except CheckedBuffer.Fault β} {b : β} :
    checked x = .ok b ↔ x = .ok b := by
  cases x with
  | error f => simp [checked, Except.mapError]
  | ok c => simp [checked, Except.mapError]

theorem formRound_shorter {grants : FormGrants} {s t : FormState}
    (h : formRound grants s = .ok (some t)) : t.data.length < s.data.length := by
  unfold formRound at h
  split at h
  · cases h
  · rename_i index hindex
    simp only [bind_ok, advance_ok, nonNull_ok] at h
    obtain ⟨start, ⟨hroom, rfl⟩, quote, hquote, name, hname, start, ⟨-, rfl⟩, stop, hstop, value,
      hvalue, n, hn, v, hv, ht⟩ := h
    cases ht
    have hkey := (search_suffix hindex).length_le
    have hname := (search_suffix hquote).length_le
    have hline := (search_suffix hstop).length_le
    rw [List.length_drop] at hname hline
    have hlen : key.length = 6 := rfl
    change stop.length < s.data.length
    omega

/-- The `do` loop; each round begins behind what the round before has read. -/
def formLoop (grants : FormGrants) (s : FormState) : Except FormFault FormState :=
  match _round : formRound grants s with
  | .error f => .error f
  | .ok none => .ok s
  | .ok (some next) => formLoop grants next
termination_by s.data.length
decreasing_by exact formRound_shorter _round

/-- `char name[128] = {0};` and `char value[128] = {0};` before the first round. -/
def formStart (data : FormText) : FormState :=
  { data := data
    name := List.replicate 128 (some 0)
    value := List.replicate 128 (some 0)
    root := []
    hasItem := false
    rounds := 0 }

/-- The object that is returned, or a null pointer for a form without an item. -/
def formParse (grants : FormGrants) (data : CString) :
    Except FormFault (Option (List FormMember)) :=
  if grants.object then
    (formLoop grants (formStart data.1)).map fun s => if s.hasItem then some s.root else none
  else .ok none

/-- A text of 127 bytes at most in a buffer, and the old contents behind its terminator. -/
def written (text : FormText) (old : Buffer UInt8) : Buffer UInt8 :=
  text.map some ++ some 0 :: old.drop (text.length + 1)

theorem length_written {text : FormText} {old : Buffer UInt8} (fits : text.length < old.length) :
    (written text old).length = old.length := by
  simp only [written, List.length_append, List.length_map, List.length_cons, List.length_drop]
  omega

/-- What an earlier text has left in the buffer is not read. -/
theorem loadsUntil_written {text : FormText} (ends : 0 ∉ text) (old : Buffer UInt8) :
    loadsUntil 0 (written text old) 0 = .ok text := loadsUntil_append text ends _ 0

theorem copyText_fits {text : FormText} {dst : Buffer UInt8} (fits : text.length < dst.length)
    (stop : FormText) : copyText (text ++ stop) stop dst = .ok (written text dst) := by
  have hlen : (text ++ stop).length - stop.length = text.length := by
    rw [List.length_append, Nat.add_sub_cancel]
  have hcopy : copyLoop ((text ++ stop).map some) dst 0 text.length =
      .ok (text.map some ++ dst.drop text.length) :=
    copyLoop_holds (holds_map (text ++ stop)).initial fits.le
  have hroom : dst.drop text.length ≠ [] := by
    rw [ne_eq, List.drop_eq_nil_iff]
    omega
  have hstore : store (text.map some ++ dst.drop text.length) text.length 0 =
      .ok ((text ++ [0]).map some ++ dst.drop (text.length + 1)) := by
    rw [store_next hroom, List.tail_drop]
  unfold copyText
  simp only [hlen, hcopy, checked, Except.mapError, bind, Except.bind, hstore]
  simp [written]

theorem copyText_full {text : FormText} {dst : Buffer UInt8} (full : dst.length ≤ text.length)
    (stop : FormText) (b : Buffer UInt8) : copyText (text ++ stop) stop dst ≠ .ok b := by
  have hlen : (text ++ stop).length - stop.length = text.length := by
    rw [List.length_append, Nat.add_sub_cancel]
  intro copied
  simp only [copyText, hlen, bind_ok, checked_ok] at copied
  obtain ⟨c, hcopy, hstore⟩ := copied
  rcases Nat.lt_or_eq_of_le full with longer | level
  · obtain ⟨i, size, hfault⟩ := copyLoop_overflow [] text
      (holds_map (text ++ stop)).initial dst longer
    rw [List.length_nil, List.map_nil, List.nil_append, hcopy] at hfault
    cases hfault
  · -- the text just fits, and its terminator does not
    have hfull := copyLoop_holds (holds_map (text ++ stop)).initial level.ge
    rw [hcopy, List.drop_of_length_le full, List.append_nil, Except.ok.injEq] at hfull
    rw [hfull, store, if_neg (by rw [List.length_map]; exact lt_irrefl _)] at hstore
    cases hstore

/-- A copy of a text in front of `stop`. -/
theorem copyText_ok {text stop : FormText} {dst b : Buffer UInt8} :
    copyText (text ++ stop) stop dst = .ok b ↔
      text.length < dst.length ∧ b = written text dst := by
  by_cases fits : text.length < dst.length
  · rw [copyText_fits fits, Except.ok.injEq]
    simp [fits, eq_comm]
  · simp [fits, copyText_full (Nat.le_of_not_lt fits)]

/-- One field and what follows its value: a name behind `name="` up to a quote, four bytes, and the
value up to the end of its line, both short enough for 127 bytes. -/
inductive FormField : FormText → FormMember → FormText → Prop
  | mk {before name gap value rest : FormText} (first : FirstAfter key before)
      (unquoted : 34 ∉ name) (nameFits : name.length ≤ 127) (skipped : gap.length = 4)
      (oneLine : FirstAfter crlf value) (valueFits : value.length ≤ 127) :
      FormField (before ++ (key ++ (name ++ 34 :: (gap ++ (value ++ (crlf ++ rest))))))
        (name, value) (crlf ++ rest)

/-- A form in full; behind the last value there is no `name="`. -/
inductive FormBody : FormText → List FormMember → Prop
  | done {data : FormText} (ended : ¬ key <:+: data) : FormBody data []
  | field {data rest : FormText} {m : FormMember} {fields : List FormMember}
      (first : FormField data m rest) (more : FormBody rest fields) : FormBody data (m :: fields)

/-- The buffers have the size they were declared with, and the text has no terminator inside. -/
structure FormState.Ready (s : FormState) : Prop where
  name : s.name.length = 128
  value : s.value.length = 128
  ends : 0 ∉ s.data

/-- The state behind a field. -/
def FormState.next (grants : FormGrants) (s : FormState) (m : FormMember) (rest : FormText) :
    FormState :=
  { data := rest
    name := written m.1 s.name
    value := written m.2 s.value
    root := addStringToObject grants s.rounds s.root m
    hasItem := true
    rounds := s.rounds + 1 }

theorem formRound_exit {grants : FormGrants} {s : FormState} :
    formRound grants s = .ok none ↔ ¬ key <:+: s.data := by
  unfold formRound strstr
  rw [← search_eq_none]
  cases hindex : search key s.data with
  | none => simp
  | some index =>
      simp only [bind_ok, reduceCtorEq, iff_false]
      rintro ⟨start, -, quote, -, name, -, start, -, stop, -, value, -, n, -, v, -, hnone⟩
      cases hnone

theorem strstr_first {needle before : FormText} (first : FirstAfter needle before)
    (rest : FormText) : strstr (before ++ (needle ++ rest)) needle = some (needle ++ rest) :=
  search_first first rest

theorem strchr_first {c : UInt8} {before : FormText} (absent : c ∉ before) (rest : FormText) :
    strchr (before ++ c :: rest) c = some (c :: rest) :=
  search_first (firstAfter_singleton.mpr absent) rest

theorem advance_append (passed rest : FormText) :
    advance (passed ++ rest) passed.length = .ok rest := by
  rw [advance_ok, List.drop_left, List.length_append]
  exact ⟨Nat.le_add_right _ _, rfl⟩

/-- The quote and the four bytes behind it. -/
theorem advance_gap {gap : FormText} (skipped : gap.length = 4) (rest : FormText) :
    advance (34 :: (gap ++ rest)) 5 = .ok rest := by
  have hadvance := advance_append (34 :: gap) rest
  rwa [List.length_cons, skipped] at hadvance

theorem formRound_field {grants : FormGrants} {s : FormState} (ready : s.Ready) {m : FormMember}
    {rest : FormText} (h : FormField s.data m rest) :
    formRound grants s = .ok (some (s.next grants m rest)) := by
  obtain ⟨data, nameBuffer, valueBuffer, root, hasItem, rounds⟩ := s
  obtain ⟨hname, hvalue, ends⟩ := ready
  dsimp only at h hname hvalue ends
  cases h with
  | @mk before name gap value rest first unquoted nameFits skipped oneLine valueFits =>
      simp only [List.mem_append, List.mem_cons, not_or] at ends
      obtain ⟨-, -, nameEnds, -, -, valueEnds, -⟩ := ends
      have hnameRoom : name.length < nameBuffer.length := by omega
      have hvalueRoom : value.length < valueBuffer.length := by omega
      simp only [formRound, strstr_first first, advance_append, strchr_first unquoted, nonNull,
        copyText_fits hnameRoom, advance_gap skipped, strstr_first oneLine,
        copyText_fits hvalueRoom, loadsUntil_written nameEnds, loadsUntil_written valueEnds, checked,
        Except.mapError, bind, Except.bind]
      rfl

theorem formRound_inv {grants : FormGrants} {s t : FormState} (ready : s.Ready)
    (h : formRound grants s = .ok (some t)) :
    ∃ m rest, FormField s.data m rest ∧ t = s.next grants m rest := by
  have hround := h
  unfold formRound at h
  split at h
  · cases h
  · rename_i index hindex
    simp only [bind_ok, advance_ok, nonNull_ok] at h
    obtain ⟨start, ⟨-, rfl⟩, quote, hquote, nameBuffer, hnameCopy, start, ⟨hroom, rfl⟩, stop,
      hline, valueBuffer, hvalueCopy, -⟩ := h
    obtain ⟨before, behindKey, hdata, rfl, first⟩ := search_some (by decide) hindex
    rw [List.drop_left] at hquote hnameCopy
    obtain ⟨name, behindName, rfl, rfl, unquoted⟩ := search_some (by decide) hquote
    rw [copyText_ok, ready.name] at hnameCopy
    rw [List.length_append, List.length_singleton] at hroom
    rw [List.singleton_append, List.drop_succ_cons] at hline hvalueCopy
    obtain ⟨value, rest, hvalue, rfl, oneLine⟩ := search_some (by decide) hline
    rw [hvalue, copyText_ok, ready.value] at hvalueCopy
    have hgap : behindName = behindName.take 4 ++ (value ++ (crlf ++ rest)) := by
      rw [← hvalue, List.take_append_drop]
    have hfield : FormField s.data (name, value) (crlf ++ rest) := by
      rw [hdata, hgap]
      exact .mk first (firstAfter_singleton.mp unquoted) (by omega)
        (by rw [List.length_take]; omega) oneLine (by omega)
    refine ⟨(name, value), crlf ++ rest, hfield, ?_⟩
    rw [formRound_field ready hfield] at hround
    cases hround
    rfl

theorem FormState.Ready.next {s : FormState} (ready : s.Ready) (grants : FormGrants)
    {m : FormMember} {rest : FormText} (h : FormField s.data m rest) :
    (s.next grants m rest).Ready := by
  obtain ⟨hname, hvalue, ends⟩ := ready
  generalize hdata : s.data = data at h ends
  cases h with
  | mk first unquoted nameFits skipped oneLine valueFits =>
      constructor
      · exact (length_written (by rw [hname]; exact Nat.lt_succ_of_le nameFits)).trans hname
      · exact (length_written (by rw [hvalue]; exact Nat.lt_succ_of_le valueFits)).trans hvalue
      · simp only [List.mem_append, List.mem_cons, not_or] at ends
        exact fun member => (List.mem_append.mp member).elim ends.2.2.2.2.2.2.1 ends.2.2.2.2.2.2.2

section Loop

variable {grants : FormGrants} {s t : FormState}

theorem formLoop_eq : formLoop grants s = (formRound grants s).bind fun
    | none => .ok s
    | some next => formLoop grants next := by
  rw [formLoop]
  split
  · simp_all [Except.bind]
  · simp_all [Except.bind]
  · simp_all [Except.bind]

theorem formLoop_exit (h : formRound grants s = .ok none) : formLoop grants s = .ok s := by
  rw [formLoop_eq, h]
  rfl

theorem formLoop_next (h : formRound grants s = .ok (some t)) :
    formLoop grants s = formLoop grants t := by
  rw [formLoop_eq, h]
  rfl

theorem formLoop_error {f : FormFault} (h : formRound grants s = .error f) :
    formLoop grants s = .error f := by
  rw [formLoop_eq, h]
  rfl

end Loop

/-- The members that were allocated, from the given round on. -/
def kept (grants : FormGrants) : ℕ → List FormMember → List FormMember
  | _, [] => []
  | n, m :: fields =>
      if grants.member n then m :: kept grants (n + 1) fields else kept grants (n + 1) fields

theorem addStringToObject_kept (grants : FormGrants) (n : ℕ) (root : List FormMember)
    (m : FormMember) (fields : List FormMember) :
    addStringToObject grants n root m ++ kept grants (n + 1) fields =
      root ++ kept grants n (m :: fields) := by
  rw [addStringToObject, kept]
  split
  · rw [List.append_assoc, List.singleton_append]
  · rfl

theorem kept_all {grants : FormGrants} (granted : ∀ n, grants.member n = true) (n : ℕ)
    (fields : List FormMember) : kept grants n fields = fields := by
  induction fields generalizing n with
  | nil => rfl
  | cons m fields ih => rw [kept, if_pos (granted n), ih]

/-- A run over a form in full returns its fields in order. -/
theorem formLoop_body (grants : FormGrants) {s : FormState} {fields : List FormMember}
    (body : FormBody s.data fields) (ready : s.Ready) :
    ∃ t, formLoop grants s = .ok t ∧ t.root = s.root ++ kept grants s.rounds fields ∧
      t.hasItem = (s.hasItem || !fields.isEmpty) := by
  generalize hdata : s.data = data at body
  induction body generalizing s with
  | done ended =>
      subst hdata
      exact ⟨s, formLoop_exit (formRound_exit.mpr ended), (List.append_nil _).symm, by simp⟩
  | @field data rest m fields first more ih =>
      subst hdata
      obtain ⟨t, hrun, hroot, hitem⟩ := ih (ready.next grants first) rfl
      refine ⟨t, (formLoop_next (formRound_field ready first)).trans hrun, hroot.trans ?_, ?_⟩
      · exact addStringToObject_kept grants s.rounds s.root m fields
      · rw [hitem]
        simp [FormState.next]

/-- Only a form in full is read to its end. -/
theorem formLoop_inv {grants : FormGrants} {s t : FormState} (ready : s.Ready)
    (h : formLoop grants s = .ok t) : ∃ fields, FormBody s.data fields := by
  fun_induction formLoop grants s with
  | case1 s f hround => cases h
  | case2 s hround => exact ⟨[], .done (formRound_exit.mp hround)⟩
  | case3 s next hround ih =>
      obtain ⟨m, rest, first, rfl⟩ := formRound_inv ready hround
      obtain ⟨fields, more⟩ := ih (ready.next grants first) h
      exact ⟨m :: fields, .field first more⟩

theorem formStart_ready (data : CString) : (formStart data.1).Ready :=
  ⟨List.length_replicate, List.length_replicate, data.2⟩

theorem formParse_body {grants : FormGrants} (object : grants.object = true) {data : CString}
    {fields : List FormMember} (body : FormBody data.1 fields) :
    formParse grants data =
      .ok (if fields = [] then none else some (kept grants 0 fields)) := by
  obtain ⟨t, hrun, hroot, hitem⟩ := formLoop_body grants body (formStart_ready data)
  rw [formParse, if_pos object, hrun]
  simp only [Except.map, hitem, hroot, formStart, List.nil_append, Bool.false_or]
  cases fields with
  | nil => rfl
  | cons m fields => rfl

/-- The parser reads every form in full, and leaves its memory on every other one. -/
theorem formParse_safe_iff (grants : FormGrants) (data : CString) :
    (∀ f, formParse grants data ≠ .error f) ↔
      (grants.object = true → ∃ fields, FormBody data.1 fields) := by
  constructor
  · intro safe object
    cases hrun : formLoop grants (formStart data.1) with
    | error f =>
        refine absurd ?_ (safe f)
        rw [formParse, if_pos object, hrun]
        rfl
    | ok t => exact formLoop_inv (formStart_ready data) hrun
  · intro full f hfault
    by_cases object : grants.object = true
    · obtain ⟨fields, body⟩ := full object
      rw [formParse_body object body] at hfault
      cases hfault
    · rw [formParse, if_neg object] at hfault
      cases hfault

/-- A name without its closing quote. -/
theorem formParse_unclosed : ¬ ∀ grants data f, formParse grants data ≠ .error f := by
  intro safe
  refine safe ⟨true, fun _ => true⟩ (ofString "name=\"a") .nullPointer ?_
  have hround : formRound ⟨true, fun _ => true⟩ (formStart (ofString "name=\"a").1) =
      .error .nullPointer := by decide
  rw [formParse, if_pos rfl, formLoop_error hround]
  rfl

end Ddsu666
