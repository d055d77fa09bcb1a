/- Forms as a browser sends them, and `form_parse` as the inverse of this encoding. -/
import Ddsu666.FormParser

namespace Ddsu666

open SubstringSearch StringHeap

/-- A field that fits the encoding and both buffers. -/
structure EncodableField where
  name : CString
  value : CString
  nameFits : name.1.length ≤ 127
  unquoted : 34 ∉ name.1
  valueFits : value.1.length ≤ 127
  oneLine : ¬ crlf <:+: value.1

def EncodableField.member (f : EncodableField) : FormMember := (f.name.1, f.value.1)

def encodeField (boundary : CString) (f : EncodableField) : CString :=
  ofString "--" ++ boundary ++ ofString "\r\nContent-Disposition: form-data; name=\"" ++ f.name ++
    ofString "\"\r\n\r\n" ++ f.value ++ ofString "\r\n"

def encodeForm (boundary : CString) : List EncodableField → CString
  | [] => ofString "--" ++ boundary ++ ofString "--\r\n"
  | f :: fields => encodeField boundary f ++ encodeForm boundary fields

def disposition : FormText := (ofString "\nContent-Disposition: form-data;").1

theorem dashes_bytes : (ofString "--").1 = [45, 45] := by decide

theorem closing_bytes : (ofString "--\r\n").1 = [45, 45, 13, 10] := by decide

theorem header_bytes : (ofString "\r\nContent-Disposition: form-data; name=\"").1 =
    13 :: (disposition ++ 32 :: key) := by decide

theorem gap_bytes : (ofString "\"\r\n\r\n").1 = 34 :: [13, 10, 13, 10] := by decide

theorem crlf_bytes : (ofString "\r\n").1 = crlf := by decide

theorem disposition_free : ¬ key <:+: disposition := by decide

/-- What lies in front of a form is passed over if the key does not begin in it. -/
theorem FormBody.behind (front : FormText) {data : FormText} {fields : List FormMember} {c : UInt8}
    (absent : c ∉ key) (free : ¬ key <:+: front) (body : FormBody data fields) :
    FormBody (front ++ c :: data) fields := by
  cases body with
  | done ended => exact .done fun occurs => (infix_separated absent occurs).elim free ended
  | field first more =>
      cases first with
      | @mk before name gap value rest first unquoted nameFits skipped oneLine valueFits =>
          have hfirst : FirstAfter key (front ++ c :: before) := first.separated absent free
          have hfield := @FormField.mk _ _ _ _ rest hfirst unquoted nameFits skipped oneLine
            valueFits
          rw [List.append_assoc, List.cons_append] at hfield
          exact .field hfield more

/-- The boundary line hides nothing and adds nothing. -/
theorem FormBody.dashed {boundary : CString} (free : ¬ key <:+: boundary.1) {c : UInt8}
    (absent : c ∉ key) {data : FormText} {fields : List FormMember} (body : FormBody data fields) :
    FormBody ((ofString "--" ++ boundary).1 ++ c :: data) fields := by
  rw [append_bytes, dashes_bytes, List.append_assoc]
  exact .behind [45] (by decide) (by decide) (.behind boundary.1 absent free body)

theorem encodeField_bytes (boundary : CString) (f : EncodableField) (rest : CString) :
    (encodeField boundary f ++ rest).1 =
      (ofString "--" ++ boundary).1 ++ 13 :: (disposition ++ 32 ::
        ([] ++ (key ++ (f.name.1 ++ 34 :: ([13, 10, 13, 10] ++
          (f.value.1 ++ (crlf ++ rest.1))))))) := by
  unfold encodeField
  simp only [append_bytes, header_bytes, gap_bytes, crlf_bytes, List.append_assoc,
    List.cons_append, List.nil_append]

theorem encodeForm_body {boundary : CString} (free : ¬ key <:+: boundary.1)
    (fields : List EncodableField) :
    FormBody (encodeForm boundary fields).1 (fields.map EncodableField.member) := by
  induction fields with
  | nil =>
      have hend : FormBody [45, 13, 10] [] := .done (by decide)
      have hbody := hend.dashed free (c := 45) (by decide)
      rw [encodeForm, append_bytes, closing_bytes]
      exact hbody
  | cons f fields ih =>
      have hrest : FormBody (crlf ++ (encodeForm boundary fields).1)
          (fields.map EncodableField.member) :=
        .behind [13] (by decide) (by decide) ih
      have honeLine : FirstAfter crlf f.value.1 :=
        -- a carriage return at the end of the value does not begin its line end
        fun occurs => f.oneLine (infix_concat (c := 13) (by decide) occurs)
      have hfield : FormBody ([] ++ (key ++ (f.name.1 ++ 34 :: ([13, 10, 13, 10] ++
          (f.value.1 ++ (crlf ++ (encodeForm boundary fields).1)))))) (f.member :: _) :=
        .field (.mk (.nil (by decide)) f.unquoted f.nameFits rfl honeLine f.valueFits) hrest
      rw [encodeForm, encodeField_bytes]
      exact .dashed free (by decide) (.behind disposition (by decide) disposition_free hfield)

/-- Parsing undoes the encoding, whatever the values look like. -/
theorem formParse_encodeForm {grants : FormGrants} (object : grants.object = true)
    (granted : ∀ n, grants.member n = true) {boundary : CString} (free : ¬ key <:+: boundary.1)
    (fields : List EncodableField) :
    formParse grants (encodeForm boundary fields) =
      .ok (if fields = [] then none else some (fields.map EncodableField.member)) := by
  rw [formParse_body object (encodeForm_body free fields), kept_all granted]
  simp only [List.map_eq_nil_iff]

/-- The second value has a key inside and ends in a carriage return; both its texts are shorter than
those in front of it. -/
theorem formParse_encodeForm_lookalikes :
    formParse ⟨true, fun _ => true⟩ (encodeForm (ofString "7d9f--")
      [⟨ofString "firmware", ofString "mqtt_ddsu666.bin-\n-v1.2.0", by decide, by decide, by decide,
          by decide⟩,
        ⟨ofString "ssid", ofString "name=\"pwd\"\r", by decide, by decide, by decide, by decide⟩]) =
      .ok (some [((ofString "firmware").1, (ofString "mqtt_ddsu666.bin-\n-v1.2.0").1),
        ((ofString "ssid").1, (ofString "name=\"pwd\"\r").1)]) :=
  formParse_encodeForm rfl (fun _ => rfl) (by decide) _

/-! Reading and encoding again. -/

theorem FormField.encodable {data rest : FormText} {m : FormMember} (first : FormField data m rest)
    (ends : 0 ∉ data) : (∃ f : EncodableField, f.member = m) ∧ 0 ∉ rest := by
  cases first with
  | @mk before name gap value rest first unquoted nameFits skipped oneLine valueFits =>
      simp only [List.mem_append, List.mem_cons, not_or] at ends
      obtain ⟨-, -, nameEnds, -, -, valueEnds, lineEnds, restEnds⟩ := ends
      have hline : ¬ crlf <:+: value := fun occurs =>
        oneLine (occurs.trans (List.prefix_append _ _).isInfix)
      exact ⟨⟨⟨⟨name, nameEnds⟩, ⟨value, valueEnds⟩, nameFits, unquoted, valueFits, hline⟩, rfl⟩,
        fun member => (List.mem_append.mp member).elim lineEnds restEnds⟩

/-- A form that can be read holds nothing that could not have been encoded. -/
theorem FormBody.encodable {data : FormText} {fields : List FormMember}
    (body : FormBody data fields) (ends : 0 ∉ data) :
    ∃ encoded : List EncodableField, encoded.map EncodableField.member = fields := by
  induction body with
  | done ended => exact ⟨[], rfl⟩
  | field first more ih =>
      obtain ⟨⟨f, rfl⟩, hrest⟩ := first.encodable ends
      obtain ⟨encoded, rfl⟩ := ih hrest
      exact ⟨f :: encoded, rfl⟩

/-- No form can be read in two ways. -/
theorem FormBody.unique {data : CString} {fields others : List FormMember}
    (body : FormBody data.1 fields) (other : FormBody data.1 others) : fields = others := by
  have hall := @formParse_body ⟨true, fun _ => true⟩ rfl _ _ body
  rw [formParse_body rfl other, kept_all (fun _ => rfl), kept_all (fun _ => rfl)] at hall
  have hsame := Except.ok.inj hall
  by_cases hothers : others = []
  · by_cases hfields : fields = []
    · rw [hothers, hfields]
    · rw [if_pos hothers, if_neg hfields] at hsame
      cases hsame
  · by_cases hfields : fields = []
    · rw [if_neg hothers, if_pos hfields] at hsame
      cases hsame
    · rw [if_neg hothers, if_neg hfields] at hsame
      exact (Option.some.inj hsame).symm

theorem formParse_read {grants : FormGrants} (object : grants.object = true) {data : CString}
    {result : Option (List FormMember)} (h : formParse grants data = .ok result) :
    ∃ fields, FormBody data.1 fields := by
  rw [formParse, if_pos object] at h
  cases hrun : formLoop grants (formStart data.1) with
  | error f =>
      rw [hrun] at h
      cases h
  | ok t => exact formLoop_inv (formStart_ready data) hrun

/-- Whatever is read, from whomever it comes, has one reading, and the encoding of its fields is
read with the same result. Only members that cJSON had no memory for are missing from it. -/
theorem forms_reencoded {grants : FormGrants} (object : grants.object = true) {data : CString}
    {result : Option (List FormMember)} :
    formParse grants data = .ok result ↔
      ∃ fields : List EncodableField,
        (∀ others, FormBody data.1 others ↔ others = fields.map EncodableField.member) ∧
        result = (if fields = [] then none
          else some (kept grants 0 (fields.map EncodableField.member))) ∧
        ∀ boundary : CString, ¬ key <:+: boundary.1 →
          formParse grants (encodeForm boundary fields) = .ok result := by
  constructor
  · intro h
    obtain ⟨members, body⟩ := formParse_read object h
    obtain ⟨fields, rfl⟩ := body.encodable data.2
    have hresult := formParse_body object body
    simp only [List.map_eq_nil_iff] at hresult
    rw [h] at hresult
    refine ⟨fields, ?_, Except.ok.inj hresult, ?_⟩
    · intro others
      constructor
      · intro other
        exact other.unique body
      · rintro rfl
        exact body
    · intro boundary free
      rw [formParse_body object (encodeForm_body free fields), hresult]
      simp only [List.map_eq_nil_iff]
  · rintro ⟨fields, reading, rfl, -⟩
    rw [formParse_body object ((reading _).mpr rfl)]
    simp only [List.map_eq_nil_iff]

/-- A file's field is read as one whose value begins within `filename`. -/
theorem forms_reencoded_file :
    ∃ fields : List EncodableField,
      fields.map EncodableField.member = [((ofString "f").1, (ofString "lename=\"x\"").1)] ∧
        formParse ⟨true, fun _ => true⟩ (encodeForm (ofString "7d9f") fields) =
          .ok (some [((ofString "f").1, (ofString "lename=\"x\"").1)]) := by
  have hbody : FormBody (ofString "name=\"f\"; filename=\"x\"\r\n").1
      [((ofString "f").1, (ofString "lename=\"x\"").1)] := by
    have hend : FormBody (crlf ++ []) [] := .done (by decide)
    have hline : FirstAfter crlf (ofString "lename=\"x\"").1 := by
      unfold FirstAfter
      decide
    exact .field (@FormField.mk [] (ofString "f").1 (ofString "; fi").1 _ [] (.nil (by decide))
      (by decide) (by decide) (by decide) hline (by decide)) hend
  obtain ⟨fields, reading, -, hagain⟩ :=
    (@forms_reencoded ⟨true, fun _ => true⟩ rfl _ _).mp (formParse_body rfl hbody)
  exact ⟨fields, ((reading _).mp hbody).symm, hagain (ofString "7d9f") (by decide)⟩

end Ddsu666
