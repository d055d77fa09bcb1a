/- Failed allocations while a message is handled: which of them end in a read or a write through a
   null pointer, and which do not. -/
import Ddsu666.CommandDispatch

namespace Ddsu666
open StringHeap

/-- The state in which a task returns or restarts the device. -/
def outcome {σ α : Type} : Except σ (α × σ) → σ
  | .error w => w
  | .ok (_, w) => w

section Growth

variable {F α β : Type}

/-- Whatever is executed, no use of a null pointer is taken back. -/
def Grows (x : Task (World F) α) : Prop := ∀ w, w.heap.nulls ≤ (outcome (x w)).heap.nulls

theorem Grows.bind {x : Task (World F) α} {f : α → Task (World F) β} (hx : Grows x)
    (hf : ∀ a, Grows (f a)) : Grows (x >>= f) := by
  intro w
  have hfirst := hx w
  rw [bind_run]
  cases hrun : x w with
  | error w' => rwa [hrun] at hfirst
  | ok result =>
      obtain ⟨a, w'⟩ := result
      rw [hrun] at hfirst
      exact hfirst.trans (hf a w')

/-- One more use stays one more. -/
theorem Grows.bind_lt {x : Task (World F) α} {f : α → Task (World F) β} {w : World F}
    (hx : w.heap.nulls < (outcome (x w)).heap.nulls) (hf : ∀ a, Grows (f a)) :
    w.heap.nulls < (outcome ((x >>= f) w)).heap.nulls := by
  rw [bind_run]
  cases hrun : x w with
  | error w' => rwa [hrun] at hx
  | ok result =>
      obtain ⟨a, w'⟩ := result
      rw [hrun] at hx
      exact lt_of_lt_of_le hx (hf a w')

theorem Grows.ite {c : Prop} [Decidable c] {x y : Task (World F) α} (hx : Grows x)
    (hy : Grows y) : Grows (if c then x else y) := by
  split
  · exact hx
  · exact hy

/-- Statements that leave the heap alone. -/
theorem Grows.of_heap {x : Task (World F) α} (h : ∀ w, (outcome (x w)).heap = w.heap) :
    Grows x := by
  intro w
  rw [h w]

theorem grows_pure (a : α) : Grows (pure a : Task (World F) α) := .of_heap fun _ => rfl

theorem grows_restart : Grows (espRestart : Task (World F) α) := .of_heap fun _ => rfl

theorem grows_getDevice : Grows (getDevice : Task (World F) _) := .of_heap fun _ => rfl

theorem grows_modifyDevice (f : Device F → Device F) : Grows (modifyDevice f) :=
  .of_heap fun _ => rfl

theorem grows_publish (topic : String) (response : Response) (retain : Bool) :
    Grows (espMqttClientPublish topic response retain : Task (World F) Unit) :=
  .of_heap fun _ => rfl

theorem grows_putResponse (t : CString) : Grows (putResponse t : Task (World F) Unit) := by
  refine .of_heap fun w => ?_
  obtain ⟨b, o, hput, -⟩ := putResponse_run t w
  rw [hput]
  rfl

theorem grows_calloc (P : Platform F) (n : ℕ) : Grows (calloc P n) :=
  fun w => (Heap.nulls_calloc w.heap P.grants n).ge

theorem grows_free (p : Ptr) : Grows (free p : Task (World F) Unit) :=
  fun w => (Heap.nulls_free w.heap p).ge

theorem grows_readText (p : Ptr) : Grows (readText p : Task (World F) CString) :=
  fun w => (Nat.le_add_right _ _).trans (Heap.nulls_read w.heap p).ge

theorem grows_store (p : Ptr) (i : ℕ) (b : UInt8) : Grows (store p i b : Task (World F) Unit) :=
  fun w => (Nat.le_add_right _ _).trans (Heap.nulls_write w.heap i [b] p).ge

theorem grows_snprintf (p : Ptr) (size : ℕ) (t : CString) :
    Grows (snprintf p size t : Task (World F) Unit) :=
  fun w => (Nat.le_add_right _ _).trans (Heap.nulls_write w.heap 0 _ p).ge

theorem grows_strcmpEq (p : Ptr) (literal : String) :
    Grows (strcmpEq p literal : Task (World F) Bool) :=
  (grows_readText p).bind fun _ => grows_pure _

theorem grows_onWord (p : Ptr) (word : String) {body : Response → Task (World F) Response}
    (hbody : ∀ r, Grows (body r)) (response : Response) : Grows (onWord p word body response) :=
  (grows_strcmpEq p word).bind fun _ => (hbody response).ite (grows_pure response)

theorem grows_createOtaTag : Grows (createOtaTag : Task (World F) Unit) := by
  refine .of_heap fun w => ?_
  rw [createOtaTag_run]
  split <;> rfl

theorem grows_debugReply : Grows (debugReply : Task (World F) Response) := by
  refine .of_heap fun w => ?_
  rw [debugReply_run]
  rfl

theorem grows_sysopSet (cTopic cData : Ptr) (response : Response) :
    Grows (sysopSet cTopic cData response : Task (World F) Response) := by
  have hliteral : ∀ (f : Device F → Device F) (text : String) (_ : Response),
      Grows (do modifyDevice f; return Response.literal text) :=
    fun f _ _ => (grows_modifyDevice f).bind fun _ => grows_pure _
  refine (grows_free cTopic).bind fun _ => ?_
  refine (grows_onWord _ _ (fun _ => (grows_modifyDevice _).bind fun _ => grows_restart) _).bind
    fun _ => ?_
  refine (grows_onWord _ _ (fun _ => grows_restart) _).bind fun _ => ?_
  refine (grows_onWord _ _ (fun _ => grows_createOtaTag.bind fun _ => grows_pure _) _).bind
    fun _ => ?_
  refine (grows_onWord _ _ (hliteral _ _) _).bind fun _ => ?_
  refine (grows_onWord _ _ (hliteral _ _) _).bind fun _ => ?_
  refine (grows_onWord _ _ (hliteral _ _) _).bind fun _ => ?_
  refine (grows_onWord _ _ (hliteral _ _) _).bind fun _ => ?_
  refine (grows_onWord _ _ (hliteral _ _) _).bind fun _ => ?_
  refine (grows_onWord _ _ (fun _ => grows_debugReply) _).bind fun _ => ?_
  exact (grows_free cData).bind fun _ => grows_pure _

variable (P : Platform F)

theorem grows_getLenStr (original : List UInt8) (len : ℕ) : Grows (getLenStr P original len) :=
  (grows_calloc P _).bind fun _ => (grows_snprintf _ _ _).bind fun _ =>
    (grows_store _ _ _).bind fun _ => grows_pure _

theorem grows_cJSONPrint (members : List (CString × CString)) : Grows (cJSONPrint P members) :=
  (grows_calloc P _).bind fun _ => (grows_pure _).ite <|
    (grows_snprintf _ _ _).bind fun _ => grows_pure _

theorem grows_getJson (members : Device F → List (CString × CString)) :
    Grows (getJson P members) :=
  (grows_calloc P _).bind fun _ => (grows_pure _).ite <| grows_getDevice.bind fun _ =>
    (grows_cJSONPrint P _).bind fun _ => (grows_free _).bind fun _ => grows_pure _

variable [FloatArith F]

theorem grows_answerWith (key : ℤ) : Grows (answerWith P key) :=
  ((grows_getJson P _).ite (grows_getJson P _)).bind fun _ =>
    ((grows_readText _).bind fun _ => grows_putResponse _).bind fun _ => grows_free _

/-- The second test of the payload. -/
theorem grows_infoPower (cData : Ptr) :
    Grows (do
      if ← strcmpEq cData "info-power" then
        answerWith P 0
      free cData) :=
  (grows_strcmpEq _ _).bind fun _ =>
    ((grows_answerWith P 0).bind fun _ => grows_free cData).ite (grows_free cData)

theorem grows_sysopGet (cTopic cData : Ptr) : Grows (sysopGet P cTopic cData) :=
  (grows_free cTopic).bind fun _ => (grows_strcmpEq _ _).bind fun _ =>
    ((grows_answerWith P (-1)).bind fun _ => grows_infoPower P cData).ite (grows_infoPower P cData)

omit [FloatArith F] in
/-- The second test of the topic and the publication. -/
theorem grows_reply (cTopic cData : Ptr) :
    Grows (do
      let response ← if ← strcmpEq cTopic "sysop-set" then sysopSet cTopic cData .responseS
        else pure .responseS
      espMqttClientPublish "esp32_response" response true : Task (World F) Unit) :=
  (grows_strcmpEq _ _).bind fun _ =>
    ((grows_sysopSet _ _ _).bind fun _ => grows_publish _ _ _).ite
      ((grows_pure _).bind fun _ => grows_publish _ _ _)

theorem grows_handleTexts (cTopic cData : Ptr) : Grows (handleTexts P cTopic cData) :=
  (grows_strcmpEq _ _).bind fun _ =>
    ((grows_sysopGet P _ _).bind fun _ => grows_reply _ _).ite (grows_reply _ _)

end Growth

section Refusals

variable {F : Type} {P : Platform F} {w : World F}

/-- Without memory for the chip id the text is another one, and nothing else happens. -/
theorem resetResponse_any (P : Platform F) (w : World F) :
    ∃ h b o, resetResponse P w = .ok ((), { w with heap := h, responseS := b, overrun := o }) ∧
      h.requests = w.heap.requests + 1 ∧ h.nulls = w.heap.nulls := by
  obtain ⟨p, h, hcalloc⟩ : ∃ p h, w.heap.calloc P.grants 7 = (p, h) := ⟨_, _, rfl⟩
  have hrequests : h.requests = w.heap.requests + 1 := by
    rw [← Heap.requests_calloc w.heap P.grants 7, hcalloc]
  have hnulls : h.nulls = w.heap.nulls := by
    rw [← Heap.nulls_calloc w.heap P.grants 7, hcalloc]
  cases p with
  | none =>
      obtain ⟨b, o, hput, -⟩ := putResponse_run
        ((ofString "esp32_" ++ ofString "(null)").truncate 51) { w with heap := h }
      refine ⟨h, b, o, ?_, hrequests, hnulls⟩
      simp only [resetResponse, getChipId, bind_run, ite_run, pure_run, calloc, hcalloc, if_true,
        printArg, hput, free]
      rfl
  | some p =>
      obtain ⟨h', hwrite⟩ : ∃ h',
          (h.write 0 ((chipIdText P).truncate 6).stored (some p)).write 7 [0] (some p) = h' :=
        ⟨_, rfl⟩
      obtain ⟨t, h'', hread⟩ : ∃ t h'', h'.read (some p) = (t, h'') := ⟨_, _, rfl⟩
      obtain ⟨b, o, hput, -⟩ := putResponse_run ((ofString "esp32_" ++ t).truncate 51)
        { w with heap := h'' }
      refine ⟨h''.free (some p), b, o, ?_, ?_, ?_⟩
      · simp only [resetResponse, getChipId, bind_run, ite_run, pure_run, calloc, hcalloc,
          reduceCtorEq, if_false, snprintf, store, hwrite, printArg, readText, hread, hput, free]
      · have hlater := Heap.requests_read h' (some p)
        rw [hread, ← hwrite] at hlater
        rw [Heap.requests_free, hlater, Heap.requests_write, Heap.requests_write, hrequests]
      · have hlater := Heap.nulls_read h' (some p)
        rw [hread, ← hwrite] at hlater
        rw [Heap.nulls_free, hlater, Heap.nulls_write, Heap.nulls_write, hnulls]
        simp

theorem getLenStr_refused (refused : P.grants w.heap.requests = false) (original : List UInt8)
    (len : ℕ) : w.heap.nulls < (outcome (getLenStr P original len w)).heap.nulls := by
  have hptr : (w.heap.calloc P.grants (len + 1)).1 = none := Heap.calloc_eq_none.mpr refused
  simp only [getLenStr, bind_run, pure_run, calloc, snprintf, store, hptr, outcome,
    Heap.nulls_write, Heap.nulls_calloc, if_true]
  omega

/-- Either of the two refusals leaves the out-parameter as it was. -/
theorem getJson_refused
    (refused : P.grants w.heap.requests = false ∨ P.grants (w.heap.requests + 1) = false)
    (members : Device F → List (CString × CString)) :
    ∃ h, getJson P members w = .ok (none, { w with heap := h }) ∧ h.nulls = w.heap.nulls := by
  by_cases hroot : P.grants w.heap.requests = false
  · have hptr : (w.heap.calloc P.grants 0).1 = none := Heap.calloc_eq_none.mpr hroot
    refine ⟨_, ?_, Heap.nulls_calloc w.heap P.grants 0⟩
    simp only [getJson, bind_run, ite_run, pure_run, calloc, hptr, if_true]
  · obtain ⟨p, hp⟩ : ∃ p, (w.heap.calloc P.grants 0).1 = some p :=
      Option.ne_none_iff_exists'.mp fun hptr => hroot (Heap.calloc_eq_none.mp hptr)
    obtain ⟨h, hh⟩ : ∃ h, (w.heap.calloc P.grants 0).2 = h := ⟨_, rfl⟩
    have hrequests : h.requests = w.heap.requests + 1 := hh ▸ Heap.requests_calloc ..
    have hnulls : h.nulls = w.heap.nulls := hh ▸ Heap.nulls_calloc ..
    have hptr : ∀ n, (h.calloc P.grants n).1 = none := by
      intro n
      rw [Heap.calloc_eq_none, hrequests]
      exact refused.resolve_left hroot
    let size := (P.cJSONPrint (members w.device)).1.length + 1
    refine ⟨(h.calloc P.grants size).2.free (some p), ?_, ?_⟩
    · simp only [getJson, bind_run, ite_run, pure_run, calloc, hp, hh, reduceCtorEq, if_false,
        getDevice, cJSONPrint, hptr, if_true, free]
      rfl
    · rw [Heap.nulls_free, Heap.nulls_calloc, hnulls]

variable [FloatArith F]

/-- The text of an object that could not be built is copied from a null pointer. -/
theorem answerWith_refused
    (refused : P.grants w.heap.requests = false ∨ P.grants (w.heap.requests + 1) = false)
    (key : ℤ) : w.heap.nulls < (outcome (answerWith P key w)).heap.nulls := by
  have hjson : ∃ h, indexHandler P key w = .ok (none, { w with heap := h }) ∧
      h.nulls = w.heap.nulls := by
    rw [indexHandler]
    split
    · exact getJson_refused refused _
    · exact getJson_refused refused _
  obtain ⟨h, hrun, hnulls⟩ := hjson
  have hread : h.nulls < (h.read none).2.nulls := by
    rw [Heap.nulls_read, if_pos rfl]
    exact Nat.lt_succ_self _
  obtain ⟨b, o, hput, -⟩ := putResponse_run (textOf []) { w with heap := (h.read none).2 }
  have hfirst : (h.read none).1 = textOf [] := rfl
  rw [hnulls] at hread
  simp only [answerWith, bind_run, hrun, strcpyResponse, readText, hfirst, hput, free, outcome,
    Heap.nulls_free]
  exact hread

theorem sysopGet_refused {base : Heap} {es : List (CString × Bool)} {fs : List Fault}
    {topic data : CString} (s : base.Since (es ++ [(topic, true), (data, true)]) fs w.heap)
    (asks : AsksInfo data)
    (refused : P.grants w.heap.requests = false ∨ P.grants (w.heap.requests + 1) = false) :
    w.heap.nulls < (outcome (sysopGet P (some (base.blocks.length + es.length))
      (some (base.blocks.length + es.length + 1)) w)).heap.nulls := by
  obtain ⟨h, hfree⟩ : ∃ h, w.heap.free (some (base.blocks.length + es.length)) = h := ⟨_, rfl⟩
  have htopic : base.Since (es ++ [(topic, false), (data, true)]) fs h := hfree ▸ s.free es
  have hnulls : h.nulls = w.heap.nulls := hfree ▸ Heap.nulls_free _ _
  have hrequests : h.requests = w.heap.requests := hfree ▸ Heap.requests_free _ _
  have htest : ∀ literal, strcmpEq (some (base.blocks.length + es.length + 1)) literal
      { w with heap := h } = .ok (decide (data = ofString literal), { w with heap := h }) :=
    strcmpEq_run (htopic.read_second es)
  have hdistinct : ofString "info-power" ≠ ofString "info-sys" := by decide
  rw [← hrequests] at refused
  rw [← hnulls]
  have hanswer := answerWith_refused (w := { w with heap := h }) refused
  rcases asks with rfl | rfl
  · have hrest := Grows.bind_lt (hanswer (-1)) fun _ : Unit => grows_infoPower P
      (some (base.blocks.length + es.length + 1))
    convert hrest using 3
    simp only [sysopGet, bind_run, ite_run, free, hfree, htest, decide_true, if_true]
  · have hrest := Grows.bind_lt (hanswer 0) fun _ : Unit =>
      grows_free (some (base.blocks.length + es.length + 1))
    convert hrest using 3
    simp only [sysopGet, bind_run, ite_run, free, hfree, htest, hdistinct, decide_true,
      decide_false, reduceCtorEq, if_true, if_false]

theorem handleTexts_refused {base : Heap} {es : List (CString × Bool)} {fs : List Fault}
    {data : CString}
    (s : base.Since (es ++ [(ofString "sysop-get", true), (data, true)]) fs w.heap)
    (asks : AsksInfo data)
    (refused : P.grants w.heap.requests = false ∨ P.grants (w.heap.requests + 1) = false) :
    w.heap.nulls < (outcome (handleTexts P (some (base.blocks.length + es.length))
      (some (base.blocks.length + es.length + 1)) w)).heap.nulls := by
  have hget := sysopGet_refused s asks refused
  have htest : ∀ literal, strcmpEq (some (base.blocks.length + es.length)) literal w =
      .ok (decide (ofString "sysop-get" = ofString literal), w) :=
    strcmpEq_run (s.read_live es)
  have hrest := Grows.bind_lt hget fun _ : Unit => grows_reply
    (some (base.blocks.length + es.length)) (some (base.blocks.length + es.length + 1))
  convert hrest using 3
  simp only [handleTexts, bind_run, ite_run, htest, decide_true, if_true]

end Refusals

section Messages

variable {F : Type} [FloatArith F]

/-- What is asked of the handling of a message: no null pointer is read or written through, and a
request for information is answered by one publication. -/
structure SurvivesAllocation (P : Platform F) (m : Message) (w : World F) : Prop where
  nulls : (outcome (mqttEventHandler P (.data m) w)).heap.nulls = w.heap.nulls
  answered : m.topicText = ofString "sysop-get" → AsksInfo m.dataText →
    ∃ w' text, mqttEventHandler P (.data m) w = .ok ((), w') ∧
      w'.published = w.published ++ [reply text]

/-- After `n` earlier requests for memory, which of the next ones must be granted: not the first,
which is for the chip id, but those for both texts, and under `sysop-get` those for the object that
is asked for and for its text. -/
structure AllocationsGranted (P : Platform F) (m : Message) (n : ℕ) : Prop where
  topic : P.grants (n + 1) = true
  data : P.grants (n + 2) = true
  json : m.topicText = ofString "sysop-get" → AsksInfo m.dataText →
    P.grants (n + 3) = true ∧ P.grants (n + 4) = true

variable {P : Platform F} {m : Message} {w : World F}

theorem mqttEventData_refused (refused : ¬ (P.grants w.heap.requests = true ∧
    P.grants (w.heap.requests + 1) = true ∧
    (m.topicText = ofString "sysop-get" → AsksInfo m.dataText →
      P.grants (w.heap.requests + 2) = true ∧ P.grants (w.heap.requests + 3) = true))) :
    w.heap.nulls < (outcome (mqttEventData P m w)).heap.nulls := by
  have hlater : ∀ cTopic, Grows (do
      let cData ← getLenStr P m.data m.dataLen
      handleTexts P cTopic cData) :=
    fun cTopic => (grows_getLenStr P _ _).bind fun cData => grows_handleTexts P cTopic cData
  by_cases htopic : P.grants w.heap.requests = true
  · by_cases hdata : P.grants (w.heap.requests + 1) = true
    · obtain ⟨h, htexts, hrequests, hnulls, hrun⟩ :=
        obtainTexts_run (Heap.Since.refl w.heap) m htopic hdata
      have hjson : ¬ (m.topicText = ofString "sysop-get" → AsksInfo m.dataText →
          P.grants (w.heap.requests + 2) = true ∧ P.grants (w.heap.requests + 3) = true) :=
        fun json => refused ⟨htopic, hdata, json⟩
      simp only [not_forall, not_and_or, Bool.not_eq_true] at hjson
      obtain ⟨get, asks, hrefused⟩ := hjson
      have hentry : w.heap.requests + 3 = h.requests + 1 := by rw [hrequests]
      rw [hentry, ← hrequests] at hrefused
      rw [get] at htexts
      rw [hrun, ← hnulls]
      exact handleTexts_refused (P := P) (w := { w with heap := h }) htexts asks hrefused
    · obtain ⟨h, hrun, -, hrequests, hnulls⟩ :=
        getLenStr_run (Heap.Since.refl w.heap) htopic m.topic m.topicLen
      have hrefused : P.grants h.requests = false := by
        rw [hrequests]
        exact Bool.eq_false_of_not_eq_true hdata
      have hlt := getLenStr_refused (w := { w with heap := h }) hrefused m.data m.dataLen
      rw [mqttEventData, bind_run, hrun, ← hnulls]
      exact Grows.bind_lt hlt fun cData => grows_handleTexts P _ cData
  · have hrefused := Bool.eq_false_of_not_eq_true htopic
    exact Grows.bind_lt (getLenStr_refused hrefused m.topic m.topicLen) hlater

theorem message_refused (refused : ¬ AllocationsGranted P m w.heap.requests) :
    w.heap.nulls < (outcome (mqttEventHandler P (.data m) w)).heap.nulls := by
  obtain ⟨h, b, o, hreset, hrequests, hnulls⟩ := resetResponse_any P w
  have hreach : mqttEventHandler P (.data m) w =
      mqttEventData P m { w with heap := h, responseS := b, overrun := o } := by
    simp only [mqttEventHandler, bind_run, hreset]
  rw [hreach, ← hnulls]
  refine mqttEventData_refused (w := { w with heap := h, responseS := b, overrun := o }) ?_
  rintro ⟨htopic, hdata, hjson⟩
  simp only [hrequests, Nat.add_assoc, Nat.reduceAdd] at htopic hdata hjson
  exact refused ⟨htopic, hdata, hjson⟩

theorem message_granted (granted : AllocationsGranted P m w.heap.requests) :
    SurvivesAllocation P m w := by
  obtain ⟨h, b, o, hreset, hrequests, hnulls⟩ := resetResponse_any P w
  have hreach : mqttEventHandler P (.data m) w =
      mqttEventData P m { w with heap := h, responseS := b, overrun := o } := by
    simp only [mqttEventHandler, bind_run, hreset]
  obtain ⟨h', htexts, hrequests', hnulls', hrun⟩ := obtainTexts_run (P := P)
    (w := { w with heap := h, responseS := b, overrun := o }) (Heap.Since.refl h) m
    (by rw [hrequests]; exact granted.topic) (by rw [hrequests]; exact granted.data)
  have hrun' := hreach.trans hrun
  by_cases get : m.topicText = ofString "sysop-get"
  · have hjson := granted.json get
    have hentry : h'.requests = w.heap.requests + 3 := by rw [hrequests', hrequests]
    have hentry' : h'.requests + 1 = w.heap.requests + 4 := by rw [hentry]
    rw [← hentry, ← hentry'] at hjson
    rw [get] at htexts
    obtain ⟨h'', b', o', more, hget, -, -, hnulls''⟩ := handleTexts_get
      (w := { w with heap := h', responseS := b, overrun := o }) htexts hjson
    have hall := hrun'.trans hget
    refine ⟨?_, fun _ _ => ⟨_, _, hall, rfl⟩⟩
    rw [hall]
    exact hnulls''.trans (hnulls'.trans hnulls)
  · refine ⟨?_, fun same => absurd same get⟩
    by_cases set : m.topicText = ofString "sysop-set"
    · rw [set] at htexts
      obtain ⟨h₁, h₂, -, hnulls₁, hnulls₂, hset⟩ := handleTexts_set (P := P)
        (w := { w with heap := h', responseS := b, overrun := o }) htexts
      rw [hrun', hset]
      cases commandEffect m.dataText w.device with
      | error d => exact hnulls₁.trans (hnulls'.trans hnulls)
      | ok result => exact hnulls₂.trans (hnulls'.trans hnulls)
    · rw [hrun', handleTexts_other (P := P)
        (w := { w with heap := h', responseS := b, overrun := o }) htexts get set]
      exact hnulls'.trans hnulls

/-- A message is handled without a use of a null pointer exactly when memory for both texts and for
the object it asks for is granted; the chip id may be refused. -/
theorem survives_allocation_iff (P : Platform F) (m : Message) (w : World F) :
    SurvivesAllocation P m w ↔ AllocationsGranted P m w.heap.requests := by
  constructor
  · intro survives
    by_contra refused
    exact absurd survives.nulls (message_refused refused).ne'
  · exact message_granted

/-- A request for the readings when there is no memory for the object. -/
theorem refused_object_crashes :
    ¬ ∀ (P : Platform Float32) (m : Message) (w : World Float32), SurvivesAllocation P m w := by
  intro claim
  let P := { sampleBoard with grants := fun n => n != 3 }
  let m := Message.ofStrings "sysop-get" "info-power"
  have refused : ¬ AllocationsGranted P m 0 := by
    intro granted
    have hobject := (granted.json (topicText_ofStrings ..) (.inr (dataText_ofStrings ..))).1
    cases hobject
  have hlt := message_refused (w := bootWorld sampleDevice []) refused
  exact absurd (claim P m (bootWorld sampleDevice [])).nulls hlt.ne'

end Messages

end Ddsu666
