/- The responses as JSON: what was published is read back as the members that the device had. -/
import Ddsu666.JsonText
import Ddsu666.ResponseSize

namespace Ddsu666
open StringHeap

theorem joined_bytes (separator : CString) (ts : List CString) :
    (joined separator ts).1 = List.intercalate separator.1 (ts.map Subtype.val) := by
  induction ts with
  | nil =>
      rw [joined, List.map_nil, List.intercalate_nil]
      decide
  | cons t ts ih =>
      cases ts with
      | nil => rw [joined, List.map_singleton, List.intercalate_singleton]
      | cons u ts =>
          rw [List.map_cons, List.map_cons, List.intercalate_cons_cons, ← List.map_cons, ← ih]
          rfl

/-- What cJSON writes for a byte stands for this byte. -/
theorem character_escapeByte {b : UInt8} (h : b ≠ 0) :
    JsonText.character? (escapeByte b).1 = some ([b], []) := by
  have hcontrol : ∀ n < 32, n ≠ 0 → JsonText.character? (escapeByte (UInt8.ofNat n)).1 =
      some ([UInt8.ofNat n], []) := by decide
  by_cases low : b < 32
  · have hb := hcontrol b.toNat low fun zero => h (UInt8.toNat_inj.mp zero)
    rwa [UInt8.ofNat_toNat] at hb
  by_cases mark : b = 34
  · rw [mark]
    decide
  by_cases slash : b = 92
  · rw [slash]
    decide
  have hbytes : (textOf [b]).1 = [b] := by simp [textOf, h]
  rw [escapeByte_plain ⟨UInt8.not_lt.mp low, mark, slash⟩, hbytes, JsonText.character?,
    if_neg slash, if_neg (by simp [low, mark])]

theorem joined_cons (t : CString) (ts : List CString) :
    (joined (ofString "") (t :: ts)).1 = t.1 ++ (joined (ofString "") ts).1 := by
  have hempty : (ofString "").1 = [] := by decide
  cases ts with
  | nil => rw [joined, joined, hempty, List.append_nil]
  | cons u ts =>
      change (t.1 ++ (ofString "").1) ++ (joined (ofString "") (u :: ts)).1 = _
      rw [hempty, List.append_nil]

theorem spells_escaped (t : CString) :
    JsonText.Spells (joined (ofString "") (t.1.map escapeByte)).1 t.1 := by
  obtain ⟨bytes, nonzero⟩ := t
  induction bytes with
  | nil => exact .nil
  | cons b bytes ih =>
      obtain ⟨hb, hbytes⟩ := List.ne_and_not_mem_of_not_mem_cons nonzero
      rw [List.map_cons, joined_cons]
      exact .cons (character_escapeByte hb.symm) (ih hbytes)

theorem quoted_bytes (t : CString) :
    (quoted t).1 = JsonText.quoted (joined (ofString "") (t.1.map escapeByte)).1 := by
  have hquote : (ofString "\"").1 = [34] := by decide
  rw [quoted, append_bytes, append_bytes, hquote]
  rfl

/-- The bytes of a member. -/
def memberBytes (member : CString × CString) : JsonText.Text × JsonText.Text :=
  (member.1.1, member.2.1)

theorem reads_line (member : CString × CString) :
    JsonText.Reads JsonText.member?
      (ofString "\t" ++ quoted member.1 ++ ofString ":\t" ++ quoted member.2).1
      (memberBytes member) := by
  have htab : (ofString "\t").1 = [9] := by decide
  have hcolon : (ofString ":\t").1 = [58, 9] := by decide
  have hblank : ∀ b ∈ ([9] : JsonText.Text), JsonText.Blank b := by simp [JsonText.Blank]
  simp only [append_bytes, htab, hcolon, quoted_bytes, List.append_assoc]
  exact JsonText.reads_member hblank hblank (spells_escaped member.1) (spells_escaped member.2)

/-- A reader of JSON finds the members that were printed, in their order. -/
theorem object_printObject (members : List (CString × CString)) :
    JsonText.object? (printObject members).1 = some (members.map memberBytes) := by
  have hopen : (ofString "\x7b\n").1 = [123, 10] := by decide
  have hclose : (ofString "\n\x7d").1 = [10, 125] := by decide
  have hcomma : (ofString ",\n").1 = [44, 10] := by decide
  have hblank : ∀ b ∈ ([10] : JsonText.Text), JsonText.Blank b := by simp [JsonText.Blank]
  have hlines : List.Forall₂ (JsonText.Reads JsonText.member?) ((members.map fun member =>
      ofString "\t" ++ quoted member.1 ++ ofString ":\t" ++ quoted member.2).map Subtype.val)
      (members.map memberBytes) := by
    rw [List.map_map, List.forall₂_map_left_iff, List.forall₂_map_right_iff]
    exact List.forall₂_same.mpr fun member _ => reads_line member
  rw [printObject, append_bytes, append_bytes, hopen, hclose, joined_bytes, hcomma,
    List.append_assoc]
  exact JsonText.object_lines hblank hblank hblank hlines

section Responses

variable {F : Type} [FloatArith F] {P : Platform F}

/-- The members that a message asks for. -/
def askedMembers (P : Platform F) (topic data : CString) (d : Device F) :
    Option (List (CString × CString)) :=
  if topic = ofString "sysop-get" then
    if data = ofString "info-sys" then some (infoMembers P d)
    else if data = ofString "info-power" then some (powerMembers P d)
    else none
  else none

/-- The response to this message in this state, as a reader of JSON sees it. -/
structure Answers (P : Platform F) (m : Message) (s : HandlerState F) (p : Publication) : Prop where
  topic : p.topic = ofString "esp32_response"
  retain : p.retain = true
  members : JsonText.object? p.payload.1 =
    (askedMembers P m.topicText m.dataText s.world.device).map (List.map memberBytes)

omit [FloatArith F] in
theorem object_onlineText (P : Platform F) : JsonText.object? (onlineText P).1 = none := by
  have hname : (ofString "esp32_").1 = [101, 115, 112, 51, 50, 95] := by decide
  rw [onlineText_eq, append_bytes, hname]
  rfl

omit [FloatArith F] in
theorem object_response {d d' : Device F} {c : Command} {response : Response}
    (h : c.effect d = .ok (d', response)) : JsonText.object? (response.text P).1 = none := by
  cases c with
  | resetWifi | restartOs => cases h
  | otaUpdate =>
      simp only [Command.effect] at h
      split at h
      · obtain ⟨-, rfl⟩ := Prod.mk.inj (Except.ok.inj h)
        exact (by decide : JsonText.object? (ofString "ota update").1 = none)
      · cases h
  | removeUartRecTask =>
      obtain ⟨-, rfl⟩ := Prod.mk.inj (Except.ok.inj h)
      exact (by decide : JsonText.object? (ofString "remove_uart_rec_task").1 = none)
  | changeRecWait1 =>
      obtain ⟨-, rfl⟩ := Prod.mk.inj (Except.ok.inj h)
      exact (by decide : JsonText.object? (ofString "change_rec_wait1").1 = none)
  | changeRecWait5 =>
      obtain ⟨-, rfl⟩ := Prod.mk.inj (Except.ok.inj h)
      exact (by decide : JsonText.object? (ofString "change_rec_wait5").1 = none)
  | changeRecWait60 =>
      obtain ⟨-, rfl⟩ := Prod.mk.inj (Except.ok.inj h)
      exact (by decide : JsonText.object? (ofString "change_rec_wait60").1 = none)
  | clearTotalEngery =>
      obtain ⟨-, rfl⟩ := Prod.mk.inj (Except.ok.inj h)
      exact (by decide : JsonText.object?
        (ofString "clear_total_engery, you should manual reboot").1 = none)
  | debugMode =>
      obtain ⟨-, rfl⟩ := Prod.mk.inj (Except.ok.inj h)
      cases d.debug with
      | true => exact (by decide : JsonText.object? (ofString "debug_mode off").1 = none)
      | false => exact (by decide : JsonText.object? (ofString "debug_mode on").1 = none)

theorem object_dispatch (board : Standard P) {topic data text : CString} {d d' : Device F}
    (h : dispatch P topic data d = .ok (d', text)) :
    JsonText.object? text.1 = (askedMembers P topic data d).map (List.map memberBytes) := by
  by_cases get : topic = ofString "sysop-get"
  · rw [get, dispatch_get] at h
    obtain ⟨rfl, rfl⟩ := Prod.mk.inj (Except.ok.inj h)
    rw [askedMembers, if_pos get, requested]
    split
    · rw [jsonText, board.cJSONPrint, object_printObject]
      rfl
    split
    · rw [jsonText, board.cJSONPrint, object_printObject]
      rfl
    · exact object_onlineText P
  · rw [askedMembers, if_neg get]
    rw [dispatch] at h
    cases hcommand : commandOf topic data with
    | none =>
        rw [hcommand, answer, if_neg get] at h
        obtain ⟨-, rfl⟩ := Prod.mk.inj (Except.ok.inj h)
        exact object_onlineText P
    | some c =>
        rw [hcommand] at h
        cases heffect : c.effect d with
        | error d => simp only [heffect, reduceCtorEq] at h
        | ok result =>
            simp only [heffect] at h
            obtain ⟨-, rfl⟩ := Prod.mk.inj (Except.ok.inj h)
            exact object_response heffect

/-- What an event adds to the publications. -/
theorem event_published (board : Standard P) (granted : ∀ n, P.grants n = true)
    {s t : HandlerState F} {e : MqttEvent} (inv : SizeInv s)
    (h : clientStep P s (.event e) = some t) : ∀ p ∈ t.world.published,
      p ∈ s.world.published ∨ p = announcement P ∨ ∃ m, e = .data m ∧ Answers P m s p := by
  intro p hp
  by_cases message : ∃ m, e = .data m
  · obtain ⟨m, rfl⟩ := message
    have hhandles := handles_dispatch granted
      (board.requestFits inv.ssid m.topicText m.dataText)
    simp only [clientStep, clientStep_up h, if_true] at h
    cases hdispatch : dispatch P m.topicText m.dataText s.world.device with
    | error d =>
        rw [hdispatch] at hhandles
        obtain ⟨w, hrun, -, hpublished⟩ := hhandles
        rw [hrun] at h
        obtain rfl := Option.some.inj h
        exact .inl (hpublished ▸ hp)
    | ok result =>
        obtain ⟨d, text⟩ := result
        rw [hdispatch] at hhandles
        obtain ⟨w, hrun, -, hpublished⟩ := hhandles
        rw [hrun] at h
        obtain rfl := Option.some.inj h
        rw [hpublished] at hp
        rcases List.mem_append.mp hp with old | new
        · exact .inl old
        · obtain rfl := List.mem_singleton.mp new
          exact .inr (.inr ⟨m, rfl, rfl, rfl, object_dispatch board hdispatch⟩)
  · rw [(quiet_effect granted (not_exists.mp message) h).published] at hp
    rcases List.mem_append.mp hp with old | new
    · exact .inl old
    · split at new
      · exact .inr (.inl (List.mem_singleton.mp new))
      · cases new

/-- In every run each publication announces a connection or answers a message of the run: it is an
object exactly if the message asked for one, and is then read back as the members that the device
had when the message came. -/
theorem responses_decode (board : Standard P) (granted : ∀ n, P.grants n = true) {d : Device F}
    {published : List Publication} {tr : List (ClientLabel F)} {s : HandlerState F}
    (first : d.ShortSsid) (later : ∀ a ∈ tr, a.ShortSsid) (h : ClientRun P d published tr s) :
    ∀ p ∈ s.world.published, p ∈ published ∨ p = announcement P ∨
      ∃ pre m post u, tr = pre ++ .event (.data m) :: post ∧ ClientRun P d published pre u ∧
        Answers P m u p := by
  refine Runs.history_invariant (P := fun as u => (∀ a ∈ as, a.ShortSsid) →
    ∀ p ∈ u.world.published, p ∈ published ∨ p = announcement P ∨
      ∃ pre m post v, as = pre ++ .event (.data m) :: post ∧ ClientRun P d published pre v ∧
        Answers P m v p) ?_ ?_ tr s h later
  · exact fun _ p hp => .inl hp
  · intro as t a u hrun ih hstep short p hp
    have hbefore : ∀ b ∈ as, b.ShortSsid := fun b hb => short b (List.mem_append_left _ hb)
    -- what was published earlier keeps its place in the longer run
    have hearlier : p ∈ t.world.published → p ∈ published ∨ p = announcement P ∨
        ∃ pre m post v, as ++ [a] = pre ++ .event (.data m) :: post ∧
          ClientRun P d published pre v ∧ Answers P m v p := by
      intro old
      refine (ih hbefore p old).imp_right (Or.imp_right ?_)
      rintro ⟨pre, m, post, v, rfl, hpre, answers⟩
      exact ⟨pre, m, post ++ [a], v, by simp, hpre, answers⟩
    cases a with
    | event e =>
        have inv := size_inv board granted first hbefore hrun
        rcases event_published board granted inv hstep p hp with old | announced | ⟨m, rfl, answers⟩
        · exact hearlier old
        · exact .inr (.inl announced)
        · exact .inr (.inr ⟨as, m, [], t, rfl, hrun, answers⟩)
    | others d' =>
        obtain ⟨-, rfl⟩ := Runs.enabled hstep
        exact hearlier hp
    | boot d' =>
        obtain rfl := Option.some.inj hstep
        exact hearlier hp

end Responses

/-- The name of the network as cJSON spells it, with a quotation mark and a control character. -/
example : JsonText.object? (printObject [(ofString "wifi_ssid", textOf [34, 7, 92, 195, 169])]).1 =
    some [((ofString "wifi_ssid").1, [34, 7, 92, 195, 169])] := by decide

def powerRequest : Message := .ofStrings "sysop-get" "info-power"

/-- A request for the readings, and the only publication that follows. -/
theorem powerRequest_decodes :
    ∃ s p, ClientRun sampleBoard sampleDevice [] [.event (.data powerRequest)] s ∧
      s.world.published = [p] ∧ JsonText.object? p.payload.1 =
        some ((powerMembers sampleBoard sampleDevice).map memberBytes) := by
  have hdispatch := dispatch_get sampleBoard (ofString "info-power") sampleDevice
  rw [← topicText_ofStrings "sysop-get" "info-power",
    ← dataText_ofStrings "sysop-get" "info-power"] at hdispatch
  obtain ⟨w, text, hmessage, -, hpublished, -⟩ :=
    message_returns (fun _ => rfl) (w := bootWorld sampleDevice []) hdispatch
  have hstep : clientStep sampleBoard ⟨bootWorld sampleDevice [], true⟩
      (.event (.data powerRequest)) = some ⟨w, true⟩ := clientStep_ok rfl hmessage
  have hrun : ClientRun sampleBoard sampleDevice [] [.event (.data powerRequest)] ⟨w, true⟩ :=
    Runs.run_cons_some.mpr ⟨_, hstep, rfl⟩
  have hnetwork : sampleDevice.ShortSsid :=
    (by decide : sampleDevice.board.apSsid.1.length ≤ 32)
  have hsilent : ∀ a ∈ [ClientLabel.event (F := Float32) (.data powerRequest)], a.ShortSsid := by
    intro a ha
    obtain rfl := List.mem_singleton.mp ha
    trivial
  have hmember : reply text ∈ w.published := by
    rw [hpublished]
    exact List.mem_append_right _ (List.mem_singleton_self _)
  have hasked : askedMembers sampleBoard powerRequest.topicText powerRequest.dataText
      sampleDevice = some (powerMembers sampleBoard sampleDevice) := by
    have hdistinct : ofString "info-power" ≠ ofString "info-sys" := by decide
    rw [powerRequest, topicText_ofStrings, dataText_ofStrings, askedMembers, if_pos rfl,
      if_neg hdistinct, if_pos rfl]
  refine ⟨_, reply text, hrun, hpublished, ?_⟩
  rcases responses_decode sampleBoard_standard (fun _ => rfl) hnetwork hsilent hrun _ hmember with
    none | announced | ⟨pre, m, post, u, hsplit, hpre, answers⟩
  · cases none
  · have htopic : ofString "esp32_response" ≠ ofString "online" := by decide
    exact absurd (congrArg Publication.topic announced) htopic
  · cases pre with
    | nil =>
        obtain ⟨rfl, rfl⟩ : powerRequest = m ∧ post = [] := by simpa using hsplit
        obtain rfl := Option.some.inj hpre
        exact answers.members.trans (congrArg (Option.map (List.map memberBytes)) hasked)
    | cons a pre => simp at hsplit

end Ddsu666
