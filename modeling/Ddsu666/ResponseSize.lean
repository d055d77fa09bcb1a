/- The size of a response: whatever meter and board report, the printed object fits into
   `response_s`. -/
import Ddsu666.ClientEvents

namespace Ddsu666
open StringHeap

/-- Bytes that a string of JSON contains as they are. -/
def Plain (t : CString) : Prop := ∀ b ∈ t.1, 32 ≤ b ∧ b ≠ 34 ∧ b ≠ 92

instance (t : CString) : Decidable (Plain t) :=
  decidable_of_iff (t.1.all fun b => 32 ≤ b ∧ b ≠ 34 ∧ b ≠ 92) (by simp [Plain])

/-- What the C library and cJSON print, and texts that are settled when the program is built. -/
structure Standard {F : Type} (P : Platform F) : Prop where
  cJSONPrint : P.cJSONPrint = printObject
  fixed : ∀ digits x, Plain (P.fixed digits x)
  buildDate : P.buildDate.1.length ≤ 128
  coreVersion : P.coreVersion.1.length ≤ 128
  idfVersion : P.idfVersion.1.length ≤ 128

/-- The array `ssid` of `wifi_ap_record_t` has 33 bytes. -/
def Device.ShortSsid {F : Type} (d : Device F) : Prop := d.board.apSsid.1.length ≤ 32

def ClientLabel.ShortSsid {F : Type} : ClientLabel F → Prop
  | .event _ => True
  | .others d | .boot d => d.ShortSsid

section Texts

variable {s t : CString}

theorem append_length (s t : CString) : (s ++ t).1.length = s.1.length + t.1.length :=
  List.length_append

theorem Plain.append (hs : Plain s) (ht : Plain t) : Plain (s ++ t) := by
  intro b hb
  rcases List.mem_append.mp hb with h | h
  · exact hs b h
  · exact ht b h

theorem Plain.buffered (ht : Plain t) : Plain (buffered t) :=
  fun b hb => ht b (List.mem_of_mem_take hb)

theorem Plain.ofChars {cs : List Char}
    (h : ∀ c ∈ cs, 32 ≤ UInt8.ofNat c.toNat ∧ UInt8.ofNat c.toNat ≠ 34 ∧
      UInt8.ofNat c.toNat ≠ 92) : Plain (ofChars cs) := by
  intro b hb
  obtain ⟨c, hc, rfl⟩ := List.mem_map.mp ((List.takeWhile_sublist _).subset hb)
  exact h c hc

theorem plain_digit {c : Char} (h : c.isDigit = true) :
    32 ≤ UInt8.ofNat c.toNat ∧ UInt8.ofNat c.toNat ≠ 34 ∧ UInt8.ofNat c.toNat ≠ 92 := by
  have hrange : ∀ n, 48 ≤ n → n ≤ 57 →
      32 ≤ UInt8.ofNat n ∧ UInt8.ofNat n ≠ 34 ∧ UInt8.ofNat n ≠ 92 := by
    intro n low high
    interval_cases n <;> decide
  rw [Char.isDigit, Bool.and_eq_true, decide_eq_true_iff, decide_eq_true_iff] at h
  exact hrange c.toNat h.1 h.2

theorem plain_toDigits (n : ℕ) :
    ∀ c ∈ Nat.toDigits 10 n, 32 ≤ UInt8.ofNat c.toNat ∧ UInt8.ofNat c.toNat ≠ 34 ∧
      UInt8.ofNat c.toNat ≠ 92 :=
  fun _ hc => plain_digit (Nat.isDigit_of_mem_toDigits (by decide) (by decide) hc)

theorem plain_decimal (z : ℤ) : Plain (decimal z) := by
  cases z with
  | ofNat n => exact .ofChars (plain_toDigits n)
  | negSucc n =>
      refine .ofChars fun c hc => ?_
      rcases List.mem_cons.mp hc with rfl | hc
      · decide
      · exact plain_toDigits (n + 1) c hc

theorem plain_hexByte (b : UInt8) : Plain (hexByte false b) := by
  have hdigit : ∀ n < 16, 32 ≤ UInt8.ofNat (Nat.digitChar n).toNat ∧
      UInt8.ofNat (Nat.digitChar n).toNat ≠ 34 ∧ UInt8.ofNat (Nat.digitChar n).toNat ≠ 92 := by
    decide
  refine .ofChars fun c hc => ?_
  rcases List.mem_cons.mp hc with rfl | hc
  · exact hdigit _ (Nat.div_lt_of_lt_mul b.toNat_lt)
  · obtain rfl := List.mem_singleton.mp hc
    exact hdigit _ (Nat.mod_lt _ (by decide))

theorem plain_joined {separator : CString} (hsep : Plain separator) {ts : List CString}
    (h : ∀ t ∈ ts, Plain t) : Plain (joined separator ts) := by
  induction ts with
  | nil =>
      intro b hb
      have hempty : (ofString "").1 = [] := by decide
      rw [joined, hempty] at hb
      cases hb
  | cons t ts ih =>
      have hrest := ih fun u hu => h u (List.mem_cons_of_mem t hu)
      cases ts with
      | nil => exact h t List.mem_cons_self
      | cons u ts => exact ((h t List.mem_cons_self).append hsep).append hrest

theorem length_joined (separator : CString) (ts : List CString) :
    (joined separator ts).1.length ≤
      (ts.map fun t => t.1.length + separator.1.length).sum := by
  induction ts with
  | nil => exact Nat.zero_le _
  | cons t ts ih =>
      rw [List.map_cons, List.sum_cons]
      cases ts with
      | nil => exact Nat.le_add_right_of_le (Nat.le_add_right _ _)
      | cons u ts =>
          rw [joined, append_length, append_length]
          · exact Nat.add_le_add_left ih _
          · simp

theorem length_escapeByte (b : UInt8) : (escapeByte b).1.length ≤ 6 := by
  have hbyte : (textOf [b]).1.length ≤ 1 := (List.takeWhile_sublist _).length_le
  have hhex : (hexByte false b).1.length ≤ 2 := (List.takeWhile_sublist _).length_le
  have hcode : (ofString "\\u00" ++ hexByte false b).1.length ≤ 6 := by
    rw [append_length]
    have hstart : (ofString "\\u00").1.length = 4 := by decide
    omega
  unfold escapeByte
  split
  · decide
  split
  · decide
  split
  · decide
  split
  · decide
  split
  · decide
  split
  · decide
  split
  · decide
  split
  · exact hcode
  · exact hbyte.trans (by decide)

theorem escapeByte_plain {b : UInt8} (h : 32 ≤ b ∧ b ≠ 34 ∧ b ≠ 92) :
    escapeByte b = textOf [b] := by
  obtain ⟨low, quote, slash⟩ := h
  have hnot : ∀ c, c < 32 → b ≠ c := by
    rintro c hc rfl
    exact absurd low (UInt8.not_le.mpr hc)
  rw [escapeByte, if_neg quote, if_neg slash, if_neg (hnot 8 (by decide)),
    if_neg (hnot 12 (by decide)), if_neg (hnot 10 (by decide)), if_neg (hnot 13 (by decide)),
    if_neg (hnot 9 (by decide)), if_neg (UInt8.not_lt.mpr low)]

theorem length_quoted {n : ℕ} (h : ∀ b ∈ t.1, (escapeByte b).1.length ≤ n) :
    (quoted t).1.length ≤ t.1.length * n + 2 := by
  have hmembers := length_joined (ofString "") (t.1.map escapeByte)
  have hsum := List.sum_le_card_nsmul
    ((t.1.map escapeByte).map fun u => u.1.length + (ofString "").1.length) n (by
      intro m hm
      obtain ⟨u, hu, rfl⟩ := List.mem_map.mp hm
      obtain ⟨b, hb, rfl⟩ := List.mem_map.mp hu
      exact h b hb)
  rw [List.length_map, List.length_map, smul_eq_mul] at hsum
  have hquote : (ofString "\"").1.length = 1 := by decide
  rw [quoted, append_length, append_length, hquote]
  omega

theorem length_quoted_any (t : CString) : (quoted t).1.length ≤ t.1.length * 6 + 2 :=
  length_quoted fun b _ => length_escapeByte b

theorem Plain.length_quoted (ht : Plain t) : (quoted t).1.length ≤ t.1.length + 2 := by
  have hquoted := Ddsu666.length_quoted (t := t) (n := 1) fun b hb => by
    rw [escapeByte_plain (ht b hb)]
    exact (List.takeWhile_sublist _).length_le
  rwa [Nat.mul_one] at hquoted

/-- What a member takes up in the printed object, with the separator after it. -/
def lineSize (member : CString × CString) : ℕ :=
  (quoted member.1).1.length + (quoted member.2).1.length + 5

theorem length_printObject (members : List (CString × CString)) :
    (printObject members).1.length ≤ (members.map lineSize).sum + 4 := by
  have hopen : (ofString "\x7b\n").1.length = 2 := by decide
  have hclose : (ofString "\n\x7d").1.length = 2 := by decide
  have htab : (ofString "\t").1.length = 1 := by decide
  have hcolon : (ofString ":\t").1.length = 2 := by decide
  have hcomma : (ofString ",\n").1.length = 2 := by decide
  have hlines := length_joined (ofString ",\n") (members.map fun member =>
    ofString "\t" ++ quoted member.1 ++ ofString ":\t" ++ quoted member.2)
  have hsum : ((members.map fun member =>
      ofString "\t" ++ quoted member.1 ++ ofString ":\t" ++ quoted member.2).map
        fun t => t.1.length + (ofString ",\n").1.length).sum = (members.map lineSize).sum := by
    rw [List.map_map]
    refine congrArg List.sum (List.map_congr_left fun member _ => ?_)
    simp only [Function.comp, append_length, htab, hcolon, hcomma, lineSize]
    omega
  rw [hsum] at hlines
  rw [printObject, append_length, append_length, hopen, hclose]
  omega

theorem lines_le {members : List (CString × CString)} {bounds : List ℕ}
    (h : List.Forall₂ (fun m n => lineSize m ≤ n) members bounds) :
    (members.map lineSize).sum ≤ bounds.sum := by
  induction h with
  | nil => exact le_rfl
  | cons line _ ih =>
      rw [List.map_cons, List.sum_cons, List.sum_cons]
      exact Nat.add_le_add line ih

/-- A member whose value came through `ret_buffer`. -/
theorem plain_line (name : String) (short : (quoted (ofString name)).1.length ≤ 16)
    (plain : Plain t) : lineSize (ofString name, buffered t) ≤ 150 := by
  have hvalue := plain.buffered.length_quoted
  have hshort := buffered_length t
  rw [retBufferSize] at hshort
  simp only [lineSize]
  omega

theorem direct_line (name : String) (short : (quoted (ofString name)).1.length ≤ 16) {n : ℕ}
    (size : t.1.length ≤ n) : lineSize (ofString name, t) ≤ 6 * n + 23 := by
  have hvalue := length_quoted_any t
  simp only [lineSize]
  omega

end Texts

section Boards

variable {F : Type} [FloatArith F] {P : Platform F} (board : Standard P) (d : Device F)

include board

theorem powerMembers_fit : JsonFits P 0 d := by
  have hlines : List.Forall₂ (fun m n => lineSize m ≤ n) (powerMembers P d)
      (List.replicate 11 150) := by
    refine .cons (plain_line "volts" (by decide) (board.fixed _ _))
      <| .cons (plain_line "current" (by decide) (board.fixed _ _))
      <| .cons (plain_line "ap" (by decide) (board.fixed _ _))
      <| .cons (plain_line "rp" (by decide) (board.fixed _ _))
      <| .cons (plain_line "app" (by decide) (board.fixed _ _))
      <| .cons (plain_line "pf" (by decide) (board.fixed _ _))
      <| .cons (plain_line "pfr" (by decide) ((board.fixed _ _).append (by decide)))
      <| .cons (plain_line "total_e" (by decide) (board.fixed _ _))
      <| .cons (plain_line "loop_count" (by decide) (plain_decimal _))
      <| .cons (plain_line "rec_wait" (by decide) ((plain_decimal _).append (by decide)))
      <| .cons (plain_line "after_loop" (by decide) ((plain_decimal _).append (by decide))) .nil
  have hsize := length_printObject (powerMembers P d)
  have hsum := lines_le hlines
  rw [JsonFits, jsonText, if_pos rfl, board.cJSONPrint]
  refine Nat.lt_of_le_of_lt (hsize.trans (Nat.add_le_add_right hsum 4)) ?_
  decide

/-- The name of the network is the only text that comes from outside. -/
theorem infoMembers_fit (short : d.ShortSsid) : JsonFits P (-1) d := by
  have hreason : ∀ r, (quoted (ofString (resetReasonStr r))).1.length ≤ 129 := by decide
  have hoctets : ∀ t ∈ (List.finRange 4).map fun i => decimal (d.board.ip i).toNat, Plain t := by
    intro t ht
    obtain ⟨i, -, rfl⟩ := List.mem_map.mp ht
    exact plain_decimal _
  have hmac : ∀ t ∈ (List.finRange 6).map fun i => hexByte false (P.mac i), Plain t := by
    intro t ht
    obtain ⟨i, -, rfl⟩ := List.mem_map.mp ht
    exact plain_hexByte _
  have hcause : lineSize (ofString "reset_reason",
      ofString (resetReasonStr d.board.resetReason)) ≤ 150 := by
    have hname : (quoted (ofString "reset_reason")).1.length ≤ 16 := by decide
    have hvalue := hreason d.board.resetReason
    simp only [lineSize]
    omega
  have hlines : List.Forall₂ (fun m n => lineSize m ≤ n) (infoMembers P d)
      [150, 150, 150, 150, 215, 150, 150, 150, 791, 791, 791, 150, 150, 150, 150, 150, 150] := by
    refine .cons (plain_line "boot" (by decide) ((plain_decimal _).append (by decide)))
      <| .cons (plain_line "total_heap" (by decide) ((plain_decimal _).append (by decide)))
      <| .cons (plain_line "free_heap" (by decide) ((plain_decimal _).append (by decide)))
      <| .cons hcause <| .cons (direct_line "wifi_ssid" (by decide) short)
      <| .cons (plain_line "wifi_ip" (by decide) (plain_joined (by decide) hoctets))
      <| .cons (plain_line "wifi_mac" (by decide) (plain_joined (by decide) hmac))
      <| .cons (plain_line "wifi_rssi" (by decide) (plain_decimal _))
      <| .cons (direct_line "build_time" (by decide) board.buildDate)
      <| .cons (direct_line "core_version" (by decide) board.coreVersion)
      <| .cons (direct_line "sdk_version" (by decide) board.idfVersion)
      <| .cons (plain_line "cpu_freq" (by decide) ((plain_decimal _).append (by decide)))
      <| .cons (plain_line "flash_size" (by decide) ((plain_decimal _).append (by decide)))
      <| .cons (plain_line "fs_total" (by decide) ((plain_decimal _).append (by decide)))
      <| .cons (plain_line "fs_used" (by decide) ((plain_decimal _).append (by decide)))
      <| .cons (plain_line "core_t" (by decide) (board.fixed _ _))
      <| .cons (plain_line "is_debug" (by decide) (plain_decimal _)) .nil
  have hsize := length_printObject (infoMembers P d)
  have hsum := lines_le hlines
  rw [JsonFits, jsonText, if_neg (by decide), board.cJSONPrint]
  refine Nat.lt_of_le_of_lt (hsize.trans (Nat.add_le_add_right hsum 4)) ?_
  decide

end Boards

section Handlers

variable {F : Type} [FloatArith F] {P : Platform F}

omit [FloatArith F] in
theorem Command.effect_board (d : Device F) (c : Command) :
    (deviceAfter (c.effect d)).board = d.board := by
  cases c with
  | otaUpdate =>
      simp only [effect]
      split <;> rfl
  | resetWifi | restartOs | removeUartRecTask | changeRecWait1 | changeRecWait5 | changeRecWait60
  | clearTotalEngery | debugMode => rfl

theorem dispatch_board (topic data : CString) (d : Device F) :
    (deviceAfter (dispatch P topic data d)).board = d.board := by
  rw [dispatch]
  cases commandOf topic data with
  | none => rfl
  | some c =>
      have hboard := c.effect_board d
      simp only
      cases heffect : c.effect d with
      | error d' => rwa [heffect] at hboard
      | ok result => rwa [heffect] at hboard

theorem Standard.requestFits (board : Standard P) {d : Device F} (short : d.ShortSsid)
    (topic data : CString) : RequestFits P topic data d :=
  fun _ => ⟨fun _ => infoMembers_fit board d short, fun _ => powerMembers_fit board d⟩

/-- What keeps `response_s` whole. -/
structure SizeInv (s : HandlerState F) : Prop where
  ssid : s.world.device.ShortSsid
  intact : s.world.overrun = false

theorem SizeInv.message (board : Standard P) (granted : ∀ n, P.grants n = true)
    {s t : HandlerState F} {m : Message} (inv : SizeInv s)
    (h : clientStep P s (.event (.data m)) = some t) : SizeInv t := by
  have hrun := message_run granted s.world m
  have hboard := dispatch_board (P := P) m.topicText m.dataText s.world.device
  have hfits := board.requestFits inv.ssid m.topicText m.dataText
  simp only [clientStep, clientStep_up h, if_true] at h
  cases hdispatch : dispatch P m.topicText m.dataText s.world.device with
  | error d =>
      rw [hdispatch] at hrun hboard
      obtain ⟨heap, b, hrestart⟩ := hrun
      rw [hrestart] at h
      obtain rfl := Option.some.inj h
      refine ⟨?_, inv.intact⟩
      rw [Device.ShortSsid, show d.board = s.world.device.board from hboard]
      exact inv.ssid
  | ok result =>
      obtain ⟨d, text⟩ := result
      rw [hdispatch] at hrun hboard
      obtain ⟨heap, b, o, u, hreturn, hfit, -⟩ := hrun
      rw [hreturn] at h
      obtain rfl := Option.some.inj h
      refine ⟨?_, (hfit hfits).2.trans inv.intact⟩
      rw [Device.ShortSsid, show d.board = s.world.device.board from hboard]
      exact inv.ssid

theorem SizeInv.event (board : Standard P) (granted : ∀ n, P.grants n = true)
    {s t : HandlerState F} {e : MqttEvent} (inv : SizeInv s)
    (h : clientStep P s (.event e) = some t) : SizeInv t := by
  by_cases message : ∃ m, e = .data m
  · obtain ⟨m, rfl⟩ := message
    exact inv.message board granted h
  · have quiet := quiet_effect granted (not_exists.mp message) h
    exact ⟨by rw [quiet.device]; exact inv.ssid, quiet.overrun.trans inv.intact⟩

theorem size_inv (board : Standard P) (granted : ∀ n, P.grants n = true) {d : Device F}
    {published : List Publication} {tr : List (ClientLabel F)} {s : HandlerState F}
    (first : d.ShortSsid) (later : ∀ a ∈ tr, a.ShortSsid) (h : ClientRun P d published tr s) :
    SizeInv s := by
  refine Runs.guarded_invariant (G := fun _ a => a.ShortSsid) (P := fun _ u => SizeInv u)
    ⟨first, rfl⟩ ?_ tr ?_ s h
  · intro as u a v inv short hstep
    cases a with
    | event e => exact inv.event board granted hstep
    | others d' =>
        obtain ⟨-, rfl⟩ := Runs.enabled hstep
        exact ⟨short, inv.intact⟩
    | boot d' =>
        obtain rfl := Option.some.inj hstep
        exact ⟨short, rfl⟩
  · exact .of_forall fun a member _ => later a member

/-- Whatever the readings are, `response_s` is never overrun, and so every message in every run is
answered as the texts and the device at that moment say. -/
theorem responses_fit (board : Standard P) (granted : ∀ n, P.grants n = true) {d : Device F}
    {published : List Publication} {tr : List (ClientLabel F)} {s : HandlerState F}
    (first : d.ShortSsid) (later : ∀ a ∈ tr, a.ShortSsid) (h : ClientRun P d published tr s) :
    s.world.overrun = false ∧
      ∀ m, Handles P m s.world (dispatch P m.topicText m.dataText s.world.device) := by
  have inv := size_inv board granted first later h
  exact ⟨inv.intact, fun m => handles_dispatch granted (board.requestFits inv.ssid _ _)⟩

end Handlers

theorem plain_fixedRat (digits : ℕ) (q : ℚ) : Plain (fixedRat digits q) := by
  refine .ofChars fun c hc => ?_
  rcases List.mem_append.mp hc with hc | hc
  · rcases List.mem_append.mp hc with hc | hc
    · rcases List.mem_append.mp hc with hc | hc
      · exact plain_toDigits _ c hc
      · obtain rfl := List.mem_singleton.mp hc
        decide
    · obtain rfl := List.eq_of_mem_replicate hc
      decide
  · exact plain_toDigits _ c hc

theorem sampleBoard_standard : Standard sampleBoard where
  cJSONPrint := rfl
  buildDate := by decide
  coreVersion := by decide
  idfVersion := by decide
  fixed digits x := by
    have hsign : ∀ s, Plain (signText s) := by
      intro s
      cases s <;> decide
    change Plain (fixedSingle digits x)
    rw [fixedSingle]
    cases x.toModel.unpack with
    | finite s m e _ => exact (hsign s).append (plain_fixedRat _ _)
    | zero s => exact (hsign s).append (plain_fixedRat _ _)
    | infinity s => exact (hsign s).append (by decide)
    | notANumber => exact (by decide : Plain (ofString "nan"))

/-- A request for the readings, and a lost connection after it. -/
theorem powerRequest_fits :
    ∃ s, ClientRun sampleBoard sampleDevice []
        [.event (.data (.ofStrings "sysop-get" "info-power")), .event .disconnected] s ∧
      s.world.overrun = false := by
  have hdispatch := dispatch_get sampleBoard (ofString "info-power") sampleDevice
  rw [← topicText_ofStrings "sysop-get" "info-power",
    ← dataText_ofStrings "sysop-get" "info-power"] at hdispatch
  obtain ⟨w, _, hmessage, -⟩ :=
    message_returns (fun _ => rfl) (w := bootWorld sampleDevice []) hdispatch
  have hfirst : clientStep sampleBoard ⟨bootWorld sampleDevice [], true⟩ _ = some ⟨w, true⟩ :=
    clientStep_ok rfl hmessage
  obtain ⟨t, hsecond⟩ : ∃ t, clientStep sampleBoard ⟨w, true⟩ (.event .disconnected) = some t := by
    simp only [clientStep, if_true]
    split
    · exact ⟨_, rfl⟩
    · exact ⟨_, rfl⟩
  have hrun : ClientRun sampleBoard sampleDevice []
      [.event (.data (.ofStrings "sysop-get" "info-power")), .event .disconnected] t :=
    Runs.run_cons_some.mpr ⟨_, hfirst, Runs.run_cons_some.mpr ⟨_, hsecond, rfl⟩⟩
  refine ⟨t, hrun, (responses_fit sampleBoard_standard (fun _ => rfl) ?_ ?_ hrun).1⟩
  · exact (by decide : sampleDevice.board.apSsid.1.length ≤ 32)
  · intro a ha
    rcases List.mem_cons.mp ha with rfl | ha
    · trivial
    · obtain rfl := List.mem_singleton.mp ha
      trivial

end Ddsu666
