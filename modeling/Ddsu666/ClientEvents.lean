/- Everything that the MQTT client reports, over whole runs of the event handler: lost and regained
   connections, messages, and the rest. -/
import Ddsu666.MessageRuns

namespace Ddsu666
open StringHeap

/-- An event of the client, a change of the device by the other tasks, or a boot at any time. -/
inductive ClientLabel (F : Type) where
  | event (e : MqttEvent)
  | others (d : Device F)
  | boot (d : Device F)

section Systems

variable {F : Type} [FloatArith F] (P : Platform F)

def clientStep (s : HandlerState F) : ClientLabel F → Option (HandlerState F)
  | .event e =>
      if s.up then
        match mqttEventHandler P e s.world with
        | .ok (_, w) => some ⟨w, true⟩
        | .error w => some ⟨w, false⟩
      else none
  | .others d => if s.up then some { s with world := { s.world with device := d } } else none
  | .boot d => some ⟨bootWorld d s.world.published, true⟩

/-- A run from the first boot of the device. -/
def ClientRun (d : Device F) (published : List Publication) (tr : List (ClientLabel F))
    (s : HandlerState F) : Prop :=
  Runs.run (clientStep P) ⟨bootWorld d published, true⟩ tr = some s

omit [FloatArith F] in
/-- What a client announces itself with. -/
def announcement : Publication := ⟨ofString "online", ofString "esp32_" ++ chipIdText P, false⟩

end Systems

section Counts

variable {F : Type}

def ClientLabel.disconnects (n : ℕ) : ClientLabel F → ℕ
  | .event .disconnected => n + 1
  | .event .connected | .boot _ => 0
  | .event (.data _) | .event .other | .others _ => n

/-- Connections lost since one was last established, or since the last boot if none has been. -/
def recentDisconnects (tr : List (ClientLabel F)) : ℕ := tr.foldl ClientLabel.disconnects 0

def ClientLabel.isConnected : ClientLabel F → Bool
  | .event .connected => true
  | _ => false

/-- The strings of a message that are never freed. -/
def Message.leaked (m : Message) : List CString :=
  if m.topicText = ofString "sysop-get" ∨ m.topicText = ofString "sysop-set" then []
  else [m.topicText, m.dataText]

def ClientLabel.leaks (lost : List CString) : ClientLabel F → List CString
  | .event (.data m) => lost ++ m.leaked
  | .boot _ => []
  | .event .connected | .event .disconnected | .event .other | .others _ => lost

def leakedStrings (tr : List (ClientLabel F)) : List CString := tr.foldl ClientLabel.leaks []

end Counts

theorem truncate_all {t : CString} {n : ℕ} (short : t.1.length ≤ n) : t.truncate n = t :=
  Subtype.ext (List.take_of_length_le short)

theorem length_hexByte (b : UInt8) : (hexByte true b).1.length = 2 := by
  have hdigit : ∀ n < 16, UInt8.ofNat (Nat.digitChar n).toUpper.toNat ≠ 0 := by decide
  have hhigh := hdigit (b.toNat / 16) (Nat.div_lt_of_lt_mul b.toNat_lt)
  have hlow := hdigit (b.toNat % 16) (Nat.mod_lt _ (by decide))
  simp [hexByte, ofChars, textOf, hhigh, hlow]

/-- Neither bound cuts the text. -/
theorem onlineText_eq {F : Type} (P : Platform F) :
    onlineText P = ofString "esp32_" ++ chipIdText P := by
  have hchip : (chipIdText P).1.length = 6 := by
    have hsplit : (chipIdText P).1.length = (hexByte true (P.mac 0)).1.length +
        (hexByte true (P.mac 2)).1.length + (hexByte true (P.mac 4)).1.length := by
      rw [← List.length_append, ← List.length_append]
      rfl
    rw [hsplit, length_hexByte, length_hexByte, length_hexByte]
  have hwhole : (ofString "esp32_" ++ chipIdText P).1.length ≤ 51 := by
    have hsplit : (ofString "esp32_" ++ chipIdText P).1.length =
        (ofString "esp32_").1.length + (chipIdText P).1.length := List.length_append
    rw [hsplit, hchip]
    decide
  rw [onlineText, truncate_all hchip.le, truncate_all hwhole]

section Events

variable {F : Type} [FloatArith F] {P : Platform F} (granted : ∀ n, P.grants n = true)

include granted

omit [FloatArith F] in
/-- What every event begins with leaves nothing behind on the heap. -/
theorem event_begins (w : World F) :
    ∃ h b, resetResponse P w = .ok ((), { w with heap := h, responseS := b }) ∧
      textOf b.1 = onlineText P ∧ h.liveTexts = w.heap.liveTexts ∧
      w.heap.Since [((chipIdText P).truncate 6, false)] [] h := by
  obtain ⟨h, b, hreset, honline, hsince⟩ := resetResponse_run (Heap.Since.refl w.heap) (granted _)
  have hlive := hsince.liveTexts
  rw [Heap.liveOf_freed (by simp), List.append_nil] at hlive
  exact ⟨h, b, hreset, honline, hlive, hsince⟩

theorem connected_run (w : World F) :
    ∃ h b, mqttEventHandler P .connected w = .ok ((), { w with
        heap := h, responseS := b, mqttDisconnectCount := 0,
        published := w.published ++ [announcement P] }) ∧
      h.liveTexts = w.heap.liveTexts := by
  obtain ⟨h, b, hreset, honline, hlive, -⟩ := event_begins granted w
  refine ⟨h, b, ?_, hlive⟩
  rw [announcement, ← onlineText_eq, ← honline]
  simp only [mqttEventHandler, bind_run, hreset, modify_run, espMqttClientPublish]

theorem disconnected_run (w : World F) :
    ∃ h b, mqttEventHandler P .disconnected w =
        (if w.mqttDisconnectCount + 1 = mqttDisconnectCountMax then
          .error { w with
            heap := h, responseS := b, mqttDisconnectCount := w.mqttDisconnectCount + 1 }
        else
          .ok ((), { w with
            heap := h, responseS := b, mqttDisconnectCount := w.mqttDisconnectCount + 1 })) ∧
      h.liveTexts = w.heap.liveTexts := by
  obtain ⟨h, b, hreset, -, hlive, -⟩ := event_begins granted w
  refine ⟨h, b, ?_, hlive⟩
  simp only [mqttEventHandler, bind_run, hreset, modify_run, get_run, ite_run, pure_run,
    espRestart]

theorem other_run (w : World F) :
    ∃ h b, mqttEventHandler P .other w = .ok ((), { w with heap := h, responseS := b }) ∧
      h.liveTexts = w.heap.liveTexts := by
  obtain ⟨h, b, hreset, -, hlive, -⟩ := event_begins granted w
  refine ⟨h, b, ?_, hlive⟩
  simp only [mqttEventHandler, bind_run, hreset, pure_run]

/-- A request under its own topic is compared once more after it was freed, and frees no more. -/
theorem handleTexts_get_live {base : Heap} {es : List (CString × Bool)} {fs : List Fault}
    {data : CString} {w w' : World F}
    (s : base.Since (es ++ [(ofString "sysop-get", true), (data, true)]) fs w.heap)
    (h : handleTexts P (some (base.blocks.length + es.length))
      (some (base.blocks.length + es.length + 1)) w = .ok ((), w')) :
    w'.heap.liveTexts = base.liveTexts ++ Heap.liveOf es := by
  have hfirst : ∀ literal, strcmpEq (some (base.blocks.length + es.length)) literal w =
      .ok (decide (ofString "sysop-get" = ofString literal), w) :=
    strcmpEq_run (s.read_live es)
  have hdistinct : ofString "sysop-get" ≠ ofString "sysop-set" := by decide
  obtain ⟨heap, b, o, more, hrun, -, hsince, hfreed, -⟩ :=
    sysopGet_run (P := P) s fun _ => ⟨granted _, granted _⟩
  have hsecond := strcmpEq_run (p := some (base.blocks.length + es.length))
    (w := { w with heap := heap, responseS := b, overrun := o }) (hsince.read_freed es) "sysop-set"
  simp only [handleTexts, bind_run, ite_run, pure_run, hfirst, hrun, hsecond, hdistinct,
    decide_true, decide_false, reduceCtorEq, if_true, if_false, espMqttClientPublish,
    Except.ok.injEq, Prod.mk.injEq, true_and] at h
  have hlive := (hsince.report_lifetime (f := .useAfterFree (base.blocks.length + es.length))
    rfl).liveTexts
  have hnone : Heap.liveOf ((ofString "sysop-get", false) :: (data, false) :: more) = [] := by
    refine Heap.liveOf_freed ?_
    rintro e (- | ⟨-, - | ⟨-, he⟩⟩)
    · rfl
    · rfl
    · exact hfreed e he
  rw [Heap.liveOf_append, hnone, List.append_nil] at hlive
  rw [← h]
  exact hlive

/-- Only a message under a topic of its own leaves its two texts on the heap. -/
theorem message_live {m : Message} {w w' : World F}
    (h : mqttEventHandler P (.data m) w = .ok ((), w')) :
    w'.heap.liveTexts = w.heap.liveTexts ++ m.leaked := by
  obtain ⟨h₀, b, hreset, -, -, hchip⟩ := event_begins granted w
  obtain ⟨h₁, htexts, -, -, hdata⟩ :=
    obtainTexts_run (w := { w with heap := h₀, responseS := b }) hchip m (granted _) (granted _)
  have hhandler : mqttEventHandler P (.data m) w =
      mqttEventData P m { w with heap := h₀, responseS := b } := by
    simp only [mqttEventHandler, bind_run, hreset]
  rw [hhandler, hdata] at h
  by_cases get : m.topicText = ofString "sysop-get"
  · rw [get] at htexts
    rw [show m.leaked = [] from if_pos (.inl get)]
    exact handleTexts_get_live granted htexts h
  · by_cases set : m.topicText = ofString "sysop-set"
    · rw [set] at htexts
      obtain ⟨h₂, h₃, hsince, -, -, hrun⟩ :=
        handleTexts_set (P := P) (w := { w with heap := h₁, responseS := b }) htexts
      rw [hrun] at h
      cases hcommand : commandEffect m.dataText w.device with
      | error d =>
          rw [hcommand] at h
          cases h
      | ok result =>
          rw [hcommand] at h
          obtain rfl := (Prod.mk.inj (Except.ok.inj h)).2
          rw [show m.leaked = [] from if_pos (.inr set)]
          exact hsince.liveTexts
    · have hrun := handleTexts_other (P := P) (w := { w with heap := h₁, responseS := b })
        htexts get set
      rw [hrun] at h
      obtain rfl := (Prod.mk.inj (Except.ok.inj h)).2
      rw [show m.leaked = [m.topicText, m.dataText] from if_neg (by simp [get, set])]
      exact htexts.liveTexts

end Events

section Runs

variable {F : Type} [FloatArith F] {P : Platform F}

/-- What has been published when a connection came up. -/
def HandlerState.announced {F : Type} (s : HandlerState F) : List Publication :=
  s.world.published.filter fun p => p.topic = ofString "online"

/-- Whether an event restarts the device. -/
def Restarts (P : Platform F) (s : HandlerState F) : MqttEvent → Prop
  | .disconnected => s.world.mqttDisconnectCount + 1 = mqttDisconnectCountMax
  | .data m => ∃ d, dispatch P m.topicText m.dataText s.world.device = .error d
  | .connected | .other => False

structure EventEffect (P : Platform F) (s : HandlerState F) (e : MqttEvent) (t : HandlerState F) :
    Prop where
  down : t.up = false ↔ Restarts P s e
  count : ∀ n : ℕ, s.world.mqttDisconnectCount = n →
    t.world.mqttDisconnectCount = (ClientLabel.event (F := F) e).disconnects n
  announced : t.announced =
    s.announced ++ if e = .connected then [announcement P] else []
  live : t.up = true →
    t.world.heap.liveTexts = (ClientLabel.event (F := F) e).leaks s.world.heap.liveTexts

theorem message_effect (granted : ∀ n, P.grants n = true) {s t : HandlerState F} {m : Message}
    (h : clientStep P s (.event (.data m)) = some t) : EventEffect P s (.data m) t := by
  have hrun := message_run granted s.world m
  simp only [clientStep] at h
  split at h
  · cases hdispatch : dispatch P m.topicText m.dataText s.world.device with
    | error d =>
        rw [hdispatch] at hrun
        obtain ⟨heap, b, hrestart⟩ := hrun
        rw [hrestart] at h
        obtain rfl := Option.some.inj h
        exact ⟨⟨fun _ => ⟨d, hdispatch⟩, fun _ => rfl⟩, fun _ hn => hn,
          by simp [HandlerState.announced], fun up => absurd up Bool.false_ne_true⟩
    | ok result =>
        obtain ⟨d, text⟩ := result
        rw [hdispatch] at hrun
        obtain ⟨heap, b, o, u, hreturn, -, -⟩ := hrun
        have hlive := message_live granted hreturn
        have htopic : ofString "esp32_response" ≠ ofString "online" := by decide
        rw [hreturn] at h
        obtain rfl := Option.some.inj h
        refine ⟨⟨(nomatch ·), ?_⟩, fun _ hn => hn, ?_, fun _ => hlive⟩
        · rintro ⟨d', herror⟩
          rw [hdispatch] at herror
          cases herror
        · simp [HandlerState.announced, List.filter_append, reply, htopic]
  · cases h

theorem event_effect (granted : ∀ n, P.grants n = true) {s t : HandlerState F} {e : MqttEvent}
    (h : clientStep P s (.event e) = some t) : EventEffect P s e t := by
  cases e with
  | data m => exact message_effect granted h
  | connected =>
      obtain ⟨heap, b, hrun, hlive⟩ := connected_run granted s.world
      simp only [clientStep, hrun] at h
      obtain ⟨-, rfl⟩ := Runs.enabled h
      refine ⟨⟨(nomatch ·), False.elim⟩, fun _ _ => rfl, ?_, fun _ => hlive⟩
      simp [HandlerState.announced, List.filter_append, announcement]
  | disconnected =>
      obtain ⟨heap, b, hrun, hlive⟩ := disconnected_run granted s.world
      simp only [clientStep] at h
      split at h
      · by_cases fifth : s.world.mqttDisconnectCount + 1 = mqttDisconnectCountMax
        · rw [hrun, if_pos fifth] at h
          obtain rfl := Option.some.inj h
          refine ⟨⟨fun _ => fifth, fun _ => rfl⟩, ?_, by simp [HandlerState.announced],
            fun up => absurd up Bool.false_ne_true⟩
          intro n hn
          simp [hn, ClientLabel.disconnects]
        · rw [hrun, if_neg fifth] at h
          obtain rfl := Option.some.inj h
          refine ⟨⟨(nomatch ·), fun last => absurd last fifth⟩, ?_,
            by simp [HandlerState.announced], fun _ => hlive⟩
          intro n hn
          simp [hn, ClientLabel.disconnects]
      · cases h
  | other =>
      obtain ⟨heap, b, hrun, hlive⟩ := other_run granted s.world
      simp only [clientStep, hrun] at h
      obtain ⟨-, rfl⟩ := Runs.enabled h
      exact ⟨⟨(nomatch ·), False.elim⟩, fun _ hn => hn,
        by simp [HandlerState.announced], fun _ => hlive⟩

/-- What a run amounts to, whatever the events were. -/
structure ClientInv (P : Platform F) (published : List Publication) (tr : List (ClientLabel F))
    (s : HandlerState F) : Prop where
  count : s.world.mqttDisconnectCount = recentDisconnects tr
  most : recentDisconnects tr ≤ 5
  early : s.up = true → recentDisconnects tr < 5
  announced : s.announced = published.filter (fun p => p.topic = ofString "online") ++
    List.replicate (tr.countP ClientLabel.isConnected) (announcement P)
  live : s.up = true → s.world.heap.liveTexts = leakedStrings tr

omit [FloatArith F] in
theorem recentDisconnects_snoc (tr : List (ClientLabel F)) (a : ClientLabel F) :
    recentDisconnects (tr ++ [a]) = a.disconnects (recentDisconnects tr) := List.foldl_append

omit [FloatArith F] in
theorem leakedStrings_snoc (tr : List (ClientLabel F)) (a : ClientLabel F) :
    leakedStrings (tr ++ [a]) = a.leaks (leakedStrings tr) := List.foldl_append

omit [FloatArith F] in
theorem announced_snoc (tr : List (ClientLabel F)) (a : ClientLabel F) :
    List.replicate ((tr ++ [a]).countP ClientLabel.isConnected) (announcement P) =
      List.replicate (tr.countP ClientLabel.isConnected) (announcement P) ++
        if a.isConnected then [announcement P] else [] := by
  rw [List.countP_append, List.countP_singleton]
  split
  · exact List.replicate_succ'
  · exact (List.append_nil _).symm

theorem clientStep_up {s t : HandlerState F} {e : MqttEvent}
    (h : clientStep P s (.event e) = some t) : s.up = true := by
  simp only [clientStep] at h
  split at h
  · assumption
  · cases h

theorem clientStep_ok {s : HandlerState F} {e : MqttEvent} {w : World F} (up : s.up = true)
    (h : mqttEventHandler P e s.world = .ok ((), w)) :
    clientStep P s (.event e) = some ⟨w, true⟩ := by
  simp only [clientStep, up, if_true, h]

/-- What an event without a message does outside the heap and the counter. -/
structure QuietEffect (P : Platform F) (s : HandlerState F) (e : MqttEvent) (t : HandlerState F) :
    Prop where
  device : t.world.device = s.world.device
  overrun : t.world.overrun = s.world.overrun
  published : t.world.published =
    s.world.published ++ if e = .connected then [announcement P] else []

theorem quiet_effect (granted : ∀ n, P.grants n = true) {s t : HandlerState F} {e : MqttEvent}
    (quiet : ∀ m, e ≠ .data m) (h : clientStep P s (.event e) = some t) : QuietEffect P s e t := by
  have up := clientStep_up h
  cases e with
  | data m => exact absurd rfl (quiet m)
  | connected =>
      obtain ⟨heap, b, hrun, -⟩ := connected_run granted s.world
      rw [clientStep_ok up hrun] at h
      obtain rfl := Option.some.inj h
      exact ⟨rfl, rfl, rfl⟩
  | disconnected =>
      obtain ⟨heap, b, hrun, -⟩ := disconnected_run granted s.world
      simp only [clientStep, up, if_true] at h
      by_cases fifth : s.world.mqttDisconnectCount + 1 = mqttDisconnectCountMax
      · rw [hrun, if_pos fifth] at h
        obtain rfl := Option.some.inj h
        exact ⟨rfl, rfl, (List.append_nil _).symm⟩
      · rw [hrun, if_neg fifth] at h
        obtain rfl := Option.some.inj h
        exact ⟨rfl, rfl, (List.append_nil _).symm⟩
  | other =>
      obtain ⟨heap, b, hrun, -⟩ := other_run granted s.world
      rw [clientStep_ok up hrun] at h
      obtain rfl := Option.some.inj h
      exact ⟨rfl, rfl, (List.append_nil _).symm⟩

theorem ClientInv.event (granted : ∀ n, P.grants n = true) {published : List Publication}
    {tr : List (ClientLabel F)} {s t : HandlerState F} {e : MqttEvent}
    (inv : ClientInv P published tr s) (h : clientStep P s (.event e) = some t) :
    ClientInv P published (tr ++ [.event e]) t := by
  have up := clientStep_up h
  have effect := event_effect granted h
  have hearly := inv.early up
  have hcount := effect.count _ inv.count
  rw [← recentDisconnects_snoc] at hcount
  refine ⟨hcount, ?_, ?_, ?_, ?_⟩
  · rw [recentDisconnects_snoc]
    cases e with
    | connected => exact Nat.zero_le 5
    | disconnected => exact hearly
    | data m => exact inv.most
    | other => exact inv.most
  · intro up'
    rw [recentDisconnects_snoc]
    cases e with
    | connected => exact Nat.succ_pos 4
    | disconnected =>
        have hnot : ¬ Restarts P s .disconnected := by
          rw [← effect.down, up']
          exact Bool.false_ne_true.symm
        rw [Restarts, inv.count, mqttDisconnectCountMax] at hnot
        change recentDisconnects tr + 1 < 5
        omega
    | data m => exact hearly
    | other => exact hearly
  · rw [effect.announced, inv.announced, announced_snoc, List.append_assoc]
    cases e <;> rfl
  · intro up'
    rw [leakedStrings_snoc, effect.live up', inv.live up]

theorem client_inv (granted : ∀ n, P.grants n = true) {d : Device F}
    {published : List Publication} {tr : List (ClientLabel F)} {s : HandlerState F}
    (h : ClientRun P d published tr s) : ClientInv P published tr s := by
  refine Runs.history_invariant (P := ClientInv P published) ?_ ?_ tr s h
  · exact ⟨rfl, Nat.zero_le 5, fun _ => Nat.succ_pos 4, (List.append_nil _).symm, fun _ => rfl⟩
  · intro as t a u _ inv hstep
    cases a with
    | event e => exact inv.event granted hstep
    | others d =>
        obtain ⟨up, rfl⟩ := Runs.enabled hstep
        refine ⟨?_, ?_, ?_, ?_, ?_⟩
        · rw [recentDisconnects_snoc]
          exact inv.count
        · rw [recentDisconnects_snoc]
          exact inv.most
        · rw [recentDisconnects_snoc]
          exact fun _ => inv.early up
        · rw [announced_snoc, if_neg (by simp [ClientLabel.isConnected]), List.append_nil]
          exact inv.announced
        · rw [leakedStrings_snoc]
          exact fun _ => inv.live up
    | boot d =>
        obtain rfl := Option.some.inj hstep
        refine ⟨?_, ?_, ?_, ?_, ?_⟩
        · rw [recentDisconnects_snoc]
          rfl
        · rw [recentDisconnects_snoc]
          exact Nat.zero_le 5
        · rw [recentDisconnects_snoc]
          exact fun _ => Nat.succ_pos 4
        · rw [announced_snoc, if_neg (by simp [ClientLabel.isConnected]), List.append_nil]
          exact inv.announced
        · rw [leakedStrings_snoc]
          exact fun _ => rfl

end Runs

section Results

variable {F : Type} [FloatArith F] {P : Platform F} (granted : ∀ n, P.grants n = true)
  {d : Device F} {published : List Publication} {tr : List (ClientLabel F)} {s t : HandlerState F}
  (h : ClientRun P d published tr s)

include granted h

omit h in
/-- Four lost connections in a row are survived. -/
theorem disconnects_reached (d : Device F) (published : List Publication) {n : ℕ} (few : n ≤ 4) :
    ∃ s, ClientRun P d published (List.replicate n (.event .disconnected)) s ∧ s.up = true := by
  induction n with
  | zero => exact ⟨_, rfl, rfl⟩
  | succ n ih =>
      obtain ⟨s, hrun, up⟩ := ih (by omega)
      obtain ⟨heap, b, hevent, -⟩ := disconnected_run granted s.world
      have hrecent : ∀ n, recentDisconnects
          (List.replicate n (ClientLabel.event (F := F) .disconnected)) = n := by
        intro n
        induction n with
        | zero => rfl
        | succ n ih => rw [List.replicate_succ', recentDisconnects_snoc, ih]; rfl
      have hcount := (client_inv granted hrun).count
      have hearly : ¬ s.world.mqttDisconnectCount + 1 = mqttDisconnectCountMax := by
        rw [hcount, hrecent, mqttDisconnectCountMax]
        omega
      rw [if_neg hearly] at hevent
      have hstep := clientStep_ok up hevent
      exact ⟨_, by rw [List.replicate_succ']; exact Runs.run_snoc_some.mpr ⟨s, hrun, hstep⟩, rfl⟩

/-- In every run an event restarts the device if and only if it is the fifth lost connection since
the later of the last boot and the last connection, or a message whose command restarts it. -/
theorem client_restarts_iff {e : MqttEvent} (hstep : clientStep P s (.event e) = some t) :
    t.up = false ↔ match e with
      | .disconnected => recentDisconnects (tr ++ [.event e]) = 5
      | .data m => ∃ d, dispatch P m.topicText m.dataText s.world.device = .error d
      | .connected | .other => False := by
  have inv := client_inv granted h
  rw [(event_effect granted hstep).down]
  cases e with
  | connected => rfl
  | data m => rfl
  | other => rfl
  | disconnected =>
      rw [recentDisconnects_snoc, Restarts, inv.count, mqttDisconnectCountMax]
      change _ ↔ recentDisconnects tr + 1 = 5
      omega

/-- Every connection is announced once, with the name of the board whatever `response_s` held, and
nothing else is. -/
theorem connections_announced :
    s.announced = published.filter (fun p => p.topic = ofString "online") ++
      List.replicate (tr.countP ClientLabel.isConnected)
        ⟨ofString "online", ofString "esp32_" ++ chipIdText P, false⟩ :=
  (client_inv granted h).announced

/-- The strings that are live are the topics and payloads of the messages under topics of their
own since the last boot, in order, and no others. -/
theorem heap_balance (up : s.up = true) :
    s.world.heap.liveTexts = leakedStrings tr ∧
      s.world.heap.liveBlocks = (leakedStrings tr).length := by
  have hlive := (client_inv granted h).live up
  exact ⟨hlive, by rw [Heap.liveBlocks_eq, hlive]⟩

end Results

theorem fifth_disconnect_restarts :
    ∃ s t, ClientRun sampleBoard sampleDevice [] (List.replicate 4 (.event .disconnected)) s ∧
      clientStep sampleBoard s (.event .disconnected) = some t ∧ t.up = false := by
  obtain ⟨s, hrun, up⟩ := disconnects_reached (P := sampleBoard) (fun _ => rfl) sampleDevice []
    (le_refl 4)
  obtain ⟨heap, b, hevent, -⟩ := disconnected_run (P := sampleBoard) (fun _ => rfl) s.world
  obtain ⟨t, hstep⟩ : ∃ t, clientStep sampleBoard s (.event .disconnected) = some t := by
    simp only [clientStep, up, if_true, hevent]
    split
    · exact ⟨_, rfl⟩
    · exact ⟨_, rfl⟩
  exact ⟨s, t, hrun, hstep, (client_restarts_iff (fun _ => rfl) hrun hstep).mpr rfl⟩

/-- A message under a foreign topic, and then a connection. -/
def foreignTrace : List (ClientLabel Float32) :=
  [.event (.data (.ofStrings "weather" "rain")), .event .connected]

theorem foreignTrace_reached :
    ∃ s, ClientRun sampleBoard sampleDevice [] foreignTrace s ∧ s.up = true := by
  have hdispatch : dispatch sampleBoard (Message.ofStrings "weather" "rain").topicText
      (Message.ofStrings "weather" "rain").dataText sampleDevice =
        .ok (sampleDevice, onlineText sampleBoard) := by
    rw [topicText_ofStrings]
    exact dispatch_other sampleBoard (by decide) (by decide) _ _
  obtain ⟨w, _, hmessage, -⟩ :=
    message_returns (fun _ => rfl) (w := bootWorld sampleDevice []) hdispatch
  obtain ⟨heap, b, hconnected, -⟩ := connected_run (P := sampleBoard) (fun _ => rfl) w
  have hfirst : clientStep sampleBoard ⟨bootWorld sampleDevice [], true⟩ _ = some ⟨w, true⟩ :=
    clientStep_ok rfl hmessage
  have hsecond : clientStep sampleBoard ⟨w, true⟩ _ = some ⟨_, true⟩ := clientStep_ok rfl hconnected
  exact ⟨_, Runs.run_cons_some.mpr ⟨_, hfirst, Runs.run_cons_some.mpr ⟨_, hsecond, rfl⟩⟩, rfl⟩

theorem foreignTrace_announced :
    ∃ s, ClientRun sampleBoard sampleDevice [] foreignTrace s ∧
      s.announced = [⟨ofString "online", ofString "esp32_" ++ chipIdText sampleBoard, false⟩] := by
  obtain ⟨s, hrun, -⟩ := foreignTrace_reached
  exact ⟨s, hrun, connections_announced (fun _ => rfl) hrun⟩

theorem foreignTrace_live :
    ∃ s, ClientRun sampleBoard sampleDevice [] foreignTrace s ∧
      s.world.heap.liveTexts = [ofString "weather", ofString "rain"] ∧
      s.world.heap.liveBlocks = 2 := by
  obtain ⟨s, hrun, up⟩ := foreignTrace_reached
  obtain ⟨hlive, hblocks⟩ := heap_balance (fun _ => rfl) hrun up
  have hlost : leakedStrings foreignTrace = [ofString "weather", ofString "rain"] := by
    have hleaked : (Message.ofStrings "weather" "rain").leaked =
        [ofString "weather", ofString "rain"] := by
      rw [Message.leaked, topicText_ofStrings, dataText_ofStrings, if_neg (by decide)]
    exact hleaked
  rw [hlost] at hlive hblocks
  exact ⟨s, hrun, hlive, hblocks⟩

end Ddsu666
