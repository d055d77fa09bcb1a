/- Messages and what they may do: the nine command words with their effects, the requests for
   information, and the event handler as a refinement of both over runs of any length. -/
import Ddsu666.MqttHandler
import Ddsu666.Runs

namespace Ddsu666
open StringHeap

inductive Command where
  | resetWifi
  | restartOs
  | otaUpdate
  | removeUartRecTask
  | changeRecWait1
  | changeRecWait5
  | changeRecWait60
  | clearTotalEngery
  | debugMode
  deriving DecidableEq

/-- The device after a restart or without one. -/
def deviceAfter {F α : Type} : Except (Device F) (Device F × α) → Device F
  | .error d => d
  | .ok (d, _) => d

namespace Command

def all : List Command :=
  [.resetWifi, .restartOs, .otaUpdate, .removeUartRecTask, .changeRecWait1, .changeRecWait5,
    .changeRecWait60, .clearTotalEngery, .debugMode]

def word : Command → String
  | .resetWifi => "reset_wifi"
  | .restartOs => "restart_os"
  | .otaUpdate => "ota_update"
  | .removeUartRecTask => "remove_uart_rec_task"
  | .changeRecWait1 => "change_rec_wait1"
  | .changeRecWait5 => "change_rec_wait5"
  | .changeRecWait60 => "change_rec_wait60"
  | .clearTotalEngery => "clear_total_engery"
  | .debugMode => "debug_mode"

/-- The state in which a command restarts the device, or the state it leaves and its response. -/
def effect {F : Type} (d : Device F) : Command → Except (Device F) (Device F × Response)
  | .resetWifi => .error d.resetWifi
  | .restartOs => .error d
  | .otaUpdate =>
      if d.otaTag ∨ d.canWriteTag = false then .ok (d, .literal "ota update")
      else .error { d with otaTag := true }
  | .removeUartRecTask => .ok (d.removeRecTask, .literal "remove_uart_rec_task")
  | .changeRecWait1 => .ok (d.changeRecWait 1, .literal "change_rec_wait1")
  | .changeRecWait5 => .ok (d.changeRecWait 5, .literal "change_rec_wait5")
  | .changeRecWait60 => .ok (d.changeRecWait 60, .literal "change_rec_wait60")
  | .clearTotalEngery =>
      .ok (d.setIsClearTotalEngery, .literal "clear_total_engery, you should manual reboot")
  | .debugMode =>
      .ok (d.debugSwitch, .literal (if d.debug then "debug_mode off" else "debug_mode on"))

/-- The call into uart.c that a command makes. -/
def taskCall : Command → Option TaskLabel
  | .resetWifi | .restartOs | .otaUpdate | .debugMode => none
  | .removeUartRecTask => some .removeRecTask
  | .changeRecWait1 => some (.changeRecWait 1)
  | .changeRecWait5 => some (.changeRecWait 5)
  | .changeRecWait60 => some (.changeRecWait 60)
  | .clearTotalEngery => some .setIsClearTotalEngery

theorem effect_task {F : Type} (d : Device F) (c : Command) :
    TaskRun d.task c.taskCall.toList (deviceAfter (c.effect d)).task := by
  cases c with
  | otaUpdate =>
      simp only [effect]
      split <;> rfl
  | resetWifi | restartOs | removeUartRecTask | changeRecWait1 | changeRecWait5 | changeRecWait60
  | clearTotalEngery | debugMode => rfl

theorem mem_all (c : Command) : c ∈ all := by
  cases c <;> decide

theorem words_nodup : (all.map fun c => ofString c.word).Nodup := by
  decide

theorem word_injective : Function.Injective fun c : Command => ofString c.word := by
  intro c c' same
  exact List.inj_on_of_nodup_map words_nodup (mem_all c) (mem_all c') same

end Command

/-- The command that a payload spells, if any. -/
def spelled (data : CString) : Option Command :=
  Command.all.find? fun c => data = ofString c.word

theorem spelled_eq_some {data : CString} {c : Command} :
    spelled data = some c ↔ data = ofString c.word := by
  constructor
  · intro found
    simpa using List.find?_some found
  · rintro rfl
    cases hfind : spelled (ofString c.word) with
    | none =>
        have hnone := List.find?_eq_none.mp hfind c (Command.mem_all c)
        exact absurd hnone (by simp)
    | some c' =>
        have hsame : ofString c.word = ofString c'.word := by simpa using List.find?_some hfind
        rw [Command.word_injective hsame]

def Message.topicText (m : Message) : CString := textOf (m.topic.take m.topicLen)

def Message.dataText (m : Message) : CString := textOf (m.data.take m.dataLen)

def commandOf (topic data : CString) : Option Command :=
  if topic = ofString "sysop-set" then spelled data else none

section Requests

variable {F : Type} [FloatArith F] (P : Platform F)

/-- The text in `response_s` after a payload under `sysop-get`. -/
def requested (data : CString) (d : Device F) (old : CString) : CString :=
  if data = ofString "info-sys" then jsonText P (-1) d
  else if data = ofString "info-power" then jsonText P 0 d
  else old

/-- The reply to a message that is no command. -/
def answer (topic data : CString) (d : Device F) : CString :=
  if topic = ofString "sysop-get" then requested P data d (onlineText P) else onlineText P

/-- If the message asks for an object, then its text fits into `response_s`. -/
def RequestFits (topic data : CString) (d : Device F) : Prop :=
  topic = ofString "sysop-get" →
    (data = ofString "info-sys" → JsonFits P (-1) d) ∧
      (data = ofString "info-power" → JsonFits P 0 d)

omit [FloatArith F] in
def Response.text (P : Platform F) : Response → CString
  | .responseS => onlineText P
  | .literal text => ofString text

end Requests

section Tests

variable {F : Type} {p : Ptr} {data : CString} {w : World F}

theorem onWord_run (hread : w.heap.read p = (data, w.heap)) (c : Command) {word : String}
    (hword : word = c.word) (body : Response → Task (World F) Response) (response : Response) :
    onWord p word body response w =
      if spelled data = some c then body response w else .ok (response, w) := by
  subst hword
  simp only [onWord, bind_run, strcmpEq_run hread, pure_run, ite_run, spelled_eq_some,
    decide_eq_true_eq]

theorem createOtaTag_run (w : World F) :
    createOtaTag w =
      if w.device.otaTag ∨ w.device.canWriteTag = false then .ok ((), w)
      else .error { w with device := { w.device with otaTag := true } } := by
  simp only [createOtaTag, bind_run, getDevice, pure_run, ite_run, modifyDevice, espRestart]
  cases w.device.otaTag <;> cases w.device.canWriteTag <;> rfl

theorem debugReply_run (w : World F) :
    debugReply w = .ok (.literal (if w.device.debug then "debug_mode off" else "debug_mode on"),
      { w with device := w.device.debugSwitch }) := by
  simp only [debugReply, bind_run, modifyDevice, getDevice, pure_run, ite_run, Device.debugSwitch]
  cases w.device.debug <;> rfl

end Tests

section Topics

variable {F : Type} {base : Heap} {es : List (CString × Bool)} {fs : List Fault} {w : World F}
  {topic data : CString}

/-- What the chain of tests makes of a payload; without a command nothing is touched. -/
def commandEffect (data : CString) (d : Device F) : Except (Device F) (Device F × Response) :=
  match spelled data with
  | none => .ok (d, .responseS)
  | some c => c.effect d

/-- Under `sysop-set` both strings are freed, and at most one of the nine tests succeeds. -/
theorem sysopSet_run (s : base.Since (es ++ [(topic, true), (data, true)]) fs w.heap) :
    ∃ h h', base.Since (es ++ [(topic, false), (data, false)]) fs h' ∧ h.nulls = w.heap.nulls ∧
      h'.nulls = w.heap.nulls ∧
      sysopSet (some (base.blocks.length + es.length)) (some (base.blocks.length + es.length + 1))
          .responseS w =
        match commandEffect data w.device with
        | .error d => .error { w with heap := h, device := d }
        | .ok (d, response) => .ok (response, { w with heap := h', device := d }) := by
  obtain ⟨h, hfree⟩ : ∃ h, w.heap.free (some (base.blocks.length + es.length)) = h := ⟨_, rfl⟩
  have htopic : base.Since (es ++ [(topic, false), (data, true)]) fs h := hfree ▸ s.free es
  have hnulls : h.nulls = w.heap.nulls := hfree ▸ Heap.nulls_free _ _
  have hread := htopic.read_second es
  refine ⟨h, _, htopic.free_second es, hnulls, by rw [Heap.nulls_free, hnulls], ?_⟩
  have test : ∀ (c : Command) (word : String), word = c.word → ∀ body response (d : Device F),
      onWord (some (base.blocks.length + es.length + 1)) word body response
          { w with heap := h, device := d } =
        if spelled data = some c then body response { w with heap := h, device := d }
        else .ok (response, { w with heap := h, device := d }) :=
    fun c word hword body response d => onWord_run hread c hword body response
  have reset := test .resetWifi "reset_wifi" rfl
  have restart := test .restartOs "restart_os" rfl
  have ota := test .otaUpdate "ota_update" rfl
  have remove := test .removeUartRecTask "remove_uart_rec_task" rfl
  have wait1 := test .changeRecWait1 "change_rec_wait1" rfl
  have wait5 := test .changeRecWait5 "change_rec_wait5" rfl
  have wait60 := test .changeRecWait60 "change_rec_wait60" rfl
  have clear := test .clearTotalEngery "clear_total_engery" rfl
  have debug := test .debugMode "debug_mode" rfl
  cases hcommand : spelled data with
  | none =>
      simp only [sysopSet, bind_run, pure_run, free, hfree, commandEffect, hcommand, reset, restart,
        ota, remove, wait1, wait5, wait60, clear, debug, reduceCtorEq, if_false]
  | some c =>
      by_cases tag : w.device.otaTag = true ∨ w.device.canWriteTag = false
      all_goals
        cases c
        all_goals
          simp only [sysopSet, bind_run, pure_run, free, hfree, commandEffect, hcommand, reset,
            restart, ota, remove, wait1, wait5, wait60, clear, debug, Option.some.injEq,
            reduceCtorEq, if_false, if_true, wifiReset, espRestart, createOtaTag_run, tag,
            debugReply_run, modifyDevice, Command.effect]
          try rfl

variable [FloatArith F] {P : Platform F}

/-- Payloads that ask for an object under `sysop-get`. -/
def AsksInfo (data : CString) : Prop := data = ofString "info-sys" ∨ data = ofString "info-power"

/-- Under `sysop-get` both strings and all that was obtained in between are freed. -/
theorem sysopGet_run (s : base.Since (es ++ [(topic, true), (data, true)]) fs w.heap)
    (granted : AsksInfo data →
      P.grants w.heap.requests = true ∧ P.grants (w.heap.requests + 1) = true) :
    ∃ h b o more, sysopGet P (some (base.blocks.length + es.length))
          (some (base.blocks.length + es.length + 1)) w =
        .ok ((), { w with heap := h, responseS := b, overrun := o }) ∧
      (RequestFits P (ofString "sysop-get") data w.device →
        textOf b.1 = requested P data w.device (textOf w.responseS.1) ∧ o = w.overrun) ∧
      base.Since (es ++ (topic, false) :: (data, false) :: more) fs h ∧
      (∀ e ∈ more, e.2 = false) ∧ h.nulls = w.heap.nulls := by
  obtain ⟨h, hfree⟩ : ∃ h, w.heap.free (some (base.blocks.length + es.length)) = h := ⟨_, rfl⟩
  have htopic : base.Since (es ++ [(topic, false), (data, true)]) fs h := hfree ▸ s.free es
  have hnulls : h.nulls = w.heap.nulls := hfree ▸ Heap.nulls_free _ _
  have hrequests : h.requests = w.heap.requests := hfree ▸ Heap.requests_free _ _
  have hfirst : ∀ literal, strcmpEq (some (base.blocks.length + es.length + 1)) literal
      { w with heap := h } = .ok (decide (data = ofString literal), { w with heap := h }) :=
    strcmpEq_run (htopic.read_second es)
  have hdistinct : ofString "info-sys" ≠ ofString "info-power" := by decide
  rw [← hrequests] at granted
  by_cases sys : data = ofString "info-sys"
  · obtain ⟨hroot, hprint⟩ := granted (.inl sys)
    obtain ⟨h', b, o, hrun, hfit, hsince, hnulls'⟩ :=
      answerWith_run (w := { w with heap := h }) htopic hroot hprint (-1)
    rw [List.append_assoc] at hsince
    have hsecond : ∀ literal, strcmpEq (some (base.blocks.length + es.length + 1)) literal
        { w with heap := h', responseS := b, overrun := o } =
          .ok (decide (data = ofString literal),
            { w with heap := h', responseS := b, overrun := o }) :=
      strcmpEq_run (hsince.read_second es)
    refine ⟨_, b, o, _, ?_, ?_, hsince.free_second es, ?_, ?_⟩
    · subst sys
      simp only [sysopGet, bind_run, ite_run, free, hfree, hfirst, hsecond, hrun, hdistinct,
        decide_true, decide_false, reduceCtorEq, if_true, if_false]
    · intro fits
      rw [requested, if_pos sys]
      exact hfit ((fits rfl).1 sys)
    · simp
    · rw [Heap.nulls_free, hnulls', hnulls]
  · by_cases power : data = ofString "info-power"
    · obtain ⟨hroot, hprint⟩ := granted (.inr power)
      obtain ⟨h', b, o, hrun, hfit, hsince, hnulls'⟩ :=
        answerWith_run (w := { w with heap := h }) htopic hroot hprint 0
      rw [List.append_assoc] at hsince
      refine ⟨_, b, o, _, ?_, ?_, hsince.free_second es, ?_, ?_⟩
      · subst power
        simp only [sysopGet, bind_run, ite_run, free, hfree, hfirst, hrun, sys, decide_true,
          decide_false, reduceCtorEq, if_true, if_false]
      · intro fits
        rw [requested, if_neg sys, if_pos power]
        exact hfit ((fits rfl).2 power)
      · simp
      · rw [Heap.nulls_free, hnulls', hnulls]
    · refine ⟨_, w.responseS, w.overrun, [], ?_, ?_, htopic.free_second es, ?_, ?_⟩
      · simp only [sysopGet, bind_run, ite_run, free, hfree, hfirst, sys, power, decide_false,
          reduceCtorEq, if_false]
      · intro _
        rw [requested, if_neg sys, if_neg power]
        exact ⟨rfl, rfl⟩
      · simp
      · rw [Heap.nulls_free, hnulls]

/-- Both texts of a message are on the heap and live when the tests begin. -/
theorem obtainTexts_run (s : base.Since es fs w.heap) (m : Message)
    (granted : P.grants w.heap.requests = true)
    (granted' : P.grants (w.heap.requests + 1) = true) :
    ∃ h, base.Since (es ++ [(m.topicText, true), (m.dataText, true)]) fs h ∧
      h.requests = w.heap.requests + 2 ∧ h.nulls = w.heap.nulls ∧
      mqttEventData P m w =
        handleTexts P (some (base.blocks.length + es.length))
          (some (base.blocks.length + es.length + 1)) { w with heap := h } := by
  obtain ⟨h, htopic, hsince, hrequests, hnulls⟩ :=
    getLenStr_run s granted m.topic m.topicLen
  obtain ⟨h', hdata, hsince', hrequests', hnulls'⟩ :=
    getLenStr_run (w := { w with heap := h }) hsince (by rw [hrequests]; exact granted')
      m.data m.dataLen
  rw [List.append_assoc] at hsince'
  refine ⟨h', hsince', by rw [hrequests', hrequests], by rw [hnulls', hnulls], ?_⟩
  rw [mqttEventData, bind_run, htopic]
  simp only [bind_run, hdata, List.length_append, List.length_singleton, Nat.add_assoc]

/-- The publication that answers a message. -/
def reply (text : CString) : Publication := ⟨ofString "esp32_response", text, true⟩

/-- Under `sysop-get` the topic is compared once more after it was freed. -/
theorem handleTexts_get
    (s : base.Since (es ++ [(ofString "sysop-get", true), (data, true)]) fs w.heap)
    (granted : AsksInfo data →
      P.grants w.heap.requests = true ∧ P.grants (w.heap.requests + 1) = true) :
    ∃ h b o more, handleTexts P (some (base.blocks.length + es.length))
          (some (base.blocks.length + es.length + 1)) w =
        .ok ((), { w with
          heap := h, responseS := b, overrun := o,
          published := w.published ++ [reply (textOf b.1)] }) ∧
      (RequestFits P (ofString "sysop-get") data w.device →
        textOf b.1 = requested P data w.device (textOf w.responseS.1) ∧ o = w.overrun) ∧
      base.Since more (fs ++ [.useAfterFree (base.blocks.length + es.length)]) h ∧
      h.nulls = w.heap.nulls := by
  have hfirst : ∀ literal, strcmpEq (some (base.blocks.length + es.length)) literal w =
      .ok (decide (ofString "sysop-get" = ofString literal), w) :=
    strcmpEq_run (s.read_live es)
  have hdistinct : ofString "sysop-get" ≠ ofString "sysop-set" := by decide
  obtain ⟨h, b, o, more, hrun, hfit, hsince, -, hnulls⟩ := sysopGet_run s granted
  have hsecond := strcmpEq_run (p := some (base.blocks.length + es.length))
    (w := { w with heap := h, responseS := b, overrun := o }) (hsince.read_freed es) "sysop-set"
  refine ⟨_, b, o, _, ?_, hfit, hsince.report_lifetime rfl, ?_⟩
  · simp only [handleTexts, bind_run, ite_run, pure_run, hfirst, hrun, hsecond, hdistinct,
      decide_true, decide_false, reduceCtorEq, if_true, if_false, espMqttClientPublish]
    rfl
  · rw [Heap.nulls_report, if_neg (by simp), Nat.add_zero, hnulls]

/-- Under `sysop-set` the first test fails and the second hands over to the commands. -/
theorem handleTexts_set
    (s : base.Since (es ++ [(ofString "sysop-set", true), (data, true)]) fs w.heap) :
    ∃ h h', base.Since (es ++ [(ofString "sysop-set", false), (data, false)]) fs h' ∧
      h.nulls = w.heap.nulls ∧ h'.nulls = w.heap.nulls ∧
      handleTexts P (some (base.blocks.length + es.length))
          (some (base.blocks.length + es.length + 1)) w =
        match commandEffect data w.device with
        | .error d => .error { w with heap := h, device := d }
        | .ok (d, response) => .ok ((), { w with
            heap := h', device := d,
            published := w.published ++ [reply (match response with
              | .responseS => textOf w.responseS.1
              | .literal text => ofString text)] }) := by
  have hfirst : ∀ literal, strcmpEq (some (base.blocks.length + es.length)) literal w =
      .ok (decide (ofString "sysop-set" = ofString literal), w) :=
    strcmpEq_run (s.read_live es)
  have hdistinct : ofString "sysop-set" ≠ ofString "sysop-get" := by decide
  obtain ⟨h, h', hsince, hnulls, hnulls', hrun⟩ := sysopSet_run s
  refine ⟨h, h', hsince, hnulls, hnulls', ?_⟩
  simp only [handleTexts, bind_run, ite_run, pure_run, hfirst, hrun, hdistinct, decide_true,
    decide_false, reduceCtorEq, if_true, if_false]
  cases commandEffect data w.device with
  | error d => rfl
  | ok result => rfl

/-- Under any other topic nothing is freed. -/
theorem handleTexts_other
    (s : base.Since (es ++ [(topic, true), (data, true)]) fs w.heap)
    (get : topic ≠ ofString "sysop-get") (set : topic ≠ ofString "sysop-set") :
    handleTexts P (some (base.blocks.length + es.length))
        (some (base.blocks.length + es.length + 1)) w =
      .ok ((), { w with published := w.published ++ [reply (textOf w.responseS.1)] }) := by
  have hfirst : ∀ literal, strcmpEq (some (base.blocks.length + es.length)) literal w =
      .ok (decide (topic = ofString literal), w) :=
    strcmpEq_run (s.read_live es)
  simp only [handleTexts, bind_run, ite_run, pure_run, hfirst, get, set, decide_false,
    reduceCtorEq, if_false]
  rfl

end Topics

section Messages

variable {F : Type} [FloatArith F]

/-- What a message does: the state in which it restarts the device, or the state it leaves and
the text of its reply. Neither the heap nor `response_s` is consulted. -/
def dispatch (P : Platform F) (topic data : CString) (d : Device F) :
    Except (Device F) (Device F × CString) :=
  match commandOf topic data with
  | none => .ok (d, answer P topic data d)
  | some c =>
      match c.effect d with
      | .error d => .error d
      | .ok (d, response) => .ok (d, response.text P)

theorem dispatch_get (P : Platform F) (data : CString) (d : Device F) :
    dispatch P (ofString "sysop-get") data d = .ok (d, requested P data d (onlineText P)) := by
  have hdistinct : ofString "sysop-get" ≠ ofString "sysop-set" := by decide
  simp only [dispatch, commandOf, if_neg hdistinct, answer, if_true]

theorem dispatch_set (P : Platform F) (data : CString) (d : Device F) :
    dispatch P (ofString "sysop-set") data d =
      match commandEffect data d with
      | .error d => .error d
      | .ok (d, response) => .ok (d, response.text P) := by
  have hdistinct : ofString "sysop-set" ≠ ofString "sysop-get" := by decide
  simp only [dispatch, commandOf, if_true, commandEffect]
  cases spelled data with
  | none => simp only [answer, if_neg hdistinct, Response.text]
  | some c => rfl

theorem dispatch_other (P : Platform F) {topic : CString} (get : topic ≠ ofString "sysop-get")
    (set : topic ≠ ofString "sysop-set") (data : CString) (d : Device F) :
    dispatch P topic data d = .ok (d, onlineText P) := by
  simp only [dispatch, commandOf, if_neg set, answer, if_neg get]

/-- Into the UART task a message makes at most the one call of its command. -/
theorem dispatch_task (P : Platform F) (topic data : CString) (d : Device F) :
    TaskRun d.task ((commandOf topic data).bind Command.taskCall).toList
      (deviceAfter (dispatch P topic data d)).task := by
  rw [dispatch]
  cases commandOf topic data with
  | none => rfl
  | some c =>
      have htask := c.effect_task d
      simp only [Option.bind_some]
      cases heffect : c.effect d with
      | error d' => rwa [heffect] at htask
      | ok result => rwa [heffect] at htask

/-- The handler does what `dispatch` says, whatever the heap and `response_s` held before; its
strings are handled properly under one topic only. -/
theorem message_run {P : Platform F} (granted : ∀ n, P.grants n = true) (w : World F)
    (m : Message) :
    match dispatch P m.topicText m.dataText w.device with
    | .error d => ∃ h b, mqttEventHandler P (.data m) w =
        .error { w with heap := h, responseS := b, device := d }
    | .ok (d, text) => ∃ h b o t, mqttEventHandler P (.data m) w =
        .ok ((), { w with
          heap := h, responseS := b, overrun := o, device := d,
          published := w.published ++ [reply t] }) ∧
        (RequestFits P m.topicText m.dataText w.device → t = text ∧ o = w.overrun) ∧
        (w.heap.Disciplined h ↔ m.topicText = ofString "sysop-set") := by
  obtain ⟨h, b, hreset, honline, hchip⟩ :=
    resetResponse_run (Heap.Since.refl w.heap) (granted _)
  obtain ⟨h', htexts, -, -, hdata⟩ :=
    obtainTexts_run (w := { w with heap := h, responseS := b }) hchip m (granted _) (granted _)
  have hreach : mqttEventHandler P (.data m) w =
      mqttEventData P m { w with heap := h, responseS := b } := by
    simp only [mqttEventHandler, bind_run, hreset]
  have hhandler := hreach.trans hdata
  rw [hhandler]
  by_cases get : m.topicText = ofString "sysop-get"
  · rw [get] at htexts ⊢
    obtain ⟨h'', b', o, es, hrun, hfit, hsince, -⟩ :=
      handleTexts_get (P := P) (w := { w with heap := h', responseS := b }) htexts
        fun _ => ⟨granted _, granted _⟩
    rw [honline] at hfit
    rw [dispatch_get]
    refine ⟨h'', b', o, _, hrun, hfit, ?_⟩
    rw [hsince.disciplined_iff]
    have hdistinct : ofString "sysop-get" ≠ ofString "sysop-set" := by decide
    simp [hdistinct]
  · by_cases set : m.topicText = ofString "sysop-set"
    · rw [set] at htexts ⊢
      obtain ⟨h₁, h₂, hsince, -, -, hrun⟩ :=
        handleTexts_set (P := P) (w := { w with heap := h', responseS := b }) htexts
      rw [hrun, dispatch_set]
      cases commandEffect m.dataText w.device with
      | error d => exact ⟨h₁, b, rfl⟩
      | ok result =>
          obtain ⟨d, response⟩ := result
          refine ⟨h₂, b, w.overrun, _, rfl, ?_, ?_⟩
          · intro _
            refine ⟨?_, rfl⟩
            cases response with
            | responseS => exact honline
            | literal text => rfl
          · rw [hsince.disciplined_iff]
            simp
    · have hrun := handleTexts_other (P := P) (w := { w with heap := h', responseS := b })
        htexts get set
      rw [hrun, dispatch_other P get set]
      refine ⟨h', b, w.overrun, _, rfl, fun _ => ⟨honline, rfl⟩, ?_⟩
      rw [htexts.disciplined_iff]
      simp [set]

section Outcomes

variable {P : Platform F} (granted : ∀ n, P.grants n = true) {w : World F} {m : Message}
  {d : Device F}

include granted

theorem message_restarts (h : dispatch P m.topicText m.dataText w.device = .error d) :
    ∃ w', mqttEventHandler P (.data m) w = .error w' ∧ w'.device = d ∧
      w'.published = w.published := by
  have hrun := message_run granted w m
  rw [h] at hrun
  obtain ⟨heap, b, hrestart⟩ := hrun
  exact ⟨_, hrestart, rfl, rfl⟩

theorem message_returns {text : CString}
    (h : dispatch P m.topicText m.dataText w.device = .ok (d, text)) :
    ∃ w' t, mqttEventHandler P (.data m) w = .ok ((), w') ∧ w'.device = d ∧
      w'.published = w.published ++ [reply t] ∧
      (RequestFits P m.topicText m.dataText w.device → t = text ∧ w'.overrun = w.overrun) ∧
      (w.heap.Disciplined w'.heap ↔ m.topicText = ofString "sysop-set") := by
  have hrun := message_run granted w m
  rw [h] at hrun
  obtain ⟨heap, b, o, t, hreturn, hfit, hlive⟩ := hrun
  exact ⟨_, t, hreturn, rfl, rfl, hfit, hlive⟩

end Outcomes

end Messages

/-- A message whose two texts are delivered in full. -/
def Message.ofStrings (topic data : String) : Message :=
  let bytes s := (ofString s).1
  ⟨bytes topic, (bytes topic).length, bytes data, (bytes data).length⟩

@[simp] theorem topicText_ofStrings (topic data : String) :
    (Message.ofStrings topic data).topicText = ofString topic := by
  simp only [Message.ofStrings, Message.topicText, List.take_length, textOf_bytes]

@[simp] theorem dataText_ofStrings (topic data : String) :
    (Message.ofStrings topic data).dataText = ofString data := by
  simp only [Message.ofStrings, Message.dataText, List.take_length, textOf_bytes]

end Ddsu666
