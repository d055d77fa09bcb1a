/- The event handler of mqtt4.c with the functions of tools.c and web_handler.c it calls, every
   string on the heap and every response in the shared buffer. -/
import Ddsu666.WebHandler

namespace Ddsu666
open StringHeap

/-- The array `response_s`. -/
abbrev ResponseBuffer := { bytes : List UInt8 // bytes.length = 5120 }

def ResponseBuffer.put (b : ResponseBuffer) (t : CString) (fits : t.stored.length ≤ 5120) :
    ResponseBuffer :=
  ⟨overwrite b.1 0 t.stored, by rw [length_overwrite (by rw [b.2]; omega), b.2]⟩

structure Publication where
  topic : CString
  payload : CString
  retain : Bool
  deriving DecidableEq

structure World (F : Type) where
  heap : Heap
  responseS : ResponseBuffer
  /-- A copy into `response_s` did not fit. -/
  overrun : Bool
  mqttDisconnectCount : ℤ
  device : Device F
  published : List Publication

/-- Statements of a task. A restart ends them in the state it finds. -/
abbrev Task (σ : Type) := StateT σ (Except σ)

def espRestart {σ α : Type} : Task σ α := fun w => .error w

/-- What the variable `response` points to. -/
inductive Response where
  | responseS
  | literal (text : String)
  deriving DecidableEq

/-- The arguments of `MQTT_EVENT_DATA`: memory from the two pointers on, and the two lengths. -/
structure Message where
  topic : List UInt8
  topicLen : ℕ
  data : List UInt8
  dataLen : ℕ
  deriving DecidableEq

inductive MqttEvent where
  | connected
  | disconnected
  | data (message : Message)
  | other
  deriving DecidableEq

def mqttDisconnectCountMax : ℤ := 5

section Memory

variable {F : Type}

def calloc (P : Platform F) (size : ℕ) : Task (World F) Ptr := fun w =>
  .ok ((w.heap.calloc P.grants size).1, { w with heap := (w.heap.calloc P.grants size).2 })

def free (p : Ptr) : Task (World F) Unit := fun w =>
  .ok ((), { w with heap := w.heap.free p })

def readText (p : Ptr) : Task (World F) CString := fun w =>
  .ok ((w.heap.read p).1, { w with heap := (w.heap.read p).2 })

def store (p : Ptr) (index : ℕ) (byte : UInt8) : Task (World F) Unit := fun w =>
  .ok ((), { w with heap := w.heap.write index [byte] p })

/-- `snprintf(p, size, ..)` into a block of the heap. -/
def snprintf (p : Ptr) (size : ℕ) (t : CString) : Task (World F) Unit := fun w =>
  .ok ((), { w with heap := w.heap.write 0 (t.truncate (size - 1)).stored p })

/-- `strcmp(p, literal) == 0` -/
def strcmpEq (p : Ptr) (literal : String) : Task (World F) Bool := do
  return (← readText p) = ofString literal

/-- The argument of a `%s`; a null pointer prints as a text of its own. -/
def printArg : Ptr → Task (World F) CString
  | none => return ofString "(null)"
  | some p => readText (some p)

def putResponse (t : CString) : Task (World F) Unit := fun w =>
  if fits : t.stored.length ≤ 5120 then .ok ((), { w with responseS := w.responseS.put t fits })
  else .ok ((), { w with overrun := true })

/-- `strcpy(response, p)` -/
def strcpyResponse (p : Ptr) : Task (World F) Unit := do
  putResponse (← readText p)

def getDevice : Task (World F) (Device F) := fun w => .ok (w.device, w)

def modifyDevice (f : Device F → Device F) : Task (World F) Unit := fun w =>
  .ok ((), { w with device := f w.device })

def espMqttClientPublish (topic : String) (response : Response) (retain : Bool) :
    Task (World F) Unit := fun w =>
  let payload := match response with
    | .responseS => textOf w.responseS.1
    | .literal text => ofString text
  .ok ((), { w with published := w.published ++ [⟨ofString topic, payload, retain⟩] })

end Memory

section Handler

variable {F : Type} [FloatArith F] (P : Platform F)

/-- `len` is incremented before it serves as the index of the terminator. -/
def getLenStr (original : List UInt8) (len : ℕ) : Task (World F) Ptr := do
  let len := len + 1
  let dest ← calloc P len
  snprintf dest len (textOf original)
  store dest len 0
  return dest

def getChipId : Task (World F) Ptr := do
  let macStrLen := 7
  let macStr ← calloc P macStrLen
  if macStr = none then
    return none
  snprintf macStr macStrLen (chipIdText P)
  store macStr macStrLen 0
  return macStr

/-- `cJSON_Print`, which hands out a string of the size it needs. -/
def cJSONPrint (members : List (CString × CString)) : Task (World F) Ptr := do
  let text := P.cJSONPrint members
  let response ← calloc P (text.1.length + 1)
  if response = none then
    return none
  snprintf response (text.1.length + 1) text
  return response

/-- The common frame of `get_power_info` and `get_info_handle`; the object itself is a block
without text. -/
def getJson (members : Device F → List (CString × CString)) : Task (World F) Ptr := do
  let root ← calloc P 0
  if root = none then
    return none
  let response ← cJSONPrint P (members (← getDevice))
  free root
  return response

def getPowerInfo : Task (World F) Ptr := getJson P (powerMembers P)

def getInfoHandle : Task (World F) Ptr := getJson P (infoMembers P)

def indexHandler (key : ℤ) : Task (World F) Ptr :=
  if key = 0 then getPowerInfo P else getInfoHandle P

/-- A request for information: the printed object replaces the text in `response_s`. -/
def answerWith (key : ℤ) : Task (World F) Unit := do
  let responseT ← indexHandler P key
  strcpyResponse responseT
  free responseT

def sysopGet (cTopic cData : Ptr) : Task (World F) Unit := do
  free cTopic
  if ← strcmpEq cData "info-sys" then
    answerWith P (-1)
  if ← strcmpEq cData "info-power" then
    answerWith P 0
  free cData

omit [FloatArith F] in
/-- One of the tests of the payload that follow each other without `else`. -/
def onWord (cData : Ptr) (word : String) (body : Response → Task (World F) Response)
    (response : Response) : Task (World F) Response := do
  if ← strcmpEq cData word then body response else return response

end Handler

section Commands

variable {F : Type}

def Device.resetWifi (d : Device F) : Device F :=
  { d with wifi := ⟨ofString "", ofString ""⟩ }

def Device.removeRecTask (d : Device F) : Device F :=
  { d with task := { d.task with loop := false } }

def Device.changeRecWait (sec : ℤ) (d : Device F) : Device F :=
  { d with task := { d.task with vars := Ddsu666.changeRecWait sec d.task.vars } }

def Device.setIsClearTotalEngery (d : Device F) : Device F :=
  { d with task := { d.task with isClear := true } }

def Device.debugSwitch (d : Device F) : Device F := { d with debug := !d.debug }

def wifiReset {α : Type} : Task (World F) α := do
  modifyDevice Device.resetWifi
  espRestart

/-- A tag that exists or cannot be written makes the function return without a word. -/
def createOtaTag : Task (World F) Unit := do
  if (← getDevice).otaTag then
    return
  if !(← getDevice).canWriteTag then
    return
  modifyDevice fun d => { d with otaTag := true }
  espRestart

def debugReply : Task (World F) Response := do
  modifyDevice Device.debugSwitch
  if (← getDevice).debug then return .literal "debug_mode on"
  else return .literal "debug_mode off"

def sysopSet (cTopic cData : Ptr) (response : Response) : Task (World F) Response := do
  free cTopic
  let response ← onWord cData "reset_wifi" (fun _ => wifiReset) response
  let response ← onWord cData "restart_os" (fun _ => espRestart) response
  let response ← onWord cData "ota_update" (fun _ => do
    createOtaTag
    return .literal "ota update") response
  let response ← onWord cData "remove_uart_rec_task" (fun _ => do
    modifyDevice Device.removeRecTask
    return .literal "remove_uart_rec_task") response
  let response ← onWord cData "change_rec_wait1" (fun _ => do
    modifyDevice (Device.changeRecWait 1)
    return .literal "change_rec_wait1") response
  let response ← onWord cData "change_rec_wait5" (fun _ => do
    modifyDevice (Device.changeRecWait 5)
    return .literal "change_rec_wait5") response
  let response ← onWord cData "change_rec_wait60" (fun _ => do
    modifyDevice (Device.changeRecWait 60)
    return .literal "change_rec_wait60") response
  let response ← onWord cData "clear_total_engery" (fun _ => do
    modifyDevice Device.setIsClearTotalEngery
    return .literal "clear_total_engery, you should manual reboot") response
  let response ← onWord cData "debug_mode" (fun _ => debugReply) response
  free cData
  return response

variable [FloatArith F] (P : Platform F)

/-- `snprintf(response_s, 52, "esp32_%s", chip_id)` with the chip id obtained and freed again. -/
def resetResponse : Task (World F) Unit := do
  let chipId ← getChipId P
  putResponse ((ofString "esp32_" ++ (← printArg chipId)).truncate 51)
  free chipId

/-- The two tests of the topic, and the publication of what `response` points to. -/
def handleTexts (cTopic cData : Ptr) : Task (World F) Unit := do
  if ← strcmpEq cTopic "sysop-get" then
    sysopGet P cTopic cData
  let response ← if ← strcmpEq cTopic "sysop-set" then sysopSet cTopic cData .responseS
    else pure .responseS
  espMqttClientPublish "esp32_response" response true

def mqttEventData (message : Message) : Task (World F) Unit := do
  let cTopic ← getLenStr P message.topic message.topicLen
  let cData ← getLenStr P message.data message.dataLen
  handleTexts P cTopic cData

def mqttEventHandler (event : MqttEvent) : Task (World F) Unit := do
  resetResponse P
  match event with
  | .connected =>
      modify fun w => { w with mqttDisconnectCount := 0 }
      espMqttClientPublish "online" .responseS false
  | .disconnected =>
      modify fun w => { w with mqttDisconnectCount := w.mqttDisconnectCount + 1 }
      if (← get).mqttDisconnectCount = mqttDisconnectCountMax then
        espRestart
  | .data message => mqttEventData P message
  | .other => return

end Commands

/-- Memory at boot. -/
def bootWorld {F : Type} (d : Device F) (published : List Publication) : World F where
  heap := ⟨[], 0, []⟩
  responseS := ⟨List.replicate 5120 0, List.length_replicate⟩
  overrun := false
  mqttDisconnectCount := 0
  device := d
  published := published

theorem bind_run {σ α β : Type} (x : Task σ α) (f : α → Task σ β) (w : σ) :
    (x >>= f) w = (match x w with
      | .ok (a, w) => f a w
      | .error w => .error w) := by
  simp only [bind, StateT.bind, Except.bind]
  cases x w <;> rfl

theorem pure_run {σ α : Type} (a : α) (w : σ) : (pure a : Task σ α) w = .ok (a, w) := rfl

theorem get_run {σ : Type} (w : σ) : (get : Task σ σ) w = .ok (w, w) := rfl

theorem modify_run {σ : Type} (f : σ → σ) (w : σ) :
    (modify f : Task σ Unit) w = .ok ((), f w) := rfl

theorem ite_run {σ α : Type} (c : Prop) [Decidable c] (x y : Task σ α) (w : σ) :
    (if c then x else y) w = if c then x w else y w := apply_ite (fun z => z w) c x y

/-- The text that `response_s` holds before any request is looked at. -/
def onlineText {F : Type} (P : Platform F) : CString :=
  (ofString "esp32_" ++ (chipIdText P).truncate 6).truncate 51

/-- What the printed object of a request will be. -/
def jsonText {F : Type} [FloatArith F] (P : Platform F) (key : ℤ) (d : Device F) : CString :=
  P.cJSONPrint (if key = 0 then powerMembers P d else infoMembers P d)

/-- The printed object fits into `response_s`. -/
def JsonFits {F : Type} [FloatArith F] (P : Platform F) (key : ℤ) (d : Device F) : Prop :=
  (jsonText P key d).1.length < 5120

theorem textOf_put (b : ResponseBuffer) (t : CString) (fits : t.stored.length ≤ 5120) :
    textOf (b.put t fits).1 = t := textOf_overwrite b.1 t

theorem strcmpEq_run {F : Type} {p : Ptr} {t : CString} {h : Heap} {w : World F}
    (hread : w.heap.read p = (t, h)) (literal : String) :
    strcmpEq p literal w = .ok (decide (t = ofString literal), { w with heap := h }) := by
  simp only [strcmpEq, readText, bind_run, pure_run, hread]

theorem putResponse_run {F : Type} (t : CString) (w : World F) :
    ∃ b o, putResponse t w = .ok ((), { w with responseS := b, overrun := o }) ∧
      (t.1.length < 5120 → textOf b.1 = t ∧ o = w.overrun) := by
  by_cases hstored : t.stored.length ≤ 5120
  · exact ⟨_, w.overrun, dif_pos hstored, fun _ => ⟨textOf_put _ _ _, rfl⟩⟩
  · refine ⟨w.responseS, true, dif_neg hstored, ?_⟩
    intro fits
    rw [CString.stored, List.length_append] at hstored
    exact absurd fits hstored

section Specifications

variable {F : Type} {P : Platform F} {base : Heap} {es : List (CString × Bool)} {fs : List Fault}
  {w : World F} (s : base.Since es fs w.heap) (granted : P.grants w.heap.requests = true)

include s granted

theorem getLenStr_run (original : List UInt8) (len : ℕ) :
    ∃ h, getLenStr P original len w =
        .ok (some (base.blocks.length + es.length), { w with heap := h }) ∧
      base.Since (es ++ [(textOf (original.take len), true)]) fs h ∧
      h.requests = w.heap.requests + 1 ∧ h.nulls = w.heap.nulls := by
  have hptr := (s.calloc granted (len + 1)).1
  have hcopied := s.copied_past granted (textOf original) len 0
  rw [textOf_truncate] at hcopied
  refine ⟨_, ?_, hcopied, by simp, by simp⟩
  simp only [getLenStr, bind_run, pure_run, calloc, snprintf, store, hptr, Nat.add_sub_cancel,
    textOf_truncate]

theorem getChipId_run :
    ∃ h, getChipId P w = .ok (some (base.blocks.length + es.length), { w with heap := h }) ∧
      base.Since (es ++ [((chipIdText P).truncate 6, true)]) fs h := by
  have hptr := (s.calloc granted 7).1
  refine ⟨_, ?_, s.copied_past granted (chipIdText P) 6 0⟩
  simp only [getChipId, bind_run, pure_run, ite_run, calloc, snprintf, store, hptr, reduceCtorEq,
    if_false]

theorem resetResponse_run :
    ∃ h b, resetResponse P w = .ok ((), { w with heap := h, responseS := b }) ∧
      textOf b.1 = onlineText P ∧
      base.Since (es ++ [((chipIdText P).truncate 6, false)]) fs h := by
  obtain ⟨h, hchip, hsince⟩ := getChipId_run s granted
  have hread := hsince.read_live _
  have hfits : (onlineText P).1.length < 5120 :=
    Nat.lt_of_le_of_lt (List.length_take_le 51 _) (by decide)
  obtain ⟨b, o, hput, hfit⟩ := putResponse_run (onlineText P) { w with heap := h }
  obtain ⟨htext, rfl⟩ := hfit hfits
  refine ⟨_, b, ?_, htext, hsince.free _⟩
  rw [onlineText] at hput
  simp only [resetResponse, bind_run, hchip, printArg, readText, hread, hput, free]

theorem cJSONPrint_run (members : List (CString × CString)) :
    ∃ h, cJSONPrint P members w =
        .ok (some (base.blocks.length + es.length), { w with heap := h }) ∧
      base.Since (es ++ [(P.cJSONPrint members, true)]) fs h ∧ h.nulls = w.heap.nulls := by
  have hptr := (s.calloc granted ((P.cJSONPrint members).1.length + 1)).1
  have hcopied := s.copied granted (P.cJSONPrint members) (P.cJSONPrint members).1.length
  have hwhole : (P.cJSONPrint members).truncate (P.cJSONPrint members).1.length =
      P.cJSONPrint members := Subtype.ext (List.take_length ..)
  rw [hwhole] at hcopied
  refine ⟨_, ?_, hcopied, by simp⟩
  simp only [cJSONPrint, bind_run, pure_run, ite_run, calloc, snprintf, hptr, reduceCtorEq,
    if_false, Nat.add_sub_cancel, hwhole]

variable (granted' : P.grants (w.heap.requests + 1) = true)

include granted'

/-- The object is freed before the printed string is handed out. -/
theorem getJson_run (members : Device F → List (CString × CString)) :
    ∃ h, getJson P members w =
        .ok (some (base.blocks.length + es.length + 1), { w with heap := h }) ∧
      base.Since (es ++ [(textOf [], false), (P.cJSONPrint (members w.device), true)]) fs h ∧
      h.nulls = w.heap.nulls := by
  obtain ⟨hptr, hroot⟩ := s.calloc granted 0
  obtain ⟨h, hprint, hsince, hnulls⟩ :=
    cJSONPrint_run (w := { w with heap := (w.heap.calloc P.grants 0).2 })
      hroot (by simpa using granted') (members w.device)
  rw [List.append_assoc] at hsince
  refine ⟨_, ?_, hsince.free _, by simpa using hnulls⟩
  simp only [getJson, bind_run, pure_run, ite_run, calloc, hptr, getDevice, hprint, free,
    reduceCtorEq, if_false, List.length_append, List.length_singleton, Nat.add_assoc]

variable [FloatArith F]

theorem answerWith_run (key : ℤ) :
    ∃ h b o, answerWith P key w = .ok ((), { w with heap := h, responseS := b, overrun := o }) ∧
      (JsonFits P key w.device → textOf b.1 = jsonText P key w.device ∧ o = w.overrun) ∧
      base.Since (es ++ [(textOf [], false), (jsonText P key w.device, false)]) fs h ∧
      h.nulls = w.heap.nulls := by
  have hjson : ∃ h, indexHandler P key w =
        .ok (some (base.blocks.length + (es.length + 1)), { w with heap := h }) ∧
      base.Since (es ++ [(textOf [], false), (jsonText P key w.device, true)]) fs h ∧
      h.nulls = w.heap.nulls := by
    rw [jsonText, indexHandler]
    split
    · exact getJson_run s granted granted' (powerMembers P)
    · exact getJson_run s granted granted' (infoMembers P)
  obtain ⟨h, hrun, hsince, hnulls⟩ := hjson
  have hassoc : es ++ [(textOf [], false), (jsonText P key w.device, true)] =
      (es ++ [(textOf [], false)]) ++ [(jsonText P key w.device, true)] := by simp
  rw [hassoc] at hsince
  have hread := hsince.read_live _
  have hfreed := hsince.free _
  rw [List.length_append, List.length_singleton] at hread hfreed
  rw [List.append_assoc] at hfreed
  obtain ⟨b, o, hput, hfit⟩ := putResponse_run (jsonText P key w.device) { w with heap := h }
  refine ⟨_, b, o, ?_, hfit, hfreed, by rw [Heap.nulls_free, hnulls]⟩
  simp only [answerWith, bind_run, hrun, strcpyResponse, readText, hread, hput, free]

end Specifications

end Ddsu666
