/- Boots of the device: `app_main` statement by statement with the tasks it creates, the tag file
   that survives a boot, and a restart or a loss of power at any point. -/
import Ddsu666.CommandDispatch
import Ddsu666.Runs

namespace Ddsu666

/-- The statement of `app_main` that is executed next, the three of `start_esptouch_v1` included. -/
inductive MainPc where
  | wifiInit
  | esptouchRemoveTask
  | esptouchDestroy
  | esptouchCreateTask
  | otaTest
  | mqttDestroy
  | removeTask
  | removeTag
  | otaStart
  | mqttStart
  | uartStart
  | returned
  deriving DecidableEq, Repr

/-- The event handler between two events, or inside `create_ota_tag`. -/
inductive HandlerPc where
  | idle
  | tagTest
  | tagWritten
  deriving DecidableEq, Repr

/-- The task of ota.c; after a failed call it sleeps for ever. -/
inductive OtaTask where
  | absent
  | downloading
  | failed
  deriving DecidableEq, Repr

inductive UartTaskStatus where
  | absent
  | running
  | ended
  deriving DecidableEq, Repr

/-- What is lost at a boot. -/
structure Ram where
  main : MainPc
  wifiOk : Bool
  isStartMqtt : Bool
  loop : Bool
  clientStarted : Bool
  handler : HandlerPc
  mqttDisconnectCount : ℤ
  smartconfig : Bool
  ota : OtaTask
  uart : UartTaskStatus
  restarting : Bool
  deriving DecidableEq, Repr

/-- The tag file, and how often it was created and a download started so far. -/
structure BootState where
  ram : Ram
  tag : Bool
  created : ℕ
  downloads : ℕ
  deriving DecidableEq, Repr

def bootRam : Ram where
  main := .wifiInit
  wifiOk := false
  isStartMqtt := true
  loop := true
  clientStarted := false
  handler := .idle
  mqttDisconnectCount := 0
  smartconfig := false
  ota := .absent
  uart := .absent
  restarting := false

/-- The first boot; a tag that is there already counts as created once. -/
def firstBoot (tag : Bool) : BootState := ⟨bootRam, tag, tag.toNat, 0⟩

inductive BootLabel where
  /-- the next statement of `app_main` -/
  | main
  /-- the result of `wifi_connect_to_ap` -/
  | wifi (connected : Bool)
  /-- the client begins to handle an event -/
  | mqtt (event : MqttEvent)
  /-- the next statement of `create_ota_tag` -/
  | handler
  /-- one of the two restarts of `smartconfig_task` -/
  | smartconfig
  /-- `esp_https_ota` returns, with `ESP_OK` or not -/
  | otaReturns (ok : Bool)
  /-- the test of `loop` by the UART task -/
  | uart
  /-- a restart that was issued takes effect, or the power is cut -/
  | boot
  deriving DecidableEq

def Ram.removeRecTask (r : Ram) : Ram := { r with loop := false }

def Ram.mqttAppDestroy (r : Ram) : Ram := { r with isStartMqtt := false, clientStarted := false }

def Ram.mqttAppStart (r : Ram) : Ram :=
  if r.isStartMqtt then { r with clientStarted := true } else r

def Ram.espRestart (r : Ram) : Ram := { r with restarting := true }

def mainStep (s : BootState) : Option BootState :=
  let r := s.ram
  match r.main with
  | .wifiInit => none
  | .esptouchRemoveTask => some { s with ram := { r.removeRecTask with main := .esptouchDestroy } }
  | .esptouchDestroy =>
      some { s with ram := { r.mqttAppDestroy with main := .esptouchCreateTask } }
  | .esptouchCreateTask => some { s with ram := { r with smartconfig := true, main := .otaTest } }
  | .otaTest =>
      some { s with
        ram := { r with main := if s.tag && r.wifiOk then .mqttDestroy else .mqttStart } }
  | .mqttDestroy => some { s with ram := { r.mqttAppDestroy with main := .removeTask } }
  | .removeTask => some { s with ram := { r.removeRecTask with main := .removeTag } }
  | .removeTag => some { s with ram := { r with main := .otaStart }, tag := false }
  | .otaStart => some { s with
      ram := { r with ota := .downloading, main := .mqttStart }, downloads := s.downloads + 1 }
  | .mqttStart => some { s with ram := { r.mqttAppStart with main := .uartStart } }
  | .uartStart => some { s with ram := { r with uart := .running, main := .returned } }
  | .returned => none

/-- The beginning of an event, up to the first statement that touches the tag or ends it. -/
def mqttEvent (r : Ram) : MqttEvent → Ram
  | .connected => { r with mqttDisconnectCount := 0 }
  | .disconnected =>
      let r := { r with mqttDisconnectCount := r.mqttDisconnectCount + 1 }
      if r.mqttDisconnectCount = mqttDisconnectCountMax then r.espRestart else r
  | .data message =>
      match commandOf message.topicText message.dataText with
      | some .otaUpdate => { r with handler := .tagTest }
      | some .resetWifi | some .restartOs => r.espRestart
      | some .removeUartRecTask => r.removeRecTask
      | _ => r
  | .other => r

def handlerPcStep (s : BootState) : Option BootState :=
  match s.ram.handler with
  | .idle => none
  | .tagTest =>
      if s.tag then some { s with ram := { s.ram with handler := .idle } }
      else some { s with
        ram := { s.ram with handler := .tagWritten }, tag := true, created := s.created + 1 }
  | .tagWritten => some { s with ram := s.ram.espRestart }

/-- A step of one of the tasks. -/
def runningStep (s : BootState) : BootLabel → Option BootState
  | .main => mainStep s
  | .wifi connected =>
      if s.ram.main = .wifiInit then
        some { s with ram := { s.ram with
          wifiOk := connected, main := if connected then .otaTest else .esptouchRemoveTask } }
      else none
  | .mqtt event =>
      if s.ram.clientStarted ∧ s.ram.handler = .idle then
        some { s with ram := mqttEvent s.ram event }
      else none
  | .handler => handlerPcStep s
  | .smartconfig => if s.ram.smartconfig then some { s with ram := s.ram.espRestart } else none
  | .otaReturns ok =>
      -- after `ESP_OK` the task only blinks before it restarts
      if s.ram.ota = .downloading then
        some { s with ram := if ok then s.ram.espRestart else { s.ram with ota := .failed } }
      else none
  | .uart =>
      if s.ram.uart = .running then
        some { s with ram := { s.ram with uart := if s.ram.loop then .running else .ended } }
      else none
  | .boot => some { s with ram := bootRam }

/-- Once a restart is issued, only the boot is left to happen. -/
def bootStep (s : BootState) (a : BootLabel) : Option BootState :=
  if s.ram.restarting ∧ a ≠ .boot then none else runningStep s a

def BootRun (s : BootState) (tr : List BootLabel) (t : BootState) : Prop :=
  Runs.run bootStep s tr = some t

/-! The event handler, seen from here. -/

/-- The two views of a device agree, and the tag can be written. -/
structure Agrees {F : Type} (s : BootState) (w : World F) : Prop where
  tag : w.device.otaTag = s.tag
  canWriteTag : w.device.canWriteTag = true
  loop : w.device.task.loop = s.ram.loop
  count : w.mqttDisconnectCount = s.ram.mqttDisconnectCount

/-- The handler is back between two events, or has restarted the device, and the views agree. -/
def Handled {F : Type} (s : BootState) : Except (World F) (Unit × World F) → Prop
  | .error w => Agrees s w ∧ s.ram.restarting = true
  | .ok (_, w) => Agrees s w ∧ s.ram.restarting = false ∧ s.ram.handler = .idle

section Handling

variable {F : Type} [FloatArith F] {P : Platform F} (granted : ∀ n, P.grants n = true)
  {s : BootState} {w : World F} (agrees : Agrees s w) (started : s.ram.clientStarted = true)
  (idle : s.ram.handler = .idle) (running : s.ram.restarting = false)

include started idle running

omit [FloatArith F] in
theorem bootStep_mqtt (e : MqttEvent) :
    bootStep s (.mqtt e) = some { s with ram := mqttEvent s.ram e } := by
  simp [bootStep, running, runningStep, started, idle]

omit [FloatArith F] in
theorem data_run {m : Message} {r : Ram} (h : mqttEvent s.ram (.data m) = r) :
    BootRun s [.mqtt (.data m)] { s with ram := r } := by
  rw [← h]
  exact Runs.run_cons_some.mpr ⟨_, bootStep_mqtt started idle running _, rfl⟩

omit [FloatArith F] started idle in
/-- `create_ota_tag` returns where the tag exists, and restarts where it does not. -/
theorem createOtaTag_labels (htest : s.ram.handler = .tagTest) :
    ∃ k t, BootRun s (List.replicate k .handler) t ∧
      if s.tag then t = { s with ram := { s.ram with handler := .idle } }
      else t = { s with
        ram := { s.ram with handler := .tagWritten, restarting := true },
        tag := true, created := s.created + 1 } := by
  rcases s with ⟨⟨main, wifiOk, isStartMqtt, loop, clientStarted, handler, count, smartconfig, ota,
    uart, restarting⟩, tag, created, downloads⟩
  obtain rfl : handler = .tagTest := htest
  obtain rfl : restarting = false := running
  cases tag with
  | true => exact ⟨1, _, rfl, rfl⟩
  | false => exact ⟨2, _, rfl, rfl⟩

include granted agrees

/-- A message takes as many steps of `create_ota_tag` as its command executes. -/
theorem message_refines (m : Message) :
    ∃ k t, BootRun s (.mqtt (.data m) :: List.replicate k .handler) t ∧
      Handled t (mqttEventHandler P (.data m) w) := by
  have hrun := message_run granted w m
  have hbegin := data_run (m := m) started idle running rfl
  have hcan := agrees.canWriteTag
  cases hcommand : commandOf m.topicText m.dataText with
  | none =>
      simp only [mqttEvent, dispatch, hcommand] at hrun hbegin
      obtain ⟨_, _, _, _, hreturn, -⟩ := hrun
      rw [hreturn]
      exact ⟨0, _, hbegin, ⟨agrees.tag, hcan, agrees.loop, agrees.count⟩, running, idle⟩
  | some c =>
      simp only [mqttEvent, dispatch, hcommand] at hrun hbegin
      cases c with
      | otaUpdate =>
          obtain ⟨k, t, hlabels, ht⟩ := createOtaTag_labels
            (s := { s with ram := { s.ram with handler := .tagTest } }) running rfl
          refine ⟨k, t, Runs.run_append_some.mpr ⟨_, hbegin, hlabels⟩, ?_⟩
          have htag := agrees.tag
          cases hfile : s.tag with
          | true =>
              simp only [hfile, if_true] at ht htag
              simp only [Command.effect, htag, true_or, if_true] at hrun
              obtain ⟨_, _, _, _, hreturn, -⟩ := hrun
              rw [hreturn, ht]
              exact ⟨⟨htag, hcan, agrees.loop, agrees.count⟩, running, rfl⟩
          | false =>
              simp only [hfile, reduceCtorEq, if_false] at ht htag
              simp only [Command.effect, htag, hcan, reduceCtorEq, or_self, if_false] at hrun
              obtain ⟨_, _, hrestart⟩ := hrun
              rw [hrestart, ht]
              exact ⟨⟨rfl, rfl, agrees.loop, agrees.count⟩, rfl⟩
      | resetWifi | restartOs =>
          obtain ⟨_, _, hrestart⟩ := hrun
          rw [hrestart]
          exact ⟨0, _, hbegin, ⟨agrees.tag, hcan, agrees.loop, agrees.count⟩, rfl⟩
      | removeUartRecTask =>
          obtain ⟨_, _, _, _, hreturn, -⟩ := hrun
          rw [hreturn]
          exact ⟨0, _, hbegin, ⟨agrees.tag, hcan, rfl, agrees.count⟩, running, idle⟩
      | changeRecWait1 | changeRecWait5 | changeRecWait60 | clearTotalEngery | debugMode =>
          obtain ⟨_, _, _, _, hreturn, -⟩ := hrun
          rw [hreturn]
          exact ⟨0, _, hbegin, ⟨agrees.tag, hcan, agrees.loop, agrees.count⟩, running, idle⟩

/-- Every event of the client is a run of labels with the effect that its handler has. -/
theorem event_refines (e : MqttEvent) :
    ∃ k t, BootRun s (.mqtt e :: List.replicate k .handler) t ∧
      Handled t (mqttEventHandler P e w) := by
  obtain ⟨h, b, hreset, -⟩ :=
    resetResponse_run (StringHeap.Heap.Since.refl w.heap) (granted _)
  have hbegin := bootStep_mqtt started idle running e
  cases e with
  | data m => exact message_refines granted agrees started idle running m
  | other =>
      refine ⟨0, _, Runs.run_cons_some.mpr ⟨_, hbegin, rfl⟩, ?_⟩
      simp only [mqttEventHandler, bind_run, hreset, pure_run]
      exact ⟨⟨agrees.tag, agrees.canWriteTag, agrees.loop, agrees.count⟩, running, idle⟩
  | connected =>
      refine ⟨0, _, Runs.run_cons_some.mpr ⟨_, hbegin, rfl⟩, ?_⟩
      simp only [mqttEventHandler, bind_run, hreset]
      exact ⟨⟨agrees.tag, agrees.canWriteTag, agrees.loop, rfl⟩, running, idle⟩
  | disconnected =>
      refine ⟨0, _, Runs.run_cons_some.mpr ⟨_, hbegin, rfl⟩, ?_⟩
      have hcount : w.mqttDisconnectCount + 1 = s.ram.mqttDisconnectCount + 1 := by
        rw [agrees.count]
      have hhandler : mqttEventHandler P .disconnected w =
          if w.mqttDisconnectCount + 1 = mqttDisconnectCountMax then
            .error { w with
              heap := h, responseS := b, mqttDisconnectCount := w.mqttDisconnectCount + 1 }
          else
            .ok ((), { w with
              heap := h, responseS := b, mqttDisconnectCount := w.mqttDisconnectCount + 1 }) := by
        simp only [mqttEventHandler, bind_run, hreset, modify_run, get_run, ite_run, pure_run,
          espRestart]
      rw [hhandler, hcount, mqttEvent]
      split
      · exact ⟨⟨agrees.tag, agrees.canWriteTag, agrees.loop, rfl⟩, rfl⟩
      · exact ⟨⟨agrees.tag, agrees.canWriteTag, agrees.loop, rfl⟩, running, idle⟩

end Handling

end Ddsu666
