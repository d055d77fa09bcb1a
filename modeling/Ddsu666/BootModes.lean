/- The modes of a boot: connecting, provisioning, serving messages, and updating. Each reachable
   state is in one of them, and every step leads along an arrow between them. -/
import Ddsu666.BootOta

namespace Ddsu666

/-- No task runs besides `app_main`. -/
structure Quiet (r : Ram) : Prop where
  clientStarted : r.clientStarted = false
  handler : r.handler = .idle
  smartconfig : r.smartconfig = false
  ota : r.ota = .absent
  uart : r.uart = .absent
  restarting : r.restarting = false

/-- Inside `wifi_init`. -/
structure Connecting (s : BootState) : Prop where
  quiet : Quiet s.ram
  main : (s.ram.main = .wifiInit ∧ s.ram.isStartMqtt = true) ∨
    (s.ram.wifiOk = false ∧ (s.ram.main = .esptouchRemoveTask ∨ s.ram.main = .esptouchDestroy)) ∨
    (s.ram.wifiOk = false ∧ s.ram.main = .esptouchCreateTask ∧ s.ram.isStartMqtt = false)

/-- Connected, with the test of the tag ahead. -/
structure Undecided (s : BootState) : Prop where
  quiet : Quiet s.ram
  main : s.ram.main = .otaTest
  wifiOk : s.ram.wifiOk = true
  isStartMqtt : s.ram.isStartMqtt = true

/-- Without a connection; `smartconfig_task` runs and MQTT is switched off. -/
structure Provisioning (s : BootState) : Prop where
  main : s.ram.main = .otaTest ∨ s.ram.main = .mqttStart ∨ s.ram.main = .uartStart ∨
    s.ram.main = .returned
  wifiOk : s.ram.wifiOk = false
  isStartMqtt : s.ram.isStartMqtt = false
  clientStarted : s.ram.clientStarted = false
  handler : s.ram.handler = .idle
  smartconfig : s.ram.smartconfig = true
  ota : s.ram.ota = .absent

/-- Connected and without a tag; the client is started or about to be. -/
structure Serving (s : BootState) : Prop where
  main : (s.ram.main = .mqttStart ∧ s.ram.clientStarted = false ∧ s.ram.handler = .idle) ∨
    ((s.ram.main = .uartStart ∨ s.ram.main = .returned) ∧ s.ram.clientStarted = true)
  isStartMqtt : s.ram.isStartMqtt = true
  smartconfig : s.ram.smartconfig = false
  ota : s.ram.ota = .absent
  tag : s.ram.handler ≠ .tagWritten → s.tag = false
  testing : s.ram.handler = .tagTest → s.ram.restarting = false
  written : s.ram.handler = .tagWritten → s.tag = true

/-- Connected and with a tag; everything is switched off before the download. -/
structure Preparing (s : BootState) : Prop where
  quiet : Quiet s.ram
  main : (s.ram.main = .mqttDestroy ∧ s.tag = true) ∨
    (s.ram.isStartMqtt = false ∧ s.ram.main = .removeTask ∧ s.tag = true) ∨
    (s.ram.isStartMqtt = false ∧ s.ram.loop = false ∧
      ((s.ram.main = .removeTag ∧ s.tag = true) ∨ (s.ram.main = .otaStart ∧ s.tag = false)))

/-- The task of ota.c was created in this boot. -/
structure Updating (s : BootState) : Prop where
  main : s.ram.main = .mqttStart ∨ s.ram.main = .uartStart ∨ s.ram.main = .returned
  isStartMqtt : s.ram.isStartMqtt = false
  loop : s.ram.loop = false
  clientStarted : s.ram.clientStarted = false
  handler : s.ram.handler = .idle
  smartconfig : s.ram.smartconfig = false
  ota : s.ram.ota ≠ .absent
  failed : s.ram.ota = .failed → s.ram.restarting = false

inductive BootMode (s : BootState) : Prop where
  | connecting (h : Connecting s)
  | undecided (h : Undecided s)
  | provisioning (h : Provisioning s)
  | serving (h : Serving s)
  | preparing (h : Preparing s)
  | updating (h : Updating s)

/-! What a position of `app_main`, or a started client, tells about the mode. -/

section Positions

variable {s : BootState} (m : BootMode s)

include m

theorem BootMode.wifiInit (hpc : s.ram.main = .wifiInit) : Connecting s := by
  cases m with
  | connecting m => exact m
  | undecided m | provisioning m | serving m | preparing m | updating m =>
      have hmain := m.main
      simp [hpc] at hmain

theorem BootMode.removeTag (hpc : s.ram.main = .removeTag) : s.tag = true := by
  cases m with
  | preparing m =>
      have hmain := m.main
      simp only [hpc, reduceCtorEq, false_and, and_false, false_or, or_false, true_and] at hmain
      exact hmain.2.2
  | connecting m | undecided m | provisioning m | serving m | updating m =>
      have hmain := m.main
      simp [hpc] at hmain

theorem BootMode.otaStart (hpc : s.ram.main = .otaStart) : Preparing s := by
  cases m with
  | preparing m => exact m
  | connecting m | undecided m | provisioning m | serving m | updating m =>
      have hmain := m.main
      simp [hpc] at hmain

theorem BootMode.client (started : s.ram.clientStarted = true) : Serving s := by
  cases m with
  | serving m => exact m
  | connecting m | undecided m | preparing m =>
      rw [m.quiet.clientStarted] at started
      cases started
  | provisioning m | updating m =>
      rw [m.clientStarted] at started
      cases started

theorem BootMode.handling (busy : s.ram.handler ≠ .idle) : Serving s := by
  cases m with
  | serving m => exact m
  | connecting m | undecided m | preparing m => exact absurd m.quiet.handler busy
  | provisioning m | updating m => exact absurd m.handler busy

theorem BootMode.returned (hpc : s.ram.main = .returned) :
    Provisioning s ∨ Serving s ∨ Updating s := by
  cases m with
  | provisioning m => exact .inl m
  | serving m => exact .inr (.inl m)
  | updating m => exact .inr (.inr m)
  | connecting m | undecided m | preparing m =>
      have hmain := m.main
      simp [hpc] at hmain

end Positions

theorem quiet_boot : Quiet bootRam := ⟨rfl, rfl, rfl, rfl, rfl, rfl⟩

theorem bootMode_boot (tag : Bool) (created downloads : ℕ) :
    BootMode ⟨bootRam, tag, created, downloads⟩ :=
  .connecting ⟨quiet_boot, .inl ⟨rfl, rfl⟩⟩

/-- A step other than a boot comes from a state without a restart under way. -/
theorem bootStep_running {s t : BootState} {a : BootLabel} (h : bootStep s a = some t)
    (other : a ≠ .boot) : s.ram.restarting = false ∧ runningStep s a = some t := by
  rw [bootStep] at h
  split at h
  · cases h
  · rename_i hcond
    rw [not_and_not_right] at hcond
    cases hr : s.ram.restarting with
    | false => exact ⟨rfl, h⟩
    | true => exact absurd (hcond hr) other

theorem bootStep_boot (s : BootState) :
    bootStep s .boot = some ⟨bootRam, s.tag, s.created, s.downloads⟩ := by
  rw [bootStep, if_neg (fun h => h.2 rfl)]
  rfl

/-- While nothing else runs, only `app_main` and the result of its connection move on. -/
theorem quiet_step {s t : BootState} {a : BootLabel} (q : Quiet s.ram) (h : bootStep s a = some t)
    (other : a ≠ .boot) :
    (a = .main ∧ mainStep s = some t) ∨
      ∃ connected, a = .wifi connected ∧ s.ram.main = .wifiInit ∧
        t = { s with ram := { s.ram with
          wifiOk := connected, main := if connected then .otaTest else .esptouchRemoveTask } } := by
  have hstep := (bootStep_running h other).2
  cases a with
  | main => exact .inl ⟨rfl, hstep⟩
  | wifi connected =>
      simp only [runningStep] at hstep
      split at hstep
      · exact .inr ⟨connected, rfl, ‹_›, (Option.some.inj hstep).symm⟩
      · cases hstep
  | mqtt event => simp [runningStep, q.clientStarted] at hstep
  | handler => simp [runningStep, handlerPcStep, q.handler] at hstep
  | smartconfig => simp [runningStep, q.smartconfig] at hstep
  | otaReturns ok => simp [runningStep, q.ota] at hstep
  | uart => simp [runningStep, q.uart] at hstep
  | boot => exact absurd rfl other

theorem Quiet.congr {r r' : Ram} (q : Quiet r) (client : r'.clientStarted = r.clientStarted)
    (handler : r'.handler = r.handler) (smartconfig : r'.smartconfig = r.smartconfig)
    (ota : r'.ota = r.ota) (uart : r'.uart = r.uart) (restarting : r'.restarting = r.restarting) :
    Quiet r' :=
  ⟨client.trans q.clientStarted, handler.trans q.handler, smartconfig.trans q.smartconfig,
    ota.trans q.ota, uart.trans q.uart, restarting.trans q.restarting⟩

theorem Connecting.step {s t : BootState} {a : BootLabel} (m : Connecting s)
    (h : bootStep s a = some t) (other : a ≠ .boot) :
    Connecting t ∨ (a = .wifi true ∧ Undecided t) ∨ Provisioning t := by
  obtain ⟨q, hmain⟩ := m
  rcases quiet_step q h other with ⟨rfl, hstep⟩ | ⟨connected, rfl, hpc, rfl⟩
  · rcases hmain with ⟨hpc, -⟩ | ⟨hwifi, hpc | hpc⟩ | ⟨hwifi, hpc, hstart⟩
    · simp [mainStep, hpc] at hstep
    · simp only [mainStep, hpc] at hstep
      obtain rfl := Option.some.inj hstep
      exact .inl ⟨q.congr rfl rfl rfl rfl rfl rfl, .inr (.inl ⟨hwifi, .inr rfl⟩)⟩
    · simp only [mainStep, hpc] at hstep
      obtain rfl := Option.some.inj hstep
      refine .inl ⟨?_, .inr (.inr ⟨hwifi, rfl, rfl⟩)⟩
      exact q.congr q.clientStarted.symm rfl rfl rfl rfl rfl
    · simp only [mainStep, hpc] at hstep
      obtain rfl := Option.some.inj hstep
      exact .inr (.inr
        ⟨.inl rfl, hwifi, hstart, q.clientStarted, q.handler, rfl, q.ota⟩)
  · rcases hmain with ⟨-, hstart⟩ | ⟨-, hpc' | hpc'⟩ | ⟨-, hpc', -⟩
    · cases connected with
      | true => exact .inr (.inl ⟨rfl, q.congr rfl rfl rfl rfl rfl rfl, rfl, rfl, hstart⟩)
      | false =>
          exact .inl ⟨q.congr rfl rfl rfl rfl rfl rfl, .inr (.inl ⟨rfl, .inl rfl⟩)⟩
    all_goals rw [hpc] at hpc'; cases hpc'

theorem Undecided.step {s t : BootState} {a : BootLabel} (m : Undecided s)
    (h : bootStep s a = some t) (other : a ≠ .boot) :
    t.downloads = s.downloads ∧
      ((s.tag = true ∧ Preparing t) ∨ (s.tag = false ∧ Serving t)) := by
  obtain ⟨q, hpc, hwifi, hstart⟩ := m
  rcases quiet_step q h other with ⟨rfl, hstep⟩ | ⟨connected, rfl, hpc', rfl⟩
  · simp only [mainStep, hpc, hwifi, Bool.and_true] at hstep
    obtain rfl := Option.some.inj hstep
    refine ⟨rfl, ?_⟩
    cases htag : s.tag with
    | true => exact .inl ⟨rfl, q.congr rfl rfl rfl rfl rfl rfl, .inl ⟨rfl, rfl⟩⟩
    | false =>
        refine .inr ⟨rfl, .inl ⟨rfl, q.clientStarted, q.handler⟩, hstart, q.smartconfig, q.ota,
          fun _ => rfl, fun _ => q.restarting, ?_⟩
        intro hwritten
        cases q.handler.symm.trans hwritten
  · rw [hpc] at hpc'
    cases hpc'

theorem Preparing.step {s t : BootState} {a : BootLabel} (m : Preparing s)
    (h : bootStep s a = some t) (other : a ≠ .boot) :
    (Preparing t ∧ t.downloads = s.downloads) ∨
      (Updating t ∧ t.downloads = s.downloads + 1) := by
  obtain ⟨q, hmain⟩ := m
  rcases quiet_step q h other with ⟨rfl, hstep⟩ | ⟨connected, rfl, hpc', rfl⟩
  · rcases hmain with ⟨hpc, htag⟩ | ⟨hstart, hpc, htag⟩ | ⟨hstart, hloop, ⟨hpc, htag⟩ | ⟨hpc, htag⟩⟩
    · simp only [mainStep, hpc] at hstep
      obtain rfl := Option.some.inj hstep
      refine .inl ⟨⟨?_, .inr (.inl ⟨rfl, rfl, htag⟩)⟩, rfl⟩
      exact q.congr q.clientStarted.symm rfl rfl rfl rfl rfl
    · simp only [mainStep, hpc] at hstep
      obtain rfl := Option.some.inj hstep
      exact .inl ⟨⟨q.congr rfl rfl rfl rfl rfl rfl,
        .inr (.inr ⟨hstart, rfl, .inl ⟨rfl, htag⟩⟩)⟩, rfl⟩
    · simp only [mainStep, hpc] at hstep
      obtain rfl := Option.some.inj hstep
      exact .inl ⟨⟨q.congr rfl rfl rfl rfl rfl rfl,
        .inr (.inr ⟨hstart, hloop, .inr ⟨rfl, rfl⟩⟩)⟩, rfl⟩
    · simp only [mainStep, hpc] at hstep
      obtain rfl := Option.some.inj hstep
      refine .inr ⟨⟨.inl rfl, hstart, hloop, q.clientStarted, q.handler, q.smartconfig, ?_, ?_⟩,
        rfl⟩
      · intro absent
        cases absent
      · intro failed
        cases failed
  · rcases hmain with ⟨hpc, -⟩ | ⟨-, hpc, -⟩ | ⟨-, -, ⟨hpc, -⟩ | ⟨hpc, -⟩⟩
    all_goals rw [hpc] at hpc'; cases hpc'

theorem Provisioning.step {s t : BootState} {a : BootLabel} (m : Provisioning s)
    (h : bootStep s a = some t) (other : a ≠ .boot) : Provisioning t := by
  obtain ⟨hmain, hwifi, hstart, hclient, hhandler, hsmart, hota⟩ := m
  have hstep := (bootStep_running h other).2
  cases a with
  | main =>
      rcases hmain with hpc | hpc | hpc | hpc
      · simp only [runningStep, mainStep, hpc, hwifi, Bool.and_false] at hstep
        obtain rfl := Option.some.inj hstep
        exact ⟨.inr (.inl rfl), rfl, hstart, hclient, hhandler, hsmart, hota⟩
      · simp only [runningStep, mainStep, hpc, Ram.mqttAppStart, hstart] at hstep
        obtain rfl := Option.some.inj hstep
        exact ⟨.inr (.inr (.inl rfl)), hwifi, hstart, hclient, hhandler, hsmart, hota⟩
      · simp only [runningStep, mainStep, hpc] at hstep
        obtain rfl := Option.some.inj hstep
        exact ⟨.inr (.inr (.inr rfl)), hwifi, hstart, hclient, hhandler, hsmart, hota⟩
      · simp [runningStep, mainStep, hpc] at hstep
  | wifi connected =>
      obtain ⟨hpc, -⟩ := Runs.enabled hstep
      rw [hpc] at hmain
      simp at hmain
  | mqtt event => simp [runningStep, hclient] at hstep
  | handler => simp [runningStep, handlerPcStep, hhandler] at hstep
  | smartconfig =>
      simp only [runningStep, hsmart, if_true] at hstep
      obtain rfl := Option.some.inj hstep
      exact ⟨hmain, hwifi, hstart, hclient, hhandler, hsmart, hota⟩
  | otaReturns ok => simp [runningStep, hota] at hstep
  | uart =>
      obtain ⟨-, rfl⟩ := Runs.enabled hstep
      exact ⟨hmain, hwifi, hstart, hclient, hhandler, hsmart, hota⟩
  | boot => exact absurd rfl other

/-- All that the beginning of an event may change. -/
theorem mqttEvent_frame (r : Ram) (e : MqttEvent) :
    (mqttEvent r e).main = r.main ∧ (mqttEvent r e).isStartMqtt = r.isStartMqtt ∧
      (mqttEvent r e).clientStarted = r.clientStarted ∧
      (mqttEvent r e).smartconfig = r.smartconfig ∧ (mqttEvent r e).ota = r.ota ∧
      ((mqttEvent r e).handler = r.handler ∨
        (mqttEvent r e).handler = .tagTest ∧ (mqttEvent r e).restarting = r.restarting) := by
  cases e with
  | connected => simp [mqttEvent]
  | disconnected =>
      simp only [mqttEvent]
      split <;> simp [Ram.espRestart]
  | data message =>
      simp only [mqttEvent]
      split <;> simp [Ram.espRestart, Ram.removeRecTask]
  | other => simp [mqttEvent]

theorem Serving.step {s t : BootState} {a : BootLabel} (m : Serving s)
    (h : bootStep s a = some t) (other : a ≠ .boot) : Serving t := by
  obtain ⟨hmain, hstart, hsmart, hota, htag, htesting, hwritten⟩ := m
  obtain ⟨hrunning, hstep⟩ := bootStep_running h other
  cases a with
  | main =>
      rcases hmain with ⟨hpc, hclient, hhandler⟩ | ⟨hpc | hpc, hclient⟩
      · simp only [runningStep, mainStep, hpc, Ram.mqttAppStart, hstart, if_true] at hstep
        obtain rfl := Option.some.inj hstep
        exact ⟨.inr ⟨.inl rfl, rfl⟩, rfl, hsmart, hota, htag, htesting, hwritten⟩
      · simp only [runningStep, mainStep, hpc] at hstep
        obtain rfl := Option.some.inj hstep
        exact ⟨.inr ⟨.inr rfl, hclient⟩, hstart, hsmart, hota, htag, htesting, hwritten⟩
      · simp [runningStep, mainStep, hpc] at hstep
  | wifi connected =>
      obtain ⟨hpc, -⟩ := Runs.enabled hstep
      rw [hpc] at hmain
      simp at hmain
  | mqtt event =>
      obtain ⟨hready, rfl⟩ := Runs.enabled hstep
      obtain ⟨hm, hs, hc, hsc, ho, hh⟩ := mqttEvent_frame s.ram event
      refine ⟨.inr ⟨?_, hc.trans hready.1⟩, hs.trans hstart, hsc.trans hsmart,
        ho.trans hota, ?_, ?_, ?_⟩
      · rcases hmain with ⟨-, hclient, -⟩ | ⟨hpc, -⟩
        · rw [hready.1] at hclient
          cases hclient
        · simpa only [hm] using hpc
      · intro _
        apply htag
        rw [hready.2]
        decide
      · intro htest
        rcases hh with hidle | ⟨-, hkept⟩
        · rw [hidle, hready.2] at htest
          cases htest
        · exact hkept.trans hrunning
      · intro hpc
        rcases hh with hidle | ⟨htest, -⟩
        · rw [hidle, hready.2] at hpc
          cases hpc
        · rw [htest] at hpc
          cases hpc
  | handler =>
      have hpc : (s.ram.main = .uartStart ∨ s.ram.main = .returned) ∧
          s.ram.clientStarted = true := by
        rcases hmain with ⟨-, -, hhandler⟩ | hpc
        · simp [runningStep, handlerPcStep, hhandler] at hstep
        · exact hpc
      simp only [runningStep, handlerPcStep] at hstep
      split at hstep
      · cases hstep
      · rename_i htest
        have habsent := htag (by rw [htest]; decide)
        simp only [habsent] at hstep
        obtain rfl := Option.some.inj hstep
        exact ⟨.inr hpc, hstart, hsmart, hota, fun hne => absurd rfl hne, fun _ => hrunning,
          fun _ => rfl⟩
      · rename_i hdone
        obtain rfl := Option.some.inj hstep
        refine ⟨.inr hpc, hstart, hsmart, hota, htag, ?_, hwritten⟩
        intro htest
        cases hdone.symm.trans htest
  | smartconfig => simp [runningStep, hsmart] at hstep
  | otaReturns ok => simp [runningStep, hota] at hstep
  | uart =>
      obtain ⟨-, rfl⟩ := Runs.enabled hstep
      exact ⟨hmain, hstart, hsmart, hota, htag, htesting, hwritten⟩
  | boot => exact absurd rfl other

theorem Updating.step {s t : BootState} {a : BootLabel} (m : Updating s)
    (h : bootStep s a = some t) (other : a ≠ .boot) : Updating t := by
  obtain ⟨hmain, hstart, hloop, hclient, hhandler, hsmart, hota, hfailed⟩ := m
  obtain ⟨hrunning, hstep⟩ := bootStep_running h other
  cases a with
  | main =>
      rcases hmain with hpc | hpc | hpc
      · simp only [runningStep, mainStep, hpc, Ram.mqttAppStart, hstart] at hstep
        obtain rfl := Option.some.inj hstep
        exact ⟨.inr (.inl rfl), hstart, hloop, hclient, hhandler, hsmart, hota, hfailed⟩
      · simp only [runningStep, mainStep, hpc] at hstep
        obtain rfl := Option.some.inj hstep
        exact ⟨.inr (.inr rfl), hstart, hloop, hclient, hhandler, hsmart, hota, hfailed⟩
      · simp [runningStep, mainStep, hpc] at hstep
  | wifi connected =>
      obtain ⟨hpc, -⟩ := Runs.enabled hstep
      rw [hpc] at hmain
      simp at hmain
  | mqtt event => simp [runningStep, hclient] at hstep
  | handler => simp [runningStep, handlerPcStep, hhandler] at hstep
  | smartconfig => simp [runningStep, hsmart] at hstep
  | otaReturns ok =>
      obtain ⟨hdown, rfl⟩ := Runs.enabled hstep
      cases ok with
      | true =>
          refine ⟨hmain, hstart, hloop, hclient, hhandler, hsmart, hota, ?_⟩
          intro hfail
          rw [if_pos rfl, Ram.espRestart] at hfail
          rw [hdown] at hfail
          cases hfail
      | false =>
          refine ⟨hmain, hstart, hloop, hclient, hhandler, hsmart, ?_, fun _ => hrunning⟩
          intro absent
          cases absent
  | uart =>
      obtain ⟨-, rfl⟩ := Runs.enabled hstep
      exact ⟨hmain, hstart, hloop, hclient, hhandler, hsmart, hota, hfailed⟩
  | boot => exact absurd rfl other

theorem BootMode.step {s t : BootState} {a : BootLabel} (m : BootMode s)
    (h : bootStep s a = some t) : BootMode t := by
  by_cases other : a = .boot
  · subst other
    rw [bootStep_boot] at h
    obtain rfl := Option.some.inj h
    exact bootMode_boot ..
  · cases m with
    | connecting m =>
        rcases m.step h other with hc | ⟨-, hu⟩ | hp
        · exact .connecting hc
        · exact .undecided hu
        · exact .provisioning hp
    | undecided m =>
        rcases (m.step h other).2 with ⟨-, hp⟩ | ⟨-, hs⟩
        · exact .preparing hp
        · exact .serving hs
    | provisioning m => exact .provisioning (m.step h other)
    | serving m => exact .serving (m.step h other)
    | preparing m =>
        rcases m.step h other with ⟨hp, -⟩ | ⟨hu, -⟩
        · exact .preparing hp
        · exact .updating hu
    | updating m => exact .updating (m.step h other)

theorem bootMode_reached {tag : Bool} {s : BootState}
    (h : Runs.Reaches bootStep (firstBoot tag) s) : BootMode s :=
  Runs.invariant (bootMode_boot ..) (fun _ _ _ m hstep => m.step hstep) h

/-- A step that leaves the tag and the two counters alone, and does not lead up to a download. -/
structure FlashKept (s t : BootState) (a : BootLabel) : Prop where
  tag : t.tag = s.tag
  created : t.created = s.created
  downloads : t.downloads = s.downloads
  otaStart : t.ram.main = .otaStart → s.ram.main = .otaStart
  ota : a ≠ .boot → (∀ ok, a ≠ .otaReturns ok) → t.ram.ota = s.ram.ota

/-- `app_main` touches the tag where it removes it, and the count where it creates the task. -/
theorem mainStep_flash {s t : BootState} (h : mainStep s = some t) :
    (s.ram.main = .removeTag ∧
      t = { s with ram := { s.ram with main := .otaStart }, tag := false }) ∨
    (s.ram.main = .otaStart ∧
      t = { s with
        ram := { s.ram with ota := .downloading, main := .mqttStart },
        downloads := s.downloads + 1 }) ∨
    FlashKept s t .main := by
  rw [mainStep] at h
  cases hpc : s.ram.main with
  | wifiInit | returned => simp only [hpc, reduceCtorEq] at h
  | removeTag =>
      simp only [hpc] at h
      exact .inl ⟨rfl, (Option.some.inj h).symm⟩
  | otaStart =>
      simp only [hpc] at h
      exact .inr (.inl ⟨rfl, (Option.some.inj h).symm⟩)
  | otaTest =>
      simp only [hpc] at h
      obtain rfl := Option.some.inj h
      refine .inr (.inr ⟨rfl, rfl, rfl, ?_, fun _ _ => rfl⟩)
      intro next
      split at next <;> cases next
  | mqttStart =>
      simp only [hpc] at h
      obtain rfl := Option.some.inj h
      refine .inr (.inr ⟨rfl, rfl, rfl, fun next => (by cases next), ?_⟩)
      intro _ _
      rw [Ram.mqttAppStart]
      split <;> rfl
  | esptouchRemoveTask | esptouchDestroy | esptouchCreateTask | mqttDestroy | removeTask
    | uartStart =>
      simp only [hpc] at h
      obtain rfl := Option.some.inj h
      exact .inr (.inr ⟨rfl, rfl, rfl, fun next => (by cases next), fun _ _ => rfl⟩)

theorem handlerPcStep_flash {s t : BootState} (h : handlerPcStep s = some t) :
    (s.ram.handler = .tagTest ∧ s.tag = false ∧
      t = { s with
        ram := { s.ram with handler := .tagWritten }, tag := true, created := s.created + 1 }) ∨
    FlashKept s t .handler := by
  rw [handlerPcStep] at h
  cases hpc : s.ram.handler with
  | idle => simp only [hpc, reduceCtorEq] at h
  | tagTest =>
      cases htag : s.tag with
      | true =>
          simp only [hpc, htag, if_true] at h
          obtain rfl := Option.some.inj h
          exact .inr ⟨htag.symm, rfl, rfl, id, fun _ _ => rfl⟩
      | false =>
          simp only [hpc, htag] at h
          exact .inl ⟨rfl, rfl, (Option.some.inj h).symm⟩
  | tagWritten =>
      simp only [hpc] at h
      obtain rfl := Option.some.inj h
      exact .inr ⟨rfl, rfl, rfl, id, fun _ _ => rfl⟩

/-- All that a step may do to the tag, to the two counters and to the task of ota.c. -/
theorem flash_cases {s t : BootState} {a : BootLabel} (h : bootStep s a = some t) :
    (a = .handler ∧ s.ram.handler = .tagTest ∧ s.tag = false ∧
      t = { s with
        ram := { s.ram with handler := .tagWritten }, tag := true, created := s.created + 1 }) ∨
    (a = .main ∧ s.ram.main = .removeTag ∧
      t = { s with ram := { s.ram with main := .otaStart }, tag := false }) ∨
    (a = .main ∧ s.ram.main = .otaStart ∧
      t = { s with
        ram := { s.ram with ota := .downloading, main := .mqttStart },
        downloads := s.downloads + 1 }) ∨
    FlashKept s t a := by
  by_cases other : a = .boot
  · subst other
    rw [bootStep_boot] at h
    obtain rfl := Option.some.inj h
    refine .inr (.inr (.inr ⟨rfl, rfl, rfl, ?_, fun hboot => absurd rfl hboot⟩))
    intro next
    cases next
  have hstep := (bootStep_running h other).2
  cases a with
  | main =>
      rcases mainStep_flash hstep with hremoved | hstarted | hkept
      · exact .inr (.inl ⟨rfl, hremoved⟩)
      · exact .inr (.inr (.inl ⟨rfl, hstarted⟩))
      · exact .inr (.inr (.inr hkept))
  | handler =>
      rcases handlerPcStep_flash hstep with hwritten | hkept
      · exact .inl ⟨rfl, hwritten⟩
      · exact .inr (.inr (.inr hkept))
  | wifi connected =>
      obtain ⟨-, rfl⟩ := Runs.enabled hstep
      refine .inr (.inr (.inr ⟨rfl, rfl, rfl, ?_, fun _ _ => rfl⟩))
      intro next
      cases connected <;> cases next
  | mqtt event =>
      obtain ⟨-, rfl⟩ := Runs.enabled hstep
      obtain ⟨hm, -, -, -, ho, -⟩ := mqttEvent_frame s.ram event
      exact .inr (.inr (.inr ⟨rfl, rfl, rfl, fun next => hm ▸ next, fun _ _ => ho⟩))
  | otaReturns ok =>
      obtain ⟨-, rfl⟩ := Runs.enabled hstep
      refine .inr (.inr (.inr ⟨rfl, rfl, rfl, ?_, fun _ hreturn => absurd rfl (hreturn ok)⟩))
      cases ok <;> exact id
  | smartconfig | uart =>
      obtain ⟨-, rfl⟩ := Runs.enabled hstep
      exact .inr (.inr (.inr ⟨rfl, rfl, rfl, id, fun _ _ => rfl⟩))
  | boot => exact absurd rfl other

end Ddsu666
