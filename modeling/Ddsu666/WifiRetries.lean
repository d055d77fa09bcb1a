/- Retries in wifimanager.c: the counter, the event bits and `ESPTOUCH_TRY_CONNECT_BIT` between the
   event handler, `wifi_connect_to_ap` and `smartconfig_task`. -/
import Ddsu666.Runs
import Mathlib.Algebra.Order.Ring.Int

namespace Ddsu666

def espMaxinumRetry : ℤ := 2

inductive EventBit where
  | connected
  | esptouchDone
  | wifiFail
  deriving DecidableEq

structure EventBits where
  connected : Bool
  esptouchDone : Bool
  wifiFail : Bool
  deriving DecidableEq

def noBits : EventBits := ⟨false, false, false⟩

inductive SmartconfigTask where
  | waiting
  | woken (uxBits : EventBits)
  deriving DecidableEq

/-- How far `wifi_init` has come. -/
inductive WifiMode where
  | connecting
  | connected
  | provisioning (task : SmartconfigTask)
  deriving DecidableEq

structure WifiState where
  retryNum : ℤ
  tryConnect : Bool
  bits : EventBits
  mode : WifiMode
  restarting : Bool
  deriving DecidableEq

def bootWifi : WifiState := ⟨0, false, noBits, .connecting, false⟩

inductive WifiEvent where
  | staStart
  | staDisconnected
  | gotIp
  | scanDone
  | foundChannel
  | gotSsidPswd
  | sendAckDone
  deriving DecidableEq

/-- The calls that an event leads to. -/
inductive WifiCall where
  | connect
  | disconnect
  | setConfig
  | setBits (bit : EventBit)
  | clearBits (bit : EventBit)
  deriving DecidableEq

def eventHandler (s : WifiState) : WifiEvent → WifiState × List WifiCall
  | .staStart => (s, [.connect])
  | .staDisconnected =>
      if s.retryNum < espMaxinumRetry then ({ s with retryNum := s.retryNum + 1 }, [.connect])
      else ({ s with bits := { s.bits with wifiFail := true, connected := false } },
        [.setBits .wifiFail, .clearBits .connected])
  | .gotIp =>
      ({ s with retryNum := 0, bits := { s.bits with connected := true } }, [.setBits .connected])
  | .scanDone => (s, [])
  | .foundChannel => (s, [])
  | .gotSsidPswd => ({ s with tryConnect := true }, [.disconnect, .setConfig, .connect])
  | .sendAckDone =>
      ({ s with bits := { s.bits with esptouchDone := true } }, [.setBits .esptouchDone])

inductive RestartReason where
  | connectErr
  | smartconfigOver
  deriving DecidableEq

/-- The tests of `smartconfig_task` on the bits with which its wait returned. -/
def smartconfigPass (s : WifiState) (uxBits : EventBits) : Option RestartReason :=
  if uxBits.wifiFail && s.tryConnect then some .connectErr
  else if uxBits.esptouchDone then some .smartconfigOver
  else none

/-- An event, the end of the wait in `wifi_connect_to_ap`, the end of the wait in
`smartconfig_task`, its tests, or a boot at any time. -/
inductive WifiLabel where
  | event (e : WifiEvent)
  | connectToAp
  | wake
  | pass
  | boot
  deriving DecidableEq

def runningWifiStep (s : WifiState) : WifiLabel → Option WifiState
  | .event e => some (eventHandler s e).1
  | .connectToAp =>
      match s.mode with
      | .connecting =>
          if s.bits.connected then
            some { s with bits := { s.bits with connected := false }, mode := .connected }
          else some { s with mode := .provisioning .waiting }
      | _ => none
  | .wake =>
      match s.mode with
      | .provisioning .waiting =>
          if s.bits = noBits then none
          else some { s with bits := noBits, mode := .provisioning (.woken s.bits) }
      | _ => none
  | .pass =>
      match s.mode with
      | .provisioning (.woken uxBits) =>
          match smartconfigPass s uxBits with
          | some _ => some { s with restarting := true }
          | none => some { s with mode := .provisioning .waiting }
      | _ => none
  | .boot => some bootWifi

def wifiStep (s : WifiState) (a : WifiLabel) : Option WifiState :=
  if s.restarting = true ∧ a ≠ .boot then none else runningWifiStep s a

/-- A state with two counts that the code does not keep: the reconnects from `STA_DISCONNECTED`
since the latest of boot, `GOT_IP` and `GOT_SSID_PSWD`, and the calls of `esp_wifi_connect` since
`GOT_SSID_PSWD`. -/
structure Watched where
  wifi : WifiState
  reconnects : ℕ
  tries : ℕ
  deriving DecidableEq

def connects (calls : List WifiCall) : ℕ := calls.count .connect

def Watched.count (w : Watched) : WifiLabel → ℕ × ℕ
  | .event e =>
      let n := connects (eventHandler w.wifi e).2
      match e with
      | .staDisconnected => (w.reconnects + n, w.tries + n)
      | .gotIp => (0, w.tries + n)
      | .gotSsidPswd => (0, n)
      | _ => (w.reconnects, w.tries + n)
  | .boot => (0, 0)
  | _ => (w.reconnects, w.tries)

def watchStep (w : Watched) (a : WifiLabel) : Option Watched :=
  (wifiStep w.wifi a).map fun t => ⟨t, (w.count a).1, (w.count a).2⟩

def bootWatched : Watched := ⟨bootWifi, 0, 0⟩

def WatchRun (w : Watched) (tr : List WifiLabel) (v : Watched) : Prop :=
  Runs.run watchStep w tr = some v

/-- A failure is reported, and the restart that follows from one happens, only after the retries
that there are to be. -/
structure RetryBudget (w : Watched) : Prop where
  fail : .setBits .wifiFail ∈ (eventHandler w.wifi .staDisconnected).2 →
    w.reconnects = espMaxinumRetry
  restart : ∀ uxBits, w.wifi.mode = .provisioning (.woken uxBits) →
    smartconfigPass w.wifi uxBits = some .connectErr → espMaxinumRetry + 1 ≤ w.tries

/-- There is a failure that `smartconfig_task` has not looked at and may still come to. -/
def failureAhead (s : WifiState) : Bool :=
  match s.mode with
  | .connecting => s.bits.wifiFail && !s.bits.connected
  | .connected => false
  | .provisioning .waiting => s.bits.wifiFail
  | .provisioning (.woken uxBits) =>
      uxBits.wifiFail || (s.bits.wifiFail && !uxBits.esptouchDone)

/-- Nothing is left over from the attempts with other credentials. -/
def CleanSlate (s : WifiState) : Prop := s.retryNum = 0 ∧ failureAhead s = false

def ReceivesClean (w : Watched) (a : WifiLabel) : Prop :=
  a = .event .gotSsidPswd → CleanSlate w.wifi

structure RetryRange (s : WifiState) : Prop where
  nonneg : 0 ≤ s.retryNum
  le : s.retryNum ≤ espMaxinumRetry

theorem retryRange_boot : RetryRange bootWifi := ⟨by decide, by decide⟩

theorem eventHandler_range {s : WifiState} (range : RetryRange s) (e : WifiEvent) :
    RetryRange (eventHandler s e).1 := by
  obtain ⟨hnonneg, hle⟩ := range
  cases e with
  | staDisconnected =>
      rw [eventHandler]
      split
      · rename_i few
        exact ⟨by simp only; omega, by simp only; omega⟩
      · exact ⟨hnonneg, hle⟩
  | gotIp => exact ⟨le_refl 0, by simp [eventHandler, espMaxinumRetry]⟩
  | staStart | scanDone | foundChannel | gotSsidPswd | sendAckDone => exact ⟨hnonneg, hle⟩

/-- The tasks leave the counter and `ESPTOUCH_TRY_CONNECT_BIT` alone, and report no failure. -/
structure TaskStep (s t : WifiState) : Prop where
  retryNum : t.retryNum = s.retryNum
  tryConnect : t.tryConnect = s.tryConnect
  ahead : failureAhead t = true → failureAhead s = true

theorem connectToAp_step {s t : WifiState} (h : runningWifiStep s .connectToAp = some t) :
    TaskStep s t := by
  simp only [runningWifiStep] at h
  split at h
  · rename_i hmode
    split at h
    · obtain rfl := Option.some.inj h
      exact ⟨rfl, rfl, fun ahead => nomatch ahead⟩
    · rename_i hconnected
      obtain rfl := Option.some.inj h
      refine ⟨rfl, rfl, fun ahead => ?_⟩
      have hfail : s.bits.wifiFail = true := ahead
      simp [failureAhead, hmode, hfail, hconnected]
  · cases h

theorem wake_step {s t : WifiState} (h : runningWifiStep s .wake = some t) : TaskStep s t := by
  simp only [runningWifiStep] at h
  split at h
  · rename_i hmode
    split at h
    · cases h
    · obtain rfl := Option.some.inj h
      refine ⟨rfl, rfl, fun ahead => ?_⟩
      simpa [failureAhead, hmode, noBits] using ahead
  · cases h

theorem pass_step {s t : WifiState} (h : runningWifiStep s .pass = some t) : TaskStep s t := by
  simp only [runningWifiStep] at h
  split at h
  · rename_i uxBits hmode
    cases hpass : smartconfigPass s uxBits with
    | some reason =>
        rw [hpass] at h
        obtain rfl := Option.some.inj h
        exact ⟨rfl, rfl, id⟩
    | none =>
        rw [hpass] at h
        obtain rfl := Option.some.inj h
        refine ⟨rfl, rfl, fun ahead => ?_⟩
        have hfail : s.bits.wifiFail = true := ahead
        have hdone : uxBits.esptouchDone = false := by
          simp only [smartconfigPass] at hpass
          grind
        simp [failureAhead, hmode, hfail, hdone]
  · cases h

/-- Everything that a step can do. -/
theorem watchStep_cases {w v : Watched} {a : WifiLabel} (h : watchStep w a = some v) :
    (∃ e, a = .event e ∧
      v = ⟨(eventHandler w.wifi e).1, (w.count (.event e)).1, (w.count (.event e)).2⟩) ∨
    (a = .boot ∧ v = bootWatched) ∨
    ((∀ e, a ≠ .event e) ∧ TaskStep w.wifi v.wifi ∧ v.reconnects = w.reconnects ∧
      v.tries = w.tries) := by
  obtain ⟨t, hstep, rfl⟩ := Option.map_eq_some_iff.mp h
  rw [wifiStep] at hstep
  split at hstep
  · cases hstep
  · cases a with
    | event e =>
        obtain rfl := Option.some.inj hstep
        exact .inl ⟨e, rfl, rfl⟩
    | boot =>
        obtain rfl := Option.some.inj hstep
        exact .inr (.inl ⟨rfl, rfl⟩)
    | connectToAp => exact .inr (.inr ⟨fun _ => by simp, connectToAp_step hstep, rfl, rfl⟩)
    | wake => exact .inr (.inr ⟨fun _ => by simp, wake_step hstep, rfl, rfl⟩)
    | pass => exact .inr (.inr ⟨fun _ => by simp, pass_step hstep, rfl, rfl⟩)

theorem range_step {w v : Watched} {a : WifiLabel} (range : RetryRange w.wifi)
    (h : watchStep w a = some v) : RetryRange v.wifi := by
  rcases watchStep_cases h with ⟨e, -, rfl⟩ | ⟨-, rfl⟩ | ⟨-, task, -, -⟩
  · exact eventHandler_range range e
  · exact retryRange_boot
  · exact ⟨task.retryNum ▸ range.nonneg, task.retryNum ▸ range.le⟩

theorem range_run {tr : List WifiLabel} {w : Watched} (h : WatchRun bootWatched tr w) :
    RetryRange w.wifi :=
  Runs.invariant (P := fun w => RetryRange w.wifi) retryRange_boot
    (fun _ _ _ range hstep => range_step range hstep) ⟨tr, h⟩

/-- While credentials are only ever received with a clean slate, the counter counts what its name
says. -/
structure RetryInv (w : Watched) : Prop where
  range : RetryRange w.wifi
  reconnects : w.reconnects = w.wifi.retryNum
  tries : w.wifi.tryConnect = true → w.reconnects + 1 ≤ w.tries
  ahead : failureAhead w.wifi = true → w.wifi.tryConnect = true → 3 ≤ w.tries

theorem retryInv_boot : RetryInv bootWatched where
  range := retryRange_boot
  reconnects := rfl
  tries h := by cases h
  ahead h := by cases h

theorem retryInv_event {w : Watched} (inv : RetryInv w) {e : WifiEvent}
    (clean : ReceivesClean w (.event e)) :
    RetryInv ⟨(eventHandler w.wifi e).1, (w.count (.event e)).1, (w.count (.event e)).2⟩ := by
  have range := eventHandler_range inv.range e
  obtain ⟨⟨hnonneg, hle⟩, hreconnects, htries, hahead⟩ := inv
  cases e with
  | staDisconnected =>
      by_cases few : w.wifi.retryNum < espMaxinumRetry
      · have hstep : eventHandler w.wifi .staDisconnected =
            ({ w.wifi with retryNum := w.wifi.retryNum + 1 }, [.connect]) := if_pos few
        have hone : connects [.connect] = 1 := rfl
        simp only [Watched.count, hstep, hone] at range ⊢
        refine ⟨range, by simp [hreconnects], fun try' => ?_, fun ahead try' => ?_⟩
        · exact Nat.succ_le_succ (htries try')
        · exact (hahead ahead try').trans (Nat.le_succ _)
      · have hstep : eventHandler w.wifi .staDisconnected =
            ({ w.wifi with bits := { w.wifi.bits with wifiFail := true, connected := false } },
              [.setBits .wifiFail, .clearBits .connected]) := if_neg few
        have hzero : connects [.setBits .wifiFail, .clearBits .connected] = 0 := rfl
        simp only [Watched.count, hstep, hzero, Nat.add_zero] at range ⊢
        refine ⟨range, hreconnects, htries, fun _ try' => ?_⟩
        have hmore : w.reconnects + 1 ≤ w.tries := htries try'
        rw [espMaxinumRetry] at few
        change 3 ≤ w.tries
        omega
  | gotIp =>
      refine ⟨range, rfl, fun try' => ?_, fun ahead try' => ?_⟩
      · exact (Nat.le_add_left _ _).trans (htries try')
      · refine hahead ?_ try'
        simp only [eventHandler, failureAhead] at ahead ⊢
        grind
  | gotSsidPswd =>
      obtain ⟨hretry, hclear⟩ := clean rfl
      refine ⟨range, hretry.symm, fun _ => Nat.le_refl 1, fun ahead _ => ?_⟩
      have hsame : failureAhead w.wifi = true := ahead
      rw [hclear] at hsame
      cases hsame
  | staStart =>
      refine ⟨range, hreconnects, fun try' => ?_, fun ahead try' => ?_⟩
      · exact (htries try').trans (Nat.le_add_right _ _)
      · exact (hahead ahead try').trans (Nat.le_add_right _ _)
  | scanDone | foundChannel | sendAckDone => exact ⟨range, hreconnects, htries, hahead⟩

theorem retryInv_step {w v : Watched} {a : WifiLabel} (inv : RetryInv w)
    (clean : ReceivesClean w a) (h : watchStep w a = some v) : RetryInv v := by
  rcases watchStep_cases h with ⟨e, rfl, rfl⟩ | ⟨-, rfl⟩ | ⟨-, task, hreconnects, htries⟩
  · exact retryInv_event inv clean
  · exact retryInv_boot
  · refine ⟨range_step inv.range h, ?_, fun try' => ?_, fun ahead try' => ?_⟩
    · rw [hreconnects, task.retryNum, inv.reconnects]
    · rw [hreconnects, htries]
      exact inv.tries (task.tryConnect ▸ try')
    · rw [htries]
      exact inv.ahead (task.ahead ahead) (task.tryConnect ▸ try')

theorem retryInv_run {tr : List WifiLabel} {w : Watched} (h : WatchRun bootWatched tr w)
    (clean : Runs.Guarded watchStep ReceivesClean bootWatched tr) : RetryInv w :=
  Runs.guarded_invariant (P := fun _ => RetryInv) (G := ReceivesClean) retryInv_boot
    (fun _ _ _ _ inv hclean hstep => retryInv_step inv hclean hstep) tr clean w h

theorem RetryInv.budget {w : Watched} (inv : RetryInv w) : RetryBudget w := by
  have hle := inv.range.le
  constructor
  · intro failed
    rw [inv.reconnects]
    by_cases few : w.wifi.retryNum < espMaxinumRetry
    · rw [eventHandler, if_pos few] at failed
      simp at failed
    · omega
  · intro uxBits hmode hpass
    have hboth : uxBits.wifiFail = true ∧ w.wifi.tryConnect = true := by
      simp only [smartconfigPass] at hpass
      grind
    have hahead : failureAhead w.wifi = true := by simp [failureAhead, hmode, hboth.1]
    have hmore := inv.ahead hahead hboth.2
    rw [espMaxinumRetry]
    omega

/-! What credentials received without a clean slate can lead to. -/

theorem not_budget_failed {w : Watched} (spent : w.wifi.retryNum = espMaxinumRetry)
    (few : (w.reconnects : ℤ) < espMaxinumRetry) : ¬ RetryBudget w := by
  intro budget
  have hcalls : (eventHandler w.wifi .staDisconnected).2 =
      [.setBits .wifiFail, .clearBits .connected] := by
    rw [eventHandler, if_neg (by omega)]
  have hall := budget.fail (by rw [hcalls]; exact List.mem_cons_self)
  omega

theorem not_budget_restart {w : Watched} {uxBits : EventBits}
    (hmode : w.wifi.mode = .provisioning (.woken uxBits)) (fail : uxBits.wifiFail = true)
    (try' : w.wifi.tryConnect = true) (few : w.tries < 3) : ¬ RetryBudget w := by
  intro budget
  have hpass : smartconfigPass w.wifi uxBits = some .connectErr := by
    simp [smartconfigPass, fail, try']
  have hall := budget.restart uxBits hmode hpass
  rw [espMaxinumRetry] at hall
  omega

/-- A failure in the event bits wakes the task up. -/
theorem wake_fails {w : Watched} (running : w.wifi.restarting = false)
    (hmode : w.wifi.mode = .provisioning .waiting) (fail : w.wifi.bits.wifiFail = true)
    (try' : w.wifi.tryConnect = true) (few : w.tries < 3) :
    ∃ v, WatchRun w [.wake] v ∧ ¬ RetryBudget v := by
  have hbits : w.wifi.bits ≠ noBits := by
    intro same
    rw [same] at fail
    cases fail
  let t := { w.wifi with bits := noBits, mode := .provisioning (.woken w.wifi.bits) }
  have hstep : wifiStep w.wifi .wake = some t := by
    simp [wifiStep, running, runningWifiStep, hmode, hbits, t]
  refine ⟨⟨t, w.reconnects, w.tries⟩, ?_, not_budget_restart rfl fail try' few⟩
  simp only [WatchRun, Runs.run, watchStep, hstep]
  rfl

/-- The state in which credentials have just been received. -/
def Watched.received (w : Watched) : Watched := ⟨{ w.wifi with tryConnect := true }, 0, 1⟩

theorem receive_step {w : Watched} (running : w.wifi.restarting = false) :
    watchStep w (.event .gotSsidPswd) = some w.received := by
  simp only [watchStep, wifiStep, running]
  rfl

theorem receive_run {w v : Watched} (running : w.wifi.restarting = false) {next : List WifiLabel}
    (h : WatchRun w.received next v) : WatchRun w (.event .gotSsidPswd :: next) v :=
  Runs.run_cons_some.mpr ⟨_, receive_step running, h⟩

/-- Retries that were spent on other credentials are missing for the new ones. -/
theorem spent_reaches {w : Watched} (range : RetryRange w.wifi)
    (running : w.wifi.restarting = false) (spent : w.wifi.retryNum ≠ 0) :
    ∃ next v, WatchRun w (.event .gotSsidPswd :: next) v ∧ ¬ RetryBudget v := by
  have hnonneg := range.nonneg
  have hle := range.le
  by_cases hall : w.wifi.retryNum = espMaxinumRetry
  · exact ⟨[], w.received, receive_run running rfl, not_budget_failed hall two_pos⟩
  · have few : w.received.wifi.retryNum < espMaxinumRetry := lt_of_le_of_ne hle hall
    let t := { w.received.wifi with retryNum := w.wifi.retryNum + 1 }
    have hevent : eventHandler w.received.wifi .staDisconnected = (t, [.connect]) := if_pos few
    have hwifi : wifiStep w.received.wifi (.event .staDisconnected) = some t := by
      rw [wifiStep, if_neg (by simp [Watched.received, running]), runningWifiStep, hevent]
    have hstep : watchStep w.received (.event .staDisconnected) = some ⟨t, 1, 2⟩ := by
      simp only [watchStep, hwifi, Watched.count, hevent]
      rfl
    refine ⟨[.event .staDisconnected], ⟨t, 1, 2⟩, receive_run running ?_, ?_⟩
    · exact Runs.run_cons_some.mpr ⟨_, hstep, rfl⟩
    · refine not_budget_failed ?_ one_lt_two
      change w.wifi.retryNum + 1 = espMaxinumRetry
      rw [espMaxinumRetry] at hle hall ⊢
      omega

/-- After a step to the waiting task, with a failure of other credentials in the event bits. -/
theorem waiting_reaches {w : Watched} {a : WifiLabel} (running : w.wifi.restarting = false)
    (fail : w.wifi.bits.wifiFail = true)
    (hstep : watchStep w.received a =
      some ⟨{ w.received.wifi with mode := .provisioning .waiting }, 0, 1⟩) :
    ∃ next v, WatchRun w (.event .gotSsidPswd :: next) v ∧ ¬ RetryBudget v := by
  let t := { w.received.wifi with mode := .provisioning .waiting }
  have hone : 1 < 3 := by decide
  obtain ⟨v, hrun, hlost⟩ := wake_fails (w := ⟨t, 0, 1⟩) running rfl fail rfl hone
  refine ⟨[a, .wake], v, receive_run running ?_, hlost⟩
  exact Runs.run_cons_some.mpr ⟨_, hstep, hrun⟩

/-- A failure of other credentials is taken for one of the new ones. -/
theorem failure_reaches {w : Watched} (running : w.wifi.restarting = false)
    (ahead : failureAhead w.wifi = true) :
    ∃ next v, WatchRun w (.event .gotSsidPswd :: next) v ∧ ¬ RetryBudget v := by
  have hrunning : w.received.wifi.restarting = false := running
  have htries : w.received.tries < 3 := Nat.succ_lt_succ Nat.two_pos
  cases hmode : w.wifi.mode with
  | connecting =>
      obtain ⟨hfail, hconnected⟩ : w.wifi.bits.wifiFail = true ∧ w.wifi.bits.connected = false := by
        simpa [failureAhead, hmode] using ahead
      let t := { w.received.wifi with mode := .provisioning .waiting }
      have hwifi : wifiStep w.received.wifi .connectToAp = some t := by
        simp [wifiStep, runningWifiStep, Watched.received, hmode, hconnected, running, t]
      have hstep : watchStep w.received .connectToAp = some ⟨t, 0, 1⟩ := by
        simp only [watchStep, hwifi]
        rfl
      exact waiting_reaches running hfail hstep
  | connected =>
      rw [failureAhead, hmode] at ahead
      cases ahead
  | provisioning task =>
      cases task with
      | waiting =>
          have hfail : w.received.wifi.bits.wifiFail = true := by
            rwa [failureAhead, hmode] at ahead
          obtain ⟨v, hrun, hlost⟩ := wake_fails hrunning hmode hfail rfl htries
          exact ⟨[.wake], v, receive_run running hrun, hlost⟩
      | woken uxBits =>
          by_cases fail : uxBits.wifiFail = true
          · exact ⟨[], w.received, receive_run running rfl,
              not_budget_restart hmode fail rfl htries⟩
          · obtain ⟨hfail, hdone⟩ : w.wifi.bits.wifiFail = true ∧ uxBits.esptouchDone = false := by
              simpa [failureAhead, hmode, fail] using ahead
            let t := { w.received.wifi with mode := .provisioning .waiting }
            have hpass : ∀ s, smartconfigPass s uxBits = none := by
              simp [smartconfigPass, fail, hdone]
            have hwifi : wifiStep w.received.wifi .pass = some t := by
              simp [wifiStep, runningWifiStep, Watched.received, hmode, running, hpass, t]
            have hstep : watchStep w.received .pass = some ⟨t, 0, 1⟩ := by
              simp only [watchStep, hwifi]
              rfl
            exact waiting_reaches running hfail hstep

/-- The counter never leaves its range. In a run in which credentials are only received with a clean
slate, no failure is reported and no restart follows from one before all retries are made; from any
state of such a run without a clean slate, credentials received there can lead to one. -/
theorem retry_budget {tr : List WifiLabel} {w : Watched} (h : WatchRun bootWatched tr w) :
    (0 ≤ w.wifi.retryNum ∧ w.wifi.retryNum ≤ espMaxinumRetry) ∧
      ((∀ pre a post u, tr = pre ++ a :: post → WatchRun bootWatched pre u → ReceivesClean u a) →
        RetryBudget w) ∧
      (w.wifi.restarting = false → ¬ CleanSlate w.wifi →
        ∃ next v, WatchRun w (.event .gotSsidPswd :: next) v ∧ ¬ RetryBudget v) := by
  have range := range_run h
  refine ⟨⟨range.nonneg, range.le⟩, fun clean => (retryInv_run h clean).budget, ?_⟩
  intro running stale
  by_cases spent : w.wifi.retryNum = 0
  · refine failure_reaches running ?_
    by_contra quiet
    exact stale ⟨spent, Bool.eq_false_of_not_eq_true quiet⟩
  · exact spent_reaches range running spent

/-- A boot without an access point in reach, and credentials that are refused three times. -/
def refusedCredentials : List WifiLabel :=
  [.event .staStart, .connectToAp] ++ .event .gotSsidPswd ::
    [.event .staDisconnected, .event .staDisconnected, .event .staDisconnected, .wake]

/-- The task restarts the system, after all attempts with the new credentials. -/
theorem retry_budget_provisioning :
    ∃ w uxBits, WatchRun bootWatched refusedCredentials w ∧ w.wifi.retryNum ≤ espMaxinumRetry ∧
      w.wifi.mode = .provisioning (.woken uxBits) ∧
      smartconfigPass w.wifi uxBits = some .connectErr ∧
      w.reconnects = espMaxinumRetry ∧ espMaxinumRetry + 1 ≤ w.tries := by
  have hother : ∀ a ≠ .event .gotSsidPswd, ∀ u, ReceivesClean u a :=
    fun a other u same => absurd same other
  have hclean : Runs.Guarded watchStep ReceivesClean bootWatched refusedCredentials := by
    refine .append (.of_forall fun a ha => hother a ?_) rfl ?_
    · rintro rfl
      simp at ha
    · refine .cons (fun _ => ⟨rfl, rfl⟩) rfl (.of_forall fun a ha => hother a ?_)
      rintro rfl
      simp at ha
  have hrun : WatchRun bootWatched refusedCredentials
      ⟨⟨2, true, noBits, .provisioning (.woken ⟨false, false, true⟩), false⟩, 2, 3⟩ := rfl
  obtain ⟨range, hbudget, -⟩ := retry_budget hrun
  have budget := hbudget hclean
  exact ⟨_, _, hrun, range.2, rfl, rfl, budget.fail List.mem_cons_self, budget.restart _ rfl rfl⟩

/-- A boot with a wrong password: the retries are spent when the right credentials arrive. -/
def wrongPassword : List WifiLabel :=
  [.event .staStart, .event .staDisconnected, .event .staDisconnected, .event .staDisconnected,
    .connectToAp, .wake, .pass, .event .gotSsidPswd, .event .staDisconnected, .wake]

/-- One failed attempt with the new credentials, and the task restarts the system. -/
theorem spent_retries_restart :
    ¬ ∀ tr w, WatchRun bootWatched tr w → RetryBudget w := by
  intro claim
  have hbudget := claim wrongPassword ⟨⟨2, true, noBits,
    .provisioning (.woken ⟨false, false, true⟩), false⟩, 0, 1⟩ rfl
  exact not_budget_restart rfl rfl rfl (by decide) hbudget

end Ddsu666
