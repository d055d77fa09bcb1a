/- The credentials over the life of the device: provisioned, reset and read again at every boot, in
   any order and any number of times. -/
import Ddsu666.WifiCredentials
import Mathlib.Data.List.Induction

namespace Ddsu666
open CheckedBuffer
open StringHeap (CString ofString)

/-- What is in flash, and the configuration that the station runs with. -/
structure StationState where
  flash : StaConfig
  station : Option StaConfig

inductive StationLabel where
  | boot
  | provision (c : Credentials)
  | reset

/-- The station is given a configuration. -/
def StationLabel.configures : StationLabel → Bool
  | .boot | .provision _ => true
  | .reset => false

/-- A configuration that is set is stored in flash too. -/
def wifiEvent (s : StationState) : StationLabel → Except Fault StationState
  | .boot => do
      let station ← wifiInit s.flash
      return ⟨station, some station⟩
  | .provision c => do
      let station ← gotSsidPswd c.event
      return ⟨station, some station⟩
  | .reset => return ⟨zeroedConfig, none⟩

def wifiRun (s : StationState) (tr : List StationLabel) : Except Fault StationState :=
  tr.foldlM wifiEvent s

/-- A device without credentials. -/
def blankWifi : StationState := ⟨zeroedConfig, none⟩

/-! What the flash is for: the name and the password that were given last. -/

structure Login where
  ssid : CString
  password : CString

def noLogin : Login := ⟨ofString "", ofString ""⟩

def Login.after (l : Login) : StationLabel → Login
  | .boot => l
  | .provision c => ⟨c.ssid, c.password⟩
  | .reset => noLogin

def lastLogin (tr : List StationLabel) : Login := tr.foldl Login.after noLogin

/-- Both leave room for a terminator. -/
def Login.Fits (l : Login) : Prop := l.ssid.1.length ≤ 31 ∧ l.password.1.length ≤ 63

/-- Every boot finds credentials that fit. -/
def BootsFit (tr : List StationLabel) : Prop :=
  ∀ pre post, tr = pre ++ .boot :: post → (lastLogin pre).Fits

/-- The arrays of a configuration hold a login. -/
structure StaConfig.Keeps (s : StaConfig) (l : Login) : Prop where
  ssid : s.ssid = (padded 32 l.ssid).map some
  password : s.password = (padded 64 l.password).map some
  ssid_size : l.ssid.1.length ≤ 32
  password_size : l.password.1.length ≤ 64

/-- The mode that `wifi_connect_to_ap` chooses for a password. -/
def Login.authmode (l : Login) : AuthMode :=
  if l.password.1 = [] then .authOpen else .wpaWpa2Psk

theorem keeps_zeroed : zeroedConfig.Keeps noLogin := ⟨by decide, by decide, by decide, by decide⟩

section Boots

variable {s : StaConfig} {l : Login} (keeps : s.Keeps l)

include keeps

/-- The first cell is zero only in the empty password. -/
theorem StaConfig.Keeps.load_first :
    ∃ b, load s.password 0 = .ok b ∧ (b = 0 ↔ l.password.1 = []) := by
  rw [keeps.password]
  have hsize := length_padded keeps.password_size
  refine ⟨_, (holds_map _).load (by rw [hsize]; decide), ?_⟩
  cases hpassword : l.password.1 with
  | nil => simp [padded, hpassword]
  | cons b bs =>
      have hne : b ≠ 0 := by
        rintro rfl
        exact l.password.2 (by rw [hpassword]; exact List.mem_cons_self)
      simp [padded, hpassword, hne]

theorem StaConfig.Keeps.boots (fits : l.Fits) :
    ∃ t, wifiInit s = .ok t ∧ t.Keeps l ∧ t.authmode = l.authmode := by
  obtain ⟨b, hb, hempty⟩ := keeps.load_first
  have hssid : l.ssid.1.length < 32 := Nat.lt_succ_of_le fits.1
  have hpassword : l.password.1.length < 64 := Nat.lt_succ_of_le fits.2
  rw [keeps.password] at hb
  refine ⟨⟨_, _, if b = 0 then .authOpen else .wpaWpa2Psk, true, false⟩, ?_,
    ⟨rfl, rfl, keeps.ssid_size, keeps.password_size⟩, if_congr hempty rfl rfl⟩
  simp only [wifiInit, wifiConnectToAp, zeroedConfig, keeps.ssid, keeps.password, bind, Except.bind,
    hb, strcpy_padded hssid, strcpy_padded hpassword, log_padded hssid, log_padded hpassword]
  rfl

/-- Without a terminator `strcpy` runs past the end of its array. -/
theorem StaConfig.Keeps.overruns (full : ¬ l.Fits) : ∃ f, wifiInit s = .error f := by
  obtain ⟨b, hb, -⟩ := keeps.load_first
  rw [keeps.password] at hb
  have hsize := keeps.ssid_size
  have hsize' := keeps.password_size
  by_cases hssid : l.ssid.1.length = 32
  · obtain ⟨f, hf⟩ := strcpy_full hssid (zeros 32)
    refine ⟨f, ?_⟩
    simp only [wifiInit, wifiConnectToAp, zeroedConfig, keeps.ssid, keeps.password, bind,
      Except.bind, hb, hf]
  · have hshort : l.ssid.1.length < 32 := lt_of_le_of_ne hsize hssid
    have hpassword : l.password.1.length = 64 := by
      by_contra short
      exact full ⟨by omega, by omega⟩
    obtain ⟨f, hf⟩ := strcpy_full hpassword (zeros 64)
    refine ⟨f, ?_⟩
    simp only [wifiInit, wifiConnectToAp, zeroedConfig, keeps.ssid, keeps.password, bind,
      Except.bind, hb, strcpy_padded hshort, hf]

end Boots

theorem provision_keeps (c : Credentials) :
    ∃ t, gotSsidPswd c.event = .ok t ∧ t.Keeps ⟨c.ssid, c.password⟩ :=
  ⟨_, gotSsidPswd_event c, rfl, rfl, c.ssid_size, c.password_size⟩

/-! Whole lives. -/

section Lives

variable {tr : List StationLabel} {a : StationLabel} {s t : StationState}

theorem lastLogin_snoc : lastLogin (tr ++ [a]) = (lastLogin tr).after a := List.foldl_append

theorem wifiRun_snoc (s : StationState) (tr : List StationLabel) (a : StationLabel) :
    wifiRun s (tr ++ [a]) = wifiRun s tr >>= fun t => wifiEvent t a := by
  rw [wifiRun, List.foldlM_append]
  refine congrArg _ (funext fun t => ?_)
  rw [List.foldlM_cons]
  cases wifiEvent t a with
  | error f => rfl
  | ok u => rfl

theorem bootsFit_snoc :
    BootsFit (tr ++ [a]) ↔ BootsFit tr ∧ (a = .boot → (lastLogin tr).Fits) := by
  constructor
  · intro fits
    refine ⟨?_, ?_⟩
    · rintro pre post rfl
      exact fits pre (post ++ [a]) (by simp)
    · rintro rfl
      exact fits tr [] rfl
  · rintro ⟨earlier, last⟩ pre post hsplit
    rcases List.eq_nil_or_concat post with rfl | ⟨post, b, rfl⟩
    · obtain ⟨rfl, hlast⟩ := List.append_inj' hsplit rfl
      exact last (List.singleton_injective hlast)
    · rw [List.concat_eq_append, ← List.cons_append, ← List.append_assoc] at hsplit
      obtain ⟨rfl, -⟩ := List.append_inj' hsplit rfl
      exact earlier pre post rfl

/-- What a life so far has left behind. -/
structure Lived (tr : List StationLabel) (s : StationState) : Prop where
  keeps : s.flash.Keeps (lastLogin tr)
  station : s.station =
    if tr.getLast?.any StationLabel.configures then some s.flash else none
  booted : ∀ pre, tr = pre ++ [.boot] → s.flash.authmode = (lastLogin tr).authmode

theorem Lived.event (lived : Lived tr s) (fits : a = .boot → (lastLogin tr).Fits) :
    ∃ t, wifiEvent s a = .ok t ∧ Lived (tr ++ [a]) t := by
  have hother : ∀ pre, a ≠ .boot → tr ++ [a] = pre ++ [.boot] → False := by
    intro pre other hsplit
    exact other (List.singleton_injective (List.append_inj' hsplit rfl).2)
  cases a with
  | boot =>
      obtain ⟨t, hinit, hkeeps, hmode⟩ := lived.keeps.boots (fits rfl)
      refine ⟨⟨t, some t⟩, ?_, ?_, ?_, fun _ _ => ?_⟩
      · rw [wifiEvent, hinit]
        rfl
      · rw [lastLogin_snoc]
        exact hkeeps
      · rw [List.getLast?_concat]
        rfl
      · rw [lastLogin_snoc]
        exact hmode
  | provision c =>
      obtain ⟨t, hstored, hkeeps⟩ := provision_keeps c
      refine ⟨⟨t, some t⟩, ?_, ?_, ?_,
        fun pre hsplit => (hother pre (nomatch ·) hsplit).elim⟩
      · rw [wifiEvent, hstored]
        rfl
      · rw [lastLogin_snoc]
        exact hkeeps
      · rw [List.getLast?_concat]
        rfl
  | reset =>
      refine ⟨⟨zeroedConfig, none⟩, rfl, ?_, ?_,
        fun pre hsplit => (hother pre (nomatch ·) hsplit).elim⟩
      · rw [lastLogin_snoc]
        exact keeps_zeroed
      · rw [List.getLast?_concat]
        rfl

/-- As long as every boot finds credentials that fit nothing goes wrong, and no longer. -/
theorem lived_run (tr : List StationLabel) :
    (BootsFit tr → ∃ s, wifiRun blankWifi tr = .ok s ∧ Lived tr s) ∧
      (¬ BootsFit tr → ∃ f, wifiRun blankWifi tr = .error f) := by
  induction tr using List.reverseRecOn with
  | nil =>
      refine ⟨fun _ => ⟨blankWifi, rfl, keeps_zeroed, rfl, ?_⟩, fun bad => ?_⟩
      · intro pre hsplit
        simp at hsplit
      · refine absurd ?_ bad
        intro pre post hsplit
        simp at hsplit
  | append_singleton tr a ih =>
      rw [bootsFit_snoc, wifiRun_snoc]
      by_cases earlier : BootsFit tr
      · obtain ⟨s, hrun, lived⟩ := ih.1 earlier
        rw [hrun]
        refine ⟨fun fits => lived.event fits.2, fun bad => ?_⟩
        obtain ⟨rfl, full⟩ : a = .boot ∧ ¬ (lastLogin tr).Fits := by
          by_contra h
          exact bad ⟨earlier, fun hboot => by_contra fun hfull => h ⟨hboot, hfull⟩⟩
        obtain ⟨f, hf⟩ := lived.keeps.overruns full
        refine ⟨f, ?_⟩
        change (wifiInit s.flash >>= _) = _
        rw [hf]
        rfl
      · obtain ⟨f, hrun⟩ := ih.2 earlier
        rw [hrun]
        exact ⟨fun fits => absurd fits.1 earlier, fun _ => ⟨f, rfl⟩⟩

/-- However often the device is provisioned, reset and booted, its flash holds what it was given
last; after a boot or a provisioning the station runs with that, and after a boot without a
password in open mode; an array is overrun exactly when a boot finds a name of 32 or a password of
64 bytes. -/
theorem wifi_lives (tr : List StationLabel) :
    ((∃ s, wifiRun blankWifi tr = .ok s) ↔ BootsFit tr) ∧
      ∀ s, wifiRun blankWifi tr = .ok s → Lived tr s := by
  have hrun := lived_run tr
  by_cases fits : BootsFit tr
  · obtain ⟨s, hs, lived⟩ := hrun.1 fits
    refine ⟨⟨fun _ => fits, fun _ => ⟨s, hs⟩⟩, fun t ht => ?_⟩
    rw [hs] at ht
    obtain rfl := Except.ok.inj ht
    exact lived
  · obtain ⟨f, hf⟩ := hrun.2 fits
    have hnone : ∀ s, wifiRun blankWifi tr ≠ .ok s := by
      intro s hs
      rw [hf] at hs
      cases hs
    exact ⟨⟨fun ⟨s, hs⟩ => (hnone s hs).elim, fun h => absurd h fits⟩,
      fun s hs => (hnone s hs).elim⟩

end Lives

end Ddsu666
