/- WiFi credentials in wifimanager.c: from the provisioning event into flash, and at the next boot
   from flash into the configuration of the station, every array checked. -/
import Ddsu666.CheckedBuffer
import Ddsu666.StringHeap

namespace Ddsu666
open CheckedBuffer
open StringHeap (CString ofString)

inductive AuthMode where
  | authOpen
  | wpaWpa2Psk
  deriving DecidableEq

/-- The fields of `wifi_config_t.sta` that the code sets. -/
structure StaConfig where
  ssid : Buffer UInt8
  password : Buffer UInt8
  authmode : AuthMode
  pmfCapable : Bool
  pmfRequired : Bool
  deriving DecidableEq

def zeros (n : ℕ) : Buffer UInt8 := List.replicate n (some 0)

def zeroedConfig : StaConfig := ⟨zeros 32, zeros 64, .authOpen, false, false⟩

/-- The two arrays of `smartconfig_event_got_ssid_pswd_t`. -/
structure GotSsidPswd where
  ssid : Buffer UInt8
  password : Buffer UInt8

/-- The configuration that `SC_EVENT_GOT_SSID_PSWD` stores; the longer local arrays are logged. -/
def gotSsidPswd (evt : GotSsidPswd) : Except Fault StaConfig := do
  let ssid := zeros 33
  let password := zeros 65
  let wifiConfig := zeroedConfig
  let staSsid ← copyLoop evt.ssid wifiConfig.ssid 0 wifiConfig.ssid.length
  let staPassword ← copyLoop evt.password wifiConfig.password 0 wifiConfig.password.length
  let ssid ← copyLoop evt.ssid ssid 0 evt.ssid.length
  let password ← copyLoop evt.password password 0 evt.password.length
  let _ ← loadsUntil 0 ssid 0
  let _ ← loadsUntil 0 password 0
  return { wifiConfig with ssid := staSsid, password := staPassword }

/-- `strcpy` into an array from its beginning. -/
def strcpy (dst src : Buffer UInt8) : Except Fault (Buffer UInt8) := copyUntil 0 src 0 dst

/-- The configuration with which the station is started. -/
def wifiConnectToAp (ssid password : Buffer UInt8) : Except Fault StaConfig := do
  let authmode := if (← load password 0) = 0 then AuthMode.authOpen else .wpaWpa2Psk
  let staConfig := { zeroedConfig with authmode := authmode, pmfCapable := true }
  let staSsid ← strcpy staConfig.ssid ssid
  let staPassword ← strcpy staConfig.password password
  let _ ← loadsUntil 0 ssid 0
  let _ ← loadsUntil 0 password 0
  return { staConfig with ssid := staSsid, password := staPassword }

/-- The stored arrays are passed on as strings, and logged once more whatever came of it. -/
def wifiInit (flash : StaConfig) : Except Fault StaConfig := do
  let station ← wifiConnectToAp flash.ssid flash.password
  let _ ← loadsUntil 0 flash.ssid 0
  let _ ← loadsUntil 0 flash.password 0
  return station

def provisionAndReboot (evt : GotSsidPswd) : Except Fault StaConfig := do
  wifiInit (← gotSsidPswd evt)

/-- What a phone can send. -/
structure Credentials where
  ssid : CString
  password : CString
  ssid_pos : 1 ≤ ssid.1.length
  ssid_size : ssid.1.length ≤ 32
  password_size : password.1.length ≤ 64

def padded (n : ℕ) (t : CString) : List UInt8 := t.1 ++ List.replicate (n - t.1.length) 0

def Credentials.event (c : Credentials) : GotSsidPswd :=
  ⟨(padded 32 c.ssid).map some, (padded 64 c.password).map some⟩

/-- After the next boot the station is configured with what was received, and every access on the
way was inside its array. -/
def Credentials.Survive (c : Credentials) : Prop :=
  ∃ station, provisionAndReboot c.event = .ok station ∧
    station.ssid = (padded 32 c.ssid).map some ∧ station.password = (padded 64 c.password).map some

section Arrays

variable {n : ℕ} {t : CString}

theorem length_padded (size : t.1.length ≤ n) : (padded n t).length = n := by
  rw [padded, List.length_append, List.length_replicate]
  omega

/-- A text that is shorter than its array is followed by a terminator. -/
theorem padded_terminated (short : t.1.length < n) :
    (padded n t).map some = t.1.map some ++ some 0 :: zeros (n - (t.1.length + 1)) := by
  have hsplit : n - t.1.length = n - (t.1.length + 1) + 1 := by omega
  rw [padded, List.map_append, List.map_replicate, hsplit, List.replicate_succ]
  rfl

/-- A text of the size of its array is all there is. -/
theorem padded_full (full : t.1.length = n) : padded n t = t.1 := by
  rw [padded, full, Nat.sub_self, List.replicate_zero, List.append_nil]

theorem strcpy_padded (short : t.1.length < n) :
    strcpy (zeros n) ((padded n t).map some) = .ok ((padded n t).map some) := by
  have hcopy := copyUntil_append [] t.1 t.2 (zeros (n - (t.1.length + 1))) (zeros n)
    (by rwa [zeros, List.length_replicate])
  rw [strcpy, padded_terminated short]
  refine hcopy.trans ?_
  simp [zeros]

theorem strcpy_full (full : t.1.length = n) (dst : Buffer UInt8) :
    ∃ f, strcpy dst ((padded n t).map some) = .error f := by
  rw [padded_full full]
  exact copyUntil_unterminated t.1 t.2 dst 0

theorem log_padded (short : t.1.length < n) :
    loadsUntil 0 ((padded n t).map some) 0 = .ok t.1 := by
  rw [padded_terminated short]
  exact loadsUntil_append t.1 t.2 _ 0

/-- An array of the source fits where there is room for it, and leaves zeros behind it. -/
theorem copyLoop_padded {m : ℕ} (size : t.1.length ≤ n) (room : n ≤ m) :
    copyLoop ((padded n t).map some) (zeros m) 0 n = .ok ((padded m t).map some) := by
  have hlength := length_padded size
  have hroom : (padded n t).length ≤ (zeros m).length := by
    rwa [hlength, zeros, List.length_replicate]
  have hcopy := copyLoop_holds (holds_map (padded n t)) hroom
  have hsplit : m - t.1.length = (n - t.1.length) + (m - n) := by omega
  rw [hlength] at hcopy
  rw [hcopy, padded, padded, hsplit, List.replicate_add]
  simp [zeros]

end Arrays

section Flow

variable (c : Credentials)

/-- The event stores both arrays as they are. -/
theorem gotSsidPswd_event :
    gotSsidPswd c.event = .ok { zeroedConfig with
      ssid := (padded 32 c.ssid).map some, password := (padded 64 c.password).map some } := by
  have hssid : (zeroedConfig.ssid).length = 32 := rfl
  have hpassword : (zeroedConfig.password).length = 64 := rfl
  have hsource : c.event.ssid.length = 32 := by
    rw [Credentials.event, List.length_map, length_padded c.ssid_size]
  have hsource' : c.event.password.length = 64 := by
    rw [Credentials.event, List.length_map, length_padded c.password_size]
  have hlog := log_padded (t := c.ssid) (n := 33) (Nat.lt_succ_of_le c.ssid_size)
  have hlog' := log_padded (t := c.password) (n := 65) (Nat.lt_succ_of_le c.password_size)
  have hcopy := fun m (room : 32 ≤ m) => copyLoop_padded (m := m) c.ssid_size room
  have hcopy' := fun m (room : 64 ≤ m) => copyLoop_padded (m := m) c.password_size room
  simp only [gotSsidPswd, hssid, hpassword, hsource, hsource']
  simp only [Credentials.event, zeroedConfig, hcopy 32 (by omega), hcopy' 64 (by omega),
    hcopy 33 (by omega), hcopy' 65 (by omega), bind, Except.bind, hlog, hlog']
  rfl

theorem load_password : ∃ b, load ((padded 64 c.password).map some) 0 = .ok b := by
  have hsize := length_padded c.password_size
  exact ⟨_, (holds_map _).load (by rw [hsize]; decide)⟩

variable {c}

/-- With room for both terminators everything is copied. -/
theorem wifiInit_fits (hssid : c.ssid.1.length < 32) (hpassword : c.password.1.length < 64) :
    ∃ station, provisionAndReboot c.event = .ok station ∧
      station.ssid = (padded 32 c.ssid).map some ∧
      station.password = (padded 64 c.password).map some := by
  obtain ⟨b, hb⟩ := load_password c
  refine ⟨⟨_, _, if b = 0 then .authOpen else .wpaWpa2Psk, true, false⟩, ?_, rfl, rfl⟩
  simp only [provisionAndReboot, gotSsidPswd_event, wifiInit, wifiConnectToAp, zeroedConfig, bind,
    Except.bind, hb, strcpy_padded hssid, strcpy_padded hpassword, log_padded hssid,
    log_padded hpassword]
  rfl

theorem wifiInit_full (full : c.ssid.1.length = 32 ∨ c.password.1.length = 64) :
    ∃ f, provisionAndReboot c.event = .error f := by
  obtain ⟨b, hb⟩ := load_password c
  by_cases hssid : c.ssid.1.length = 32
  · obtain ⟨f, hf⟩ := strcpy_full hssid (zeros 32)
    refine ⟨f, ?_⟩
    simp only [provisionAndReboot, gotSsidPswd_event, wifiInit, wifiConnectToAp, zeroedConfig, bind,
      Except.bind, hb, hf]
  · have hshort : c.ssid.1.length < 32 := lt_of_le_of_ne c.ssid_size hssid
    obtain ⟨f, hf⟩ := strcpy_full (full.resolve_left hssid) (zeros 64)
    refine ⟨f, ?_⟩
    simp only [provisionAndReboot, gotSsidPswd_event, wifiInit, wifiConnectToAp, zeroedConfig, bind,
      Except.bind, hb, strcpy_padded hshort, hf]

theorem not_survive_full (full : c.ssid.1.length = 32 ∨ c.password.1.length = 64) :
    ¬ c.Survive := by
  rintro ⟨station, hok, -⟩
  obtain ⟨f, hf⟩ := wifiInit_full full
  rw [hf] at hok
  cases hok

/-- Credentials come through a reboot exactly when both leave room for a terminator. -/
theorem credentials_survive_iff (c : Credentials) :
    c.Survive ↔ c.ssid.1.length ≤ 31 ∧ c.password.1.length ≤ 63 := by
  constructor
  · intro survive
    have hssid := c.ssid_size
    have hpassword := c.password_size
    by_contra long
    refine not_survive_full ?_ survive
    omega
  · rintro ⟨hssid, hpassword⟩
    exact wifiInit_fits (by omega) (by omega)

/-- The longest name a network can have. -/
def longestSsid : Credentials where
  ssid := ⟨List.replicate 32 0x61, by decide⟩
  password := ofString "secret123"
  ssid_pos := by decide
  ssid_size := by decide
  password_size := by decide

theorem longest_ssid_overruns : ¬ ∀ c : Credentials, c.Survive := by
  intro claim
  exact not_survive_full (.inl (by decide)) (claim longestSsid)

end Flow

end Ddsu666
