/- The replies of web_handler.c: which readings `get_power_info` and `get_info_handle` put into
   their JSON objects, and in which format. -/
import Ddsu666.MeterReplies
import Ddsu666.StringHeap
import Ddsu666.UartTask
import Mathlib.Data.Rat.Floor

namespace Ddsu666
open StringHeap

structure WifiConfig where
  ssid : CString
  password : CString
  deriving DecidableEq

/-- What the board reports about itself at the moment. -/
structure BoardInfo (F : Type) where
  totalHeap : ℕ
  freeHeap : ℕ
  resetReason : Fin 16
  apSsid : CString
  apRssi : ℤ
  ip : Fin 4 → UInt8
  cpuFrequency : ℕ
  flashSize : ℕ
  fsTotal : ℕ
  fsUsed : ℕ
  temperature : F
  deriving DecidableEq

/-- The state outside the message handler: the variables of the UART task, the readings, the
debug switch, and what is stored in flash. -/
structure Device (F : Type) where
  task : TaskState
  meters : Meters F
  uartTxRxTimestamp : ℤ
  debug : Bool
  otaTag : Bool
  /-- `fopen("/spiffs/ota.txt", "w")` would succeed. -/
  canWriteTag : Bool
  wifi : WifiConfig
  tickCount : UInt32
  board : BoardInfo F
  deriving DecidableEq

/-- What the code takes from the board, from the C library and from cJSON. -/
structure Platform (F : Type) where
  mac : Fin 6 → UInt8
  tickRateHz : ℕ
  buildDate : CString
  coreVersion : CString
  idfVersion : CString
  /-- `printf("%.<digits>f", x)` -/
  fixed : ℕ → F → CString
  /-- `cJSON_Print` of an object with string members -/
  cJSONPrint : List (CString × CString) → CString
  grants : ℕ → Bool

/-- `printf("%d", z)` -/
def decimal : ℤ → CString
  | .ofNat n => ofChars (Nat.toDigits 10 n)
  | .negSucc n => ofChars ('-' :: Nat.toDigits 10 (n + 1))

/-- `printf("%02x", b)`, or `%02X` with capital digits. -/
def hexByte (capital : Bool) (b : UInt8) : CString :=
  let digit n := if capital then (Nat.digitChar n).toUpper else Nat.digitChar n
  ofChars [digit (b.toNat / 16), digit (b.toNat % 16)]

def joined (separator : CString) : List CString → CString
  | [] => ofString ""
  | [t] => t
  | t :: ts => t ++ separator ++ joined separator ts

def retBufferSize : ℕ := 128

/-- A text on its way through `ret_buffer`. -/
def buffered (t : CString) : CString := t.truncate (retBufferSize - 1)

/-- The macro `pdTICKS_TO_MS`: a 64-bit product, converted to `TickType_t`. -/
def pdTicksToMs (tickRateHz : ℕ) (ticks : UInt32) : UInt32 :=
  UInt32.ofNat (ticks.toNat * 1000 / tickRateHz)

def resetReasonStr : Fin 16 → String :=
  !["can not be determined", "power-on event", "external pin", "esp_restart", "exception/panic",
    "interrupt watchdog", "task watchdog", "other watchdogs", "exiting deep sleep mode",
    "browout reset", "SDIO", "USB peripheral", "JTAG", "efuse error", "power glitch detected",
    "CPU lock up"]

section Replies

variable {F : Type} [FloatArith F] (P : Platform F) (d : Device F)

/-- `(int)pdTICKS_TO_MS(..) / 1000`; the conversion to `int` comes before the division. -/
def secondsInt : ℤ := (pdTicksToMs P.tickRateHz d.tickCount).toInt32.toInt.tdiv 1000

def powerMembers : List (CString × CString) :=
  let thousand := FloatArith.ofNat 1000
  let m := d.meters
  [("volts", P.fixed 1 m.voltage),
    ("current", P.fixed 3 m.current),
    ("ap", P.fixed 1 (FloatArith.mul m.aPower thousand)),
    ("rp", P.fixed 1 (FloatArith.mul m.rPower thousand)),
    ("app", P.fixed 1 (FloatArith.mul m.apPower thousand)),
    ("pf", P.fixed 3 m.powerFactor),
    ("pfr", P.fixed 2 m.powerFrequency ++ ofString "Hz"),
    ("total_e", P.fixed 2 m.totalEngery),
    ("loop_count", decimal d.task.vars.loopCount),
    ("rec_wait", decimal d.task.vars.recWait ++ ofString "s"),
    ("after_loop", decimal (secondsInt P d - d.uartTxRxTimestamp) ++ ofString "s")].map
  fun member => (ofString member.1, buffered member.2)

/-- Members that pass through `ret_buffer`, and members added directly. -/
def infoMembers : List (CString × CString) :=
  let b := d.board
  let boot := (pdTicksToMs P.tickRateHz d.tickCount).toNat / 1000
  let octets := (List.finRange 4).map fun i => decimal (b.ip i).toNat
  let macBytes := (List.finRange 6).map fun i => hexByte false (P.mac i)
  [("boot", buffered (decimal boot ++ ofString "S")),
    ("total_heap", buffered (decimal ↑(b.totalHeap / 1024) ++ ofString "KB")),
    ("free_heap", buffered (decimal ↑(b.freeHeap / 1024) ++ ofString "KB")),
    ("reset_reason", ofString (resetReasonStr b.resetReason)),
    ("wifi_ssid", b.apSsid),
    ("wifi_ip", buffered (joined (ofString ".") octets)),
    ("wifi_mac", buffered (joined (ofString ":") macBytes)),
    ("wifi_rssi", buffered (decimal b.apRssi)),
    ("build_time", P.buildDate),
    ("core_version", P.coreVersion),
    ("sdk_version", P.idfVersion),
    ("cpu_freq", buffered (decimal b.cpuFrequency ++ ofString "MHz")),
    ("flash_size", buffered (decimal ↑(b.flashSize / 1024 / 1024) ++ ofString "MB")),
    ("fs_total", buffered (decimal ↑(b.fsTotal / 1024) ++ ofString "KB")),
    ("fs_used", buffered (decimal ↑(b.fsUsed / 1024) ++ ofString "KB")),
    ("core_t", buffered (P.fixed 1 b.temperature)),
    ("is_debug", buffered (decimal (if d.debug then 1 else 0)))].map
  fun member => (ofString member.1, member.2)

end Replies

/-- The chip id: every second byte of the address, in capital hexadecimal digits. -/
def chipIdText {F : Type} (P : Platform F) : CString :=
  hexByte true (P.mac 0) ++ hexByte true (P.mac 2) ++ hexByte true (P.mac 4)

theorem buffered_length (t : CString) : (buffered t).1.length < retBufferSize := by
  have htake : (buffered t).1.length ≤ retBufferSize - 1 := List.length_take_le _ _
  exact Nat.lt_of_le_pred (by decide) htake

/-- No reading of the meter makes a member longer than the buffer it passes through. -/
theorem powerMembers_short {F : Type} [FloatArith F] (P : Platform F) (d : Device F) :
    ∀ member ∈ powerMembers P d, member.2.1.length < retBufferSize := by
  intro member found
  obtain ⟨source, _, rfl⟩ := List.mem_map.mp found
  exact buffered_length source.2

/-! A board with the arithmetic of the machine, and with the two formats spelled out. -/

/-- The number of units that `x` rounds to, halves to the even neighbour. -/
def roundHalfEven (x : ℚ) : ℕ :=
  let n := ⌊x⌋.toNat
  if x - n > 1 / 2 ∨ (x - n = 1 / 2 ∧ n % 2 = 1) then n + 1 else n

def fixedRat (digits : ℕ) (q : ℚ) : CString :=
  let n := roundHalfEven (q * 10 ^ digits)
  let decimals := Nat.toDigits 10 (n % 10 ^ digits)
  let padding := List.replicate (digits - decimals.length) '0'
  ofChars (Nat.toDigits 10 (n / 10 ^ digits) ++ ['.'] ++ padding ++ decimals)

def signText : Float.Model.UnpackedFloat.Sign → CString
  | .positive => ofString ""
  | .negative => ofString "-"

/-- `%.*f` -/
def fixedSingle (digits : ℕ) (x : Float32) : CString :=
  match x.toModel.unpack with
  | .finite s m e _ => signText s ++ fixedRat digits (m * 2 ^ e)
  | .zero s => signText s ++ fixedRat digits 0
  | .infinity s => signText s ++ ofString "inf"
  | .notANumber => ofString "nan"

def escapeByte (b : UInt8) : CString :=
  if b = 34 then ofString "\\\""
  else if b = 92 then ofString "\\\\"
  else if b = 8 then ofString "\\b"
  else if b = 12 then ofString "\\f"
  else if b = 10 then ofString "\\n"
  else if b = 13 then ofString "\\r"
  else if b = 9 then ofString "\\t"
  else if b < 32 then ofString "\\u00" ++ hexByte false b
  else textOf [b]

def quoted (t : CString) : CString :=
  ofString "\"" ++ joined (ofString "") (t.1.map escapeByte) ++ ofString "\""

/-- An object with string members, one member a line. -/
def printObject (members : List (CString × CString)) : CString :=
  let line member := ofString "\t" ++ quoted member.1 ++ ofString ":\t" ++ quoted member.2
  ofString "\x7b\n" ++ joined (ofString ",\n") (members.map line) ++ ofString "\n\x7d"

def sampleBoard : Platform Float32 where
  mac := ![0x34, 0x85, 0x18, 0x01, 0x02, 0x03]
  tickRateHz := 100
  buildDate := ofString "Dec 15 2024"
  coreVersion := ofString "13:01:05-6s6f"
  idfVersion := ofString "v5.3.2"
  fixed := fixedSingle
  cJSONPrint := printObject
  grants := fun _ => true

/-- A device shortly after boot, with a connection and no reading yet. -/
def sampleDevice : Device Float32 where
  task := bootTask
  meters := initialMeters
  uartTxRxTimestamp := 0
  debug := false
  otaTag := false
  canWriteTag := true
  wifi := ⟨ofString "home", ofString "secret123"⟩
  tickCount := 700
  board := ⟨327680, 204800, 1, ofString "home", -61, ![192, 168, 1, 20], 160, 4194304, 956561,
    251, ⟨Float32.Model.ofBits 0x420A0000⟩⟩

end Ddsu666
