/- Reception of meter replies: `get_rec_data` of uart.c and the two printing routines of tools.c
   that store what they decode. -/
import Ddsu666.MeterFloat
import Ddsu666.ModbusCrc
import Mathlib.Data.Fin.VecNotation

namespace Ddsu666
open CheckedBuffer

/-- The global meter variables. -/
structure Meters (F : Type) where
  voltage : F
  current : F
  aPower : F
  rPower : F
  apPower : F
  powerFactor : F
  powerFrequency : F
  totalEngery : F
  deriving DecidableEq

section Code

variable {F : Type} [FloatArith F]

def initialMeters : Meters F :=
  ⟨FloatArith.zero, FloatArith.zero, FloatArith.zero, FloatArith.zero, FloatArith.zero,
    FloatArith.zero, FloatArith.zero, FloatArith.zero⟩

/-- The loop that copies four bytes at `ptr` into `ints_4`. -/
def ints4 (bytes : Buffer UInt8) (ptr : ℕ) : Except Fault (Fin 4 → ℕ) := do
  let b0 ← load bytes (ptr + 0)
  let b1 ← load bytes (ptr + 1)
  let b2 ← load bytes (ptr + 2)
  let b3 ← load bytes (ptr + 3)
  return ![b0.toNat, b1.toNat, b2.toNat, b3.toNat]

def printDdsu666Params (bytes : Buffer UInt8) (m : Meters F) : Except Fault (Meters F) := do
  let v := floatFrom8hex (← ints4 bytes 3)
  let m := { m with voltage := v }
  let c := floatFrom8hex (← ints4 bytes 7)
  let m := { m with current := c }
  let ap := floatFrom8hex (← ints4 bytes 11)
  let m := { m with aPower := ap }
  let rp := floatFrom8hex (← ints4 bytes 15)
  let m := { m with rPower := rp }
  let apP := floatFrom8hex (← ints4 bytes 19)
  let m := { m with apPower := apP }
  let pF := floatFrom8hex (← ints4 bytes 23)
  let m := { m with powerFactor := pF }
  let pFr := floatFrom8hex (← ints4 bytes 31)
  return { m with powerFrequency := pFr }

def printDdsu666TotalEnergy (bytes : Buffer UInt8) (m : Meters F) : Except Fault (Meters F) := do
  let energy := floatFrom8hex (← ints4 bytes 3)
  return { m with totalEngery := energy }

/-- The local array `hexArray` starts without contents; only the length selects the decoder. -/
def getRecData (dataRecP : Buffer UInt8) (dataRecLen : ℤ) (m : Meters F) :
    Except Fault (Meters F) :=
  if dataRecLen > 0 then do
    let hexArray ← copyLoop dataRecP (fresh 128) 0 dataRecLen.toNat
    let m ← if dataRecLen = 41 then printDdsu666Params hexArray m else pure m
    if dataRecLen = 9 then printDdsu666TotalEnergy hexArray m else pure m
  else
    return m

end Code

/-- Four consecutive bytes of a message as the decoder takes them. -/
def wordAt (bytes : List UInt8) (ptr : ℕ) : Fin 4 → ℕ := fun z => (bytes.getD (ptr + z) 0).toNat

theorem wordAt_small (bytes : List UInt8) (ptr : ℕ) (j : Fin 4) : wordAt bytes ptr j < 2 ^ 8 :=
  UInt8.toNat_lt _

/-- What a string of at least 35 bytes makes of the seven instantaneous readings. -/
def decodedParams {F : Type} [FloatArith F] (bytes : List UInt8) (m : Meters F) : Meters F where
  voltage := floatFrom8hex (wordAt bytes 3)
  current := floatFrom8hex (wordAt bytes 7)
  aPower := floatFrom8hex (wordAt bytes 11)
  rPower := floatFrom8hex (wordAt bytes 15)
  apPower := floatFrom8hex (wordAt bytes 19)
  powerFactor := floatFrom8hex (wordAt bytes 23)
  powerFrequency := floatFrom8hex (wordAt bytes 31)
  totalEngery := m.totalEngery

def decodedEnergy {F : Type} [FloatArith F] (bytes : List UInt8) (m : Meters F) : Meters F :=
  { m with totalEngery := floatFrom8hex (wordAt bytes 3) }

/-- The effect of a received byte string: its length alone selects the decoder. -/
def received {F : Type} [FloatArith F] (bytes : List UInt8) (m : Meters F) : Meters F :=
  if bytes.length = 41 then decodedParams bytes m
  else if bytes.length = 9 then decodedEnergy bytes m
  else m

section Reception

variable {F : Type} [FloatArith F] {buf : Buffer UInt8} {bytes : List UInt8} (h : Holds buf bytes)

include h

theorem ints4_ok (ptr : ℕ) (inside : ptr + 4 ≤ bytes.length) :
    ints4 buf ptr = .ok (wordAt bytes ptr) := by
  have hcell : ∀ i, i < bytes.length → load buf i = .ok (bytes.getD i 0) := by
    intro i hi
    rw [h.load hi, List.getD_eq_getElem _ _ hi]
  simp only [ints4, hcell (ptr + 0) (by omega), hcell (ptr + 1) (by omega),
    hcell (ptr + 2) (by omega), hcell (ptr + 3) (by omega)]
  refine congrArg Except.ok (funext fun z => ?_)
  fin_cases z <;> rfl

theorem printDdsu666Params_ok (inside : 35 ≤ bytes.length) (m : Meters F) :
    printDdsu666Params buf m = .ok (decodedParams bytes m) := by
  simp only [printDdsu666Params, ints4_ok h 3 (by omega), ints4_ok h 7 (by omega),
    ints4_ok h 11 (by omega), ints4_ok h 15 (by omega),
    ints4_ok h 19 (by omega), ints4_ok h 23 (by omega),
    ints4_ok h 31 (by omega)]
  rfl

theorem printDdsu666TotalEnergy_ok (inside : 7 ≤ bytes.length) (m : Meters F) :
    printDdsu666TotalEnergy buf m = .ok (decodedEnergy bytes m) := by
  simp only [printDdsu666TotalEnergy, ints4_ok h 3 (by omega)]
  rfl

/-- Every access of the reception is inside its array, up to the size of `hexArray`. -/
theorem getRecData_ok (small : bytes.length ≤ 128) (m : Meters F) :
    getRecData buf bytes.length m = .ok (received bytes m) := by
  rcases Nat.eq_zero_or_pos bytes.length with hzero | hpos
  · simp [getRecData, received, hzero]
    rfl
  · obtain ⟨hexArray, hcopy, hheld⟩ := copyLoop_fresh h small
    have hlen : (bytes.length : ℤ).toNat = bytes.length := rfl
    have hgt : (bytes.length : ℤ) > 0 := by omega
    simp only [getRecData, if_pos hgt, hlen, hcopy]
    by_cases h41 : bytes.length = 41
    · have hparams := printDdsu666Params_ok hheld (by omega) m
      simp [received, h41, hparams, bind, Except.bind, pure, Except.pure]
    · by_cases h9 : bytes.length = 9
      · have henergy := printDdsu666TotalEnergy_ok hheld (by omega) m
        simp [received, h9, henergy, bind, Except.bind, pure, Except.pure]
      · have h41' : (bytes.length : ℤ) ≠ 41 := by omega
        have h9' : (bytes.length : ℤ) ≠ 9 := by omega
        simp [received, h41, h9, h41', h9', bind, Except.bind, pure, Except.pure]

end Reception

theorem received_params {F : Type} [FloatArith F] {bytes : List UInt8} (h : bytes.length = 41)
    (m : Meters F) : received bytes m = decodedParams bytes m := if_pos h

theorem received_energy {F : Type} [FloatArith F] {bytes : List UInt8} (h : bytes.length = 9)
    (m : Meters F) : received bytes m = decodedEnergy bytes m := by
  rw [received, if_neg (by omega), if_pos h]

theorem received_other {F : Type} [FloatArith F] {bytes : List UInt8} (h41 : bytes.length ≠ 41)
    (h9 : bytes.length ≠ 9) (m : Meters F) : received bytes m = m := by
  rw [received, if_neg h41, if_neg h9]

theorem getRecData_silence {F : Type} [FloatArith F] (buf : Buffer UInt8) {len : ℤ} (h : len ≤ 0)
    (m : Meters F) : getRecData buf len m = .ok m := by
  rw [getRecData, if_neg (by omega)]
  rfl

/-- The readings change only after 41 or 9 bytes, and then to what lies at the fixed offsets:
neither address, function code, byte count nor check bytes are consulted. -/
theorem getRecData_changes {F : Type} [FloatArith F] {buf : Buffer UInt8} {bytes : List UInt8}
    (h : Holds buf bytes) (small : bytes.length ≤ 127) (m : Meters F) :
    ∃ m', getRecData buf bytes.length m = .ok m' ∧
      (m' ≠ m → bytes.length = 41 ∨ bytes.length = 9) ∧
      (bytes.length = 41 → m' = decodedParams bytes m) ∧
      (bytes.length = 9 → m' = decodedEnergy bytes m) := by
  refine ⟨received bytes m, getRecData_ok h (by omega) m, ?_, ?_, ?_⟩
  · intro changed
    by_contra hlen
    rw [not_or] at hlen
    exact changed (received_other hlen.1 hlen.2 m)
  · intro h41
    exact received_params h41 m
  · intro h9
    exact received_energy h9 m

/-- A complete reply of the meter to one of the two queries. -/
def WellFormedReply (bytes : List UInt8) : Prop :=
  bytes[0]? = some 0x01 ∧ bytes[1]? = some 0x03 ∧
    (bytes[2]?).map UInt8.toNat = some (bytes.length - 5) ∧
    ∃ crc, crcCal (bytes.map some) (bytes.length - 2) = .ok crc ∧
      bytes[bytes.length - 2]? = some (crc &&& 0xFF).toUInt8 ∧
      bytes[bytes.length - 1]? = some ((crc &&& 0xFF00) >>> 8).toUInt8

/-- The first nine bytes of a reply to the first query, at 230 V. -/
def truncatedReply : List UInt8 := [0x01, 0x03, 0x24, 0x43, 0x66, 0x00, 0x00, 0x3F, 0x80]

theorem truncatedReply_energy {F : Type} [SingleArith F] :
    SingleArith.toRat? (floatFrom8hex (wordAt truncatedReply 3) : F) = some 230 := by
  have hword : wordOf (wordAt truncatedReply 3) = (0x43660000 : UInt32).toNat := by decide
  have hexact : SingleArith.toRat? (floatFrom8hex (wordAt truncatedReply 3) : F) =
      some (Binary32.value 0x43660000) :=
    floatFrom8hex_normal (wordAt_small _ _) hword (by decide)
  rw [hexact, Binary32.value_normal (by decide)]
  have hsign : Binary32.signFactor 0x43660000 = 1 := by
    rw [Binary32.signFactor, if_neg (by decide)]
  have hexp : Binary32.exponentField 0x43660000 = 134 := by decide
  have hfrac : Binary32.fractionField 0x43660000 = 0x660000 := by decide
  rw [hsign, hexp, hfrac]
  norm_num

theorem truncatedReply_accepted :
    ∃ m', getRecData (truncatedReply.map some) truncatedReply.length
        (initialMeters : Meters Float32) = .ok m' ∧
      m' = decodedEnergy truncatedReply initialMeters := by
  obtain ⟨m', hrun, -, -, h9⟩ :=
    getRecData_changes (holds_map truncatedReply) (by decide) (initialMeters : Meters Float32)
  exact ⟨m', hrun, h9 (by decide)⟩

/-- Nine bytes that are no reply at all set the accumulated energy to the voltage. -/
theorem truncated_reply_changes_energy :
    ¬ ∀ (bytes : List UInt8) (m m' : Meters Float32), bytes.length ≤ 127 →
      getRecData (bytes.map some) bytes.length m = .ok m' → m' ≠ m → WellFormedReply bytes := by
  intro claim
  have hrec := getRecData_ok (holds_map truncatedReply) (by decide) (initialMeters : Meters Float32)
  rw [received_energy (by decide)] at hrec
  have hchanged : decodedEnergy truncatedReply initialMeters ≠ (initialMeters : Meters Float32) := by
    intro same
    have henergy := truncatedReply_energy (F := Float32)
    have hzero : floatFrom8hex (wordAt truncatedReply 3) = (FloatArith.zero : Float32) :=
      congrArg Meters.totalEngery same
    rw [hzero, SingleArith.zero_exact] at henergy
    exact absurd henergy (by decide)
  have hformed := claim truncatedReply _ _ (by decide) hrec hchanged
  exact absurd hformed.2.2.1 (by decide)

end Ddsu666
