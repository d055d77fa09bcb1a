/- The checksum routine `crc_cal` of tools.c, and the line errors it detects. -/
import Ddsu666.CheckedBuffer
import Ddsu666.ShiftRegister

namespace Ddsu666
open CheckedBuffer

/-- The body of the inner loop over `times`. -/
def crcBitStep (cradta : UInt32) : UInt32 :=
  let mid := cradta
  let cradta := cradta >>> 1
  if mid &&& 0x0001 ≠ 0 then cradta ^^^ 0xA001 else cradta

/-- One turn of the outer loop, for the byte found at `Data_index`. -/
def crcByteStep (cradta : UInt32) (byte : UInt8) : UInt32 :=
  crcBitStep^[8] (byte.toUInt32 ^^^ cradta)

/-- `while (len)`: the index is an `unsigned char` and wraps after 256 bytes. -/
def crcLoop (pBuff : Buffer UInt8) : ℕ → UInt8 → UInt32 → Except Fault UInt32
  | 0, _, cradta => .ok cradta
  | len + 1, dataIndex, cradta => do
      let byte ← load pBuff dataIndex.toNat
      crcLoop pBuff len (dataIndex + 1) (crcByteStep cradta byte)

def crcCal (pBuff : Buffer UInt8) (len : ℕ) : Except Fault UInt32 :=
  crcLoop pBuff len 0 0xFFFF

/-- The bits of a byte in the order in which the line carries them. -/
def byteBits (b : UInt8) : List Bool := (List.range 8).map b.toBitVec.getLsbD

def txBits (bytes : List UInt8) : List Bool := bytes.flatMap byteBits

/-- Bit positions, in transmission order, at which two messages differ. -/
def flippedBits (a b : List UInt8) : Finset ℕ :=
  (Finset.range (8 * a.length)).filter fun k => (txBits a).getD k false ≠ (txBits b).getD k false

/-- The 16-bit register of the standard, stored in the wider `unsigned int`. -/
def register (r : BitVec 16) : UInt32 := ⟨r.setWidth 32⟩

def crcPoly : BitVec 16 := 0xA001#16

theorem register_injective : Function.Injective register := by
  intro r s h
  have hbits := congrArg (fun x => (UInt32.toBitVec x).setWidth 16) h
  simpa [register] using hbits

theorem test_low_bit (r : BitVec 16) : register r &&& 1 ≠ 0 ↔ r.getLsbD 0 = true := by
  have hmask : (register r &&& 1).toBitVec = BitVec.setWidth 32 (BitVec.ofBool (r.getLsbD 0)) := by
    have h := BitVec.and_one_eq_setWidth_ofBool_getLsbD (x := r.setWidth 32)
    simpa [register] using h
  rw [Ne, ← UInt32.toBitVec_inj, hmask]
  cases r.getLsbD 0 <;> decide

theorem crcBitStep_register (r : BitVec 16) :
    crcBitStep (register r) = register (ShiftRegister.shift crcPoly r) := by
  have hdown : register r >>> 1 = register (r >>> 1) := by
    apply UInt32.toBitVec_inj.mp
    simp [register, BitVec.setWidth_ushiftRight]
  have hxor : register (r >>> 1) ^^^ (0xA001 : UInt32) = register (r >>> 1 ^^^ crcPoly) := by
    apply UInt32.toBitVec_inj.mp
    simp [register, crcPoly, BitVec.setWidth_xor]
  simp only [crcBitStep, test_low_bit, ShiftRegister.shift, hdown]
  split
  · exact hxor
  · rw [BitVec.xor_zero]

theorem crcBitStep_iterate (n : ℕ) (r : BitVec 16) :
    crcBitStep^[n] (register r) = register ((ShiftRegister.shift crcPoly)^[n] r) := by
  induction n generalizing r with
  | zero => rfl
  | succ n ih => simp only [Function.iterate_succ_apply, crcBitStep_register, ih]

@[simp] theorem length_byteBits (b : UInt8) : (byteBits b).length = 8 := by simp [byteBits]

theorem word_byteBits (b : UInt8) :
    (ShiftRegister.word (byteBits b) : BitVec 16) = b.toBitVec.setWidth 16 := by
  apply BitVec.eq_of_getLsbD_eq
  intro i hi
  rw [ShiftRegister.getLsbD_word, BitVec.getLsbD_setWidth]
  by_cases h8 : i < 8
  · simp [byteBits, h8]
  · simp [byteBits, h8, BitVec.getLsbD_of_ge b.toBitVec i (by omega)]

/-- A byte of the loop feeds the register the eight bits of that byte. -/
theorem crcByteStep_register (r : BitVec 16) (b : UInt8) :
    crcByteStep (register r) b = register (ShiftRegister.run crcPoly r (byteBits b)) := by
  have hload : b.toUInt32 ^^^ register r = register (r ^^^ b.toBitVec.setWidth 16) := by
    apply UInt32.toBitVec_inj.mp
    simp [register, BitVec.setWidth_xor, BitVec.xor_comm]
  rw [crcByteStep, hload, crcBitStep_iterate,
    ShiftRegister.run_eq_shift_word crcPoly r (byteBits b) (by simp), word_byteBits,
    length_byteBits]

theorem crcByteStep_foldl (r : BitVec 16) (bytes : List UInt8) :
    bytes.foldl crcByteStep (register r) =
      register (ShiftRegister.run crcPoly r (txBits bytes)) := by
  induction bytes generalizing r with
  | nil => rfl
  | cons b bytes ih =>
      rw [List.foldl_cons, crcByteStep_register, ih, ← ShiftRegister.run_append]
      rfl

theorem crcLoop_ok {pBuff : Buffer UInt8} (done todo : List UInt8) (cradta : UInt32)
    (h : Holds pBuff (done ++ todo)) (small : (done ++ todo).length ≤ 256) :
    crcLoop pBuff todo.length (UInt8.ofNat done.length) cradta =
      .ok (todo.foldl crcByteStep cradta) := by
  induction todo generalizing done cradta with
  | nil => rfl
  | cons b todo ih =>
      have hlt : done.length < 256 := by
        simp only [List.length_append, List.length_cons] at small
        omega
      have hload : load pBuff (UInt8.ofNat done.length).toNat = .ok b := by
        rw [UInt8.toNat_ofNat_of_lt' hlt, h.load (by simp)]
        simp
      have hnext :=
        ih (done ++ [b]) (crcByteStep cradta b) (by simpa using h) (by simpa using small)
      rw [List.length_append, List.length_singleton, UInt8.ofNat_add] at hnext
      simp only [List.length_cons, crcLoop, hload, List.foldl_cons]
      exact hnext

/-- On up to 256 held bytes the routine faults nowhere and computes the 16-bit register. -/
theorem crcCal_ok {pBuff : Buffer UInt8} {bytes : List UInt8} (h : Holds pBuff bytes)
    (small : bytes.length ≤ 256) :
    crcCal pBuff bytes.length =
      .ok (register (ShiftRegister.run crcPoly 0xFFFF#16 (txBits bytes))) := by
  rw [← crcByteStep_foldl]
  exact crcLoop_ok [] bytes 0xFFFF h small

theorem length_txBits (bytes : List UInt8) : (txBits bytes).length = 8 * bytes.length := by
  induction bytes with
  | nil => rfl
  | cons b bytes ih =>
      rw [txBits, List.flatMap_cons, List.length_append, length_byteBits, List.length_cons]
      change 8 + (txBits bytes).length = _
      rw [ih]
      omega

theorem byteBits_injective : Function.Injective byteBits := by
  intro a b h
  apply UInt8.toBitVec_inj.mp
  apply BitVec.eq_of_getLsbD_eq
  intro i hi
  have hcell := congrArg (fun l => l.getD i false) h
  simpa [byteBits, hi] using hcell

theorem txBits_injective {a b : List UInt8} (same : a.length = b.length)
    (h : txBits a = txBits b) : a = b := by
  induction a generalizing b with
  | nil => exact (List.length_eq_zero_iff.mp same.symm).symm
  | cons x a ih =>
      cases b with
      | nil => cases same
      | cons y b =>
          have hboth := List.append_inj h (by simp)
          rw [byteBits_injective hboth.1, ih (Nat.succ.inj same) hboth.2]

/-- The error pattern that a channel adds to the transmitted bits. -/
def errorBits (a b : List UInt8) : List Bool := List.zipWith xor (txBits a) (txBits b)

theorem positions_errorBits {a b : List UInt8} (same : a.length = b.length) :
    ShiftRegister.positions (errorBits a b) = flippedBits a b := by
  have ha := length_txBits a
  have hb := length_txBits b
  have hlen : (errorBits a b).length = 8 * a.length := by
    simp [errorBits, ha, hb, same]
  rw [ShiftRegister.positions, flippedBits, hlen]
  apply Finset.filter_congr
  intro k hk
  rw [Finset.mem_range] at hk
  have hka : k < (txBits a).length := by omega
  have hkb : k < (txBits b).length := by omega
  simp [errorBits, List.getD_eq_getElem?_getD, hka, hkb]

theorem run_eq_iff_silent {a b : List UInt8} (same : a.length = b.length) (r : BitVec 16) :
    ShiftRegister.run crcPoly r (txBits a) = ShiftRegister.run crcPoly r (txBits b) ↔
      ShiftRegister.run crcPoly 0#16 (errorBits a b) = 0#16 := by
  have hsum := ShiftRegister.run_xor crcPoly r r (txBits a) (txBits b)
    (by rw [length_txBits, length_txBits, same])
  rw [BitVec.xor_self] at hsum
  rw [errorBits, hsum, BitVec.xor_eq_zero_iff]

theorem crcPoly_msb : crcPoly.msb = true := by decide

theorem crcPoly_parity : ShiftRegister.parity crcPoly = 1 := by decide

/-- The register does not repeat within the 2048 bits of the longest message. -/
theorem crcPoly_period (d : ℕ) (hpos : 0 < d) (hlt : d < 2048) :
    (ShiftRegister.shift crcPoly)^[d] 1#16 ≠ 1#16 := by
  have hsearch : ShiftRegister.avoids (ShiftRegister.shift crcPoly) 1#16 2047 1#16 = true := by
    decide +kernel
  exact ShiftRegister.avoids_sound hsearch d hpos (Nat.le_of_lt_succ hlt)

theorem flippedBits_nonempty {a b : List UInt8} (same : a.length = b.length) (h : a ≠ b) :
    (flippedBits a b).Nonempty := by
  by_contra hnone
  rw [Finset.not_nonempty_iff_eq_empty] at hnone
  apply h
  apply txBits_injective same
  have hlen : (txBits a).length = (txBits b).length := by rw [length_txBits, length_txBits, same]
  apply List.ext_getElem hlen
  intro k hka hkb
  by_contra hne
  have hmem : k ∈ flippedBits a b := by
    rw [length_txBits] at hka
    simpa [flippedBits, hka, List.getD_eq_getElem?_getD, length_txBits, ← same] using hne
  rw [hnone] at hmem
  exact absurd hmem (Finset.notMem_empty k)

section Detection

variable {a b : List UInt8} (same : a.length = b.length) (r : BitVec 16)

include same

theorem run_ne_of_odd (odd : Odd (flippedBits a b).card) :
    ShiftRegister.run crcPoly r (txBits a) ≠ ShiftRegister.run crcPoly r (txBits b) := by
  rw [Ne, run_eq_iff_silent same]
  apply ShiftRegister.detects_odd crcPoly_parity (by decide)
  rwa [positions_errorBits same]

theorem run_ne_of_pair (small : a.length ≤ 256) (pair : (flippedBits a b).card = 2) :
    ShiftRegister.run crcPoly r (txBits a) ≠ ShiftRegister.run crcPoly r (txBits b) := by
  rw [Ne, run_eq_iff_silent same]
  apply ShiftRegister.detects_pair crcPoly_msb crcPoly_period
  · rw [errorBits, List.length_zipWith, length_txBits, length_txBits, ← same]
    omega
  · rwa [positions_errorBits same]

theorem run_ne_of_burst {p : ℕ} (some_error : (flippedBits a b).Nonempty)
    (burst : flippedBits a b ⊆ Finset.Ico p (p + 16)) :
    ShiftRegister.run crcPoly r (txBits a) ≠ ShiftRegister.run crcPoly r (txBits b) := by
  rw [Ne, run_eq_iff_silent same]
  rw [← positions_errorBits same] at some_error burst
  exact ShiftRegister.detects_burst crcPoly_msb some_error burst

/-- Different messages with the same checksum are at least four bits apart. -/
theorem distance_of_run_eq (small : a.length ≤ 256) (hne : a ≠ b)
    (h : ShiftRegister.run crcPoly r (txBits a) = ShiftRegister.run crcPoly r (txBits b)) :
    4 ≤ (flippedBits a b).card := by
  have hpos := (flippedBits_nonempty same hne).card_pos
  have heven : ¬ Odd (flippedBits a b).card := fun odd => run_ne_of_odd same r odd h
  have htwo : (flippedBits a b).card ≠ 2 := fun pair => run_ne_of_pair same r small pair h
  rw [Nat.not_odd_iff] at heven
  omega

end Detection

/-- Odd errors, two-bit errors and bursts of up to 16 bits change the value of `crc_cal`, and
two frames that both verify are at least four bits apart. -/
theorem crcCal_detects {bufA bufB : Buffer UInt8} {a b : List UInt8} (ha : Holds bufA a)
    (hb : Holds bufB b) (same : a.length = b.length) (small : a.length ≤ 256) :
    ∃ ca cb, crcCal bufA a.length = .ok ca ∧ crcCal bufB b.length = .ok cb ∧
      (Odd (flippedBits a b).card → ca ≠ cb) ∧
      ((flippedBits a b).card = 2 → ca ≠ cb) ∧
      (∀ p, (flippedBits a b).Nonempty → flippedBits a b ⊆ Finset.Ico p (p + 16) → ca ≠ cb) ∧
      (a ≠ b → ca = 0 → cb = 0 → 4 ≤ (flippedBits a b).card) := by
  refine ⟨_, _, crcCal_ok ha small, crcCal_ok hb (same ▸ small), ?_, ?_, ?_, ?_⟩
  · intro odd
    exact register_injective.ne (run_ne_of_odd same _ odd)
  · intro pair
    exact register_injective.ne (run_ne_of_pair same _ small pair)
  · intro p some_error burst
    exact register_injective.ne (run_ne_of_burst same _ some_error burst)
  · intro hne hca hcb
    exact distance_of_run_eq same _ small hne (register_injective (hca.trans hcb.symm))

/-- The query for the parameters as it is sent. -/
def paramsQuery : List UInt8 := [0x01, 0x03, 0x20, 0x00, 0x00, 0x12, 0xCE, 0x07]

/-- The query for the energy counter as it is sent. -/
def energyQuery : List UInt8 := [0x01, 0x03, 0x40, 0x00, 0x00, 0x02, 0xD1, 0xCB]

/-- The first query with two bits flipped far apart and with a burst over two bytes, and its
distance from the second one. -/
theorem crcCal_detects_query :
    (∃ c d e, crcCal (paramsQuery.map some) 8 = .ok c ∧
      crcCal ([0x01, 0x83, 0x20, 0x00, 0x00, 0x12, 0xCE, 0x06].map some) 8 = .ok d ∧
      crcCal ([0x01, 0x03, 0x40, 0x05, 0x00, 0x12, 0xCE, 0x07].map some) 8 = .ok e ∧
      c ≠ d ∧ c ≠ e) ∧
    4 ≤ (flippedBits paramsQuery energyQuery).card := by
  obtain ⟨c, d, hc, hd, -, hpair, -⟩ := crcCal_detects (holds_map paramsQuery)
    (holds_map [0x01, 0x83, 0x20, 0x00, 0x00, 0x12, 0xCE, 0x06]) rfl (by decide)
  obtain ⟨c', e, hc', he, -, -, hburst, -⟩ := crcCal_detects (holds_map paramsQuery)
    (holds_map [0x01, 0x03, 0x40, 0x05, 0x00, 0x12, 0xCE, 0x07]) rfl (by decide)
  obtain rfl := Except.ok.inj (hc.symm.trans hc')
  refine ⟨⟨c, d, e, hc, hd, he, hpair (by decide +kernel),
    hburst 16 (by decide +kernel) (by decide +kernel)⟩, ?_⟩
  obtain ⟨c', f, hc', hf, -, -, -, hdistance⟩ := crcCal_detects (holds_map paramsQuery)
    (holds_map energyQuery) rfl (by decide)
  have hverified : crcCal (paramsQuery.map some) paramsQuery.length = .ok 0 ∧
      crcCal (energyQuery.map some) energyQuery.length = .ok 0 := by decide +kernel
  exact hdistance (by decide) (Except.ok.inj (hc'.symm.trans hverified.1))
    (Except.ok.inj (hf.symm.trans hverified.2))

end Ddsu666
