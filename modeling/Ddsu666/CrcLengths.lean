/- `crc_cal` on every length: its index is an `unsigned char`, so that it goes round in the first
   256 bytes. -/
import Ddsu666.ModbusCrc

namespace Ddsu666
open CheckedBuffer

def visited (bytes : List UInt8) (len : ℕ) : List UInt8 :=
  (List.range len).map fun i => bytes.getD (i % 256) 0

/-- From pass `i` on: the rest of the bytes, or the first index behind the array. -/
theorem crcLoop_visits (bytes : List UInt8) (i n : ℕ) (inside : i % 256 ≤ bytes.length)
    (cradta : UInt32) :
    crcLoop (bytes.map some) n (UInt8.ofNat i) cradta =
      if ∀ j < n, (i + j) % 256 < bytes.length then
        .ok (((List.range' i n).map fun j => bytes.getD (j % 256) 0).foldl crcByteStep cradta)
      else .error (.outOfBounds bytes.length bytes.length) := by
  induction n generalizing i cradta with
  | zero => simp [crcLoop]
  | succ n ih =>
      have hindex : (UInt8.ofNat i).toNat = i % 256 := rfl
      by_cases hi : i % 256 < bytes.length
      · have hload : load (bytes.map some) (UInt8.ofNat i).toNat =
            .ok (bytes.getD (i % 256) 0) := by
          rw [hindex, (holds_map bytes).load hi, List.getD_eq_getElem _ _ hi]
        have hnext : (i + 1) % 256 ≤ bytes.length := by omega
        have hall : (∀ j < n + 1, (i + j) % 256 < bytes.length) ↔
            ∀ j < n, (i + 1 + j) % 256 < bytes.length := by
          rw [Nat.forall_lt_succ_left, Nat.add_zero, and_iff_right hi]
          simp only [Nat.add_assoc, Nat.add_comm 1]
        have hrest := ih (i + 1) hnext (crcByteStep cradta (bytes.getD (i % 256) 0))
        rw [UInt8.ofNat_add] at hrest
        simp only [crcLoop, hload, List.range'_succ, List.map_cons, List.foldl_cons, hall]
        exact hrest
      · have hlast : i % 256 = bytes.length := by omega
        have hload : load (bytes.map some) (UInt8.ofNat i).toNat =
            .error (.outOfBounds bytes.length bytes.length) := by
          simp [load, hindex, hlast]
        have hnot : ¬ ∀ j < n + 1, (i + j) % 256 < bytes.length :=
          fun h => hi (h 0 (Nat.succ_pos n))
        rw [if_neg hnot, crcLoop, hload]
        rfl

theorem visits_inside {len length : ℕ} :
    (∀ j < len, (0 + j) % 256 < length) ↔ min len 256 ≤ length := by
  constructor
  · intro h
    by_contra more
    have hlen := h length (by omega)
    omega
  · intro h j hj
    omega

/-- The exact result on every array and every length: bytes behind the 256th change nothing, and a
shorter array is left at its end as soon as more passes are asked for than it has bytes. -/
theorem crcCal_any_length (bytes : List UInt8) (len : ℕ) :
    crcCal (bytes.map some) len =
      if min len 256 ≤ bytes.length then
        .ok (register (ShiftRegister.run crcPoly 0xFFFF#16 (txBits (visited bytes len))))
      else .error (.outOfBounds bytes.length bytes.length) := by
  have hloop := crcLoop_visits bytes 0 len (Nat.zero_le _) 0xFFFF
  simp only [visits_inside] at hloop
  rw [crcCal, ← crcByteStep_foldl, visited, List.range_eq_range']
  exact hloop

end Ddsu666
