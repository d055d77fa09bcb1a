/- `print_sha256` of ota.c: a digest as a text of hexadecimal digits, access by access. -/
import Ddsu666.CheckedBuffer
import Ddsu666.JsonText
import Ddsu666.WebHandler

namespace Ddsu666
open CheckedBuffer

def hashLen : ℕ := 32

/-- `sprintf(&hash_print[offset], "%02x", b)`, which ends with a terminator. -/
def sprintfByte (hashPrint : Buffer UInt8) (offset : ℕ) (b : UInt8) :
    Except Fault (Buffer UInt8) := storeAll hashPrint offset (hexByte false b).stored

/-- The loop from `i` on, with `n` more passes. -/
def hashLoop (imageHash : Buffer UInt8) : Buffer UInt8 → ℕ → ℕ → Except Fault (Buffer UInt8)
  | hashPrint, _, 0 => .ok hashPrint
  | hashPrint, i, n + 1 => do
      let b ← load imageHash i
      let hashPrint ← sprintfByte hashPrint (i * 2) b
      hashLoop imageHash hashPrint (i + 1) n

/-- The text that is logged. -/
def printSha256 (imageHash : Buffer UInt8) : Except Fault (List UInt8) := do
  let hashPrint ← store (fresh (hashLen * 2 + 1)) (hashLen * 2) 0
  let hashPrint ← hashLoop imageHash hashPrint 0 hashLen
  loadsUntil 0 hashPrint 0

/-- Two digits a byte. -/
def readHex : List UInt8 → Option (List UInt8)
  | [] => some []
  | x :: y :: rest => do
      let high ← JsonText.hexValue? x
      let low ← JsonText.hexValue? y
      let bytes ← readHex rest
      return UInt8.ofNat (high * 16 + low) :: bytes
  | [_] => none

def hexDigits (bytes : List UInt8) : List UInt8 := bytes.flatMap fun b => (hexByte false b).1

theorem hexByte_digits (b : UInt8) : ∃ x y, (hexByte false b).1 = [x, y] ∧
    JsonText.hexValue? x = some (b.toNat / 16) ∧ JsonText.hexValue? y = some (b.toNat % 16) := by
  have hdigit : ∀ n < 16, UInt8.ofNat (Nat.digitChar n).toNat ≠ 0 ∧
      JsonText.hexValue? (UInt8.ofNat (Nat.digitChar n).toNat) = some n := by decide
  obtain ⟨hhigh, hhighValue⟩ := hdigit (b.toNat / 16) (Nat.div_lt_of_lt_mul b.toNat_lt)
  obtain ⟨hlow, hlowValue⟩ := hdigit (b.toNat % 16) (Nat.mod_lt _ (by decide))
  refine ⟨_, _, ?_, hhighValue, hlowValue⟩
  simp [hexByte, StringHeap.ofChars, StringHeap.textOf, hhigh, hlow]

theorem readHex_hexDigits (bytes : List UInt8) : readHex (hexDigits bytes) = some bytes := by
  induction bytes with
  | nil => rfl
  | cons b bytes ih =>
      obtain ⟨x, y, hbytes, hhigh, hlow⟩ := hexByte_digits b
      have hb : b.toNat / 16 * 16 + b.toNat % 16 = b.toNat := Nat.div_add_mod' _ _
      rw [hexDigits, List.flatMap_cons, hbytes, ← hexDigits]
      simp only [List.cons_append, List.nil_append, readHex, hhigh, hlow, ih,
        Option.bind_eq_bind, Option.bind_some, hb, UInt8.ofNat_toNat]
      rfl

theorem length_hexDigits (bytes : List UInt8) : (hexDigits bytes).length = bytes.length * 2 := by
  induction bytes with
  | nil => rfl
  | cons b bytes ih =>
      obtain ⟨x, y, hbytes, -⟩ := hexByte_digits b
      rw [hexDigits, List.flatMap_cons, hbytes, ← hexDigits, List.length_append, ih,
        List.length_cons, List.length_cons, List.length_cons]
      simp only [List.length_nil]
      omega

theorem hexDigits_text (bytes : List UInt8) : 0 ∉ hexDigits bytes := by
  intro zero
  obtain ⟨b, -, hb⟩ := List.mem_flatMap.mp zero
  exact (hexByte false b).2 hb

theorem hexDigits_snoc (bytes : List UInt8) (b : UInt8) :
    hexDigits (bytes ++ [b]) = hexDigits bytes ++ (hexByte false b).1 := by
  rw [hexDigits, List.flatMap_append, List.flatMap_singleton, hexDigits]

/-- A pass moves the terminator two cells on; the last one puts it where the first store did. -/
theorem hashLoop_digits {imageHash : Buffer UInt8} (done todo : List UInt8)
    (h : Holds imageHash (done ++ todo)) (cells : Buffer UInt8)
    (room : cells.length = todo.length * 2) :
    hashLoop imageHash ((hexDigits done).map some ++ (cells ++ [some 0])) done.length
        todo.length =
      .ok ((hexDigits (done ++ todo)).map some ++ [some 0]) := by
  induction todo generalizing done cells with
  | nil =>
      obtain rfl := List.eq_nil_of_length_eq_zero room
      rw [List.append_nil, List.nil_append, List.length_nil, hashLoop]
  | cons b todo ih =>
      rw [List.length_cons] at room
      obtain ⟨c, cells, rfl⟩ := List.exists_cons_of_length_pos (by omega : 0 < cells.length)
      rw [List.length_cons] at room
      obtain ⟨d, cells, rfl⟩ := List.exists_cons_of_length_pos (by omega : 0 < cells.length)
      rw [List.length_cons] at room
      have hload : load imageHash done.length = .ok b := by
        rw [h.load (by simp)]
        simp
      obtain ⟨x, y, hbytes, -⟩ := hexByte_digits b
      have hstored : (hexByte false b).stored = [x, y, 0] := by
        rw [StringHeap.CString.stored, hbytes]
        rfl
      have hstore := storeAll_next (hexDigits done) (hexByte false b).stored
        (c :: d :: cells ++ [some 0]) (by simp [hstored])
      -- behind the digits lie the terminator and what is left of the cells
      obtain ⟨more, hmore, hlength⟩ : ∃ more : Buffer UInt8,
          some 0 :: (cells ++ [some 0]).tail = more ++ [some 0] ∧
            more.length = cells.length := by
        cases cells with
        | nil => exact ⟨[], rfl, rfl⟩
        | cons e cells => exact ⟨some 0 :: cells, rfl, rfl⟩
      have hcells : ((hexDigits done ++ (hexByte false b).stored).map some ++
          (c :: d :: cells ++ [some 0]).drop (hexByte false b).stored.length) =
          (hexDigits (done ++ [b])).map some ++ (more ++ [some 0]) := by
        rw [hstored, hexDigits_snoc, hbytes, ← hmore]
        simp
      rw [length_hexDigits, hcells] at hstore
      have hnext := ih (done ++ [b]) (by simpa using h) more (by omega)
      rw [List.length_append, List.length_singleton, List.append_assoc,
        List.singleton_append] at hnext
      simp only [List.length_cons, hashLoop, hload, sprintfByte, bind, Except.bind, hstore]
      exact hnext

/-- A digest is printed without an access out of bounds, in 64 digits from which it can be read
back. -/
theorem sha256_printed (hash : List UInt8) (length : hash.length = hashLen) :
    ∃ text, printSha256 (hash.map some) = .ok text ∧ text.length = 64 ∧
      readHex text = some hash := by
  have hstart : store (fresh (hashLen * 2 + 1)) (hashLen * 2) (0 : UInt8) =
      .ok (fresh (hashLen * 2) ++ [some 0]) := rfl
  have hloop := hashLoop_digits [] hash (holds_map hash) (fresh (hashLen * 2))
    (by rw [length_fresh, length])
  have hread := loadsUntil_append (hexDigits hash) (hexDigits_text hash) [] 0
  refine ⟨hexDigits hash, ?_, ?_, readHex_hexDigits hash⟩
  · rw [length] at hloop
    simp only [printSha256, hstart]
    refine Eq.trans ?_ hread
    exact congrArg (fun r : Except Fault (Buffer UInt8) => r >>= fun b => loadsUntil 0 b 0) hloop
  · rw [length_hexDigits, length]
    rfl

theorem sha256_printed_ff :
    ∃ text, printSha256 ((List.replicate 32 (0xFF : UInt8)).map some) = .ok text ∧
      text.length = 64 ∧ readHex text = some (List.replicate 32 0xFF) :=
  sha256_printed _ List.length_replicate

end Ddsu666
