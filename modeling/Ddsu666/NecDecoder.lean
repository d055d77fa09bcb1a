/- The decoder of ir_nec_decoder.c, and the way of a scan code through encoder, line and decoder. -/
import Ddsu666.NecEncoder
import Mathlib.Algebra.Order.Ring.Int

namespace Ddsu666

def exampleIrNecDecodeMargin : UInt32 := 200

def necCheckInRange (signalDuration : BitVec 15) (specDuration : UInt32) : Bool :=
  let signalDuration : UInt32 := ⟨signalDuration.setWidth 32⟩
  signalDuration < specDuration + exampleIrNecDecodeMargin &&
    signalDuration > specDuration - exampleIrNecDecodeMargin

/-- Both durations of a symbol against those of a code. -/
def checkSymbol (s : Symbol) (duration0 duration1 : UInt32) : Bool :=
  necCheckInRange s.duration0 duration0 && necCheckInRange s.duration1 duration1

def necParseLogic0 (s : Symbol) : Bool := checkSymbol s 560 560

def necParseLogic1 (s : Symbol) : Bool := checkSymbol s 560 1690

/-- One of the two loops over 16 symbols, from `cur` on; what is left of the buffer is returned. -/
def parseWord : List Symbol → ℕ → ℕ → BitVec 16 → Option (BitVec 16 × List Symbol)
  | cur, _, 0, word => some (word, cur)
  -- does not happen: frames of other than 34 symbols are not parsed
  | [], _, _ + 1, _ => none
  | s :: cur, i, n + 1, word =>
      if necParseLogic1 s then parseWord cur (i + 1) n (word ||| 1#16 <<< i)
      else if necParseLogic0 s then parseWord cur (i + 1) n (word &&& ~~~(1#16 <<< i))
      else none

/-- Whether a frame is accepted, and what is then stored. -/
def necParseFrame (rmtNecSymbols : List Symbol) (stored : IrNecScanCode) : Bool × IrNecScanCode :=
  match rmtNecSymbols with
  | [] => (false, stored)
  | cur :: symbols =>
      if checkSymbol cur 9000 4500 then
        match parseWord symbols 0 16 0 with
        | none => (false, stored)
        | some (address, symbols) =>
            match parseWord symbols 0 16 0 with
            | none => (false, stored)
            | some (command, _) => (true, ⟨address, command⟩)
      else (false, stored)

/-- Both durations are off by less than 200 ticks. -/
structure Near (s t : Symbol) : Prop where
  duration0 : ((s.duration0.toNat : ℤ) - t.duration0.toNat).natAbs < 200
  duration1 : ((s.duration1.toNat : ℤ) - t.duration1.toNat).natAbs < 200

/-- No duration that is asked for is so short or so long that one of the bounds wraps around. -/
theorem necCheckInRange_iff {d : BitVec 15} {spec : UInt32} (low : 200 ≤ spec.toNat)
    (high : spec.toNat < 32768) :
    necCheckInRange d spec = true ↔ ((d.toNat : ℤ) - spec.toNat).natAbs < 200 := by
  have hmargin : exampleIrNecDecodeMargin.toNat = 200 := rfl
  have hsignal : (⟨d.setWidth 32⟩ : UInt32).toNat = d.toNat := by
    have hlt := d.isLt
    simp [UInt32.toNat]
    omega
  have hadd : (spec + exampleIrNecDecodeMargin).toNat = spec.toNat + 200 := by
    rw [UInt32.toNat_add, hmargin]
    omega
  have hsub : (spec - exampleIrNecDecodeMargin).toNat = spec.toNat - 200 := by
    rw [UInt32.toNat_sub_of_le]
    · rw [hmargin]
    · rw [UInt32.le_iff_toNat_le, hmargin]
      exact low
  simp only [necCheckInRange, Bool.and_eq_true, decide_eq_true_eq, gt_iff_lt,
    UInt32.lt_iff_toNat_lt, hsignal, hadd, hsub]
  omega

theorem checkSymbol_iff {s t : Symbol} {spec0 spec1 : UInt32}
    (h0 : t.duration0.toNat = spec0.toNat) (h1 : t.duration1.toNat = spec1.toNat)
    (low0 : 200 ≤ spec0.toNat) (low1 : 200 ≤ spec1.toNat) :
    checkSymbol s spec0 spec1 = true ↔ Near s t := by
  have hlt0 := t.duration0.isLt
  have hlt1 := t.duration1.isLt
  rw [h0] at hlt0
  rw [h1] at hlt1
  rw [checkSymbol, Bool.and_eq_true, necCheckInRange_iff low0 hlt0, necCheckInRange_iff low1 hlt1,
    ← h0, ← h1]
  constructor
  · intro near
    exact ⟨near.1, near.2⟩
  · intro near
    exact ⟨near.duration0, near.duration1⟩

theorem leading_iff {s : Symbol} :
    checkSymbol s 9000 4500 = true ↔ Near s ⟨9000, true, 4500, false⟩ :=
  checkSymbol_iff rfl rfl (by decide) (by decide)

theorem necParseLogic0_iff {s : Symbol} :
    necParseLogic0 s = true ↔ Near s (bitSymbol false) :=
  checkSymbol_iff rfl rfl (by decide) (by decide)

theorem necParseLogic1_iff {s : Symbol} :
    necParseLogic1 s = true ↔ Near s (bitSymbol true) :=
  checkSymbol_iff rfl rfl (by decide) (by decide)

theorem Near.refl (s : Symbol) : Near s s := by
  constructor
  · rw [sub_self, Int.natAbs_zero]
    decide
  · rw [sub_self, Int.natAbs_zero]
    decide

/-- The windows of the two bits are disjoint in the second duration. -/
theorem Near.bit_unique {s : Symbol} {b c : Bool} (h : Near s (bitSymbol b))
    (k : Near s (bitSymbol c)) : b = c := by
  have hb := h.duration1
  have hc := k.duration1
  have hzero : (bitSymbol false).duration1.toNat = 560 := rfl
  have hone : (bitSymbol true).duration1.toNat = 1690 := rfl
  cases b with
  | false =>
      cases c with
      | false => rfl
      | true => omega
  | true =>
      cases c with
      | false => omega
      | true => rfl

theorem parse_bit {s : Symbol} {b : Bool} (near : Near s (bitSymbol b)) :
    necParseLogic1 s = b ∧ (b = false → necParseLogic0 s = true) := by
  cases b with
  | true => exact ⟨necParseLogic1_iff.mpr near, fun h => nomatch h⟩
  | false =>
      refine ⟨?_, fun _ => necParseLogic0_iff.mpr near⟩
      rw [Bool.eq_false_iff, Ne, necParseLogic1_iff]
      intro one
      cases near.bit_unique one

section Bits

variable {word w : BitVec 16} {i : ℕ} (hi : i < 16)
  (below : ∀ j < i, word.getLsbD j = w.getLsbD j)
include hi below

theorem set_bit (hbit : w.getLsbD i = true) :
    ∀ j < i + 1, (word ||| 1#16 <<< i).getLsbD j = w.getLsbD j := by
  intro j hj
  simp only [BitVec.getLsbD_or, BitVec.getLsbD_shiftLeft]
  rcases Nat.lt_succ_iff_lt_or_eq.mp hj with hlt | rfl
  · simp [below j hlt, hlt]
  · simp [hbit, hi]

theorem clear_bit (hbit : w.getLsbD i = false) :
    ∀ j < i + 1, (word &&& ~~~(1#16 <<< i)).getLsbD j = w.getLsbD j := by
  intro j hj
  simp only [BitVec.getLsbD_and, BitVec.getLsbD_not, BitVec.getLsbD_shiftLeft]
  rcases Nat.lt_succ_iff_lt_or_eq.mp hj with hlt | rfl
  · have hj16 : j < 16 := Nat.lt_trans hlt hi
    rw [below j hlt]
    simp [hlt, hj16]
  · rw [hbit]
    simp [hi]

end Bits

/-- The loop sets or clears one bit after the other and leaves those below alone. -/
theorem parseWord_near (w : BitVec 16) (n : ℕ) (i : ℕ) (hi : i + n = 16) (cur : List Symbol)
    (near : ∀ k < n, ∃ s, cur[k]? = some s ∧ Near s (bitSymbol (w.getLsbD (i + k))))
    (word : BitVec 16) (below : ∀ j < i, word.getLsbD j = w.getLsbD j) :
    parseWord cur i n word = some (w, cur.drop n) := by
  induction n generalizing i cur word with
  | zero =>
      have hword : word = w := BitVec.eq_of_getLsbD_eq fun j hj => below j (by omega)
      rw [parseWord, hword, List.drop_zero]
  | succ n ih =>
      obtain ⟨s, hs, hnear⟩ := near 0 (Nat.succ_pos n)
      obtain ⟨rest, rfl⟩ : ∃ rest, cur = s :: rest := by
        cases cur with
        | nil => cases hs
        | cons x rest => exact ⟨rest, by rw [Option.some.inj hs]⟩
      rw [Nat.add_zero] at hnear
      obtain ⟨hone, hzero⟩ := parse_bit hnear
      have hrest : ∀ k < n, ∃ s, rest[k]? = some s ∧
          Near s (bitSymbol (w.getLsbD (i + 1 + k))) := by
        intro k hk
        obtain ⟨t, ht, hnext⟩ := near (k + 1) (Nat.succ_lt_succ hk)
        refine ⟨t, ht, ?_⟩
        rwa [Nat.add_right_comm, Nat.add_assoc]
      have hnext := fun word => ih (i + 1) (by omega) rest hrest word
      have hi16 : i < 16 := by omega
      rw [parseWord, hone]
      cases hbit : w.getLsbD i with
      | true =>
          rw [if_pos rfl]
          exact hnext _ (set_bit hi16 below hbit)
      | false =>
          rw [if_neg Bool.false_ne_true, if_pos (hzero hbit)]
          exact hnext _ (clear_bit hi16 below hbit)

theorem necFrame_leading (code : IrNecScanCode) :
    (necFrame code)[0]? = some ⟨9000, true, 4500, false⟩ := rfl

theorem wordSymbols_bit (w : BitVec 16) {k : ℕ} (hk : k < 16) :
    (wordSymbols w)[k]? = some (bitSymbol (w.getLsbD k)) := by
  rw [wordSymbols, List.getElem?_map, List.getElem?_range hk]
  rfl

theorem length_wordSymbols (w : BitVec 16) : (wordSymbols w).length = 16 := by
  rw [wordSymbols, List.length_map, List.length_range]

theorem necFrame_address (code : IrNecScanCode) {k : ℕ} (hk : k < 16) :
    (necFrame code)[k + 1]? = some (bitSymbol (code.address.getLsbD k)) := by
  have hword : k < (wordSymbols code.address).length := by rwa [length_wordSymbols]
  rw [necFrame, List.cons_append, List.cons_append, List.getElem?_cons_succ, List.append_assoc,
    List.getElem?_append_left hword, wordSymbols_bit _ hk]

theorem necFrame_command (code : IrNecScanCode) {k : ℕ} (hk : k < 16) :
    (necFrame code)[16 + k + 1]? = some (bitSymbol (code.command.getLsbD k)) := by
  have hword : k < (wordSymbols code.command).length := by rwa [length_wordSymbols]
  have hskip : (wordSymbols code.address).length ≤ 16 + k := by
    rw [length_wordSymbols]
    exact Nat.le_add_right 16 k
  have hleft : 16 + k - (wordSymbols code.address).length = k := by
    rw [length_wordSymbols, Nat.add_sub_cancel_left]
  rw [necFrame, List.cons_append, List.cons_append, List.getElem?_cons_succ, List.append_assoc,
    List.getElem?_append_right hskip, hleft, List.getElem?_append_left hword,
    wordSymbols_bit _ hk]

/-- What is received of a frame when no duration of its first 33 symbols is off by 200 ticks; the
last symbol can be anything. -/
structure Received (code : IrNecScanCode) (symbols : List Symbol) : Prop where
  length : symbols.length = 34
  near : ∀ i < 33, ∀ s t, symbols[i]? = some s → (necFrame code)[i]? = some t → Near s t

theorem Received.at {code : IrNecScanCode} {symbols : List Symbol} (h : Received code symbols)
    {i : ℕ} (hi : i < 33) {t : Symbol} (sent : (necFrame code)[i]? = some t) :
    ∃ s, symbols[i]? = some s ∧ Near s t := by
  have hlt : i < symbols.length := by
    rw [h.length]
    omega
  have hsome : symbols[i]? = some symbols[i] := List.getElem?_eq_getElem hlt
  exact ⟨symbols[i], hsome, h.near i hi _ _ hsome sent⟩

theorem necParseFrame_near {code : IrNecScanCode} {symbols : List Symbol}
    (h : Received code symbols) (stored : IrNecScanCode) :
    necParseFrame symbols stored = (true, code) := by
  obtain ⟨cur, rest, rfl⟩ : ∃ cur rest, symbols = cur :: rest := by
    exact List.exists_cons_of_length_eq_add_one h.length
  obtain ⟨s, hs, hlead⟩ := h.at (Nat.succ_pos 32) (necFrame_leading code)
  obtain rfl : cur = s := Option.some.inj hs
  have haddress : parseWord rest 0 16 0 = some (code.address, rest.drop 16) := by
    refine parseWord_near code.address 16 0 rfl rest (fun k hk => ?_) 0 fun _ hj => nomatch hj
    obtain ⟨t, ht, hnear⟩ := h.at (by omega) (necFrame_address code hk)
    rw [List.getElem?_cons_succ] at ht
    rw [Nat.zero_add]
    exact ⟨t, ht, hnear⟩
  have hcommand : parseWord (rest.drop 16) 0 16 0 =
      some (code.command, (rest.drop 16).drop 16) := by
    refine parseWord_near code.command 16 0 rfl _ (fun k hk => ?_) 0 fun _ hj => nomatch hj
    obtain ⟨t, ht, hnear⟩ := h.at (by omega) (necFrame_command code hk)
    rw [List.getElem?_cons_succ] at ht
    rw [Nat.zero_add, List.getElem?_drop]
    exact ⟨t, ht, hnear⟩
  have hleading : checkSymbol cur 9000 4500 = true := leading_iff.mpr hlead
  simp only [necParseFrame, hleading, if_true, haddress, hcommand]

/-- However the memory fills up, the driver gets the frame, and whatever is received of it is taken
for the scan code that was sent. -/
theorem nec_round_trip (code : IrNecScanCode) :
    (∀ calls, TransmitsFrame code calls (rmtTransmit necTxInit code calls)) ∧
      ∀ symbols, Received code symbols → ∀ stored, necParseFrame symbols stored = (true, code) :=
  ⟨rmtTransmit_frame code, fun _ received stored => necParseFrame_near received stored⟩

/-- The scan code of `app_main`, received as it was sent. -/
theorem nec_round_trip_scan :
    necParseFrame (necFrame ⟨0x0440, 0x3003⟩) ⟨0, 0⟩ = (true, ⟨0x0440, 0x3003⟩) := by
  refine (nec_round_trip _).2 _ ⟨length_necFrame _, fun i _ s t received sent => ?_⟩ _
  rw [Option.some.inj (received.symm.trans sent)]
  exact Near.refl t

end Ddsu666
