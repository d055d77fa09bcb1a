/- Calls of `example_parse_nec_frame` of ir_nec_decoder.c one after another: what is stored after
   any of them. -/
import Ddsu666.NecDecoder

namespace Ddsu666

def necParseFrameRepeat (s : Symbol) : Bool := checkSymbol s 9000 2250

/-- What is printed behind "NEC frame end". -/
inductive NecReport where
  | frame (code : IrNecScanCode)
  | frameRepeat (code : IrNecScanCode)
  | unknown (symbolNum : ℕ)
  deriving DecidableEq

def exampleParseNecFrame (rmtNecSymbols : List Symbol) (stored : IrNecScanCode) :
    IrNecScanCode × Option NecReport :=
  let symbolNum := rmtNecSymbols.length
  if symbolNum = 34 then
    let (accepted, stored) := necParseFrame rmtNecSymbols stored
    (stored, if accepted then some (.frame stored) else none)
  else if symbolNum = 2 then
    let accepted := rmtNecSymbols.head?.any necParseFrameRepeat
    (stored, if accepted then some (.frameRepeat stored) else none)
  else (stored, some (.unknown symbolNum))

/-- What is stored after some calls; both static variables are zero before the first. -/
def storedAfter (calls : List (List Symbol)) : IrNecScanCode :=
  calls.foldl (fun stored symbols => (exampleParseNecFrame symbols stored).1) ⟨0, 0⟩

instance (s t : Symbol) : Decidable (Near s t) :=
  decidable_of_iff
    (((s.duration0.toNat : ℤ) - t.duration0.toNat).natAbs < 200 ∧
      ((s.duration1.toNat : ℤ) - t.duration1.toNat).natAbs < 200)
    ⟨fun h => ⟨h.1, h.2⟩, fun h => ⟨h.duration0, h.duration1⟩⟩

/-- The window of the leading code, and 32 times the window of one of the two bits. -/
structure ValidFrame (symbols : List Symbol) : Prop where
  length : symbols.length = 34
  leading : ∀ s, symbols[0]? = some s → Near s ⟨9000, true, 4500, false⟩
  bits : ∀ i < 32, ∀ s, symbols[i + 1]? = some s → ∃ b, Near s (bitSymbol b)

/-- Whether the symbol at an index is a one. -/
def oneAt (symbols : List Symbol) (i : ℕ) : Bool :=
  symbols[i]?.any fun s => decide (Near s (bitSymbol true))

/-- The 16 bits that begin at an index, the lowest first. -/
def wordAt16 (symbols : List Symbol) (first : ℕ) : BitVec 16 :=
  (BitVec.ofBoolListLE ((List.range 16).map fun k => oneAt symbols (first + k))).cast (by simp)

def sentCode (symbols : List Symbol) : IrNecScanCode :=
  ⟨wordAt16 symbols 1, wordAt16 symbols 17⟩

theorem wordAt16_bit {symbols : List Symbol} {first k : ℕ} (hk : k < 16) {s : Symbol}
    (hs : symbols[first + k]? = some s) {b : Bool} (near : Near s (bitSymbol b)) :
    (wordAt16 symbols first).getLsbD k = b := by
  have hbit : (wordAt16 symbols first).getLsbD k = oneAt symbols (first + k) := by
    unfold wordAt16
    rw [BitVec.getLsbD_cast, BitVec.getLsbD_ofBoolListLE]
    simp [hk]
  rw [hbit, oneAt, hs, Option.any_some]
  cases b with
  | true => exact decide_eq_true near
  | false =>
      refine decide_eq_false fun one => ?_
      cases near.bit_unique one

theorem ValidFrame.received {symbols : List Symbol} (h : ValidFrame symbols) :
    Received (sentCode symbols) symbols := by
  constructor
  · exact h.length
  · intro i hi s t hs ht
    cases i with
    | zero =>
        rw [necFrame_leading] at ht
        cases ht
        exact h.leading s hs
    | succ i =>
        obtain ⟨b, near⟩ := h.bits i (by omega) s hs
        by_cases low : i < 16
        · have hbit : (sentCode symbols).address.getLsbD i = b := by
            refine wordAt16_bit low ?_ near
            rwa [Nat.add_comm]
          rw [necFrame_address _ low, hbit] at ht
          cases ht
          exact near
        · obtain ⟨k, rfl⟩ := Nat.exists_eq_add_of_le (Nat.le_of_not_lt low)
          have high : k < 16 := by omega
          have hbit : (sentCode symbols).command.getLsbD k = b := by
            refine wordAt16_bit high ?_ near
            rwa [Nat.add_right_comm] at hs
          rw [necFrame_command _ high, hbit] at ht
          cases ht
          exact near

/-- What a loop accepts lies in the windows, symbol by symbol. -/
theorem parseWord_some {n i : ℕ} {cur rest : List Symbol} {word w : BitVec 16}
    (h : parseWord cur i n word = some (w, rest)) :
    rest = cur.drop n ∧ ∀ k < n, ∀ s, cur[k]? = some s → ∃ b, Near s (bitSymbol b) := by
  induction n generalizing i cur word with
  | zero =>
      rw [parseWord] at h
      cases h
      exact ⟨rfl, fun k hk => absurd hk (Nat.not_lt_zero k)⟩
  | succ n ih =>
      cases cur with
      | nil => cases h
      | cons s cur =>
          have hnear : ∃ b, Near s (bitSymbol b) ∧
              ∃ next, parseWord cur (i + 1) n next = some (w, rest) := by
            rw [parseWord] at h
            split at h
            · rename_i one
              exact ⟨true, necParseLogic1_iff.mp one, _, h⟩
            · split at h
              · rename_i zero
                exact ⟨false, necParseLogic0_iff.mp zero, _, h⟩
              · cases h
          obtain ⟨b, near, next, hnext⟩ := hnear
          obtain ⟨hrest, hbits⟩ := ih hnext
          refine ⟨hrest, fun k hk t ht => ?_⟩
          cases k with
          | zero =>
              cases ht
              exact ⟨b, near⟩
          | succ k => exact hbits k (Nat.lt_of_succ_lt_succ hk) t ht

/-- A frame is accepted as a whole, or nothing is stored. -/
theorem necParseFrame_cases {symbols : List Symbol} (length : symbols.length = 34)
    (stored : IrNecScanCode) :
    ValidFrame symbols ∨ necParseFrame symbols stored = (false, stored) := by
  obtain ⟨cur, symbols, rfl⟩ := List.exists_cons_of_length_eq_add_one length
  rw [necParseFrame]
  split
  · rename_i leading
    split
    · exact .inr rfl
    · rename_i address symbols' haddress
      split
      · exact .inr rfl
      · rename_i command rest hcommand
        obtain ⟨rfl, hlow⟩ := parseWord_some haddress
        obtain ⟨-, hhigh⟩ := parseWord_some hcommand
        refine .inl ⟨length, ?_, ?_⟩
        · rintro s ⟨⟩
          exact leading_iff.mp leading
        · intro i hi s hs
          rw [List.getElem?_cons_succ] at hs
          by_cases low : i < 16
          · exact hlow i low s hs
          · refine hhigh (i - 16) (by omega) s ?_
            rwa [List.getElem?_drop, Nat.add_sub_cancel' (Nat.le_of_not_lt low)]
  · exact .inr rfl

theorem exampleParseNecFrame_valid {symbols : List Symbol} (valid : ValidFrame symbols)
    (stored : IrNecScanCode) :
    exampleParseNecFrame symbols stored =
      (sentCode symbols, some (.frame (sentCode symbols))) := by
  unfold exampleParseNecFrame
  simp only [valid.length, if_true, necParseFrame_near valid.received]

/-- Neither variable is touched. -/
theorem exampleParseNecFrame_other {symbols : List Symbol} (other : ¬ ValidFrame symbols)
    (stored : IrNecScanCode) : (exampleParseNecFrame symbols stored).1 = stored := by
  unfold exampleParseNecFrame
  by_cases length : symbols.length = 34
  · have hreject := (necParseFrame_cases length stored).resolve_left other
    simp only [length, if_true, hreject]
  · by_cases two : symbols.length = 2
    · simp only [two, if_true]
      rfl
    · simp only [length, two, if_false]

theorem storedAfter_others {pre post : List (List Symbol)}
    (others : ∀ symbols ∈ post, ¬ ValidFrame symbols) :
    storedAfter (pre ++ post) = storedAfter pre := by
  unfold storedAfter
  rw [List.foldl_append]
  generalize List.foldl _ _ pre = stored
  induction post with
  | nil => rfl
  | cons symbols post ih =>
      have hboth := List.forall_mem_cons.mp others
      rw [List.foldl_cons, exampleParseNecFrame_other hboth.1, ih hboth.2]

theorem storedAfter_valid {symbols : List Symbol} (valid : ValidFrame symbols)
    (pre : List (List Symbol)) : storedAfter (pre ++ [symbols]) = sentCode symbols := by
  unfold storedAfter
  rw [List.foldl_append, List.foldl_cons, List.foldl_nil, exampleParseNecFrame_valid valid]

/-- After any history the code of the last valid frame is stored, both of its words. -/
theorem nec_history (calls : List (List Symbol)) :
    ((∀ symbols ∈ calls, ¬ ValidFrame symbols) → storedAfter calls = ⟨0, 0⟩) ∧
      (∀ pre symbols post, calls = pre ++ symbols :: post → ValidFrame symbols →
        (∀ later ∈ post, ¬ ValidFrame later) → storedAfter calls = sentCode symbols) ∧
      ∀ symbols stored, ¬ ValidFrame symbols →
        (exampleParseNecFrame symbols stored).1 = stored := by
  refine ⟨?_, ?_, fun symbols stored other => exampleParseNecFrame_other other stored⟩
  · intro others
    exact @storedAfter_others [] _ others
  · rintro pre symbols post rfl valid others
    rw [List.append_cons, storedAfter_others others, storedAfter_valid valid]

end Ddsu666
