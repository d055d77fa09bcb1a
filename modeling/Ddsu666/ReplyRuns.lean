/- Whole runs of received replies: what the meter encoded last is what the variables hold. -/
import Ddsu666.MeterReplies
import Mathlib.Algebra.Order.Field.Power
import Mathlib.Tactic.Positivity

namespace Ddsu666
open CheckedBuffer Binary32

/-- The words of registers 0x2000 to 0x2010 and the two check bytes. The words `x` and `y`
belong to registers that the decoder does not use. -/
structure ParamsReply where
  v : UInt32
  i : UInt32
  p : UInt32
  q : UInt32
  s : UInt32
  f : UInt32
  x : UInt32
  h : UInt32
  y : UInt32
  crcLow : UInt8
  crcHigh : UInt8

structure EnergyReply where
  e : UInt32
  crcLow : UInt8
  crcHigh : UInt8

/-- Address, function code and byte count, then the words, then the check bytes. -/
def readReply (byteCount : UInt8) (words : List UInt32) (crcLow crcHigh : UInt8) : List UInt8 :=
  [0x01, 0x03, byteCount] ++ (words.flatMap bigEndian ++ [crcLow, crcHigh])

/-- The answer to the request for 18 registers from 0x2000 on. -/
def encP (r : ParamsReply) : List UInt8 :=
  readReply 0x24 [r.v, r.i, r.p, r.q, r.s, r.f, r.x, r.h, r.y] r.crcLow r.crcHigh

/-- The answer to the request for two registers from 0x4000 on. -/
def encE (r : EnergyReply) : List UInt8 := readReply 0x04 [r.e] r.crcLow r.crcHigh

inductive Reply where
  | params (r : ParamsReply)
  | energy (r : EnergyReply)
  | writeAck
  | exception
  | silence

/-- The words that are decoded are normal numbers. -/
def Reply.Normal : Reply → Prop
  | .params r => Binary32.Normal r.v ∧ Binary32.Normal r.i ∧ Binary32.Normal r.p ∧
      Binary32.Normal r.q ∧ Binary32.Normal r.s ∧ Binary32.Normal r.f ∧ Binary32.Normal r.h
  | .energy r => Binary32.Normal r.e
  | .writeAck | .exception | .silence => True

/-- A call of `get_rec_data` whose arguments hand over that reply. -/
def Delivers (buf : Buffer UInt8) (len : ℤ) : Reply → Prop
  | .params r => Holds buf (encP r) ∧ len = (encP r).length
  | .energy r => Holds buf (encE r) ∧ len = (encE r).length
  | .writeAck => ∃ bytes, bytes.length = 8 ∧ Holds buf bytes ∧ len = 8
  | .exception => ∃ bytes, bytes.length = 5 ∧ Holds buf bytes ∧ len = 5
  | .silence => len ≤ 0

def Reply.params? : Reply → Option ParamsReply
  | .params r => some r
  | _ => none

def Reply.energy? : Reply → Option EnergyReply
  | .energy r => some r
  | _ => none

def receiveAll {F : Type} [FloatArith F] (m : Meters F) (calls : List (Buffer UInt8 × ℤ)) :
    Except Fault (Meters F) :=
  calls.foldlM (fun m c => getRecData c.1 c.2 m) m

section Reports

variable {F : Type} [SingleArith F]

/-- A variable reads exactly the last word sent for it, or is what it was before. -/
def Reads (old : F) : Option UInt32 → F → Prop
  | none, new => new = old
  | some w, new => SingleArith.toRat? new = some (value w)

theorem Reads.trans {a b c : F} {first last : Option UInt32} (h : Reads a first b)
    (k : Reads b last c) : Reads a (last.or first) c := by
  cases last with
  | none =>
      obtain rfl : c = b := k
      exact h
  | some w => exact k

/-- What the meter itself meant with its last replies. -/
structure Reported (m : Meters F) (last : Option ParamsReply) (lastE : Option EnergyReply)
    (m' : Meters F) : Prop where
  voltage : Reads m.voltage (last.map ParamsReply.v) m'.voltage
  current : Reads m.current (last.map ParamsReply.i) m'.current
  aPower : Reads m.aPower (last.map ParamsReply.p) m'.aPower
  rPower : Reads m.rPower (last.map ParamsReply.q) m'.rPower
  apPower : Reads m.apPower (last.map ParamsReply.s) m'.apPower
  powerFactor : Reads m.powerFactor (last.map ParamsReply.f) m'.powerFactor
  powerFrequency : Reads m.powerFrequency (last.map ParamsReply.h) m'.powerFrequency
  totalEngery : Reads m.totalEngery (lastE.map EnergyReply.e) m'.totalEngery

theorem Reported.refl (m : Meters F) : Reported m none none m :=
  ⟨rfl, rfl, rfl, rfl, rfl, rfl, rfl, rfl⟩

theorem Reported.trans {m₀ m₁ m₂ : Meters F} {a c : Option ParamsReply} {b d : Option EnergyReply}
    (h : Reported m₀ a b m₁) (k : Reported m₁ c d m₂) : Reported m₀ (c.or a) (d.or b) m₂ := by
  constructor
  all_goals rw [Option.map_or]
  · exact h.voltage.trans k.voltage
  · exact h.current.trans k.current
  · exact h.aPower.trans k.aPower
  · exact h.rPower.trans k.rPower
  · exact h.apPower.trans k.apPower
  · exact h.powerFactor.trans k.powerFactor
  · exact h.powerFrequency.trans k.powerFrequency
  · exact h.totalEngery.trans k.totalEngery

end Reports

theorem wordOf_bigEndian (w : UInt32) : wordOf (wordAt (bigEndian w) 0) = w.toNat := by
  have hsum := bigEndian_sum w
  simpa [wordOf, wordAt, bigEndian] using hsum

theorem drop_words (words : List UInt32) (post : List UInt8) (k : ℕ) (hk : k < words.length) :
    (words.flatMap bigEndian ++ post).drop (4 * k) =
      bigEndian words[k] ++ ((words.drop (k + 1)).flatMap bigEndian ++ post) := by
  induction words generalizing k with
  | nil => cases hk
  | cons w words ih =>
      rw [List.flatMap_cons, List.append_assoc]
      cases k with
      | zero => rfl
      | succ k =>
          rw [Nat.mul_succ, Nat.add_comm, ← List.drop_drop,
            List.drop_left' (length_bigEndian w), ih k (Nat.lt_of_succ_lt_succ hk)]
          rfl

theorem wordAt_of_drop {bytes post : List UInt8} {w : UInt32} {ptr : ℕ}
    (here : bytes.drop ptr = bigEndian w ++ post) : wordAt bytes ptr = wordAt (bigEndian w) 0 := by
  funext z
  have hcell : bytes[ptr + (z : ℕ)]? = (bigEndian w)[(z : ℕ)]? := by
    rw [← List.getElem?_drop, here, List.getElem?_append_left (by simp)]
  simp only [wordAt, List.getD_eq_getElem?_getD, hcell, Nat.zero_add]

theorem length_encP (r : ParamsReply) : (encP r).length = 41 := rfl

theorem length_encE (r : EnergyReply) : (encE r).length = 9 := rfl

section Decoding

variable {F : Type} [SingleArith F]
open SingleArith

/-- Word `k` of a reply is decoded to its value, whatever the check bytes are. -/
theorem floatFrom8hex_reply (words : List UInt32) (byteCount crcLow crcHigh : UInt8) (k : ℕ)
    (hk : k < words.length) (normal : Binary32.Normal words[k]) :
    toRat? (floatFrom8hex (wordAt (readReply byteCount words crcLow crcHigh) (3 + 4 * k)) : F) =
      some (value words[k]) := by
  have here : (readReply byteCount words crcLow crcHigh).drop (3 + 4 * k) =
      bigEndian words[k] ++ ((words.drop (k + 1)).flatMap bigEndian ++ [crcLow, crcHigh]) := by
    rw [← List.drop_drop]
    exact drop_words words [crcLow, crcHigh] k hk
  rw [wordAt_of_drop here]
  exact floatFrom8hex_normal (wordAt_small _ _) (wordOf_bigEndian _) normal

theorem received_encP {r : ParamsReply} (normal : (Reply.params r).Normal) (m : Meters F) :
    Reported m (some r) none (received (encP r) m) := by
  obtain ⟨hv, hi, hp, hq, hs, hf, hh⟩ := normal
  have hword := floatFrom8hex_reply (F := F) [r.v, r.i, r.p, r.q, r.s, r.f, r.x, r.h, r.y]
    0x24 r.crcLow r.crcHigh
  rw [received_params (length_encP r)]
  exact ⟨hword 0 (by decide : 0 < 9) hv, hword 1 (by decide : 1 < 9) hi,
    hword 2 (by decide : 2 < 9) hp, hword 3 (by decide : 3 < 9) hq,
    hword 4 (by decide : 4 < 9) hs, hword 5 (by decide : 5 < 9) hf,
    hword 7 (by decide : 7 < 9) hh, rfl⟩

theorem received_encE {r : EnergyReply} (normal : (Reply.energy r).Normal) (m : Meters F) :
    Reported m none (some r) (received (encE r) m) := by
  have hword := floatFrom8hex_reply (F := F) [r.e] 0x04 r.crcLow r.crcHigh
  rw [received_energy (length_encE r)]
  exact ⟨rfl, rfl, rfl, rfl, rfl, rfl, rfl, hword 0 (by decide : 0 < 1) normal⟩

/-- Each delivery has the effect that the reply itself prescribes. -/
theorem getRecData_delivers {buf : Buffer UInt8} {len : ℤ} {reply : Reply}
    (h : Delivers buf len reply) (normal : reply.Normal) (m : Meters F) :
    ∃ m', getRecData buf len m = .ok m' ∧ Reported m reply.params? reply.energy? m' := by
  cases reply with
  | params r =>
      obtain ⟨held, rfl⟩ := h
      exact ⟨_, getRecData_ok held (by rw [length_encP]; decide) m, received_encP normal m⟩
  | energy r =>
      obtain ⟨held, rfl⟩ := h
      exact ⟨_, getRecData_ok held (by rw [length_encE]; decide) m, received_encE normal m⟩
  | writeAck =>
      obtain ⟨bytes, hlen, held, rfl⟩ := h
      have hrun := getRecData_ok held (by omega) m
      rw [received_other (by omega) (by omega), hlen] at hrun
      exact ⟨m, hrun, Reported.refl m⟩
  | exception =>
      obtain ⟨bytes, hlen, held, rfl⟩ := h
      have hrun := getRecData_ok held (by omega) m
      rw [received_other (by omega) (by omega), hlen] at hrun
      exact ⟨m, hrun, Reported.refl m⟩
  | silence => exact ⟨m, getRecData_silence buf h m, Reported.refl m⟩

theorem getLast?_filterMap_cons {α β : Type} (f : α → Option β) (a : α) (l : List α) :
    ((a :: l).filterMap f).getLast? = (l.filterMap f).getLast?.or (f a) := by
  rw [List.filterMap_cons]
  cases f a with
  | none => simp
  | some b => cases h : (l.filterMap f).getLast? <;> simp [List.getLast?_cons, h]

/-- The last reply of each kind decides, in whatever order the replies arrive. -/
theorem receiveAll_reported {calls : List (Buffer UInt8 × ℤ)} {replies : List Reply}
    (h : List.Forall₂ (fun c r => Delivers c.1 c.2 r ∧ r.Normal) calls replies) (m : Meters F) :
    ∃ m', receiveAll m calls = .ok m' ∧
      Reported m (replies.filterMap Reply.params?).getLast?
        (replies.filterMap Reply.energy?).getLast? m' := by
  induction h generalizing m with
  | nil => exact ⟨m, rfl, Reported.refl m⟩
  | @cons c reply calls replies first rest ih =>
      obtain ⟨m₁, hstep, hfirst⟩ := getRecData_delivers first.1 first.2 m
      obtain ⟨m₂, hrest, hlast⟩ := ih m₁
      refine ⟨m₂, ?_, ?_⟩
      · rw [receiveAll, List.foldlM_cons, hstep]
        exact hrest
      · rw [getLast?_filterMap_cons, getLast?_filterMap_cons]
        exact hfirst.trans hlast

end Decoding

/-- A reply to each query, the second one late: 230 V and then 1 kWh. -/
theorem receiveAll_two_replies :
    ∃ m' : Meters Float32, receiveAll initialMeters
      [((encP ⟨0x43660000, 0x3F800000, 0x3F800000, 0x3F800000, 0x3F800000, 0x3F800000, 0,
          0x42480000, 0, 0, 0⟩).map some, 41), ((encE ⟨0x3F800000, 0, 0⟩).map some, 9)] = .ok m' ∧
      Reported initialMeters
        (some ⟨0x43660000, 0x3F800000, 0x3F800000, 0x3F800000, 0x3F800000, 0x3F800000, 0,
          0x42480000, 0, 0, 0⟩) (some ⟨0x3F800000, 0, 0⟩) m' := by
  refine @receiveAll_reported Float32 _ _ [.params _, .energy _] (.cons ⟨⟨holds_map _, rfl⟩, ?_⟩
    (.cons ⟨⟨holds_map _, rfl⟩, ?_⟩ .nil)) _
  · simp only [Reply.Normal]
    decide
  · simp only [Reply.Normal]
    decide

/-- Eight words as the only contents, without the ninth that the request asks for. -/
def eightWordReply : List UInt8 :=
  readReply 0x24 [0x43660000, 0x3F800000, 0x3F800000, 0x3F800000, 0x3F800000, 0x3F800000, 0,
    0x42480000] 0 0

/-- Such a reply has 37 bytes, not 41, and is passed over. -/
theorem eight_word_reply_ignored :
    ¬ ∀ (m m' : Meters Float32) (v i p q s f x h : UInt32) (crcLow crcHigh : UInt8),
      Normal v → Normal i → Normal p → Normal q → Normal s → Normal f → Normal h →
      receiveAll m [((readReply 0x24 [v, i, p, q, s, f, x, h] crcLow crcHigh).map some,
        (readReply 0x24 [v, i, p, q, s, f, x, h] crcLow crcHigh).length)] = .ok m' →
      SingleArith.toRat? m'.voltage = some (value v) := by
  intro claim
  have hrun : receiveAll (initialMeters : Meters Float32)
      [(eightWordReply.map some, eightWordReply.length)] = .ok initialMeters := by
    have hrec := getRecData_ok (holds_map eightWordReply) (by decide)
      (initialMeters : Meters Float32)
    rw [received_other (by decide) (by decide)] at hrec
    rw [receiveAll, List.foldlM_cons, hrec]
    rfl
  have hvolts := claim _ _ _ _ _ _ _ _ _ _ _ _ (by decide) (by decide) (by decide) (by decide)
    (by decide) (by decide) (by decide) hrun
  have hsign : signFactor 0x43660000 = 1 := by rw [signFactor, if_neg (by decide)]
  have hzero : SingleArith.toRat? (initialMeters : Meters Float32).voltage = some 0 :=
    SingleArith.zero_exact
  rw [hzero, value_normal (by decide), hsign] at hvolts
  have hpos : (0 : ℚ) < 1 * 2 ^ ((exponentField 0x43660000 : ℤ) - 127) *
      (1 + (fractionField 0x43660000 : ℚ) / 2 ^ 23) := by positivity
  rw [← Option.some.inj hvolts] at hpos
  exact absurd hpos (lt_irrefl 0)

end Ddsu666
