/- From the registers of the meter to the text that is published: how far a number in an answer of
   `get_power_info` is off, whatever is received and assigned while it is read. -/
import Ddsu666.DecimalText
import Ddsu666.MeterBus
import Ddsu666.ResponseSize
import Ddsu666.SnapshotOrigins

namespace Ddsu666
open StringHeap DecimalText Binary32 RegisterBus

namespace Reading

/-- The first of the two registers of the reading. -/
def register : Reading → UInt16
  | voltage => 0x2000
  | current => 0x2002
  | aPower => 0x2004
  | rPower => 0x2006
  | apPower => 0x2008
  | powerFactor => 0x200A
  | powerFrequency => 0x200E
  | totalEngery => 0x4000

def query : Reading → Frame
  | totalEngery => .energy
  | _ => .params

/-- The reply that carries the reading. -/
def reply (r : Reading) (registers : UInt16 → UInt16) : List UInt8 :=
  frame lineCheck 0x01 (r.query.request.reply registers)

def decimals : Reading → ℕ
  | voltage | aPower | rPower | apPower => 1
  | powerFrequency | totalEngery => 2
  | current | powerFactor => 3

def factor : Reading → ℕ
  | aPower | rPower | apPower => 1000
  | _ => 1

def unit : Reading → String
  | powerFrequency => "Hz"
  | _ => ""

end Reading

/-- The characters of a text in ASCII. -/
def chars (t : CString) : List Char := t.1.map fun b => Char.ofNat b.toNat

/-- What C promises for `%.*f`, and that no number of single precision is too long. -/
structure Accurate {F : Type} [SingleArith F] (P : Platform F) : Prop where
  rounds : ∀ {decimals : ℕ} {x : F} {q : ℚ}, 0 < decimals → SingleArith.toRat? x = some q →
    Rounds decimals q (chars (P.fixed decimals x))
  short : ∀ {decimals : ℕ} {x : F} {q : ℚ}, 0 < decimals → decimals ≤ 3 →
    SingleArith.toRat? x = some q → (P.fixed decimals x).1.length ≤ 44
  thousand : SingleArith.toRat? (FloatArith.ofNat 1000 : F) = some 1000

/-- A text shows what the registers hold: the number is off by half a unit of its last place at
most. The powers are shown in another unit, and the product may have to be rounded before. -/
def Reading.Shown (r : Reading) (registers : UInt16 → UInt16) (text : CString) : Prop :=
  Normal (single registers r.register) →
    (r.factor = 1 ∨ Single (r.factor * value (single registers r.register))) →
    ∃ number, text = number ++ ofString r.unit ∧
      Rounds r.decimals (r.factor * value (single registers r.register)) (chars number)

/-- Neither shortened nor damaged on the line. -/
def FromMeter (bytes : List UInt8) : Prop :=
  ∀ r : Reading, bytes.length = r.replyLength → ∃ registers, bytes = r.reply registers

theorem length_reply (r : Reading) (registers : UInt16 → UInt16) :
    (r.reply registers).length = r.replyLength := by
  cases r <;> rfl

theorem reply_fromMeter (r : Reading) (registers : UInt16 → UInt16) :
    FromMeter (r.reply registers) := by
  intro q same
  rw [length_reply] at same
  have hquery : r.query = q.query := by
    cases r <;> cases q <;> first | rfl | exact absurd same (by decide)
  exact ⟨registers, by rw [Reading.reply, Reading.reply, hquery]⟩

/-- Whatever state a meter is in. -/
theorem serve_fromMeter {σ : Type} (server : Meter σ) (s : σ) (r : Reading) :
    FromMeter (server.serve s (stamped r.query.template)).2 := by
  have hserve : (server.serve s (stamped r.query.template)).2 = r.reply (server.registers s) := by
    rw [stamped_template]
    cases r <;> exact congrArg Prod.snd (server.serve_read s _ _ (by decide))
  rw [hserve]
  exact reply_fromMeter r (server.registers s)

section Text

theorem bytes_ofChars {cs : List Char} (text : ∀ c ∈ cs, UInt8.ofNat c.toNat ≠ 0) :
    (ofChars cs).1 = cs.map fun c => UInt8.ofNat c.toNat := by
  rw [ofChars, textOf]
  refine List.takeWhile_eq_self_iff.mpr ?_
  intro b hb
  obtain ⟨c, hc, rfl⟩ := List.mem_map.mp hb
  exact bne_iff_ne.mpr (text c hc)

/-- Characters that take one byte each. -/
def Ascii (cs : List Char) : Prop := ∀ c ∈ cs, 0 < c.toNat ∧ c.toNat < 128

theorem Ascii.byte {cs : List Char} (ascii : Ascii cs) {c : Char} (hc : c ∈ cs) :
    (UInt8.ofNat c.toNat).toNat = c.toNat :=
  Nat.mod_eq_of_lt ((ascii c hc).2.trans (by decide))

theorem Ascii.bytes {cs : List Char} (ascii : Ascii cs) :
    (ofChars cs).1 = cs.map fun c => UInt8.ofNat c.toNat := by
  refine bytes_ofChars fun c hc zero => ?_
  have hbyte := ascii.byte hc
  rw [zero] at hbyte
  exact absurd (ascii c hc).1 (by rw [← hbyte]; decide)

theorem Ascii.chars {cs : List Char} (ascii : Ascii cs) : chars (ofChars cs) = cs := by
  rw [Ddsu666.chars, ascii.bytes, List.map_map]
  conv_rhs => rw [← List.map_id cs]
  refine List.map_congr_left fun c hc => ?_
  rw [Function.comp_apply, ascii.byte hc, Char.ofNat_toNat, id]

theorem chars_append (s t : CString) : chars (s ++ t) = chars s ++ chars t := List.map_append

theorem Ascii.append {cs ds : List Char} (hc : Ascii cs) (hd : Ascii ds) : Ascii (cs ++ ds) := by
  intro c h
  rcases List.mem_append.mp h with h | h
  · exact hc c h
  · exact hd c h

theorem ascii_digits {cs : List Char} (digits : ∀ c ∈ cs, c.isDigit = true) : Ascii cs := by
  intro c hc
  have hdigit := digits c hc
  rw [Char.isDigit, Bool.and_eq_true, decide_eq_true_iff, decide_eq_true_iff] at hdigit
  have hlow : 48 ≤ c.toNat := hdigit.1
  have hhigh : c.toNat ≤ 57 := hdigit.2
  omega

theorem ascii_fixedPoint (decimals n : ℕ) : Ascii (fixedPoint decimals n) := by
  refine (ascii_digits (digits_toDigits _).2).append ?_
  intro c hc
  rcases List.mem_cons.mp hc with rfl | hc
  · decide
  · exact ascii_digits (digits_padded _ _).2 c hc

end Text

/-- What `get_power_info` formats: the variable, or a thousand times the variable. -/
def Reading.scaled {F : Type} [FloatArith F] (r : Reading) (x : F) : F :=
  if r.factor = 1 then x else FloatArith.mul x (FloatArith.ofNat 1000)

theorem Reading.member_eq {F : Type} [FloatArith F] (P : Platform F) (r : Reading) (x : F) :
    (r.member P x).2 = P.fixed r.decimals (r.scaled x) ++ ofString r.unit := by
  have hempty : ∀ t : CString, t = t ++ ofString "" := fun t =>
    Subtype.ext (List.append_nil t.1).symm
  cases r with
  | powerFrequency => rfl
  | voltage | current | aPower | rPower | apPower | powerFactor | totalEngery => exact hempty _

section Answers

variable {F : Type} [SingleArith F] {P : Platform F}

/-- The reply carries the number that the two registers encode. -/
theorem decoded_reply (r : Reading) (registers : UInt16 → UInt16)
    (normal : Normal (single registers r.register)) :
    SingleArith.toRat? (r.decoded (r.reply registers) : F) =
      some (value (single registers r.register)) := by
  obtain ⟨x, y, hparams⟩ := frame_reply registers 0x2000 0x12 (n := 9) rfl
  obtain ⟨x', y', henergy⟩ := frame_reply registers 0x4000 0x02 (n := 1) rfl
  have hreply : ∀ q : Reading, q.query = .params → q.reply registers =
      readReply (UInt8.ofNat (4 * 9)) (singles registers 0x2000 9) x y := by
    intro q hq
    rw [Reading.reply, hq]
    exact hparams
  have hword := fun {k} (hk : k < 9) =>
    shows_word (FloatArith.zero : F) registers 0x2000 (UInt8.ofNat (4 * 9)) x y hk
  rw [Reading.decoded]
  cases r with
  | totalEngery =>
      rw [Reading.reply, Reading.query, Frame.request, henergy]
      exact shows_word (FloatArith.zero : F) registers 0x4000 _ x' y' (k := 0) (by decide) normal
  | voltage =>
      rw [hreply _ rfl]
      exact hword (k := 0) (by decide) normal
  | current =>
      rw [hreply _ rfl]
      exact hword (k := 1) (by decide) normal
  | aPower =>
      rw [hreply _ rfl]
      exact hword (k := 2) (by decide) normal
  | rPower =>
      rw [hreply _ rfl]
      exact hword (k := 3) (by decide) normal
  | apPower =>
      rw [hreply _ rfl]
      exact hword (k := 4) (by decide) normal
  | powerFactor =>
      rw [hreply _ rfl]
      exact hword (k := 5) (by decide) normal
  | powerFrequency =>
      rw [hreply _ rfl]
      exact hword (k := 7) (by decide) normal

theorem Reading.decimals_pos (r : Reading) : 0 < r.decimals := by cases r <;> decide

theorem Reading.decimals_le (r : Reading) : r.decimals ≤ 3 := by cases r <;> decide

theorem Accurate.scaled (accurate : Accurate P) {r : Reading} {x : F} {q : ℚ}
    (hx : SingleArith.toRat? x = some q) (exact : r.factor = 1 ∨ Single (r.factor * q)) :
    SingleArith.toRat? (r.scaled x) = some (r.factor * q) := by
  unfold Reading.scaled
  split
  · rename_i hone
    rw [hone, Nat.cast_one, one_mul]
    exact hx
  · rename_i hfactor
    have hthousand : ((r.factor : ℕ) : ℚ) = 1000 := by
      cases r with
      | aPower | rPower | apPower => rfl
      | voltage | current | powerFactor | powerFrequency | totalEngery =>
          exact absurd rfl hfactor
    have hsingle := exact.resolve_left hfactor
    rw [hthousand, mul_comm] at hsingle ⊢
    exact SingleArith.mul_exact hx accurate.thousand hsingle

/-- Nothing of a number is lost in `ret_buffer`. -/
theorem Accurate.shown_value (accurate : Accurate P) (r : Reading) (registers : UInt16 → UInt16)
    {x : F} (hx : Normal (single registers r.register) →
      SingleArith.toRat? x = some (value (single registers r.register))) :
    r.Shown registers (buffered (r.member P x).2) := by
  intro normal exact
  have hscaled := accurate.scaled (hx normal) exact
  refine ⟨P.fixed r.decimals (r.scaled x), ?_, accurate.rounds r.decimals_pos hscaled⟩
  have hshort := accurate.short r.decimals_pos r.decimals_le hscaled
  have hunit : (ofString r.unit).1.length ≤ 2 := by cases r <;> decide
  rw [r.member_eq, buffered]
  refine truncate_all ?_
  rw [append_length, retBufferSize]
  omega

theorem Accurate.shown (accurate : Accurate P) (r : Reading) (registers : UInt16 → UInt16) :
    r.Shown registers
      (buffered (r.member P (r.decoded (r.reply registers))).2) :=
  accurate.shown_value r registers (decoded_reply r registers)

/-- The value of a member came from a reply, or there was none before it was read. -/
theorem member_origin {tr : List SnapshotLabel} {s : SnapshotState F}
    (h : SnapshotRun bootSnapshot tr s) {m : Reading × F} (member : m ∈ s.members) :
    (origin tr m.1 = 0 ∧ m.2 = FloatArith.zero) ∨
      ∃ bytes, (replies tr m.1.replyLength)[origin tr m.1 - 1]? = some bytes ∧
        m.2 = m.1.decoded bytes := by
  have hvalue := (readerInv_run h).values m member
  have hle := (origin_le tr m.1).trans ((writerInv_run h).assigned_le m.1)
  cases horigin : origin tr m.1 with
  | zero =>
      rw [horigin] at hvalue
      exact .inl ⟨rfl, hvalue⟩
  | succ k =>
      rw [horigin] at hle hvalue
      have hlast : ((replies tr m.1.replyLength).take (k + 1)).getLast? =
          some ((replies tr m.1.replyLength).get ⟨k, hle⟩) := by
        rw [List.take_succ_eq_append_getElem hle, List.getLast?_concat, List.get_eq_getElem]
      rw [latest, hlast] at hvalue
      exact .inr ⟨_, List.getElem?_eq_getElem hle, hvalue⟩

theorem mem_replies {tr : List SnapshotLabel} {length : ℕ} {bytes : List UInt8}
    (h : bytes ∈ replies tr length) : .receive bytes ∈ tr ∧ bytes.length = length := by
  obtain ⟨a, ha, hsome⟩ := List.mem_filterMap.mp h
  cases a with
  | receive bytes' =>
      simp only [Option.ite_none_right_eq_some, Option.some.injEq] at hsome
      obtain ⟨hlength, rfl⟩ := hsome
      exact ⟨ha, hlength⟩
  | assign r | request | read r | publish => cases hsome

/-- However the tasks overtake each other, every number in an answer is the initial zero of a
variable that no reply had set, or shows what the registers held when a certain reply was sent:
the last that had been assigned to the variable when it was read. -/
theorem member_accurate (accurate : Accurate P) {tr : List SnapshotLabel} {s : SnapshotState F}
    (h : SnapshotRun bootSnapshot tr s) (whole : ∀ bytes, .receive bytes ∈ tr → FromMeter bytes)
    {m : Reading × F} (member : m ∈ s.members) :
    (origin tr m.1 = 0 ∧ m.2 = FloatArith.zero) ∨
      ∃ registers, (replies tr m.1.replyLength)[origin tr m.1 - 1]? =
          some (m.1.reply registers) ∧
        m.1.Shown registers (buffered (m.1.member P m.2).2) := by
  rcases member_origin h member with initial | ⟨bytes, hreply, hvalue⟩
  · exact .inl initial
  · obtain ⟨hreceived, hlength⟩ := mem_replies (List.mem_of_getElem? hreply)
    obtain ⟨registers, rfl⟩ := whole bytes hreceived m.1 hlength
    refine .inr ⟨registers, hreply, ?_⟩
    rw [hvalue]
    exact accurate.shown m.1 registers

end Answers

/-! The board of the samples keeps these promises. -/

theorem roundHalfEven_near {x : ℚ} (pos : 0 ≤ x) : |(roundHalfEven x : ℚ) - x| ≤ 1 / 2 := by
  refine nearest_floor pos ?_ ?_
  · rintro (h | h)
    · exact h.le
    · exact h.1.ge
  · intro h
    exact not_lt.mp fun above => h (.inl above)

theorem fixedRat_eq (decimals : ℕ) (q : ℚ) :
    fixedRat decimals q = ofChars (fixedPoint decimals (roundHalfEven (q * 10 ^ decimals))) := by
  simp only [fixedRat, fixedPoint, List.append_assoc, List.cons_append, List.nil_append]

theorem chars_fixedRat (decimals : ℕ) (q : ℚ) :
    chars (fixedRat decimals q) = fixedPoint decimals (roundHalfEven (q * 10 ^ decimals)) := by
  rw [fixedRat_eq, (ascii_fixedPoint _ _).chars]

theorem rounds_signed {decimals : ℕ} (some_decimals : 0 < decimals) {q : ℚ} (pos : 0 ≤ q) :
    Rounds decimals q (chars (signText .positive ++ fixedRat decimals q)) ∧
      Rounds decimals (-q) (chars (signText .negative ++ fixedRat decimals q)) := by
  have near := roundHalfEven_near (x := q * 10 ^ decimals) (by positivity)
  have hplus : chars (signText .positive) = [] := by decide
  have hminus : chars (signText .negative) = ['-'] := by decide
  rw [chars_append, chars_append, hplus, hminus, chars_fixedRat]
  exact ⟨Rounds.fixedPoint some_decimals near, Rounds.minus some_decimals near⟩

theorem length_signed (s : Float.Model.UnpackedFloat.Sign) {decimals : ℕ}
    (some_decimals : 0 < decimals) {q : ℚ} (pos : 0 ≤ q) (small : q < 2 ^ 128) :
    (signText s ++ fixedRat decimals q).1.length ≤ decimals + 41 := by
  have hsign : (signText s).1.length ≤ 1 := by cases s <;> decide
  have hscale : q * 10 ^ decimals < 2 ^ 128 * 10 ^ decimals := by gcongr
  have hround : roundHalfEven (q * 10 ^ decimals) < 10 ^ (39 + decimals) := by
    have near := (abs_le.mp (roundHalfEven_near (x := q * 10 ^ decimals) (by positivity))).2
    have hone : (1 : ℚ) ≤ 10 ^ decimals := one_le_pow₀ (by norm_num)
    have hlarge : (2 : ℚ) ^ 128 + 1 ≤ 10 ^ 39 := by norm_num
    have hlt : (roundHalfEven (q * 10 ^ decimals) : ℚ) < 10 ^ (39 + decimals) := by
      calc (roundHalfEven (q * 10 ^ decimals) : ℚ) ≤ q * 10 ^ decimals + 1 / 2 := by linarith
        _ < 2 ^ 128 * 10 ^ decimals + 10 ^ decimals := by linarith
        _ = (2 ^ 128 + 1) * 10 ^ decimals := by ring
        _ ≤ 10 ^ 39 * 10 ^ decimals := by gcongr
        _ = 10 ^ (39 + decimals) := (pow_add _ _ _).symm
    exact_mod_cast hlt
  have hlength := length_fixedPoint some_decimals (by decide : 0 < 39) hround
  rw [append_length, fixedRat_eq, (ascii_fixedPoint _ _).bytes, List.length_map]
  omega

theorem fixedSingle_rounds {decimals : ℕ} {x : Float32} {q : ℚ} (some_decimals : 0 < decimals)
    (hx : ratOf x.toModel.unpack = some q) : Rounds decimals q (chars (fixedSingle decimals x)) := by
  rw [fixedSingle]
  cases hu : x.toModel.unpack with
  | finite s m e pos =>
      rw [hu] at hx
      obtain rfl := Option.some.inj hx
      have hsigned := rounds_signed some_decimals (q := m * 2 ^ e) (by positivity)
      cases s with
      | positive => exact hsigned.1
      | negative =>
          have hneg : ((Float.Model.UnpackedFloat.Sign.negative.apply (m : ℤ) : ℤ) : ℚ) *
              2 ^ e = -(m * 2 ^ e) := by simp [Float.Model.UnpackedFloat.Sign.apply]
          rw [hneg]
          exact hsigned.2
  | zero s =>
      rw [hu] at hx
      obtain rfl := Option.some.inj hx
      have hsigned := rounds_signed some_decimals (q := 0) le_rfl
      cases s with
      | positive => exact hsigned.1
      | negative =>
          rw [neg_zero] at hsigned
          exact hsigned.2
  | infinity s | notANumber =>
      rw [hu] at hx
      cases hx

/-- A single precision number is less than 2 to the 128th. -/
theorem length_fixedSingle {decimals : ℕ} {x : Float32} {q : ℚ} (some_decimals : 0 < decimals)
    (few : decimals ≤ 3) (hx : ratOf x.toModel.unpack = some q) :
    (fixedSingle decimals x).1.length ≤ 44 := by
  have hcanonical := canonical x
  rw [fixedSingle]
  cases hu : x.toModel.unpack with
  | finite s m e pos =>
      rw [hu] at hcanonical
      obtain ⟨hm, -, he, -⟩ := hcanonical
      have hsmall : (m : ℚ) * 2 ^ e < 2 ^ 128 := by
        have hm' : (m : ℚ) < 2 ^ 24 := by exact_mod_cast hm
        have hpos : (0 : ℚ) < 2 ^ e := zpow_pos (by decide) e
        calc (m : ℚ) * 2 ^ e < 2 ^ 24 * 2 ^ e := by gcongr
          _ = 2 ^ ((24 : ℕ) + e) := two_pow_mul 24 e
          _ ≤ 2 ^ (128 : ℤ) := zpow_le_zpow_right₀ (by decide) (by omega)
          _ = 2 ^ 128 := rfl
      exact (length_signed s some_decimals (by positivity) hsmall).trans (by omega)
  | zero s =>
      exact (length_signed s some_decimals le_rfl (by positivity)).trans (by omega)
  | infinity s | notANumber =>
      rw [hu] at hx
      cases hx

theorem sampleBoard_accurate : Accurate sampleBoard where
  rounds some_decimals hx := fixedSingle_rounds some_decimals hx
  short some_decimals few hx := length_fixedSingle some_decimals few hx
  thousand := by
    have hunpack : (FloatArith.ofNat 1000 : Float32).toModel.unpack =
        .finite .positive 16384000 (-14) (by decide) := rfl
    change ratOf (FloatArith.ofNat 1000 : Float32).toModel.unpack = some 1000
    rw [hunpack, ratOf]
    norm_num [Float.Model.UnpackedFloat.Sign.apply]

end Ddsu666
