/- The encoder of ir_nec_encoder.c at any resolution, over any number of transmissions of which some
   are given up: what is sent, and which resolutions the decoder understands. -/
import Ddsu666.NecHistory
import Mathlib.Data.List.Forall2

namespace Ddsu666
open StagedEmission

def rmtIrNecEncoderReset (enc : NecEncoder) : NecEncoder :=
  { enc with copyIndex := 0, bytesIndex := 0, state := 0 }

/-- A transmission that is still running is given up, with a reset. -/
def nextEncoder (e : Encoded) : NecEncoder :=
  if e.state.complete then e.encoder else rmtIrNecEncoderReset e.encoder

/-- One transmission after another, each with the room that its calls find. -/
def necSessions (enc : NecEncoder) :
    List (IrNecScanCode × List (ℕ → Room)) → List (IrNecScanCode × Encoded)
  | [] => []
  | (code, calls) :: later =>
      let e := rmtTransmit enc code calls
      (code, e) :: necSessions (nextEncoder e) later

/-- The four parts of a frame, one behind the other. -/
def NecEncoder.frame (enc : NecEncoder) (code : IrNecScanCode) : List Symbol :=
  (enc.parts code).flatten

/-- All of the frame, or a beginning of it. -/
structure Sent (enc : NecEncoder) (code : IrNecScanCode) (e : Encoded) : Prop where
  complete : e.state.complete = true → e.symbols = enc.frame code
  running : e.state.complete = false → ∃ due ≠ [], e.symbols ++ due = enc.frame code

/-- An encoder between two transmissions. -/
def NecEncoder.Fresh (enc : NecEncoder) : Prop :=
  enc.copyIndex = 0 ∧ enc.bytesIndex = 0 ∧ enc.state = 0

section Sessions

variable {enc : NecEncoder}

theorem bytesSymbols_ne_nil (enc : NecEncoder) (w : BitVec 16) :
    enc.bytesSymbols (wordBytes w) ≠ [] := by
  intro none
  have hlength := congrArg List.length none
  simp [NecEncoder.bytesSymbols, wordBytes] at hlength

theorem parts_ready (enc : NecEncoder) (code : IrNecScanCode) : Busy (enc.parts code) 0 := by
  refine ⟨?_, _, _, rfl, Nat.one_pos⟩
  simp only [NecEncoder.parts, List.forall_mem_cons, List.not_mem_nil]
  exact ⟨List.cons_ne_nil _ _, bytesSymbols_ne_nil _ _, bytesSymbols_ne_nil _ _,
    List.cons_ne_nil _ _, fun _ h => h.elim⟩

theorem NecEncoder.Fresh.resumed (fresh : enc.Fresh) : enc.resumed 4 0 = enc := by
  obtain ⟨leading, ending, bit0, bit1, copyIndex, bytesIndex, state⟩ := enc
  obtain ⟨rfl, rfl, rfl⟩ := fresh
  rfl

/-- Wherever an encoder stopped, a reset brings it back. -/
theorem reset_resumed (fresh : enc.Fresh) (left index : ℕ) :
    rmtIrNecEncoderReset (enc.resumed left index) = enc := by
  rw [← fresh.resumed]
  rcases left with _ | _ | _ | _ | _ | left <;> rfl

theorem transmit_sent (fresh : enc.Fresh) (code : IrNecScanCode) (calls : List (ℕ → Room)) :
    Sent enc code (rmtTransmit enc code calls) ∧
      nextEncoder (rmtTransmit enc code calls) = enc := by
  have busy := parts_ready enc code
  have hat := rmtTransmit_at (List.suffix_refl (enc.parts code)) busy calls
  have hlength : (enc.parts code).length = 4 := rfl
  rw [hlength, fresh.resumed] at hat
  have hadvances := encodeCalls_advances busy calls
  have hpending : pending (enc.parts code) 0 = enc.frame code := pending_zero _
  rw [hat]
  refine ⟨⟨fun complete => ?_, fun running => ?_⟩, ?_⟩
  · exact (encodeCalls_complete busy complete).trans hpending
  · exact ⟨_, (hadvances.stopped running).pending_ne, hadvances.emitted.symm.trans hpending⟩
  · rw [nextEncoder]
    split
    · rename_i complete
      obtain ⟨hnone, -⟩ := hadvances.complete complete
      rw [NecEncoder.at, hnone, ← fresh.resumed]
      rfl
    · exact reset_resumed fresh _ _

/-- Whatever was given up before, a transmission that completes has sent its whole frame, and one
that does not has sent a beginning of it. -/
theorem nec_sessions (resolution : UInt32) (sessions : List (IrNecScanCode × List (ℕ → Room))) :
    ∀ sent ∈ necSessions (rmtNewIrNecEncoder resolution) sessions,
      Sent (rmtNewIrNecEncoder resolution) sent.1 sent.2 := by
  have fresh : (rmtNewIrNecEncoder resolution).Fresh := ⟨rfl, rfl, rfl⟩
  induction sessions with
  | nil =>
      intro sent hsent
      cases hsent
  | cons session later ih =>
      obtain ⟨code, calls⟩ := session
      obtain ⟨hsent, hnext⟩ := transmit_sent fresh code calls
      intro sent hmember
      rcases List.mem_cons.mp hmember with rfl | hlater
      · exact hsent
      · rw [hnext] at hlater
        exact ih sent hlater

end Sessions

/-- A transmission that was given up after three symbols, and one after it. -/
theorem nec_sessions_given_up :
    Sent (rmtNewIrNecEncoder 1000000) ⟨0x0440, 0x3003⟩
      (rmtTransmit (nextEncoder (rmtTransmit (rmtNewIrNecEncoder 1000000) ⟨1, 2⟩
        [fun _ => ⟨3, true⟩])) ⟨0x0440, 0x3003⟩ [fun _ => ⟨64, false⟩]) :=
  nec_sessions 1000000 [(⟨1, 2⟩, [fun _ => ⟨3, true⟩]), (⟨0x0440, 0x3003⟩, [fun _ => ⟨64, false⟩])]
    (⟨0x0440, 0x3003⟩, _) (List.mem_cons_of_mem _ List.mem_cons_self)

/-! The durations. -/

section Durations

variable {r : UInt32}

theorem ticks_toNat (us r : UInt32) :
    (ticks us r).toNat = us.toNat * r.toNat % 2 ^ 32 / 1000000 := by
  have hsmall : us.toNat * r.toNat % 2 ^ 32 / 1000000 < 2 ^ 15 := by omega
  have hword : (us * r / 1000000).toBitVec.toNat = us.toNat * r.toNat % 2 ^ 32 / 1000000 := by
    change (us * r / 1000000).toNat = _
    rw [UInt32.toNat_div, UInt32.toNat_mul]
    rfl
  rw [ticks, BitVec.toNat_setWidth, hword, Nat.mod_eq_of_lt hsmall]

theorem ticksLong_toNat {us : UInt64} (small : us.toNat < 2 ^ 32) (r : UInt32) :
    (ticksLong us r).toNat = us.toNat * r.toNat / 1000000 % 2 ^ 15 := by
  have hr := r.toNat_lt
  have hproduct : us.toNat * r.toNat < 2 ^ 64 := by
    calc us.toNat * r.toNat < 2 ^ 32 * 2 ^ 32 := Nat.mul_lt_mul'' small hr
      _ = 2 ^ 64 := rfl
  have hword : (us * r.toUInt64 / 1000000).toBitVec.toNat = us.toNat * r.toNat / 1000000 := by
    change (us * r.toUInt64 / 1000000).toNat = _
    rw [UInt64.toNat_div, UInt64.toNat_mul, UInt32.toNat_toUInt64, Nat.mod_eq_of_lt hproduct]
    rfl
  rw [ticksLong, BitVec.toNat_setWidth, hword]

/-- Durations in microseconds, and the same durations in ticks, with what is left of a tick cut
off. -/
structure Scaled (r : UInt32) (t s : Symbol) : Prop where
  duration0 : s.duration0.toNat = t.duration0.toNat * r.toNat / 1000000
  duration1 : s.duration1.toNat = t.duration1.toNat * r.toNat / 1000000

/-- A frame in ticks. Its last duration stands for the end. -/
structure ExactFrame (r : UInt32) (code : IrNecScanCode) (symbols : List Symbol) : Prop where
  body : List.Forall₂ (Scaled r) (necFrame code).dropLast symbols.dropLast
  ending : ∃ e, symbols.getLast? = some e ∧ e.duration0.toNat = 560 * r.toNat / 1000000 ∧
    e.duration1 = 0x7FFF

def NecEncoder.bitSymbol (enc : NecEncoder) (b : Bool) : Symbol := if b then enc.bit1 else enc.bit0

theorem bytesSymbols_bits (enc : NecEncoder) (w : BitVec 16) :
    enc.bytesSymbols (wordBytes w) = (List.range 16).map fun i => enc.bitSymbol (w.getLsbD i) := by
  have hlow : ∀ i ∈ List.range 8, (w.setWidth 8).getLsbD i = w.getLsbD i := by
    intro i hi
    simp [List.mem_range.mp hi]
  have hhigh : ∀ i ∈ List.range 8, ((w >>> 8).setWidth 8).getLsbD i = w.getLsbD (8 + i) := by
    intro i hi
    simp [List.mem_range.mp hi]
  have hrange : List.range 16 = List.range 8 ++ (List.range 8).map (8 + ·) := rfl
  simp only [NecEncoder.bytesSymbols, wordBytes, NecEncoder.bitSymbol, hrange, List.flatMap_cons,
    List.flatMap_nil, List.append_nil, List.map_append, List.map_map]
  refine congrArg₂ (· ++ ·) ?_ ?_
  · exact List.map_congr_left fun i hi => by rw [hlow i hi]
  · exact List.map_congr_left fun i hi => by rw [hhigh i hi]; rfl

theorem frame_eq (enc : NecEncoder) (code : IrNecScanCode) :
    enc.frame code = (enc.leading :: (enc.bytesSymbols (wordBytes code.address) ++
      enc.bytesSymbols (wordBytes code.command))) ++ [enc.ending] := by
  simp [NecEncoder.frame, NecEncoder.parts]

theorem necFrame_eq (code : IrNecScanCode) :
    necFrame code = (⟨9000, true, 4500, false⟩ :: (wordSymbols code.address ++
      wordSymbols code.command)) ++ [⟨560, true, 0x7FFF, false⟩] := by
  simp [necFrame]

variable (small : r.toNat ≤ 2541400)

include small

/-- No product is cut to 32 bits, and no quotient to 15. -/
theorem scaled_leading :
    Scaled r ⟨9000, true, 4500, false⟩ (rmtNewIrNecEncoder r).leading := by
  have hlong := @ticksLong_toNat 9000 (by decide) r
  have hshort := @ticksLong_toNat 4500 (by decide) r
  have hnine : (9000 : UInt64).toNat = 9000 := rfl
  have hfour : (4500 : UInt64).toNat = 4500 := rfl
  rw [hnine] at hlong
  rw [hfour] at hshort
  constructor
  · refine hlong.trans ?_
    change _ = 9000 * r.toNat / 1000000
    omega
  · refine hshort.trans ?_
    change _ = 4500 * r.toNat / 1000000
    omega

theorem scaled_bit (b : Bool) :
    Scaled r (bitSymbol b) ((rmtNewIrNecEncoder r).bitSymbol b) := by
  have hshort := ticks_toNat 560 r
  have hlong := ticks_toNat 1690 r
  have hzero : (560 : UInt32).toNat = 560 := rfl
  have hone : (1690 : UInt32).toNat = 1690 := rfl
  rw [hzero, Nat.mod_eq_of_lt (by omega)] at hshort
  rw [hone, Nat.mod_eq_of_lt (by omega)] at hlong
  cases b with
  | false => exact ⟨hshort, hshort⟩
  | true => exact ⟨hshort, hlong⟩

theorem exactFrame (code : IrNecScanCode) :
    ExactFrame r code ((rmtNewIrNecEncoder r).frame code) := by
  have hword : ∀ w, List.Forall₂ (Scaled r) (wordSymbols w)
      ((rmtNewIrNecEncoder r).bytesSymbols (wordBytes w)) := by
    intro w
    rw [bytesSymbols_bits, wordSymbols, List.forall₂_map_left_iff, List.forall₂_map_right_iff,
      List.forall₂_same]
    exact fun i _ => scaled_bit small _
  rw [frame_eq]
  constructor
  · rw [necFrame_eq, List.dropLast_concat, List.dropLast_concat]
    exact .cons (scaled_leading small) (List.rel_append (hword _) (hword _))
  · rw [List.getLast?_concat]
    exact ⟨_, rfl, (scaled_bit small false).duration0, rfl⟩

omit small in
theorem near_scaled {t s : Symbol} (scaled : Scaled r t s) (short0 : t.duration0.toNat ≤ 9000)
    (short1 : t.duration1.toNat ≤ 9000) (low : 977889 ≤ r.toNat) (high : r.toNat ≤ 1022222) :
    Near s t := by
  have hclose : ∀ d : ℕ, d ≤ 9000 →
      (((d * r.toNat / 1000000 : ℕ) : ℤ) - d).natAbs < 200 := by
    intro d hd
    have hless : d * r.toNat ≤ d * 1022222 := Nat.mul_le_mul_left d high
    have hmore : d * 977889 ≤ d * r.toNat := Nat.mul_le_mul_left d low
    omega
  constructor
  · rw [scaled.duration0]
    exact hclose _ short0
  · rw [scaled.duration1]
    exact hclose _ short1

theorem frame_received (low : 977889 ≤ r.toNat) (high : r.toNat ≤ 1022222)
    (code : IrNecScanCode) : Received code ((rmtNewIrNecEncoder r).frame code) := by
  have hbody := (exactFrame small code).body
  have hlength : ((rmtNewIrNecEncoder r).frame code).length = 34 := by
    simp [frame_eq, bytesSymbols_bits]
  have hshort : ∀ t ∈ (necFrame code).dropLast,
      t.duration0.toNat ≤ 9000 ∧ t.duration1.toNat ≤ 9000 := by
    have hbit : ∀ w, ∀ t ∈ wordSymbols w, t.duration0.toNat ≤ 9000 ∧ t.duration1.toNat ≤ 9000 := by
      intro w t ht
      obtain ⟨i, -, rfl⟩ := List.mem_map.mp ht
      cases w.getLsbD i <;> decide
    intro t ht
    rw [necFrame_eq, List.dropLast_concat] at ht
    rcases List.mem_cons.mp ht with rfl | ht
    · decide
    · rcases List.mem_append.mp ht with ht | ht
      · exact hbit _ t ht
      · exact hbit _ t ht
  refine ⟨hlength, ?_⟩
  intro i hi s t hs ht
  have hs' : ((rmtNewIrNecEncoder r).frame code).dropLast[i]? = some s := by
    rw [List.getElem?_dropLast, hlength, if_pos hi, hs]
  have ht' : (necFrame code).dropLast[i]? = some t := by
    rw [List.getElem?_dropLast, length_necFrame, if_pos hi, ht]
  obtain ⟨hi₁, rfl⟩ := List.getElem?_eq_some_iff.mp hs'
  obtain ⟨hi₂, rfl⟩ := List.getElem?_eq_some_iff.mp ht'
  obtain ⟨h0, h1⟩ := hshort _ (List.getElem_mem hi₂)
  exact near_scaled (hbody.get hi₂ hi₁) h0 h1 low high

/-- The window of the leading code is missed from a ratio of 2.2 percent on. -/
theorem frame_accepted {code stored : IrNecScanCode}
    (accepted : necParseFrame ((rmtNewIrNecEncoder r).frame code) stored = (true, code)) :
    977889 ≤ r.toNat ∧ r.toNat ≤ 1022222 := by
  have hlength : ((rmtNewIrNecEncoder r).frame code).length = 34 := by
    simp [frame_eq, bytesSymbols_bits]
  have hvalid := (necParseFrame_cases hlength stored).resolve_right fun rejected => by
    rw [rejected] at accepted
    cases accepted
  have hfirst := hvalid.leading _ (by rw [frame_eq]; rfl)
  have hduration := (scaled_leading small).duration0
  have hnear := hfirst.duration0
  have hnine : (⟨9000, true, 4500, false⟩ : Symbol).duration0.toNat = 9000 := rfl
  rw [hduration, hnine] at hnear
  omega

omit small in
/-- A product that needs more than 32 bits loses at least 4294 ticks. -/
theorem inexact_bit (large : 2541400 < r.toNat) :
    ¬ Scaled r (bitSymbol true) ((rmtNewIrNecEncoder r).bitSymbol true) := by
  intro scaled
  have hticks := ticks_toNat 1690 r
  have hone : (1690 : UInt32).toNat = 1690 := rfl
  have hscaled : (ticks 1690 r).toNat = 1690 * r.toNat / 1000000 := scaled.duration1
  rw [hone, hscaled] at hticks
  have hlost := Nat.div_add_mod (1690 * r.toNat) (2 ^ 32)
  have hmany : 1 ≤ 1690 * r.toNat / 2 ^ 32 := by omega
  generalize 1690 * r.toNat / 2 ^ 32 = many at hlost hmany
  generalize 1690 * r.toNat % 2 ^ 32 = rest at hticks hlost
  omega

end Durations

/-- The encoder gives every duration to within a tick for the resolutions up to 2541400 Hz and for
no others; among them the decoder, which counts in microseconds, understands its frames from
977889 to 1022222 Hz alone. -/
theorem nec_resolutions (r : UInt32) :
    ((∀ code, ExactFrame r code ((rmtNewIrNecEncoder r).frame code)) ↔ r.toNat ≤ 2541400) ∧
      (r.toNat ≤ 2541400 →
        ((∀ code stored,
            necParseFrame ((rmtNewIrNecEncoder r).frame code) stored = (true, code)) ↔
          977889 ≤ r.toNat ∧ r.toNat ≤ 1022222)) := by
  refine ⟨⟨fun exact => ?_, exactFrame⟩, fun small => ⟨fun accepted => ?_, fun window => ?_⟩⟩
  · by_contra large
    refine inexact_bit (Nat.lt_of_not_le large) ?_
    have hbody := (exact ⟨1, 0⟩).body
    rw [frame_eq, necFrame_eq, List.dropLast_concat, List.dropLast_concat,
      List.forall₂_cons] at hbody
    have hword := hbody.2
    rw [bytesSymbols_bits] at hword
    exact (List.forall₂_cons.mp hword).1
  · exact frame_accepted small (accepted ⟨0, 0⟩ ⟨0, 0⟩)
  · intro code stored
    exact necParseFrame_near (frame_received small window.1 window.2 code) stored

end Ddsu666
