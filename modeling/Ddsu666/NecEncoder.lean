/- The encoder of ir_nec_encoder.c: a frame of four parts, which it can leave in the middle of any
   of them and continue at the next call. -/
import Ddsu666.StagedEmission

namespace Ddsu666
open StagedEmission

/-- `rmt_symbol_word_t` -/
structure Symbol where
  duration0 : BitVec 15
  level0 : Bool
  duration1 : BitVec 15
  level1 : Bool
  deriving DecidableEq

structure IrNecScanCode where
  address : BitVec 16
  command : BitVec 16
  deriving DecidableEq

/-- The encoder with what its copy encoder and its bytes encoder remember. -/
structure NecEncoder where
  leading : Symbol
  ending : Symbol
  bit0 : Symbol
  bit1 : Symbol
  copyIndex : ℕ
  bytesIndex : ℕ
  state : ℕ
  deriving DecidableEq

/-- A duration in microseconds, multiplied in 32 bits and stored in a field of 15. -/
def ticks (us resolution : UInt32) : BitVec 15 :=
  (us * resolution / 1000000).toBitVec.setWidth 15

/-- The same with a factor of type `unsigned long long`. -/
def ticksLong (us : UInt64) (resolution : UInt32) : BitVec 15 :=
  (us * resolution.toUInt64 / 1000000).toBitVec.setWidth 15

def rmtNewIrNecEncoder (resolution : UInt32) : NecEncoder where
  leading := ⟨ticksLong 9000 resolution, true, ticksLong 4500 resolution, false⟩
  ending := ⟨ticks 560 resolution, true, 0x7FFF, false⟩
  bit0 := ⟨ticks 560 resolution, true, ticks 560 resolution, false⟩
  bit1 := ⟨ticks 560 resolution, true, ticks 1690 resolution, false⟩
  copyIndex := 0
  bytesIndex := 0
  state := 0

/-- The bytes of a `uint16_t` in memory. -/
def wordBytes (w : BitVec 16) : List (BitVec 8) := [w.setWidth 8, (w >>> 8).setWidth 8]

/-- What the bytes encoder makes of some bytes; `msb_first` is not set. -/
def NecEncoder.bytesSymbols (enc : NecEncoder) (bytes : List (BitVec 8)) : List Symbol :=
  bytes.flatMap fun b => (List.range 8).map fun i => if b.getLsbD i then enc.bit1 else enc.bit0

/-- What a call returns. -/
structure Encoded where
  symbols : List Symbol
  encoder : NecEncoder
  state : Session
  deriving DecidableEq

def NecEncoder.copyEncode (enc : NecEncoder) (symbol : Symbol) (room : Room) : Encoded :=
  let (out, index, session) := encode [symbol] enc.copyIndex room
  ⟨out, { enc with copyIndex := index }, session⟩

def NecEncoder.bytesEncode (enc : NecEncoder) (data : BitVec 16) (room : Room) : Encoded :=
  let (out, index, session) := encode (enc.bytesSymbols (wordBytes data)) enc.bytesIndex room
  ⟨out, { enc with bytesIndex := index }, session⟩

/-- The end of a case that is followed by another one: the state is switched when the part is
finished, and a full memory makes the function yield. -/
def Encoded.thenCase (e : Encoded) (next : ℕ) (fallThrough : NecEncoder → Encoded) : Encoded :=
  let encoder := if e.state.complete then { e.encoder with state := next } else e.encoder
  if e.state.memFull then ⟨e.symbols, encoder, ⟨false, true⟩⟩
  else
    let rest := fallThrough encoder
    { rest with symbols := e.symbols ++ rest.symbols }

/-- `rooms` has what each call of one of the two encoders finds. -/
def sendEnding (rooms : ℕ → Room) (enc : NecEncoder) : Encoded :=
  let e := enc.copyEncode enc.ending (rooms 0)
  ⟨e.symbols, if e.state.complete then { e.encoder with state := 0 } else e.encoder, e.state⟩

def sendCommand (code : IrNecScanCode) (rooms : ℕ → Room) (enc : NecEncoder) : Encoded :=
  (enc.bytesEncode code.command (rooms 0)).thenCase 3 (sendEnding fun i => rooms (i + 1))

def sendAddress (code : IrNecScanCode) (rooms : ℕ → Room) (enc : NecEncoder) : Encoded :=
  (enc.bytesEncode code.address (rooms 0)).thenCase 2 (sendCommand code fun i => rooms (i + 1))

def sendLeading (code : IrNecScanCode) (rooms : ℕ → Room) (enc : NecEncoder) : Encoded :=
  (enc.copyEncode enc.leading (rooms 0)).thenCase 1 (sendAddress code fun i => rooms (i + 1))

def rmtEncodeIrNec (enc : NecEncoder) (code : IrNecScanCode) (rooms : ℕ → Room) : Encoded :=
  match enc.state with
  | 0 => sendLeading code rooms enc
  | 1 => sendAddress code rooms enc
  | 2 => sendCommand code rooms enc
  | 3 => sendEnding rooms enc
  | _ => ⟨[], enc, ⟨false, false⟩⟩

/-- The driver calls the encoder again until it reports completion. It reads the code through the
pointer it was given, so the code must still be there at every call. -/
def rmtTransmit (enc : NecEncoder) (code : IrNecScanCode) : List (ℕ → Room) → Encoded
  | [] => ⟨[], enc, ⟨false, false⟩⟩
  | rooms :: calls =>
      let now := rmtEncodeIrNec enc code rooms
      if now.state.complete then now
      else
        let rest := rmtTransmit now.encoder code calls
        { rest with symbols := now.symbols ++ rest.symbols }

/-- The four parts of a frame. -/
def NecEncoder.parts (enc : NecEncoder) (code : IrNecScanCode) : List (List Symbol) :=
  [[enc.leading], enc.bytesSymbols (wordBytes code.address),
    enc.bytesSymbols (wordBytes code.command), [enc.ending]]

/-- The encoder with some of the four parts left, the first of them up to an index. -/
def NecEncoder.resumed (enc : NecEncoder) : ℕ → ℕ → NecEncoder
  | 4, index => { enc with state := 0, copyIndex := index, bytesIndex := 0 }
  | 3, index => { enc with state := 1, copyIndex := 0, bytesIndex := index }
  | 2, index => { enc with state := 2, copyIndex := 0, bytesIndex := index }
  | 1, index => { enc with state := 3, copyIndex := index, bytesIndex := 0 }
  | _, _ => { enc with state := 0, copyIndex := 0, bytesIndex := 0 }

def NecEncoder.at (enc : NecEncoder) (p : Progress Symbol) : Encoded :=
  ⟨p.emitted, enc.resumed p.todo.length p.index, p.session⟩

section Simulation

variable {enc : NecEncoder} {code : IrNecScanCode}

/-- A part of a frame as the encoder in charge of it leaves it. -/
structure Sends (enc : NecEncoder) (left : ℕ) (data : List Symbol) (index : ℕ) (room : Room)
    (e : Encoded) : Prop where
  symbols : e.symbols = (encode data index room).1
  encoder : e.encoder = enc.resumed left (encode data index room).2.1
  state : e.state = (encode data index room).2.2

theorem Sends.done {left index : ℕ} {data : List Symbol} {room : Room} {e : Encoded}
    (h : Sends enc left data index room e) (fits : (data.drop index).length ≤ room.symbols) :
    e = ⟨data.drop index, enc.resumed left 0, ⟨true, room.full⟩⟩ := by
  obtain ⟨symbols, encoder, state⟩ := e
  obtain ⟨rfl, rfl, rfl⟩ := h
  rw [encode_done fits]

theorem Sends.stopped {left index : ℕ} {data : List Symbol} {room : Room} {e : Encoded}
    (h : Sends enc left data index room e) (full : room.symbols < (data.drop index).length) :
    e = ⟨(data.drop index).take room.symbols, enc.resumed left (index + room.symbols),
      ⟨false, true⟩⟩ := by
  obtain ⟨symbols, encoder, state⟩ := e
  obtain ⟨rfl, rfl, rfl⟩ := h
  rw [encode_stopped full]

/-- A case and what it falls through to, for one part and those after it. -/
theorem thenCase_at {data : List Symbol} {later : List (List Symbol)} {index next : ℕ}
    {rooms : ℕ → Room} {fallThrough : NecEncoder → Encoded} {e : Encoded}
    (sends : Sends enc (later.length + 1) data index (rooms 0) e) (more : later.isEmpty = false)
    (switch : { enc.resumed (later.length + 1) 0 with state := next } =
      enc.resumed later.length 0)
    (rest : fallThrough (enc.resumed later.length 0) =
      enc.at (encodeAll later 0 fun i => rooms (i + 1))) :
    e.thenCase next fallThrough = enc.at (encodeAll (data :: later) index rooms) := by
  by_cases fits : (data.drop index).length ≤ (rooms 0).symbols
  · rw [sends.done fits]
    cases hfull : (rooms 0).full with
    | true =>
        rw [encodeAll_full fits hfull, more]
        simp only [Encoded.thenCase, if_true, switch]
        rfl
    | false =>
        rw [encodeAll_on fits hfull]
        simp only [Encoded.thenCase, if_true, Bool.false_eq_true, if_false, switch, rest]
        rfl
  · have hstop := Nat.lt_of_not_le fits
    rw [sends.stopped hstop, encodeAll_stopped hstop]
    simp only [Encoded.thenCase, if_true, Bool.false_eq_true, if_false]
    rfl

theorem copyEncode_sends (enc : NecEncoder) {left : ℕ} (copies : left = 1 ∨ left = 4)
    (symbol : Symbol) (index : ℕ) (room : Room) :
    Sends enc left [symbol] index room ((enc.resumed left index).copyEncode symbol room) := by
  rcases copies with rfl | rfl
  · exact ⟨rfl, rfl, rfl⟩
  · exact ⟨rfl, rfl, rfl⟩

theorem bytesEncode_sends (enc : NecEncoder) {left : ℕ} (bytes : left = 2 ∨ left = 3)
    (word : BitVec 16) (index : ℕ) (room : Room) :
    Sends enc left (enc.bytesSymbols (wordBytes word)) index room
      ((enc.resumed left index).bytesEncode word room) := by
  rcases bytes with rfl | rfl
  · have hsymbols : (enc.resumed 2 index).bytesSymbols = enc.bytesSymbols := rfl
    rw [NecEncoder.bytesEncode, hsymbols]
    generalize enc.bytesSymbols (wordBytes word) = data
    exact ⟨rfl, rfl, rfl⟩
  · have hsymbols : (enc.resumed 3 index).bytesSymbols = enc.bytesSymbols := rfl
    rw [NecEncoder.bytesEncode, hsymbols]
    generalize enc.bytesSymbols (wordBytes word) = data
    exact ⟨rfl, rfl, rfl⟩

theorem sendEnding_at (enc : NecEncoder) (index : ℕ) (rooms : ℕ → Room) :
    sendEnding rooms (enc.resumed 1 index) = enc.at (encodeAll [[enc.ending]] index rooms) := by
  have sends := copyEncode_sends enc (.inl rfl) enc.ending index (rooms 0)
  have hending : (enc.resumed 1 index).ending = enc.ending := rfl
  rw [sendEnding, hending]
  by_cases fits : ([enc.ending].drop index).length ≤ (rooms 0).symbols
  · rw [sends.done fits]
    cases hfull : (rooms 0).full with
    | true =>
        rw [encodeAll_full fits hfull]
        rfl
    | false =>
        rw [encodeAll_on fits hfull]
        simp only [encodeAll, List.append_nil]
        rfl
  · have hstop := Nat.lt_of_not_le fits
    rw [sends.stopped hstop, encodeAll_stopped hstop]
    rfl

theorem sendCommand_at (enc : NecEncoder) (code : IrNecScanCode) (index : ℕ) (rooms : ℕ → Room) :
    sendCommand code rooms (enc.resumed 2 index) =
      enc.at (encodeAll [enc.bytesSymbols (wordBytes code.command), [enc.ending]] index rooms) := by
  have sends := bytesEncode_sends enc (.inl rfl) code.command index (rooms 0)
  have hrest := sendEnding_at enc 0 fun i => rooms (i + 1)
  rw [sendCommand]
  generalize enc.bytesSymbols (wordBytes code.command) = data at sends ⊢
  exact thenCase_at sends rfl rfl hrest

theorem sendAddress_at (enc : NecEncoder) (code : IrNecScanCode) (index : ℕ) (rooms : ℕ → Room) :
    sendAddress code rooms (enc.resumed 3 index) =
      enc.at (encodeAll [enc.bytesSymbols (wordBytes code.address),
        enc.bytesSymbols (wordBytes code.command), [enc.ending]] index rooms) := by
  have sends := bytesEncode_sends enc (.inr rfl) code.address index (rooms 0)
  have hrest := sendCommand_at enc code 0 fun i => rooms (i + 1)
  rw [sendAddress]
  generalize enc.bytesSymbols (wordBytes code.address) = data at sends ⊢
  generalize enc.bytesSymbols (wordBytes code.command) = data' at hrest ⊢
  exact thenCase_at sends rfl rfl hrest

theorem sendLeading_at (enc : NecEncoder) (code : IrNecScanCode) (index : ℕ) (rooms : ℕ → Room) :
    sendLeading code rooms (enc.resumed 4 index) =
      enc.at (encodeAll (enc.parts code) index rooms) := by
  have sends := copyEncode_sends enc (.inr rfl) enc.leading index (rooms 0)
  have hrest := sendAddress_at enc code 0 fun i => rooms (i + 1)
  rw [sendLeading, NecEncoder.parts]
  generalize enc.bytesSymbols (wordBytes code.address) = data at hrest ⊢
  generalize enc.bytesSymbols (wordBytes code.command) = data' at hrest ⊢
  exact thenCase_at sends rfl rfl hrest

/-- Every call is one of the abstract encoder, from any of the four states. -/
theorem rmtEncodeIrNec_at {todo : List (List Symbol)} (left : todo <:+ enc.parts code)
    (more : todo ≠ []) (index : ℕ) (rooms : ℕ → Room) :
    rmtEncodeIrNec (enc.resumed todo.length index) code rooms =
      enc.at (encodeAll todo index rooms) := by
  simp only [NecEncoder.parts, List.suffix_cons_iff, List.suffix_nil] at left
  rcases left with rfl | rfl | rfl | rfl | rfl
  · exact sendLeading_at enc code index rooms
  · exact sendAddress_at enc code index rooms
  · exact sendCommand_at enc code index rooms
  · exact sendEnding_at enc index rooms
  · exact absurd rfl more

theorem rmtTransmit_at {todo : List (List Symbol)} {index : ℕ} (left : todo <:+ enc.parts code)
    (busy : Busy todo index) (calls : List (ℕ → Room)) :
    rmtTransmit (enc.resumed todo.length index) code calls =
      enc.at (encodeCalls todo index calls) := by
  induction calls generalizing todo index with
  | nil => rfl
  | cons rooms calls ih =>
      have more : todo ≠ [] := by
        obtain ⟨-, data, later, rfl, -⟩ := busy
        exact List.cons_ne_nil _ _
      have hnow := rmtEncodeIrNec_at left more index rooms
      have hadvances := encodeAll_advances todo index rooms busy.1 busy.start
      simp only [rmtTransmit, encodeCalls, hnow, NecEncoder.at]
      split
      · rfl
      · rename_i running
        have hbusy := hadvances.stopped (Bool.eq_false_iff.mpr running)
        rw [ih (hadvances.left.trans left) hbusy]
        rfl

end Simulation

/-! The frame at a resolution of one microsecond. -/

def bitSymbol (b : Bool) : Symbol :=
  if b then ⟨560, true, 1690, false⟩ else ⟨560, true, 560, false⟩

def wordSymbols (w : BitVec 16) : List Symbol :=
  (List.range 16).map fun i => bitSymbol (w.getLsbD i)

def necFrame (code : IrNecScanCode) : List Symbol :=
  ⟨9000, true, 4500, false⟩ :: wordSymbols code.address ++ wordSymbols code.command ++
    [⟨560, true, 0x7FFF, false⟩]

def exampleIrResolutionHz : UInt32 := 1000000

/-- `nec_tx_init` -/
def necTxInit : NecEncoder := rmtNewIrNecEncoder exampleIrResolutionHz

theorem bytesSymbols_word (w : BitVec 16) :
    necTxInit.bytesSymbols (wordBytes w) = wordSymbols w := by
  have hbit0 : necTxInit.bit0 = ⟨560, true, 560, false⟩ := by decide
  have hbit1 : necTxInit.bit1 = ⟨560, true, 1690, false⟩ := by decide
  have hlow : ∀ i ∈ List.range 8, (w.setWidth 8).getLsbD i = w.getLsbD i := by
    intro i hi
    simp [List.mem_range.mp hi]
  have hhigh : ∀ i ∈ List.range 8, ((w >>> 8).setWidth 8).getLsbD i = w.getLsbD (8 + i) := by
    intro i hi
    simp [List.mem_range.mp hi]
  have hrange : List.range 16 = List.range 8 ++ (List.range 8).map (8 + ·) := rfl
  simp only [NecEncoder.bytesSymbols, wordBytes, wordSymbols, bitSymbol, hbit0, hbit1, hrange,
    List.flatMap_cons, List.flatMap_nil, List.append_nil, List.map_append, List.map_map]
  refine congrArg₂ (· ++ ·) ?_ ?_
  · exact List.map_congr_left fun i hi => by rw [hlow i hi]
  · exact List.map_congr_left fun i hi => by rw [hhigh i hi]; rfl

theorem length_necFrame (code : IrNecScanCode) : (necFrame code).length = 34 := by
  simp [necFrame, wordSymbols]

theorem parts_flatten (code : IrNecScanCode) : (necTxInit.parts code).flatten = necFrame code := by
  have hleading : necTxInit.leading = ⟨9000, true, 4500, false⟩ := by decide
  have hending : necTxInit.ending = ⟨560, true, 0x7FFF, false⟩ := by decide
  simp only [NecEncoder.parts, hleading, hending, bytesSymbols_word, List.flatten_cons,
    List.flatten_nil, necFrame, List.append_nil, List.nil_append, List.append_assoc,
    List.cons_append]

theorem parts_busy (code : IrNecScanCode) : Busy (necTxInit.parts code) 0 := by
  have hword : ∀ w, wordSymbols w ≠ [] := fun w none => by
    have hlength := congrArg List.length none
    simp [wordSymbols] at hlength
  refine ⟨?_, _, _, rfl, Nat.one_pos⟩
  simp only [NecEncoder.parts, bytesSymbols_word, List.forall_mem_cons, List.not_mem_nil]
  exact ⟨List.cons_ne_nil _ _, hword _, hword _, List.cons_ne_nil _ _, fun _ h => h.elim⟩

/-- What the driver has got from the encoder after some calls. -/
structure TransmitsFrame (code : IrNecScanCode) (calls : List (ℕ → Room)) (e : Encoded) : Prop where
  complete : e.state.complete = true → e.symbols = necFrame code ∧ e.encoder = necTxInit
  running : e.state.complete = false → ∃ due ≠ [], e.symbols ++ due = necFrame code
  finishes : 34 ≤ calls.length → (∀ rooms ∈ calls, 0 < (rooms 0).symbols) →
    e.state.complete = true

theorem rmtTransmit_frame (code : IrNecScanCode) (calls : List (ℕ → Room)) :
    TransmitsFrame code calls (rmtTransmit necTxInit code calls) := by
  have busy := parts_busy code
  have hat : rmtTransmit necTxInit code calls =
      necTxInit.at (encodeCalls (necTxInit.parts code) 0 calls) :=
    rmtTransmit_at (List.suffix_refl _) busy calls
  have hadvances := encodeCalls_advances busy calls
  have hpending : pending (necTxInit.parts code) 0 = necFrame code := by
    rw [pending_zero, parts_flatten]
  rw [hat]
  refine ⟨fun complete => ?_, fun running => ?_, fun enough rooms => ?_⟩
  · obtain ⟨hnone, hindex⟩ := hadvances.complete complete
    refine ⟨(encodeCalls_complete busy complete).trans hpending, ?_⟩
    rw [NecEncoder.at, hnone, hindex]
    rfl
  · exact ⟨_, (hadvances.stopped running).pending_ne, hadvances.emitted.symm.trans hpending⟩
  · refine encodeCalls_finishes busy ?_ rooms
    rwa [hpending, length_necFrame]

end Ddsu666
