/- Transmission: `uart_send` of uart.c, which stamps the check bytes into the buffer it sends, and
   runs in which buffers are sent again and again. -/
import Ddsu666.ModbusCrc
import Ddsu666.PollLoop

namespace Ddsu666
open CheckedBuffer

/-- Why a call of `uart_send` does not return. -/
inductive Halt where
  | fault (f : Fault)
  | abort
  deriving DecidableEq, Repr

/-- The part before the transmission: both check bytes are stored in place, the low one first. The
length is at least two. -/
def stampCrc (dataP : Buffer UInt8) (len : ℕ) : Except Fault (Buffer UInt8) := do
  let crc ← crcCal dataP (len - 2)
  let dataP ← store dataP (len - 2) (crc &&& 0xFF).toUInt8
  store dataP (len - 1) ((crc &&& 0xFF00) >>> 8).toUInt8

/-- `uart_send`; the driver reads `len` bytes and says how many of them it has `written`. -/
def uartSend (dataP : Buffer UInt8) (len : ℕ) (written : ℤ) :
    Except Halt (Buffer UInt8 × List UInt8) := do
  let dataP ← (stampCrc dataP len).mapError .fault
  let sent ← (loads dataP 0 len).mapError .fault
  if written ≠ len then .error .abort else .ok (dataP, sent)

def uartSends {ι : Type} [DecidableEq ι] (len : ι → ℕ) :
    (ι → Buffer UInt8) → List (ι × ℤ) → Except Halt ((ι → Buffer UInt8) × List (List UInt8))
  | mem, [] => .ok (mem, [])
  | mem, (i, written) :: calls => do
      let (dataP, sent) ← uartSend (mem i) (len i) written
      let (mem, line) ← uartSends len (Function.update mem i dataP) calls
      return (mem, sent :: line)

def crcBytes (r : BitVec 16) : List UInt8 :=
  [(register r &&& 0xFF).toUInt8, ((register r &&& 0xFF00) >>> 8).toUInt8]

/-- The frame that the last two bytes of a buffer are overwritten to give. -/
def stamped (bytes : List UInt8) : List UInt8 :=
  let message := bytes.take (bytes.length - 2)
  message ++ crcBytes (ShiftRegister.run crcPoly 0xFFFF#16 (txBits message))

theorem stamped_append (message : List UInt8) (x y : UInt8) :
    stamped (message ++ [x, y]) =
      message ++ crcBytes (ShiftRegister.run crcPoly 0xFFFF#16 (txBits message)) := by
  simp [stamped]

theorem exists_message {bytes : List UInt8} (h : 2 ≤ bytes.length) :
    ∃ message x y, bytes = message ++ [x, y] := by
  have hlast : (bytes.drop (bytes.length - 2)).length = 2 := by
    rw [List.length_drop]
    omega
  obtain ⟨x, y, hxy⟩ := List.length_eq_two.mp hlast
  exact ⟨bytes.take (bytes.length - 2), x, y, by rw [← hxy, List.take_append_drop]⟩

theorem length_stamped {bytes : List UInt8} (h : 2 ≤ bytes.length) :
    (stamped bytes).length = bytes.length := by
  simp only [stamped, crcBytes, List.length_append, List.length_take, List.length_cons,
    List.length_nil]
  omega

theorem take_stamped {bytes : List UInt8} (h : 2 ≤ bytes.length) :
    (stamped bytes).take (bytes.length - 2) = bytes.take (bytes.length - 2) := by
  rw [stamped, List.take_left']
  rw [List.length_take]
  omega

theorem stamped_stamped {bytes : List UInt8} (h : 2 ≤ bytes.length) :
    stamped (stamped bytes) = stamped bytes := by
  conv_lhs => rw [stamped, length_stamped h, take_stamped h]
  rfl

theorem crcBytes_bits (r : BitVec 16) :
    txBits (crcBytes r) = (List.range 16).map fun i => r.getLsbD i := by
  have hmask : ∀ i < 8, (0xFF#32).getLsbD i = true ∧ (0xFF00#32).getLsbD (8 + i) = true := by
    decide
  have hlow : byteBits (register r &&& 0xFF).toUInt8 = (List.range 8).map fun i => r.getLsbD i := by
    apply List.map_congr_left
    intro i hi
    rw [List.mem_range] at hi
    have hbit := (hmask i hi).1
    simp [register, hi, show i < 32 by omega] at hbit ⊢
    exact fun _ => hbit
  have hhigh : byteBits ((register r &&& 0xFF00) >>> 8).toUInt8 =
      (List.range 8).map fun i => r.getLsbD (8 + i) := by
    apply List.map_congr_left
    intro i hi
    rw [List.mem_range] at hi
    simp [register, hi, (hmask i hi).2, show 8 + i < 32 by omega]
  simp only [txBits, crcBytes, List.flatMap_cons, List.flatMap_nil, hlow, hhigh, List.append_nil]
  rfl

theorem run_stamped (bytes : List UInt8) :
    ShiftRegister.run crcPoly 0xFFFF#16 (txBits (stamped bytes)) = 0#16 := by
  rw [stamped, txBits, List.flatMap_append, ShiftRegister.run_append]
  change ShiftRegister.run crcPoly _ (txBits (crcBytes _)) = _
  rw [crcBytes_bits]
  exact ShiftRegister.run_own_bits crcPoly _

theorem crcCal_stamped {b : Buffer UInt8} {bytes : List UInt8} (low : 2 ≤ bytes.length)
    (high : bytes.length ≤ 256) (stamp : Holds b (stamped bytes)) :
    crcCal b bytes.length = .ok 0 := by
  have hcrc := crcCal_ok stamp (by rwa [length_stamped low])
  rw [length_stamped low, run_stamped] at hcrc
  exact hcrc

section Call

variable {dataP : Buffer UInt8} {bytes : List UInt8} (h : Holds dataP bytes)
  (low : 2 ≤ bytes.length) (high : bytes.length ≤ 256)

include h low high

theorem stampCrc_ok :
    ∃ b, stampCrc dataP bytes.length = .ok b ∧ Holds b (stamped bytes) := by
  obtain ⟨message, x, y, rfl⟩ := exists_message low
  simp only [List.length_append, List.length_cons, List.length_nil, Nat.zero_add,
    Nat.reduceAdd] at high ⊢
  have hcrc := crcCal_ok h.initial (by omega)
  obtain ⟨r, hr⟩ : ∃ r, ShiftRegister.run crcPoly 0xFFFF#16 (txBits message) = r := ⟨_, rfl⟩
  obtain ⟨b, hstore, hb, -⟩ := h.store (i := message.length) (by simp) (register r &&& 0xFF).toUInt8
  obtain ⟨c, hstore', hc, -⟩ := hb.store (i := message.length + 1) (by simp)
    ((register r &&& 0xFF00) >>> 8).toUInt8
  refine ⟨c, ?_, ?_⟩
  · rw [hr] at hcrc
    simp only [stampCrc, Nat.add_sub_cancel, hcrc, bind, Except.bind,
      hstore]
    exact hstore'
  · rw [stamped_append, hr, crcBytes]
    simpa using hc

/-- A call either sends the stamped frame, which it leaves in the buffer, or aborts. -/
theorem uartSend_run (written : ℤ) :
    ∃ b, Holds b (stamped bytes) ∧ uartSend dataP bytes.length written =
      if written = bytes.length then .ok (b, stamped bytes) else .error .abort := by
  obtain ⟨b, hstamp, hb⟩ := stampCrc_ok h low high
  have hloads := hb.loads
  rw [length_stamped low] at hloads
  refine ⟨b, hb, ?_⟩
  simp only [uartSend, hstamp, hloads, Except.mapError, bind, Except.bind, ne_eq, ite_not]

end Call

section Runs

variable {ι : Type} {len : ι → ℕ} {frame : ι → List UInt8}

def KeepsFrames (len : ι → ℕ) (frame : ι → List UInt8) (mem : ι → Buffer UInt8) : Prop :=
  ∀ i, ∃ bytes, Holds (mem i) bytes ∧ bytes.length = len i ∧ stamped bytes = frame i

theorem KeepsFrames.send [DecidableEq ι] {mem : ι → Buffer UInt8}
    (keeps : KeepsFrames len frame mem) {i : ι} (low : 2 ≤ len i) (high : len i ≤ 256) (written : ℤ) :
    ∃ b, Holds b (frame i) ∧ KeepsFrames len frame (Function.update mem i b) ∧
      uartSend (mem i) (len i) written =
        if written = len i then .ok (b, frame i) else .error .abort := by
  obtain ⟨bytes, held, size, hframe⟩ := keeps i
  rw [← size] at low high
  obtain ⟨b, hb, hsend⟩ := uartSend_run held low high written
  rw [hframe, size] at hsend
  refine ⟨b, hframe ▸ hb, ?_, hsend⟩
  intro j
  by_cases hj : j = i
  · subst hj
    refine ⟨stamped bytes, by rwa [Function.update_self], ?_, ?_⟩
    · rw [length_stamped low, size]
    · rw [stamped_stamped low, hframe]
  · rw [Function.update_of_ne hj]
    exact keeps j

/-- Every transmission of a run is the frame of its buffer, unless the driver refuses one. -/
theorem uartSends_run [DecidableEq ι] (low : ∀ i, 2 ≤ len i) (high : ∀ i, len i ≤ 256)
    {mem : ι → Buffer UInt8} (keeps : KeepsFrames len frame mem) (calls : List (ι × ℤ)) :
    if ∀ c ∈ calls, c.2 = len c.1 then
      ∃ mem', uartSends len mem calls = .ok (mem', calls.map fun c => frame c.1) ∧
        KeepsFrames len frame mem' ∧ (∀ i, Holds (mem i) (frame i) → Holds (mem' i) (frame i)) ∧
        ∀ c ∈ calls, Holds (mem' c.1) (frame c.1)
    else uartSends len mem calls = .error .abort := by
  induction calls generalizing mem with
  | nil =>
      rw [if_pos (by simp)]
      exact ⟨mem, rfl, keeps, fun _ h => h, by simp⟩
  | cons c calls ih =>
      obtain ⟨i, written⟩ := c
      obtain ⟨b, hb, hkeeps, hsend⟩ := keeps.send (low i) (high i) written
      have hrest := ih hkeeps
      by_cases accepted : written = len i
      · rw [if_pos accepted] at hsend
        by_cases others : ∀ c ∈ calls, c.2 = len c.1
        · rw [if_pos others] at hrest
          obtain ⟨mem', hrun, hkeeps', hstay, hsent⟩ := hrest
          have hall : ∀ c ∈ (i, written) :: calls, c.2 = len c.1 := by
            simpa [accepted] using others
          have hown : Holds (mem' i) (frame i) := hstay i (by rwa [Function.update_self])
          rw [if_pos hall]
          refine ⟨mem', ?_, hkeeps', ?_, ?_⟩
          · simp only [uartSends, hsend, hrun, bind, Except.bind]
            rfl
          · intro j hj
            by_cases hji : j = i
            · rwa [hji]
            · exact hstay j (by rwa [Function.update_of_ne hji])
          · intro c member
            rcases List.mem_cons.mp member with rfl | later
            · exact hown
            · exact hsent c later
        · rw [if_neg others] at hrest
          have hnot : ¬ ∀ c ∈ (i, written) :: calls, c.2 = len c.1 := by
            simpa [accepted] using others
          rw [if_neg hnot]
          simp only [uartSends, hsend, hrest, bind, Except.bind]
      · rw [if_neg accepted] at hsend
        have hnot : ¬ ∀ c ∈ (i, written) :: calls, c.2 = len c.1 :=
          fun hall => accepted (hall _ List.mem_cons_self)
        rw [if_neg hnot]
        simp only [uartSends, hsend, bind, Except.bind]

/-- A call returns with a frame that verifies, and that differs from the contents of the buffer in
the last two bytes at most. -/
structure Stamps (dataP : Buffer UInt8) (len : ℕ) (bytes frame : List UInt8) : Prop where
  length : frame.length = len
  message : frame.take (len - 2) = bytes.take (len - 2)
  returns : ∃ b, uartSend dataP len len = .ok (b, frame) ∧ Holds b frame ∧ crcCal b len = .ok 0

/-- The frames of all buffers are settled by their first contents, and every later transmission, in
whatever order the buffers are sent, is the same frame again. -/
theorem uartSend_frames [DecidableEq ι] {mem : ι → Buffer UInt8} {contents : ι → List UInt8}
    (held : ∀ i, Holds (mem i) (contents i)) (size : ∀ i, (contents i).length = len i)
    (low : ∀ i, 2 ≤ len i) (high : ∀ i, len i ≤ 256) :
    ∃ frame : ι → List UInt8, (∀ i, Stamps (mem i) (len i) (contents i) (frame i)) ∧
      ∀ calls : List (ι × ℤ),
        if ∀ c ∈ calls, c.2 = len c.1 then
          ∃ mem', uartSends len mem calls = .ok (mem', calls.map fun c => frame c.1) ∧
            ∀ c ∈ calls, Holds (mem' c.1) (frame c.1)
        else uartSends len mem calls = .error .abort := by
  refine ⟨fun i => stamped (contents i), ?_, ?_⟩
  · intro i
    have hlow : 2 ≤ (contents i).length := size i ▸ low i
    have hhigh : (contents i).length ≤ 256 := size i ▸ high i
    obtain ⟨b, hb, hsend⟩ := uartSend_run (held i) hlow hhigh (contents i).length
    rw [← size i]
    refine ⟨length_stamped hlow, take_stamped hlow, b, ?_, hb, crcCal_stamped hlow hhigh hb⟩
    rw [hsend, if_pos rfl]
  · intro calls
    have hrun := uartSends_run low high (fun i => ⟨contents i, held i, size i, rfl⟩) calls
    split
    · rename_i accepted
      rw [if_pos accepted] at hrun
      obtain ⟨mem', hsends, -, -, hsent⟩ := hrun
      exact ⟨mem', hsends, hsent⟩
    · rename_i refused
      rwa [if_neg refused] at hrun

end Runs

def Frame.template : Frame → List UInt8
  | .params => [0x01, 0x03, 0x20, 0x00, 0x00, 0x12, 0x00, 0x00]
  | .energy => [0x01, 0x03, 0x40, 0x00, 0x00, 0x02, 0x00, 0x00]
  | .clear => [0x01, 0x10, 0x00, 0x02, 0x00, 0x01, 0x02, 0x00, 0x01, 0x00, 0x00]

/-- The three frames of the meter protocol. -/
theorem uartSend_templates :
    ∃ frame : Frame → List UInt8,
      (∀ f, Stamps (f.template.map some) f.template.length f.template (frame f)) ∧
      ∀ calls : List (Frame × ℤ),
        if ∀ c ∈ calls, c.2 = c.1.template.length then
          ∃ mem', uartSends (fun f => f.template.length) (fun f => f.template.map some) calls =
              .ok (mem', calls.map fun c => frame c.1) ∧
            ∀ c ∈ calls, Holds (mem' c.1) (frame c.1)
        else uartSends (fun f => f.template.length) (fun f => f.template.map some) calls =
          .error .abort := by
  refine uartSend_frames (fun f => holds_map f.template) (fun _ => rfl) ?_ ?_
  · intro f
    cases f <;> decide
  · intro f
    cases f <;> decide

end Ddsu666
