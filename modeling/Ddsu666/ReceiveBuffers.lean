/- Exchanges with the meter in uart.c, every byte stored and read in a checked array: the polls of
   `uart_loop` and `clear_total_engery`. -/
import Ddsu666.MeterReplies
import Ddsu666.UartSend

namespace Ddsu666
open CheckedBuffer

def bufSize : ℕ := 127

/-- What the driver contributes to one exchange: how many bytes it says it has written, what
arrives before the read is over, and how many bytes the read may take; `none` is a failed read. -/
structure Exchange where
  written : ℤ
  arriving : List UInt8
  taken : Option ℕ
  deriving DecidableEq, Repr

structure UartState (F : Type) where
  frames : Frame → Buffer UInt8
  dataRecP : Buffer UInt8
  ring : List UInt8
  meters : Meters F
  line : List (List UInt8)

/-- `uart_read_bytes`: at most `request` bytes are stored, and their number or -1 is returned. -/
def uartReadBytes (buf : Buffer UInt8) (request : ℕ) (ring : List UInt8) (x : Exchange) :
    Except Fault (Buffer UInt8 × List UInt8 × ℤ) :=
  let ring := ring ++ x.arriving
  match x.taken with
  | none => .ok (buf, ring, -1)
  | some n => do
      let bytes := ring.take (min n request)
      let buf ← copyLoop (bytes.map some) buf 0 bytes.length
      return (buf, ring.drop bytes.length, bytes.length)

/-- The request is the same for every buffer. -/
def uartRec (buf : Buffer UInt8) (ring : List UInt8) (x : Exchange) :
    Except Fault (Buffer UInt8 × List UInt8 × ℤ) :=
  uartReadBytes buf bufSize ring x

section Code

variable {F : Type} [FloatArith F]

omit [FloatArith F] in
def UartState.send (s : UartState F) (f : Frame) (written : ℤ) : Except Halt (UartState F) := do
  let (dataP, sent) ← uartSend (s.frames f) f.template.length written
  return { s with frames := Function.update s.frames f dataP, line := s.line ++ [sent] }

/-- One query: transmission, reception into the permanent buffer, decoding. -/
def UartState.query (s : UartState F) (f : Frame) (x : Exchange) : Except Halt (UartState F) := do
  let s ← s.send f x.written
  let (dataRecP, ring, recLen) ← (uartRec s.dataRecP s.ring x).mapError .fault
  let meters ← (getRecData dataRecP recLen s.meters).mapError .fault
  return { s with dataRecP := dataRecP, ring := ring, meters := meters }

def UartState.poll (s : UartState F) (params energy : Exchange) : Except Halt (UartState F) := do
  let s ← s.query .params params
  s.query .energy energy

omit [FloatArith F] in
/-- The reply is received into an array of its own, which is only printed. -/
def UartState.clearTotalEngery (s : UartState F) (x : Exchange) : Except Halt (UartState F) := do
  let s ← s.send .clear x.written
  let dataRecC := fresh 32
  let (dataRecC, ring, recLenC) ← (uartRec dataRecC s.ring x).mapError .fault
  if recLenC > 0 then
    let _ ← (loads dataRecC 0 recLenC.toNat).mapError .fault
    return { s with ring := ring }
  else
    return { s with ring := ring }

inductive UartEvent where
  | poll (params energy : Exchange)
  | clear (x : Exchange)
  deriving DecidableEq, Repr

def uartEvent (s : UartState F) : UartEvent → Except Halt (UartState F)
  | .poll params energy => s.poll params energy
  | .clear x => s.clearTotalEngery x

def uartRun (s : UartState F) (es : List UartEvent) : Except Halt (UartState F) :=
  es.foldlM uartEvent s

/-- After `uart_init`. -/
def bootUart : UartState F where
  frames f := f.template.map some
  dataRecP := fresh bufSize
  ring := []
  meters := initialMeters
  line := []

end Code

/-- The bytes that a read delivers. -/
def Exchange.delivered (x : Exchange) (ring : List UInt8) : List UInt8 :=
  match x.taken with
  | none => []
  | some n => (ring ++ x.arriving).take (min n bufSize)

/-- A clear whose frame is accepted is answered by no more bytes than its array can take. -/
def UartEvent.Fits {F : Type} (s : UartState F) : UartEvent → Prop
  | .poll _ _ => True
  | .clear x => x.written = 11 → (x.delivered s.ring).length ≤ 32

/-- The same for every clear of a run, in the state in which it is made. -/
def ClearsFit {F : Type} [FloatArith F] : UartState F → List UartEvent → Prop
  | _, [] => True
  | s, e :: es => e.Fits s ∧ ∀ s', uartEvent s e = .ok s' → ClearsFit s' es

theorem length_delivered (x : Exchange) (ring : List UInt8) :
    (x.delivered ring).length ≤ bufSize := by
  rw [Exchange.delivered]
  split
  · exact Nat.zero_le _
  · exact (List.length_take_le _ _).trans (Nat.min_le_right _ _)

/-- A read into an array that is large enough for what is delivered. -/
theorem uartRec_ok {buf : Buffer UInt8} {ring : List UInt8} {x : Exchange}
    (room : (x.delivered ring).length ≤ buf.length) :
    ∃ b ring' len, uartRec buf ring x = .ok (b, ring', len) ∧ b.length = buf.length ∧
      Holds b (x.delivered ring) ∧ (len ≤ 0 ∨ len = (x.delivered ring).length) := by
  rw [Exchange.delivered] at room ⊢
  cases htaken : x.taken with
  | none =>
      refine ⟨buf, ring ++ x.arriving, -1, ?_, rfl, ⟨buf, rfl⟩, .inl (by decide)⟩
      simp [uartRec, uartReadBytes, htaken]
  | some n =>
      simp only [htaken] at room ⊢
      obtain ⟨bytes, hbytes⟩ : ∃ bytes, (ring ++ x.arriving).take (min n bufSize) = bytes :=
        ⟨_, rfl⟩
      rw [hbytes] at room ⊢
      have hcopy := copyLoop_holds (holds_map bytes) room
      refine ⟨bytes.map some ++ buf.drop bytes.length, (ring ++ x.arriving).drop bytes.length,
        bytes.length, ?_, ?_, ⟨_, rfl⟩, .inr rfl⟩
      · simp only [uartRec, uartReadBytes, htaken, hbytes, hcopy]
        rfl
      · rw [List.length_append, List.length_map, List.length_drop]
        omega

theorem uartRec_overflow {buf : Buffer UInt8} {ring : List UInt8} {x : Exchange}
    (full : buf.length < (x.delivered ring).length) :
    ∃ f, uartRec buf ring x = .error f := by
  rw [Exchange.delivered] at full
  cases htaken : x.taken with
  | none => simp [htaken] at full
  | some n =>
      simp only [htaken] at full
      obtain ⟨i, size, hcopy⟩ := copyLoop_overflow [] _
        (holds_map ((ring ++ x.arriving).take (min n bufSize))) buf full
      rw [List.map_nil, List.nil_append, List.length_nil] at hcopy
      refine ⟨.outOfBounds i size, ?_⟩
      simp only [uartRec, uartReadBytes, htaken, hcopy]
      rfl

section Runs

variable {F : Type} [FloatArith F] {s : UartState F}

/-- The permanent buffers between two exchanges. -/
structure Ready (s : UartState F) : Prop where
  frames : KeepsFrames (fun f => f.template.length) (fun f => stamped f.template) s.frames
  size : s.dataRecP.length = bufSize

/-- A computation that goes on in a state with its buffers in order, or is aborted. -/
def Survives (r : Except Halt (UartState F)) : Prop :=
  (∃ s', r = .ok s' ∧ Ready s') ∨ r = .error .abort

theorem bootUart_ready : Ready (bootUart : UartState F) where
  frames f := ⟨f.template, holds_map f.template, rfl, rfl⟩
  size := length_fresh bufSize

omit [FloatArith F] in
theorem Survives.bind {r : Except Halt (UartState F)} (h : Survives r)
    {k : UartState F → Except Halt (UartState F)} (hk : ∀ s', Ready s' → Survives (k s')) :
    Survives (r >>= k) := by
  rcases h with ⟨s', rfl, ready⟩ | rfl
  · exact hk s' ready
  · exact .inr rfl

omit [FloatArith F] in
theorem Ready.send (ready : Ready s) (f : Frame) (written : ℤ) :
    ∃ s', Ready s' ∧ s'.ring = s.ring ∧
      s.send f written = if written = f.template.length then .ok s' else .error .abort := by
  obtain ⟨b, -, keeps, hsend⟩ := ready.frames.send (i := f) (by cases f <;> decide)
    (by cases f <;> decide) written
  refine ⟨{ s with frames := Function.update s.frames f b, line := s.line ++ [stamped f.template] },
    ⟨keeps, ready.size⟩, rfl, ?_⟩
  rw [UartState.send, hsend]
  split <;> rfl

theorem Ready.query (ready : Ready s) (f : Frame) (x : Exchange) : Survives (s.query f x) := by
  obtain ⟨s', ready', -, hsend⟩ := ready.send f x.written
  rw [UartState.query, hsend]
  split
  · have hroom : (x.delivered s'.ring).length ≤ bufSize := length_delivered x s'.ring
    rw [← ready'.size] at hroom
    obtain ⟨b, ring', len, hrec, hsize, hheld, hlen⟩ := uartRec_ok hroom
    have hdata : ∃ m, getRecData b len s'.meters = .ok m := by
      rcases hlen with hlen | rfl
      · exact ⟨_, getRecData_silence b hlen _⟩
      · have hsmall := length_delivered x s'.ring
        rw [bufSize] at hsmall
        exact ⟨_, getRecData_ok hheld (by omega) _⟩
    obtain ⟨m, hm⟩ := hdata
    refine .inl ⟨{ s' with dataRecP := b, ring := ring', meters := m }, ?_, ready'.frames, ?_⟩
    · simp only [bind, Except.bind, hrec, Except.mapError, hm]
      rfl
    · rw [hsize, ready'.size]
  · exact .inr rfl

theorem Ready.poll (ready : Ready s) (params energy : Exchange) :
    Survives (s.poll params energy) :=
  (ready.query .params params).bind fun _ ready' => ready'.query .energy energy

omit [FloatArith F] in
theorem Ready.clear_fits (ready : Ready s) {x : Exchange}
    (fits : UartEvent.Fits s (.clear x)) : Survives (s.clearTotalEngery x) := by
  obtain ⟨s', ready', hring, hsend⟩ := ready.send .clear x.written
  rw [UartState.clearTotalEngery, hsend]
  split
  · rename_i accepted
    have hroom : (x.delivered s'.ring).length ≤ (fresh 32 : Buffer UInt8).length := by
      rw [hring, length_fresh]
      exact fits accepted
    obtain ⟨b, ring', len, hrec, -, hheld, hlen⟩ := uartRec_ok hroom
    have hready : Ready { s' with ring := ring' } := ⟨ready'.frames, ready'.size⟩
    refine .inl ⟨_, ?_, hready⟩
    simp only [bind, Except.bind, hrec, Except.mapError]
    rcases hlen with hlen | rfl
    · rw [if_neg (by omega)]
      rfl
    · rw [Int.toNat_natCast, hheld.loads]
      split <;> rfl
  · exact .inr rfl

omit [FloatArith F] in
theorem Ready.clear_overflow (ready : Ready s) {x : Exchange}
    (long : ¬ UartEvent.Fits s (.clear x)) : ∃ f, s.clearTotalEngery x = .error (.fault f) := by
  obtain ⟨s', -, hring, hsend⟩ := ready.send .clear x.written
  obtain ⟨accepted, hlong⟩ : x.written = 11 ∧ 32 < (x.delivered s.ring).length := by
    simpa [UartEvent.Fits] using long
  have hfull : (fresh 32 : Buffer UInt8).length < (x.delivered s'.ring).length := by
    rw [hring, length_fresh]
    exact hlong
  obtain ⟨f, hrec⟩ := uartRec_overflow hfull
  refine ⟨f, ?_⟩
  have hwritten : x.written = Frame.clear.template.length := accepted
  rw [UartState.clearTotalEngery, hsend, if_pos hwritten]
  simp only [bind, Except.bind, hrec, Except.mapError]

theorem Ready.event (ready : Ready s) {e : UartEvent} (fits : e.Fits s) :
    Survives (uartEvent s e) := by
  cases e with
  | poll params energy => exact ready.poll params energy
  | clear x => exact ready.clear_fits fits

theorem Ready.event_overflow (ready : Ready s) {e : UartEvent} (long : ¬ e.Fits s) :
    ∃ f, uartEvent s e = .error (.fault f) := by
  cases e with
  | poll params energy => exact absurd trivial long
  | clear x => exact ready.clear_overflow long

theorem Ready.run (ready : Ready s) (es : List UartEvent) :
    (∀ f, uartRun s es ≠ .error (.fault f)) ↔ ClearsFit s es := by
  induction es generalizing s with
  | nil =>
      refine ⟨fun _ => trivial, fun _ f h => ?_⟩
      cases h
  | cons e es ih =>
      by_cases fits : e.Fits s
      · rcases ready.event fits with ⟨s', hok, ready'⟩ | habort
        · have hrest : uartRun s (e :: es) = uartRun s' es := by
            simp only [uartRun, List.foldlM_cons, hok, bind, Except.bind]
          rw [hrest, ih ready']
          simp only [ClearsFit, fits, hok, true_and, Except.ok.injEq]
          exact ⟨fun h t ht => ht ▸ h, fun h => h s' rfl⟩
        · have hrun : uartRun s (e :: es) = .error .abort := by
            simp only [uartRun, List.foldlM_cons, habort, bind, Except.bind]
          rw [hrun]
          refine ⟨fun _ => ⟨fits, fun s' h => ?_⟩, fun _ f h => ?_⟩
          · rw [habort] at h
            cases h
          · cases h
      · obtain ⟨f, hfault⟩ := ready.event_overflow fits
        have hrun : uartRun s (e :: es) = .error (.fault f) := by
          simp only [uartRun, List.foldlM_cons, hfault, bind, Except.bind]
        rw [hrun]
        exact ⟨fun h => absurd rfl (h f), fun h => absurd h.1 fits⟩

/-- No access of a run after `uart_init` leaves its array exactly when no accepted clear is answered
by more than its array can take. -/
theorem receive_buffers_iff (es : List UartEvent) :
    (∀ f, uartRun (bootUart : UartState F) es ≠ .error (.fault f)) ↔
      ClearsFit (bootUart : UartState F) es := bootUart_ready.run es

/-- A reply to a query that is still in the ring when the register is cleared. -/
def lateReply : Exchange := ⟨11, List.replicate 41 0x01, some bufSize⟩

theorem late_reply_overflows :
    ¬ ∀ (es : List UartEvent) (f : Fault),
      uartRun (bootUart : UartState ℚ) es ≠ .error (.fault f) := by
  intro claim
  have hfit := (bootUart_ready.run [.clear lateReply]).mp (claim [.clear lateReply])
  exact absurd (hfit.1 rfl) (by decide)

end Runs

end Ddsu666
