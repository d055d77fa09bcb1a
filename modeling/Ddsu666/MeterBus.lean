/- Both ends of the line of uart.c: the exchanges of `uart_loop` with a meter that serves its
   registers, which may change at any time, over a line that may lose requests and replies. -/
import Ddsu666.RegisterBus
import Ddsu666.ReceiveBuffers
import Ddsu666.ReplyRuns

namespace Ddsu666
open CheckedBuffer Binary32 RegisterBus

/-- What ends every frame on this line. -/
def lineCheck (message : List UInt8) : List UInt8 :=
  crcBytes (ShiftRegister.run crcPoly 0xFFFF#16 (txBits message))

/-- A meter at address 1. -/
abbrev Meter (σ : Type) := Server σ lineCheck 0x01

def Frame.request : Frame → Request
  | .params => .read 0x2000 0x12
  | .energy => .read 0x4000 0x02
  | .clear => .write 0x0002 [0x0001]

/-- What becomes of an exchange. The reply alone may be lost, after the meter has acted. -/
inductive Transfer where
  | lost
  | executed
  | answered
  deriving DecidableEq, Repr

structure Bus (σ F : Type) where
  meter : σ
  uart : UartState F

/-- Between the two queries of a poll the meter goes on by itself. -/
inductive BusEvent (σ : Type) where
  | change (g : σ → σ)
  | poll (params : Transfer) (g : σ → σ) (energy : Transfer)
  | clear (t : Transfer)

section Code

variable {σ F : Type} [FloatArith F] (server : Meter σ)

def Transfer.reply (t : Transfer) (s : σ) (sent : List UInt8) : σ × List UInt8 :=
  match t with
  | .lost => (s, [])
  | .executed => ((server.serve s sent).1, [])
  | .answered => server.serve s sent

/-- The meter is given the bytes that `uart_send` puts on the line, and a reply arrives whole. -/
def Bus.carry (b : Bus σ F) (f : Frame) (t : Transfer) : Except Halt (σ × Exchange) := do
  let (_, sent) ← uartSend (b.uart.frames f) f.template.length f.template.length
  let (s, reply) := t.reply server b.meter sent
  return (s, ⟨f.template.length, reply, some bufSize⟩)

def Bus.query (b : Bus σ F) (f : Frame) (t : Transfer) : Except Halt (Bus σ F) := do
  let (s, x) ← b.carry server f t
  let u ← b.uart.query f x
  return ⟨s, u⟩

def Bus.clear (b : Bus σ F) (t : Transfer) : Except Halt (Bus σ F) := do
  let (s, x) ← b.carry server .clear t
  let u ← b.uart.clearTotalEngery x
  return ⟨s, u⟩

def busEvent (b : Bus σ F) : BusEvent σ → Except Halt (Bus σ F)
  | .change g => .ok { b with meter := g b.meter }
  | .poll params g energy => do
      let b ← b.query server .params params
      Bus.query server { b with meter := g b.meter } .energy energy
  | .clear t => b.clear server t

def busRun (b : Bus σ F) (es : List (BusEvent σ)) : Except Halt (Bus σ F) :=
  es.foldlM (busEvent server) b

end Code

/-! What the exchanges are for: the registers as the meter last told them. -/

/-- The registers when a query of each kind was last answered. -/
structure Told where
  params : Option (UInt16 → UInt16)
  energy : Option (UInt16 → UInt16)

def untold : Told := ⟨none, none⟩

def idealEvent {σ : Type} (server : Meter σ) : σ × Told → BusEvent σ → σ × Told
  | (s, told), .change g => (g s, told)
  | (s, told), .poll params g energy =>
      (g s, ⟨if params = .answered then some (server.registers s) else told.params,
        if energy = .answered then some (server.registers (g s)) else told.energy⟩)
  | (s, told), .clear t => (if t = .lost then s else server.write s 0x0002 [0x0001], told)

/-- A number in single precision takes two registers. -/
def single (registers : UInt16 → UInt16) (first : UInt16) : UInt32 :=
  UInt32.ofNat ((registers first).toNat * 65536 + (registers (first + 1)).toNat)

/-- A variable is what it was, or the number whose encoding was told last if that is a normal one. -/
def Shows {F : Type} [SingleArith F] (old : F) (told : Option (UInt16 → UInt16))
    (first : UInt16) (x : F) : Prop :=
  match told with
  | none => x = old
  | some registers => Normal (single registers first) →
      SingleArith.toRat? x = some (value (single registers first))

structure Mirrors {F : Type} [SingleArith F] (old : Meters F) (told : Told) (m : Meters F) :
    Prop where
  voltage : Shows old.voltage told.params 0x2000 m.voltage
  current : Shows old.current told.params 0x2002 m.current
  aPower : Shows old.aPower told.params 0x2004 m.aPower
  rPower : Shows old.rPower told.params 0x2006 m.rPower
  apPower : Shows old.apPower told.params 0x2008 m.apPower
  powerFactor : Shows old.powerFactor told.params 0x200A m.powerFactor
  powerFrequency : Shows old.powerFrequency told.params 0x200E m.powerFrequency
  totalEngery : Shows old.totalEngery told.energy 0x4000 m.totalEngery

/-! The frames of the two parties. -/

theorem length_lineCheck (l : List UInt8) : (lineCheck l).length = 2 := rfl

/-- What the code sends is a request of the protocol. -/
theorem stamped_template (f : Frame) : stamped f.template = frame lineCheck 0x01 f.request.body := by
  have hmessage : f.template.take (f.template.length - 2) = 0x01 :: f.request.body := by
    cases f <;> decide
  rw [stamped, hmessage]
  rfl

theorem bigEndian_single (registers : UInt16 → UInt16) (first : UInt16) :
    bigEndian (single registers first) =
      bytes (registers first) ++ bytes (registers (first + 1)) := by
  have hhigh := (registers first).toNat_lt
  have hlow := (registers (first + 1)).toNat_lt
  obtain ⟨h, hh⟩ : ∃ h, (registers first).toNat = h := ⟨_, rfl⟩
  obtain ⟨l, hl⟩ : ∃ l, (registers (first + 1)).toNat = l := ⟨_, rfl⟩
  rw [hh] at hhigh
  rw [hl] at hlow
  have hword : (UInt32.ofNat (h * 65536 + l)).toNat = h * 65536 + l :=
    UInt32.toNat_ofNat_of_lt' (by change _ < 2 ^ 32; omega)
  simp only [bigEndian, single, bytes, hh, hl, hword, List.cons_append, List.nil_append,
    List.cons.injEq, and_true]
  refine ⟨?_, ?_, ?_, ?_⟩
  all_goals
    apply UInt8.toNat_inj.mp
    rw [UInt8.toNat_ofNat', UInt8.toNat_ofNat']
    omega

/-- Consecutive numbers. -/
def singles (registers : UInt16 → UInt16) (first : UInt16) (n : ℕ) : List UInt32 :=
  (List.range n).map fun k => single registers (first + UInt16.ofNat (2 * k))

theorem block_singles (registers : UInt16 → UInt16) (first : UInt16) (n : ℕ) :
    (block registers first (2 * n)).flatMap bytes =
      (singles registers first n).flatMap bigEndian := by
  induction n with
  | zero => rfl
  | succ n ih =>
      have hblock : block registers first (2 * (n + 1)) = block registers first (2 * n) ++
          [registers (first + UInt16.ofNat (2 * n)),
            registers (first + UInt16.ofNat (2 * n) + 1)] := by
        have hnext : UInt16.ofNat (2 * n + 1) = UInt16.ofNat (2 * n) + 1 := UInt16.ofNat_add _ _
        rw [block, block, show 2 * (n + 1) = 2 * n + 1 + 1 by ring, List.range_succ,
          List.range_succ, List.map_append, List.map_append, List.append_assoc, List.map_singleton,
          List.map_singleton, hnext, ← UInt16.add_assoc]
        rfl
      have hsingles : singles registers first (n + 1) = singles registers first n ++
          [single registers (first + UInt16.ofNat (2 * n))] := by
        rw [singles, singles, List.range_succ, List.map_append, List.map_singleton]
      rw [hblock, hsingles, List.flatMap_append, List.flatMap_append, ih, List.flatMap_singleton,
        bigEndian_single]
      rfl

theorem frame_reply (registers : UInt16 → UInt16) (first count : UInt16) {n : ℕ}
    (pairs : count.toNat = 2 * n) :
    ∃ a b, frame lineCheck 0x01 ((Request.read first count).reply registers) =
      readReply (UInt8.ofNat (4 * n)) (singles registers first n) a b := by
  obtain ⟨a, b, hcheck⟩ := List.length_eq_two.mp
    (length_lineCheck (0x01 :: (Request.read first count).reply registers))
  refine ⟨a, b, ?_⟩
  rw [frame, hcheck, Request.reply, pairs, block_singles, ← Nat.mul_assoc]
  rfl

theorem serve_params {σ : Type} (server : Meter σ) (s : σ) :
    ∃ a b, server.serve s (stamped Frame.params.template) =
      (s, readReply 0x24 (singles (server.registers s) 0x2000 9) a b) := by
  obtain ⟨a, b, hreply⟩ := frame_reply (server.registers s) 0x2000 0x12 (n := 9) rfl
  refine ⟨a, b, ?_⟩
  rw [stamped_template, Frame.request, server.serve_read s _ _ (by decide), hreply]
  rfl

theorem serve_energy {σ : Type} (server : Meter σ) (s : σ) :
    ∃ a b, server.serve s (stamped Frame.energy.template) =
      (s, readReply 0x04 (singles (server.registers s) 0x4000 1) a b) := by
  obtain ⟨a, b, hreply⟩ := frame_reply (server.registers s) 0x4000 0x02 (n := 1) rfl
  refine ⟨a, b, ?_⟩
  rw [stamped_template, Frame.request, server.serve_read s _ _ (by decide), hreply]
  rfl

/-- The only frame that changes anything in the meter is acknowledged with eight bytes. -/
theorem serve_clear {σ : Type} (server : Meter σ) (s : σ) :
    ∃ reply, reply.length = 8 ∧ server.serve s (stamped Frame.clear.template) =
      (server.write s 0x0002 [0x0001], reply) := by
  refine ⟨frame lineCheck 0x01 ((Request.write 0x0002 [0x0001]).reply (server.registers s)), rfl,
    ?_⟩
  rw [stamped_template, Frame.request, server.serve_write s _ _ (by decide)]

section Exchange

variable {F : Type} [SingleArith F] {s : UartState F}

omit [SingleArith F] in
theorem Ready.sent [FloatArith F] (ready : Ready s) (f : Frame) :
    ∃ s', s.send f f.template.length = .ok s' ∧ Ready s' ∧ s'.ring = s.ring ∧
      s'.meters = s.meters := by
  obtain ⟨b, -, keeps, hsend⟩ := ready.frames.send (i := f) (by cases f <;> decide)
    (by cases f <;> decide) f.template.length
  rw [if_pos rfl] at hsend
  refine ⟨{ s with frames := Function.update s.frames f b, line := s.line ++ [stamped f.template] },
    ?_, ⟨keeps, ready.size⟩, rfl, rfl⟩
  rw [UartState.send, hsend]
  rfl

/-- A read that may take all it asks for. -/
theorem uartRec_taken {buf : Buffer UInt8} (ring reply : List UInt8) (written : ℤ)
    (room : ((ring ++ reply).take bufSize).length ≤ buf.length) :
    ∃ b, uartRec buf ring ⟨written, reply, some bufSize⟩ =
        .ok (b, (ring ++ reply).drop bufSize, ((ring ++ reply).take bufSize).length) ∧
      b.length = buf.length ∧ Holds b ((ring ++ reply).take bufSize) := by
  have hcopy := copyLoop_holds (holds_map ((ring ++ reply).take bufSize)) room
  have hrest : (ring ++ reply).drop ((ring ++ reply).take bufSize).length =
      (ring ++ reply).drop bufSize := by
    rw [List.length_take]
    rcases Nat.le_total bufSize (ring ++ reply).length with hle | hle
    · rw [Nat.min_eq_left hle]
    · rw [Nat.min_eq_right hle, List.drop_length, List.drop_eq_nil_of_le hle]
  refine ⟨((ring ++ reply).take bufSize).map some ++
    buf.drop ((ring ++ reply).take bufSize).length, ?_, ?_, ⟨_, rfl⟩⟩
  · simp only [uartRec, uartReadBytes, Nat.min_self, hcopy, hrest]
    rfl
  · rw [List.length_append, List.length_map, List.length_drop]
    omega

/-- A query takes what is left of earlier replies before its own. -/
theorem Ready.query_taken (ready : Ready s) (f : Frame) (reply : List UInt8) :
    ∃ s', s.query f ⟨f.template.length, reply, some bufSize⟩ = .ok s' ∧ Ready s' ∧
      s'.ring = (s.ring ++ reply).drop bufSize ∧
      s'.meters = received ((s.ring ++ reply).take bufSize) s.meters := by
  obtain ⟨s', hsend, ready', hring, hmeters⟩ := ready.sent f
  have hshort : ((s.ring ++ reply).take bufSize).length ≤ bufSize := List.length_take_le _ _
  obtain ⟨b, hrec, hsize, hheld⟩ := uartRec_taken s.ring reply f.template.length
    (by rwa [ready'.size] : _ ≤ s'.dataRecP.length)
  have hsmall := getRecData_ok hheld (hshort.trans (by decide)) s'.meters
  refine ⟨{ s' with
      dataRecP := b
      ring := (s.ring ++ reply).drop bufSize
      meters := received ((s.ring ++ reply).take bufSize) s'.meters }, ?_,
    ⟨ready'.frames, hsize.trans ready'.size⟩, rfl, by rw [hmeters]⟩
  simp only [UartState.query, hsend, hring, hrec, Except.mapError, bind, Except.bind, hsmall]
  rfl

/-- A reply that arrives whole, or none at all, is taken from the line and decoded. -/
theorem Ready.query_whole (ready : Ready s) (quiet : s.ring = []) (f : Frame)
    {reply : List UInt8} (short : reply.length ≤ bufSize) :
    ∃ s', s.query f ⟨f.template.length, reply, some bufSize⟩ = .ok s' ∧ Ready s' ∧ s'.ring = [] ∧
      s'.meters = received reply s.meters := by
  obtain ⟨s', hquery, ready', hring, hmeters⟩ := ready.query_taken f reply
  rw [quiet, List.nil_append, List.drop_eq_nil_of_le short] at hring
  rw [quiet, List.nil_append, List.take_of_length_le short] at hmeters
  exact ⟨s', hquery, ready', hring, hmeters⟩

omit [SingleArith F] in
theorem Ready.clear_whole [FloatArith F] (ready : Ready s) (quiet : s.ring = [])
    {reply : List UInt8} (short : reply.length ≤ 32) :
    ∃ s', s.clearTotalEngery ⟨11, reply, some bufSize⟩ = .ok s' ∧ Ready s' ∧ s'.ring = [] ∧
      s'.meters = s.meters := by
  obtain ⟨s', hsend, ready', hring, hmeters⟩ := ready.sent .clear
  have hlong : reply.length ≤ bufSize := short.trans (by decide)
  have htake : (s.ring ++ reply).take bufSize = reply := by
    rw [quiet, List.nil_append, List.take_of_length_le hlong]
  have hdrop : (s.ring ++ reply).drop bufSize = [] := by
    rw [quiet, List.nil_append, List.drop_eq_nil_of_le hlong]
  obtain ⟨b, hrec, -, hheld⟩ := uartRec_taken s.ring reply 11
    (by rwa [htake, length_fresh] : _ ≤ (fresh 32 : Buffer UInt8).length)
  rw [htake, hdrop] at hrec
  rw [htake] at hheld
  refine ⟨{ s' with ring := [] }, ?_, ⟨ready'.frames, ready'.size⟩, rfl, hmeters⟩
  have hwritten : s.send .clear 11 = .ok s' := hsend
  simp only [UartState.clearTotalEngery, hwritten, hring, hrec, Except.mapError, bind,
    Except.bind, Int.toNat_natCast, hheld.loads]
  split <;> rfl

end Exchange

section Runs

variable {σ F : Type} [SingleArith F] {server : Meter σ} {b : Bus σ F} {old : Meters F}
  {told : Told}

/-- Word `k` of a reply is shown by the variable it is decoded into. -/
theorem shows_word (old : F) (registers : UInt16 → UInt16) (first : UInt16) (byteCount x y : UInt8)
    {n k : ℕ} (hk : k < n) :
    Shows old (some registers) (first + UInt16.ofNat (2 * k)) (floatFrom8hex
      (wordAt (readReply byteCount (singles registers first n) x y) (3 + 4 * k)) : F) := by
  intro normal
  have hlt : k < (singles registers first n).length := by simpa [singles] using hk
  have hword : (singles registers first n)[k] =
      single registers (first + UInt16.ofNat (2 * k)) := by simp [singles]
  have hreply := floatFrom8hex_reply (F := F) (singles registers first n) byteCount x y k hlt
    (by rwa [hword])
  rwa [hword] at hreply

theorem Mirrors.params {m : Meters F} (h : Mirrors old told m) (registers : UInt16 → UInt16)
    (x y : UInt8) :
    Mirrors old ⟨some registers, told.energy⟩
      (received (readReply 0x24 (singles registers 0x2000 9) x y) m) := by
  have hword := fun (was : F) {k} (hk : k < 9) => shows_word was registers 0x2000 0x24 x y hk
  rw [received_params rfl]
  exact ⟨hword _ (k := 0) (by decide), hword _ (k := 1) (by decide), hword _ (k := 2) (by decide),
    hword _ (k := 3) (by decide), hword _ (k := 4) (by decide), hword _ (k := 5) (by decide),
    hword _ (k := 7) (by decide), h.totalEngery⟩

theorem Mirrors.energy {m : Meters F} (h : Mirrors old told m) (registers : UInt16 → UInt16)
    (x y : UInt8) :
    Mirrors old ⟨told.params, some registers⟩
      (received (readReply 0x04 (singles registers 0x4000 1) x y) m) := by
  rw [received_energy rfl]
  exact ⟨h.voltage, h.current, h.aPower, h.rPower, h.apPower, h.powerFactor, h.powerFrequency,
    shows_word _ registers 0x4000 0x04 x y (k := 0) (by decide)⟩

/-- Between two exchanges nothing is left on the line. -/
structure Idle (old : Meters F) (b : Bus σ F) (s : σ) (told : Told) : Prop where
  ready : Ready b.uart
  quiet : b.uart.ring = []
  meter : b.meter = s
  mirrors : Mirrors old told b.uart.meters

omit [SingleArith F] in
theorem Ready.carry [FloatArith F] {b : Bus σ F} (ready : Ready b.uart) (f : Frame) (t : Transfer) :
    b.carry server f t = .ok ((t.reply server b.meter (stamped f.template)).1,
      ⟨f.template.length, (t.reply server b.meter (stamped f.template)).2, some bufSize⟩) := by
  obtain ⟨c, -, -, hsend⟩ := ready.frames.send (i := f) (by cases f <;> decide)
    (by cases f <;> decide) f.template.length
  rw [if_pos rfl] at hsend
  rw [Bus.carry, hsend]
  rfl

/-- A query that is not answered leaves the variables alone, whatever the meter has received. -/
theorem Idle.query {s : σ} (idle : Idle old b s told) (f : Frame) (t : Transfer) {reply : List UInt8}
    (serves : server.serve s (stamped f.template) = (s, reply)) (short : reply.length ≤ bufSize)
    {told' : Told} (mirrors : Mirrors old told' (received reply b.uart.meters)) :
    ∃ b', b.query server f t = .ok b' ∧ Idle old b' s (if t = .answered then told' else told) := by
  have hmeter : (t.reply server b.meter (stamped f.template)).1 = s := by
    rw [idle.meter]
    cases t with
    | lost => rfl
    | executed => rw [Transfer.reply, serves]
    | answered => rw [Transfer.reply, serves]
  have hshort : (t.reply server b.meter (stamped f.template)).2.length ≤ bufSize := by
    rw [idle.meter]
    cases t with
    | lost => exact Nat.zero_le _
    | executed => exact Nat.zero_le _
    | answered => rwa [Transfer.reply, serves]
  obtain ⟨u, hquery, hready, hring, hmeters⟩ := idle.ready.query_whole idle.quiet f hshort
  refine ⟨⟨s, u⟩, ?_, hready, hring, rfl, ?_⟩
  · simp only [Bus.query, idle.ready.carry, bind, Except.bind, hquery, hmeter]
    rfl
  · rw [hmeters, idle.meter]
    cases t with
    | lost => exact idle.mirrors
    | executed => exact idle.mirrors
    | answered =>
        rw [if_pos rfl, Transfer.reply, serves]
        exact mirrors

theorem Idle.clear {s : σ} (idle : Idle old b s told) (t : Transfer) :
    ∃ b', b.clear server t = .ok b' ∧
      Idle old b' (if t = .lost then s else server.write s 0x0002 [0x0001]) told := by
  obtain ⟨reply, hlen, hserve⟩ := serve_clear server s
  have hmeter : (t.reply server b.meter (stamped Frame.clear.template)).1 =
      if t = .lost then s else server.write s 0x0002 [0x0001] := by
    rw [idle.meter]
    cases t with
    | lost => rfl
    | executed => rw [Transfer.reply, hserve, if_neg (by decide)]
    | answered => rw [Transfer.reply, hserve, if_neg (by decide)]
  have hshort : (t.reply server b.meter (stamped Frame.clear.template)).2.length ≤ 32 := by
    rw [idle.meter]
    cases t with
    | lost => exact Nat.zero_le _
    | executed => exact Nat.zero_le _
    | answered =>
        rw [Transfer.reply, hserve, hlen]
        decide
  obtain ⟨u, hclear, hready, hring, hmeters⟩ := idle.ready.clear_whole idle.quiet hshort
  refine ⟨⟨_, u⟩, ?_, hready, hring, hmeter, by rw [hmeters]; exact idle.mirrors⟩
  have hlength : ((Frame.clear.template.length : ℕ) : ℤ) = 11 := rfl
  simp only [Bus.clear, idle.ready.carry, bind, Except.bind, hlength, hclear]
  rfl

theorem Idle.event {s : σ} (idle : Idle old b s told) (server : Meter σ) (e : BusEvent σ) :
    ∃ b', busEvent server b e = .ok b' ∧
      Idle old b' (idealEvent server (s, told) e).1 (idealEvent server (s, told) e).2 := by
  cases e with
  | change g =>
      exact ⟨_, rfl, idle.ready, idle.quiet, congrArg g idle.meter, idle.mirrors⟩
  | poll params g energy =>
      obtain ⟨x, y, hparams⟩ := serve_params server s
      obtain ⟨b₁, hquery, idle₁⟩ := idle.query .params params hparams (by decide : (41 : ℕ) ≤ 127)
        (idle.mirrors.params (server.registers s) x y)
      have hchanged : Idle old { b₁ with meter := g b₁.meter } (g s)
          (if params = .answered then ⟨some (server.registers s), told.energy⟩ else told) :=
        ⟨idle₁.ready, idle₁.quiet, congrArg g idle₁.meter, idle₁.mirrors⟩
      obtain ⟨x', y', henergy⟩ := serve_energy server (g s)
      obtain ⟨b₂, hquery', idle₂⟩ := hchanged.query .energy energy henergy
        (by decide : (9 : ℕ) ≤ 127) (hchanged.mirrors.energy (server.registers (g s)) x' y')
      refine ⟨b₂, ?_, ?_⟩
      · simp only [busEvent, hquery, bind, Except.bind]
        exact hquery'
      · simp only [idealEvent]
        convert idle₂ using 1
        split <;> split <;> rfl
  | clear t => exact idle.clear t

theorem bootUart_idle (s : σ) : Idle initialMeters (⟨s, bootUart⟩ : Bus σ F) s untold :=
  ⟨bootUart_ready, rfl, rfl, ⟨rfl, rfl, rfl, rfl, rfl, rfl, rfl, rfl⟩⟩

theorem Idle.run {s : σ} (idle : Idle old b s told) (server : Meter σ) (es : List (BusEvent σ)) :
    ∃ b', busRun server b es = .ok b' ∧ Idle old b' (es.foldl (idealEvent server) (s, told)).1
      (es.foldl (idealEvent server) (s, told)).2 := by
  induction es generalizing b s told with
  | nil => exact ⟨b, rfl, idle⟩
  | cons e es ih =>
      obtain ⟨b₁, hevent, idle₁⟩ := idle.event server e
      obtain ⟨b₂, hrest, idle₂⟩ := ih idle₁
      refine ⟨b₂, ?_, idle₂⟩
      rw [busRun, List.foldlM_cons, hevent]
      exact hrest

/-- Whatever is lost on the line, no run goes wrong, the meter is changed by nothing but itself and
one write for each clear that reaches it, and every variable shows the normal number that its
registers held when its query was last answered. -/
theorem meter_mirrored (server : Meter σ) (s : σ) (es : List (BusEvent σ)) :
    ∃ b : Bus σ F, busRun server ⟨s, bootUart⟩ es = .ok b ∧
      b.meter = (es.foldl (idealEvent server) (s, untold)).1 ∧
      Mirrors initialMeters (es.foldl (idealEvent server) (s, untold)).2 b.uart.meters := by
  obtain ⟨b, hok, idle⟩ := (bootUart_idle (F := F) s).run server es
  exact ⟨b, hok, idle.meter, idle.mirrors⟩

/-! Recovery. A poll takes up to 254 bytes from the line and adds the 50 of its replies. -/

def BusEvent.Prompt {σ : Type} : BusEvent σ → Prop
  | .change _ => True
  | .poll params _ energy => params = .answered ∧ energy = .answered
  | .clear _ => False

def BusEvent.isPoll {σ : Type} : BusEvent σ → Bool
  | .poll _ _ _ => true
  | _ => false

/-- At most `n` bytes of earlier replies are still to be read. -/
structure Behind (b : Bus σ F) (s : σ) (n : ℕ) : Prop where
  ready : Ready b.uart
  backlog : b.uart.ring.length ≤ n
  meter : b.meter = s

theorem Behind.query {s : σ} {n : ℕ} (behind : Behind b s n) (f : Frame) {reply : List UInt8}
    (serves : server.serve s (stamped f.template) = (s, reply)) :
    ∃ b', b.query server f .answered = .ok b' ∧ Behind b' s (n + reply.length - bufSize) := by
  obtain ⟨u, hquery, hready, hring, -⟩ := behind.ready.query_taken f reply
  refine ⟨⟨s, u⟩, ?_, hready, ?_, rfl⟩
  · simp only [Bus.query, behind.ready.carry, Transfer.reply, behind.meter, serves, bind,
      Except.bind, hquery]
    rfl
  · have hbacklog := behind.backlog
    rw [hring, List.length_drop, List.length_append]
    omega

theorem Behind.poll {s : σ} {n : ℕ} (behind : Behind b s n) (server : Meter σ) (g : σ → σ) :
    ∃ b', busEvent server b (.poll .answered g .answered) = .ok b' ∧
      Behind b' (g s) (n - 204) := by
  obtain ⟨x, y, hparams⟩ := serve_params server s
  obtain ⟨b₁, hquery, behind₁⟩ := behind.query .params hparams
  have hchanged : Behind { b₁ with meter := g b₁.meter } (g s) (n + 41 - 127) :=
    ⟨behind₁.ready, behind₁.backlog, congrArg g behind₁.meter⟩
  obtain ⟨x', y', henergy⟩ := serve_energy server (g s)
  obtain ⟨b₂, hquery', behind₂⟩ := hchanged.query .energy henergy
  refine ⟨b₂, ?_, behind₂.ready, ?_, behind₂.meter⟩
  · simp only [busEvent, hquery, bind, Except.bind]
    exact hquery'
  · refine behind₂.backlog.trans ?_
    change n + 41 - 127 + 9 - 127 ≤ n - 204
    omega

/-- What was shown before does not matter once both queries have been answered. -/
theorem Mirrors.renew {old' : Meters F} {params energy : UInt16 → UInt16} {m : Meters F}
    (h : Mirrors old ⟨some params, some energy⟩ m) :
    Mirrors old' ⟨some params, some energy⟩ m :=
  ⟨h.voltage, h.current, h.aPower, h.rPower, h.apPower, h.powerFactor, h.powerFrequency,
    h.totalEngery⟩

theorem Behind.poll_settles {s : σ} (behind : Behind b s 0) (server : Meter σ) (g : σ → σ)
    (old : Meters F) (told : Told) :
    ∃ b', busEvent server b (.poll .answered g .answered) = .ok b' ∧
      Idle old b' (idealEvent server (s, told) (.poll .answered g .answered)).1
        (idealEvent server (s, told) (.poll .answered g .answered)).2 := by
  have idle : Idle b.uart.meters b s untold :=
    ⟨behind.ready, List.eq_nil_of_length_eq_zero (Nat.le_zero.mp behind.backlog), behind.meter,
      rfl, rfl, rfl, rfl, rfl, rfl, rfl, rfl⟩
  obtain ⟨b', hevent, idle'⟩ := idle.event server (.poll .answered g .answered)
  exact ⟨b', hevent, idle'.ready, idle'.quiet, idle'.meter, idle'.mirrors.renew⟩

theorem Behind.run {s : σ} {n : ℕ} (behind : Behind b s n) (server : Meter σ) (old : Meters F)
    (told : Told) {front : List (BusEvent σ)} (prompt : ∀ e ∈ front, e.Prompt)
    (enough : n + 204 ≤ 204 * front.countP BusEvent.isPoll) :
    ∃ b', busRun server b front = .ok b' ∧
      Idle old b' (front.foldl (idealEvent server) (s, told)).1
        (front.foldl (idealEvent server) (s, told)).2 := by
  induction front generalizing b s n told with
  | nil =>
      rw [List.countP_nil] at enough
      omega
  | cons e front ih =>
      have hfront : ∀ e ∈ front, e.Prompt := fun e he => prompt e (List.mem_cons_of_mem _ he)
      cases e with
      | change g =>
          rw [List.countP_cons_of_neg Bool.false_ne_true] at enough
          exact ih (b := { b with meter := g b.meter })
            ⟨behind.ready, behind.backlog, congrArg g behind.meter⟩ told hfront enough
      | poll params g energy =>
          obtain ⟨rfl, rfl⟩ := prompt _ List.mem_cons_self
          rw [List.countP_cons_of_pos rfl] at enough
          rcases Nat.eq_zero_or_pos n with rfl | pos
          · -- nothing is left over: this poll is decoded, and the line stays idle
            obtain ⟨b₁, hevent, idle⟩ := behind.poll_settles server g old told
            obtain ⟨b₂, hrest, idle'⟩ := idle.run server front
            refine ⟨b₂, ?_, idle'⟩
            rw [busRun, List.foldlM_cons, hevent]
            exact hrest
          · obtain ⟨b₁, hevent, behind₁⟩ := behind.poll server g
            obtain ⟨b₂, hrest, idle⟩ := ih behind₁ (idealEvent server (s, told)
              (.poll .answered g .answered)).2 hfront (by omega)
            refine ⟨b₂, ?_, idle⟩
            rw [busRun, List.foldlM_cons, hevent]
            exact hrest
      | clear t => exact absurd (prompt _ List.mem_cons_self) not_false

theorem Ready.reached {u v : UartState F} (ready : Ready u) {es : List UartEvent}
    (h : uartRun u es = .ok v) : Ready v := by
  induction es generalizing u with
  | nil =>
      cases h
      exact ready
  | cons e es ih =>
      rw [uartRun, List.foldlM_cons] at h
      by_cases fits : e.Fits u
      · rcases ready.event fits with ⟨w, hevent, ready'⟩ | habort
        · rw [hevent] at h
          exact ih ready' h
        · rw [habort] at h
          cases h
      · obtain ⟨f, hfault⟩ := ready.event_overflow fits
        rw [hfault] at h
        cases h

/-- Whatever has been received, and however much of it is still unread, the variables mirror the
meter again after as many answered polls as it takes to read the backlog, and one more. -/
theorem backlog_recovers (server : Meter σ) (s : σ) {es : List UartEvent} {u : UartState F}
    (reached : uartRun bootUart es = .ok u) (front later : List (BusEvent σ))
    (prompt : ∀ e ∈ front, e.Prompt)
    (enough : u.ring.length + 204 ≤ 204 * front.countP BusEvent.isPoll) :
    ∃ b : Bus σ F, busRun server ⟨s, u⟩ (front ++ later) = .ok b ∧
      b.meter = ((front ++ later).foldl (idealEvent server) (s, untold)).1 ∧
      Mirrors u.meters ((front ++ later).foldl (idealEvent server) (s, untold)).2
        b.uart.meters := by
  have behind : Behind (⟨s, u⟩ : Bus σ F) s u.ring.length :=
    ⟨bootUart_ready.reached reached, le_rfl, rfl⟩
  obtain ⟨b₁, hfront, idle₁⟩ := behind.run server u.meters untold prompt enough
  obtain ⟨b₂, hlater, idle₂⟩ := idle₁.run server later
  refine ⟨b₂, ?_, ?_, ?_⟩
  · rw [busRun, List.foldlM_append]
    change (busRun server _ front >>= fun b => busRun server b later) = _
    rw [hfront]
    exact hlater
  · rw [List.foldl_append]
    exact idle₂.meter
  · rw [List.foldl_append]
    exact idle₂.mirrors

end Runs

/-- A meter that is no more than its registers. -/
def tableMeter : Meter (UInt16 → UInt16) := reference 0x01 length_lineCheck

/-- 230 volts are told once, and a clear is executed although its reply is lost. -/
theorem meter_mirrored_table :
    ∃ b : Bus (UInt16 → UInt16) Float32,
      busRun tableMeter ⟨fun r => if r = 0x2000 then 0x4366 else 0, bootUart⟩
          [.poll .answered id .lost, .change fun _ _ => 0, .clear .executed] = .ok b ∧
        b.meter 0x0002 = 1 ∧
        SingleArith.toRat? b.uart.meters.voltage = some (value 0x43660000) ∧
        b.uart.meters.totalEngery = (FloatArith.zero : Float32) := by
  obtain ⟨b, hrun, hmeter, hmirrors⟩ := meter_mirrored (F := Float32) tableMeter
    (fun r => if r = 0x2000 then 0x4366 else 0)
    [.poll .answered id .lost, .change fun _ _ => 0, .clear .executed]
  refine ⟨b, hrun, ?_, hmirrors.voltage ?_, hmirrors.totalEngery⟩
  · rw [hmeter]
    rfl
  · decide

/-- A poll whose replies come too late leaves 60 bytes behind. -/
def latePoll : UartEvent :=
  .poll ⟨8, List.replicate 41 0x55, some 0⟩ ⟨8, List.replicate 19 0x55, some 0⟩

theorem latePoll_backlog :
    ∃ u, uartRun (bootUart : UartState ℚ) [latePoll] = .ok u ∧ u.ring.length = 60 := by
  have hring : (uartRun (bootUart : UartState ℚ) [latePoll]).toOption.map
      (fun u => u.ring.length) = some 60 := by decide +kernel
  obtain ⟨u, hu, hlength⟩ := Option.map_eq_some_iff.mp hring
  refine ⟨u, ?_, hlength⟩
  cases hrun : uartRun (bootUart : UartState ℚ) [latePoll] with
  | error f =>
      rw [hrun] at hu
      cases hu
  | ok v =>
      rw [hrun] at hu
      exact congrArg Except.ok (Option.some.inj hu)

theorem late_poll_recovers :
    ∃ (u : UartState ℚ) (b : Bus (UInt16 → UInt16) ℚ), u.ring.length = 60 ∧
      busRun tableMeter ⟨fun r => if r = 0x2000 then 0x4366 else 0, u⟩
        [.poll .answered id .answered, .poll .answered id .answered] = .ok b ∧
      SingleArith.toRat? b.uart.meters.voltage = some (value 0x43660000) := by
  obtain ⟨u, hlate, hlength⟩ := latePoll_backlog
  obtain ⟨b, hrun, -, hmirrors⟩ := backlog_recovers tableMeter
    (fun r => if r = 0x2000 then 0x4366 else 0) hlate
    [.poll .answered id .answered, .poll .answered id .answered] [] (by simp [BusEvent.Prompt])
    (by rw [hlength]; decide)
  exact ⟨u, b, hlength, hrun, hmirrors.voltage (by decide)⟩

end Ddsu666
