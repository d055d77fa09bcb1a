/- Noise on the way to the meter: requests that arrive with other bits than `uart_send` has put on
   the line, and a meter that checks what it is given. -/
import Ddsu666.MeterBus

namespace Ddsu666
open RegisterBus

/-- What becomes of an exchange: the bytes that arrive for those that were sent, and whether a reply
comes back. -/
structure NoisyTransfer where
  arrives : List UInt8 → List UInt8
  replied : Bool

inductive NoisyEvent (σ : Type) where
  | change (g : σ → σ)
  | poll (params : NoisyTransfer) (g : σ → σ) (energy : NoisyTransfer)
  | clear (t : NoisyTransfer)

section Code

variable {σ F : Type} [FloatArith F] (server : Meter σ)

def NoisyTransfer.reply (t : NoisyTransfer) (s : σ) (sent : List UInt8) : σ × List UInt8 :=
  let (s, reply) := server.serve s (t.arrives sent)
  (s, if t.replied then reply else [])

/-- The meter is given what the noise has left of the bytes that `uart_send` puts on the line. -/
def Bus.noisyCarry (b : Bus σ F) (f : Frame) (t : NoisyTransfer) :
    Except Halt (σ × Exchange) := do
  let (_, sent) ← uartSend (b.uart.frames f) f.template.length f.template.length
  let (s, reply) := t.reply server b.meter sent
  return (s, ⟨f.template.length, reply, some bufSize⟩)

def Bus.noisyQuery (b : Bus σ F) (f : Frame) (t : NoisyTransfer) : Except Halt (Bus σ F) := do
  let (s, x) ← b.noisyCarry server f t
  let u ← b.uart.query f x
  return ⟨s, u⟩

def Bus.noisyClear (b : Bus σ F) (t : NoisyTransfer) : Except Halt (Bus σ F) := do
  let (s, x) ← b.noisyCarry server .clear t
  let u ← b.uart.clearTotalEngery x
  return ⟨s, u⟩

def noisyEvent (b : Bus σ F) : NoisyEvent σ → Except Halt (Bus σ F)
  | .change g => .ok { b with meter := g b.meter }
  | .poll params g energy => do
      let b ← b.noisyQuery server .params params
      Bus.noisyQuery server { b with meter := g b.meter } .energy energy
  | .clear t => b.noisyClear server t

def noisyRun (b : Bus σ F) (es : List (NoisyEvent σ)) : Except Halt (Bus σ F) :=
  es.foldlM (noisyEvent server) b

end Code

/-- The noise considered: an odd number of flipped bits, two of them, or any within 16 bits in a
row. A request may also not arrive at all. -/
inductive Arrival (sent : List UInt8) : List UInt8 → Prop
  | whole : Arrival sent sent
  | missing : Arrival sent []
  | odd {arrived : List UInt8} (same : sent.length = arrived.length)
      (flips : Odd (flippedBits sent arrived).card) : Arrival sent arrived
  | pair {arrived : List UInt8} (same : sent.length = arrived.length)
      (flips : (flippedBits sent arrived).card = 2) : Arrival sent arrived
  | burst {arrived : List UInt8} (same : sent.length = arrived.length) (p : ℕ)
      (some_error : (flippedBits sent arrived).Nonempty)
      (flips : flippedBits sent arrived ⊆ Finset.Ico p (p + 16)) : Arrival sent arrived

/-- A frame whose check bytes or address are wrong is ignored. -/
def Strict {σ : Type} (server : Meter σ) : Prop :=
  ∀ s l, opened lineCheck 0x01 l = none → server.serve s l = (s, [])

/-- The exchange of a line that loses what this one damages. -/
def NoisyTransfer.outcome (t : NoisyTransfer) (f : Frame) : Transfer :=
  if t.arrives (stamped f.template) = stamped f.template then
    if t.replied then .answered else .executed
  else .lost

def NoisyTransfer.Arrives (t : NoisyTransfer) (f : Frame) : Prop :=
  Arrival (stamped f.template) (t.arrives (stamped f.template))

namespace NoisyEvent

variable {σ : Type}

def outcome : NoisyEvent σ → BusEvent σ
  | .change g => .change g
  | .poll params g energy => .poll (params.outcome .params) g (energy.outcome .energy)
  | .clear t => .clear (t.outcome .clear)

def Arrives : NoisyEvent σ → Prop
  | .change _ => True
  | .poll params _ energy => params.Arrives .params ∧ energy.Arrives .energy
  | .clear t => t.Arrives .clear

end NoisyEvent

/-- A frame that is opened leaves nothing in the register. -/
theorem run_opened {l body : List UInt8} (h : opened lineCheck 0x01 l = some body) :
    ShiftRegister.run crcPoly 0xFFFF#16 (txBits l) = 0#16 := by
  have hframe : l = stamped (0x01 :: body ++ [0, 0]) := by
    rw [stamped_append]
    simp only [opened] at h
    split at h
    · rename_i same
      rw [Option.some.inj h] at same
      exact same
    · cases h
  rw [hframe]
  exact run_stamped _

theorem opened_nil : opened lineCheck 0x01 [] = none := by decide

/-- The check bytes tell damaged requests from whole ones. -/
theorem Arrival.closed {bytes l : List UInt8} (arrival : Arrival (stamped bytes) l)
    (small : (stamped bytes).length ≤ 256) (damaged : l ≠ stamped bytes) :
    opened lineCheck 0x01 l = none := by
  have hsent := run_stamped bytes
  rw [Option.eq_none_iff_forall_ne_some]
  intro body hopened
  have harrived := run_opened hopened
  have hequal := hsent.trans harrived.symm
  cases arrival with
  | whole => exact damaged rfl
  | missing =>
      rw [opened_nil] at hopened
      cases hopened
  | odd same flips => exact run_ne_of_odd same _ flips hequal
  | pair same flips => exact run_ne_of_pair same _ small flips hequal
  | burst same p some_error flips => exact run_ne_of_burst same _ some_error flips hequal

theorem length_stamped_frame (f : Frame) : (stamped f.template).length ≤ 256 := by
  rw [length_stamped (by cases f <;> decide)]
  cases f <;> decide

section Runs

variable {σ F : Type} {server : Meter σ} (strict : Strict server)

include strict

theorem NoisyTransfer.reply_outcome {t : NoisyTransfer} {f : Frame} (arrives : t.Arrives f)
    (s : σ) :
    t.reply server s (stamped f.template) =
      (t.outcome f).reply server s (stamped f.template) := by
  unfold NoisyTransfer.reply outcome
  by_cases whole : t.arrives (stamped f.template) = stamped f.template
  · rw [if_pos whole, whole]
    cases t.replied with
    | false => rfl
    | true => rfl
  · rw [if_neg whole, strict s _ (arrives.closed (length_stamped_frame f) whole)]
    simp only [ite_self]
    rfl

variable [SingleArith F] {b : Bus σ F} {old : Meters F} {told : Told} {s : σ}

omit [SingleArith F] in
theorem Ready.noisy_carry [FloatArith F] {b : Bus σ F} (ready : Ready b.uart) {f : Frame} {t : NoisyTransfer}
    (arrives : t.Arrives f) : b.noisyCarry server f t = b.carry server f (t.outcome f) := by
  obtain ⟨c, -, -, hsend⟩ := ready.frames.send (i := f) (by cases f <;> decide)
    (by cases f <;> decide) f.template.length
  rw [if_pos rfl] at hsend
  rw [Bus.noisyCarry, Bus.carry, hsend]
  simp only [bind, Except.bind, NoisyTransfer.reply_outcome strict arrives]

theorem Ready.noisy_query (ready : Ready b.uart) {f : Frame} {t : NoisyTransfer}
    (arrives : t.Arrives f) : b.noisyQuery server f t = b.query server f (t.outcome f) := by
  rw [Bus.noisyQuery, Bus.query, ready.noisy_carry strict arrives]

/-- What the noise damages is lost, and nothing else happens. -/
theorem Idle.noisy_event (idle : Idle old b s told) {e : NoisyEvent σ} (arrives : e.Arrives) :
    noisyEvent server b e = busEvent server b e.outcome := by
  cases e with
  | change g => rfl
  | clear t =>
      rw [noisyEvent, NoisyEvent.outcome, busEvent, Bus.noisyClear, Bus.clear,
        idle.ready.noisy_carry strict arrives]
  | poll params g energy =>
      obtain ⟨hparams, henergy⟩ := arrives
      obtain ⟨x, y, hserve⟩ := serve_params server s
      obtain ⟨b₁, hquery, idle₁⟩ := idle.query .params (params.outcome .params) hserve
        (by decide : (41 : ℕ) ≤ 127) (idle.mirrors.params (server.registers s) x y)
      have hchanged : Ready ({ b₁ with meter := g b₁.meter } : Bus σ F).uart := idle₁.ready
      simp only [noisyEvent, NoisyEvent.outcome, busEvent,
        idle.ready.noisy_query strict hparams, hquery, bind, Except.bind]
      exact hchanged.noisy_query strict henergy

theorem Idle.noisy_run (idle : Idle old b s told) {es : List (NoisyEvent σ)}
    (arrive : ∀ e ∈ es, e.Arrives) :
    noisyRun server b es = busRun server b (es.map NoisyEvent.outcome) := by
  induction es generalizing b s told with
  | nil => rfl
  | cons e es ih =>
      obtain ⟨b₁, hevent, idle₁⟩ := idle.event server e.outcome
      have hrest := ih idle₁ fun e he => arrive e (List.mem_cons_of_mem _ he)
      rw [noisyRun, busRun, List.map_cons, List.foldlM_cons, List.foldlM_cons,
        idle.noisy_event strict (arrive e List.mem_cons_self), hevent]
      exact hrest

/-- A request that noise has changed is never executed as another one: a run over a noisy line is
the run over a line that loses these requests. So nothing goes wrong, the meter is written to by
the clears that arrive whole and by no other request, and the variables mirror it. -/
theorem noise_harmless (s : σ) (es : List (NoisyEvent σ)) (arrive : ∀ e ∈ es, e.Arrives) :
    noisyRun server (⟨s, bootUart⟩ : Bus σ F) es =
        busRun server ⟨s, bootUart⟩ (es.map NoisyEvent.outcome) ∧
      ∃ b : Bus σ F, noisyRun server ⟨s, bootUart⟩ es = .ok b ∧
        b.meter = ((es.map NoisyEvent.outcome).foldl (idealEvent server) (s, untold)).1 ∧
        Mirrors initialMeters ((es.map NoisyEvent.outcome).foldl (idealEvent server) (s, untold)).2
          b.uart.meters := by
  have hsame := (bootUart_idle (F := F) s).noisy_run strict arrive
  obtain ⟨b, hrun, idle⟩ := (bootUart_idle (F := F) s).run server (es.map NoisyEvent.outcome)
  exact ⟨hsame, b, hsame.trans hrun, idle.meter, idle.mirrors⟩

end Runs

theorem tableMeter_strict : Strict tableMeter := by
  intro registers l closed
  change respond lineCheck 0x01 registers l = _
  rw [respond, closed]
  rfl

/-- One bit of a byte turned over. -/
def turned (i : ℕ) (l : List UInt8) : List UInt8 := l.modify i (· ^^^ 1)

theorem clear_turned_ignored :
    ∃ b : Bus (UInt16 → UInt16) Float32,
      noisyRun tableMeter ⟨fun _ => 0, bootUart⟩ [.clear ⟨turned 8, true⟩] = .ok b ∧
        b.meter = fun _ => 0 := by
  have harrives : (NoisyEvent.clear (σ := UInt16 → UInt16) ⟨turned 8, true⟩).Arrives :=
    .odd rfl (by decide +kernel)
  obtain ⟨-, b, hrun, hmeter, -⟩ := noise_harmless (F := Float32) tableMeter_strict (fun _ => 0)
    [.clear ⟨turned 8, true⟩] (by simpa using harrives)
  refine ⟨b, hrun, hmeter.trans ?_⟩
  have hlost : (⟨turned 8, true⟩ : NoisyTransfer).outcome .clear = .lost := by decide +kernel
  rw [List.map_singleton, List.foldl_cons, List.foldl_nil, NoisyEvent.outcome, hlost]
  rfl

end Ddsu666
