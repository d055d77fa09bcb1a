/- Servers with 16-bit registers on a shared line: the two requests for blocks of registers, and
   frames that carry an address and end in check bytes. -/
import Mathlib.Data.List.Basic

namespace RegisterBus

/-- A register as it is sent, the high byte first. -/
def bytes (x : UInt16) : List UInt8 := [UInt8.ofNat (x.toNat / 256), UInt8.ofNat x.toNat]

def joined (high low : UInt8) : UInt16 := UInt16.ofNat (high.toNat * 256 + low.toNat)

inductive Request where
  | read (first count : UInt16)
  | write (first : UInt16) (values : List UInt16)
  deriving DecidableEq, Repr

/-- The limits come from the byte count, which has to fit its field. -/
def Request.Allowed : Request → Prop
  | .read _ count => 1 ≤ count.toNat ∧ count.toNat ≤ 125
  | .write _ values => 1 ≤ values.length ∧ values.length ≤ 123

instance : DecidablePred Request.Allowed := fun r => by
  cases r <;> exact inferInstanceAs (Decidable (_ ∧ _))

/-- Consecutive registers. -/
def block (registers : UInt16 → UInt16) (first : UInt16) (n : ℕ) : List UInt16 :=
  (List.range n).map fun i => registers (first + UInt16.ofNat i)

/-- Function code and arguments. -/
def Request.body : Request → List UInt8
  | .read first count => 0x03 :: (bytes first ++ bytes count)
  | .write first values =>
      0x10 :: (bytes first ++ bytes (UInt16.ofNat values.length) ++
        UInt8.ofNat (2 * values.length) :: values.flatMap bytes)

def Request.reply (registers : UInt16 → UInt16) : Request → List UInt8
  | .read first count =>
      0x03 :: UInt8.ofNat (2 * count.toNat) :: (block registers first count.toNat).flatMap bytes
  | .write first values => 0x10 :: (bytes first ++ bytes (UInt16.ofNat values.length))

def frame (check : List UInt8 → List UInt8) (address : UInt8) (body : List UInt8) : List UInt8 :=
  address :: body ++ check (address :: body)

/-- A server that executes what is addressed to it. What a write means is the server's own affair,
and so is what it does with any other frame. -/
structure Server (σ : Type*) (check : List UInt8 → List UInt8) (address : UInt8) where
  registers : σ → UInt16 → UInt16
  write : σ → UInt16 → List UInt16 → σ
  serve : σ → List UInt8 → σ × List UInt8
  serve_read : ∀ s first count, (Request.read first count).Allowed →
    serve s (frame check address (Request.read first count).body) =
      (s, frame check address ((Request.read first count).reply (registers s)))
  serve_write : ∀ s first values, (Request.write first values).Allowed →
    serve s (frame check address (Request.write first values).body) =
      (write s first values, frame check address ((Request.write first values).reply (registers s)))

/-! Reading a frame back. -/

def words : List UInt8 → List UInt16
  | high :: low :: rest => joined high low :: words rest
  | _ => []

def shape : List UInt8 → Option Request
  | 0x03 :: a :: b :: c :: d :: [] => some (.read (joined a b) (joined c d))
  | 0x10 :: a :: b :: _ :: _ :: _ :: values => some (.write (joined a b) (words values))
  | _ => none

/-- The counts in the body have to be those of the request. -/
def parse (l : List UInt8) : Option Request := (shape l).filter fun r => r.body = l

/-- The body of a frame for this address whose check bytes are right. -/
def opened (check : List UInt8 → List UInt8) (address : UInt8) (l : List UInt8) :
    Option (List UInt8) :=
  let body := (l.take (l.length - 2)).tail
  if l = frame check address body then some body else none

theorem joined_bytes (x : UInt16) :
    joined (UInt8.ofNat (x.toNat / 256)) (UInt8.ofNat x.toNat) = x := by
  have hx : x.toNat < 65536 := x.toNat_lt
  apply UInt16.toNat_inj.mp
  rw [joined, UInt16.toNat_ofNat', UInt8.toNat_ofNat', UInt8.toNat_ofNat']
  omega

theorem words_flatMap (l : List UInt16) : words (l.flatMap bytes) = l := by
  induction l with
  | nil => rfl
  | cons x l ih =>
      rw [List.flatMap_cons, bytes, List.cons_append, List.cons_append, List.nil_append, words,
        joined_bytes, ih]

theorem shape_body (r : Request) : shape r.body = some r := by
  cases r with
  | read first count =>
      simp only [Request.body, bytes, List.cons_append, List.nil_append, shape, joined_bytes]
  | write first values =>
      simp only [Request.body, bytes, List.cons_append, List.nil_append, shape, joined_bytes,
        words_flatMap]

/-- A body is understood as a request exactly when it is what that request sends. -/
theorem parse_eq_some {l : List UInt8} {r : Request} : parse l = some r ↔ l = r.body := by
  rw [parse, Option.filter_eq_some_iff, decide_eq_true_iff]
  constructor
  · intro h
    exact h.2.symm
  · rintro rfl
    exact ⟨shape_body r, rfl⟩

theorem opened_frame {check : List UInt8 → List UInt8} (two : ∀ l, (check l).length = 2)
    (address : UInt8) (body : List UInt8) :
    opened check address (frame check address body) = some body := by
  have htail : ((frame check address body).take ((frame check address body).length - 2)).tail =
      body := by
    rw [frame, List.length_append, two, Nat.add_sub_cancel, List.take_left', List.tail_cons]
    rfl
  simp only [opened, htail, if_true]

def assign (registers : UInt16 → UInt16) (first : UInt16) : List UInt16 → UInt16 → UInt16
  | [] => registers
  | v :: values => Function.update (assign registers (first + 1) values) first v

section Reference

variable (check : List UInt8 → List UInt8) (address : UInt8)

/-- A server whose state is its registers, silent on everything but the two requests. -/
def respond (registers : UInt16 → UInt16) (l : List UInt8) : (UInt16 → UInt16) × List UInt8 :=
  match (opened check address l).bind parse with
  | none => (registers, [])
  | some r =>
      if r.Allowed then
        match r with
        | .read first count =>
            (registers, frame check address ((Request.read first count).reply registers))
        | .write first values =>
            (assign registers first values,
              frame check address ((Request.write first values).reply registers))
      else (registers, [])

variable {check} (two : ∀ l, (check l).length = 2)

/-- Servers of this kind exist for every way of checking. -/
def reference : Server (UInt16 → UInt16) check address where
  registers := id
  write := assign
  serve := respond check address
  serve_read s first count allowed := by
    simp only [respond, opened_frame two, Option.bind_some, parse_eq_some.mpr rfl, if_pos allowed, id]
  serve_write s first values allowed := by
    simp only [respond, opened_frame two, Option.bind_some, parse_eq_some.mpr rfl, if_pos allowed, id]

end Reference

end RegisterBus
