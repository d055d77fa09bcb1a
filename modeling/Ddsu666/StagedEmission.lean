/- Encoders that put several arrays into a memory of limited size, one array after another, and go
   on where they stopped when they are called again. -/
import Mathlib.Data.List.Basic

namespace StagedEmission

/-- What a call finds: for how many symbols there is room, and whether the memory counts as full
when the last symbol of an array has just found its place. -/
structure Room where
  symbols : ℕ
  full : Bool

structure Session where
  complete : Bool
  memFull : Bool
  deriving DecidableEq

variable {α : Type*}

/-- The encoder of one array: what it emits, the index from which it goes on, and how it ended. -/
def encode (data : List α) (index : ℕ) (room : Room) : List α × ℕ × Session :=
  let due := data.drop index
  if due.length ≤ room.symbols then (due, 0, ⟨true, room.full⟩)
  else (due.take room.symbols, index + room.symbols, ⟨false, true⟩)

/-- What was emitted, the arrays that are not finished, and the index in the first of them. -/
structure Progress (α : Type*) where
  emitted : List α
  todo : List (List α)
  index : ℕ
  session : Session

/-- One array after another until the memory is full; `rooms` has what each call finds. -/
def encodeAll : List (List α) → ℕ → (ℕ → Room) → Progress α
  | [], index, _ => ⟨[], [], index, ⟨true, false⟩⟩
  | data :: later, index, rooms =>
      let (out, next, session) := encode data index (rooms 0)
      if session.complete then
        if session.memFull then ⟨out, later, next, ⟨later.isEmpty, true⟩⟩
        else
          let rest := encodeAll later next fun i => rooms (i + 1)
          { rest with emitted := out ++ rest.emitted }
      else ⟨out, data :: later, next, ⟨false, true⟩⟩

/-- Call after call until one reports completion. -/
def encodeCalls : List (List α) → ℕ → List (ℕ → Room) → Progress α
  | todo, index, [] => ⟨[], todo, index, ⟨false, false⟩⟩
  | todo, index, rooms :: calls =>
      let now := encodeAll todo index rooms
      if now.session.complete then now
      else
        let rest := encodeCalls now.todo now.index calls
        { rest with emitted := now.emitted ++ rest.emitted }

/-- What is still to be emitted. -/
def pending : List (List α) → ℕ → List α
  | [], _ => []
  | data :: later, index => data.drop index ++ later.flatten

theorem pending_zero (todo : List (List α)) : pending todo 0 = todo.flatten := by
  cases todo with
  | nil => rfl
  | cons data later => rfl

/-- Between two calls there is something left of the first array, and no array is empty. -/
def Busy (todo : List (List α)) (index : ℕ) : Prop :=
  (∀ data ∈ todo, data ≠ []) ∧ ∃ data later, todo = data :: later ∧ index < data.length

section Array

variable {data : List α} {later : List (List α)} {index : ℕ} {rooms : ℕ → Room}

theorem encode_done {room : Room} (h : (data.drop index).length ≤ room.symbols) :
    encode data index room = (data.drop index, 0, ⟨true, room.full⟩) := if_pos h

theorem encode_stopped {room : Room} (h : room.symbols < (data.drop index).length) :
    encode data index room =
      ((data.drop index).take room.symbols, index + room.symbols, ⟨false, true⟩) :=
  if_neg (Nat.not_le_of_lt h)

theorem encodeAll_full (h : (data.drop index).length ≤ (rooms 0).symbols)
    (full : (rooms 0).full = true) :
    encodeAll (data :: later) index rooms =
      ⟨data.drop index, later, 0, ⟨later.isEmpty, true⟩⟩ := by
  simp only [encodeAll, encode_done h, full, if_true]

theorem encodeAll_on (h : (data.drop index).length ≤ (rooms 0).symbols)
    (full : (rooms 0).full = false) :
    encodeAll (data :: later) index rooms =
      { encodeAll later 0 fun i => rooms (i + 1) with
        emitted := data.drop index ++ (encodeAll later 0 fun i => rooms (i + 1)).emitted } := by
  simp only [encodeAll, encode_done h, full, if_true, Bool.false_eq_true, if_false]

theorem encodeAll_stopped (h : (rooms 0).symbols < (data.drop index).length) :
    encodeAll (data :: later) index rooms =
      ⟨(data.drop index).take (rooms 0).symbols, data :: later, index + (rooms 0).symbols,
        ⟨false, true⟩⟩ := by
  simp only [encodeAll, encode_stopped h, Bool.false_eq_true, if_false]

end Array

/-- What a call leaves behind. -/
structure Advances (todo : List (List α)) (index : ℕ) (p : Progress α) : Prop where
  left : p.todo <:+ todo
  emitted : pending todo index = p.emitted ++ pending p.todo p.index
  stopped : p.session.complete = false → Busy p.todo p.index
  complete : p.session.complete = true → p.todo = [] ∧ p.index = 0

theorem encodeAll_advances (todo : List (List α)) (index : ℕ) (rooms : ℕ → Room)
    (nonempty : ∀ data ∈ todo, data ≠ []) (start : todo = [] → index = 0) :
    Advances todo index (encodeAll todo index rooms) := by
  induction todo generalizing index rooms with
  | nil =>
      refine ⟨List.suffix_refl _, rfl, fun stopped => ?_, fun _ => ⟨rfl, start rfl⟩⟩
      cases stopped
  | cons data later ih =>
      have hboth := List.forall_mem_cons.mp nonempty
      by_cases fits : (data.drop index).length ≤ (rooms 0).symbols
      · cases hfull : (rooms 0).full with
        | true =>
            rw [encodeAll_full fits hfull]
            refine ⟨List.suffix_cons _ _, ?_, fun stopped => ?_,
              fun complete => ⟨List.isEmpty_iff.mp complete, rfl⟩⟩
            · rw [pending_zero]
              rfl
            · cases later with
              | nil => cases stopped
              | cons next later =>
                  have hnext := hboth.2 next List.mem_cons_self
                  exact ⟨hboth.2, next, later, rfl, List.length_pos_iff.mpr hnext⟩
        | false =>
            have hrest := ih 0 (fun i => rooms (i + 1)) hboth.2 fun _ => rfl
            have hemitted := hrest.emitted
            rw [pending_zero] at hemitted
            rw [encodeAll_on fits hfull]
            refine ⟨hrest.left.trans (List.suffix_cons _ _), ?_, hrest.stopped, hrest.complete⟩
            rw [List.append_assoc, ← hemitted]
            rfl
      · have hstop := Nat.lt_of_not_le fits
        rw [encodeAll_stopped hstop]
        refine ⟨List.suffix_refl _, ?_, fun _ => ⟨nonempty, data, later, rfl, ?_⟩,
          fun complete => ?_⟩
        · simp only [pending]
          rw [← List.append_assoc, ← List.drop_drop, List.take_append_drop]
        · rw [List.length_drop] at hstop
          simp only
          omega
        · cases complete

theorem Busy.start {todo : List (List α)} {index : ℕ} (busy : Busy todo index) :
    todo = [] → index = 0 := by
  obtain ⟨-, data, later, rfl, -⟩ := busy
  rintro ⟨⟩

theorem Busy.pending_ne {todo : List (List α)} {index : ℕ} (busy : Busy todo index) :
    pending todo index ≠ [] := by
  obtain ⟨-, data, later, rfl, inside⟩ := busy
  intro none
  have hlength := congrArg List.length none
  rw [pending, List.length_append, List.length_drop, List.length_nil] at hlength
  omega

/-- However often it stopped, nothing was lost and nothing was emitted twice. -/
theorem encodeCalls_advances {todo : List (List α)} {index : ℕ} (busy : Busy todo index)
    (calls : List (ℕ → Room)) : Advances todo index (encodeCalls todo index calls) := by
  induction calls generalizing todo index with
  | nil =>
      refine ⟨List.suffix_refl _, rfl, fun _ => busy, fun complete => ?_⟩
      cases complete
  | cons rooms calls ih =>
      have hnow := encodeAll_advances todo index rooms busy.1 busy.start
      rw [encodeCalls]
      split
      · exact hnow
      · rename_i running
        have hrest := ih (hnow.stopped (Bool.eq_false_iff.mpr running))
        refine ⟨hrest.left.trans hnow.left, ?_, hrest.stopped, hrest.complete⟩
        rw [List.append_assoc, ← hrest.emitted, ← hnow.emitted]

theorem encodeCalls_complete {todo : List (List α)} {index : ℕ} (busy : Busy todo index)
    {calls : List (ℕ → Room)} (complete : (encodeCalls todo index calls).session.complete = true) :
    (encodeCalls todo index calls).emitted = pending todo index := by
  have hall := encodeCalls_advances busy calls
  rw [hall.emitted, (hall.complete complete).1, pending, List.append_nil]

/-- A call that finds room somewhere emits something. -/
theorem encodeAll_emits {todo : List (List α)} {index : ℕ} (busy : Busy todo index)
    {rooms : ℕ → Room} (room : 0 < (rooms 0).symbols) :
    0 < (encodeAll todo index rooms).emitted.length := by
  obtain ⟨-, data, later, rfl, inside⟩ := busy
  have hdue : 0 < (data.drop index).length := by
    rw [List.length_drop]
    omega
  by_cases fits : (data.drop index).length ≤ (rooms 0).symbols
  · cases hfull : (rooms 0).full with
    | true =>
        rw [encodeAll_full fits hfull]
        exact hdue
    | false =>
        rw [encodeAll_on fits hfull, List.length_append]
        omega
  · rw [encodeAll_stopped (Nat.lt_of_not_le fits), List.length_take]
    exact Nat.lt_min.mpr ⟨room, hdue⟩

/-- As many calls as there are symbols are enough if each finds room for one. -/
theorem encodeCalls_finishes {todo : List (List α)} {index : ℕ} (busy : Busy todo index)
    {calls : List (ℕ → Room)} (enough : (pending todo index).length ≤ calls.length)
    (rooms : ∀ r ∈ calls, 0 < (r 0).symbols) :
    (encodeCalls todo index calls).session.complete = true := by
  induction calls generalizing todo index with
  | nil => exact absurd (List.eq_nil_of_length_eq_zero (Nat.le_zero.mp enough)) busy.pending_ne
  | cons r calls ih =>
      have hnow := encodeAll_advances todo index r busy.1 busy.start
      have hboth := List.forall_mem_cons.mp rooms
      have hsome := encodeAll_emits busy hboth.1
      rw [encodeCalls]
      split
      · assumption
      · rename_i running
        refine ih (hnow.stopped (Bool.eq_false_iff.mpr running)) ?_ hboth.2
        rw [hnow.emitted, List.length_append, List.length_cons] at enough
        omega

end StagedEmission
