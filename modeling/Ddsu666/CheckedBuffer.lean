/- Arrays of C with every access checked: a read or a write past the end, and a read of a cell
   that was never written, are faults rather than values. -/
import Mathlib.Data.List.Basic

namespace CheckedBuffer

inductive Fault where
  | outOfBounds (index size : Nat)
  | uninitialised (index : Nat)
  deriving DecidableEq, Repr

/-- A cell that was never written holds nothing. -/
abbrev Buffer (α : Type*) := List (Option α)

variable {α : Type*}

def load (b : Buffer α) (i : Nat) : Except Fault α :=
  match b[i]? with
  | none => .error (.outOfBounds i b.length)
  | some none => .error (.uninitialised i)
  | some (some v) => .ok v

def store (b : Buffer α) (i : Nat) (v : α) : Except Fault (Buffer α) :=
  if i < b.length then .ok (b.set i (some v)) else .error (.outOfBounds i b.length)

/-- An array with automatic or heap storage before its first write. -/
def fresh (n : Nat) : Buffer α := List.replicate n none

/-- `for (i = first; i < first + n; i++) dst[i] = src[i];` -/
def copyLoop (src : Buffer α) : Buffer α → Nat → Nat → Except Fault (Buffer α)
  | dst, _, 0 => .ok dst
  | dst, first, n + 1 => do
      let v ← load src first
      let dst ← store dst first v
      copyLoop src dst (first + 1) n

/-- Stores at one index after another. -/
def storeAll (b : Buffer α) : Nat → List α → Except Fault (Buffer α)
  | _, [] => .ok b
  | i, v :: vs => do
      let b ← store b i v
      storeAll b (i + 1) vs

/-- The `n` values from `first` on. -/
def loads (b : Buffer α) : Nat → Nat → Except Fault (List α)
  | _, 0 => .ok []
  | first, n + 1 => do
      let v ← load b first
      let vs ← loads b (first + 1) n
      return v :: vs

/-- `while ((dst[i] = src[i]) != stop) i++;` on what is left of the source. -/
def copyUntil [DecidableEq α] (stop : α) :
    Buffer α → Nat → Buffer α → Except Fault (Buffer α)
  | [], i, _ => .error (.outOfBounds i i)
  | none :: _, i, _ => .error (.uninitialised i)
  | some v :: src, i, dst => do
      let dst ← store dst i v
      if v = stop then return dst else copyUntil stop src (i + 1) dst

/-- The values up to the first `stop`, as a reader that does not know the size finds them. -/
def loadsUntil [DecidableEq α] (stop : α) : Buffer α → Nat → Except Fault (List α)
  | [], i => .error (.outOfBounds i i)
  | none :: _, i => .error (.uninitialised i)
  | some v :: src, i => do
      if v = stop then return []
      let vs ← loadsUntil stop src (i + 1)
      return v :: vs

/-- The buffer begins with these values; what lies behind them is left open. -/
def Holds (b : Buffer α) (xs : List α) : Prop := ∃ rest, b = xs.map some ++ rest

@[simp] theorem length_fresh (n : Nat) : (fresh n : Buffer α).length = n := List.length_replicate

theorem holds_map (xs : List α) : Holds (xs.map some) xs := ⟨[], (List.append_nil _).symm⟩

theorem Holds.initial {b : Buffer α} {xs ys : List α} (h : Holds b (xs ++ ys)) : Holds b xs := by
  obtain ⟨rest, rfl⟩ := h
  exact ⟨ys.map some ++ rest, by rw [List.map_append, List.append_assoc]⟩

theorem Holds.load {b : Buffer α} {xs : List α} (h : Holds b xs) {i : Nat} (hi : i < xs.length) :
    load b i = .ok xs[i] := by
  obtain ⟨rest, rfl⟩ := h
  have hcell : (xs.map some ++ rest)[i]? = some (some xs[i]) := by
    rw [List.getElem?_append_left (by simpa using hi)]
    simp [hi]
  simp only [CheckedBuffer.load, hcell]

theorem Holds.store {b : Buffer α} {xs : List α} (h : Holds b xs) {i : Nat} (hi : i < xs.length)
    (v : α) : ∃ c, store b i v = .ok c ∧ Holds c (xs.set i v) ∧ c.length = b.length := by
  obtain ⟨rest, rfl⟩ := h
  refine ⟨(xs.map some ++ rest).set i (some v), ?_, ⟨rest, ?_⟩, List.length_set⟩
  · rw [CheckedBuffer.store, if_pos (by simp; omega)]
  · rw [List.set_append_left _ _ (by simpa using hi), List.map_set]

theorem loads_append {b : Buffer α} (done todo : List α) (h : Holds b (done ++ todo)) :
    loads b done.length todo.length = .ok todo := by
  induction todo generalizing done with
  | nil => rfl
  | cons v todo ih =>
      have hload : load b done.length = .ok v := by
        rw [h.load (by simp)]
        simp
      have hnext := ih (done ++ [v]) (by simpa using h)
      rw [List.length_append, List.length_singleton] at hnext
      simp only [List.length_cons, loads, hload, hnext]
      rfl

theorem Holds.loads {b : Buffer α} {xs : List α} (h : Holds b xs) :
    loads b 0 xs.length = .ok xs := loads_append [] xs h

theorem store_next {xs : List α} {v : α} {rest : Buffer α} (hrest : rest ≠ []) :
    store (xs.map some ++ rest) xs.length v = .ok ((xs ++ [v]).map some ++ rest.tail) := by
  obtain ⟨c, cs, rfl⟩ := List.exists_cons_of_ne_nil hrest
  simp [store]

theorem storeAll_next (done xs : List α) (rest : Buffer α) (room : xs.length ≤ rest.length) :
    storeAll (done.map some ++ rest) done.length xs =
      .ok ((done ++ xs).map some ++ rest.drop xs.length) := by
  induction xs generalizing done rest with
  | nil => rw [List.append_nil, List.length_nil, List.drop_zero, storeAll]
  | cons v xs ih =>
      rw [List.length_cons] at room
      have hne : rest ≠ [] := List.ne_nil_of_length_pos (by omega)
      have hnext := ih (done ++ [v]) rest.tail (by rw [List.length_tail]; omega)
      rw [List.length_append, List.length_singleton, List.append_assoc, List.singleton_append,
        List.drop_tail] at hnext
      simp only [storeAll, store_next hne]
      exact hnext

/-- The loop copies a held prefix into any buffer that is long enough, and faults nowhere. -/
theorem copyLoop_append {src : Buffer α} (done todo : List α) (h : Holds src (done ++ todo))
    (rest : Buffer α) (room : todo.length ≤ rest.length) :
    copyLoop src (done.map some ++ rest) done.length todo.length =
      .ok ((done ++ todo).map some ++ rest.drop todo.length) := by
  induction todo generalizing done rest with
  | nil => simp [copyLoop]
  | cons v todo ih =>
      have hload : load src done.length = .ok v := by
        rw [h.load (by simp)]
        simp
      have hne : rest ≠ [] := by
        rintro rfl
        simp at room
      have hroom : todo.length ≤ rest.tail.length := by
        simp only [List.length_cons, List.length_tail] at room ⊢
        omega
      have hnext := ih (done ++ [v]) (by simpa using h) rest.tail hroom
      simp only [List.length_append, List.length_singleton, List.append_assoc,
        List.singleton_append] at hnext
      simp only [List.length_cons, copyLoop, hload, store_next hne]
      refine hnext.trans ?_
      rw [List.drop_tail]

/-- The cells behind the copied prefix stay what they were. -/
theorem copyLoop_holds {src dst : Buffer α} {xs : List α} (h : Holds src xs)
    (room : xs.length ≤ dst.length) :
    copyLoop src dst 0 xs.length = .ok (xs.map some ++ dst.drop xs.length) :=
  copyLoop_append [] xs h dst room

theorem copyLoop_fresh {src : Buffer α} {xs : List α} (h : Holds src xs) {n : Nat}
    (room : xs.length ≤ n) :
    ∃ b, copyLoop src (fresh n) 0 xs.length = .ok b ∧ Holds b xs :=
  ⟨_, copyLoop_holds h (by simpa using room), ⟨_, rfl⟩⟩

/-- Copying more than the destination can take is noticed at its end. -/
theorem copyLoop_overflow {src : Buffer α} (done todo : List α) (h : Holds src (done ++ todo))
    (rest : Buffer α) (full : rest.length < todo.length) :
    ∃ i size, copyLoop src (done.map some ++ rest) done.length todo.length =
      .error (.outOfBounds i size) := by
  induction todo generalizing done rest with
  | nil => cases full
  | cons v todo ih =>
      have hload : load src done.length = .ok v := by
        rw [h.load (by simp)]
        simp
      cases rest with
      | nil =>
          refine ⟨done.length, done.length, ?_⟩
          simp [copyLoop, hload, store, bind, Except.bind]
      | cons c rest =>
          have hstore : store (done.map some ++ c :: rest) done.length v =
              .ok ((done ++ [v]).map some ++ rest) := store_next (List.cons_ne_nil c rest)
          obtain ⟨i, size, hnext⟩ := ih (done ++ [v]) (by simpa using h) rest (by simpa using full)
          rw [List.length_append, List.length_singleton] at hnext
          refine ⟨i, size, ?_⟩
          simp only [List.length_cons, copyLoop, hload, hstore, bind, Except.bind]
          exact hnext

section Terminated

variable [DecidableEq α] {stop : α}

theorem loadsUntil_append (xs : List α) (text : stop ∉ xs) (rest : Buffer α) (i : Nat) :
    loadsUntil stop (xs.map some ++ some stop :: rest) i = .ok xs := by
  induction xs generalizing i with
  | nil => exact if_pos rfl
  | cons v xs ih =>
      rw [List.mem_cons, not_or] at text
      simp only [List.map_cons, List.cons_append, loadsUntil, if_neg (Ne.symm text.1),
        ih text.2 (i + 1)]
      rfl

/-- The copy ends with the terminator, and the cells behind it stay what they were. -/
theorem copyUntil_append (done xs : List α) (text : stop ∉ xs) (rest : Buffer α)
    (room : Buffer α) (fits : xs.length < room.length) :
    copyUntil stop (xs.map some ++ some stop :: rest) done.length (done.map some ++ room) =
      .ok ((done ++ xs ++ [stop]).map some ++ room.drop (xs.length + 1)) := by
  induction xs generalizing done room with
  | nil =>
      have hne : room ≠ [] := List.ne_nil_of_length_pos fits
      simp only [List.map_nil, List.nil_append, copyUntil, store_next hne, List.append_nil,
        List.length_nil, Nat.zero_add, List.drop_one, if_true]
      rfl
  | cons v xs ih =>
      rw [List.mem_cons, not_or] at text
      rw [List.length_cons] at fits
      have hne : room ≠ [] := List.ne_nil_of_length_pos (by omega)
      have hnext := ih (done ++ [v]) text.2 room.tail (by rw [List.length_tail]; omega)
      rw [List.length_append, List.length_singleton, List.append_assoc done, List.singleton_append,
        List.drop_tail] at hnext
      simp only [List.map_cons, List.cons_append, copyUntil, store_next hne, bind, Except.bind,
        if_neg (Ne.symm text.1)]
      exact hnext

/-- A source without a terminator is left at its end at the latest. -/
theorem copyUntil_unterminated (xs : List α) (text : stop ∉ xs) (dst : Buffer α) (i : Nat) :
    ∃ f, copyUntil stop (xs.map some) i dst = .error f := by
  induction xs generalizing dst i with
  | nil => exact ⟨.outOfBounds i i, rfl⟩
  | cons v xs ih =>
      rw [List.mem_cons, not_or] at text
      by_cases inside : i < dst.length
      · obtain ⟨f, hf⟩ := ih text.2 (dst.set i (some v)) (i + 1)
        refine ⟨f, ?_⟩
        simp only [List.map_cons, copyUntil, store, if_pos inside, bind, Except.bind,
          if_neg (Ne.symm text.1)]
        exact hf
      · refine ⟨.outOfBounds i dst.length, ?_⟩
        simp only [List.map_cons, copyUntil, store, if_neg inside, bind, Except.bind]

end Terminated

end CheckedBuffer
