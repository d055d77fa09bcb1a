/- Strings of C on a heap. A text ends at its first NUL, a block is live until it is freed, and a
   misuse of a block is logged while execution goes on with the bytes still in place. -/
import Mathlib.Data.List.TakeWhile

namespace StringHeap

/-- A text; it never contains the terminator. -/
abbrev CString := { bytes : List UInt8 // 0 ∉ bytes }

/-- What is read at a place in memory, up to the first terminator. -/
def textOf (memory : List UInt8) : CString :=
  ⟨memory.takeWhile (· != 0), fun member => by simpa using List.mem_takeWhile_imp member⟩

def ofChars (cs : List Char) : CString := textOf (cs.map fun c => UInt8.ofNat c.toNat)

def ofString (s : String) : CString := ofChars s.toList

namespace CString

/-- The bytes that hold a text in memory. -/
def stored (t : CString) : List UInt8 := t.1 ++ [0]

/-- The beginning of a text, as a bounded `snprintf` leaves it. -/
def truncate (t : CString) (n : ℕ) : CString :=
  ⟨t.1.take n, fun member => t.2 (List.mem_of_mem_take member)⟩

instance : Append CString :=
  ⟨fun s t => ⟨s.1 ++ t.1, fun member => (List.mem_append.mp member).elim s.2 t.2⟩⟩

end CString

theorem append_bytes (s t : CString) : (s ++ t).1 = s.1 ++ t.1 := rfl

theorem textOf_bytes (t : CString) : textOf t.1 = t := by
  refine Subtype.ext (List.takeWhile_eq_self_iff.mpr ?_)
  intro b member
  exact bne_iff_ne.mpr fun same => t.2 (same ▸ member)

theorem textOf_terminated (t : CString) (rest : List UInt8) : textOf (t.1 ++ 0 :: rest) = t := by
  apply Subtype.ext
  have hpass : ∀ b ∈ t.1, (b != 0) = true := by
    intro b member
    exact bne_iff_ne.mpr fun same => t.2 (same ▸ member)
  simp only [textOf]
  rw [List.takeWhile_append_of_pos hpass, List.takeWhile_cons_of_neg (by simp), List.append_nil]

theorem textOf_zeros (t : CString) {n : ℕ} (h : 0 < n) :
    textOf (t.1 ++ List.replicate n 0) = t := by
  obtain ⟨m, rfl⟩ := Nat.exists_eq_succ_of_ne_zero (Nat.pos_iff_ne_zero.mp h)
  exact textOf_terminated t _

/-- A bounded copy sees the same text as a bounded piece of the source. -/
theorem textOf_truncate (memory : List UInt8) (n : ℕ) :
    (textOf memory).truncate n = textOf (memory.take n) := by
  apply Subtype.ext
  exact List.take_takeWhile

/-- Bytes are replaced in place; the others stay. -/
def overwrite (memory : List UInt8) (offset : ℕ) (xs : List UInt8) : List UInt8 :=
  memory.take offset ++ xs ++ memory.drop (offset + xs.length)

theorem length_overwrite {memory xs : List UInt8} {offset : ℕ}
    (inside : offset + xs.length ≤ memory.length) :
    (overwrite memory offset xs).length = memory.length := by
  simp only [overwrite, List.length_append, List.length_take, List.length_drop]
  omega

theorem textOf_overwrite (memory : List UInt8) (t : CString) :
    textOf (overwrite memory 0 t.stored) = t := by
  simp only [overwrite, CString.stored, List.take_zero, List.nil_append, List.append_assoc,
    List.singleton_append]
  exact textOf_terminated t _

/-- A null pointer is `none`. -/
abbrev Ptr := Option ℕ

inductive Fault where
  | nullAccess
  | useAfterFree (block : ℕ)
  | doubleFree (block : ℕ)
  | outOfBounds (block index : ℕ)
  deriving DecidableEq, Repr

def Fault.isLifetime : Fault → Bool
  | .useAfterFree _ | .doubleFree _ => true
  | .nullAccess | .outOfBounds _ _ => false

structure Block where
  bytes : List UInt8
  live : Bool
  deriving DecidableEq, Repr

/-- Blocks in the order in which they were obtained, the number of requests for one, and the
faults so far. -/
structure Heap where
  blocks : List Block
  requests : ℕ
  faults : List Fault
  deriving DecidableEq, Repr

namespace Heap

/-- An address that was never handed out counts as freed. -/
def blockAt (h : Heap) (p : ℕ) : Block := h.blocks.getD p ⟨[], false⟩

def report (h : Heap) (f : Fault) : Heap := { h with faults := h.faults ++ [f] }

def push (h : Heap) (b : Block) : Heap := { h with blocks := h.blocks ++ [b] }

def request (h : Heap) : Heap := { h with requests := h.requests + 1 }

/-- The requests that are granted are those that `grants` selects by their number. -/
def calloc (h : Heap) (grants : ℕ → Bool) (n : ℕ) : Ptr × Heap :=
  if grants h.requests then (some h.blocks.length, h.request.push ⟨List.replicate n 0, true⟩)
  else (none, h.request)

def free (h : Heap) : Ptr → Heap
  | none => h
  | some p =>
      if (h.blockAt p).live then
        { h with blocks := h.blocks.set p { h.blockAt p with live := false } }
      else h.report (.doubleFree p)

/-- Reading the text at a pointer. -/
def read (h : Heap) : Ptr → CString × Heap
  | none => (textOf [], h.report .nullAccess)
  | some p =>
      (textOf (h.blockAt p).bytes,
        if (h.blockAt p).live then h else h.report (.useAfterFree p))

def write (h : Heap) (offset : ℕ) (xs : List UInt8) : Ptr → Heap
  | none => h.report .nullAccess
  | some p =>
      let b := h.blockAt p
      if b.live then
        if offset + xs.length ≤ b.bytes.length then
          { h with blocks := h.blocks.set p { b with bytes := overwrite b.bytes offset xs } }
        else h.report (.outOfBounds p (max offset b.bytes.length))
      else h.report (.useAfterFree p)

/-- Each string ever obtained: what it reads as, and whether it is still live. -/
def view (h : Heap) : List (CString × Bool) := h.blocks.map fun b => (textOf b.bytes, b.live)

def lifetimeFaults (h : Heap) : List Fault := h.faults.filter Fault.isLifetime

/-- How often a null pointer has been read or written through. -/
def nulls (h : Heap) : ℕ := h.faults.count .nullAccess

/-- No string is used or freed after it was freed, and every string obtained since is freed. -/
def Disciplined (base h : Heap) : Prop :=
  h.lifetimeFaults = base.lifetimeFaults ∧
    ∀ b ∈ h.blocks.drop base.blocks.length, b.live = false

instance (base h : Heap) : Decidable (Disciplined base h) := inferInstanceAs (Decidable (_ ∧ _))

@[simp] theorem length_view (h : Heap) : h.view.length = h.blocks.length := List.length_map _

theorem blockAt_push (h : Heap) (b : Block) : (h.push b).blockAt h.blocks.length = b := by
  simp [blockAt, push]

theorem calloc_granted {h : Heap} {grants : ℕ → Bool} (granted : grants h.requests = true) (n : ℕ) :
    h.calloc grants n =
      (some h.request.blocks.length, h.request.push ⟨List.replicate n 0, true⟩) := if_pos granted

/-- The newest block, filled from its beginning. -/
theorem write_new (h : Heap) {t : CString} {n : ℕ} (fits : t.1.length < n) :
    (h.push ⟨List.replicate n 0, true⟩).write 0 t.stored (some h.blocks.length) =
      h.push ⟨t.1 ++ List.replicate (n - t.1.length) 0, true⟩ := by
  have hroom : 0 + t.stored.length ≤ n := by
    simp only [CString.stored, List.length_append, List.length_singleton]
    omega
  have hbytes : overwrite (List.replicate n 0) 0 t.stored =
      t.1 ++ List.replicate (n - t.1.length) 0 := by
    have hsplit : n - t.1.length = (n - (t.1.length + 1)) + 1 := by omega
    simp only [overwrite, CString.stored, List.take_zero, List.nil_append, List.length_append,
      List.length_singleton, Nat.zero_add, List.drop_replicate, List.append_assoc,
      List.singleton_append]
    rw [hsplit, List.replicate_succ]
  simp only [write, blockAt_push, List.length_replicate, if_pos hroom, hbytes]
  simp [push]

/-- A store one past the end of the newest block is noticed and lost. -/
theorem write_past (h : Heap) {b : Block} (live : b.live = true) {n : ℕ} (size : b.bytes.length = n)
    (x : UInt8) :
    (h.push b).write n [x] (some h.blocks.length) =
      (h.push b).report (.outOfBounds h.blocks.length n) := by
  have hout : ¬ n + [x].length ≤ n := by simp
  simp only [write, blockAt_push, live, if_true, size, if_neg hout, max_self]

/-- A bounded copy into the newest block, followed by a store one past its end. -/
theorem copy_past (h : Heap) (t : CString) (n : ℕ) (x : UInt8) :
    ((h.push ⟨List.replicate (n + 1) 0, true⟩).write 0 (t.truncate n).stored
        (some h.blocks.length)).write (n + 1) [x] (some h.blocks.length) =
      (h.push ⟨(t.truncate n).1 ++ List.replicate (n + 1 - (t.truncate n).1.length) 0, true⟩).report
        (.outOfBounds h.blocks.length (n + 1)) := by
  have hfits : (t.truncate n).1.length < n + 1 := Nat.lt_succ_of_le (List.length_take_le n _)
  rw [write_new _ hfits, write_past _ rfl]
  rw [List.length_append, List.length_replicate]
  omega

/-! Null pointers and requests: what each operation adds to their numbers. -/

theorem nulls_report (h : Heap) (f : Fault) :
    (h.report f).nulls = h.nulls + if f = .nullAccess then 1 else 0 := by
  rw [nulls, report, List.count_append, List.count_singleton]
  simp only [beq_iff_eq, nulls]

@[simp] theorem nulls_calloc (h : Heap) (grants : ℕ → Bool) (n : ℕ) :
    (h.calloc grants n).2.nulls = h.nulls := by
  rw [calloc]
  split <;> rfl

@[simp] theorem requests_calloc (h : Heap) (grants : ℕ → Bool) (n : ℕ) :
    (h.calloc grants n).2.requests = h.requests + 1 := by
  rw [calloc]
  split <;> rfl

theorem calloc_eq_none {h : Heap} {grants : ℕ → Bool} {n : ℕ} :
    (h.calloc grants n).1 = none ↔ grants h.requests = false := by
  rw [calloc]
  split
  · simp_all
  · simp_all

@[simp] theorem nulls_free (h : Heap) (p : Ptr) : (h.free p).nulls = h.nulls := by
  cases p with
  | none => rfl
  | some p =>
      rw [free]
      split
      · rfl
      · rw [nulls_report, if_neg (by simp), Nat.add_zero]

@[simp] theorem requests_free (h : Heap) (p : Ptr) : (h.free p).requests = h.requests := by
  cases p with
  | none => rfl
  | some p =>
      rw [free]
      split <;> rfl

@[simp] theorem nulls_read (h : Heap) (p : Ptr) :
    (h.read p).2.nulls = h.nulls + if p = none then 1 else 0 := by
  cases p with
  | none => exact nulls_report h _
  | some p =>
      simp only [read]
      split
      · rfl
      · exact nulls_report h _

@[simp] theorem requests_read (h : Heap) (p : Ptr) : (h.read p).2.requests = h.requests := by
  cases p with
  | none => rfl
  | some p =>
      simp only [read]
      split <;> rfl

@[simp] theorem nulls_write (h : Heap) (offset : ℕ) (xs : List UInt8) (p : Ptr) :
    (h.write offset xs p).nulls = h.nulls + if p = none then 1 else 0 := by
  cases p with
  | none => exact nulls_report h _
  | some p =>
      simp only [write]
      split
      · split
        · rfl
        · exact nulls_report h _
      · exact nulls_report h _

@[simp] theorem requests_write (h : Heap) (offset : ℕ) (xs : List UInt8) (p : Ptr) :
    (h.write offset xs p).requests = h.requests := by
  cases p with
  | none => rfl
  | some p =>
      simp only [write]
      split
      · split <;> rfl
      · rfl

/-! What has happened to the strings since an earlier heap. -/

/-- The strings `es` were obtained since `base`, and the misuses `fs` of freed strings occurred. -/
structure Since (base : Heap) (es : List (CString × Bool)) (fs : List Fault) (h : Heap) :
    Prop where
  view : h.view = base.view ++ es
  faults : h.lifetimeFaults = base.lifetimeFaults ++ fs

variable {base h : Heap} {es : List (CString × Bool)} {fs : List Fault}

theorem Since.refl (h : Heap) : Since h [] [] h :=
  ⟨(List.append_nil _).symm, (List.append_nil _).symm⟩

theorem Since.length (s : Since base es fs h) :
    h.blocks.length = base.blocks.length + es.length := by
  rw [← length_view, s.view, List.length_append, length_view]

theorem Since.request (s : Since base es fs h) : Since base es fs h.request := ⟨s.view, s.faults⟩

theorem Since.push (s : Since base es fs h) (bytes : List UInt8) (live : Bool) :
    Since base (es ++ [(textOf bytes, live)]) fs (h.push ⟨bytes, live⟩) := by
  refine ⟨?_, s.faults⟩
  have hview : (h.push ⟨bytes, live⟩).view = h.view ++ [(textOf bytes, live)] := List.map_append
  rw [hview, s.view, List.append_assoc]

theorem Since.report (s : Since base es fs h) {f : Fault} (other : f.isLifetime = false) :
    Since base es fs (h.report f) := by
  refine ⟨s.view, ?_⟩
  have hsame : (h.report f).lifetimeFaults = h.lifetimeFaults := by
    simp [lifetimeFaults, Heap.report, List.filter_append, other]
  rw [hsame, s.faults]

theorem Since.report_lifetime (s : Since base es fs h) {f : Fault} (misuse : f.isLifetime = true) :
    Since base es (fs ++ [f]) (h.report f) := by
  refine ⟨s.view, ?_⟩
  have hnext : (h.report f).lifetimeFaults = h.lifetimeFaults ++ [f] := by
    simp [lifetimeFaults, Heap.report, List.filter_append, misuse]
  rw [hnext, s.faults, List.append_assoc]

/-- A new block, zeroed and without a text yet. -/
theorem Since.calloc (s : Since base es fs h) {grants : ℕ → Bool}
    (granted : grants h.requests = true) (n : ℕ) :
    (h.calloc grants n).1 = some (base.blocks.length + es.length) ∧
      Since base (es ++ [(textOf (List.replicate n 0), true)]) fs (h.calloc grants n).2 := by
  rw [calloc_granted granted]
  exact ⟨congrArg some s.request.length, s.request.push _ _⟩

/-- A new block with a text copied into it, cut to the size of the block. -/
theorem Since.copied (s : Since base es fs h) {grants : ℕ → Bool}
    (granted : grants h.requests = true) (t : CString) (n : ℕ) :
    Since base (es ++ [(t.truncate n, true)]) fs
      ((h.calloc grants (n + 1)).2.write 0 (t.truncate n).stored
        (some (base.blocks.length + es.length))) := by
  have hfits : (t.truncate n).1.length < n + 1 := Nat.lt_succ_of_le (List.length_take_le n _)
  rw [calloc_granted granted, ← s.request.length, write_new _ hfits]
  have hpush := s.request.push
    ((t.truncate n).1 ++ List.replicate (n + 1 - (t.truncate n).1.length) 0) true
  rwa [textOf_zeros _ (Nat.sub_pos_of_lt hfits)] at hpush

/-- The same, followed by a store one past the end. -/
theorem Since.copied_past (s : Since base es fs h) {grants : ℕ → Bool}
    (granted : grants h.requests = true) (t : CString) (n : ℕ) (x : UInt8) :
    Since base (es ++ [(t.truncate n, true)]) fs
      (((h.calloc grants (n + 1)).2.write 0 (t.truncate n).stored
        (some (base.blocks.length + es.length))).write (n + 1) [x]
        (some (base.blocks.length + es.length))) := by
  have hcopied := s.copied granted t n
  have hfits : (t.truncate n).1.length < n + 1 := Nat.lt_succ_of_le (List.length_take_le n _)
  rw [calloc_granted granted, ← s.request.length] at hcopied ⊢
  rw [write_new _ hfits] at hcopied
  rw [copy_past]
  exact hcopied.report rfl

section Entry

variable {rest : List (CString × Bool)} {t : CString}

/-- A string obtained since `base` is found at its address. -/
theorem Since.blockAt {live : Bool} (s : Since base (es ++ (t, live) :: rest) fs h) :
    textOf (h.blockAt (base.blocks.length + es.length)).bytes = t ∧
      (h.blockAt (base.blocks.length + es.length)).live = live := by
  have hcell : h.view[base.blocks.length + es.length]? = some (t, live) := by
    rw [s.view, ← length_view, ← List.length_append, ← List.append_assoc,
      List.getElem?_append_right (le_refl _), Nat.sub_self, List.getElem?_cons_zero]
  simp only [Heap.view, List.getElem?_map, Option.map_eq_some_iff] at hcell
  obtain ⟨b, hb, hentry⟩ := hcell
  have hblock : h.blockAt (base.blocks.length + es.length) = b := by
    rw [Heap.blockAt, List.getD_eq_getElem?_getD, hb, Option.getD_some]
  rw [hblock]
  exact Prod.mk.inj hentry

variable (es)

theorem Since.read_live (s : Since base (es ++ (t, true) :: rest) fs h) :
    h.read (some (base.blocks.length + es.length)) = (t, h) := by
  obtain ⟨htext, hlive⟩ := s.blockAt
  simp [read, htext, hlive]

/-- A freed string still reads as its old text, but the use is a fault. -/
theorem Since.read_freed (s : Since base (es ++ (t, false) :: rest) fs h) :
    h.read (some (base.blocks.length + es.length)) =
      (t, h.report (.useAfterFree (base.blocks.length + es.length))) := by
  obtain ⟨htext, hlive⟩ := s.blockAt
  simp [read, htext, hlive]

theorem Since.free (s : Since base (es ++ (t, true) :: rest) fs h) :
    Since base (es ++ (t, false) :: rest) fs
      (h.free (some (base.blocks.length + es.length))) := by
  obtain ⟨htext, hlive⟩ := s.blockAt
  have hview := s.view
  simp only [Heap.free, hlive, if_true]
  refine ⟨?_, s.faults⟩
  simp only [Heap.view, List.map_set] at hview ⊢
  rw [htext, hview, ← List.append_assoc, ← List.append_assoc,
    List.set_append_right _ _ (by simp)]
  simp

/-- The string after it is found one address further. -/
theorem Since.read_second {e : CString × Bool}
    (s : Since base (es ++ e :: (t, true) :: rest) fs h) :
    h.read (some (base.blocks.length + es.length + 1)) = (t, h) := by
  rw [List.append_cons] at s
  have hread := s.read_live
  rwa [List.length_append, List.length_singleton] at hread

theorem Since.free_second {e : CString × Bool}
    (s : Since base (es ++ e :: (t, true) :: rest) fs h) :
    Since base (es ++ e :: (t, false) :: rest) fs
      (h.free (some (base.blocks.length + es.length + 1))) := by
  rw [List.append_cons] at s ⊢
  have hfree := s.free
  rwa [List.length_append, List.length_singleton] at hfree

end Entry

theorem Since.disciplined_iff (s : Since base es fs h) :
    Disciplined base h ↔ fs = [] ∧ ∀ e ∈ es, e.2 = false := by
  have hdrop : (h.blocks.drop base.blocks.length).map (fun b => (textOf b.bytes, b.live)) = es := by
    have hview := s.view
    rw [Heap.view] at hview
    rw [List.map_drop, hview, List.drop_left' (length_view base)]
  refine and_congr ?_ ?_
  · rw [s.faults, List.append_right_eq_self]
  · rw [← hdrop, List.forall_mem_map]

/-! Which strings there are, and how many. -/

/-- The strings among `es` that have not been freed, in the order in which they were obtained. -/
def liveOf (es : List (CString × Bool)) : List CString := (es.filter Prod.snd).map Prod.fst

theorem liveOf_append (es fs : List (CString × Bool)) :
    liveOf (es ++ fs) = liveOf es ++ liveOf fs := by
  rw [liveOf, List.filter_append, List.map_append, liveOf, liveOf]

theorem liveOf_freed (freed : ∀ e ∈ es, e.2 = false) : liveOf es = [] := by
  rw [liveOf, List.map_eq_nil_iff, List.filter_eq_nil_iff]
  intro e member
  rw [freed e member]
  exact Bool.false_ne_true

def liveTexts (h : Heap) : List CString := liveOf h.view

/-- Blocks that have not been freed. -/
def liveBlocks (h : Heap) : ℕ := h.blocks.countP Block.live

theorem liveBlocks_eq (h : Heap) : h.liveBlocks = h.liveTexts.length := by
  have hview : h.liveBlocks = h.view.countP Prod.snd := by
    rw [liveBlocks, view, List.countP_map]
    rfl
  rw [hview, liveTexts, liveOf, List.length_map, List.countP_eq_length_filter]

theorem Since.liveTexts (s : Since base es fs h) : h.liveTexts = base.liveTexts ++ liveOf es := by
  rw [Heap.liveTexts, s.view, liveOf_append, Heap.liveTexts]

end Heap

end StringHeap
