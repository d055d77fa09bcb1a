/- The copying routines of tools.c access by access: which bytes of the source are read, and which
   bytes of the new block are stored. -/
import Ddsu666.MqttHandler

namespace Ddsu666
open StringHeap

/-- A new block and the indices of the accesses so far; a store past its end is lost. -/
structure Copying where
  block : List UInt8
  reads : List ℕ
  stores : List ℕ
  deriving DecidableEq

/-- The argument of a `%s` is read up to its terminator, which is read as well. -/
def scan : List UInt8 → ℕ → List ℕ
  | [], i => [i]
  | b :: memory, i => if b = 0 then [i] else i :: scan memory (i + 1)

namespace Copying

def calloc (n : ℕ) : Copying := ⟨List.replicate n 0, [], []⟩

def store (c : Copying) (i : ℕ) (b : UInt8) : Copying :=
  { c with block := c.block.set i b, stores := c.stores ++ [i] }

def storeAll (c : Copying) : ℕ → List UInt8 → Copying
  | _, [] => c
  | i, b :: bs => (c.store i b).storeAll (i + 1) bs

/-- `snprintf(block, size, ..)` with the formatted text. -/
def snprintf (c : Copying) (size : ℕ) (t : CString) : Copying :=
  c.storeAll 0 (t.truncate (size - 1)).stored

/-- `snprintf(block, size, "%s", original)` -/
def snprintfString (c : Copying) (size : ℕ) (original : List UInt8) : Copying :=
  { c with reads := c.reads ++ scan original 0 }.snprintf size (textOf original)

def getLenStr (original : List UInt8) (len : ℕ) : Copying :=
  let len := len + 1
  let dest := calloc len
  let dest := dest.snprintfString len original
  dest.store len 0

def getChipId {F : Type} (P : Platform F) : Copying :=
  let macStrLen := 7
  let macStr := calloc macStrLen
  let macStr := macStr.snprintf macStrLen (chipIdText P)
  macStr.store macStrLen 0

theorem storeAll_stores (c : Copying) (i : ℕ) (bs : List UInt8) :
    (c.storeAll i bs).stores = c.stores ++ List.range' i bs.length := by
  induction bs generalizing c i with
  | nil => exact (List.append_nil _).symm
  | cons b bs ih =>
      rw [storeAll, ih, store, List.append_assoc, List.length_cons, List.range'_succ]
      rfl

theorem storeAll_reads (c : Copying) (i : ℕ) (bs : List UInt8) :
    (c.storeAll i bs).reads = c.reads := by
  induction bs generalizing c i with
  | nil => rfl
  | cons b bs ih => exact ih (c.store i b) (i + 1)

/-- Stores at consecutive places inside the block replace its bytes there. -/
theorem storeAll_block (c : Copying) (done : List UInt8) (bs rest : List UInt8)
    (hblock : c.block = done ++ rest) (room : bs.length ≤ rest.length) :
    (c.storeAll done.length bs).block = done ++ bs ++ rest.drop bs.length := by
  induction bs generalizing c done rest with
  | nil => simpa [storeAll] using hblock
  | cons b bs ih =>
      obtain ⟨x, rest, rfl⟩ : ∃ x xs, rest = x :: xs :=
        List.exists_cons_of_length_pos (by simp at room; omega)
      have hnext : (c.store done.length b).block = (done ++ [b]) ++ rest := by
        rw [store, hblock, List.set_append_right _ _ (le_refl _), Nat.sub_self, List.set_cons_zero,
          List.append_assoc, List.singleton_append]
      have hrest := ih _ (done ++ [b]) rest hnext (by simpa using room)
      rw [List.length_append, List.length_singleton] at hrest
      rw [storeAll, hrest]
      simp

theorem snprintf_reads (c : Copying) (size : ℕ) (t : CString) :
    (c.snprintf size t).reads = c.reads := storeAll_reads c 0 _

theorem snprintf_stores (c : Copying) (n : ℕ) (t : CString) :
    (c.snprintf (n + 1) t).stores =
      c.stores ++ List.range' 0 ((t.truncate n).1.length + 1) := by
  rw [snprintf, storeAll_stores, CString.stored, List.length_append, List.length_singleton,
    Nat.add_sub_cancel]

/-- A zeroed block after a bounded copy: the text, and zeros behind it. -/
theorem snprintf_block {c : Copying} {n : ℕ} (zeroed : c.block = List.replicate (n + 1) 0)
    (t : CString) :
    (c.snprintf (n + 1) t).block =
      (t.truncate n).1 ++ List.replicate (n + 1 - (t.truncate n).1.length) 0 := by
  have hfits : (t.truncate n).1.length ≤ n := List.length_take_le n _
  have hroom : (t.truncate n).stored.length ≤ (List.replicate (n + 1) (0 : UInt8)).length := by
    rw [CString.stored, List.length_append, List.length_singleton, List.length_replicate]
    omega
  have hall := storeAll_block c [] _ _ (by rw [List.nil_append, zeroed]) hroom
  have hsplit : n + 1 - (t.truncate n).1.length = n - (t.truncate n).1.length + 1 := by omega
  rw [List.length_nil] at hall
  rw [snprintf, Nat.add_sub_cancel, hall, CString.stored, List.drop_replicate, hsplit,
    List.replicate_succ, List.length_append, List.length_singleton, Nat.add_sub_add_right]
  simp

/-- A store behind the block is made, and lost. -/
theorem store_past {c : Copying} {n : ℕ} (size : c.block.length = n) (b : UInt8) :
    c.store n b = { c with stores := c.stores ++ [n] } := by
  rw [store, List.set_eq_of_length_le (by omega)]

/-- A bounded copy into a zeroed block, followed by a store one past its end. -/
theorem snprintf_store_past (reads : List ℕ) (n : ℕ) (t : CString) :
    ((⟨List.replicate (n + 1) 0, reads, []⟩ : Copying).snprintf (n + 1) t).store (n + 1) 0 =
      ⟨(t.truncate n).1 ++ List.replicate (n + 1 - (t.truncate n).1.length) 0, reads,
        List.range' 0 ((t.truncate n).1.length + 1) ++ [n + 1]⟩ := by
  have hfits : (t.truncate n).1.length ≤ n := List.length_take_le n _
  have hblock := snprintf_block (c := ⟨List.replicate (n + 1) 0, reads, []⟩) rfl t
  have hstores := snprintf_stores ⟨List.replicate (n + 1) 0, reads, []⟩ n t
  have hreads := snprintf_reads ⟨List.replicate (n + 1) 0, reads, []⟩ (n + 1) t
  have hsize : ((⟨List.replicate (n + 1) 0, reads, []⟩ : Copying).snprintf (n + 1) t).block.length =
      n + 1 := by
    rw [hblock, List.length_append, List.length_replicate]
    omega
  rw [store_past hsize, hblock, hstores, hreads, List.nil_append]

end Copying

/-- To find the end of a text every byte of it is read, and then one more. -/
theorem scan_text (t : CString) (rest : List UInt8) :
    ∃ later, scan (t.1 ++ rest) 0 = List.range' 0 (t.1.length + 1) ++ later := by
  have hscan : ∀ (bs : List UInt8) (i : ℕ), 0 ∉ bs →
      ∃ later, scan (bs ++ rest) i = List.range' i (bs.length + 1) ++ later := by
    intro bs
    induction bs with
    | nil =>
        intro i _
        cases rest with
        | nil => exact ⟨[], rfl⟩
        | cons b rest =>
            by_cases hb : b = 0
            · exact ⟨[], by simp [scan, hb]⟩
            · exact ⟨scan rest (i + 1), by simp [scan, hb]⟩
    | cons b bs ih =>
        intro i text
        rw [List.mem_cons, not_or] at text
        obtain ⟨later, hlater⟩ := ih (i + 1) text.2
        have hrange : List.range' i ((b :: bs).length + 1) =
            i :: List.range' (i + 1) (bs.length + 1) := List.range'_succ
        refine ⟨later, ?_⟩
        rw [List.cons_append, scan, if_neg (Ne.symm text.1), hlater, hrange, List.cons_append]
  exact hscan t.1 0 t.2

section Routines

variable {F : Type}

/-- The block of `get_len_str` holds the text; the stores reach one byte further than the block. -/
theorem getLenStr_copying (original : List UInt8) (len : ℕ) :
    Copying.getLenStr original len =
      ⟨(textOf (original.take len)).1 ++
          List.replicate (len + 1 - (textOf (original.take len)).1.length) 0,
        scan original 0,
        List.range' 0 ((textOf (original.take len)).1.length + 1) ++ [len + 1]⟩ := by
  rw [← textOf_truncate]
  exact Copying.snprintf_store_past (scan original 0) len (textOf original)

theorem getChipId_copying (P : Platform F) :
    Copying.getChipId P =
      ⟨((chipIdText P).truncate 6).1 ++
          List.replicate (6 + 1 - ((chipIdText P).truncate 6).1.length) 0,
        [], List.range' 0 (((chipIdText P).truncate 6).1.length + 1) ++ [6 + 1]⟩ :=
  Copying.snprintf_store_past [] 6 (chipIdText P)

/-- The handler works on the same blocks, and each store outside is one of its faults. -/
structure SameAccesses (c : Copying) (h h' : Heap) : Prop where
  blocks : h'.blocks = h.blocks ++ [⟨c.block, true⟩]
  faults : h'.faults = h.faults ++
    (c.stores.filter (c.block.length ≤ ·)).map (Fault.outOfBounds h.blocks.length)

/-- Of the stores of a bounded copy only the one behind the block is a fault. -/
theorem copy_accesses (h : Heap) (reads : List ℕ) (n : ℕ) (t : CString) :
    SameAccesses ⟨(t.truncate n).1 ++ List.replicate (n + 1 - (t.truncate n).1.length) 0, reads,
        List.range' 0 ((t.truncate n).1.length + 1) ++ [n + 1]⟩ h
      (((h.request.push ⟨List.replicate (n + 1) 0, true⟩).write 0 (t.truncate n).stored
        (some h.request.blocks.length)).write (n + 1) [0] (some h.request.blocks.length)) := by
  rw [Heap.copy_past]
  refine ⟨rfl, ?_⟩
  have hfits : (t.truncate n).1.length ≤ n := List.length_take_le n _
  obtain ⟨k, hk⟩ : ∃ k, (t.truncate n).1.length = k := ⟨_, rfl⟩
  have hsize : k + (n + 1 - k) = n + 1 := by omega
  have hinside : (List.range' 0 (k + 1)).filter (fun i => decide (n + 1 ≤ i)) = [] := by
    refine List.filter_eq_nil_iff.mpr fun i member => ?_
    rw [List.mem_range'_1] at member
    simp only [decide_eq_true_eq]
    omega
  simp only [List.length_append, List.length_replicate, hk, hsize, List.filter_append, hinside,
    List.nil_append]
  simp [Heap.report, Heap.push, Heap.request]

section Granted

variable {P : Platform F} {w : World F} (granted : P.grants w.heap.requests = true)

include granted

theorem getLenStr_accesses (original : List UInt8) (len : ℕ) :
    ∃ h, getLenStr P original len w = .ok (some w.heap.blocks.length, { w with heap := h }) ∧
      SameAccesses (Copying.getLenStr original len) w.heap h := by
  have hsame := copy_accesses w.heap (scan original 0) len (textOf original)
  rw [textOf_truncate, ← getLenStr_copying] at hsame
  refine ⟨_, ?_, hsame⟩
  simp only [getLenStr, bind_run, pure_run, calloc, Heap.calloc_granted granted, snprintf, store,
    Nat.add_sub_cancel, textOf_truncate]
  rfl

theorem getChipId_accesses :
    ∃ h, getChipId P w = .ok (some w.heap.blocks.length, { w with heap := h }) ∧
      SameAccesses (Copying.getChipId P) w.heap h := by
  have hsame := copy_accesses w.heap [] 6 (chipIdText P)
  rw [← getChipId_copying] at hsame
  refine ⟨_, ?_, hsame⟩
  simp only [getChipId, bind_run, pure_run, ite_run, calloc, Heap.calloc_granted granted, snprintf,
    store, reduceCtorEq, if_false]
  rfl

end Granted

/-- What a copy of the first `len` bytes may touch. -/
structure LenStrInBounds (original : List UInt8) (len : ℕ) : Prop where
  copied : (textOf (Copying.getLenStr original len).block).1 = original.take len
  stores : ∀ i ∈ (Copying.getLenStr original len).stores,
    i < (Copying.getLenStr original len).block.length
  reads : ∀ i ∈ (Copying.getLenStr original len).reads, i < len

def ChipIdInBounds (P : Platform F) : Prop :=
  ∀ i ∈ (Copying.getChipId P).stores, i < (Copying.getChipId P).block.length

/-- The index of the last store is the size of the block. -/
theorem getLenStr_past (original : List UInt8) (len : ℕ) :
    ¬ ∀ i ∈ (Copying.getLenStr original len).stores,
      i < (Copying.getLenStr original len).block.length := by
  intro inside
  have hlast := inside (len + 1) (by simp [getLenStr_copying])
  have hfits : (textOf (original.take len)).1.length ≤ len := by
    rw [← textOf_truncate]
    exact List.length_take_le len _
  rw [getLenStr_copying, List.length_append, List.length_replicate] at hlast
  omega

theorem getChipId_past (P : Platform F) : ¬ ChipIdInBounds P := by
  intro inside
  have hlast := inside 7 (by simp [getChipId_copying])
  have hfits : ((chipIdText P).truncate 6).1.length ≤ 6 := List.length_take_le 6 _
  rw [getChipId_copying, List.length_append, List.length_replicate] at hlast
  omega

/-- The text itself is copied in full, also without a terminator behind it. -/
theorem getLenStr_text (t : CString) (rest : List UInt8) :
    textOf (Copying.getLenStr (t.1 ++ rest) t.1.length).block = t := by
  have hfits : t.1.length < t.1.length + 1 := Nat.lt_succ_self _
  rw [getLenStr_copying, List.take_left, textOf_bytes]
  exact textOf_zeros t (Nat.sub_pos_of_lt hfits)

/-- Every copy of a text is complete, and every one of them reads past the text and stores past the
block; so does the chip id. -/
theorem copies_out_of_bounds (t : CString) (rest : List UInt8) (P : Platform F) :
    textOf (Copying.getLenStr (t.1 ++ rest) t.1.length).block = t ∧
      t.1.length + 1 ∈ (Copying.getLenStr (t.1 ++ rest) t.1.length).stores ∧
      t.1.length ∈ (Copying.getLenStr (t.1 ++ rest) t.1.length).reads ∧
      (¬ LenStrInBounds (t.1 ++ rest) t.1.length) ∧ ¬ ChipIdInBounds P := by
  obtain ⟨later, hscan⟩ := scan_text t rest
  refine ⟨getLenStr_text t rest, ?_, ?_, ?_, getChipId_past P⟩
  · simp [getLenStr_copying]
  · simp [getLenStr_copying, hscan]
  · intro bounds
    exact getLenStr_past _ _ bounds.stores

/-- The topic of a command, with the payload behind it in the buffer. -/
theorem topic_copy_out_of_bounds :
    ¬ ∀ (t : CString) (rest : List UInt8), LenStrInBounds (t.1 ++ rest) t.1.length := by
  intro claim
  exact getLenStr_past _ _ (claim (ofString "sysop-set") (ofString "debug_mode").1).stores

end Routines

end Ddsu666
