/- Where the members of an answer come from: each value is that of one reply, and the replies of two
   members can differ. -/
import Ddsu666.SnapshotReads

namespace Ddsu666

/-! The history of a run. -/

/-- The byte strings of a length that were received, in order. -/
def replies (tr : List SnapshotLabel) (length : ℕ) : List (List UInt8) :=
  tr.filterMap fun
    | .receive bytes => if bytes.length = length then some bytes else none
    | _ => none

/-- How often a variable was assigned. -/
def assigned (tr : List SnapshotLabel) (r : Reading) : ℕ := tr.count (.assign r)

/-- How often a variable had been assigned when it was read last: the number of the reply that the
value came from, or zero for the initial value. -/
def origin (tr : List SnapshotLabel) (r : Reading) : ℕ :=
  assigned (tr.rdropWhile fun a => a ≠ .read r) r

/-- How often it had been assigned when the last request came in. -/
def atRequest (tr : List SnapshotLabel) (r : Reading) : ℕ :=
  assigned (tr.rdropWhile fun a => a ≠ .request) r

/-- The value after a series of replies. -/
def latest {F : Type} [FloatArith F] (r : Reading) (bs : List (List UInt8)) : F :=
  bs.getLast?.elim FloatArith.zero r.decoded

section History

variable {tr : List SnapshotLabel} {a : SnapshotLabel} {r : Reading}

theorem replies_append (tr tr' : List SnapshotLabel) (length : ℕ) :
    replies (tr ++ tr') length = replies tr length ++ replies tr' length := List.filterMap_append

theorem assigned_append (tr tr' : List SnapshotLabel) (r : Reading) :
    assigned (tr ++ tr') r = assigned tr r + assigned tr' r := List.count_append

theorem replies_snoc (other : ∀ bytes, a ≠ .receive bytes) (length : ℕ) :
    replies (tr ++ [a]) length = replies tr length := by
  rw [replies_append]
  cases a with
  | receive bytes => exact absurd rfl (other bytes)
  | _ => exact List.append_nil _

theorem assigned_snoc (other : a ≠ .assign r) : assigned (tr ++ [a]) r = assigned tr r := by
  rw [assigned_append, assigned, assigned, List.count_singleton, if_neg (by simpa using other)]
  rfl

theorem assigned_snoc_self : assigned (tr ++ [.assign r]) r = assigned tr r + 1 := by
  rw [assigned_append, assigned, assigned, List.count_singleton_self]

theorem origin_snoc (other : a ≠ .read r) : origin (tr ++ [a]) r = origin tr r := by
  rw [origin, List.rdropWhile_concat_pos _ _ _ (by simpa using other), origin]

theorem origin_snoc_self : origin (tr ++ [.read r]) r = assigned tr r := by
  rw [origin, List.rdropWhile_concat_neg _ _ _ (by simp), assigned_snoc (by simp)]

theorem atRequest_snoc (other : a ≠ .request) : atRequest (tr ++ [a]) r = atRequest tr r := by
  rw [atRequest, List.rdropWhile_concat_pos _ _ _ (by simpa using other), atRequest]

theorem assigned_mono {pre : List SnapshotLabel} (h : pre <+: tr) (r : Reading) :
    assigned pre r ≤ assigned tr r := h.sublist.count_le _

theorem origin_le (tr : List SnapshotLabel) (r : Reading) : origin tr r ≤ assigned tr r :=
  assigned_mono (List.rdropWhile_prefix _ _) r

theorem atRequest_le (tr : List SnapshotLabel) (r : Reading) : atRequest tr r ≤ assigned tr r :=
  assigned_mono (List.rdropWhile_prefix _ _) r

/-- The last request separates what was assigned before it from what was assigned after it. -/
theorem atRequest_split (before : List SnapshotLabel) {after : List SnapshotLabel}
    (last : .request ∉ after) (r : Reading) :
    atRequest (before ++ .request :: after) r = assigned before r := by
  induction after using List.reverseRecOn with
  | nil =>
      rw [atRequest, List.rdropWhile_concat_neg _ _ _ (by simp), assigned_snoc (by simp)]
  | append_singleton after a ih =>
      rw [List.mem_append, List.mem_singleton, not_or] at last
      rw [← List.cons_append, ← List.append_assoc, atRequest_snoc (Ne.symm last.2), ih last.1]

end History

/-! What the steps do. -/

section Steps

variable {F : Type} [FloatArith F] {s t : SnapshotState F}

theorem step_receive {bytes : List UInt8} (h : snapshotStep s (.receive bytes) = some t) :
    s.unassigned = [] ∧ t = { s with hexArray := bytes, unassigned := assignments bytes } := by
  obtain ⟨idle, rfl⟩ := Runs.enabled h
  exact ⟨idle, rfl⟩

theorem step_assign {r : Reading} (h : snapshotStep s (.assign r) = some t) :
    ∃ rest, s.unassigned = r :: rest ∧
      t = { s with meters := s.meters.set r (r.decoded s.hexArray), unassigned := rest } := by
  obtain ⟨next, rfl⟩ := Runs.enabled h
  obtain ⟨rest, todo⟩ := List.head?_eq_some_iff.mp next
  exact ⟨rest, todo, by rw [todo, List.tail_cons]⟩

theorem step_request (h : snapshotStep s .request = some t) :
    t = { s with members := [], unread := some powerReadings } := (Runs.enabled h).2.symm

theorem step_read {r : Reading} (h : snapshotStep s (.read r) = some t) :
    ∃ rest, s.unread = some (r :: rest) ∧
      t = { s with members := s.members ++ [(r, s.meters.get r)], unread := some rest } := by
  unfold snapshotStep at h
  cases hunread : s.unread with
  | none =>
      simp only [hunread] at h
      cases h
  | some todo =>
      simp only [hunread] at h
      obtain ⟨next, rfl⟩ := Runs.enabled h
      obtain ⟨rest, rfl⟩ := List.head?_eq_some_iff.mp next
      exact ⟨rest, rfl, rfl⟩

theorem step_publish (h : snapshotStep s .publish = some t) : t = { s with unread := none } :=
  (Runs.enabled h).2.symm

end Steps

/-! The UART task: every variable is up to date, or one assignment behind. -/

structure WriterInv {F : Type} [FloatArith F] (tr : List SnapshotLabel) (s : SnapshotState F) :
    Prop where
  suffix : s.unassigned <:+ assignments s.hexArray
  counts : ∀ r, (replies tr r.replyLength).length =
    assigned tr r + if r ∈ s.unassigned then 1 else 0
  current : ∀ r ∈ s.unassigned, (replies tr r.replyLength).getLast? = some s.hexArray
  meters : ∀ r, s.meters.get r = latest r ((replies tr r.replyLength).take (assigned tr r))

section Writer

variable {F : Type} [FloatArith F] {tr : List SnapshotLabel} {s t : SnapshotState F}

theorem writerInv_boot : WriterInv [] (bootSnapshot : SnapshotState F) := by
  constructor
  · exact List.nil_suffix
  · intro r
    rfl
  · intro r member
    cases member
  · intro r
    cases r <;> rfl

/-- The steps of the other task change nothing of it. -/
theorem WriterInv.frame (inv : WriterInv tr s) {a : SnapshotLabel}
    (noReply : ∀ bytes, a ≠ .receive bytes) (noAssign : ∀ r, a ≠ .assign r)
    (array : t.hexArray = s.hexArray) (todo : t.unassigned = s.unassigned)
    (meters : t.meters = s.meters) : WriterInv (tr ++ [a]) t := by
  constructor
  · rw [array, todo]
    exact inv.suffix
  · intro r
    rw [replies_snoc noReply, assigned_snoc (noAssign r), todo]
    exact inv.counts r
  · intro r member
    rw [todo] at member
    rw [replies_snoc noReply, array]
    exact inv.current r member
  · intro r
    rw [replies_snoc noReply, assigned_snoc (noAssign r), meters]
    exact inv.meters r

theorem replies_receive (tr : List SnapshotLabel) (bytes : List UInt8) (r : Reading) :
    replies (tr ++ [.receive bytes]) r.replyLength =
      replies tr r.replyLength ++ if r ∈ assignments bytes then [bytes] else [] := by
  rw [replies_append]
  by_cases carried : bytes.length = r.replyLength
  · simp [replies, carried, mem_assignments]
  · simp [replies, carried, mem_assignments]

theorem WriterInv.receive (inv : WriterInv tr s) {bytes : List UInt8}
    (h : snapshotStep s (.receive bytes) = some t) : WriterInv (tr ++ [.receive bytes]) t := by
  obtain ⟨idle, rfl⟩ := step_receive h
  have hcounts : ∀ r, (replies tr r.replyLength).length = assigned tr r := by
    intro r
    rw [inv.counts r, idle, if_neg List.not_mem_nil, Nat.add_zero]
  constructor
  · exact List.suffix_refl _
  · intro r
    rw [replies_receive, assigned_snoc (by simp), List.length_append, hcounts]
    split
    · rfl
    · rfl
  · intro r member
    rw [replies_receive, if_pos member, List.getLast?_concat]
  · intro r
    rw [replies_receive, assigned_snoc (by simp), ← hcounts, List.take_left]
    have hmeters := inv.meters r
    rwa [← hcounts, List.take_length] at hmeters

theorem WriterInv.assign (inv : WriterInv tr s) {r : Reading}
    (h : snapshotStep s (.assign r) = some t) : WriterInv (tr ++ [.assign r]) t := by
  obtain ⟨rest, todo, rfl⟩ := step_assign h
  have hnodup : (r :: rest).Nodup :=
    todo ▸ (nodup_assignments s.hexArray).sublist inv.suffix.sublist
  have hdone : r ∉ rest := (List.nodup_cons.mp hnodup).1
  have hnew : r ∈ s.unassigned := by simp [todo]
  constructor
  · exact (List.suffix_cons r rest).trans (todo ▸ inv.suffix)
  · intro q
    rw [replies_snoc (by simp), inv.counts q, todo]
    by_cases same : q = r
    · subst same
      rw [assigned_snoc_self, if_pos List.mem_cons_self, if_neg hdone]
    · rw [assigned_snoc (by simpa using Ne.symm same)]
      simp only [List.mem_cons, same, false_or]
  · intro q member
    rw [replies_snoc (by simp)]
    exact inv.current q (by simp [todo, member])
  · intro q
    rw [replies_snoc (by simp)]
    by_cases same : q = r
    · subst same
      have hall : assigned tr q + 1 = (replies tr q.replyLength).length := by
        rw [inv.counts q, if_pos hnew]
      rw [assigned_snoc_self, hall, List.take_length, Meters.get_set_self, latest,
        inv.current q hnew]
      rfl
    · rw [assigned_snoc (by simpa using Ne.symm same), Meters.get_set_ne _ same]
      exact inv.meters q

theorem writerInv_run (h : SnapshotRun bootSnapshot tr s) : WriterInv tr s := by
  refine Runs.history_invariant (P := WriterInv) writerInv_boot ?_ tr s h
  intro tr s a t _ inv hstep
  cases a with
  | receive bytes => exact inv.receive hstep
  | assign r => exact inv.assign hstep
  | request =>
      obtain rfl := step_request hstep
      exact inv.frame (by simp) (by simp) rfl rfl rfl
  | read r =>
      obtain ⟨rest, -, rfl⟩ := step_read hstep
      exact inv.frame (by simp) (by simp) rfl rfl rfl
  | publish =>
      obtain rfl := step_publish hstep
      exact inv.frame (by simp) (by simp) rfl rfl rfl

theorem WriterInv.assigned_le (inv : WriterInv tr s) (r : Reading) :
    assigned tr r ≤ (replies tr r.replyLength).length := by
  rw [inv.counts r]
  exact Nat.le_add_right _ _

/-- Among the seven, no variable has been assigned twice more often than another one. -/
theorem WriterInv.assigned_close (inv : WriterInv tr s) {r q : Reading} (hr : r ∈ paramReadings)
    (hq : q ∈ paramReadings) : assigned tr r ≤ assigned tr q + 1 := by
  have hcountr := inv.counts r
  have hcountq := inv.counts q
  rw [mem_paramReadings.mp hr] at hcountr
  rw [mem_paramReadings.mp hq] at hcountq
  split at hcountq
  · omega
  · omega

end Writer

/-! The MQTT task: what has been read keeps its origin. -/

structure ReaderInv {F : Type} [FloatArith F] (tr : List SnapshotLabel) (s : SnapshotState F) :
    Prop where
  order : ∀ rest, s.unread = some rest → s.members.map Prod.fst ++ rest = powerReadings
  values : ∀ m ∈ s.members,
    m.2 = latest m.1 ((replies tr m.1.replyLength).take (origin tr m.1))
  since : ∀ m ∈ s.members, atRequest tr m.1 ≤ origin tr m.1
  lag : s.members.Pairwise fun m n => m.1 ∈ paramReadings → n.1 ∈ paramReadings →
    origin tr m.1 ≤ origin tr n.1 + 1

section Reader

variable {F : Type} [FloatArith F] {tr : List SnapshotLabel} {s t : SnapshotState F}

/-- Before the first read of an answer. -/
theorem ReaderInv.empty (members : s.members = [])
    (unread : ∀ rest, s.unread = some rest → rest = powerReadings) : ReaderInv tr s := by
  constructor
  · intro rest reading
    rw [members, unread rest reading]
    rfl
  · rw [members]
    exact List.forall_mem_nil _
  · rw [members]
    exact List.forall_mem_nil _
  · rw [members]
    exact List.Pairwise.nil

theorem readerInv_boot : ReaderInv [] (bootSnapshot : SnapshotState F) :=
  .empty rfl fun _ reading => nomatch reading

/-- A value keeps its origin while more replies come in. -/
theorem latest_receive (inv : WriterInv tr s) (r : Reading) (bytes : List UInt8) :
    (latest r ((replies (tr ++ [.receive bytes]) r.replyLength).take (origin tr r)) : F) =
      latest r ((replies tr r.replyLength).take (origin tr r)) := by
  rw [replies_receive, List.take_append_of_le_length ((origin_le tr r).trans (inv.assigned_le r))]

/-- The steps of the other task change nothing of it either. -/
theorem ReaderInv.frame (inv : ReaderInv tr s) (writer : WriterInv tr s) {a : SnapshotLabel}
    (noRead : ∀ r, a ≠ .read r) (noRequest : a ≠ .request) (members : t.members = s.members)
    (unread : ∀ rest, t.unread = some rest → s.unread = some rest) : ReaderInv (tr ++ [a]) t := by
  constructor
  · intro rest reading
    rw [members]
    exact inv.order rest (unread rest reading)
  · intro m member
    rw [members] at member
    rw [origin_snoc (noRead m.1), inv.values m member]
    cases a with
    | receive bytes => exact (latest_receive writer m.1 bytes).symm
    | _ => rw [replies_snoc (by simp)]
  · intro m member
    rw [members] at member
    rw [origin_snoc (noRead m.1), atRequest_snoc noRequest]
    exact inv.since m member
  · rw [members]
    refine inv.lag.imp ?_
    intro m n close hm hn
    rw [origin_snoc (noRead m.1), origin_snoc (noRead n.1)]
    exact close hm hn

theorem ReaderInv.request (h : snapshotStep s .request = some t) :
    ReaderInv (tr ++ [.request]) t := by
  obtain rfl := step_request h
  exact .empty rfl fun _ reading => (Option.some.inj reading).symm

theorem ReaderInv.read (inv : ReaderInv tr s) (writer : WriterInv tr s) {r : Reading}
    (h : snapshotStep s (.read r) = some t) : ReaderInv (tr ++ [.read r]) t := by
  obtain ⟨rest, todo, rfl⟩ := step_read h
  have horder := inv.order _ todo
  have hnew : ∀ m ∈ s.members, m.1 ≠ r := by
    intro m member same
    have hnodup : (s.members.map Prod.fst ++ r :: rest).Nodup := horder ▸ nodup_powerReadings
    refine (List.nodup_append.mp hnodup).2.2 m.1 (List.mem_map_of_mem member) r
      List.mem_cons_self same
  have hkept : ∀ m ∈ s.members, origin (tr ++ [.read r]) m.1 = origin tr m.1 :=
    fun m member => origin_snoc (by simpa using Ne.symm (hnew m member))
  constructor
  · intro rest' reading
    obtain rfl := Option.some.inj reading
    rw [List.map_append, List.append_assoc]
    exact horder
  · intro m member
    rw [replies_snoc (by simp)]
    rcases List.mem_append.mp member with old | new
    · rw [hkept m old]
      exact inv.values m old
    · obtain rfl := List.mem_singleton.mp new
      rw [origin_snoc_self]
      exact writer.meters r
  · intro m member
    rw [atRequest_snoc (by simp)]
    rcases List.mem_append.mp member with old | new
    · rw [hkept m old]
      exact inv.since m old
    · obtain rfl := List.mem_singleton.mp new
      rw [origin_snoc_self]
      exact atRequest_le tr r
  · refine List.pairwise_append.mpr ⟨?_, List.pairwise_singleton _ _, ?_⟩
    · refine inv.lag.imp_of_mem ?_
      intro m n hm hn close
      rw [hkept m hm, hkept n hn]
      exact close
    · intro m old n new hm hn
      obtain rfl := List.mem_singleton.mp new
      rw [hkept m old, origin_snoc_self]
      exact (origin_le tr m.1).trans (writer.assigned_close hm hn)

theorem readerInv_run (h : SnapshotRun bootSnapshot tr s) : ReaderInv tr s := by
  refine Runs.history_invariant (P := ReaderInv) readerInv_boot ?_ tr s h
  intro tr s a t hrun inv hstep
  have writer := writerInv_run hrun
  cases a with
  | receive bytes =>
      obtain ⟨-, rfl⟩ := step_receive hstep
      exact inv.frame writer (by simp) (by simp) rfl (fun _ => id)
  | assign r =>
      obtain ⟨rest, -, rfl⟩ := step_assign hstep
      exact inv.frame writer (by simp) (by simp) rfl (fun _ => id)
  | request => exact .request hstep
  | read r => exact inv.read writer hstep
  | publish =>
      obtain rfl := step_publish hstep
      exact inv.frame writer (by simp) (by simp) rfl (fun _ reading => nomatch reading)

end Reader

/-- Each value of an answer comes whole from one reply, the last one that had been assigned to its
variable. A value that is read later can come from a newer reply or from the one before, and all
seven come from the last reply before the request when every assignment of the replies so far has
been made by then and none is made meanwhile. -/
theorem answer_origins {F : Type} [FloatArith F] {before after : List SnapshotLabel}
    {s t : SnapshotState F} (begun : SnapshotRun bootSnapshot before s)
    (answered : SnapshotRun s (.request :: after) t) (last : .request ∉ after)
    (complete : t.unread = some []) :
    t.members.map Prod.fst = powerReadings ∧
      (∀ m ∈ t.members, m.2 = latest m.1 ((replies (before ++ .request :: after)
        m.1.replyLength).take (origin (before ++ .request :: after) m.1))) ∧
      (t.members.Pairwise fun m n => m.1 ∈ paramReadings → n.1 ∈ paramReadings →
        origin (before ++ .request :: after) m.1 ≤ origin (before ++ .request :: after) n.1 + 1) ∧
      ((∀ r ∈ paramReadings, r ∉ s.unassigned) → (∀ r ∈ paramReadings, .assign r ∉ after) →
        ∀ m ∈ t.members, m.1 ∈ paramReadings → m.2 = latest m.1 (replies before 41)) := by
  have hrun : SnapshotRun bootSnapshot (before ++ .request :: after) t :=
    Runs.run_append_some.mpr ⟨s, begun, answered⟩
  have inv := readerInv_run hrun
  have horder := inv.order [] complete
  rw [List.append_nil] at horder
  refine ⟨horder, inv.values, inv.lag, ?_⟩
  intro idle quiet m member param
  have hnone : assigned (.request :: after) m.1 = 0 := by
    refine List.count_eq_zero.mpr fun found => quiet m.1 param ?_
    exact (List.mem_cons.mp found).resolve_left (by simp)
  have hbefore : (replies before 41).length = assigned before m.1 := by
    have hcounts := (writerInv_run begun).counts m.1
    rwa [if_neg (idle m.1 param), Nat.add_zero, mem_paramReadings.mp param] at hcounts
  have horigin : origin (before ++ .request :: after) m.1 = (replies before 41).length := by
    have hsince := inv.since m member
    have hle := origin_le (before ++ .request :: after) m.1
    rw [atRequest_split before last] at hsince
    rw [assigned_append, hnone, Nat.add_zero] at hle
    rw [hbefore]
    exact le_antisymm hle hsince
  rw [inv.values m member, horigin, mem_paramReadings.mp param, replies_append, List.take_left]

/-! The first reply arrives after the voltage has been read. -/

/-- A reply at 230 V and 1 A. -/
def firstReply : List UInt8 := truncatedReply ++ List.replicate 32 0

def overtaken : List SnapshotLabel :=
  .read .voltage :: .receive firstReply :: (assignments firstReply).map .assign ++
    powerReadings.tail.map .read

def overtakenState {F : Type} [FloatArith F] : SnapshotState F where
  meters := received firstReply initialMeters
  hexArray := firstReply
  unassigned := []
  members := (.voltage, FloatArith.zero) ::
    powerReadings.tail.map fun r => (r, (received firstReply initialMeters).get r)
  unread := some []

theorem overtaken_run {F : Type} [FloatArith F] :
    SnapshotRun (bootSnapshot : SnapshotState F) (.request :: overtaken) overtakenState := rfl

theorem answer_origins_overtaken :
    (FloatArith.zero : Float32) = latest .voltage ((replies (.request :: overtaken) 41).take
        (origin (.request :: overtaken) .voltage)) ∧
      (Reading.current.decoded firstReply : Float32) = latest .current
        ((replies (.request :: overtaken) 41).take (origin (.request :: overtaken) .current)) := by
  have hvalues := (@answer_origins Float32 _ [] _ _ _ rfl overtaken_run (by decide) rfl).2.1
  constructor
  · exact hvalues (.voltage, FloatArith.zero) List.mem_cons_self
  · exact hvalues (.current, Reading.current.decoded firstReply)
      (List.mem_cons_of_mem _ List.mem_cons_self)

theorem decoded_ne_zero {F : Type} [SingleArith F] {r : Reading} {bytes : List UInt8} {w : UInt32}
    (word : wordOf (wordAt bytes r.ptr) = w.toNat) (normal : Binary32.Normal w) :
    (r.decoded bytes : F) ≠ FloatArith.zero := by
  intro zero
  have hexact : SingleArith.toRat? (r.decoded bytes : F) = some (Binary32.value w) :=
    floatFrom8hex_normal (wordAt_small _ _) word normal
  rw [zero, SingleArith.zero_exact, Binary32.value_normal normal] at hexact
  have hsign : Binary32.signFactor w ≠ 0 := by
    unfold Binary32.signFactor
    split
    · norm_num
    · norm_num
  have hfraction : (1 + Binary32.fractionField w / 2 ^ 23 : ℚ) ≠ 0 := by positivity
  have hscale : (2 : ℚ) ^ ((Binary32.exponentField w : ℤ) - 127) ≠ 0 := by positivity
  exact mul_ne_zero (mul_ne_zero hsign hscale) hfraction (Option.some.inj hexact).symm

/-- The answer combines the initial voltage with the current of the reply. -/
theorem answer_mixed :
    ¬ ∀ (tr : List SnapshotLabel) (s : SnapshotState Float32), SnapshotRun bootSnapshot tr s →
      s.unread = some [] →
      (∃ bytes ∈ replies tr 41, ∀ m ∈ s.members, m.1 ∈ paramReadings → m.2 = m.1.decoded bytes) ∨
        (∀ m ∈ s.members, m.1 ∈ paramReadings → m.2 = FloatArith.zero) := by
  intro claim
  rcases claim _ _ overtaken_run rfl with ⟨bytes, received, same⟩ | initial
  · have hone : replies (.request :: overtaken) 41 = [firstReply] := by decide
    rw [hone, List.mem_singleton] at received
    subst received
    have hvoltage := same (.voltage, FloatArith.zero) List.mem_cons_self (by decide)
    exact decoded_ne_zero (w := 0x43660000) (by decide) (by decide) hvoltage.symm
  · have hcurrent := initial (.current, Reading.current.decoded firstReply)
      (List.mem_cons_of_mem _ List.mem_cons_self) (by decide)
    exact decoded_ne_zero (w := 0x3F800000) (by decide) (by decide) hcurrent

end Ddsu666
