/- From the registers of the meter to the reader of a response: the chain of replies, variables,
   formats and JSON as a whole. -/
import Ddsu666.PublishedReadings
import Ddsu666.ResponseText

namespace Ddsu666
open StringHeap

def Reading.name : Reading → String
  | voltage => "volts"
  | current => "current"
  | aPower => "ap"
  | rPower => "rp"
  | apPower => "app"
  | powerFactor => "pf"
  | powerFrequency => "pfr"
  | totalEngery => "total_e"

def Reading.key (r : Reading) : JsonText.Text := (ofString r.name).1

theorem member_name {F : Type} [FloatArith F] (P : Platform F) (r : Reading) (x : F) :
    (r.member P x).1 = r.name := by
  cases r <;> rfl

theorem nodup_keys : (powerReadings.map Reading.key).Nodup := by decide

theorem mem_powerReadings (r : Reading) : r ∈ powerReadings := by cases r <;> decide

/-- With distinct keys every entry is found under its own. -/
theorem lookup_of_mem {α β : Type} [BEq α] [LawfulBEq α] {k : α} {v : β} {entries : List (α × β)}
    (distinct : (entries.map Prod.fst).Nodup) (member : (k, v) ∈ entries) (more : List (α × β)) :
    (entries ++ more).lookup k = some v := by
  induction entries with
  | nil => cases member
  | cons e entries ih =>
      obtain ⟨k', v'⟩ := e
      rw [List.map_cons, List.nodup_cons] at distinct
      rw [List.cons_append, List.lookup_cons]
      rcases List.mem_cons.mp member with same | later
      · obtain ⟨rfl, rfl⟩ := Prod.mk.inj same
        rw [beq_self_eq_true]
      · have hne : k ≠ k' := by
          rintro rfl
          exact distinct.1 (List.mem_map.mpr ⟨(k, v), later, rfl⟩)
        rw [beq_false_of_ne hne]
        exact ih distinct.2 later

section Readers

variable {F : Type} [SingleArith F] {P : Platform F}

omit [SingleArith F] in
theorem answer_keys [FloatArith F] (P : Platform F) (members : List (Reading × F)) :
    ((powerAnswer P members).map memberBytes).map Prod.fst =
      (members.map Prod.fst).map Reading.key := by
  rw [powerAnswer, List.map_map, List.map_map, List.map_map]
  refine List.map_congr_left fun m _ => ?_
  change (ofString (m.1.member P m.2).1).1 = m.1.key
  rw [member_name, Reading.key]

/-- Once all readings have been read, whoever parses the object and looks up a reading finds what
the meter held when one of its replies was sent, or the zero of a variable that was never set. The
other members of the object do not matter. -/
theorem reader_sees_meter (board : Standard P) (accurate : Accurate P) {tr : List SnapshotLabel}
    {s : SnapshotState F} (h : SnapshotRun bootSnapshot tr s)
    (whole : ∀ bytes, .receive bytes ∈ tr → FromMeter bytes) (complete : s.unread = some [])
    (others : List (CString × CString)) :
    ∃ members, JsonText.object? (P.cJSONPrint (powerAnswer P s.members ++ others)).1 =
        some members ∧
      ∀ r : Reading, ∃ text : CString, members.lookup r.key = some text.1 ∧
        ((origin tr r = 0 ∧ text = buffered (r.member P FloatArith.zero).2) ∨
          ∃ registers, (replies tr r.replyLength)[origin tr r - 1]? = some (r.reply registers) ∧
            r.Shown registers text) := by
  have horder := (readerInv_run h).order [] complete
  rw [List.append_nil] at horder
  refine ⟨_, by rw [board.cJSONPrint, object_printObject], fun r => ?_⟩
  have hr : r ∈ s.members.map Prod.fst := by
    rw [horder]
    exact mem_powerReadings r
  obtain ⟨⟨r, x⟩, member, rfl⟩ := List.mem_map.mp hr
  refine ⟨buffered (r.member P x).2, ?_, ?_⟩
  · rw [List.map_append]
    refine lookup_of_mem ?_ ?_ _
    · rw [answer_keys, horder]
      exact nodup_keys
    · refine List.mem_map.mpr ⟨_, List.mem_map.mpr ⟨(r, x), member, rfl⟩, ?_⟩
      rw [memberBytes, member_name, Reading.key]
  · refine (member_accurate accurate h whole member).imp_left fun initial => ?_
    obtain ⟨never, rfl⟩ := initial
    exact ⟨never, rfl⟩

end Readers

/-- A reply at 230 V. -/
def voltsReply : List UInt8 := Reading.voltage.reply fun r => if r = 0x2000 then 0x4366 else 0

/-- One reply, and a request after it. -/
def requestTrace : List SnapshotLabel :=
  (.receive voltsReply :: (assignments voltsReply).map .assign) ++
    (.request :: powerReadings.map .read)

theorem requestTrace_run : ∃ s : SnapshotState Float32, SnapshotRun bootSnapshot requestTrace s ∧
    s.unread = some [] := by
  let meters := received voltsReply (initialMeters : Meters Float32)
  have hreads := read_run meters voltsReply [] powerReadings []
  refine ⟨_, Runs.run_append_some.mpr ⟨_, getRecData_run rfl voltsReply,
    Runs.run_cons_some.mpr ⟨⟨meters, voltsReply, [], [], some powerReadings⟩, rfl, hreads⟩⟩, rfl⟩

theorem reader_sees_meter_volts :
    ∃ (s : SnapshotState Float32) (members : List (JsonText.Text × JsonText.Text))
      (text : CString) (registers : UInt16 → UInt16), SnapshotRun bootSnapshot requestTrace s ∧
      JsonText.object? (sampleBoard.cJSONPrint (powerAnswer sampleBoard s.members ++ [])).1 =
        some members ∧
      members.lookup Reading.voltage.key = some text.1 ∧
      Reading.voltage.reply registers = voltsReply ∧ Reading.voltage.Shown registers text := by
  obtain ⟨s, hrun, complete⟩ := requestTrace_run
  have horigin : origin requestTrace .voltage = 1 := by decide +kernel
  have hreplies : replies requestTrace 41 = [voltsReply] := by decide +kernel
  have hwhole : ∀ bytes, .receive bytes ∈ requestTrace → FromMeter bytes := by
    intro bytes hreceived
    obtain rfl : bytes = voltsReply := by simpa [requestTrace] using hreceived
    exact reply_fromMeter _ _
  obtain ⟨members, hobject, hall⟩ :=
    reader_sees_meter sampleBoard_standard sampleBoard_accurate hrun hwhole complete []
  obtain ⟨text, hlookup, hshown⟩ := hall .voltage
  rw [horigin] at hshown
  rcases hshown with ⟨hzero, -⟩ | ⟨registers, hreply, hshown⟩
  · cases hzero
  · change (replies requestTrace 41)[0]? = some (Reading.voltage.reply registers) at hreply
    rw [hreplies] at hreply
    exact ⟨s, members, text, registers, hrun, hobject, hlookup,
      (Option.some.inj hreply).symm, hshown⟩

end Ddsu666
