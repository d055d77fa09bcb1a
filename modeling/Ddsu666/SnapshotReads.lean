/- The readings while they change: `print_ddsu666_params` assigns them one by one, `get_power_info`
   reads them one by one, and no lock keeps the two tasks apart. -/
import Ddsu666.WebHandler
import Ddsu666.Runs
import Mathlib.Data.List.DropRight

namespace Ddsu666

open StringHeap

inductive Reading where
  | voltage
  | current
  | aPower
  | rPower
  | apPower
  | powerFactor
  | powerFrequency
  | totalEngery
  deriving DecidableEq, Repr

namespace Reading

/-- Where a reply carries the reading: `ptr`. -/
def ptr : Reading → ℕ
  | voltage => 3
  | current => 7
  | aPower => 11
  | rPower => 15
  | apPower => 19
  | powerFactor => 23
  | powerFrequency => 31
  | totalEngery => 3

/-- The length by which `get_rec_data` knows such a reply. -/
def replyLength : Reading → ℕ
  | totalEngery => 9
  | _ => 41

def decoded {F : Type} [FloatArith F] (r : Reading) (bytes : List UInt8) : F :=
  floatFrom8hex (wordAt bytes r.ptr)

end Reading

section Variables

variable {F : Type}

def Meters.get (m : Meters F) : Reading → F
  | .voltage => m.voltage
  | .current => m.current
  | .aPower => m.aPower
  | .rPower => m.rPower
  | .apPower => m.apPower
  | .powerFactor => m.powerFactor
  | .powerFrequency => m.powerFrequency
  | .totalEngery => m.totalEngery

def Meters.set (m : Meters F) (r : Reading) (x : F) : Meters F :=
  match r with
  | .voltage => { m with voltage := x }
  | .current => { m with current := x }
  | .aPower => { m with aPower := x }
  | .rPower => { m with rPower := x }
  | .apPower => { m with apPower := x }
  | .powerFactor => { m with powerFactor := x }
  | .powerFrequency => { m with powerFrequency := x }
  | .totalEngery => { m with totalEngery := x }

@[simp] theorem Meters.get_set_self (m : Meters F) (r : Reading) (x : F) :
    (m.set r x).get r = x := by
  cases r <;> rfl

theorem Meters.get_set_ne (m : Meters F) {r q : Reading} (other : q ≠ r) (x : F) :
    (m.set r x).get q = m.get q := by
  cases r <;> cases q <;> first | rfl | exact absurd rfl other

end Variables

/-- The order of the assignments in `print_ddsu666_params`, and of the reads in
`get_power_info`. -/
def paramReadings : List Reading :=
  [.voltage, .current, .aPower, .rPower, .apPower, .powerFactor, .powerFrequency]

/-- What `get_rec_data` assigns after a byte string. -/
def assignments (bytes : List UInt8) : List Reading :=
  if bytes.length = 41 then paramReadings
  else if bytes.length = 9 then [.totalEngery]
  else []

/-- What `get_power_info` reads of the meter. -/
def powerReadings : List Reading := paramReadings ++ [.totalEngery]

theorem nodup_powerReadings : powerReadings.Nodup := by decide

theorem mem_paramReadings {r : Reading} : r ∈ paramReadings ↔ r.replyLength = 41 := by
  cases r <;> decide

theorem mem_assignments {r : Reading} {bytes : List UInt8} :
    r ∈ assignments bytes ↔ bytes.length = r.replyLength := by
  unfold assignments
  split
  · rename_i h41
    rw [mem_paramReadings, h41]
    exact eq_comm
  · split
    · rename_i h9
      rw [h9]
      cases r <;> decide
    · rename_i h41 h9
      cases r <;> simp [Reading.replyLength, h41, h9]

theorem nodup_assignments (bytes : List UInt8) : (assignments bytes).Nodup := by
  unfold assignments
  split
  · decide
  · split
    · decide
    · decide

/-- Both tasks: the bytes that are decoded and the assignments still to be made, and the members
of the answer so far with the reads still to be made, if a request is being answered. -/
structure SnapshotState (F : Type) where
  meters : Meters F
  hexArray : List UInt8
  unassigned : List Reading
  members : List (Reading × F)
  unread : Option (List Reading)

inductive SnapshotLabel where
  | receive (bytes : List UInt8)
  | assign (r : Reading)
  | request
  | read (r : Reading)
  | publish
  deriving DecidableEq, Repr

section Tasks

variable {F : Type} [FloatArith F]

def bootSnapshot : SnapshotState F := ⟨initialMeters, [], [], [], none⟩

/-- Each task keeps its own order; nothing orders the steps of one task among those of the other. -/
def snapshotStep (s : SnapshotState F) : SnapshotLabel → Option (SnapshotState F)
  | .receive bytes =>
      if s.unassigned = [] then
        some { s with hexArray := bytes, unassigned := assignments bytes }
      else none
  | .assign r =>
      if s.unassigned.head? = some r then
        some { s with
          meters := s.meters.set r (r.decoded s.hexArray), unassigned := s.unassigned.tail }
      else none
  | .request =>
      if s.unread = none then some { s with members := [], unread := some powerReadings } else none
  | .read r =>
      match s.unread with
      | none => none
      | some rest =>
          if rest.head? = some r then
            some { s with members := s.members ++ [(r, s.meters.get r)], unread := some rest.tail }
          else none
  | .publish => if s.unread = some [] then some { s with unread := none } else none

def SnapshotRun (s : SnapshotState F) (tr : List SnapshotLabel) (t : SnapshotState F) : Prop :=
  Runs.run snapshotStep s tr = some t

/-! One task alone does what `get_rec_data` and `get_power_info` do as a whole. -/

theorem assign_run (m : Meters F) (bytes : List UInt8) (rs : List Reading)
    (members : List (Reading × F)) (unread : Option (List Reading)) :
    SnapshotRun ⟨m, bytes, rs, members, unread⟩ (rs.map .assign)
      ⟨rs.foldl (fun m r => m.set r (r.decoded bytes)) m, bytes, [], members, unread⟩ := by
  induction rs generalizing m with
  | nil => rfl
  | cons r rs ih => exact Runs.run_cons_some.mpr ⟨_, if_pos rfl, ih (m.set r (r.decoded bytes))⟩

theorem assignments_received (bytes : List UInt8) (m : Meters F) :
    (assignments bytes).foldl (fun m r => m.set r (r.decoded bytes)) m = received bytes m := by
  unfold assignments received
  split
  · rfl
  · split
    · rfl
    · rfl

theorem getRecData_run {s : SnapshotState F} (idle : s.unassigned = []) (bytes : List UInt8) :
    SnapshotRun s (.receive bytes :: (assignments bytes).map .assign)
      { s with meters := received bytes s.meters, hexArray := bytes } := by
  obtain ⟨m, hexArray, unassigned, members, unread⟩ := s
  subst idle
  rw [← assignments_received]
  exact Runs.run_cons_some.mpr ⟨⟨m, bytes, assignments bytes, members, unread⟩, rfl,
    assign_run m bytes (assignments bytes) members unread⟩

theorem read_run (m : Meters F) (bytes : List UInt8) (unassigned rs : List Reading)
    (members : List (Reading × F)) :
    SnapshotRun ⟨m, bytes, unassigned, members, some rs⟩ (rs.map .read)
      ⟨m, bytes, unassigned, members ++ rs.map fun r => (r, m.get r), some []⟩ := by
  induction rs generalizing members with
  | nil =>
      rw [List.map_nil, List.map_nil, List.append_nil]
      rfl
  | cons r rs ih =>
      have hrest := ih (members ++ [(r, m.get r)])
      rw [List.append_assoc] at hrest
      exact Runs.run_cons_some.mpr ⟨_, if_pos rfl, hrest⟩

/-- A member of the answer as `get_power_info` formats it. -/
def Reading.member (P : Platform F) : Reading → F → String × CString
  | .voltage, x => ("volts", P.fixed 1 x)
  | .current, x => ("current", P.fixed 3 x)
  | .aPower, x => ("ap", P.fixed 1 (FloatArith.mul x (FloatArith.ofNat 1000)))
  | .rPower, x => ("rp", P.fixed 1 (FloatArith.mul x (FloatArith.ofNat 1000)))
  | .apPower, x => ("app", P.fixed 1 (FloatArith.mul x (FloatArith.ofNat 1000)))
  | .powerFactor, x => ("pf", P.fixed 3 x)
  | .powerFrequency, x => ("pfr", P.fixed 2 x ++ ofString "Hz")
  | .totalEngery, x => ("total_e", P.fixed 2 x)

def powerAnswer (P : Platform F) (members : List (Reading × F)) : List (CString × CString) :=
  members.map fun m => (ofString (m.1.member P m.2).1, buffered (m.1.member P m.2).2)

theorem getPowerInfo_run (P : Platform F) (d : Device F) {s : SnapshotState F}
    (idle : s.unread = none) (same : s.meters = d.meters) :
    ∃ members, SnapshotRun s (.request :: powerReadings.map .read)
        { s with members := members, unread := some [] } ∧
      powerAnswer P members = (powerMembers P d).take 8 := by
  obtain ⟨m, hexArray, unassigned, members, unread⟩ := s
  subst idle same
  refine ⟨_, Runs.run_cons_some.mpr ⟨⟨d.meters, hexArray, unassigned, [], some powerReadings⟩,
    rfl, read_run d.meters hexArray unassigned powerReadings []⟩, ?_⟩
  rfl

end Tasks

end Ddsu666
