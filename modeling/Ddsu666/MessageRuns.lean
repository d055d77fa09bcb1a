/- Messages over whole runs: the replies and the state of the device follow from the messages and
   the readings alone, whatever earlier messages left on the heap and in `response_s`. -/
import Ddsu666.CommandDispatch
import Ddsu666.Runs

namespace Ddsu666
open StringHeap

structure HandlerState (F : Type) where
  world : World F
  up : Bool

/-- A message, a change of the device by the other tasks, or a boot, which may follow a restart or
a loss of power at any time. -/
inductive HandlerLabel (F : Type) where
  | message (m : Message)
  | others (d : Device F)
  | boot (d : Device F)

/-- What can be seen from outside. -/
structure Served (F : Type) where
  device : Device F
  published : List Publication
  up : Bool

def HandlerState.served {F : Type} (s : HandlerState F) : Served F :=
  ⟨s.world.device, s.world.published, s.up⟩

section Systems

variable {F : Type} [FloatArith F] (P : Platform F)

def handlerStep (s : HandlerState F) : HandlerLabel F → Option (HandlerState F)
  | .message m =>
      if s.up then
        match mqttEventHandler P (.data m) s.world with
        | .ok (_, w) => some ⟨w, true⟩
        | .error w => some ⟨w, false⟩
      else none
  | .others d => if s.up then some { s with world := { s.world with device := d } } else none
  | .boot d => some ⟨bootWorld d s.world.published, true⟩

def HandlerRun (s : HandlerState F) (tr : List (HandlerLabel F)) (t : HandlerState F) : Prop :=
  Runs.run (handlerStep P) s tr = some t

/-- The handler ends with this restart, or with this state and exactly this one publication. -/
def Handles (m : Message) (w : World F) : Except (Device F) (Device F × CString) → Prop
  | .error d => ∃ w', mqttEventHandler P (.data m) w = .error w' ∧ w'.device = d ∧
      w'.published = w.published
  | .ok (d, text) => ∃ w', mqttEventHandler P (.data m) w = .ok ((), w') ∧ w'.device = d ∧
      w'.published = w.published ++ [reply text]

def HandlerLabel.call : HandlerLabel F → Option TaskLabel
  | .message m => (commandOf m.topicText m.dataText).bind Command.taskCall
  | .others _ | .boot _ => none

/-- The other tasks change the variables of the UART task only by its own statements. -/
def OwnStatements (t : HandlerState F) : HandlerLabel F → Prop
  | .message _ => True
  | .others d => ∃ own, TaskRun t.world.device.task own d.task ∧ ∀ a ∈ own, a.isUart = true
  | .boot _ => False

end Systems

section Refinement

variable {F : Type} [FloatArith F] {P : Platform F} (granted : ∀ n, P.grants n = true)

include granted

theorem handles_dispatch {m : Message} {w : World F}
    (fits : RequestFits P m.topicText m.dataText w.device) :
    Handles P m w (dispatch P m.topicText m.dataText w.device) := by
  cases hdispatch : dispatch P m.topicText m.dataText w.device with
  | error d => exact message_restarts granted hdispatch
  | ok result =>
      obtain ⟨d, text⟩ := result
      obtain ⟨w', t, hrun, hdevice, hpublished, hfit, -⟩ := message_returns granted hdispatch
      exact ⟨w', hrun, hdevice, (hfit fits).1 ▸ hpublished⟩

theorem message_device {s t : HandlerState F} {m : Message}
    (hstep : handlerStep P s (.message m) = some t) :
    t.world.device = deviceAfter (dispatch P m.topicText m.dataText s.world.device) := by
  simp only [handlerStep] at hstep
  split at hstep
  · cases hdispatch : dispatch P m.topicText m.dataText s.world.device with
    | error d =>
        obtain ⟨w', hrun, hdevice, -⟩ := message_restarts granted hdispatch
        rw [hrun] at hstep
        obtain rfl := Option.some.inj hstep
        exact hdevice
    | ok result =>
        obtain ⟨w', _, hrun, hdevice, -⟩ := message_returns granted hdispatch
        rw [hrun] at hstep
        obtain rfl := Option.some.inj hstep
        exact hdevice
  · cases hstep

/-- Within a boot the UART task sees a run of its own system, in which the calls from outside are
those of the commands received, in their order. -/
theorem task_run {s t : HandlerState F} {tr : List (HandlerLabel F)}
    (own : ∀ pre a post u, tr = pre ++ a :: post → HandlerRun P s pre u → OwnStatements u a)
    (hrun : HandlerRun P s tr t) :
    ∃ labels, TaskRun s.world.device.task labels t.world.device.task ∧
      labels.filter (fun a => !a.isUart) = tr.filterMap HandlerLabel.call := by
  refine Runs.guarded_invariant (G := OwnStatements)
    (P := fun as u => ∃ labels, TaskRun s.world.device.task labels u.world.device.task ∧
      labels.filter (fun a => !a.isUart) = as.filterMap HandlerLabel.call)
    ?_ ?_ tr own t hrun
  · exact ⟨[], rfl, rfl⟩
  · intro as u a v hlabels hown hstep
    obtain ⟨labels, htask, hcalls⟩ := hlabels
    cases a with
    | message m =>
        have hcall := dispatch_task P m.topicText m.dataText u.world.device
        rw [← message_device granted hstep] at hcall
        refine ⟨labels ++ _, Runs.run_append_some.mpr ⟨_, htask, hcall⟩, ?_⟩
        rw [List.filter_append, hcalls, List.filterMap_append]
        refine congrArg _ ?_
        cases hcommand : commandOf m.topicText m.dataText with
        | none => simp [HandlerLabel.call, hcommand]
        | some c =>
            cases c <;> simp [HandlerLabel.call, hcommand, Command.taskCall, TaskLabel.isUart]
    | others d =>
        obtain ⟨statements, hstatements, huart⟩ := hown
        obtain ⟨-, rfl⟩ := Runs.enabled hstep
        refine ⟨labels ++ statements, Runs.run_append_some.mpr ⟨_, htask, hstatements⟩, ?_⟩
        have hnone : statements.filter (fun a => !a.isUart) = [] := by simpa using huart
        rw [List.filter_append, hcalls, List.filterMap_append, hnone]
        rfl
    | boot d => exact hown.elim

end Refinement

end Ddsu666
