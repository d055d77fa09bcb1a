/- The whole device with its meter: the tasks of MQTT and UART side by side, and a clear of the
   energy counter on its way from a message into the meter. -/
import Ddsu666.ClientEvents
import Ddsu666.MeterBus
import Ddsu666.TaskStop

namespace Ddsu666
open StringHeap

structure Node (σ F : Type) where
  handler : HandlerState F
  bus : Bus σ F

/-- What the line and the meter do with a statement that transfers something. -/
structure Exchanges (σ : Type) where
  clear : Transfer
  params : Transfer
  change : σ → σ
  energy : Transfer

/-- An event of the MQTT client, a statement of the UART task, or a change that neither task
makes: in the meter, or in what the board reports. -/
inductive NodeLabel (σ F : Type) where
  | mqtt (e : MqttEvent)
  | uart (pc : UartPc) (io : Exchanges σ)
  | meter (g : σ → σ)
  | others (d : Device F)

abbrev Node.task {σ F : Type} (n : Node σ F) : TaskState := n.handler.world.device.task

section Systems

variable {σ F : Type} [FloatArith F] (P : Platform F) (server : Meter σ)

/-- The transfers of a statement; most have none. -/
def exchange (b : Bus σ F) (io : Exchanges σ) : UartPc → Except Halt (Bus σ F)
  | .clearSend => busEvent server b (.clear io.clear)
  | .poll => busEvent server b (.poll io.params io.change io.energy)
  | _ => .ok b

omit [FloatArith F] in
def Node.withDevice (n : Node σ F) (d : Device F) : Node σ F :=
  { n with handler := { n.handler with world := { n.handler.world with device := d } } }

/-- Both tasks stand still after a restart has begun. -/
def nodeStep (n : Node σ F) : NodeLabel σ F → Option (Node σ F)
  | .mqtt e => (clientStep P n.handler (.event e)).map fun h => { n with handler := h }
  | .uart pc io =>
      if n.handler.up then
        (taskStep n.task (.uart pc)).bind fun task =>
          match exchange server n.bus io pc with
          | .ok bus => some ({ n with bus := bus }.withDevice
              { n.handler.world.device with task := task, meters := bus.uart.meters })
          | .error _ => none
      else none
  | .meter g => some { n with bus := { n.bus with meter := g n.bus.meter } }
  | .others d =>
      if n.handler.up then
        some (n.withDevice { d with task := n.task, meters := n.handler.world.device.meters })
      else none

def NodeRun (n : Node σ F) (tr : List (NodeLabel σ F)) (t : Node σ F) : Prop :=
  Runs.run (nodeStep P server) n tr = some t

/-- Before `uart_loop` starts, with a meter in any state. -/
def bootNode (d : Device F) (s : σ) : Node σ F :=
  ⟨⟨bootWorld { d with task := bootTask, meters := initialMeters } [], true⟩, ⟨s, bootUart⟩⟩

end Systems

section Labels

variable {σ F : Type}

/-- What the UART task sees of a step. -/
def NodeLabel.task : NodeLabel σ F → List TaskLabel
  | .mqtt (.data m) => ((commandOf m.topicText m.dataText).bind Command.taskCall).toList
  | .mqtt .connected | .mqtt .disconnected | .mqtt .other => []
  | .uart pc _ => [.uart pc]
  | .meter _ | .others _ => []

/-- What happens on the line and in the meter. -/
def NodeLabel.bus : NodeLabel σ F → List (BusEvent σ)
  | .uart .clearSend io => [.clear io.clear]
  | .uart .poll io => [.poll io.params io.change io.energy]
  | .uart _ _ => []
  | .meter g => [.change g]
  | .mqtt _ | .others _ => []

def NodeLabel.isMessage (c : Command) : NodeLabel σ F → Bool
  | .mqtt (.data m) => m.topicText = ofString "sysop-set" ∧ m.dataText = ofString c.word
  | _ => false

def NodeLabel.isUart : NodeLabel σ F → Bool
  | .uart _ _ => true
  | _ => false

/-- A clear is transmitted, whether it reaches the meter or is lost. -/
def NodeLabel.transmitsClear : NodeLabel σ F → Bool
  | .uart .clearSend _ => true
  | _ => false

/-- A clear is transmitted, and the meter executes it. -/
def NodeLabel.clears : NodeLabel σ F → Bool
  | .uart .clearSend io => io.clear ≠ .lost
  | _ => false

theorem message_calls (m : Message) (c : Command) {a : TaskLabel} (call : c.taskCall = some a)
    (only : ∀ c', c'.taskCall = some a → c' = c) :
    ((commandOf m.topicText m.dataText).bind Command.taskCall).toList.count a =
      if m.topicText = ofString "sysop-set" ∧ m.dataText = ofString c.word then 1 else 0 := by
  have hcommand : (commandOf m.topicText m.dataText).bind Command.taskCall = some a ↔
      m.topicText = ofString "sysop-set" ∧ m.dataText = ofString c.word := by
    rw [Option.bind_eq_some_iff, commandOf]
    constructor
    · rintro ⟨c', hc', hcall⟩
      obtain rfl := only c' hcall
      obtain ⟨htopic, hword⟩ := Option.ite_none_right_eq_some.mp hc'
      exact ⟨htopic, spelled_eq_some.mp hword⟩
    · rintro ⟨htopic, hword⟩
      exact ⟨c, by rw [if_pos htopic, spelled_eq_some.mpr hword], call⟩
  rw [← if_congr hcommand rfl rfl]
  cases (commandOf m.topicText m.dataText).bind Command.taskCall with
  | none => simp
  | some b =>
      rw [Option.toList_some, List.count_singleton]
      simp

/-- Labels of the task are counted in a run by the steps that they come from. -/
theorem countP_task {p : TaskLabel → Bool} {q : NodeLabel σ F → Bool}
    (h : ∀ a : NodeLabel σ F, a.task.countP p = if q a then 1 else 0) (tr : List (NodeLabel σ F)) :
    (tr.flatMap NodeLabel.task).countP p = tr.countP q := by
  induction tr with
  | nil => rfl
  | cons a tr ih => rw [List.flatMap_cons, List.countP_append, ih, h, List.countP_cons, Nat.add_comm]

/-- A message makes no statement of the task. -/
theorem message_statements (m : Message) {p : TaskLabel → Bool} (own : ∀ a, p a = true → a.isUart = true) :
    (NodeLabel.mqtt (σ := σ) (F := F) (.data m)).task.countP p = 0 := by
  rw [List.countP_eq_zero, NodeLabel.task]
  intro a member pa
  obtain ⟨c, -, hcall⟩ := Option.bind_eq_some_iff.mp (Option.mem_toList.mp member)
  have huart := own a pa
  cases c with
  | changeRecWait1 | changeRecWait5 | changeRecWait60 | clearTotalEngery | removeUartRecTask =>
      obtain rfl := Option.some.inj hcall
      cases huart
  | resetWifi | restartOs | otaUpdate | debugMode => cases hcall

/-- Among the calls of a run are as many requests as there were messages for them. -/
theorem count_calls (tr : List (NodeLabel σ F)) (c : Command) {a : TaskLabel}
    (call : c.taskCall = some a) (only : ∀ c', c'.taskCall = some a → c' = c)
    (external : a.isUart = false) :
    (tr.flatMap NodeLabel.task).count a = tr.countP (NodeLabel.isMessage c) := by
  refine countP_task (fun b => ?_) tr
  cases b with
  | uart pc io =>
      have hother : ¬ (TaskLabel.uart pc == a) = true := by
        intro same
        rw [← beq_iff_eq.mp same] at external
        cases external
      exact (List.count_singleton ..).trans (if_neg hother)
  | meter g | others d => rfl
  | mqtt e =>
      cases e with
      | data m =>
          simp only [NodeLabel.isMessage, decide_eq_true_eq]
          exact message_calls m c call only
      | connected | disconnected | other => rfl

theorem mem_sent {tr : List (NodeLabel σ F)} {pc : UartPc}
    (h : .uart pc ∈ tr.flatMap NodeLabel.task) : ∃ io, .uart pc io ∈ tr := by
  obtain ⟨b, hb, hmem⟩ := List.mem_flatMap.mp h
  cases b with
  | uart pc' io =>
      obtain rfl := TaskLabel.uart.inj (List.mem_singleton.mp hmem)
      exact ⟨io, hb⟩
  | meter g | others d => cases hmem
  | mqtt e =>
      cases e with
      | data m =>
          obtain ⟨c, -, hcall⟩ := Option.bind_eq_some_iff.mp (Option.mem_toList.mp hmem)
          cases c <;> cases hcall
      | connected | disconnected | other => cases hmem

theorem count_transmitted (tr : List (NodeLabel σ F)) :
    (tr.flatMap NodeLabel.task).count clearSent = tr.countP NodeLabel.transmitsClear := by
  refine countP_task (fun a => ?_) tr
  cases a with
  | uart pc io => cases pc <;> rfl
  | meter g | others d => rfl
  | mqtt e =>
      cases e with
      | data m => exact message_statements m fun a same => by rw [beq_iff_eq.mp same]; rfl
      | connected | disconnected | other => rfl

theorem executed_transmitted (a : NodeLabel σ F) (h : a.clears = true) :
    a.transmitsClear = true := by
  cases a with
  | uart pc io =>
      cases pc with
      | clearSend => rfl
      | loopTest | clearTest | clearAssign | waitTest | increment | resetInner | budgetTest
      | fallbackCount | fallbackWait | poll | stopped => cases h
  | meter g | others d | mqtt e => cases h

end Labels

section Projections

variable {σ F : Type} [FloatArith F] {P : Platform F} {server : Meter σ}

omit [FloatArith F] in
theorem Command.effect_meters (d : Device F) (c : Command) :
    (deviceAfter (c.effect d)).meters = d.meters := by
  cases c with
  | otaUpdate =>
      simp only [effect]
      split <;> rfl
  | resetWifi | restartOs | removeUartRecTask | changeRecWait1 | changeRecWait5 | changeRecWait60
  | clearTotalEngery | debugMode => rfl

theorem dispatch_meters (topic data : CString) (d : Device F) :
    (deviceAfter (dispatch P topic data d)).meters = d.meters := by
  rw [dispatch]
  cases commandOf topic data with
  | none => rfl
  | some c =>
      have hmeters := c.effect_meters d
      simp only
      cases heffect : c.effect d with
      | error d' => rwa [heffect] at hmeters
      | ok result => rwa [heffect] at hmeters

/-- An event reaches the UART task through the call of a command alone. -/
theorem event_device (granted : ∀ n, P.grants n = true) {s t : HandlerState F} {e : MqttEvent}
    (h : clientStep P s (.event e) = some t) :
    TaskRun s.world.device.task (NodeLabel.mqtt (σ := σ) (F := F) e).task t.world.device.task ∧
      t.world.device.meters = s.world.device.meters := by
  by_cases message : ∃ m, e = .data m
  · obtain ⟨m, rfl⟩ := message
    have hdevice : t.world.device =
        deviceAfter (dispatch P m.topicText m.dataText s.world.device) := by
      have hstep : handlerStep P s (.message m) = some t := h
      exact message_device granted hstep
    rw [hdevice]
    exact ⟨dispatch_task P m.topicText m.dataText s.world.device, dispatch_meters _ _ _⟩
  · have hnone : (NodeLabel.mqtt (σ := σ) (F := F) e).task = [] := by
      cases e with
      | data m => exact absurd ⟨m, rfl⟩ message
      | connected | disconnected | other => rfl
    rw [hnone, (quiet_effect granted (not_exists.mp message) h).device]
    exact ⟨rfl, rfl⟩

theorem busRun_single (server : Meter σ) (b : Bus σ F) (e : BusEvent σ) :
    busRun server b [e] = busEvent server b e := by
  rw [busRun, List.foldlM_cons]
  cases busEvent server b e with
  | error f => rfl
  | ok b' => rfl

theorem exchange_bus (b : Bus σ F) (io : Exchanges σ) (pc : UartPc) :
    exchange server b io pc = busRun server b (NodeLabel.uart (F := F) pc io).bus := by
  cases pc with
  | clearSend => exact (busRun_single server b (.clear io.clear)).symm
  | poll =>
      exact (busRun_single server b (.poll io.params io.change io.energy)).symm
  | loopTest | clearTest | clearAssign | waitTest | increment | resetInner | budgetTest
  | fallbackCount | fallbackWait | stopped => rfl

/-- Every part of the node makes its own part of a step. -/
structure NodeStep (P : Platform F) (server : Meter σ) (n : Node σ F) (a : NodeLabel σ F)
    (t : Node σ F) : Prop where
  task : TaskRun n.task a.task t.task
  bus : busRun server n.bus a.bus = .ok t.bus
  meters : n.handler.world.device.meters = n.bus.uart.meters →
    t.handler.world.device.meters = t.bus.uart.meters

theorem node_step (granted : ∀ n, P.grants n = true) {n t : Node σ F} {a : NodeLabel σ F}
    (h : nodeStep P server n a = some t) : NodeStep P server n a t := by
  cases a with
  | mqtt e =>
      obtain ⟨u, hevent, rfl⟩ := Option.map_eq_some_iff.mp h
      obtain ⟨htask, hmeters⟩ := event_device (σ := σ) granted hevent
      exact ⟨htask, rfl, hmeters.trans⟩
  | uart pc io =>
      simp only [nodeStep] at h
      split at h
      · obtain ⟨task, htask, hrest⟩ := Option.bind_eq_some_iff.mp h
        cases hbus : exchange server n.bus io pc with
        | error f =>
            rw [hbus] at hrest
            cases hrest
        | ok bus =>
            rw [hbus] at hrest
            obtain rfl := Option.some.inj hrest
            rw [exchange_bus] at hbus
            exact ⟨Runs.run_cons_some.mpr ⟨task, htask, rfl⟩, hbus, fun _ => rfl⟩
      · cases h
  | meter g =>
      obtain rfl := Option.some.inj h
      exact ⟨rfl, rfl, id⟩
  | others d =>
      obtain ⟨-, rfl⟩ := Runs.enabled h
      exact ⟨rfl, rfl, id⟩

theorem busRun_append {b c d : Bus σ F} {es fs : List (BusEvent σ)}
    (hfirst : busRun server b es = .ok c) (hrest : busRun server c fs = .ok d) :
    busRun server b (es ++ fs) = .ok d := by
  rw [busRun, List.foldlM_append]
  change (busRun server b es >>= fun b => busRun server b fs) = _
  rw [hfirst]
  exact hrest

/-- A run of the node is a run of the UART task and a run of the line. -/
theorem node_run (granted : ∀ n, P.grants n = true) {n t : Node σ F} {tr : List (NodeLabel σ F)}
    (h : NodeRun P server n tr t) :
    TaskRun n.task (tr.flatMap NodeLabel.task) t.task ∧
      busRun server n.bus (tr.flatMap NodeLabel.bus) = .ok t.bus ∧
      (n.handler.world.device.meters = n.bus.uart.meters →
        t.handler.world.device.meters = t.bus.uart.meters) := by
  induction tr generalizing n with
  | nil =>
      obtain rfl := Option.some.inj h
      exact ⟨rfl, rfl, id⟩
  | cons a tr ih =>
      obtain ⟨u, hstep, hrest⟩ := Runs.run_cons_some.mp h
      obtain ⟨htask, hbus, hmeters⟩ := node_step granted hstep
      obtain ⟨htasks, hbuses, hmeters'⟩ := ih hrest
      exact ⟨Runs.run_append_some.mpr ⟨u.task, htask, htasks⟩, busRun_append hbus hbuses,
        hmeters' ∘ hmeters⟩

end Projections

section Calls

variable {σ F : Type}

theorem isMessage_task {a : NodeLabel σ F} {c : Command} (message : a.isMessage c = true) :
    a.task = c.taskCall.toList := by
  cases a with
  | uart pc io | meter g | others d => cases message
  | mqtt e =>
      cases e with
      | data m =>
          obtain ⟨htopic, hword⟩ := of_decide_eq_true message
          rw [NodeLabel.task, commandOf, if_pos htopic, spelled_eq_some.mpr hword,
            Option.bind_some]
      | connected | disconnected | other => cases message

theorem only_clear (c : Command) (call : c.taskCall = some clearRequested) :
    c = .clearTotalEngery := by
  cases c <;> first | rfl | cases call

theorem only_remove (c : Command) (call : c.taskCall = some .removeRecTask) :
    c = .removeUartRecTask := by
  cases c <;> first | rfl | cases call

theorem count_statements (tr : List (NodeLabel σ F)) :
    (tr.flatMap NodeLabel.task).countP TaskLabel.isUart = tr.countP NodeLabel.isUart := by
  refine countP_task (fun a => ?_) tr
  cases a with
  | uart pc io | meter g | others d => rfl
  | mqtt e =>
      cases e with
      | data m => exact message_statements m fun _ => id
      | connected | disconnected | other => rfl

/-- A message stands before the transmission that answers its request. -/
theorem message_answered {pre post : List (NodeLabel σ F)} {a : NodeLabel σ F}
    {s : TaskState} (message : a.isMessage .clearTotalEngery = true)
    (h : TaskRun bootTask ((pre ++ a :: post).flatMap NodeLabel.task) s) :
    Pending s ∨ ∃ io, .uart .clearSend io ∈ post := by
  have htask : a.task = [clearRequested] := isMessage_task message
  have hsplit : (pre ++ a :: post).flatMap NodeLabel.task = pre.flatMap NodeLabel.task ++
      clearRequested :: post.flatMap NodeLabel.task := by
    rw [List.flatMap_append, List.flatMap_cons, htask, List.singleton_append]
  rw [hsplit] at h
  rcases request_pending h (pre.flatMap NodeLabel.task).length (by simp) with
    hpend | ⟨j, hafter, hsent⟩
  · exact .inl hpend
  · obtain ⟨k, rfl⟩ : ∃ k, j = (pre.flatMap NodeLabel.task).length + (k + 1) :=
      ⟨j - (pre.flatMap NodeLabel.task).length - 1, by omega⟩
    rw [List.getElem?_append_right (Nat.le_add_right _ _), Nat.add_sub_cancel_left,
      List.getElem?_cons_succ] at hsent
    exact .inr (mem_sent (List.mem_of_getElem? hsent))

end Calls

section Results

variable {σ F : Type} [SingleArith F] {P : Platform F} {server : Meter σ} {d : Device F} {s : σ}
  {tr : List (NodeLabel σ F)} {n : Node σ F}

/-- Nothing is left on the line, and the variables that a message reads are those of the UART
task. -/
theorem node_idle (granted : ∀ n, P.grants n = true)
    (h : NodeRun P server (bootNode d s) tr n) :
    Idle initialMeters n.bus ((tr.flatMap NodeLabel.bus).foldl (idealEvent server) (s, untold)).1
        ((tr.flatMap NodeLabel.bus).foldl (idealEvent server) (s, untold)).2 ∧
      n.handler.world.device.meters = n.bus.uart.meters := by
  obtain ⟨-, hbus, hmeters⟩ := node_run granted h
  obtain ⟨b, hrun, idle⟩ := (bootUart_idle (F := F) s).run server (tr.flatMap NodeLabel.bus)
  obtain rfl := Except.ok.inj (hrun.symm.trans hbus)
  exact ⟨idle, hmeters rfl⟩

/-- Whatever the line does with it, a statement that the task alone could make is made. -/
theorem uart_statement (granted : ∀ n, P.grants n = true)
    (h : NodeRun P server (bootNode d s) tr n) (up : n.handler.up = true) {pc : UartPc}
    {u : TaskState} (hstep : taskStep n.task (.uart pc) = some u) (io : Exchanges σ) :
    ∃ t, nodeStep P server n (.uart pc io) = some t ∧ t.handler.up = true ∧ t.task = u := by
  obtain ⟨b, hbus, -⟩ := (node_idle granted h).1.run server (NodeLabel.uart (F := F) pc io).bus
  rw [← exchange_bus] at hbus
  simp only [nodeStep, up, if_true, hstep, Option.bind_some, hbus]
  exact ⟨_, rfl, up, rfl⟩

theorem node_goes_on (granted : ∀ n, P.grants n = true)
    (h : NodeRun P server (bootNode d s) tr n) (up : n.handler.up = true)
    (running : n.task.pc ≠ .stopped) (io : Exchanges σ) :
    ∃ t, nodeStep P server n (.uart n.task.pc io) = some t := by
  obtain ⟨task, hstep⟩ := uart_goes_on running
  obtain ⟨t, ht, -⟩ := uart_statement granted h up ((if_pos rfl).trans hstep) io
  exact ⟨t, ht⟩

/-- The meter changes only by itself and by the clears that reach it, and the variables show what
it told last. No more clears are transmitted, lost ones included, than messages asked for one, and
none of these messages is lost: while the task runs it transmits a clear within eleven of its
statements, none of which the line can hold up. -/
theorem energy_clears (granted : ∀ n, P.grants n = true)
    (h : NodeRun P server (bootNode d s) tr n) :
    n.bus.meter = ((tr.flatMap NodeLabel.bus).foldl (idealEvent server) (s, untold)).1 ∧
      Mirrors initialMeters ((tr.flatMap NodeLabel.bus).foldl (idealEvent server) (s, untold)).2
        n.handler.world.device.meters ∧
      tr.countP NodeLabel.clears ≤ tr.countP NodeLabel.transmitsClear ∧
      tr.countP NodeLabel.transmitsClear ≤ tr.countP (NodeLabel.isMessage .clearTotalEngery) ∧
      (∀ pre a post, tr = pre ++ a :: post → a.isMessage .clearTotalEngery = true →
        Pending n.task ∨ ∃ io, .uart .clearSend io ∈ post) ∧
      (∀ more t, Pending n.task → n.task.loop = true → NodeRun P server n more t →
        more.countP (NodeLabel.isMessage .removeUartRecTask) = 0 →
        11 ≤ more.countP NodeLabel.isUart → ∃ io, .uart .clearSend io ∈ more) ∧
      (n.handler.up = true → n.task.pc ≠ .stopped →
        ∀ io, ∃ t, nodeStep P server n (.uart n.task.pc io) = some t) := by
  obtain ⟨htask, -, -⟩ := node_run granted h
  obtain ⟨idle, hmeters⟩ := node_idle granted h
  refine ⟨idle.meter, by rw [hmeters]; exact idle.mirrors, ?_, ?_, ?_, ?_,
    node_goes_on granted h⟩
  · exact List.countP_mono_left fun a _ => executed_transmitted a
  · have hsent := sent_and_owed htask
    rw [count_calls tr .clearTotalEngery rfl only_clear rfl, count_transmitted] at hsent
    omega
  · rintro pre a post rfl message
    exact message_answered message htask
  · intro more t pend running hmore keep enough
    obtain ⟨hmoretask, -, -⟩ := node_run granted hmore
    refine mem_sent (pending_answered pend running hmoretask ?_ ?_)
    · rw [← List.count_eq_zero, count_calls more .removeUartRecTask rfl only_remove rfl]
      exact keep
    · rw [count_statements]
      exact (distance_le n.task.pc).trans enough

end Results

/-- A command that does not restart the sample device, as the first message. -/
theorem first_message {word : String} {device : Device Float32} {text : CString}
    (h : dispatch sampleBoard (ofString "sysop-set") (ofString word)
      { sampleDevice with task := bootTask, meters := initialMeters } = .ok (device, text)) :
    ∃ n, NodeRun sampleBoard tableMeter (bootNode sampleDevice fun _ => 0)
        [.mqtt (.data (.ofStrings "sysop-set" word))] n ∧
      n.handler.up = true ∧ n.task = device.task := by
  rw [← topicText_ofStrings "sysop-set" word, ← dataText_ofStrings "sysop-set" word] at h
  obtain ⟨w, _, hmessage, hdevice, -⟩ := message_returns
    (w := (bootNode (σ := UInt16 → UInt16) sampleDevice fun _ => 0).handler.world) (fun _ => rfl) h
  have hstep := clientStep_ok (s := (bootNode sampleDevice fun _ => 0).handler) rfl hmessage
  refine ⟨⟨⟨w, true⟩, ⟨fun _ => 0, bootUart⟩⟩, Runs.run_cons_some.mpr ⟨_, ?_, rfl⟩, rfl,
    congrArg Device.task hdevice⟩
  rw [nodeStep, hstep]
  rfl

def clearMessage : NodeLabel (UInt16 → UInt16) Float32 :=
  .mqtt (.data (.ofStrings "sysop-set" "clear_total_engery"))

theorem clear_message_pending :
    ∃ n, NodeRun sampleBoard tableMeter (bootNode sampleDevice fun _ => 0) [clearMessage] n ∧
      Pending n.task := by
  obtain ⟨n, hrun, -⟩ :=
    first_message (dispatch_set sampleBoard (ofString "clear_total_engery") _)
  have hmessages := (energy_clears (fun _ => rfl) hrun).2.2.2.2.1 [] clearMessage [] rfl
  refine ⟨n, hrun, (hmessages ?_).resolve_right fun h => List.not_mem_nil h.choose_spec⟩
  simp [clearMessage, NodeLabel.isMessage, Command.word]

end Ddsu666
