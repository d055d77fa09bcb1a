/- The UART task of uart.c statement by statement, interleaved with the calls that the MQTT task
   makes into it. -/
import Ddsu666.PollLoop
import Ddsu666.Runs

namespace Ddsu666

/-- The statement that the UART task executes next. -/
inductive UartPc where
  | loopTest
  | clearTest
  | clearAssign
  | clearSend
  | waitTest
  | increment
  | resetInner
  | budgetTest
  | fallbackCount
  | fallbackWait
  | poll
  | stopped
  deriving DecidableEq, Repr

structure TaskState where
  pc : UartPc
  isClear : Bool
  loop : Bool
  vars : LoopVars
  deriving DecidableEq, Repr

/-- A statement of the UART task, or a complete call from the MQTT task. -/
inductive TaskLabel where
  | uart (pc : UartPc)
  | setIsClearTotalEngery
  | changeRecWait (sec : ℤ)
  | removeRecTask
  deriving DecidableEq, Repr

def TaskLabel.isUart : TaskLabel → Bool
  | .uart _ => true
  | _ => false

def bootTask : TaskState := ⟨.loopTest, false, true, bootVars⟩

/-- The statement at the present position; delays and transfers with the meter change nothing. -/
def uartStep (s : TaskState) : Option TaskState :=
  match s.pc with
  | .loopTest => some { s with pc := if s.loop then .clearTest else .stopped }
  | .clearTest => some { s with pc := if s.isClear then .clearAssign else .waitTest }
  | .clearAssign => some { s with pc := .clearSend, isClear := false }
  | .clearSend => some { s with pc := .waitTest }
  | .waitTest =>
      if polls s.vars then some { s with pc := .increment }
      else some { s with
        pc := .loopTest, vars := { s.vars with innerLoop := s.vars.innerLoop + 1 } }
  | .increment => some { s with
      pc := .resetInner, vars := { s.vars with loopCount := s.vars.loopCount + 1 } }
  | .resetInner => some { s with pc := .budgetTest, vars := { s.vars with innerLoop := 0 } }
  | .budgetTest => some { s with
      pc := if s.vars.loopCount = tempMaxLoop then .fallbackCount else .poll }
  | .fallbackCount => some { s with pc := .fallbackWait, vars := { s.vars with loopCount := 0 } }
  | .fallbackWait => some { s with pc := .poll, vars := { s.vars with recWait := stableRecWait } }
  | .poll => some { s with pc := .loopTest }
  | .stopped => none

def taskStep (s : TaskState) : TaskLabel → Option TaskState
  | .uart pc => if s.pc = pc then uartStep s else none
  | .setIsClearTotalEngery => some { s with isClear := true }
  | .changeRecWait sec => some { s with vars := changeRecWait sec s.vars }
  | .removeRecTask => some { s with loop := false }

def TaskRun (s : TaskState) (tr : List TaskLabel) (t : TaskState) : Prop :=
  Runs.run taskStep s tr = some t

theorem taskStep_uart {s t : TaskState} {pc : UartPc} (h : taskStep s (.uart pc) = some t) :
    s.pc = pc ∧ uartStep s = some t :=
  Option.ite_none_right_eq_some.mp h

/-! The task alone, between two tests of `loop`, performs one pass. -/

def clearLabels (isClear : Bool) : List TaskLabel :=
  .uart .loopTest :: .uart .clearTest ::
    if isClear then [.uart .clearAssign, .uart .clearSend] else []

def fallbackLabels (v : LoopVars) : List TaskLabel :=
  if v.loopCount + 1 = tempMaxLoop then [.uart .fallbackCount, .uart .fallbackWait] else []

def waitLabels (v : LoopVars) : List TaskLabel :=
  .uart .waitTest ::
    if polls v then
      .uart .increment :: .uart .resetInner :: .uart .budgetTest ::
        (fallbackLabels v ++ [.uart .poll])
    else []

/-- The statements of one pass, in the order in which they are reached. -/
def passLabels (s : TaskState) : List TaskLabel := clearLabels s.isClear ++ waitLabels s.vars

theorem clearLabels_run {s : TaskState} (hpc : s.pc = .loopTest) (hloop : s.loop = true) :
    TaskRun s (clearLabels s.isClear) { s with pc := .waitTest, isClear := false } := by
  rcases s with ⟨pc, isClear, loop, vars⟩
  subst hpc hloop
  cases isClear <;> rfl

theorem waitLabels_run {s : TaskState} (hpc : s.pc = .waitTest) :
    TaskRun s (waitLabels s.vars) { s with pc := .loopTest, vars := tick s.vars } := by
  rcases s with ⟨pc, isClear, loop, vars⟩
  subst hpc
  cases hp : polls vars with
  | false =>
      rw [tick_idle hp]
      simp [TaskRun, waitLabels, Runs.run, taskStep, uartStep, hp]
  | true =>
      by_cases last : vars.loopCount + 1 = 300
      · rw [tick_last_poll hp last]
        simp [TaskRun, waitLabels, fallbackLabels, Runs.run, taskStep, uartStep, hp, tempMaxLoop,
          last, stableRecWait]
      · rw [tick_poll hp last]
        simp [TaskRun, waitLabels, fallbackLabels, Runs.run, taskStep, uartStep, hp, tempMaxLoop,
          last]

/-- Run alone from the head of the loop, the task does what `uartLoopPass` says. -/
theorem pass_refines {s : TaskState} (hpc : s.pc = .loopTest) (hloop : s.loop = true) :
    TaskRun s (passLabels s)
      { s with isClear := false, vars := (uartLoopPass s.isClear s.vars).1 } := by
  have hwait := waitLabels_run (s := { s with pc := .waitTest, isClear := false }) rfl
  rw [uartLoopPass_vars]
  refine Runs.run_append_some.mpr ⟨_, clearLabels_run hpc hloop, ?_⟩
  rw [TaskRun] at hwait
  rw [hwait, hpc]

end Ddsu666
