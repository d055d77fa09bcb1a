/- The polling rate of the whole device as a budget: a requested rate is good for 300 polls, and
   then the stable one takes its place. -/
import Ddsu666.EnergyClears
import Ddsu666.RateChanges

namespace Ddsu666
open StringHeap

/-- The rate in force, and how many polls it has been used for. -/
structure Budget where
  rate : ℤ
  polls : ℕ
  deriving DecidableEq, Repr

namespace Budget

def boot : Budget := ⟨5, 0⟩

def stable : Budget := ⟨60, 0⟩

def request (sec : ℤ) : Budget := ⟨sec, 0⟩

def poll (b : Budget) : Budget :=
  if b.polls + 1 = 300 then stable else { b with polls := b.polls + 1 }

def after (b : Budget) : TaskLabel → Budget
  | .changeRecWait sec => request sec
  | .uart .increment => b.poll
  | _ => b

end Budget

def Command.rate? : Command → Option ℤ
  | .changeRecWait1 => some 1
  | .changeRecWait5 => some 5
  | .changeRecWait60 => some 60
  | _ => none

section Labels

variable {σ F : Type}

/-- The rate that a message asks for. -/
def NodeLabel.rate? : NodeLabel σ F → Option ℤ
  | .mqtt (.data m) => (commandOf m.topicText m.dataText).bind Command.rate?
  | _ => none

def NodeLabel.budget (b : Budget) : NodeLabel σ F → Budget
  | .uart .increment _ => b.poll
  | a => (a.rate?.map Budget.request).getD b

end Labels

/-- The budget is used up, and the task is on its way to write the stable rate. -/
def Switching (s : TaskState) : Prop :=
  match s.pc with
  | .resetInner | .budgetTest => s.vars.loopCount = 300
  | .fallbackCount => True
  | .fallbackWait => s.vars.loopCount = 0
  | _ => False

/-- The variables are those of the budget, except while the task switches over. -/
inductive Follows (b : Budget) (s : TaskState) : Prop
  | steady (few : b.polls < 300) (rate : s.vars.recWait = b.rate)
      (count : s.vars.loopCount = b.polls) (outside : ¬ s.pc.FallingBack)
  | switching (spent : b = .stable) (pc : Switching s)

section Steps

variable {b : Budget} {s t : TaskState}

/-- A statement of the task while the budget lasts. -/
theorem Follows.steady_uart {pc : UartPc} (few : b.polls < 300) (rate : s.vars.recWait = b.rate)
    (count : s.vars.loopCount = b.polls) (outside : ¬ s.pc.FallingBack)
    (h : taskStep s (.uart pc) = some t) : Follows (b.after (.uart pc)) t := by
  have hstep := h
  obtain ⟨rfl, hcase⟩ := uart_rate_cases h
  rcases hcase with ⟨hpc, hrate, hcount, hout⟩ | ⟨hpc, -⟩ | ⟨hpc, -⟩ |
    ⟨-, hother, hrate, hcount, hin⟩
  · rw [hpc, Budget.after, Budget.poll]
    split
    · rename_i last
      refine .switching rfl ?_
      obtain ⟨-, hnext⟩ := taskStep_uart hstep
      rw [uartStep, hpc] at hnext
      obtain rfl := Option.some.inj hnext
      change s.vars.loopCount + 1 = 300
      rw [count]
      exact_mod_cast last
    · rename_i more
      refine .steady ?_ (hrate.trans rate) ?_ hout
      · change b.polls + 1 < 300
        omega
      · rw [hcount, count]
        rfl
  · exact absurd (.inl hpc) outside
  · exact absurd (.inr hpc) outside
  · have hafter : b.after (.uart s.pc) = b := by
      cases hpc : s.pc with
      | increment => exact absurd hpc hother
      | loopTest | clearTest | clearAssign | clearSend | waitTest | resetInner | budgetTest
      | fallbackCount | fallbackWait | poll | stopped => rfl
    rw [hafter]
    refine .steady few (hrate.trans rate) (hcount.trans count) fun falling => ?_
    have hfull := hin falling
    rw [count, tempMaxLoop] at hfull
    omega

/-- Nothing holds up the task once the budget is spent. -/
theorem Follows.switching_uart {pc : UartPc} (switching : Switching s)
    (h : taskStep s (.uart pc) = some t) : Follows (Budget.stable.after (.uart pc)) t := by
  obtain ⟨rfl, hstep⟩ := taskStep_uart h
  rcases s with ⟨pc, isClear, loop, vars⟩
  cases pc with
  | resetInner =>
      obtain rfl := Option.some.inj hstep
      exact .switching rfl switching
  | budgetTest =>
      have hfull : vars.loopCount = tempMaxLoop := switching
      simp only [uartStep, hfull, if_true] at hstep
      obtain rfl := Option.some.inj hstep
      exact .switching rfl trivial
  | fallbackCount =>
      obtain rfl := Option.some.inj hstep
      exact .switching rfl rfl
  | fallbackWait =>
      obtain rfl := Option.some.inj hstep
      refine .steady (by decide : (0 : ℕ) < 300) rfl switching ?_
      rintro (hpc | hpc)
      · cases hpc
      · cases hpc
  | loopTest | clearTest | clearAssign | clearSend | waitTest | increment | poll | stopped =>
      exact switching.elim

/-- A request is granted at once, but not between the test of the counter and the write of the
rate. -/
theorem follows_change {sec : ℤ} (good : MissesWindow s (.changeRecWait sec)) :
    Follows (.request sec) { s with vars := changeRecWait sec s.vars } := by
  by_cases falling : s.pc.FallingBack
  · obtain rfl := good sec rfl falling
    refine .switching rfl ?_
    rcases falling with hpc | hpc
    · simp only [Switching, hpc]
    · simp only [Switching, hpc]
      rfl
  · exact .steady (by decide : (0 : ℕ) < 300) rfl rfl falling

theorem Follows.step {a : TaskLabel} (follows : Follows b s) (good : MissesWindow s a)
    (h : taskStep s a = some t) : Follows (b.after a) t := by
  cases a with
  | changeRecWait sec =>
      obtain rfl := Option.some.inj h
      exact follows_change good
  | setIsClearTotalEngery | removeRecTask =>
      obtain rfl := Option.some.inj h
      cases follows with
      | steady few rate count outside => exact .steady few rate count outside
      | switching spent pc => exact .switching spent pc
  | uart pc =>
      cases follows with
      | steady few rate count outside => exact .steady_uart few rate count outside h
      | switching spent switching =>
          rw [spent]
          exact .switching_uart switching h

end Steps

section Results

variable {σ F : Type}

variable [FloatArith F] {P : Platform F} {server : Meter σ} {d : Device F} {s : σ}
  {tr : List (NodeLabel σ F)} {n : Node σ F}

end Results

end Ddsu666
