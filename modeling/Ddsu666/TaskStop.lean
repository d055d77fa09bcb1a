/- The end of the UART task: what it still does after `remove_rec_task`, over every interleaving
   with the calls of the other task. -/
import Ddsu666.ClearRequests

namespace Ddsu666

/-- Statements of the task that are left, at most, once the loop is switched off. -/
def UartPc.left : UartPc → ℕ
  | .stopped => 0
  | .loopTest => 1
  | .poll => 2
  | .fallbackWait => 3
  | .fallbackCount => 4
  | .budgetTest => 5
  | .resetInner => 6
  | .increment => 7
  | .waitTest => 8
  | .clearSend => 9
  | .clearAssign => 10
  | .clearTest => 11

theorem UartPc.left_le (pc : UartPc) : pc.left ≤ 11 := by cases pc <;> decide

theorem UartPc.left_eq_zero {pc : UartPc} (h : pc.left = 0) : pc = .stopped := by
  cases pc <;> first | rfl | exact absurd h (by decide)

theorem uart_left {s t : TaskState} (off : s.loop = false) (h : uartStep s = some t) :
    t.loop = false ∧ t.pc.left < s.pc.left := by
  rcases s with ⟨pc, isClear, loop, vars⟩
  obtain rfl : loop = false := off
  cases pc with
  | stopped => cases h
  | clearTest =>
      obtain rfl := Option.some.inj h
      cases isClear <;> exact ⟨rfl, by simp [UartPc.left]⟩
  | waitTest =>
      simp only [uartStep] at h
      split at h <;> obtain rfl := Option.some.inj h <;> exact ⟨rfl, by simp [UartPc.left]⟩
  | budgetTest =>
      obtain rfl := Option.some.inj h
      refine ⟨rfl, ?_⟩
      simp only
      split <;> simp [UartPc.left]
  | loopTest | clearAssign | clearSend | increment | resetInner | fallbackCount | fallbackWait
  | poll =>
      obtain rfl := Option.some.inj h
      exact ⟨rfl, by simp [UartPc.left]⟩

theorem uart_goes_on {s : TaskState} (running : s.pc ≠ .stopped) : ∃ t, uartStep s = some t := by
  rcases s with ⟨pc, isClear, loop, vars⟩
  cases pc with
  | stopped => exact absurd rfl running
  | waitTest =>
      simp only [uartStep]
      split <;> exact ⟨_, rfl⟩
  | loopTest | clearTest | clearAssign | clearSend | increment | resetInner | budgetTest
  | fallbackCount | fallbackWait | poll => exact ⟨_, rfl⟩

theorem call_left {s t : TaskState} {a : TaskLabel} (call : a.isUart = false)
    (off : s.loop = false) (h : taskStep s a = some t) : t.loop = false ∧ t.pc = s.pc := by
  cases a with
  | uart pc => cases call
  | setIsClearTotalEngery | changeRecWait sec =>
      obtain rfl := Option.some.inj h
      exact ⟨off, rfl⟩
  | removeRecTask =>
      obtain rfl := Option.some.inj h
      exact ⟨rfl, rfl⟩

/-- Each statement is executed at most once more, and only if it is still ahead. -/
theorem statements_left {s t : TaskState} {tr : List TaskLabel} (off : s.loop = false)
    (h : TaskRun s tr t) :
    t.loop = false ∧ tr.countP TaskLabel.isUart + t.pc.left ≤ s.pc.left ∧
      ∀ pc, tr.count (.uart pc) ≤ if pc.left ≤ s.pc.left then 1 else 0 := by
  induction tr generalizing s with
  | nil =>
      obtain rfl := Option.some.inj h
      exact ⟨off, by simp, by simp⟩
  | cons a tr ih =>
      obtain ⟨u, hstep, hrest⟩ := Runs.run_cons_some.mp h
      cases hcall : a.isUart with
      | true =>
          obtain ⟨q, rfl⟩ : ∃ q, a = .uart q := by
            cases a with
            | uart q => exact ⟨q, rfl⟩
            | setIsClearTotalEngery | changeRecWait sec | removeRecTask => cases hcall
          obtain ⟨rfl, hstatement⟩ := taskStep_uart hstep
          obtain ⟨hoff, hless⟩ := uart_left off hstatement
          obtain ⟨ht, hcount, hpc⟩ := ih hoff hrest
          refine ⟨ht, ?_, ?_⟩
          · rw [List.countP_cons_of_pos hcall]
            omega
          · intro pc
            have hlater := hpc pc
            rw [List.count_cons]
            by_cases same : s.pc = pc
            · subst same
              rw [if_neg (by omega)] at hlater
              simp only [beq_self_eq_true, if_true, le_refl]
              omega
            · rw [if_neg (by simpa using same), Nat.add_zero]
              refine hlater.trans ?_
              split
              · rw [if_pos (by omega)]
              · exact Nat.zero_le _
      | false =>
          obtain ⟨hoff, hpc⟩ := call_left hcall off hstep
          obtain ⟨ht, hcount, hlater⟩ := ih hoff hrest
          rw [hpc] at hcount hlater
          refine ⟨ht, ?_, ?_⟩
          · rw [List.countP_cons_of_neg (by simp [hcall])]
            exact hcount
          · intro pc
            have hother : ¬ (a == .uart pc) = true := by
              intro same
              rw [beq_iff_eq.mp same] at hcall
              cases hcall
            rw [List.count_cons, if_neg hother]
            exact hlater pc

theorem task_ends {s : TaskState} (off : s.loop = false) {n : ℕ} (hn : s.pc.left ≤ n) :
    ∃ tr t, (∀ a ∈ tr, a.isUart = true) ∧ tr.length ≤ n ∧ TaskRun s tr t ∧ t.pc = .stopped := by
  induction n generalizing s with
  | zero => exact ⟨[], s, by simp, le_rfl, rfl, UartPc.left_eq_zero (Nat.le_zero.mp hn)⟩
  | succ n ih =>
      by_cases running : s.pc = .stopped
      · exact ⟨[], s, by simp, Nat.zero_le _, rfl, running⟩
      · obtain ⟨u, hstep⟩ := uart_goes_on running
        obtain ⟨hoff, hless⟩ := uart_left off hstep
        obtain ⟨tr, t, huart, hlength, hrun, hend⟩ := ih hoff (by omega)
        refine ⟨.uart s.pc :: tr, t, ?_, Nat.succ_le_succ hlength,
          Runs.run_cons_some.mpr ⟨u, ?_, hrun⟩, hend⟩
        · intro a ha
          rcases List.mem_cons.mp ha with rfl | ha
          · rfl
          · exact huart a ha
        · exact (if_pos rfl).trans hstep

/-- Whenever `remove_rec_task` is called and whatever is called after it, the task makes at most
eleven more statements, none of them twice: one poll and one transmission of the clear command
only where they were still ahead. Nothing but its end keeps it from getting there. -/
theorem removed_task_stops {s t : TaskState} {post : List TaskLabel}
    (h : TaskRun s (.removeRecTask :: post) t) :
    post.countP TaskLabel.isUart + t.pc.left ≤ 11 ∧
      (∀ pc, post.count (.uart pc) ≤ if pc.left ≤ s.pc.left then 1 else 0) ∧
      ∃ tr u, (∀ a ∈ tr, a.isUart = true) ∧ tr.length ≤ t.pc.left ∧ TaskRun t tr u ∧
        u.pc = .stopped := by
  obtain ⟨u, hstep, hrest⟩ := Runs.run_cons_some.mp h
  obtain rfl := Option.some.inj hstep
  obtain ⟨hoff, hcount, hpc⟩ := statements_left (s := { s with loop := false }) rfl hrest
  exact ⟨hcount.trans s.pc.left_le, hpc, task_ends hoff le_rfl⟩

/-- A clear is requested when the loop is off and the wait has been tested: it is never sent. -/
theorem removed_task_stops_waiting :
    [TaskLabel.uart .increment, clearRequested, .uart .resetInner, .uart .budgetTest].count
      clearSent ≤ 0 :=
  (@removed_task_stops ⟨.increment, false, true, ⟨4, 0, 5⟩⟩ ⟨.poll, true, false, ⟨0, 1, 5⟩⟩
    [.uart .increment, clearRequested, .uart .resetInner, .uart .budgetTest] rfl).2.1 .clearSend

end Ddsu666
