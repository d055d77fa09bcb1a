/- Requests to clear the energy counter, over every interleaving of the two tasks: none is lost
   and none is invented. -/
import Ddsu666.UartTask

namespace Ddsu666

abbrev clearSent : TaskLabel := .uart .clearSend

abbrev clearRequested : TaskLabel := .setIsClearTotalEngery

def UartPc.Clearing (pc : UartPc) : Prop := pc = .clearAssign ∨ pc = .clearSend

instance (pc : UartPc) : Decidable pc.Clearing := inferInstanceAs (Decidable (_ ∨ _))

def Pending (s : TaskState) : Prop := s.isClear = true ∨ s.pc.Clearing

/-- Transmissions that the present state still owes. Between test and assignment the flag
belongs to the transmission that is under way. -/
def owed (s : TaskState) : ℕ :=
  (if s.pc.Clearing then 1 else 0) + (if s.isClear = true ∧ s.pc ≠ .clearAssign then 1 else 0)

/-- All that a statement of the task does to the flag and to the clearing positions. -/
theorem uart_clear_cases {s t : TaskState} {pc : UartPc} (h : taskStep s (.uart pc) = some t) :
    s.pc = pc ∧
      ((pc = .clearTest ∧ s.isClear = true ∧ t.isClear = true ∧ t.pc = .clearAssign) ∨
        (pc = .clearAssign ∧ t.isClear = false ∧ t.pc = .clearSend) ∨
        (pc = .clearSend ∧ t.isClear = s.isClear ∧ ¬ t.pc.Clearing) ∨
        (¬ pc.Clearing ∧ t.isClear = s.isClear ∧ ¬ t.pc.Clearing ∧
          (pc = .clearTest → s.isClear = false))) := by
  obtain ⟨rfl, hstep⟩ := taskStep_uart h
  refine ⟨rfl, ?_⟩
  rcases s with ⟨pc, isClear, loop, vars⟩
  cases pc with
  | clearTest =>
      obtain rfl := Option.some.inj hstep
      cases isClear <;> simp [UartPc.Clearing]
  | clearAssign =>
      obtain rfl := Option.some.inj hstep
      simp
  | clearSend =>
      obtain rfl := Option.some.inj hstep
      simp [UartPc.Clearing]
  | waitTest =>
      simp only [uartStep] at hstep
      split at hstep <;> obtain rfl := Option.some.inj hstep <;> simp [UartPc.Clearing]
  | loopTest =>
      obtain rfl := Option.some.inj hstep
      cases loop <;> simp [UartPc.Clearing]
  | budgetTest =>
      obtain rfl := Option.some.inj hstep
      simp only [UartPc.Clearing]
      split <;> simp
  | stopped => cases hstep
  | increment | resetInner | fallbackCount | fallbackWait | poll =>
      obtain rfl := Option.some.inj hstep
      simp [UartPc.Clearing]

theorem owed_request (s : TaskState) : owed { s with isClear := true } ≤ owed s + 1 := by
  unfold owed
  split <;> split <;> split <;> simp_all

/-- A statement of the task pays for its transmission out of what was owed. -/
theorem owed_uart {s t : TaskState} {pc : UartPc} (h : taskStep s (.uart pc) = some t) :
    owed t + (if pc = .clearSend then 1 else 0) ≤ owed s := by
  obtain ⟨hpc, hcase⟩ := uart_clear_cases h
  rcases hcase with ⟨rfl, hs, ht, htpc⟩ | ⟨rfl, ht, htpc⟩ | ⟨rfl, ht, htpc⟩ | ⟨hno, ht, htpc, -⟩
  · simp [owed, hpc, hs, ht, htpc, UartPc.Clearing]
  · simp [owed, hpc, ht, htpc, UartPc.Clearing]
  · have hne : t.pc ≠ .clearAssign := fun e => htpc (.inl e)
    have hsend : t.pc ≠ .clearSend := fun e => htpc (.inr e)
    simp [owed, hpc, ht, hne, hsend, UartPc.Clearing, Nat.add_comm]
  · subst hpc
    have hne : t.pc ≠ .clearAssign := fun e => htpc (.inl e)
    have hnot : s.pc ≠ .clearAssign := fun e => hno (.inl e)
    have hsend : s.pc ≠ .clearSend := fun e => hno (.inr e)
    simp [owed, ht, htpc, hne, hno, hnot, hsend]

theorem sent_and_owed {tr : List TaskLabel} {s : TaskState} (h : TaskRun bootTask tr s) :
    tr.count clearSent + owed s ≤ tr.count clearRequested := by
  refine Runs.history_invariant
    (P := fun tr s => tr.count clearSent + owed s ≤ tr.count clearRequested) (by decide) ?_ tr s h
  intro as t a u _ hcount hstep
  rw [List.count_append, List.count_append]
  cases a with
  | uart pc =>
      have howed := owed_uart hstep
      have hsent : [TaskLabel.uart pc].count clearSent = if pc = .clearSend then 1 else 0 := by
        rw [List.count_singleton]
        simp
      rw [hsent]
      simp
      omega
  | setIsClearTotalEngery =>
      obtain rfl := Option.some.inj hstep
      have := owed_request t
      simp
      omega
  | changeRecWait sec | removeRecTask =>
      obtain rfl := Option.some.inj hstep
      simpa [owed] using hcount

/-- Every request that no later transmission has answered is still pending. -/
theorem request_pending {tr : List TaskLabel} {s : TaskState} (h : TaskRun bootTask tr s) :
    ∀ i : ℕ, tr[i]? = some clearRequested →
      Pending s ∨ ∃ j, i < j ∧ tr[j]? = some clearSent := by
  refine Runs.history_invariant (P := fun tr s => ∀ i : ℕ,
    tr[i]? = some clearRequested → Pending s ∨ ∃ j, i < j ∧ tr[j]? = some clearSent) ?_ ?_ tr s h
  · intro i hi
    cases hi
  · intro as t a u _ ih hstep i hi
    rcases Nat.lt_or_ge i as.length with hlt | hge
    · rw [List.getElem?_append_left hlt] at hi
      rcases ih i hi with hpend | ⟨j, hij, hj⟩
      · cases a with
        | uart pc =>
            obtain ⟨rfl, hcase⟩ := uart_clear_cases hstep
            rcases hcase with ⟨-, -, ht, -⟩ | ⟨-, -, htpc⟩ | ⟨hsend, -, -⟩ | ⟨hno, ht, -, -⟩
            · exact .inl (.inl ht)
            · exact .inl (.inr (.inr htpc))
            · exact .inr ⟨as.length, hlt, by simp [hsend]⟩
            · exact .inl (.inl (ht.trans (hpend.resolve_right hno)))
        | setIsClearTotalEngery =>
            obtain rfl := Option.some.inj hstep
            exact .inl (.inl rfl)
        | changeRecWait sec | removeRecTask =>
            obtain rfl := Option.some.inj hstep
            exact .inl hpend
      · refine .inr ⟨j, hij, ?_⟩
        rw [List.getElem?_append_left (List.getElem?_eq_some_iff.mp hj).1, hj]
    · have hlast : i = as.length := by
        have := (List.getElem?_eq_some_iff.mp hi).1
        simp at this
        omega
      subst hlast
      obtain rfl : a = clearRequested := by simpa using hi
      obtain rfl := Option.some.inj hstep
      exact .inl (.inl rfl)

/-! A pending request is answered once the task has made enough statements. -/

/-- Statements of the task, at most, until it transmits. -/
def UartPc.distance : UartPc → ℕ
  | .clearSend => 1
  | .clearAssign => 2
  | .clearTest => 3
  | .loopTest => 4
  | .poll => 5
  | .fallbackWait => 6
  | .fallbackCount => 7
  | .budgetTest => 8
  | .resetInner => 9
  | .increment => 10
  | .waitTest | .stopped => 11

theorem distance_le (pc : UartPc) : pc.distance ≤ 11 := by cases pc <;> decide

theorem distance_pos (pc : UartPc) : 0 < pc.distance := by cases pc <;> decide

/-- While a request is pending every statement but the transmission comes closer to it. -/
theorem uart_progress {s t : TaskState} {pc : UartPc} (pend : Pending s) (hloop : s.loop = true)
    (hne : pc ≠ .clearSend) (h : taskStep s (.uart pc) = some t) :
    Pending t ∧ t.loop = true ∧ t.pc.distance < s.pc.distance := by
  obtain ⟨rfl, hstep⟩ := taskStep_uart h
  rcases s with ⟨pc, isClear, loop, vars⟩
  subst hloop
  cases pc with
  | clearTest =>
      obtain rfl : isClear = true := pend.resolve_right (by simp [UartPc.Clearing])
      obtain rfl := Option.some.inj hstep
      exact ⟨.inl rfl, rfl, by simp [UartPc.distance]⟩
  | clearAssign =>
      obtain rfl := Option.some.inj hstep
      exact ⟨.inr (.inr rfl), rfl, by simp [UartPc.distance]⟩
  | clearSend => exact absurd rfl hne
  | stopped => cases hstep
  | waitTest =>
      have hflag := pend.resolve_right (by simp [UartPc.Clearing])
      simp only [uartStep] at hstep
      split at hstep <;> obtain rfl := Option.some.inj hstep <;>
        exact ⟨.inl hflag, rfl, by simp [UartPc.distance]⟩
  | budgetTest =>
      have hflag := pend.resolve_right (by simp [UartPc.Clearing])
      obtain rfl := Option.some.inj hstep
      refine ⟨.inl hflag, rfl, ?_⟩
      simp only
      split <;> simp [UartPc.distance]
  | loopTest | increment | resetInner | fallbackCount | fallbackWait | poll =>
      have hflag := pend.resolve_right (by simp [UartPc.Clearing])
      obtain rfl := Option.some.inj hstep
      exact ⟨.inl hflag, rfl, by simp [UartPc.distance]⟩

theorem pending_answered {s t : TaskState} {tr : List TaskLabel} (pend : Pending s)
    (hloop : s.loop = true) (h : TaskRun s tr t) (keep : .removeRecTask ∉ tr)
    (enough : s.pc.distance ≤ tr.countP TaskLabel.isUart) : clearSent ∈ tr := by
  induction tr generalizing s with
  | nil =>
      have hpos := distance_pos s.pc
      rw [List.countP_nil] at enough
      omega
  | cons a tr ih =>
      obtain ⟨u, hstep, hrest⟩ := Runs.run_cons_some.mp h
      rw [List.mem_cons, not_or] at keep
      rw [List.mem_cons]
      cases a with
      | uart pc =>
          by_cases hsend : pc = .clearSend
          · exact .inl (by rw [hsend])
          · obtain ⟨hpend, hloop', hdist⟩ := uart_progress pend hloop hsend hstep
            rw [List.countP_cons_of_pos rfl] at enough
            exact .inr (ih hpend hloop' hrest keep.2 (by omega))
      | setIsClearTotalEngery =>
          obtain rfl := Option.some.inj hstep
          exact .inr (ih (s := { s with isClear := true }) (.inl rfl) hloop hrest keep.2 enough)
      | changeRecWait sec =>
          obtain rfl := Option.some.inj hstep
          exact .inr (ih (s := { s with vars := changeRecWait sec s.vars }) pend hloop hrest keep.2
            enough)
      | removeRecTask => exact absurd rfl keep.1

/-- No clear command is invented, none is lost, and a task that keeps running answers every
pending request within eleven of its statements. -/
theorem clear_requests {tr : List TaskLabel} {s : TaskState} (h : TaskRun bootTask tr s) :
    tr.count clearSent ≤ tr.count clearRequested ∧
      (∀ i : ℕ, tr[i]? = some clearRequested →
        Pending s ∨ ∃ j, i < j ∧ tr[j]? = some clearSent) ∧
      ∀ more t, Pending s → s.loop = true → TaskRun s more t → .removeRecTask ∉ more →
        11 ≤ more.countP TaskLabel.isUart → clearSent ∈ more := by
  refine ⟨?_, request_pending h, ?_⟩
  · have := sent_and_owed h
    omega
  · intro more t pend hloop hmore keep enough
    exact pending_answered pend hloop hmore keep ((distance_le s.pc).trans enough)

/-- A second request arrives after the flag was taken and before the transmission. -/
theorem clear_requests_overlapping :
    Pending { bootTask with pc := .waitTest, isClear := true } ∨
      ∃ j, 4 < j ∧ [clearRequested, .uart .loopTest, .uart .clearTest, .uart .clearAssign,
        clearRequested, clearSent][j]? = some clearSent :=
  (@clear_requests [clearRequested, .uart .loopTest, .uart .clearTest, .uart .clearAssign,
    clearRequested, clearSent] { bootTask with pc := .waitTest, isClear := true } rfl).2.1 4 rfl

end Ddsu666
