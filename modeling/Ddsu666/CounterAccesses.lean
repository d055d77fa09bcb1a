/- The counter of uart.c access by access: `++loop_count` is a read and a write, and so are the two
   assignments of `change_rec_wait` two steps, between which the other task can run. -/
import Ddsu666.UartTask

namespace Ddsu666

/-- The tasks with the copy of `loop_count` that is about to be written back, and the argument of a
call of `change_rec_wait` that has only reset the counter so far. -/
structure AccessState where
  task : TaskState
  copy : Option ℤ
  call : Option ℤ
  deriving DecidableEq, Repr

inductive AccessLabel where
  | uart (pc : UartPc)
  | countRead
  | countWrite
  | changeCount (sec : ℤ)
  | changeWait
  | setIsClearTotalEngery
  | removeRecTask
  deriving DecidableEq, Repr

/-- A step of `change_rec_wait` outside the UART task. -/
def AccessLabel.isChange : AccessLabel → Bool
  | .changeCount _ | .changeWait => true
  | _ => false

def bootAccess : AccessState := ⟨bootTask, none, none⟩

/-- Every other statement of the UART task has at most one access to the shared variables. -/
def accessStep (s : AccessState) : AccessLabel → Option AccessState
  | .uart pc =>
      if s.task.pc = pc ∧ pc ≠ .increment then
        (uartStep s.task).map fun t => { s with task := t }
      else none
  | .countRead =>
      if s.task.pc = .increment ∧ s.copy = none then
        some { s with copy := some s.task.vars.loopCount }
      else none
  | .countWrite =>
      match s.copy with
      | none => none
      | some c => some { s with
          task := { s.task with
            pc := .resetInner, vars := { s.task.vars with loopCount := c + 1 } }
          copy := none }
  | .changeCount sec =>
      if s.call = none then some { s with
        task := { s.task with vars := { s.task.vars with loopCount := 0 } }, call := some sec }
      else none
  | .changeWait =>
      match s.call with
      | none => none
      | some sec => some { s with
          task := { s.task with vars := { s.task.vars with recWait := sec } }, call := none }
  | .setIsClearTotalEngery => some { s with task := { s.task with isClear := true } }
  | .removeRecTask => some { s with task := { s.task with loop := false } }

def AccessRun (s : AccessState) (tr : List AccessLabel) (t : AccessState) : Prop :=
  Runs.run accessStep s tr = some t

/-! What the steps do. -/

section Steps

variable {s t : AccessState}

theorem accessStep_uart {pc : UartPc} (h : accessStep s (.uart pc) = some t) :
    s.task.pc = pc ∧ pc ≠ .increment ∧
      ∃ u, uartStep s.task = some u ∧ t = { s with task := u } := by
  obtain ⟨⟨hpc, other⟩, hmap⟩ := Option.ite_none_right_eq_some.mp h
  obtain ⟨u, hstep, rfl⟩ := Option.map_eq_some_iff.mp hmap
  exact ⟨hpc, other, u, hstep, rfl⟩

theorem accessStep_countRead (h : accessStep s .countRead = some t) :
    s.task.pc = .increment ∧ t = { s with copy := some s.task.vars.loopCount } := by
  obtain ⟨⟨hpc, -⟩, rfl⟩ := Runs.enabled h
  exact ⟨hpc, rfl⟩

theorem accessStep_countWrite (h : accessStep s .countWrite = some t) :
    ∃ c, s.copy = some c ∧ t = { s with
      task := { s.task with pc := .resetInner, vars := { s.task.vars with loopCount := c + 1 } }
      copy := none } := by
  cases hcopy : s.copy with
  | none => simp [accessStep, hcopy] at h
  | some c =>
      simp only [accessStep, hcopy] at h
      exact ⟨c, rfl, (Option.some.inj h).symm⟩

theorem accessStep_changeWait (h : accessStep s .changeWait = some t) :
    ∃ sec, s.call = some sec ∧ t = { s with
      task := { s.task with vars := { s.task.vars with recWait := sec } }
      call := none } := by
  cases hcall : s.call with
  | none => simp [accessStep, hcall] at h
  | some sec =>
      simp only [accessStep, hcall] at h
      exact ⟨sec, rfl, (Option.some.inj h).symm⟩

end Steps

/-! Runs in which statements and calls are not interrupted are among these. -/

/-- The accesses of a statement or of a complete call. -/
def TaskLabel.accesses : TaskLabel → List AccessLabel
  | .uart .increment => [.countRead, .countWrite]
  | .uart pc => [.uart pc]
  | .setIsClearTotalEngery => [.setIsClearTotalEngery]
  | .changeRecWait sec => [.changeCount sec, .changeWait]
  | .removeRecTask => [.removeRecTask]

theorem accesses_run {s t : TaskState} {a : TaskLabel} (h : taskStep s a = some t) :
    AccessRun ⟨s, none, none⟩ a.accesses ⟨t, none, none⟩ := by
  cases a with
  | uart pc =>
      obtain ⟨hpc, hstep⟩ := taskStep_uart h
      by_cases inc : pc = .increment
      · subst inc
        simp only [uartStep, hpc] at hstep
        obtain rfl := Option.some.inj hstep
        simp [AccessRun, TaskLabel.accesses, Runs.run, accessStep, hpc]
      · have hone : TaskLabel.accesses (.uart pc) = [.uart pc] := by
          cases pc with
          | increment => exact absurd rfl inc
          | _ => rfl
        rw [hone]
        simp [AccessRun, Runs.run, accessStep, hpc, inc, hstep]
  | setIsClearTotalEngery | changeRecWait sec | removeRecTask =>
      obtain rfl := Option.some.inj h
      rfl

theorem task_accesses_run {s t : TaskState} {tr : List TaskLabel} (h : TaskRun s tr t) :
    AccessRun ⟨s, none, none⟩ (tr.flatMap TaskLabel.accesses) ⟨t, none, none⟩ := by
  induction tr generalizing s with
  | nil =>
      cases h
      rfl
  | cons a tr ih =>
      obtain ⟨u, hstep, hrest⟩ := Runs.run_cons_some.mp h
      exact Runs.run_append_some.mpr ⟨_, accesses_run hstep, ih hrest⟩

/-! The test for equality. -/

/-- Between the write of the increment and the first write of the fall-back, in program order. -/
def UartPc.Testing (pc : UartPc) : Prop := pc = .resetInner ∨ pc = .budgetTest ∨ pc = .fallbackCount

/-- From the read of the increment to the last write of the fall-back. -/
def UartPc.Counting (pc : UartPc) : Prop := pc = .increment ∨ pc.Testing ∨ pc = .fallbackWait

/-- The counter and a stale copy of it stay below 300, except on the way to the test. -/
structure CountInv (s : AccessState) : Prop where
  nonneg : 0 ≤ s.task.vars.loopCount
  le : s.task.vars.loopCount ≤ 300
  outside : ¬ s.task.pc.Testing → s.task.vars.loopCount ≤ 299
  copied : ∀ c, s.copy = some c → s.task.pc = .increment ∧ 0 ≤ c ∧ c ≤ 299

theorem countInv_boot : CountInv bootAccess := by
  constructor
  · decide
  · decide
  · intro _
    decide
  · intro c copied
    cases copied

/-- A statement other than the increment changes the counter in the fall-back only, and does not
leave the test with a full counter. -/
theorem uartStep_count {s t : TaskState} (h : uartStep s = some t) (other : s.pc ≠ .increment) :
    (t.vars.loopCount = s.vars.loopCount ∨ t.vars.loopCount = 0 ∧ t.pc = .fallbackWait) ∧
      (s.pc.Testing → ¬ t.pc.Testing → t.vars.loopCount ≠ 300) := by
  rcases s with ⟨pc, isClear, loop, vars⟩
  cases pc with
  | increment => exact absurd rfl other
  | stopped => cases h
  | waitTest =>
      simp only [uartStep] at h
      split at h
      · obtain rfl := Option.some.inj h
        exact ⟨.inl rfl, by simp [UartPc.Testing]⟩
      · obtain rfl := Option.some.inj h
        exact ⟨.inl rfl, by simp [UartPc.Testing]⟩
  | budgetTest =>
      obtain rfl := Option.some.inj h
      refine ⟨.inl rfl, fun _ left full => left ?_⟩
      exact .inr (.inr (if_pos full))
  | resetInner =>
      obtain rfl := Option.some.inj h
      exact ⟨.inl rfl, fun _ left => absurd (.inr (.inl rfl)) left⟩
  | fallbackCount =>
      obtain rfl := Option.some.inj h
      exact ⟨.inr ⟨rfl, rfl⟩, fun _ _ full => by cases full⟩
  | loopTest | clearTest | clearAssign | clearSend | fallbackWait | poll =>
      obtain rfl := Option.some.inj h
      exact ⟨.inl rfl, by simp [UartPc.Testing]⟩

theorem countInv_step {s t : AccessState} {a : AccessLabel} (inv : CountInv s)
    (h : accessStep s a = some t) : CountInv t := by
  obtain ⟨hnonneg, hle, hout, hcopy⟩ := inv
  cases a with
  | uart pc =>
      obtain ⟨hpc, hother, u, hu, rfl⟩ := accessStep_uart h
      obtain ⟨hcount, htest⟩ := uartStep_count hu (hpc ▸ hother)
      refine ⟨?_, ?_, ?_, ?_⟩
      · show 0 ≤ u.vars.loopCount
        omega
      · show u.vars.loopCount ≤ 300
        omega
      · intro left
        show u.vars.loopCount ≤ 299
        by_cases testing : s.task.pc.Testing
        · have hfull := htest testing left
          omega
        · have hlow := hout testing
          omega
      · intro c copied
        exact absurd (hpc.symm.trans (hcopy c copied).1) hother
  | countRead =>
      obtain ⟨hpc, rfl⟩ := accessStep_countRead h
      have hlow : s.task.vars.loopCount ≤ 299 := hout (by simp [hpc, UartPc.Testing])
      refine ⟨hnonneg, hle, hout, ?_⟩
      rintro c ⟨⟩
      exact ⟨hpc, hnonneg, hlow⟩
  | countWrite =>
      obtain ⟨c, hsome, rfl⟩ := accessStep_countWrite h
      obtain ⟨-, hlow, hhigh⟩ := hcopy c hsome
      refine ⟨?_, ?_, ?_, ?_⟩
      · exact Int.le_add_one hlow
      · exact Int.add_le_add_right hhigh 1
      · intro left
        exact absurd (.inl rfl) left
      · intro c' copied
        cases copied
  | changeCount sec =>
      obtain ⟨-, rfl⟩ := Runs.enabled h
      have hzero : (0 : ℤ) ≤ 299 := by decide
      exact ⟨le_rfl, Int.le_trans hzero (by decide), fun _ => hzero, hcopy⟩
  | changeWait =>
      obtain ⟨sec, -, rfl⟩ := accessStep_changeWait h
      exact ⟨hnonneg, hle, hout, hcopy⟩
  | setIsClearTotalEngery | removeRecTask =>
      obtain rfl := Option.some.inj h
      exact ⟨hnonneg, hle, hout, hcopy⟩

theorem countInv_run {tr : List AccessLabel} {s : AccessState}
    (h : AccessRun bootAccess tr s) : CountInv s :=
  Runs.invariant countInv_boot (fun _ _ _ inv hstep => countInv_step inv hstep) ⟨tr, h⟩

/-! The fall-back comes after 300 increments without a change from outside. -/

/-- So many increments were made, or the fall-back is under way. -/
def Counted (n : ℕ) (s : AccessState) : Prop :=
  (n ≤ s.task.vars.loopCount ∧ ∀ c, s.copy = some c → n ≤ c) ∨ s.task.pc = .fallbackWait

theorem counted_step {n : ℕ} {s t : AccessState} {a : AccessLabel} (inv : CountInv s)
    (counted : Counted n s) (quiet : a.isChange = false) (other : a ≠ .uart .fallbackWait)
    (h : accessStep s a = some t) : Counted (n + if a = .countWrite then 1 else 0) t := by
  cases a with
  | uart pc =>
      obtain ⟨hpc, hother, u, hu, rfl⟩ := accessStep_uart h
      rcases counted with ⟨hcount, hcopied⟩ | hback
      · rcases (uartStep_count hu (hpc ▸ hother)).1 with hsame | ⟨-, hback⟩
        · refine .inl ⟨?_, hcopied⟩
          show (n : ℤ) ≤ u.vars.loopCount
          rwa [hsame]
        · exact .inr hback
      · exact absurd (congrArg AccessLabel.uart (hpc.symm.trans hback)) other
  | countRead =>
      obtain ⟨hpc, rfl⟩ := accessStep_countRead h
      rcases counted with ⟨hcount, -⟩ | hback
      · refine .inl ⟨hcount, ?_⟩
        rintro c ⟨⟩
        exact hcount
      · rw [hpc] at hback
        cases hback
  | countWrite =>
      obtain ⟨c, hsome, rfl⟩ := accessStep_countWrite h
      rcases counted with ⟨-, hcopied⟩ | hback
      · have hcount := hcopied c hsome
        refine .inl ⟨?_, fun c' copied => by cases copied⟩
        rw [if_pos rfl]
        push_cast
        exact Int.add_le_add_right hcount 1
      · rw [(inv.copied c hsome).1] at hback
        cases hback
  | changeCount sec => cases quiet
  | changeWait => cases quiet
  | setIsClearTotalEngery | removeRecTask =>
      obtain rfl := Option.some.inj h
      exact counted

theorem counted_run {s : AccessState} (inv : CountInv s) (tr : List AccessLabel) :
    ∀ t, AccessRun s tr t → (∀ a ∈ tr, a.isChange = false) → .uart .fallbackWait ∉ tr →
      CountInv t ∧ Counted (tr.count .countWrite) t := by
  refine Runs.history_invariant (P := fun tr t => (∀ a ∈ tr, a.isChange = false) →
    .uart .fallbackWait ∉ tr → CountInv t ∧ Counted (tr.count .countWrite) t) ?_ ?_ tr
  · intro _ _
    refine ⟨inv, .inl ⟨inv.nonneg, fun c copied => (inv.copied c copied).2.1⟩⟩
  · intro as t a u _ ih hstep quiet absent
    rw [List.mem_append, not_or, List.mem_singleton] at absent
    obtain ⟨hinv, hcounted⟩ := ih (fun b member => quiet b (List.mem_append_left _ member)) absent.1
    refine ⟨countInv_step hinv hstep, ?_⟩
    have hnext := counted_step hinv hcounted (quiet a (by simp)) (Ne.symm absent.2) hstep
    rw [List.count_append, List.count_singleton]
    simpa only [beq_iff_eq] using hnext

/-- The test for equality is never stepped over: the counter stays in its range, and every 300
increments without a change from outside are followed by the fall-back before the next poll. -/
theorem loop_count_range {pre : List AccessLabel} {s : AccessState}
    (h : AccessRun bootAccess pre s) :
    (0 ≤ s.task.vars.loopCount ∧ s.task.vars.loopCount ≤ 300) ∧
      (¬ s.task.pc.Testing → s.task.vars.loopCount ≤ 299) ∧
      ∀ tr t, AccessRun s tr t → (∀ a ∈ tr, a.isChange = false) → 300 ≤ tr.count .countWrite →
        ¬ t.task.pc.Counting →
        ∃ before after u, tr = before ++ .uart .fallbackWait :: after ∧
          AccessRun s (before ++ [.uart .fallbackWait]) u ∧ u.task.vars.recWait = 60 := by
  have inv := countInv_run h
  refine ⟨⟨inv.nonneg, inv.le⟩, inv.outside, ?_⟩
  intro tr t hrun quiet many left
  have hmem : .uart .fallbackWait ∈ tr := by
    by_contra absent
    obtain ⟨hinv, hcount | hback⟩ := counted_run inv tr t hrun quiet absent
    · have hlow := hinv.outside fun testing => left (.inr (.inl testing))
      omega
    · exact left (.inr (.inr hback))
  obtain ⟨before, after, rfl⟩ := List.append_of_mem hmem
  rw [List.append_cons] at hrun
  obtain ⟨u, hback, -⟩ := Runs.run_append_some.mp hrun
  refine ⟨before, after, u, rfl, hback, ?_⟩
  obtain ⟨v, -, hstep⟩ := Runs.run_snoc_some.mp hback
  obtain ⟨hpc, -, w, hwait, rfl⟩ := accessStep_uart hstep
  simp only [uartStep, hpc] at hwait
  obtain rfl := Option.some.inj hwait
  rfl

/-- A call that begins between the read and the write of the increment: its reset is lost. -/
def lostReset : List AccessLabel :=
  [.changeCount 1, .changeWait, .uart .loopTest, .uart .clearTest, .uart .waitTest, .countRead,
    .changeCount 5, .countWrite]

theorem loop_count_range_lost_reset :
    ∃ s, AccessRun bootAccess lostReset s ∧ s.task.vars.loopCount = 1 ∧
      0 ≤ s.task.vars.loopCount ∧ s.task.vars.loopCount ≤ 300 :=
  ⟨_, rfl, rfl,
    (@loop_count_range lostReset ⟨⟨.resetInner, false, true, ⟨0, 1, 1⟩⟩, none, some 5⟩ rfl).1⟩

end Ddsu666
