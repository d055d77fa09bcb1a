/- Outside changes of the polling rate against the automatic fall-back, over every interleaving
   of the two tasks. -/
import Ddsu666.ClearRequests

namespace Ddsu666

/-- One `++loop_count`. -/
abbrev counted : TaskLabel := .uart .increment

/-- The fall-back has been decided on and `rec_wait` is not yet written. -/
def UartPc.FallingBack (pc : UartPc) : Prop := pc = .fallbackCount ∨ pc = .fallbackWait

instance (pc : UartPc) : Decidable pc.FallingBack := inferInstanceAs (Decidable (_ ∨ _))

def TaskLabel.change? : TaskLabel → Option ℤ
  | .changeRecWait sec => some sec
  | _ => none

/-- The last outside change of a trace, and the increments counted since. -/
def lastChange : List TaskLabel → Option (ℤ × ℕ) :=
  List.foldl (fun last a => match a with
    | .changeRecWait sec => some (sec, 0)
    | .uart .increment => last.map fun p => (p.1, p.2 + 1)
    | _ => last) none

/-- A requested rate stays until another request or 300 further increments. -/
def RateKept (tr : List TaskLabel) (s : TaskState) : Prop :=
  ∀ pre post sec, tr = pre ++ .changeRecWait sec :: post →
    (∀ a ∈ post, a.change? = none) → post.count counted < 300 → s.vars.recWait = sec

/-- A request falls into the gap between the test of the counter and the write of the rate,
and asks for another rate than the one about to be written. -/
def MissesWindow (t : TaskState) (a : TaskLabel) : Prop :=
  ∀ sec, a = .changeRecWait sec → t.pc.FallingBack → sec = stableRecWait

theorem uart_misses {a : TaskLabel} (uart : a.isUart = true) (t : TaskState) :
    MissesWindow t a := by
  intro sec heq
  rw [heq] at uart
  cases uart

theorem lastChange_snoc (tr : List TaskLabel) (a : TaskLabel) :
    lastChange (tr ++ [a]) = match a with
      | .changeRecWait sec => some (sec, 0)
      | .uart .increment => (lastChange tr).map fun p => (p.1, p.2 + 1)
      | _ => lastChange tr := by
  rw [lastChange, List.foldl_append]
  rfl

theorem lastChange_eq {pre post : List TaskLabel} {sec : ℤ} (quiet : ∀ a ∈ post, a.change? = none) :
    lastChange (pre ++ .changeRecWait sec :: post) = some (sec, post.count counted) := by
  induction post using List.reverseRecOn with
  | nil => rw [lastChange_snoc]; rfl
  | append_singleton post a ih =>
      have hinit := ih fun x member => quiet x (List.mem_append_left _ member)
      have ha := quiet a (by simp)
      rw [← List.cons_append, ← List.append_assoc, lastChange_snoc, hinit, List.count_append]
      cases a with
      | changeRecWait sec' => cases ha
      | setIsClearTotalEngery | removeRecTask => rfl
      | uart pc => cases pc <;> rfl

/-- While fewer than 300 increments have followed the last request, the counter counts them, the
rate is the requested one, and a fall-back under way can only write that same rate. -/
def RateInv (tr : List TaskLabel) (s : TaskState) : Prop :=
  ∀ sec n, lastChange tr = some (sec, n) → n < 300 →
    s.vars.recWait = sec ∧ s.vars.loopCount = n ∧
      (s.pc.FallingBack → sec = stableRecWait ∧ n = 0)

/-- Statements other than the increment and the two writes leave counter and rate alone, and
enter the fall-back only when the counter stands at 300. -/
theorem uart_rate_cases {s t : TaskState} {pc : UartPc} (h : taskStep s (.uart pc) = some t) :
    s.pc = pc ∧
      ((pc = .increment ∧ t.vars.recWait = s.vars.recWait ∧
          t.vars.loopCount = s.vars.loopCount + 1 ∧ ¬ t.pc.FallingBack) ∨
        (pc = .fallbackCount ∧ t.vars.recWait = s.vars.recWait ∧ t.vars.loopCount = 0) ∨
        (pc = .fallbackWait ∧ t.vars.recWait = stableRecWait ∧
          t.vars.loopCount = s.vars.loopCount ∧ ¬ t.pc.FallingBack) ∨
        (¬ pc.FallingBack ∧ pc ≠ .increment ∧ t.vars.recWait = s.vars.recWait ∧
          t.vars.loopCount = s.vars.loopCount ∧
          (t.pc.FallingBack → s.vars.loopCount = tempMaxLoop))) := by
  obtain ⟨rfl, hstep⟩ := taskStep_uart h
  refine ⟨rfl, ?_⟩
  rcases s with ⟨pc, isClear, loop, vars⟩
  cases pc with
  | waitTest =>
      simp only [uartStep] at hstep
      split at hstep <;> obtain rfl := Option.some.inj hstep <;> simp [UartPc.FallingBack]
  | budgetTest =>
      obtain rfl := Option.some.inj hstep
      simp only [UartPc.FallingBack]
      split <;> simp_all
  | clearTest =>
      obtain rfl := Option.some.inj hstep
      cases isClear <;> simp [UartPc.FallingBack]
  | loopTest =>
      obtain rfl := Option.some.inj hstep
      cases loop <;> simp [UartPc.FallingBack]
  | stopped => cases hstep
  | clearAssign | clearSend | increment | resetInner | fallbackCount | fallbackWait | poll =>
      obtain rfl := Option.some.inj hstep
      simp [UartPc.FallingBack]

theorem rateInv_step {tr : List TaskLabel} {s t : TaskState} {a : TaskLabel} (h : RateInv tr s)
    (good : MissesWindow s a) (hstep : taskStep s a = some t) : RateInv (tr ++ [a]) t := by
  intro sec n hlast hn
  rw [lastChange_snoc] at hlast
  cases a with
  | changeRecWait sec' =>
      obtain ⟨rfl, rfl⟩ := Prod.mk.inj (Option.some.inj hlast)
      obtain rfl := Option.some.inj hstep
      exact ⟨rfl, rfl, fun hpc => ⟨good sec' rfl hpc, rfl⟩⟩
  | setIsClearTotalEngery | removeRecTask =>
      obtain rfl := Option.some.inj hstep
      exact h sec n hlast hn
  | uart pc =>
      obtain ⟨hpc, hcase⟩ := uart_rate_cases hstep
      rcases hcase with ⟨rfl, hw, hc, hno⟩ | ⟨rfl, hw, hc⟩ | ⟨rfl, hw, hc, hno⟩ |
        ⟨hnot, hne, hw, hc, hin⟩
      · -- the counter follows the number of increments
        obtain ⟨⟨sec', m⟩, hprev, hpair⟩ := Option.map_eq_some_iff.mp hlast
        obtain ⟨rfl, rfl⟩ := Prod.mk.inj hpair
        obtain ⟨hwait, hcount, -⟩ := h sec' m hprev (by omega)
        exact ⟨hw.trans hwait, by rw [hc, hcount]; push_cast; rfl, fun e => absurd e hno⟩
      · obtain ⟨hwait, -, hback⟩ := h sec n hlast hn
        have hzero := (hback (.inl hpc)).2
        exact ⟨hw.trans hwait, by rw [hc, hzero]; rfl, fun _ => hback (.inl hpc)⟩
      · obtain ⟨-, hcount, hback⟩ := h sec n hlast hn
        exact ⟨hw.trans (hback (.inr hpc)).1.symm, hc.trans hcount, fun e => absurd e hno⟩
      · have hprev : lastChange tr = some (sec, n) := by
          cases pc <;> first | exact absurd rfl hne | exact hlast
        obtain ⟨hwait, hcount, -⟩ := h sec n hprev hn
        refine ⟨hw.trans hwait, hc.trans hcount, ?_⟩
        intro e
        have hfull := hin e
        rw [hcount, tempMaxLoop] at hfull
        omega

theorem rateInv_run {tr : List TaskLabel} {s : TaskState} (h : TaskRun bootTask tr s)
    (good : Runs.Guarded taskStep MissesWindow bootTask tr) : RateInv tr s := by
  refine Runs.guarded_invariant (P := RateInv) (G := MissesWindow) ?_ ?_ tr good s h
  · intro sec n hlast
    cases hlast
  · intro as t a u hinv hgood hstep
    exact rateInv_step hinv hgood hstep

theorem rateKept_of_inv {tr : List TaskLabel} {s : TaskState} (h : RateInv tr s) :
    RateKept tr s := by
  intro pre post sec same quiet few
  subst same
  exact (h sec _ (lastChange_eq quiet) few).1

/-- A change to another rate inside the window is overwritten by the task's next writes. -/
theorem change_overwritten {t : TaskState} {sec : ℤ} (hpc : t.pc.FallingBack)
    (hne : sec ≠ stableRecWait) (tr : List TaskLabel) :
    ∃ writes s, (∀ a ∈ writes, a.isUart = true) ∧ TaskRun t (.changeRecWait sec :: writes) s ∧
      ¬ RateKept (tr ++ .changeRecWait sec :: writes) s := by
  rcases t with ⟨pc, isClear, loop, vars⟩
  rcases hpc with hpc | hpc
  · obtain rfl : pc = .fallbackCount := hpc
    refine ⟨[.uart .fallbackCount, .uart .fallbackWait], _, by decide, rfl, ?_⟩
    intro kept
    exact hne (kept tr _ sec rfl (by simp [TaskLabel.change?]) (by decide)).symm
  · obtain rfl : pc = .fallbackWait := hpc
    refine ⟨[.uart .fallbackWait], _, by decide, rfl, ?_⟩
    intro kept
    exact hne (kept tr _ sec rfl (by simp [TaskLabel.change?]) (by decide)).symm

/-- The outside changes of a run all miss the window exactly when every state of it keeps the
requested rate, as does every state that the UART task alone reaches from there. -/
theorem rate_kept_iff_window_missed (tr : List TaskLabel) :
    (∀ pre a post t, tr = pre ++ a :: post → TaskRun bootTask pre t → MissesWindow t a) ↔
      ∀ pre post next s, tr = pre ++ post → (∀ a ∈ next, a.isUart = true) →
        TaskRun bootTask (pre ++ next) s → RateKept (pre ++ next) s := by
  constructor
  · intro good pre post next s same uart hrun
    obtain ⟨t, hpre, -⟩ := Runs.run_append_some.mp hrun
    have hbefore : Runs.Guarded taskStep MissesWindow bootTask pre := .left (same ▸ good)
    have hnext : Runs.Guarded taskStep MissesWindow t next :=
      .of_forall fun a ha => uart_misses (uart a ha)
    exact rateKept_of_inv (rateInv_run hrun (hbefore.append hpre hnext))
  · intro kept pre a post t split ht sec heq hpc
    subst heq
    by_contra hne
    obtain ⟨writes, s, huart, hrun, hlost⟩ := change_overwritten hpc hne pre
    refine hlost ?_
    have hkept := kept (pre ++ [.changeRecWait sec]) post writes s (by rw [split]; simp) huart
    rw [List.append_assoc, List.singleton_append] at hkept
    exact hkept (Runs.run_append_some.mpr ⟨t, ht, hrun⟩)

/-- The statements of a pass that polls, at a rate of one second and with no request to clear. -/
def pollPass : List UartPc :=
  [.loopTest, .clearTest, .waitTest, .increment, .resetInner, .budgetTest, .poll]

theorem pollPass_run {n : ℤ} (early : n + 1 ≠ 300) :
    TaskRun ⟨.loopTest, false, true, ⟨0, n, 1⟩⟩ (pollPass.map .uart)
      ⟨.loopTest, false, true, ⟨0, n + 1, 1⟩⟩ := by
  simp [TaskRun, pollPass, Runs.run, taskStep, uartStep, polls, tempMaxLoop, early]

theorem pollPasses_run {n : ℕ} (early : n < 300) :
    TaskRun ⟨.loopTest, false, true, ⟨0, 0, 1⟩⟩ ((List.replicate n pollPass).flatten.map .uart)
      ⟨.loopTest, false, true, ⟨0, n, 1⟩⟩ := by
  induction n with
  | zero => rfl
  | succ n ih =>
      rw [List.replicate_succ', List.flatten_append, List.flatten_singleton, List.map_append]
      refine Runs.run_append_some.mpr ⟨_, ih (by omega), ?_⟩
      exact_mod_cast pollPass_run (n := n) (by omega)

/-- With one second requested at boot, up to the test of the counter after 300 polls. -/
def budgetPolls : List UartPc :=
  (List.replicate 299 pollPass).flatten ++
    [.loopTest, .clearTest, .waitTest, .increment, .resetInner, .budgetTest]

theorem budgetPolls_run :
    TaskRun ⟨.loopTest, false, true, ⟨0, 0, 1⟩⟩ (budgetPolls.map .uart)
      ⟨.fallbackCount, false, true, ⟨0, 300, 1⟩⟩ := by
  rw [budgetPolls, List.map_append]
  exact Runs.run_append_some.mpr ⟨_, pollPasses_run (by decide), by decide⟩

def budgetSpent : List TaskLabel := .changeRecWait 1 :: budgetPolls.map .uart

theorem budgetSpent_run :
    TaskRun bootTask budgetSpent ⟨.fallbackCount, false, true, ⟨0, 300, 1⟩⟩ :=
  Runs.run_cons_some.mpr ⟨⟨.loopTest, false, true, ⟨0, 0, 1⟩⟩, rfl, budgetPolls_run⟩

theorem statements_miss (pcs : List UartPc) (t : TaskState) :
    Runs.Guarded taskStep MissesWindow t (pcs.map .uart) := by
  refine .of_forall fun a ha u => uart_misses ?_ u
  obtain ⟨pc, -, rfl⟩ := List.mem_map.mp ha
  rfl

/-- The statements with which the fall-back ends. -/
def fallBack : List UartPc := [.fallbackCount, .fallbackWait, .poll]

/-- Five seconds requested after the fall-back are kept while the task goes on to its next poll. -/
theorem rate_kept_after_fallback :
    ∃ s, TaskRun bootTask (budgetSpent ++ fallBack.map .uart ++ [.changeRecWait 5] ++
        (List.replicate 5 [UartPc.loopTest, .clearTest, .waitTest]).flatten.map .uart) s ∧
      s.pc = .increment ∧ s.vars.recWait = 5 := by
  have hfall : TaskRun bootTask (budgetSpent ++ fallBack.map .uart)
      ⟨.loopTest, false, true, ⟨0, 0, 60⟩⟩ :=
    Runs.run_append_some.mpr ⟨_, budgetSpent_run, rfl⟩
  have hmissed : Runs.Guarded taskStep MissesWindow bootTask
      (budgetSpent ++ fallBack.map .uart ++ [.changeRecWait 5]) := by
    have hboot : MissesWindow bootTask (.changeRecWait 1) :=
      fun _ _ falling => absurd falling (by decide)
    have hlate : MissesWindow ⟨.loopTest, false, true, ⟨0, 0, 60⟩⟩ (.changeRecWait 5) :=
      fun _ _ falling => absurd falling (by decide)
    have hspent : Runs.Guarded taskStep MissesWindow bootTask budgetSpent :=
      .cons hboot rfl (statements_miss _ _)
    refine .append (.append hspent budgetSpent_run (statements_miss _ _)) hfall ?_
    exact .cons hlate rfl (statements_miss [] _)
  have hchange : TaskRun bootTask (budgetSpent ++ fallBack.map .uart ++ [.changeRecWait 5])
      ⟨.loopTest, false, true, ⟨0, 0, 5⟩⟩ := Runs.run_snoc_some.mpr ⟨_, hfall, rfl⟩
  obtain ⟨s, hrest, hpc⟩ : ∃ s, TaskRun ⟨.loopTest, false, true, ⟨0, 0, 5⟩⟩
      ((List.replicate 5 [UartPc.loopTest, .clearTest, .waitTest]).flatten.map .uart) s ∧
        s.pc = .increment := ⟨_, rfl, rfl⟩
  have hrun := Runs.run_append_some.mpr ⟨_, hchange, hrest⟩
  refine ⟨s, hrun, hpc, ?_⟩
  have hkept := (rate_kept_iff_window_missed _).1 hmissed _ [] _ s (List.append_nil _).symm
    (fun a ha => by obtain ⟨pc, -, rfl⟩ := List.mem_map.mp ha; rfl) hrun
  refine hkept (budgetSpent ++ fallBack.map .uart) _ 5 (List.append_assoc ..) ?_ (by decide)
  intro a ha
  obtain ⟨pc, -, rfl⟩ := List.mem_map.mp ha
  rfl

/-- Five seconds requested at that moment are gone although no further increment has happened. -/
theorem change_lost :
    ¬ ∀ tr s, TaskRun bootTask tr s → RateKept tr s := by
  intro claim
  have hrun : TaskRun bootTask
      (budgetSpent ++ [.changeRecWait 5, .uart .fallbackCount, .uart .fallbackWait])
      ⟨.poll, false, true, ⟨0, 0, 60⟩⟩ := Runs.run_append_some.mpr ⟨_, budgetSpent_run, rfl⟩
  have hkept := claim _ _ hrun budgetSpent [.uart .fallbackCount, .uart .fallbackWait] 5 rfl
    (by simp [TaskLabel.change?]) (by decide)
  exact absurd hkept (by decide)

end Ddsu666
