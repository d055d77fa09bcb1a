/- Receiving in ir.c: `nec_rx` and the receive channel take turns, call after call. -/
import Ddsu666.NecHistory
import Ddsu666.Runs

namespace Ddsu666

/-- An event of the channel: a frame in `raw_symbols` of the call with this number. -/
structure RxDoneEvent where
  call : ℕ
  receivedSymbols : List Symbol

structure RxState where
  /-- Calls of `nec_rx` so far; the last one may be running. -/
  calls : ℕ
  /-- The index of the loop, while it waits. -/
  waiting : Option ℕ
  /-- The call into whose `raw_symbols` the channel writes. -/
  receiving : Option ℕ
  receiveQueue : Option RxDoneEvent
  stored : IrNecScanCode
  parsed : List (List Symbol)
  /-- `raw_symbols` was written or read after its call had returned. -/
  stray : Bool
  aborted : Bool

inductive RxLabel where
  | necRx
  | arrival (symbols : List Symbol)
  | received
  | timeout
  deriving DecidableEq

def rxLoop : ℕ := 5

/-- After `nec_rx_init`. -/
def idleRx : RxState := ⟨0, none, none, none, ⟨0, 0⟩, [], false, false⟩

/-- `ESP_ERROR_CHECK(rmt_receive(..))`: the driver refuses while the channel is receiving. -/
def rmtReceive (s : RxState) : RxState :=
  match s.receiving with
  | none => { s with receiving := some s.calls }
  | some _ => { s with aborted := true }

/-- The queue holds one event; another one is dropped. -/
def exampleRmtRxDoneCallback (edata : RxDoneEvent) (receiveQueue : Option RxDoneEvent) :
    Option RxDoneEvent := receiveQueue.or (some edata)

/-- The head of the loop. -/
def nextWait (i : ℕ) : Option ℕ := if i + 1 < rxLoop then some (i + 1) else none

/-- The body of the loop after `pdPASS`. -/
def rxReceived (s : RxState) (i : ℕ) (rxData : RxDoneEvent) : RxState :=
  let t := { s with
    waiting := nextWait i
    receiveQueue := none
    stored := (exampleParseNecFrame rxData.receivedSymbols s.stored).1
    parsed := s.parsed ++ [rxData.receivedSymbols]
    stray := s.stray || rxData.call != s.calls }
  if i ≠ rxLoop - 1 then rmtReceive t else t

def rxStep (s : RxState) (a : RxLabel) : Option RxState :=
  if s.aborted then none
  else match a, s.waiting, s.receiving, s.receiveQueue with
    | .necRx, none, _, _ => some (rmtReceive { s with calls := s.calls + 1, waiting := some 0 })
    | .arrival symbols, _, some call, _ =>
        some { s with
          receiving := none
          receiveQueue := exampleRmtRxDoneCallback ⟨call, symbols⟩ s.receiveQueue
          stray := s.stray || s.waiting.isNone || call != s.calls }
    | .received, some i, _, some rxData => some (rxReceived s i rxData)
    | .timeout, some i, _, none => some { s with waiting := nextWait i }
    | _, _, _, _ => none

def RxRun (tr : List RxLabel) (s : RxState) : Prop := Runs.run rxStep idleRx tr = some s

def arrivals (tr : List RxLabel) : List (List Symbol) :=
  tr.filterMap fun
    | .arrival symbols => some symbols
    | _ => none

/-- Every frame is parsed once and in its order, the last one may still lie in the queue, and
nothing is written to the stack of a call that has returned. -/
structure RxSound (tr : List RxLabel) (s : RxState) : Prop where
  running : s.aborted = false
  inPlace : s.stray = false
  complete : s.parsed ++ s.receiveQueue.toList.map RxDoneEvent.receivedSymbols = arrivals tr
  stored : s.stored = storedAfter s.parsed

/-- The run ends with a call that returned from its last wait without a frame. -/
def GivesUp (tr : List RxLabel) : Prop :=
  ∃ pre t, tr = pre ++ [.timeout] ∧ RxRun pre t ∧ t.waiting = some (rxLoop - 1)

/-- Only the last call gave up, and nothing has happened since. -/
def OnlyLastGivesUp (tr : List RxLabel) : Prop :=
  ∀ pre post t, tr = pre ++ .timeout :: post → RxRun pre t → t.waiting = some (rxLoop - 1) →
    post = []

/-- Between calls the channel is idle; in the loop either it is receiving or the frame is there. -/
inductive Armed (s : RxState) : Prop
  | idle (waiting : s.waiting = none) (receiving : s.receiving = none)
      (queue : s.receiveQueue = none)
  | listening {i : ℕ} (waiting : s.waiting = some i) (inside : i < rxLoop)
      (receiving : s.receiving = some s.calls) (queue : s.receiveQueue = none)
  | arrived {i : ℕ} {symbols : List Symbol} (waiting : s.waiting = some i) (inside : i < rxLoop)
      (receiving : s.receiving = none) (queue : s.receiveQueue = some ⟨s.calls, symbols⟩)

/-- The call has returned and the channel still writes to its `raw_symbols`. -/
structure Abandoned (s : RxState) : Prop where
  waiting : s.waiting = none
  receiving : s.receiving = some s.calls
  queue : s.receiveQueue = none

theorem arrivals_snoc (tr : List RxLabel) (a : RxLabel) :
    arrivals (tr ++ [a]) = arrivals tr ++ arrivals [a] := List.filterMap_append

theorem storedAfter_snoc (calls : List (List Symbol)) (symbols : List Symbol) :
    storedAfter (calls ++ [symbols]) =
      (exampleParseNecFrame symbols (storedAfter calls)).1 := List.foldl_append

theorem onlyLastGivesUp_snoc {tr : List RxLabel} {a : RxLabel} :
    OnlyLastGivesUp (tr ++ [a]) ↔ OnlyLastGivesUp tr ∧ ¬ GivesUp tr := by
  constructor
  · intro only
    have hnever : ∀ pre post t, tr = pre ++ .timeout :: post → RxRun pre t →
        t.waiting = some (rxLoop - 1) → False := by
      rintro pre post t rfl hrun last
      have hnone := only pre (post ++ [a]) t (by simp) hrun last
      exact List.append_ne_nil_of_right_ne_nil post (List.cons_ne_nil a []) hnone
    refine ⟨fun pre post t same hrun last => (hnever pre post t same hrun last).elim, ?_⟩
    rintro ⟨pre, t, same, hrun, last⟩
    exact hnever pre [] t same hrun last
  · rintro ⟨only, goes_on⟩ pre post t same hrun last
    rcases List.eq_nil_or_concat post with rfl | ⟨post, b, rfl⟩
    · rfl
    · rw [List.concat_eq_append, ← List.cons_append, ← List.append_assoc] at same
      obtain ⟨rfl, -⟩ := List.append_inj' same rfl
      obtain rfl := only pre post t rfl hrun last
      exact absurd ⟨pre, t, rfl, hrun, last⟩ goes_on

theorem nextWait_inside {i : ℕ} (h : i + 1 < rxLoop) : nextWait i = some (i + 1) := if_pos h

theorem nextWait_last {i : ℕ} (h : ¬ i + 1 < rxLoop) : nextWait i = none := if_neg h

section Phases

variable {tr : List RxLabel} {s t : RxState} {a : RxLabel} (sound : RxSound tr s)
  (h : rxStep s a = some t)

include sound h

theorem idle_step (waiting : s.waiting = none) (receiving : s.receiving = none)
    (queue : s.receiveQueue = none) : a = .necRx ∧ RxSound (tr ++ [a]) t ∧ Armed t := by
  obtain ⟨calls, _, _, _, stored, parsed, stray, aborted⟩ := s
  obtain ⟨running, inPlace, complete, hstored⟩ := sound
  simp only at waiting receiving queue running inPlace complete hstored
  subst waiting receiving queue running inPlace hstored
  cases a with
  | necRx =>
      obtain rfl := Option.some.inj h
      refine ⟨rfl, ⟨rfl, rfl, ?_, rfl⟩, .listening rfl (by decide) rfl rfl⟩
      rw [arrivals_snoc, ← complete]
      exact (List.append_nil _).symm
  | arrival symbols => cases h
  | received => cases h
  | timeout => cases h

theorem listening_step {i : ℕ} (waiting : s.waiting = some i) (inside : i < rxLoop)
    (receiving : s.receiving = some s.calls) (queue : s.receiveQueue = none) :
    RxSound (tr ++ [a]) t ∧
      if a = .timeout ∧ s.waiting = some (rxLoop - 1) then Abandoned t else Armed t := by
  obtain ⟨calls, _, _, _, stored, parsed, stray, aborted⟩ := s
  obtain ⟨running, inPlace, complete, hstored⟩ := sound
  simp only at waiting receiving queue running inPlace complete hstored
  subst waiting receiving queue running inPlace hstored
  cases a with
  | necRx => cases h
  | arrival symbols =>
      obtain rfl := Option.some.inj h
      refine ⟨⟨rfl, ?_, ?_, rfl⟩, ?_⟩
      · simp
      · rw [arrivals_snoc, ← complete]
        simp [exampleRmtRxDoneCallback, arrivals]
      · rw [if_neg (by simp)]
        exact .arrived rfl inside rfl rfl
  | received => cases h
  | timeout =>
      obtain rfl := Option.some.inj h
      refine ⟨⟨rfl, rfl, ?_, rfl⟩, ?_⟩
      · rw [arrivals_snoc, ← complete]
        exact (List.append_nil _).symm
      · split
        · rename_i last
          refine ⟨nextWait_last ?_, rfl, rfl⟩
          rw [Option.some.inj last.2]
          decide
        · rename_i early
          have hmore : i + 1 < rxLoop := by
            rw [rxLoop] at inside early ⊢
            have hne : i ≠ 5 - 1 := fun same => early ⟨rfl, congrArg some same⟩
            omega
          exact .listening (nextWait_inside hmore) hmore rfl rfl

theorem arrived_step {i : ℕ} {symbols : List Symbol} (waiting : s.waiting = some i)
    (inside : i < rxLoop) (receiving : s.receiving = none)
    (queue : s.receiveQueue = some ⟨s.calls, symbols⟩) :
    a = .received ∧ RxSound (tr ++ [a]) t ∧ Armed t := by
  obtain ⟨calls, _, _, _, stored, parsed, stray, aborted⟩ := s
  obtain ⟨running, inPlace, complete, hstored⟩ := sound
  simp only at waiting receiving queue running inPlace complete hstored
  subst waiting receiving queue running inPlace hstored
  cases a with
  | necRx => cases h
  | arrival symbols => cases h
  | timeout => cases h
  | received =>
      obtain rfl := Option.some.inj h
      have hsame : (false || calls != calls) = false := by simp
      have hcomplete : parsed ++ [symbols] = arrivals (tr ++ [.received]) := by
        rw [arrivals_snoc, ← complete]
        exact (List.append_nil _).symm
      rw [rxReceived]
      by_cases last : i = rxLoop - 1
      · rw [if_neg (not_not.mpr last)]
        refine ⟨rfl, ⟨rfl, hsame, ?_, (storedAfter_snoc parsed symbols).symm⟩, ?_⟩
        · rw [← hcomplete]
          exact List.append_nil _
        · refine .idle (nextWait_last ?_) rfl rfl
          rw [last]
          decide
      · rw [if_pos last]
        refine ⟨rfl, ⟨rfl, hsame, ?_, (storedAfter_snoc parsed symbols).symm⟩, ?_⟩
        · rw [← hcomplete]
          exact List.append_nil _
        · have hmore : i + 1 < rxLoop := by
            rw [rxLoop] at inside last ⊢
            omega
          exact .listening (nextWait_inside hmore) hmore rfl rfl

/-- As long as no call has given up, the turns of both sides alternate. -/
theorem Armed.step (armed : Armed s) :
    RxSound (tr ++ [a]) t ∧
      if a = .timeout ∧ s.waiting = some (rxLoop - 1) then Abandoned t else Armed t := by
  cases armed with
  | idle waiting receiving queue =>
      obtain ⟨rfl, hsound, harmed⟩ := idle_step sound h waiting receiving queue
      rw [if_neg (by simp)]
      exact ⟨hsound, harmed⟩
  | listening waiting inside receiving queue =>
      exact listening_step sound h waiting inside receiving queue
  | arrived waiting inside receiving queue =>
      obtain ⟨rfl, hsound, harmed⟩ := arrived_step sound h waiting inside receiving queue
      rw [if_neg (by simp)]
      exact ⟨hsound, harmed⟩

end Phases

theorem Abandoned.step {s t : RxState} {a : RxLabel} (abandoned : Abandoned s)
    (h : rxStep s a = some t) : t.aborted = true ∨ t.stray = true := by
  obtain ⟨calls, waiting, receiving, queue, stored, parsed, stray, aborted⟩ := s
  obtain ⟨hwaiting, hreceiving, hqueue⟩ := abandoned
  simp only at hwaiting hreceiving hqueue
  subst hwaiting hreceiving hqueue
  cases aborted with
  | true => cases h
  | false =>
      cases a with
      | necRx =>
          obtain rfl := Option.some.inj h
          exact .inl rfl
      | arrival symbols =>
          obtain rfl := Option.some.inj h
          refine .inr ?_
          simp
      | received => cases h
      | timeout => cases h

theorem rmtReceive_stray (s : RxState) : (rmtReceive s).stray = s.stray := by
  rw [rmtReceive]
  cases s.receiving <;> rfl

theorem rxStep_sound {s t : RxState} {a : RxLabel} (h : rxStep s a = some t) :
    s.aborted = false ∧ (t.stray = false → s.stray = false) := by
  unfold rxStep at h
  split at h
  · cases h
  · rename_i running
    refine ⟨Bool.eq_false_iff.mpr running, ?_⟩
    split at h
    · obtain rfl := Option.some.inj h
      rw [rmtReceive_stray]
      exact id
    · obtain rfl := Option.some.inj h
      simp only [Bool.or_eq_false_iff]
      exact fun kept => kept.1.1
    · obtain rfl := Option.some.inj h
      rw [rxReceived]
      split
      · rw [rmtReceive_stray]
        exact fun kept => (Bool.or_eq_false_iff.mp kept).1
      · exact fun kept => (Bool.or_eq_false_iff.mp kept).1
    · obtain rfl := Option.some.inj h
      exact id
    · cases h

theorem givesUp_snoc {tr : List RxLabel} {s : RxState} {a : RxLabel} (h : RxRun tr s) :
    GivesUp (tr ++ [a]) ↔ a = .timeout ∧ s.waiting = some (rxLoop - 1) := by
  constructor
  · rintro ⟨pre, t, same, hrun, last⟩
    obtain ⟨rfl, ha⟩ := List.append_inj' same rfl
    obtain rfl := Option.some.inj (hrun.symm.trans h)
    exact ⟨List.head_eq_of_cons_eq ha, last⟩
  · rintro ⟨rfl, last⟩
    exact ⟨tr, s, rfl, h, last⟩

/-- What holds after a run in which nobody gave up too early, and what the absence of defects says
about any run. -/
structure RxInv (tr : List RxLabel) (s : RxState) : Prop where
  sound : OnlyLastGivesUp tr → RxSound tr s ∧ (GivesUp tr ∧ Abandoned s ∨ ¬ GivesUp tr ∧ Armed s)
  only : s.aborted = false → s.stray = false → OnlyLastGivesUp tr

theorem rx_inv {tr : List RxLabel} {s : RxState} (h : RxRun tr s) : RxInv tr s := by
  refine Runs.history_invariant (P := RxInv) ?_ ?_ tr s h
  · refine ⟨fun _ => ⟨⟨rfl, rfl, rfl, rfl⟩, .inr ⟨?_, .idle rfl rfl rfl⟩⟩, ?_⟩
    · rintro ⟨pre, t, same, -⟩
      exact List.append_ne_nil_of_right_ne_nil pre (List.cons_ne_nil _ []) same.symm
    · intro _ _ pre post t same
      exact absurd same.symm (List.append_ne_nil_of_right_ne_nil pre (List.cons_ne_nil _ post))
  · intro as t a u hrun inv hstep
    constructor
    · intro only
      obtain ⟨hbefore, goes_on⟩ := onlyLastGivesUp_snoc.mp only
      obtain ⟨sound, phase⟩ := inv.sound hbefore
      have armed := (phase.resolve_left fun gave => goes_on gave.1).2
      obtain ⟨hsound, hphase⟩ := Armed.step sound hstep armed
      refine ⟨hsound, ?_⟩
      rw [givesUp_snoc hrun]
      split at hphase
      · rename_i last
        exact .inl ⟨last, hphase⟩
      · rename_i more
        exact .inr ⟨more, hphase⟩
    · intro running inPlace
      obtain ⟨hrunning, hkept⟩ := rxStep_sound hstep
      have hbefore := inv.only hrunning (hkept inPlace)
      refine onlyLastGivesUp_snoc.mpr ⟨hbefore, fun gave => ?_⟩
      obtain ⟨-, phase⟩ := inv.sound hbefore
      have abandoned := (phase.resolve_right fun armed => armed.1 gave).2
      rcases abandoned.step hstep with aborted | stray
      · rw [running] at aborted
        cases aborted
      · rw [inPlace] at stray
        cases stray

/-- Frames are all parsed, once and in their order, and neither the board aborts nor the stack is
overwritten, exactly as long as nothing follows a call whose last wait brought no frame. -/
theorem receptions_sound_iff {tr : List RxLabel} {s : RxState} (h : RxRun tr s) :
    RxSound tr s ↔ OnlyLastGivesUp tr :=
  ⟨fun sound => (rx_inv h).only sound.running sound.inPlace,
    fun only => ((rx_inv h).sound only).1⟩

def silentCall : List RxLabel := .necRx :: List.replicate 5 .timeout

/-- A call without any frame is harmless until the next one. -/
theorem receptions_sound_twice :
    ∃ s t, RxRun silentCall s ∧ RxSound silentCall s ∧
      RxRun (silentCall ++ [.necRx]) t ∧ ¬ RxSound (silentCall ++ [.necRx]) t := by
  have hfirst : RxRun silentCall _ := rfl
  have hsecond : RxRun (silentCall ++ [.necRx]) _ := rfl
  have hgives : GivesUp silentCall := ⟨.necRx :: List.replicate 4 .timeout, _, rfl, rfl, rfl⟩
  refine ⟨_, _, hfirst, ⟨rfl, rfl, rfl, rfl⟩, hsecond, ?_⟩
  rw [receptions_sound_iff hsecond, onlyLastGivesUp_snoc]
  exact fun only => only.2 hgives

end Ddsu666
