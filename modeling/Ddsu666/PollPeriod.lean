/- The delays of `uart_loop`: what `vTaskDelay` adds up to between the starts of two polls. -/
import Ddsu666.PollLoop

namespace Ddsu666

/-- All that the passes of a run do, one pass after the other. -/
def trace : LoopVars → List LoopEvent → List Action
  | _, [] => []
  | v, .pass isClear :: es =>
      (uartLoopPass isClear v).2 ++ trace (uartLoopPass isClear v).1 es
  | v, .change sec :: es => trace (changeRecWait sec v) es

/-- The argument of a delay, in the milliseconds of the source. -/
def Action.delayMs : Action → ℕ
  | .delay ms => ms
  | _ => 0

def delaySum (as : List Action) : ℕ := (as.map Action.delayMs).sum

/-- What a pass does after the first transmission of its poll. -/
def pollRest : List Action :=
  [.delay 250, .receive, .delay 250, .send .energy, .delay 250, .receive, .delay 250, .delay 1000]

/-- No clear is requested, and `rec_wait` is the same before and after every event. -/
def Steady (w : ℤ) (v : LoopVars) (es : List LoopEvent) : Prop :=
  .pass true ∉ es ∧ ∀ done todo, es = done ++ todo → (after v done).recWait = w

/-- What a run does from the start of a poll up to the start of the next, in a stretch in which
the rate stays `w` and nothing is cleared. -/
def PollGap (w : ℤ) (mid : List Action) : Prop :=
  ∃ earlier es pre post, Steady w (after bootVars earlier) es ∧
    trace (after bootVars earlier) es =
      pre ++ .send .params :: (mid ++ .send .params :: post) ∧
    .send .params ∉ mid

@[simp] theorem delaySum_append (as bs : List Action) :
    delaySum (as ++ bs) = delaySum as + delaySum bs := by
  simp [delaySum]

theorem Steady.recWait {w : ℤ} {v : LoopVars} {es : List LoopEvent} (h : Steady w v es) :
    v.recWait = w := h.2 [] es rfl

theorem Steady.tail {w : ℤ} {v : LoopVars} {e : LoopEvent} {es : List LoopEvent}
    (h : Steady w v (e :: es)) : Steady w (e.apply v) es := by
  refine ⟨fun member => h.1 (List.mem_cons_of_mem e member), ?_⟩
  intro done todo split
  exact h.2 (e :: done) todo (by rw [split, List.cons_append])

theorem pass_idle {v : LoopVars} (h : polls v = false) :
    (uartLoopPass false v).2 = [.wdtReset, .delay 1000] := by
  simp [uartLoopPass, h]

theorem pass_poll {v : LoopVars} (h : polls v = true) :
    (uartLoopPass false v).2 = [.wdtReset] ++ .send .params :: pollRest := by
  simp [uartLoopPass, h, pollActions, pollRest]

theorem split_past {α : Type} {a : α} {l t pre post : List α} (h : a ∉ l)
    (split : l ++ t = pre ++ a :: post) : ∃ rest, pre = l ++ rest ∧ t = rest ++ a :: post := by
  rcases List.append_eq_append_iff.mp split with ⟨rest, hpre, ht⟩ | ⟨rest, hl, hpost⟩
  · exact ⟨rest, hpre, ht⟩
  · cases rest with
    | nil => exact ⟨[], by simpa using hl.symm, by simpa using hpost.symm⟩
    | cons b rest =>
        obtain rfl : b = a := (List.cons.inj hpost).1.symm
        exact absurd (hl ▸ List.mem_append_right pre List.mem_cons_self) h

theorem before_poll {v : LoopVars} (hp : polls v = true) {later mid post : List Action}
    (split : (uartLoopPass false v).2 ++ later = mid ++ .send .params :: post)
    (first : .send .params ∉ mid) : mid = [.wdtReset] := by
  rw [pass_poll hp, List.append_assoc] at split
  obtain ⟨rest, rfl, hrest⟩ := split_past (by decide) split
  cases rest with
  | nil => rfl
  | cons b rest =>
      obtain rfl := (List.cons.inj hrest).1
      simp at first

/-- From a state that waits, the next poll is one second away for each pass still to wait. -/
theorem wait_sum {w : ℤ} {v : LoopVars} {es : List LoopEvent} (steady : Steady w v es)
    (waiting : v.innerLoop ≤ w - 1) {mid post : List Action}
    (split : trace v es = mid ++ .send .params :: post) (first : .send .params ∉ mid) :
    (delaySum mid : ℤ) = 1000 * (w - 1 - v.innerLoop) := by
  induction es generalizing v mid with
  | nil => simp [trace] at split
  | cons e es ih =>
      have hrate := steady.recWait
      cases e with
      | change sec => exact ih steady.tail waiting split first
      | pass isClear =>
          cases isClear with
          | true => exact absurd List.mem_cons_self steady.1
          | false =>
              rw [trace] at split
              cases hp : polls v with
              | true =>
                  have hlast : v.innerLoop = w - 1 := by
                    rw [polls_iff] at hp
                    omega
                  rw [before_poll hp split first, hlast]
                  simp [delaySum, Action.delayMs]
              | false =>
                  rw [pass_idle hp] at split
                  obtain ⟨rest, rfl, hrest⟩ := split_past (by decide) split
                  have hnext : (uartLoopPass false v).1 =
                      { v with innerLoop := v.innerLoop + 1 } := by
                    rw [uartLoopPass_vars, tick_idle hp]
                  have hstill : v.innerLoop + 1 ≤ w - 1 := by
                    rw [Bool.eq_false_iff, Ne, polls_iff] at hp
                    omega
                  rw [List.mem_append, not_or] at first
                  have hsum := ih steady.tail
                    (by rw [LoopEvent.apply, hnext]; exact hstill) hrest first.2
                  rw [LoopEvent.apply, hnext] at hsum
                  rw [delaySum_append, Nat.cast_add, hsum]
                  simp only [delaySum, List.map_cons, List.map_nil, Action.delayMs, List.sum_cons,
                    List.sum_nil]
                  push_cast
                  ring

/-- A poll takes one second for its four transfers and one for the end of its pass, and
`rec_wait - 1` further seconds pass before the next. -/
theorem gap_sum {w : ℤ} (hw : 1 ≤ w) {v : LoopVars} {es : List LoopEvent} (steady : Steady w v es)
    {pre mid post : List Action}
    (split : trace v es = pre ++ .send .params :: (mid ++ .send .params :: post))
    (between : .send .params ∉ mid) : (delaySum mid : ℤ) = 1000 * (w + 1) := by
  induction es generalizing v pre with
  | nil => simp [trace] at split
  | cons e es ih =>
      cases e with
      | change sec => exact ih steady.tail split
      | pass isClear =>
          cases isClear with
          | true => exact absurd List.mem_cons_self steady.1
          | false =>
              rw [trace] at split
              cases hp : polls v with
              | false =>
                  rw [pass_idle hp] at split
                  obtain ⟨rest, -, hrest⟩ := split_past (by decide) split
                  exact ih steady.tail hrest
              | true =>
                  rw [pass_poll hp, List.append_assoc] at split
                  obtain ⟨rest, -, hrest⟩ := split_past (by decide) split
                  cases rest with
                  | cons b rest =>
                      -- the poll of this pass lies before the two in question
                      obtain ⟨-, hlater⟩ := List.cons.inj hrest
                      obtain ⟨rest', -, hrest'⟩ := split_past (l := pollRest) (by decide) hlater
                      exact ih steady.tail hrest'
                  | nil =>
                      obtain ⟨-, hlater⟩ := List.cons.inj hrest
                      obtain ⟨rest', rfl, hrest'⟩ := split_past (l := pollRest) (by decide) hlater
                      rw [List.mem_append, not_or] at between
                      have hzero : (LoopEvent.apply v (.pass false)).innerLoop = 0 := by
                        rw [LoopEvent.apply, uartLoopPass_vars, tick_innerLoop hp]
                      have hsum := wait_sum steady.tail (by omega) hrest' between.2
                      rw [delaySum_append, Nat.cast_add, hsum, hzero]
                      have hrest : delaySum pollRest = 2000 := rfl
                      rw [hrest]
                      push_cast
                      ring

/-! Such gaps exist at every rate. -/

theorem trace_append (v : LoopVars) (es fs : List LoopEvent) :
    trace v (es ++ fs) = trace v es ++ trace (after v es) fs := by
  induction es generalizing v with
  | nil => rfl
  | cons e es ih =>
      cases e with
      | pass isClear =>
          rw [List.cons_append, trace, ih, trace, List.append_assoc]
          rfl
      | change sec => exact ih _

theorem after_passes (v : LoopVars) (n : ℕ) :
    after v (List.replicate n (.pass false)) = tick^[n] v := by
  induction n generalizing v with
  | zero => rfl
  | succ n ih => exact ih (tick v)

theorem trace_interval {k c : ℤ} {w r : ℕ} (h : k + r + 1 = w) :
    ∃ mid, .send .params ∉ mid ∧
      trace ⟨k, c, w⟩ (List.replicate (r + 1) (.pass false)) =
        mid ++ .send .params :: pollRest := by
  induction r generalizing k with
  | zero =>
      have hp : polls ⟨k, c, w⟩ = true := by
        rw [polls_iff]
        simp only
        push_cast at h
        omega
      refine ⟨[.wdtReset], by decide, ?_⟩
      simp only [Nat.zero_add, List.replicate_one, trace, pass_poll hp, List.append_nil]
  | succ r ih =>
      push_cast at h
      have hp : polls ⟨k, c, w⟩ = false := by
        rw [Bool.eq_false_iff, Ne, polls_iff]
        simp only
        omega
      have hnext : (uartLoopPass false ⟨k, c, w⟩).1 = ⟨k + 1, c, w⟩ := by
        rw [uartLoopPass_vars, tick_idle hp]
      obtain ⟨mid, hfirst, hrest⟩ := ih (k := k + 1) (by omega)
      refine ⟨[.wdtReset, .delay 1000] ++ mid, ?_, ?_⟩
      · rw [List.mem_append, not_or]
        exact ⟨by decide, hfirst⟩
      · rw [List.replicate_succ, trace, pass_idle hp, hnext, hrest, List.append_assoc]

/-- Two intervals after a change to the rate `w`. -/
theorem gap_exists {w : ℕ} (hw : 0 < w) : ∃ mid, PollGap w mid := by
  obtain ⟨r, rfl⟩ := Nat.exists_eq_succ_of_ne_zero hw.ne'
  have hstart : after bootVars [.change (r.succ : ℕ)] = ⟨0, 0, (r.succ : ℕ)⟩ := rfl
  have hinterval : ((0 : ℤ) + r + 1 : ℤ) = (r.succ : ℕ) := by
    push_cast
    ring
  have hrate : ∀ m ≤ r.succ + r.succ,
      (tick^[m] ⟨0, 0, (r.succ : ℕ)⟩).recWait = (r.succ : ℕ) := by
    intro m hm
    have hdiv : m / r.succ < 3 := Nat.div_lt_of_lt_mul (by omega)
    have hmod : m % r.succ < r.succ := Nat.mod_lt m hw
    rw [← Nat.mod_add_div m r.succ, Nat.mul_comm, Function.iterate_add_apply,
      tick_intervals hw (by omega), tick_wait (by omega)]
  obtain ⟨mid₁, -, htrace₁⟩ := trace_interval (c := 0) hinterval
  obtain ⟨mid₂, hfirst, htrace₂⟩ := trace_interval (c := 0 + 1) hinterval
  refine ⟨pollRest ++ mid₂, [.change (r.succ : ℕ)],
    List.replicate (r + 1) (.pass false) ++ List.replicate (r + 1) (.pass false),
    mid₁, pollRest, ⟨?_, ?_⟩, ?_, ?_⟩
  · simp
  · intro done todo split
    rw [List.replicate_append_replicate] at split
    obtain ⟨hlen, hdone, -⟩ := List.append_eq_replicate_iff.mp split.symm
    rw [hstart, hdone, after_passes]
    exact hrate _ (by omega)
  · rw [hstart, trace_append, after_passes, tick_interval hinterval (by decide), htrace₁, htrace₂]
    simp only [List.append_assoc, List.cons_append]
  · rw [List.mem_append, not_or]
    exact ⟨by decide, hfirst⟩

/-- At every rate the period is one second longer than the rate says. -/
theorem poll_period {w : ℤ} (hw : 1 ≤ w) :
    (∃ mid, PollGap w mid) ∧
      ∀ mid, PollGap w mid →
        (delaySum mid : ℤ) = 1000 * (w + 1) ∧ (delaySum mid : ℤ) ≠ 1000 * w := by
  constructor
  · obtain ⟨n, rfl⟩ := Int.eq_ofNat_of_zero_le (Int.le_trans (by decide) hw : 0 ≤ w)
    exact gap_exists (by omega)
  · rintro mid ⟨earlier, es, pre, post, steady, split, between⟩
    have hsum := gap_sum hw steady split between
    exact ⟨hsum, by omega⟩

theorem poll_period_boot :
    (∃ mid, PollGap 5 mid) ∧
      ∀ mid, PollGap 5 mid →
        (delaySum mid : ℤ) = 1000 * (5 + 1) ∧ (delaySum mid : ℤ) ≠ 1000 * 5 :=
  poll_period (by decide)

/-- At the rate of one second every pass polls, and takes two. -/
theorem fastest_rate_missed :
    ¬ ∀ w : ℤ, 1 ≤ w → ∀ mid, PollGap w mid → (delaySum mid : ℤ) = 1000 * w := by
  intro claim
  obtain ⟨mid, gap⟩ := gap_exists (w := 1) (by decide)
  obtain ⟨earlier, es, pre, post, steady, split, between⟩ := id gap
  have hsum := gap_sum (by decide) steady split between
  have hclaim := claim 1 le_rfl mid gap
  push_cast at hsum
  omega

end Ddsu666
