/- The polling loop `uart_loop` of uart.c: one pass, runs with external rate changes, and the
   schedule of polls. -/
import Mathlib.Algebra.Order.Ring.Int
import Mathlib.Data.List.Basic
import Mathlib.Tactic.Linarith
import Mathlib.Tactic.Ring

namespace Ddsu666

inductive Frame where
  | params
  | energy
  | clear
  deriving DecidableEq, Repr

/-- What a pass does outside the counters, in the order of the source. -/
inductive Action where
  | wdtReset
  | send (frame : Frame)
  | receive
  | delay (ms : ℕ)
  deriving DecidableEq, Repr

structure LoopVars where
  innerLoop : ℤ
  loopCount : ℤ
  recWait : ℤ
  deriving DecidableEq, Repr

def stableRecWait : ℤ := 60

def tempMaxLoop : ℤ := 300

/-- Values at boot. -/
def bootVars : LoopVars := ⟨0, 0, 5⟩

def changeRecWait (sec : ℤ) (v : LoopVars) : LoopVars :=
  { v with loopCount := 0, recWait := sec }

def clearTotalEngeryActions : List Action := [.send .clear, .delay 300, .receive, .delay 1000]

def pollActions : List Action :=
  [.send .params, .delay 250, .receive, .delay 250, .send .energy, .delay 250, .receive, .delay 250]

/-- `inner_loop >= rec_wait - 1` -/
def polls (v : LoopVars) : Bool := decide (v.innerLoop ≥ v.recWait - 1)

/-- One pass of `while (loop)`; the argument is the flag `is_clear_total_engery`. -/
def uartLoopPass (isClear : Bool) (v : LoopVars) : LoopVars × List Action :=
  let before := .wdtReset :: (if isClear then clearTotalEngeryActions else [])
  if polls v then
    let v := { v with loopCount := v.loopCount + 1, innerLoop := 0 }
    let v := if v.loopCount = tempMaxLoop then changeRecWait stableRecWait v else v
    (v, before ++ pollActions ++ [.delay 1000])
  else
    ({ v with innerLoop := v.innerLoop + 1 }, before ++ [.delay 1000])

/-- A run interleaves passes with complete calls of `change_rec_wait` from outside. -/
inductive LoopEvent where
  | pass (isClear : Bool)
  | change (sec : ℤ)

def LoopEvent.apply (v : LoopVars) : LoopEvent → LoopVars
  | .pass isClear => (uartLoopPass isClear v).1
  | .change sec => changeRecWait sec v

/-- The requested intervals are at least one second. -/
def LoopEvent.Valid : LoopEvent → Prop
  | .pass _ => True
  | .change sec => 1 ≤ sec

/-- What is recorded of a pass: whether it polled, and the `rec_wait` in force. -/
structure PassRecord where
  polled : Bool
  recWait : ℤ

def observe : LoopVars → List LoopEvent → List PassRecord
  | _, [] => []
  | v, .pass isClear :: es => ⟨polls v, v.recWait⟩ :: observe (uartLoopPass isClear v).1 es
  | v, .change sec :: es => observe (changeRecWait sec v) es

/-- Without outside calls the counters evolve by themselves. -/
def tick (v : LoopVars) : LoopVars := (uartLoopPass false v).1

theorem uartLoopPass_vars (isClear : Bool) (v : LoopVars) :
    (uartLoopPass isClear v).1 = tick v := by
  unfold tick uartLoopPass
  cases polls v <;> rfl

theorem polls_iff (v : LoopVars) : polls v = true ↔ v.recWait ≤ v.innerLoop + 1 := by
  rw [polls, decide_eq_true_iff]
  omega

theorem tick_idle {v : LoopVars} (h : polls v = false) :
    tick v = { v with innerLoop := v.innerLoop + 1 } := by
  simp [tick, uartLoopPass, h]

theorem tick_poll {v : LoopVars} (h : polls v = true) (early : v.loopCount + 1 ≠ 300) :
    tick v = ⟨0, v.loopCount + 1, v.recWait⟩ := by
  simp [tick, uartLoopPass, h, tempMaxLoop, early]

/-- The poll that completes the budget falls back to the stable rate. -/
theorem tick_last_poll {v : LoopVars} (h : polls v = true) (last : v.loopCount + 1 = 300) :
    tick v = ⟨0, 0, 60⟩ := by
  simp [tick, uartLoopPass, h, tempMaxLoop, last, changeRecWait, stableRecWait]

theorem tick_innerLoop {v : LoopVars} (h : polls v = true) : (tick v).innerLoop = 0 := by
  by_cases last : v.loopCount + 1 = 300
  · rw [tick_last_poll h last]
  · rw [tick_poll h last]

/-! A wait that is not disturbed. -/

theorem tick_wait {k c : ℤ} {w r : ℕ} (h : k + r < w) : tick^[r] ⟨k, c, w⟩ = ⟨k + r, c, w⟩ := by
  induction r with
  | zero => simp
  | succ r ih =>
      have hidle : polls ⟨k + r, c, w⟩ = false := by
        rw [Bool.eq_false_iff, Ne, polls_iff]
        push_cast at h
        simp only
        omega
      rw [Function.iterate_succ_apply', ih (by push_cast at h; omega), tick_idle hidle]
      simp [add_assoc]

/-- Within one interval exactly the last pass polls. -/
theorem polls_wait {k c : ℤ} {w r : ℕ} (h : k + r < w) :
    polls (tick^[r] ⟨k, c, w⟩) = true ↔ k + r + 1 = w := by
  rw [tick_wait h, polls_iff]
  constructor <;> intro hr <;> simp only at * <;> omega

theorem tick_interval {k c : ℤ} {w r : ℕ} (h : k + r + 1 = w) (early : c + 1 ≠ 300) :
    tick^[r + 1] ⟨k, c, w⟩ = ⟨0, c + 1, w⟩ := by
  rw [Function.iterate_succ_apply', tick_poll ((polls_wait (by omega)).mpr h)]
  · rw [tick_wait (by omega)]
  · rw [tick_wait (by omega)]
    exact early

theorem tick_last_interval {k c : ℤ} {w r : ℕ} (h : k + r + 1 = w) (last : c + 1 = 300) :
    tick^[r + 1] ⟨k, c, w⟩ = ⟨0, 0, 60⟩ := by
  rw [Function.iterate_succ_apply', tick_last_poll ((polls_wait (by omega)).mpr h)]
  rw [tick_wait (by omega)]
  exact last

/-! Intervals follow one another, at the requested rate and after the budget at the stable one. -/

/-- When every interval starts afresh at the rate `w`, the polls are exactly `w` passes apart. -/
theorem polls_periodic {v : LoopVars} {w q : ℕ} (hw : 0 < w)
    (fresh : ∀ i, i < q → ∃ c, tick^[i * w] v = ⟨0, c, w⟩) {n : ℕ} (hn : n < q * w) :
    polls (tick^[n] v) = true ↔ w ∣ n + 1 := by
  have hi : n / w < q := Nat.div_lt_of_lt_mul (by rwa [Nat.mul_comm] at hn)
  obtain ⟨c, hc⟩ := fresh (n / w) hi
  have hsplit : n = n % w + n / w * w := by
    rw [Nat.mul_comm]
    exact (Nat.mod_add_div n w).symm
  have hmod : n % w < w := Nat.mod_lt _ hw
  have hstate : tick^[n] v = tick^[n % w] ⟨0, c, w⟩ := by
    conv_lhs => rw [hsplit, Function.iterate_add_apply, hc]
  rw [hstate, polls_wait (by omega)]
  have hdvd : w ∣ n + 1 ↔ w ∣ n % w + 1 := by
    conv_lhs => rw [hsplit, Nat.add_right_comm, Nat.dvd_add_left (Nat.dvd_mul_left w (n / w))]
  rw [hdvd]
  constructor
  · intro h
    exact ⟨1, by omega⟩
  · intro h
    have := Nat.le_of_dvd (Nat.succ_pos _) h
    omega

theorem tick_intervals {c : ℤ} {w q : ℕ} (hw : 0 < w) (budget : c + q < 300) :
    tick^[q * w] ⟨0, c, w⟩ = ⟨0, c + q, w⟩ := by
  induction q with
  | zero => simp
  | succ q ih =>
      push_cast at budget
      obtain ⟨r, rfl⟩ := Nat.exists_eq_succ_of_ne_zero hw.ne'
      rw [Nat.succ_mul, Nat.add_comm, Function.iterate_add_apply, ih (by omega),
        tick_interval (by push_cast; omega) (by omega)]
      push_cast
      rw [add_assoc]

/-- At the stable rate the counter runs from 0 to 299 for ever. -/
theorem tick_stable (q : ℕ) {c : ℤ} (hc : 0 ≤ c) (hlt : c < 300) :
    ∃ d, 0 ≤ d ∧ d < 300 ∧ tick^[q * 60] ⟨0, c, (60 : ℕ)⟩ = ⟨0, d, (60 : ℕ)⟩ := by
  induction q with
  | zero => exact ⟨c, hc, hlt, by simp⟩
  | succ q ih =>
      obtain ⟨d, hd, hdlt, hstate⟩ := ih
      rw [Nat.succ_mul, Nat.add_comm, Function.iterate_add_apply, hstate]
      by_cases last : d + 1 = 300
      · exact ⟨0, le_rfl, by decide, tick_last_interval (w := 60) (r := 59) (by norm_num) last⟩
      · exact ⟨d + 1, by omega, by omega, tick_interval (w := 60) (r := 59) (by norm_num) last⟩

theorem polls_stable {c : ℤ} (hc : 0 ≤ c) (hlt : c < 300) (n : ℕ) :
    polls (tick^[n] ⟨0, c, (60 : ℕ)⟩) = true ↔ 60 ∣ n + 1 := by
  apply polls_periodic (q := n + 1) (by decide)
  · intro i _
    obtain ⟨d, -, -, hstate⟩ := tick_stable i hc hlt
    exact ⟨d, hstate⟩
  · omega

theorem polls_budget {w : ℕ} (hw : 0 < w) {n : ℕ} (hn : n < 299 * w) :
    polls (tick^[n] ⟨0, 1, w⟩) = true ↔ w ∣ n + 1 := by
  apply polls_periodic hw _ hn
  intro i hi
  exact ⟨1 + i, tick_intervals hw (by omega)⟩

/-- The 300th poll ends the budget. -/
theorem tick_budget {w : ℕ} (hw : 0 < w) :
    tick^[299 * w] ⟨0, 1, w⟩ = ⟨0, 0, (60 : ℕ)⟩ := by
  obtain ⟨r, rfl⟩ := Nat.exists_eq_succ_of_ne_zero hw.ne'
  rw [show 299 * r.succ = r + 1 + 298 * r.succ by rw [Nat.succ_eq_add_one]; ring,
    Function.iterate_add_apply, tick_intervals hw (by norm_num),
    tick_last_interval (by push_cast; omega) (by norm_num)]
  norm_num

/-- However long the wait had already lasted, the first poll comes within `w` passes. -/
theorem first_poll {w : ℕ} (hw : 0 < w) (k : ℕ) :
    ∃ first, 1 ≤ first ∧ first ≤ w ∧ tick^[first] ⟨k, 0, w⟩ = ⟨0, 1, w⟩ ∧
      ∀ r < first, polls (tick^[r] ⟨k, 0, w⟩) = true ↔ r + 1 = first := by
  by_cases due : w ≤ k + 1
  · have hpolls : polls ⟨k, 0, w⟩ = true := by
      rw [polls_iff]
      change (w : ℤ) ≤ k + 1
      exact_mod_cast due
    refine ⟨1, le_rfl, hw, tick_poll hpolls (by norm_num), ?_⟩
    intro r hr
    obtain rfl : r = 0 := by omega
    simpa using hpolls
  · have hwait : k + (w - k - 1) + 1 = w := by omega
    have hint : (k : ℤ) + ((w - k - 1 : ℕ) : ℤ) + 1 = w := by exact_mod_cast hwait
    refine ⟨w - k - 1 + 1, by omega, by omega, tick_interval hint (by norm_num), ?_⟩
    intro r hr
    rw [polls_wait (by omega)]
    omega

/-- The polls of an undisturbed stretch: one within `w` passes, 299 more at that rate, and from
then on one in sixty. -/
theorem polls_stretch {w : ℕ} (hw : 0 < w) (k : ℕ) :
    ∃ first : ℕ, 1 ≤ first ∧ first ≤ w ∧ ∀ n, polls (tick^[n] ⟨k, 0, w⟩) = true ↔
      (∃ q < 300, n + 1 = first + q * w) ∨ ∃ j ≥ 1, n + 1 = first + 299 * w + j * 60 := by
  obtain ⟨first, hpos, hle, hstate, hfirst⟩ := first_poll hw k
  refine ⟨first, hpos, hle, ?_⟩
  intro n
  rcases Nat.lt_or_ge n first with hn | hn
  · -- the wait that was under way
    rw [hfirst n hn]
    constructor
    · intro h
      exact .inl ⟨0, by decide, by omega⟩
    · rintro (⟨q, -, h⟩ | ⟨j, hj, h⟩) <;> omega
  · obtain ⟨m, rfl⟩ := Nat.exists_eq_add_of_le' hn
    rw [Function.iterate_add_apply, hstate]
    rcases Nat.lt_or_ge m (299 * w) with hm | hm
    · -- polls 2 to 300
      rw [polls_budget hw hm]
      constructor
      · rintro ⟨q, hq⟩
        have hq300 : q < 300 := by nlinarith
        exact .inl ⟨q, hq300, by rw [Nat.mul_comm q]; omega⟩
      · rintro (⟨q, -, h⟩ | ⟨j, hj, h⟩)
        · exact ⟨q, by rw [Nat.mul_comm w]; omega⟩
        · omega
    · -- after the fall-back
      obtain ⟨l, rfl⟩ := Nat.exists_eq_add_of_le' hm
      rw [Function.iterate_add_apply, tick_budget hw, polls_stable le_rfl (by decide)]
      constructor
      · rintro ⟨j, hj⟩
        exact .inr ⟨j, by omega, by omega⟩
      · rintro (⟨q, hq, h⟩ | ⟨j, hj, h⟩)
        · have := Nat.mul_le_mul_right w (Nat.le_of_lt_succ hq)
          omega
        · exact ⟨j, by omega⟩

/-! Runs with external rate changes. -/

def after (v : LoopVars) (es : List LoopEvent) : LoopVars := es.foldl LoopEvent.apply v

/-- The counters between passes. -/
structure LoopInv (v : LoopVars) : Prop where
  innerLoop : 0 ≤ v.innerLoop
  recWait : 1 ≤ v.recWait

theorem bootVars_inv : LoopInv bootVars := ⟨le_rfl, by decide⟩

theorem tick_inv {v : LoopVars} (h : LoopInv v) : LoopInv (tick v) := by
  cases hp : polls v with
  | false =>
      rw [tick_idle hp]
      exact ⟨Int.le_add_one h.innerLoop, h.recWait⟩
  | true =>
      by_cases last : v.loopCount + 1 = 300
      · rw [tick_last_poll hp last]
        exact ⟨le_rfl, by decide⟩
      · rw [tick_poll hp last]
        exact ⟨le_rfl, h.recWait⟩

theorem apply_inv {v : LoopVars} (h : LoopInv v) {e : LoopEvent} (valid : e.Valid) :
    LoopInv (e.apply v) := by
  cases e with
  | pass isClear =>
      rw [LoopEvent.apply, uartLoopPass_vars]
      exact tick_inv h
  | change sec => exact ⟨h.innerLoop, valid⟩

theorem after_inv {v : LoopVars} (h : LoopInv v) {es : List LoopEvent}
    (valid : ∀ e ∈ es, e.Valid) : LoopInv (after v es) := by
  induction es generalizing v with
  | nil => exact h
  | cons e es ih =>
      exact ih (apply_inv h (valid e List.mem_cons_self))
        fun x member => valid x (List.mem_cons_of_mem e member)

/-- Pass `n` of a record, counted from zero, polled. -/
def PolledAt (obs : List PassRecord) (n : ℕ) : Prop := ∃ r, obs[n]? = some r ∧ r.polled = true

theorem observe_passes (v : LoopVars) (flags : List Bool) {n : ℕ} (hn : n < flags.length) :
    PolledAt (observe v (flags.map .pass)) n ↔ polls (tick^[n] v) = true := by
  induction flags generalizing v n with
  | nil => cases hn
  | cons isClear flags ih =>
      simp only [List.map_cons, observe, uartLoopPass_vars]
      cases n with
      | zero => simp [PolledAt]
      | succ n =>
          rw [Function.iterate_succ_apply, ← ih (tick v) (Nat.lt_of_succ_lt_succ hn)]
          rfl

/-- The record of a stretch at requested rate `sec`, as far as it goes: the first poll within `sec`
passes, polls 2 to 300 exactly `sec` passes apart, all later ones exactly 60 passes apart. -/
def FollowsSchedule (sec : ℤ) (passes : ℕ) (obs : List PassRecord) : Prop :=
  ∃ first : ℕ, 1 ≤ first ∧ first ≤ sec ∧ ∀ n < passes,
    (PolledAt obs n ↔ (∃ q : ℕ, q < 300 ∧ (n + 1 : ℤ) = first + q * sec) ∨
      ∃ j : ℕ, 1 ≤ j ∧ (n + 1 : ℤ) = first + 299 * sec + j * 60)

theorem stretch_follows {v : LoopVars} (h : LoopInv v) (count : v.loopCount = 0)
    (flags : List Bool) :
    FollowsSchedule v.recWait flags.length (observe v (flags.map .pass)) := by
  obtain ⟨k, hk⟩ := Int.eq_ofNat_of_zero_le h.innerLoop
  obtain ⟨w, hw⟩ := Int.eq_ofNat_of_zero_le (Int.le_trans (by decide) h.recWait : 0 ≤ v.recWait)
  have hv : v = ⟨k, 0, w⟩ := by
    cases v
    simp_all
  have hpos : 0 < w := by
    have := h.recWait
    omega
  obtain ⟨first, h1, hle, hsched⟩ := polls_stretch hpos k
  refine ⟨first, h1, by rw [hw]; exact_mod_cast hle, ?_⟩
  intro n hn
  rw [observe_passes v flags hn, hw, hv, hsched n]
  norm_cast

/-- From a state with `m` passes waited: the poll that comes next is no later than some `rec_wait`
in force on the way. A single late pass is the one exception when the wait had begun earlier. -/
theorem next_poll_bounded {v : LoopVars} (h : LoopInv v) {es : List LoopEvent}
    (valid : ∀ e ∈ es, e.Valid) {l : ℕ} (polled : PolledAt (observe v es) l)
    (idle : ∀ k < l, ¬ PolledAt (observe v es) k) :
    (∃ k ≤ l, ∃ r, (observe v es)[k]? = some r ∧ v.innerLoop + l + 1 ≤ r.recWait) ∨
      (l = 0 ∧ 0 < v.innerLoop) := by
  induction es generalizing v l with
  | nil =>
      obtain ⟨r, hr, -⟩ := polled
      cases hr
  | cons e es ih =>
      have hrest : ∀ x ∈ es, x.Valid := fun x member => valid x (List.mem_cons_of_mem e member)
      have hnext := apply_inv h (valid e List.mem_cons_self)
      cases e with
      | change sec => exact ih hnext hrest polled idle
      | pass isClear =>
          rw [LoopEvent.apply, uartLoopPass_vars] at hnext
          simp only [observe, uartLoopPass_vars] at polled idle ⊢
          cases l with
          | zero =>
              rcases h.innerLoop.eq_or_lt with hzero | hpos
              · have := h.recWait
                exact .inl ⟨0, le_rfl, _, rfl, by simp only; omega⟩
              · exact .inr ⟨rfl, hpos⟩
          | succ l =>
              have hnot : polls v = false := by
                rw [Bool.eq_false_iff]
                intro hp
                exact idle 0 (Nat.succ_pos l) ⟨_, rfl, hp⟩
              have hinner : (tick v).innerLoop = v.innerLoop + 1 := by rw [tick_idle hnot]
              have hwait : v.innerLoop + 2 ≤ v.recWait := by
                rw [Bool.eq_false_iff, Ne, polls_iff] at hnot
                omega
              rcases ih hnext hrest polled
                (fun k hk => idle (k + 1) (Nat.succ_lt_succ hk)) with ⟨k, hk, r, hr, hle⟩ | ⟨rfl, -⟩
              · exact .inl ⟨k + 1, Nat.succ_le_succ hk, r, hr, by push_cast; omega⟩
              · exact .inl ⟨0, Nat.zero_le _, _, rfl, by simp only; push_cast; omega⟩

/-- What follows a pass that polled is itself a record that starts with an empty wait. -/
theorem observe_after_poll {v : LoopVars} (h : LoopInv v) {es : List LoopEvent}
    (valid : ∀ e ∈ es, e.Valid) {i : ℕ} (polled : PolledAt (observe v es) i) :
    ∃ u fs, LoopInv u ∧ u.innerLoop = 0 ∧ (∀ e ∈ fs, e.Valid) ∧
      observe u fs = (observe v es).drop (i + 1) := by
  induction es generalizing v i with
  | nil =>
      obtain ⟨r, hr, -⟩ := polled
      cases hr
  | cons e es ih =>
      have hrest : ∀ x ∈ es, x.Valid := fun x member => valid x (List.mem_cons_of_mem e member)
      have hnext := apply_inv h (valid e List.mem_cons_self)
      cases e with
      | change sec => exact ih hnext hrest polled
      | pass isClear =>
          rw [LoopEvent.apply, uartLoopPass_vars] at hnext
          simp only [observe, uartLoopPass_vars, List.drop_succ_cons] at polled ⊢
          cases i with
          | zero =>
              have hpolled : polls v = true := by simpa [PolledAt] using polled
              exact ⟨tick v, es, hnext, tick_innerLoop hpolled, hrest, rfl⟩
          | succ i => exact ih hnext hrest polled

/-- No two consecutive polls are further apart than the largest `rec_wait` in force between. -/
theorem gap_bounded {v : LoopVars} (h : LoopInv v) {es : List LoopEvent}
    (valid : ∀ e ∈ es, e.Valid) {i j : ℕ} (hij : i < j) (first : PolledAt (observe v es) i)
    (second : PolledAt (observe v es) j)
    (between : ∀ k, i < k → k < j → ¬ PolledAt (observe v es) k) :
    ∃ k, i < k ∧ k ≤ j ∧ ∃ r, (observe v es)[k]? = some r ∧ (j : ℤ) - i ≤ r.recWait := by
  obtain ⟨u, fs, hu, hzero, hfs, hdrop⟩ := observe_after_poll h valid first
  have hcell : ∀ k, (observe u fs)[k]? = (observe v es)[i + 1 + k]? := by
    intro k
    rw [hdrop, List.getElem?_drop]
  have hpolled : ∀ k, PolledAt (observe u fs) k ↔ PolledAt (observe v es) (i + 1 + k) := by
    intro k
    simp only [PolledAt, hcell]
  obtain ⟨l, rfl⟩ := Nat.exists_eq_add_of_le (Nat.succ_le_of_lt hij)
  rcases next_poll_bounded hu hfs ((hpolled l).mpr second)
    (fun k hk => by rw [hpolled]; exact between _ (by omega) (by omega)) with
    ⟨k, hk, r, hr, hle⟩ | ⟨-, hpos⟩
  · refine ⟨i + 1 + k, by omega, by omega, r, by rwa [← hcell], ?_⟩
    push_cast
    omega
  · omega

/-- The poll schedule, in every run with outside rate changes at any time. -/
theorem poll_schedule {es : List LoopEvent} (valid : ∀ e ∈ es, e.Valid) :
    (∀ flags : List Bool,
      FollowsSchedule 5 flags.length (observe bootVars (flags.map .pass))) ∧
    (∀ sec, 1 ≤ sec → ∀ flags : List Bool,
      FollowsSchedule sec flags.length
        (observe (changeRecWait sec (after bootVars es)) (flags.map .pass))) ∧
    ∀ i j : ℕ, i < j → PolledAt (observe bootVars es) i → PolledAt (observe bootVars es) j →
      (∀ k, i < k → k < j → ¬ PolledAt (observe bootVars es) k) →
      ∃ k, i < k ∧ k ≤ j ∧ ∃ r, (observe bootVars es)[k]? = some r ∧ (j : ℤ) - i ≤ r.recWait := by
  refine ⟨?_, ?_, ?_⟩
  · intro flags
    exact stretch_follows bootVars_inv rfl flags
  · intro sec hsec flags
    have hinv := after_inv bootVars_inv valid
    exact stretch_follows (v := changeRecWait sec (after bootVars es))
      ⟨hinv.innerLoop, hsec⟩ rfl flags
  · intro i j hij first second between
    exact gap_bounded bootVars_inv valid hij first second between

/-- A rate lowered to one second in the middle of a wait. -/
theorem poll_schedule_lowered :
    FollowsSchedule 1 3 (observe (changeRecWait 1
      (after bootVars [.pass false, .pass false, .change 7, .pass true]))
        ([false, false, false].map .pass)) := by
  refine (poll_schedule ?_).2.1 1 le_rfl [false, false, false]
  simp [LoopEvent.Valid]

end Ddsu666
