/- The task watchdog of watchdog.c, and how long `uart_loop` goes without feeding it. -/
import Ddsu666.PollPeriod

namespace Ddsu666

def twdtTimeoutMs : ℕ := 10000

def packetReadMs : ℕ := 100

/-- The longest that an action blocks; a read may wait for its whole timeout. -/
def Action.longestMs : Action → ℕ
  | .receive => packetReadMs
  | a => a.delayMs

def longestSum (as : List Action) : ℕ := (as.map Action.longestMs).sum

theorem longestSum_append (as bs : List Action) :
    longestSum (as ++ bs) = longestSum as + longestSum bs := by
  simp [longestSum]

/-- A pass feeds the watchdog first, and then works for at most 3.6 seconds. -/
theorem pass_feeds (isClear : Bool) (v : LoopVars) :
    ∃ work, (uartLoopPass isClear v).2 = .wdtReset :: work ∧ .wdtReset ∉ work ∧
      longestSum work ≤ 3600 := by
  rw [uartLoopPass]
  cases polls v with
  | true =>
      cases isClear with
      | true => exact ⟨_, rfl, by decide, by decide⟩
      | false => exact ⟨_, rfl, by decide, by decide⟩
  | false =>
      cases isClear with
      | true => exact ⟨_, rfl, by decide, by decide⟩
      | false => exact ⟨_, rfl, by decide, by decide⟩

theorem trace_starts (v : LoopVars) (es : List LoopEvent) :
    trace v es = [] ∨ ∃ rest, trace v es = .wdtReset :: rest := by
  induction es generalizing v with
  | nil => exact .inl rfl
  | cons e es ih =>
      cases e with
      | change sec => exact ih (changeRecWait sec v)
      | pass isClear =>
          obtain ⟨work, hpass, -, -⟩ := pass_feeds isClear v
          right
          exact ⟨work ++ trace (uartLoopPass isClear v).1 es, by rw [trace, hpass]; rfl⟩

theorem unfed_within {work rest mid post : List Action} (unfed : .wdtReset ∉ mid)
    (next : rest = [] ∨ ∃ later, rest = .wdtReset :: later) (split : work ++ rest = mid ++ post) :
    ∃ left, work = mid ++ left := by
  rcases List.append_eq_append_iff.mp split with ⟨left, hmid, hrest⟩ | ⟨left, hwork, -⟩
  · rcases next with rfl | ⟨later, rfl⟩
    · obtain rfl : left = [] := (List.append_eq_nil_iff.mp hrest.symm).1
      exact ⟨[], by rw [hmid, List.append_nil, List.append_nil]⟩
    · cases left with
      | nil => exact ⟨[], by rw [hmid, List.append_nil, List.append_nil]⟩
      | cons a left =>
          obtain rfl := (List.cons.inj hrest).1
          exact absurd (hmid ▸ List.mem_append_right work List.mem_cons_self) unfed
  · exact ⟨left, hwork⟩

/-- Whatever is cleared and however the rate changes, the delays and read timeouts between two
feeds stay within 3.6 seconds, well below the timeout of the watchdog. -/
theorem watchdog_fed (v : LoopVars) (es : List LoopEvent) {pre mid post : List Action}
    (split : trace v es = pre ++ .wdtReset :: (mid ++ post)) (unfed : .wdtReset ∉ mid) :
    longestSum mid ≤ 3600 ∧ longestSum mid < twdtTimeoutMs := by
  suffices hsum : longestSum mid ≤ 3600 from ⟨hsum, Nat.lt_of_le_of_lt hsum (by decide)⟩
  induction es generalizing v pre with
  | nil =>
      have hlength := congrArg List.length split
      simp [trace] at hlength
  | cons e es ih =>
      cases e with
      | change sec => exact ih (changeRecWait sec v) split
      | pass isClear =>
          obtain ⟨work, hpass, hwork, hsum⟩ := pass_feeds isClear v
          rw [trace, hpass, List.cons_append] at split
          cases pre with
          | nil =>
              have htail := (List.cons.inj split).2
              obtain ⟨left, rfl⟩ := unfed_within unfed (trace_starts _ es) htail
              rw [longestSum_append] at hsum
              exact Nat.le_of_add_right_le hsum
          | cons a pre =>
              have htail := (List.cons.inj split).2
              obtain ⟨rest, -, hrest⟩ := split_past hwork htail
              exact ih _ hrest

/-- The pass in which a clear is sent and a poll is due takes all of the 3.6 seconds. -/
theorem watchdog_fed_clear :
    longestSum (clearTotalEngeryActions ++ pollActions ++ [.delay 1000]) ≤ 3600 ∧
      longestSum (clearTotalEngeryActions ++ pollActions ++ [.delay 1000]) < twdtTimeoutMs :=
  @watchdog_fed ⟨4, 0, 5⟩ [.pass true] [] _ [] (List.append_nil _).symm (by decide)

end Ddsu666
