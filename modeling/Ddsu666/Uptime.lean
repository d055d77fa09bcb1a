/- Seconds since boot: the three conversions from ticks in uart.c and web_handler.c, over the whole
   range of the tick counter. -/
import Ddsu666.WebHandler

namespace Ddsu666
open StringHeap

/-- What `uart_loop` stores in `uart_tx_rx_timestamp`. -/
def uartTimestamp (tickRateHz : ℕ) (ticks : UInt32) : ℤ :=
  (pdTicksToMs tickRateHz ticks).toInt32.toInt.tdiv 1000

/-- `timestamp` in `get_power_info`; the widening of the tick count changes nothing. -/
def powerTimestamp (tickRateHz : ℕ) (ticks : UInt32) : ℤ :=
  (pdTicksToMs tickRateHz ticks).toInt32.toInt.tdiv 1000

/-- `boot` in `get_info_handle`, without a conversion to `int`. -/
def bootSeconds (tickRateHz : ℕ) (ticks : UInt32) : ℕ := (pdTicksToMs tickRateHz ticks).toNat / 1000

def afterLoop (tickRateHz : ℕ) (polled requested : UInt32) : ℤ :=
  powerTimestamp tickRateHz requested - uartTimestamp tickRateHz polled

section Members

variable {F : Type} [FloatArith F] (P : Platform F) (d : Device F)

theorem powerMembers_afterLoop {polled : UInt32}
    (stored : d.uartTxRxTimestamp = uartTimestamp P.tickRateHz polled) :
    (ofString "after_loop",
        buffered (decimal (afterLoop P.tickRateHz polled d.tickCount) ++ ofString "s")) ∈
      powerMembers P d := by
  have hsame : secondsInt P d - d.uartTxRxTimestamp =
      afterLoop P.tickRateHz polled d.tickCount := by
    rw [stored]
    rfl
  unfold powerMembers
  rw [hsame]
  simp

omit [FloatArith F] in
theorem infoMembers_boot :
    (ofString "boot",
        buffered (decimal (bootSeconds P.tickRateHz d.tickCount) ++ ofString "S")) ∈
      infoMembers P d := List.mem_cons_self

end Members

/-- The milliseconds before they are reduced to 32 bits. -/
def uptimeMs (tickRateHz : ℕ) (ticks : UInt32) : ℕ := ticks.toNat * 1000 / tickRateHz

/-- How often the conversion to `int` has jumped from the largest number to the smallest. -/
def intWraps (tickRateHz : ℕ) (ticks : UInt32) : ℕ := (uptimeMs tickRateHz ticks + 2 ^ 31) / 2 ^ 32

structure AfterLoopRight (tickRateHz : ℕ) (polled requested : UInt32) : Prop where
  nonneg : 0 ≤ afterLoop tickRateHz polled requested
  near : |afterLoop tickRateHz polled requested -
    ((requested.toNat - polled.toNat) / tickRateHz : ℕ)| ≤ 1

/-- All three places come to the same number of seconds. -/
def SameSeconds (tickRateHz : ℕ) (ticks : UInt32) : Prop :=
  uartTimestamp tickRateHz ticks = powerTimestamp tickRateHz ticks ∧
    powerTimestamp tickRateHz ticks = bootSeconds tickRateHz ticks

section Conversions

variable {tickRateHz : ℕ}

theorem pdTicksToMs_toNat (ticks : UInt32) :
    (pdTicksToMs tickRateHz ticks).toNat = uptimeMs tickRateHz ticks % 2 ^ 32 := by
  rw [pdTicksToMs, UInt32.toNat_ofNat', uptimeMs]

theorem pdTicksToMs_toInt (ticks : UInt32) :
    (pdTicksToMs tickRateHz ticks).toInt32.toInt =
      uptimeMs tickRateHz ticks - 2 ^ 32 * intWraps tickRateHz ticks := by
  have hword : (pdTicksToMs tickRateHz ticks).toInt32.toInt =
      (pdTicksToMs tickRateHz ticks).toBitVec.toInt := rfl
  have hnat : (pdTicksToMs tickRateHz ticks).toBitVec.toNat =
      uptimeMs tickRateHz ticks % 2 ^ 32 := pdTicksToMs_toNat ticks
  rw [hword, BitVec.toInt_eq_toNat_cond, hnat, intWraps]
  split
  · omega
  · omega

theorem tdiv_thousand (z : ℤ) :
    (0 ≤ z → 1000 * z.tdiv 1000 ≤ z ∧ z ≤ 1000 * z.tdiv 1000 + 999) ∧
      (z ≤ 0 → 1000 * z.tdiv 1000 - 999 ≤ z ∧ z ≤ 1000 * z.tdiv 1000) := by
  constructor
  · intro h
    rw [Int.tdiv_eq_ediv_of_nonneg h]
    omega
  · intro h
    have hneg := Int.neg_tdiv (-z) 1000
    rw [neg_neg] at hneg
    rw [hneg, Int.tdiv_eq_ediv_of_nonneg (by omega)]
    omega

theorem ms_elapsed {p d r : ℕ} (rate : 0 < r) :
    p * 1000 / r + 1000 * (d / r) ≤ (p + d) * 1000 / r ∧
      (p + d) * 1000 / r ≤ p * 1000 / r + 1000 * (d / r) + 1000 := by
  have hseconds := Nat.div_mul_le_self d r
  have hpart : d < d / r * r + r := Nat.lt_div_mul_add rate
  have hms := Nat.div_mul_le_self (p * 1000) r
  have hnext : p * 1000 < p * 1000 / r * r + r := Nat.lt_div_mul_add rate
  constructor
  · rw [Nat.le_div_iff_mul_le rate, Nat.add_mul, Nat.mul_assoc]
    linarith
  · rw [← Nat.lt_succ_iff, Nat.div_lt_iff_lt_mul rate]
    simp only [Nat.succ_eq_add_one, Nat.add_mul, Nat.mul_assoc]
    linarith

theorem uptimeMs_elapsed (rate : 0 < tickRateHz) {polled requested : UInt32}
    (order : polled.toNat ≤ requested.toNat) {seconds : ℕ}
    (elapsed : (requested.toNat - polled.toNat) / tickRateHz = seconds) :
    (uptimeMs tickRateHz polled : ℤ) + 1000 * seconds ≤ uptimeMs tickRateHz requested ∧
      (uptimeMs tickRateHz requested : ℤ) ≤
        uptimeMs tickRateHz polled + 1000 * seconds + 1000 := by
  obtain ⟨d, hd⟩ := Nat.exists_eq_add_of_le order
  rw [hd, Nat.add_sub_cancel_left] at elapsed
  have hms := ms_elapsed (p := polled.toNat) (d := d) rate
  rw [elapsed, ← hd] at hms
  exact_mod_cast hms

theorem seconds_within {a b seconds : ℤ} (nonneg : 0 ≤ seconds) (low : a + 1000 * seconds ≤ b)
    (high : b ≤ a + 1000 * seconds + 1000) :
    0 ≤ b.tdiv 1000 - a.tdiv 1000 ∧ |b.tdiv 1000 - a.tdiv 1000 - seconds| ≤ 1 := by
  have ha := tdiv_thousand a
  have hb := tdiv_thousand b
  rw [abs_le]
  omega

theorem seconds_apart {a b seconds : ℤ} (lost : b + 2 ^ 32 ≤ a + 1000 * seconds + 1000) :
    ¬ |b.tdiv 1000 - a.tdiv 1000 - seconds| ≤ 1 := by
  have ha := tdiv_thousand a
  have hb := tdiv_thousand b
  rw [abs_le]
  omega

section Elapsed

variable (rate : 0 < tickRateHz) {polled requested : UInt32}
  (order : polled.toNat ≤ requested.toNat)

include rate order

/-- As long as the conversion does not jump in between, the difference is right. -/
theorem afterLoop_right (same : intWraps tickRateHz polled = intWraps tickRateHz requested) :
    AfterLoopRight tickRateHz polled requested := by
  obtain ⟨seconds, elapsed⟩ : ∃ s, (requested.toNat - polled.toNat) / tickRateHz = s := ⟨_, rfl⟩
  obtain ⟨hlow, hhigh⟩ := uptimeMs_elapsed rate order elapsed
  have hwithin := @seconds_within
    (uptimeMs tickRateHz polled - 2 ^ 32 * intWraps tickRateHz requested)
    (uptimeMs tickRateHz requested - 2 ^ 32 * intWraps tickRateHz requested)
    seconds (Int.natCast_nonneg _) (by linarith) (by linarith)
  rw [← pdTicksToMs_toInt, ← same, ← pdTicksToMs_toInt] at hwithin
  constructor
  · exact hwithin.1
  · rw [elapsed]
    exact hwithin.2

theorem afterLoop_wrong (jump : intWraps tickRateHz polled ≠ intWraps tickRateHz requested) :
    ¬ AfterLoopRight tickRateHz polled requested := by
  obtain ⟨seconds, elapsed⟩ : ∃ s, (requested.toNat - polled.toNat) / tickRateHz = s := ⟨_, rfl⟩
  obtain ⟨hlow, hhigh⟩ := uptimeMs_elapsed rate order elapsed
  have hlater : uptimeMs tickRateHz polled ≤ uptimeMs tickRateHz requested :=
    Nat.div_le_div_right (Nat.mul_le_mul_right 1000 order)
  have hmore : intWraps tickRateHz polled < intWraps tickRateHz requested :=
    lt_of_le_of_ne (Nat.div_le_div_right (Nat.add_le_add_right hlater _)) jump
  have hmore' : (intWraps tickRateHz polled : ℤ) + 1 ≤ intWraps tickRateHz requested := by
    exact_mod_cast hmore
  rintro ⟨-, hnear⟩
  rw [elapsed, afterLoop, powerTimestamp, uartTimestamp, pdTicksToMs_toInt,
    pdTicksToMs_toInt] at hnear
  refine seconds_apart ?_ hnear
  linarith

end Elapsed

theorem sameSeconds_iff (ticks : UInt32) :
    SameSeconds tickRateHz ticks ↔ uptimeMs tickRateHz ticks % 2 ^ 32 < 2 ^ 31 := by
  have hseconds := tdiv_thousand (pdTicksToMs tickRateHz ticks).toInt32.toInt
  rw [pdTicksToMs_toInt, intWraps] at hseconds
  unfold SameSeconds powerTimestamp uartTimestamp bootSeconds
  rw [pdTicksToMs_toInt, pdTicksToMs_toNat, intWraps]
  constructor
  · rintro ⟨-, same⟩
    omega
  · intro low
    refine ⟨rfl, ?_⟩
    omega

end Conversions

/-- Uptime is reported correctly between two jumps of the conversion to `int`, and the three places
agree while that conversion is not negative. -/
theorem uptime_iff {tickRateHz : ℕ} (rate : 0 < tickRateHz) {polled requested : UInt32}
    (order : polled.toNat ≤ requested.toNat) :
    (AfterLoopRight tickRateHz polled requested ↔
      intWraps tickRateHz polled = intWraps tickRateHz requested) ∧
      ∀ ticks, SameSeconds tickRateHz ticks ↔ uptimeMs tickRateHz ticks % 2 ^ 32 < 2 ^ 31 := by
  refine ⟨⟨?_, afterLoop_right rate order⟩, sameSeconds_iff⟩
  intro right
  by_contra jump
  exact afterLoop_wrong rate order jump right

theorem uptime_iff_minutes :
    (AfterLoopRight 100 6000 36000 ↔ intWraps 100 6000 = intWraps 100 36000) ∧
      ∀ ticks, SameSeconds 100 ticks ↔ uptimeMs 100 ticks % 2 ^ 32 < 2 ^ 31 :=
  uptime_iff (by decide) (by decide)

/-- A request one tick after a poll, 24.8 days after the start: the value is negative. -/
theorem uptime_jump :
    ¬ ∀ tickRateHz, 0 < tickRateHz → ∀ polled requested : UInt32,
      polled.toNat ≤ requested.toNat →
        AfterLoopRight tickRateHz polled requested ∧ ∀ ticks, SameSeconds tickRateHz ticks := by
  intro claim
  have hright := (claim 100 (by decide) 214748364 214748365 (by decide)).1
  exact afterLoop_wrong (by decide) (by decide) (by decide) hright

end Ddsu666
