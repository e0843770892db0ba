import Mathlib.Algebra.Ring.Nat
import Mathlib.Data.List.GetD
import Mathlib.Tactic.ByContra
import Rdf.Temporal.Calendar

/-!
# Days and their numbers

The days of a year follow each other by months, the years follow each other without a gap, and so
every number belongs to one day. Main statements:

* `valid_ofNumber`, `number_ofNumber`: every number is that of a day that exists;
* `ofNumber_number`: every day that exists is found by its number;
* `year_ofNumber_le_iff`, `le_year_ofNumber_iff`: the numbers of the days up to a year and from a
  year on.
-/

namespace Rdf.Calendar

/-- Whether a day exists. -/
structure Day.Valid (d : Day) : Prop where
  month_pos : 1 ≤ d.month
  month_le : d.month ≤ 12
  day_pos : 1 ≤ d.day
  day_le : d.day ≤ daysInMonth d.year d.month

/-! ## Months -/

section Months

variable {lengths : List Nat} {k d : Nat}

/-- A day of a month comes before the end of the last month. -/
theorem sum_take_lt (hpos : 1 ≤ d) (hle : d ≤ lengths.getD k 0) :
    (lengths.take k).sum + (d - 1) < lengths.sum := by
  induction lengths generalizing k with
  | nil =>
    rw [List.getD_nil] at hle
    omega
  | cons length lengths ih =>
    cases k with
    | zero =>
      rw [List.getD_cons_zero] at hle
      rw [List.take_zero, List.sum_nil, List.sum_cons]
      omega
    | succ k =>
      have hlt := ih hle
      rw [List.take_succ_cons, List.sum_cons, List.sum_cons]
      omega

/-- The day after so many whole months and days is found again. -/
theorem splitMonths_sum_take (month : Nat) (hpos : 1 ≤ d) (hle : d ≤ lengths.getD k 0) :
    splitMonths lengths month ((lengths.take k).sum + (d - 1)) = (month + k, d) := by
  induction lengths generalizing k month with
  | nil =>
    rw [List.getD_nil] at hle
    omega
  | cons length lengths ih =>
    cases k with
    | zero =>
      rw [List.getD_cons_zero] at hle
      rw [List.take_zero, List.sum_nil, splitMonths, if_pos (by omega)]
      exact Prod.ext rfl (by simp; omega)
    | succ k =>
      rw [List.take_succ_cons, List.sum_cons, splitMonths, if_neg (by omega)]
      have hday : length + (lengths.take k).sum + (d - 1) - length =
          (lengths.take k).sum + (d - 1) := by omega
      rw [hday, ih (month + 1) hle]
      exact Prod.ext (by simp; omega) rfl

/-- Every day before the end of the last month is a day of some month. -/
theorem exists_eq_sum_take {day : Nat} (h : day < lengths.sum) :
    ∃ k d, 1 ≤ d ∧ d ≤ lengths.getD k 0 ∧ day = (lengths.take k).sum + (d - 1) := by
  induction lengths generalizing day with
  | nil => exact absurd h (Nat.not_lt_zero day)
  | cons length lengths ih =>
    rw [List.sum_cons] at h
    rcases Nat.lt_or_ge day length with hlt | hge
    · exact ⟨0, day + 1, by omega, hlt, by simp⟩
    · obtain ⟨k, d, hpos, hle, heq⟩ := @ih (day - length) (by omega)
      refine ⟨k + 1, d, hpos, hle, ?_⟩
      rw [List.take_succ_cons, List.sum_cons]
      omega

end Months

theorem daysInMonth_le (year : Int) (month : Nat) : daysInMonth year month ≤ 31 := by
  have hall : ∀ length ∈ monthLengths year, length ≤ 31 := by
    unfold monthLengths
    split <;> decide
  unfold daysInMonth
  rw [List.getD_eq_getElem?_getD]
  cases h : (monthLengths year)[month - 1]? with
  | none => simp
  | some length => exact hall length (List.mem_of_getElem? h)

/-! ## Years -/

/-- Days of the year before a day. -/
def dayOfYear (d : Day) : Nat := ((monthLengths d.year).take (d.month - 1)).sum + (d.day - 1)

theorem dayOfYear_lt {d : Day} (h : d.Valid) : dayOfYear d < (monthLengths d.year).sum :=
  sum_take_lt h.day_pos h.day_le

theorem number_eq {d : Day} (h : 1 ≤ d.day) :
    number d = daysThrough (d.year - 1) + dayOfYear d := by
  unfold number dayOfYear
  rw [← List.sum_eq_foldl]
  omega

theorem sum_monthLengths (year : Int) :
    (monthLengths year).sum = if isLeap year then 366 else 365 := by
  unfold monthLengths
  split <;> rfl

/-- A year is over after all its months. -/
theorem daysThrough_eq (year : Int) :
    daysThrough year = daysThrough (year - 1) + (monthLengths year).sum := by
  rw [sum_monthLengths]
  simp only [isLeap, daysThrough, Bool.and_eq_true, Bool.or_eq_true, decide_eq_true_eq]
  split <;> omega

theorem daysThrough_mono {y z : Int} (h : y ≤ z) : daysThrough y ≤ daysThrough z := by
  unfold daysThrough
  omega

theorem number_lt_daysThrough {d : Day} (h : d.Valid) : number d < daysThrough d.year := by
  have hlt := dayOfYear_lt h
  rw [number_eq h.day_pos, daysThrough_eq d.year]
  omega

theorem daysThrough_le_number {d : Day} (h : d.Valid) : daysThrough (d.year - 1) ≤ number d := by
  rw [number_eq h.day_pos]
  omega

theorem year_eq {d : Day} {year : Int} (h : d.Valid) (hle : daysThrough (year - 1) ≤ number d)
    (hlt : number d < daysThrough year) : d.year = year := by
  have hle' := daysThrough_le_number h
  have hlt' := number_lt_daysThrough h
  rcases Int.lt_trichotomy d.year year with hyear | hyear | hyear
  · have hmono := daysThrough_mono (show d.year ≤ year - 1 by omega)
    omega
  · exact hyear
  · have hmono := daysThrough_mono (show year ≤ d.year - 1 by omega)
    omega

/-! ## Cycles

Years are counted in cycles of 400, centuries, spans of four years, and single years. -/

section Cycles

variable (cycle : Int) {century span step : Int}

theorem daysThrough_cycles (hcentury : 0 ≤ century ∧ century ≤ 3) (hspan : 0 ≤ span ∧ span ≤ 24)
    (hstep : 0 ≤ step ∧ step ≤ 3) :
    daysThrough (400 * cycle + 100 * century + 4 * span + step) =
      146097 * cycle + 36524 * century + 1461 * span + 365 * step := by
  have hfour : (400 * cycle + 100 * century + 4 * span + step) / 4 =
      100 * cycle + 25 * century + span := by omega
  have hhundred : (400 * cycle + 100 * century + 4 * span + step) / 100 =
      4 * cycle + century := by omega
  have hcycle : (400 * cycle + 100 * century + 4 * span + step) / 400 = cycle := by omega
  unfold daysThrough
  rw [hfour, hhundred, hcycle]
  omega

/-- The last year of a span is a leap year, but the last year of a century only at the end of a
cycle. -/
theorem isLeap_cycles (hcentury : 0 ≤ century ∧ century ≤ 3) (hspan : 0 ≤ span ∧ span ≤ 24)
    (hstep : 0 ≤ step ∧ step ≤ 3) :
    isLeap (400 * cycle + 100 * century + 4 * span + step + 1) = true ↔
      step = 3 ∧ (span ≠ 24 ∨ century = 3) := by
  simp only [isLeap, Bool.and_eq_true, Bool.or_eq_true, decide_eq_true_eq]
  omega

end Cycles

/-! ## Numbers -/

/-- A number is taken apart into a year and a day of that year. -/
theorem ofNumber_eq (n : Int) : ∃ (year : Int) (day : Nat),
    n = daysThrough (year - 1) + day ∧ day < (monthLengths year).sum ∧
    ofNumber n = ⟨year, (splitMonths (monthLengths year) 1 day).1,
      (splitMonths (monthLengths year) 1 day).2⟩ := by
  let inCycle := n % 146097
  let century := min (inCycle / 36524) 3
  let inCentury := inCycle - century * 36524
  let span := inCentury / 1461
  let inSpan := inCentury % 1461
  let step := min (inSpan / 365) 3
  have hcentury : 0 ≤ century ∧ century ≤ 3 := by omega
  -- only the last century of a cycle has one more day
  have hinCentury : 0 ≤ inCentury ∧ (inCentury ≤ 36523 ∨ inCentury = 36524 ∧ century = 3) := by
    omega
  have hspan : 0 ≤ span ∧ span ≤ 24 := by omega
  have hstep : 0 ≤ step ∧ step ≤ 3 := by omega
  have hinYear : 0 ≤ inSpan - step * 365 ∧ inSpan - step * 365 ≤ 365 := by omega
  have hdays := daysThrough_cycles (n / 146097) hcentury hspan hstep
  have hleap := isLeap_cycles (n / 146097) hcentury hspan hstep
  refine ⟨400 * (n / 146097) + 100 * century + 4 * span + step + 1, (inSpan - step * 365).toNat,
    ?_, ?_, rfl⟩
  · rw [Int.add_sub_cancel, hdays]
    omega
  · rw [sum_monthLengths]
    split
    · omega
    · next hnot =>
      rw [hleap] at hnot
      omega

theorem valid_ofNumber (n : Int) : (ofNumber n).Valid := by
  obtain ⟨year, day, -, hlt, heq⟩ := ofNumber_eq n
  obtain ⟨k, d, hpos, hle, rfl⟩ := exists_eq_sum_take hlt
  rw [splitMonths_sum_take 1 hpos hle] at heq
  have hk : k < 12 := by
    by_contra hge
    have hlength : (monthLengths year).length ≤ k := Nat.not_lt.1 hge
    rw [List.getD_eq_default _ _ hlength] at hle
    omega
  have hmonth : 1 + k - 1 = k := by omega
  rw [heq]
  exact ⟨by simp, by simp; omega, hpos, by simpa [daysInMonth, hmonth] using hle⟩

theorem number_ofNumber (n : Int) : number (ofNumber n) = n := by
  obtain ⟨year, day, hn, hlt, heq⟩ := ofNumber_eq n
  obtain ⟨k, d, hpos, hle, rfl⟩ := exists_eq_sum_take hlt
  rw [splitMonths_sum_take 1 hpos hle] at heq
  have hmonth : 1 + k - 1 = k := by omega
  rw [heq, number_eq hpos, dayOfYear, hmonth, ← hn]

/-- Days that exist are found by their numbers. -/
theorem ofNumber_number {d : Day} (h : d.Valid) : ofNumber (number d) = d := by
  obtain ⟨year, day, hn, hlt, heq⟩ := ofNumber_eq (number d)
  have hyear : d.year = year := by
    refine year_eq h (by omega) ?_
    rw [daysThrough_eq]
    omega
  have hday : day = dayOfYear d := by
    rw [number_eq h.day_pos, hyear] at hn
    omega
  have hmonth : 1 + (d.month - 1) = d.month := by
    have hpos := h.month_pos
    omega
  rw [heq, hday, ← hyear, dayOfYear, splitMonths_sum_take 1 h.day_pos h.day_le, hmonth]

/-- The last day of a year. -/
def lastDay (year : Int) : Day := ⟨year, 12, 31⟩

theorem valid_lastDay (year : Int) : (lastDay year).Valid :=
  ⟨show 1 ≤ 12 by decide, Nat.le_refl 12, show 1 ≤ 31 by decide, Nat.le_refl 31⟩

theorem number_lastDay (year : Int) : number (lastDay year) + 1 = daysThrough year := by
  have hdays : dayOfYear (lastDay year) + 1 = (monthLengths year).sum := by
    unfold dayOfYear lastDay monthLengths
    split <;> rfl
  rw [number_eq (valid_lastDay year).day_pos, daysThrough_eq year]
  have hyear : (lastDay year).year = year := rfl
  rw [hyear]
  omega

/-- No other day is followed by the next year. -/
theorem eq_lastDay {d : Day} {year : Int} (h : d.Valid) (hle : d.year ≤ year)
    (hlast : daysThrough year ≤ number d + 1) : d = lastDay year := by
  have hlt := number_lt_daysThrough h
  have hmono := daysThrough_mono hle
  have hnumber := number_lastDay year
  have heq : number d = number (lastDay year) := by omega
  rw [← ofNumber_number h, heq, ofNumber_number (valid_lastDay year)]

/-- The numbers of the days up to the end of a year. -/
theorem year_ofNumber_le_iff (n year : Int) : (ofNumber n).year ≤ year ↔ n < daysThrough year := by
  have hlt := number_lt_daysThrough (valid_ofNumber n)
  have hge := daysThrough_le_number (valid_ofNumber n)
  rw [number_ofNumber] at hlt hge
  constructor
  · intro h
    exact Int.lt_of_lt_of_le hlt (daysThrough_mono h)
  · intro h
    by_contra hnot
    have hmono := daysThrough_mono (show year ≤ (ofNumber n).year - 1 by omega)
    omega

/-- The numbers of the days from the beginning of a year on. -/
theorem le_year_ofNumber_iff (n year : Int) :
    year ≤ (ofNumber n).year ↔ daysThrough (year - 1) ≤ n := by
  have hle := year_ofNumber_le_iff n (year - 1)
  omega

end Rdf.Calendar
