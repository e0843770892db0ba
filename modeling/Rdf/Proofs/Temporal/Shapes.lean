import Rdf.Proofs.Temporal.Printing

/-!
# Lengths and characters of dates and times

What can be told from the outside of a text of the grammar: its length, its third character, and
whether a sign or a `Z` occurs in it. Main statements:

* `TimeOfDay.third_of_read?`, `DateTime.third_of_read?`, `Date.third_of_read?`: only in times of day
  the third character is a colon;
* `TimeOfDay.any_isMark_of_read?`: a sign or a `Z` occurs in a time of day if it has an offset;
* `DateTime.length_of_read?`, `Date.length_of_read?`: the least lengths, with an offset and without;
* `DateTime.length_print_eq_iff`, `Date.length_print_eq_iff`: when the text of a value is that short.
-/

namespace Rdf

open Digits (padded)

namespace TemporalText

variable {cs : List Char}

/-! ## Fields -/

theorem length_pair {n : Nat} (h : n < 100) : (padded 2 n).length = 2 :=
  Digits.length_padded_of_lt h

theorem getElem?_padded_append {width i : Nat} (h : i < width) (n : Nat) (rest : List Char) :
    ∃ c, (padded width n ++ rest)[i]? = some c ∧ c.isDigit = true := by
  have hlength : i < (padded width n).length := by
    rw [Digits.length_padded]
    omega
  refine ⟨(padded width n)[i], ?_, Digits.isDigit_of_mem_padded (List.getElem_mem hlength)⟩
  rw [List.getElem?_append_left hlength, List.getElem?_eq_getElem hlength]

theorem four_le_length_padded (n : Nat) : 4 ≤ (padded 4 n).length := by
  rw [Digits.length_padded]
  omega

theorem length_padded_eq_four_iff {n : Nat} : (padded 4 n).length = 4 ↔ n ≤ 9999 := by
  have hiff := Digits.length_ofNat_le_iff n 3
  rw [Digits.length_padded]
  omega

/-! ## Days -/

theorem IsYear.four_le_length {y : Int} (h : IsYear y cs) : 4 ≤ cs.length := by
  cases h with
  | @plain n h => exact four_le_length_padded n
  | @negative n h => exact Nat.le_succ_of_le (four_le_length_padded n)

theorem IsYear.bounds_of_length {y : Int} (h : IsYear y cs) (hlength : cs.length = 4) :
    0 ≤ y ∧ y ≤ 9999 := by
  cases h with
  | @plain n h =>
    have hle := length_padded_eq_four_iff.1 hlength
    omega
  | @negative n h =>
    have hlong := four_le_length_padded n
    rw [List.length_cons] at hlength
    omega

theorem IsYear.eq_of_pos {y : Int} (h : IsYear y cs) (hpos : 0 < y) : cs = padded 4 y.natAbs := by
  cases h with
  | @plain n h => rfl
  | @negative n h => omega

theorem IsYear.third {y : Int} (h : IsYear y cs) (rest : List Char) :
    ∃ c, (cs ++ rest)[2]? = some c ∧ c.isDigit = true := by
  cases h with
  | @plain n h => exact getElem?_padded_append (by decide) n rest
  | @negative n h =>
    rw [List.cons_append, List.getElem?_cons_succ]
    exact getElem?_padded_append (by decide) n rest

theorem length_month {d : Calendar.Day} (h : d.Valid) : (padded 2 d.month).length = 2 :=
  length_pair (Nat.lt_of_le_of_lt h.month_le (by decide))

theorem length_day {d : Calendar.Day} (h : d.Valid) : (padded 2 d.day).length = 2 := by
  have hle := h.day_le
  have hmax := Calendar.daysInMonth_le d.year d.month
  exact length_pair (by omega)

theorem IsDay.exists_year {d : Calendar.Day} (h : IsDay d cs) : ∃ year rest,
    IsYear d.year year ∧ cs = year ++ rest ∧ cs.length = year.length + 6 := by
  obtain ⟨hvalid, year, hyear, rfl⟩ := h
  refine ⟨year, _, hyear, rfl, ?_⟩
  simp only [List.length_append, List.length_cons, length_month hvalid, length_day hvalid]

theorem IsDay.ten_le_length {d : Calendar.Day} (h : IsDay d cs) : 10 ≤ cs.length := by
  obtain ⟨year, -, hyear, -, hlength⟩ := h.exists_year
  have hle := hyear.four_le_length
  omega

theorem IsDay.bounds_of_length {d : Calendar.Day} (h : IsDay d cs) (hlength : cs.length = 10) :
    0 ≤ d.year ∧ d.year ≤ 9999 := by
  obtain ⟨year, -, hyear, -, hlength'⟩ := h.exists_year
  exact hyear.bounds_of_length (by omega)

/-- Every day after the year zero has one text. -/
theorem IsDay.eq_printDay {d : Calendar.Day} (h : IsDay d cs) (hpos : 0 < d.year) :
    cs = printDay d := by
  obtain ⟨-, year, hyear, rfl⟩ := h
  rw [hyear.eq_of_pos hpos, printDay, if_neg (by omega), List.append_assoc, List.cons_append]

theorem IsDay.third {d : Calendar.Day} (h : IsDay d cs) (rest : List Char) :
    ∃ c, (cs ++ rest)[2]? = some c ∧ c ≠ ':' := by
  obtain ⟨year, tail, hyear, rfl, -⟩ := h.exists_year
  obtain ⟨c, hc, hdigit⟩ := hyear.third (tail ++ rest)
  rw [← List.append_assoc] at hc
  exact ⟨c, hc, fun heq => absurd hdigit (by rw [heq]; decide)⟩

theorem length_printDay {d : Calendar.Day} (h : d.Valid) : (printDay d).length =
    (if d.year < 0 then 1 else 0) + (padded 4 d.year.natAbs).length + 6 := by
  unfold printDay
  simp only [List.length_append, List.length_cons, length_month h, length_day h]
  split
  · rw [List.length_cons]
    omega
  · omega

theorem length_printDay_eq_ten_iff {d : Calendar.Day} (h : d.Valid) :
    (printDay d).length = 10 ↔ 0 ≤ d.year ∧ d.year ≤ 9999 := by
  have hfour := four_le_length_padded d.year.natAbs
  have hiff := @length_padded_eq_four_iff d.year.natAbs
  rw [length_printDay h]
  split <;> omega

/-! ## Clocks -/

theorem IsSeconds.two_le_length {t : Nat} (h : IsSeconds t cs) : 2 ≤ cs.length := by
  cases h with
  | @whole s h => rw [length_pair (by omega)]
  | @fraction s part ds h => simp [length_pair (show s < 100 by omega)]

theorem IsSeconds.eq_of_length {t : Nat} (h : IsSeconds t cs) (hlength : cs.length = 2) :
    ∃ s < 60, t = s * ticksPerSecond.toNat ∧ cs = padded 2 s := by
  cases h with
  | @whole s h => exact ⟨s, h, rfl, rfl⟩
  | @fraction s part ds h => simp [length_pair (show s < 100 by omega)] at hlength

theorem IsClock.eight_le_length {k : Clock} (h : IsClock k cs) : 8 ≤ cs.length := by
  obtain ⟨hhour, hminute, -, seconds, hseconds, rfl⟩ := h
  have hle := hseconds.two_le_length
  simp only [List.length_append, List.length_cons, length_pair (show k.hour < 100 by omega),
    length_pair (show k.minute < 100 by omega)]
  omega

theorem IsClock.eq_of_length {k : Clock} (h : IsClock k cs) (hlength : cs.length = 8) :
    ∃ s < 60, k.ticks = s * ticksPerSecond.toNat ∧
      cs = padded 2 k.hour ++ ':' :: (padded 2 k.minute ++ ':' :: padded 2 s) := by
  obtain ⟨hhour, hminute, -, seconds, hseconds, rfl⟩ := h
  simp only [List.length_append, List.length_cons, length_pair (show k.hour < 100 by omega),
    length_pair (show k.minute < 100 by omega)] at hlength
  obtain ⟨s, hs, ht, rfl⟩ := hseconds.eq_of_length (by omega)
  exact ⟨s, hs, ht, rfl⟩

theorem IsClock.third {k : Clock} (h : IsClock k cs) (rest : List Char) :
    (cs ++ rest)[2]? = some ':' := by
  obtain ⟨hhour, -, -, seconds, -, rfl⟩ := h
  have hlength := length_pair (show k.hour < 100 by omega)
  rw [List.append_assoc, List.getElem?_append_right (by omega), hlength]
  rfl

/-- The characters that tell times of day with an offset from those without. -/
def isMark (c : Char) : Bool := c = '+' || c = '-' || c = 'Z'

theorem isMark_of_isDigit {c : Char} (h : c.isDigit = true) : isMark c = false := by
  unfold isMark
  by_contra hnot
  simp only [Bool.not_eq_false, Bool.or_eq_true, decide_eq_true_eq] at hnot
  rcases hnot with (rfl | rfl) | rfl <;> revert h <;> decide

theorem any_isMark_padded (width n : Nat) : (padded width n).any isMark = false := by
  rw [List.any_eq_false]
  intro c hc
  rw [isMark_of_isDigit (Digits.isDigit_of_mem_padded hc)]
  decide

theorem IsSeconds.any_isMark {t : Nat} (h : IsSeconds t cs) : cs.any isMark = false := by
  cases h with
  | whole h => exact any_isMark_padded _ _
  | @fraction s part ds h _ hdigits =>
    have hds : ds.any isMark = false := by
      rw [List.any_eq_false]
      intro c hc
      rw [isMark_of_isDigit (hdigits c hc)]
      decide
    rw [List.any_append, List.any_cons, any_isMark_padded, hds]
    rfl

theorem IsClock.any_isMark {k : Clock} (h : IsClock k cs) : cs.any isMark = false := by
  obtain ⟨-, -, -, seconds, hseconds, rfl⟩ := h
  rw [List.any_append, List.any_cons, List.any_append, List.any_cons, any_isMark_padded,
    any_isMark_padded, hseconds.any_isMark]
  rfl

theorem length_printSeconds_eq_two_iff {t : Nat} (h : t < 60 * ticksPerSecond.toNat) :
    (printSeconds t).length = 2 ↔ t % ticksPerSecond.toNat = 0 := by
  have hs : t / ticksPerSecond.toNat < 100 := by
    have hlt : t / ticksPerSecond.toNat < 60 := Nat.div_lt_of_lt_mul (Nat.mul_comm _ _ ▸ h)
    omega
  unfold printSeconds
  dsimp only
  split
  · next hzero => simp [length_pair hs, hzero]
  · next hpart => simp [length_pair hs, hpart]

theorem length_printClock (m : Moment) :
    (printClock m).length = 6 + (printSeconds m.ticks).length := by
  have hhour := length_pair (Nat.lt_trans m.hour_lt (by decide))
  have hminute := length_pair (Nat.lt_trans m.minute_lt (by decide))
  unfold printClock
  simp only [List.length_append, List.length_cons, hhour, hminute]
  omega

/-! ## Offsets -/

theorem IsOffset.any_isMark {offset : Option Int} (h : IsOffset offset cs) :
    cs.any isMark = offset.isSome := by
  cases h <;> rfl

theorem IsOffset.eq_nil {offset : Option Int} (h : IsOffset offset cs)
    (hnone : offset.isSome = false) : cs = [] := by
  cases h with
  | none => rfl
  | utc => cases hnone
  | ahead => cases hnone
  | behind => cases hnone

theorem IsOffset.length_pos {offset : Option Int} (h : IsOffset offset cs)
    (hsome : offset.isSome = true) : 0 < cs.length := by
  cases h with
  | none => cases hsome
  | utc => exact Nat.zero_lt_succ _
  | ahead => exact Nat.zero_lt_succ _
  | behind => exact Nat.zero_lt_succ _

end TemporalText

open TemporalText

/-! ## Whole texts -/

section Texts

variable {cs : List Char}

theorem TimeOfDay.third_of_read? {t : TimeOfDay} (h : read? cs = some t) : cs[2]? = some ':' := by
  obtain ⟨k, offset, clock, ending, hclock, -, rfl, -⟩ := read?_eq_some_iff.1 h
  exact hclock.third ending

/-- A sign or a `Z` occurs in a time of day if it has an offset. -/
theorem TimeOfDay.any_isMark_of_read? {t : TimeOfDay} (h : read? cs = some t) :
    cs.any isMark = t.moment.offset.isSome := by
  obtain ⟨k, offset, clock, ending, hclock, hoffset, rfl, hm⟩ := read?_eq_some_iff.1 h
  rw [List.any_append, hclock.any_isMark, hoffset.any_isMark, Moment.offset_of_ofFields? hm]
  rfl

theorem DateTime.third_of_read? {t : DateTime} (h : read? cs = some t) :
    ∃ c, cs[2]? = some c ∧ c ≠ ':' := by
  obtain ⟨d, k, offset, day, clock, ending, hday, -, -, rfl, -⟩ := read?_eq_some_iff.1 h
  exact hday.third _

/-- A date with a time of day has at least 19 characters, and more than 19 with an offset. -/
theorem DateTime.length_of_read? {t : DateTime} (h : read? cs = some t) :
    19 ≤ cs.length ∧ (t.moment.offset.isSome = true → 19 < cs.length) := by
  obtain ⟨d, k, offset, day, clock, ending, hday, hclock, hoffset, rfl, hm⟩ :=
    read?_eq_some_iff.1 h
  have hten := hday.ten_le_length
  have height := hclock.eight_le_length
  rw [Moment.offset_of_ofFields? hm]
  simp only [List.length_append, List.length_cons]
  refine ⟨by omega, fun hsome => ?_⟩
  have hpos := hoffset.length_pos hsome
  omega

theorem Date.third_of_read? {t : Date} (h : read? cs = some t) :
    ∃ c, cs[2]? = some c ∧ c ≠ ':' := by
  obtain ⟨d, offset, day, ending, hday, -, rfl, -⟩ := read?_eq_some_iff.1 h
  exact hday.third _

/-- A date has at least 10 characters, and more than 10 with an offset. -/
theorem Date.length_of_read? {t : Date} (h : read? cs = some t) :
    10 ≤ cs.length ∧ (t.moment.offset.isSome = true → 10 < cs.length) := by
  obtain ⟨d, offset, day, ending, hday, hoffset, rfl, hm⟩ := read?_eq_some_iff.1 h
  have hten := hday.ten_le_length
  rw [Moment.offset_of_ofFields? hm, List.length_append]
  refine ⟨by omega, fun hsome => ?_⟩
  have hpos := hoffset.length_pos hsome
  omega

/-- A date with a time of day of 19 characters and without an offset has nothing to spare. -/
theorem DateTime.exists_fields_of_length {t : DateTime} (h : read? cs = some t)
    (hnone : t.moment.offset.isSome = false) (hlength : cs.length = 19) :
    ∃ (d : Calendar.Day) (k : Clock) (day clock : List Char),
      IsDay d day ∧ day.length = 10 ∧ IsClock k clock ∧ clock.length = 8 ∧
      cs = day ++ 'T' :: clock ∧
      Moment.ofFields? d k.hour k.minute k.ticks none = some t.moment := by
  obtain ⟨d, k, offset, day, clock, ending, hday, hclock, hoffset, rfl, hm⟩ :=
    read?_eq_some_iff.1 h
  rw [Moment.offset_of_ofFields? hm] at hnone
  obtain rfl := hoffset.eq_nil hnone
  obtain rfl : offset = none := by simpa using hnone
  have hten := hday.ten_le_length
  have height := hclock.eight_le_length
  simp only [List.length_append, List.length_cons, List.length_nil] at hlength
  exact ⟨d, k, day, clock, hday, by omega, hclock, by omega, by rw [List.append_nil], hm⟩

/-- A date of 10 characters has no room for an offset. -/
theorem Date.offset_of_length {t : Date} (h : read? cs = some t) (hlength : cs.length = 10) :
    t.moment.offset.isSome = false := by
  rw [Bool.eq_false_iff]
  intro hsome
  have hlong := (length_of_read? h).2 hsome
  omega

/-- A date with a time of day and without an offset is written in 19 characters if its year has four
digits and its seconds are whole. -/
theorem DateTime.length_print_eq_iff {t : DateTime} (h : t.moment.offset.isSome = false) :
    t.print.length = 19 ↔ (0 ≤ t.moment.day.year ∧ t.moment.day.year ≤ 9999) ∧
      t.moment.instant % ticksPerSecond = 0 := by
  have hnone : t.moment.offset = none := by simpa using h
  have hday := length_printDay_eq_ten_iff t.moment.valid_day
  have hten : 10 ≤ (printDay t.moment.day).length := by
    have hfour := four_le_length_padded t.moment.day.year.natAbs
    rw [length_printDay t.moment.valid_day]
    omega
  have hseconds := length_printSeconds_eq_two_iff t.moment.ticks_lt
  have htwo := (isSeconds_printSeconds t.moment.ticks_lt).two_le_length
  have hwhole : t.moment.ticks % ticksPerSecond.toNat = 0 ↔
      t.moment.instant % ticksPerSecond = 0 := by
    have htoNat : ticksPerSecond.toNat = 1000000000000000000 := rfl
    rw [htoNat]
    unfold Moment.ticks ticksPerSecond
    omega
  rw [← hday, ← hwhole, ← hseconds, print, hnone]
  simp only [List.length_append, List.length_cons, length_printClock, printOffset, List.length_nil]
  omega

/-- A date without an offset is written in 10 characters if its year has four digits. -/
theorem Date.length_print_eq_iff {t : Date} (h : t.moment.offset.isSome = false) :
    t.print.length = 10 ↔ 0 ≤ t.moment.day.year ∧ t.moment.day.year ≤ 9999 := by
  have hnone : t.moment.offset = none := by simpa using h
  rw [← length_printDay_eq_ten_iff t.moment.valid_day, print, hnone, printOffset, List.append_nil]

end Texts

end Rdf
