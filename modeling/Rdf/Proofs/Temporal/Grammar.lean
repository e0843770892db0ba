import Rdf.Proofs.Temporal.Moment
import Rdf.Temporal.Printing

/-!
# The grammar of dates and times

What the readers accept, said as relations between the values of the parts and their texts: a year
of four digits or of more without a leading zero, days that exist, clocks up to midnight at the end
of the day, fractions of seconds, offsets of at most fourteen hours. Main statements:

* `DateTime.read?_eq_some_iff`, `Date.read?_eq_some_iff`, `TimeOfDay.read?_eq_some_iff`: a text is
  read if it is one of the grammar, as the moment of its fields.
-/

namespace Rdf

open Digits (padded Stops)

namespace TemporalText

variable {cs rest : List Char} {n low high : Nat} {c : Char}

/-! ## Pairs of digits and marks -/

theorem stops_nil : Stops [] := by
  intro d hd
  cases hd

theorem stops_cons (h : c.isDigit = false) (cs : List Char) : Stops (c :: cs) := by
  intro d hd
  obtain rfl := Option.some.inj hd
  exact h

theorem pair?_append (h : n < 100) (hrest : Stops rest) :
    pair? (padded 2 n ++ rest) = some (n, rest) := by
  have hlength : (padded 2 n).length = 2 := Digits.length_padded_of_lt h
  unfold pair?
  rw [Digits.span_append_padded hrest]
  simp [hlength, Digits.toNat_padded]

theorem eq_append_of_pair? (h : pair? cs = some (n, rest)) : n < 100 ∧ cs = padded 2 n ++ rest := by
  obtain ⟨ds, tail, hcs, hspan, hdigits⟩ := Digits.exists_span cs
  unfold pair? at h
  rw [hspan] at h
  obtain ⟨hlength, heq⟩ := Option.ite_none_right_eq_some.1 h
  obtain ⟨rfl, rfl⟩ := Prod.mk.inj (Option.some.inj heq)
  have hlt := Digits.toNat_lt hdigits
  have hpadded := Digits.padded_toNat hdigits (List.ne_nil_of_length_pos (by omega))
  rw [hlength] at hlt hpadded
  exact ⟨hlt, by rw [hpadded, hcs]⟩

theorem pairIn?_append (hlow : low ≤ n) (hhigh : n ≤ high) (h : n < 100) (hrest : Stops rest) :
    pairIn? low high (padded 2 n ++ rest) = some (n, rest) := by
  unfold pairIn?
  rw [pair?_append h hrest]
  simp [hlow, hhigh]

theorem eq_append_of_pairIn? (h : pairIn? low high cs = some (n, rest)) :
    low ≤ n ∧ n ≤ high ∧ n < 100 ∧ cs = padded 2 n ++ rest := by
  obtain ⟨hpair, hbounds⟩ := Option.filter_eq_some_iff.1 h
  obtain ⟨hlt, hcs⟩ := eq_append_of_pair? hpair
  simp only [Bool.and_eq_true, decide_eq_true_eq] at hbounds
  exact ⟨hbounds.1, hbounds.2, hlt, hcs⟩

theorem expect?_cons (c : Char) (cs : List Char) : expect? c (c :: cs) = some cs := if_pos rfl

theorem eq_cons_of_expect? (h : expect? c cs = some rest) : cs = c :: rest := by
  cases cs with
  | nil => cases h
  | cons d ds =>
    obtain ⟨rfl, heq⟩ := Option.ite_none_right_eq_some.1 h
    rw [Option.some.inj heq]

/-! ## Days -/

/-- The texts of a year. Year zero is also written with a minus sign. -/
inductive IsYear : Int → List Char → Prop
  | plain {n : Nat} (h : Integer.Range.long.contains n = true) : IsYear n (padded 4 n)
  | negative {n : Nat} (h : Integer.Range.long.contains n = true) : IsYear (-n) ('-' :: padded 4 n)

/-- The texts of a day that exists. -/
def IsDay (day : Calendar.Day) (cs : List Char) : Prop :=
  day.Valid ∧ ∃ year, IsYear day.year year ∧
    cs = year ++ '-' :: (padded 2 day.month ++ '-' :: padded 2 day.day)

/-- The digits of a year without its sign. -/
theorem yearDigits_iff {ds : List Char} (hdigits : ∀ c ∈ ds, c.isDigit = true) :
    ¬(ds.length < 4 ∨ (4 < ds.length ∧ ds.head? = some '0')) ↔ ds = padded 4 (Digits.toNat ds) := by
  constructor
  · intro h
    have hne : ds ≠ [] := List.ne_nil_of_length_pos (by omega)
    rcases Nat.lt_or_ge 4 ds.length with hlt | hge
    · have hread := Digits.ofNat_toNat hdigits hne (by tauto)
      rw [Digits.padded_eq, hread, Nat.sub_eq_zero_of_le (by omega)]
      rfl
    · have hpadded := Digits.padded_toNat hdigits hne
      rw [show ds.length = 4 by omega] at hpadded
      exact hpadded.symm
  · intro h
    have hlength := Digits.length_padded 4 (Digits.toNat ds)
    rw [← h] at hlength
    rintro (hlt | ⟨hlt, hzero⟩)
    · omega
    · have hofNat : ds = Digits.ofNat (Digits.toNat ds) := by
        rwa [Digits.padded_eq, Nat.sub_eq_zero_of_le (by omega)] at h
      have hpos : 0 < Digits.toNat ds := by
        by_contra hnot
        rw [Nat.eq_zero_of_not_pos hnot] at hofNat
        rw [hofNat, Digits.ofNat_of_lt (by decide)] at hlt
        exact absurd hlt (by decide)
      rw [hofNat] at hzero
      exact Digits.head?_ofNat_ne hpos hzero

theorem unsign_of_head? (h : cs.head? ≠ some '-') : unsign cs = (false, cs) := by
  unfold unsign
  split
  · exact absurd rfl h
  · rfl

theorem unsign_padded (width n : Nat) (rest : List Char) (h : 0 < width) :
    unsign (padded width n ++ rest) = (false, padded width n ++ rest) := by
  apply unsign_of_head?
  intro hhead
  rw [List.head?_append_of_ne_nil _ (Digits.padded_ne_nil h n)] at hhead
  exact absurd (Digits.isDigit_of_mem_padded (List.mem_of_head? hhead)) (by decide)

/-- A year is read if its digits without the sign are the text of a number of 64 bits. -/
theorem year?_eq_some_iff {y : Int} : year? cs = some (y, rest) ↔
    ∃ n : Nat, Integer.Range.long.contains n = true ∧
      Digits.span (unsign cs).2 = (padded 4 n, rest) ∧
      y = if (unsign cs).1 then -(n : Int) else n := by
  obtain ⟨ds, tail, -, hspan, hdigits⟩ := Digits.exists_span (unsign cs).2
  have hread := yearDigits_iff hdigits
  unfold year?
  simp only [hspan]
  rw [Option.ite_none_left_eq_some, Option.some.injEq, Prod.mk.injEq]
  constructor
  · rintro ⟨hnot, rfl, rfl⟩
    refine ⟨Digits.toNat ds, ?_, ?_, rfl⟩
    · tauto
    · rw [← hread.1 (by tauto)]
  · rintro ⟨n, hn, heq, rfl⟩
    obtain ⟨rfl, rfl⟩ := Prod.mk.inj heq
    rw [Digits.toNat_padded] at hread ⊢
    have hnot := hread.2 rfl
    exact ⟨by tauto, rfl, rfl⟩

theorem year?_append {y : Int} {year : List Char} (h : IsYear y year) (hrest : Stops rest) :
    year? (year ++ rest) = some (y, rest) := by
  rw [year?_eq_some_iff]
  cases h with
  | @plain n h =>
    rw [unsign_padded 4 n rest (by decide)]
    exact ⟨n, h, Digits.span_append_padded hrest, rfl⟩
  | @negative n h => exact ⟨n, h, Digits.span_append_padded hrest, rfl⟩

theorem exists_year {y : Int} (h : year? cs = some (y, rest)) :
    ∃ year, IsYear y year ∧ cs = year ++ rest := by
  obtain ⟨n, hn, hspan, rfl⟩ := year?_eq_some_iff.1 h
  obtain ⟨ds, tail, hcs, hspan', -⟩ := Digits.exists_span (unsign cs).2
  obtain ⟨rfl, rfl⟩ := Prod.mk.inj (hspan'.symm.trans hspan)
  unfold unsign at hcs ⊢
  split at hcs
  · exact ⟨_, .negative hn, by rw [List.cons_append, ← hcs]⟩
  · exact ⟨_, .plain hn, hcs⟩

theorem day?_append {d : Calendar.Day} {day : List Char} (h : IsDay d day) (hrest : Stops rest) :
    day? (day ++ rest) = some (d, rest) := by
  obtain ⟨hvalid, year, hyear, rfl⟩ := h
  have hmonth : d.month < 100 := Nat.lt_of_le_of_lt hvalid.month_le (by decide)
  have hday : d.day < 100 := by
    have hle := hvalid.day_le
    have hmax := Calendar.daysInMonth_le d.year d.month
    omega
  unfold day?
  simp only [List.append_assoc, List.cons_append]
  rw [year?_append hyear (stops_cons (by decide) _)]
  simp only [Option.bind_eq_bind, Option.bind_some, expect?_cons]
  rw [pairIn?_append hvalid.month_pos hvalid.month_le hmonth (stops_cons (by decide) _)]
  simp only [Option.bind_some, expect?_cons]
  rw [pairIn?_append hvalid.day_pos hvalid.day_le hday hrest]
  rfl

theorem exists_day {d : Calendar.Day} (h : day? cs = some (d, rest)) :
    ∃ day, IsDay d day ∧ cs = day ++ rest := by
  unfold day? at h
  simp only [Option.bind_eq_bind, Option.bind_eq_some_iff, Prod.exists, Option.some.injEq,
    Prod.mk.injEq] at h
  obtain ⟨y, cs₁, hread, cs₂, hdash, month, cs₃, hmonth, cs₄, hdash', day, cs₅, hday, rfl, rfl⟩ := h
  obtain ⟨year, hyear, rfl⟩ := exists_year hread
  obtain rfl := eq_cons_of_expect? hdash
  obtain ⟨hmpos, hmle, -, rfl⟩ := eq_append_of_pairIn? hmonth
  obtain rfl := eq_cons_of_expect? hdash'
  obtain ⟨hdpos, hdle, -, rfl⟩ := eq_append_of_pairIn? hday
  exact ⟨_, ⟨⟨hmpos, hmle, hdpos, hdle⟩, year, hyear, rfl⟩, by simp⟩

/-! ## Clocks -/

/-- The texts of seconds below a minute, in ticks. -/
inductive IsSeconds : Nat → List Char → Prop
  | whole {s : Nat} (h : s < 60) : IsSeconds (s * ticksPerSecond.toNat) (padded 2 s)
  | fraction {s part : Nat} {ds : List Char} (h : s < 60) (hne : ds ≠ [])
    (hdigits : ∀ c ∈ ds, c.isDigit = true) (hpart : fraction? ds = some part) :
    IsSeconds (s * ticksPerSecond.toNat + part) (padded 2 s ++ '.' :: ds)

/-- The texts of a clock. After 24 hours nothing follows but zeros. -/
def IsClock (clock : Clock) (cs : List Char) : Prop :=
  clock.hour ≤ 24 ∧ clock.minute < 60 ∧
  (clock.hour = 24 → clock.minute = 0 ∧ clock.ticks = 0) ∧
  ∃ seconds, IsSeconds clock.ticks seconds ∧
    cs = padded 2 clock.hour ++ ':' :: (padded 2 clock.minute ++ ':' :: seconds)

variable {t : Nat}

theorem seconds?_append {seconds : List Char} (h : IsSeconds t seconds) (hrest : Stops rest)
    (hdot : rest.head? ≠ some '.') : seconds? (seconds ++ rest) = some (t, rest) := by
  unfold seconds?
  cases h with
  | @whole s h =>
    rw [pairIn?_append (Nat.zero_le s) (by omega) (by omega) hrest]
    cases rest with
    | nil => rfl
    | cons c rest =>
      have hc : c ≠ '.' := fun heq => hdot (congrArg some heq)
      simp [hc]
  | @fraction s part ds h hne hdigits hpart =>
    rw [List.append_assoc, List.cons_append,
      pairIn?_append (Nat.zero_le s) (by omega) (by omega) (stops_cons (by decide) _)]
    simp [Digits.span_append hdigits hrest, hne, hpart]

theorem exists_seconds (h : seconds? cs = some (t, rest)) :
    ∃ seconds, IsSeconds t seconds ∧ cs = seconds ++ rest := by
  unfold seconds? at h
  simp only [Option.bind_eq_bind, Option.bind_eq_some_iff, Prod.exists] at h
  obtain ⟨s, cs₁, hpair, h⟩ := h
  obtain ⟨-, hle, -, rfl⟩ := eq_append_of_pairIn? hpair
  have hs : s < 60 := Nat.lt_succ_of_le hle
  split at h
  · next tail =>
    obtain ⟨ds, tail, rfl, hspan, hdigits⟩ := Digits.exists_span tail
    rw [hspan] at h
    by_cases hne : ds = []
    · simp [hne] at h
    · simp only [if_neg hne, Option.bind_eq_some_iff, Option.some.injEq, Prod.mk.injEq] at h
      obtain ⟨part, hpart, rfl, rfl⟩ := h
      exact ⟨_, .fraction hs hne hdigits hpart, by simp⟩
  · obtain ⟨rfl, rfl⟩ := Prod.mk.inj (Option.some.inj h)
    exact ⟨_, .whole hs, rfl⟩

theorem clock?_append {clock : Clock} {text : List Char} (h : IsClock clock text)
    (hrest : Stops rest) (hdot : rest.head? ≠ some '.') :
    clock? (text ++ rest) = some (clock, rest) := by
  obtain ⟨hhour, hminute, hmidnight, seconds, hseconds, rfl⟩ := h
  have hread : ¬(clock.hour = 24 ∧ (clock.minute ≠ 0 ∨ clock.ticks ≠ 0)) := by omega
  unfold clock?
  simp only [List.append_assoc, List.cons_append]
  rw [pairIn?_append (Nat.zero_le _) hhour (by omega) (stops_cons (by decide) _)]
  simp only [Option.bind_eq_bind, Option.bind_some, expect?_cons]
  rw [pairIn?_append (Nat.zero_le _) (by omega) (by omega) (stops_cons (by decide) _)]
  simp only [Option.bind_some, expect?_cons, seconds?_append hseconds hrest hdot]
  exact if_neg hread

theorem exists_clock {clock : Clock} (h : clock? cs = some (clock, rest)) :
    ∃ text, IsClock clock text ∧ cs = text ++ rest := by
  unfold clock? at h
  simp only [Option.bind_eq_bind, Option.bind_eq_some_iff, Prod.exists,
    Option.ite_none_left_eq_some, Option.some.injEq, Prod.mk.injEq] at h
  obtain ⟨hour, cs₁, hpair, cs₂, hcolon, minute, cs₃, hpair', cs₄, hcolon', ticks, cs₅, hread,
    hmidnight, rfl, rfl⟩ := h
  obtain ⟨-, hhour, -, rfl⟩ := eq_append_of_pairIn? hpair
  obtain rfl := eq_cons_of_expect? hcolon
  obtain ⟨-, hminute, -, rfl⟩ := eq_append_of_pairIn? hpair'
  obtain rfl := eq_cons_of_expect? hcolon'
  obtain ⟨seconds, hseconds, rfl⟩ := exists_seconds hread
  have hzero : hour = 24 → minute = 0 ∧ ticks = 0 := by omega
  exact ⟨_, ⟨hhour, Nat.lt_succ_of_le hminute, hzero, seconds, hseconds, rfl⟩, by simp⟩

/-! ## Offsets -/

/-- Hours and minutes of an offset without its sign. -/
def zone (n : Nat) : List Char := padded 2 (n / 60) ++ ':' :: padded 2 (n % 60)

/-- The texts of an offset of at most fourteen hours. -/
inductive IsOffset : Option Int → List Char → Prop
  | none : IsOffset none []
  | utc : IsOffset (some 0) ['Z']
  | ahead {n : Nat} (h : n ≤ 840) : IsOffset (some n) ('+' :: zone n)
  | behind {n : Nat} (h : n ≤ 840) : IsOffset (some (-n)) ('-' :: zone n)

theorem offsetMinutes?_zone (h : n ≤ 840) : offsetMinutes? (zone n) = some ((n : Int), []) := by
  have hread : ¬(13 < n / 60 ∧ ¬(n / 60 = 14 ∧ n % 60 = 0)) := by omega
  have hn : ((n / 60 * 60 + n % 60 : Nat) : Int) = n := by omega
  have hpair : pairIn? 0 59 (padded 2 (n % 60) ++ []) = some (n % 60, []) :=
    pairIn?_append (by omega) (by omega) (by omega) stops_nil
  rw [List.append_nil] at hpair
  unfold offsetMinutes? zone
  rw [pair?_append (by omega) (stops_cons (by decide) _)]
  simp only [Option.bind_eq_bind, Option.bind_some, expect?_cons, hpair, if_neg hread, hn]

theorem eq_zone_of_offsetMinutes? {m : Int} (h : offsetMinutes? cs = some (m, [])) :
    ∃ n : Nat, n ≤ 840 ∧ m = n ∧ cs = zone n := by
  unfold offsetMinutes? at h
  simp only [Option.bind_eq_bind, Option.bind_eq_some_iff, Prod.exists,
    Option.ite_none_left_eq_some, Option.some.injEq, Prod.mk.injEq] at h
  obtain ⟨hours, cs₁, hpair, cs₂, hcolon, minutes, cs₃, hminutes, hbound, rfl, rfl⟩ := h
  obtain ⟨-, rfl⟩ := eq_append_of_pair? hpair
  obtain rfl := eq_cons_of_expect? hcolon
  obtain ⟨-, hle, -, rfl⟩ := eq_append_of_pairIn? hminutes
  refine ⟨hours * 60 + minutes, by omega, rfl, ?_⟩
  have hdiv : (hours * 60 + minutes) / 60 = hours := by omega
  have hmod : (hours * 60 + minutes) % 60 = minutes := by omega
  rw [zone, hdiv, hmod, List.append_nil]

/-- What may stand at the end of a text is an offset. -/
theorem ending?_eq_some_iff {offset : Option Int} : ending? cs = some offset ↔ IsOffset offset cs := by
  constructor
  · intro h
    unfold ending? at h
    split at h
    · obtain rfl := Option.some.inj h
      exact .none
    · obtain rfl := Option.some.inj h
      exact .utc
    · next c ds _ =>
      by_cases hsign : c = '+' ∨ c = '-'
      · simp only [if_pos hsign, Option.bind_eq_bind, Option.bind_eq_some_iff, Prod.exists,
          Option.ite_none_right_eq_some, Option.some.injEq] at h
        obtain ⟨m, rest, hread, rfl, rfl⟩ := h
        obtain ⟨n, hn, rfl, rfl⟩ := eq_zone_of_offsetMinutes? hread
        rcases hsign with rfl | rfl
        · exact .ahead hn
        · exact .behind hn
      · simp [hsign] at h
  · intro h
    cases h with
    | none => rfl
    | utc => rfl
    | ahead h => simp [ending?, offsetMinutes?_zone h]
    | behind h => simp [ending?, offsetMinutes?_zone h]

theorem IsOffset.stops {offset : Option Int} (h : IsOffset offset cs) : Stops cs := by
  cases h with
  | none => exact stops_nil
  | utc => exact stops_cons (by decide) _
  | ahead => exact stops_cons (by decide) _
  | behind => exact stops_cons (by decide) _

theorem IsOffset.head?_ne {offset : Option Int} (h : IsOffset offset cs) :
    cs.head? ≠ some '.' := by
  cases h <;> simp

end TemporalText

open TemporalText

/-! ## Whole texts -/

/-- A date with a time of day is a day and a clock with a `T` between them, and an offset. -/
theorem DateTime.read?_eq_some_iff {cs : List Char} {t : DateTime} : read? cs = some t ↔
    ∃ (d : Calendar.Day) (k : Clock) (offset : Option Int) (day clock ending : List Char),
      IsDay d day ∧ IsClock k clock ∧ IsOffset offset ending ∧
      cs = day ++ 'T' :: (clock ++ ending) ∧
      Moment.ofFields? d k.hour k.minute k.ticks offset = some t.moment := by
  constructor
  · intro h
    unfold read? at h
    simp only [Option.bind_eq_bind, Option.bind_eq_some_iff, Prod.exists,
      Option.map_eq_some_iff] at h
    obtain ⟨d, cs₁, hread, cs₂, hmark, k, cs₃, hread', offset, hending, m, hm, rfl⟩ := h
    obtain ⟨day, hday, rfl⟩ := exists_day hread
    obtain rfl := eq_cons_of_expect? hmark
    obtain ⟨clock, hclock, rfl⟩ := exists_clock hread'
    exact ⟨d, k, offset, day, clock, cs₃, hday, hclock, ending?_eq_some_iff.1 hending, rfl, hm⟩
  · rintro ⟨d, k, offset, day, clock, ending, hday, hclock, hoffset, rfl, hm⟩
    have hmark : Stops ('T' :: (clock ++ ending)) := stops_cons (by decide) _
    unfold read?
    simp only [Option.bind_eq_bind, day?_append hday hmark, Option.bind_some, expect?_cons,
      clock?_append hclock hoffset.stops hoffset.head?_ne, ending?_eq_some_iff.2 hoffset, hm,
      Option.map_some]

/-- A date is a day and an offset. -/
theorem Date.read?_eq_some_iff {cs : List Char} {t : Date} : read? cs = some t ↔
    ∃ (d : Calendar.Day) (offset : Option Int) (day ending : List Char),
      IsDay d day ∧ IsOffset offset ending ∧ cs = day ++ ending ∧
      Moment.ofFields? d 0 0 0 offset = some t.moment := by
  constructor
  · intro h
    unfold read? at h
    simp only [Option.bind_eq_bind, Option.bind_eq_some_iff, Prod.exists,
      Option.map_eq_some_iff] at h
    obtain ⟨d, cs₁, hread, offset, hending, m, hm, rfl⟩ := h
    obtain ⟨day, hday, rfl⟩ := exists_day hread
    exact ⟨d, offset, day, cs₁, hday, ending?_eq_some_iff.1 hending, rfl, hm⟩
  · rintro ⟨d, offset, day, ending, hday, hoffset, rfl, hm⟩
    unfold read?
    simp only [Option.bind_eq_bind, day?_append hday hoffset.stops, Option.bind_some,
      ending?_eq_some_iff.2 hoffset, hm, Option.map_some]

/-- A time of day is a clock and an offset, and 24 hours are none. -/
theorem TimeOfDay.read?_eq_some_iff {cs : List Char} {t : TimeOfDay} : read? cs = some t ↔
    ∃ (k : Clock) (offset : Option Int) (clock ending : List Char),
      IsClock k clock ∧ IsOffset offset ending ∧ cs = clock ++ ending ∧
      Moment.ofFields? referenceDay (k.hour % 24) k.minute k.ticks offset = some t.moment := by
  have hhour : ∀ k text, IsClock k text → (if k.hour = 24 then 0 else k.hour) = k.hour % 24 := by
    intro k text hclock
    have hle := hclock.1
    split <;> omega
  constructor
  · intro h
    unfold read? at h
    simp only [Option.bind_eq_bind, Option.bind_eq_some_iff, Prod.exists,
      Option.map_eq_some_iff] at h
    obtain ⟨k, cs₁, hread, offset, hending, m, hm, rfl⟩ := h
    obtain ⟨clock, hclock, rfl⟩ := exists_clock hread
    rw [hhour k clock hclock] at hm
    exact ⟨k, offset, clock, cs₁, hclock, ending?_eq_some_iff.1 hending, rfl, hm⟩
  · rintro ⟨k, offset, clock, ending, hclock, hoffset, rfl, hm⟩
    unfold read?
    simp only [Option.bind_eq_bind, clock?_append hclock hoffset.stops hoffset.head?_ne,
      Option.bind_some, ending?_eq_some_iff.2 hoffset, hhour k clock hclock, hm, Option.map_some]

end Rdf
