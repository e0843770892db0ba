import Rdf.Proofs.Number.Integer
import Rdf.Proofs.Temporal.Calendar
import Rdf.Temporal.Moment

/-!
# The fields of a moment

A moment is built from a day, an hour, a minute, some ticks and an offset, and shows these again at
the place of the offset; only the hour after the last one of a day shows as the first one of the
next. Main statements:

* `day_of_ofFields?`, `hour_of_ofFields?`, `minute_of_ofFields?`, `ticks_of_ofFields?`: the fields of
  a moment that was built;
* `ofFields?_of_readable`: a moment is built again from its fields;
* `Readable.year_le`: the years of moments are far from the limits of 64 bits.
-/

namespace Rdf.Moment

variable {m : Moment} {day : Calendar.Day} {hour minute ticks : Nat} {offset : Option Int}

/-! ## Built moments -/

theorem ofFields?_eq_some_iff : ofFields? day hour minute ticks offset = some m ↔
    m.offset = offset ∧
    m.instant = (86400 * Calendar.number day + 3600 * hour + 60 * (minute - offset.getD 0)) *
      ticksPerSecond + ticks ∧
    Integer.Range.wide.contains (m.instant - ticks) = true ∧
    Integer.Range.wide.contains m.instant = true := by
  unfold ofFields?
  simp only [Option.ite_none_right_eq_some, Option.some.injEq]
  constructor
  · rintro ⟨⟨hstart, hinstant⟩, rfl⟩
    exact ⟨rfl, rfl, by simpa using hstart, hinstant⟩
  · rintro ⟨rfl, heq, hstart, hinstant⟩
    rw [heq] at hstart hinstant
    exact ⟨⟨by simpa using hstart, hinstant⟩, by rw [← heq]⟩

section Built

variable (h : ofFields? day hour minute ticks offset = some m)
include h

theorem offset_of_ofFields? : m.offset = offset := (ofFields?_eq_some_iff.1 h).1

theorem localSeconds_of_ofFields? : m.localSeconds =
    86400 * Calendar.number day + 3600 * hour + 60 * minute + ticks / ticksPerSecond := by
  obtain ⟨hoffset, hinstant, -⟩ := ofFields?_eq_some_iff.1 h
  unfold localSeconds
  rw [hoffset, hinstant]
  unfold ticksPerSecond
  omega

variable (hticks : ticks < 60 * ticksPerSecond.toNat)
include hticks

theorem ticks_of_ofFields? : m.ticks = ticks := by
  obtain ⟨-, hinstant, -⟩ := ofFields?_eq_some_iff.1 h
  unfold Moment.ticks
  rw [hinstant]
  unfold ticksPerSecond at hticks ⊢
  omega

variable (hminute : minute < 60)
include hminute

theorem minute_of_ofFields? : m.minute = minute := by
  unfold Moment.minute
  rw [localSeconds_of_ofFields? h]
  unfold ticksPerSecond at hticks ⊢
  omega

theorem hour_of_ofFields? : m.hour = hour % 24 := by
  unfold Moment.hour
  rw [localSeconds_of_ofFields? h]
  unfold ticksPerSecond at hticks ⊢
  omega

theorem dayNumber_of_ofFields? :
    m.localSeconds / 86400 = Calendar.number day + (hour / 24 : Nat) := by
  rw [localSeconds_of_ofFields? h]
  unfold ticksPerSecond at hticks ⊢
  omega

theorem day_of_ofFields? (hvalid : day.Valid) (hhour : hour < 24) : m.day = day := by
  unfold Moment.day
  rw [dayNumber_of_ofFields? h hticks hminute, Nat.div_eq_of_lt hhour]
  simpa using Calendar.ofNumber_number hvalid

end Built

/-! ## Building again -/

/-- A moment that can be read: it and the beginning of its minute are within 128 bits, and its
offset is at most fourteen hours. -/
structure Readable (m : Moment) : Prop where
  start : Integer.Range.wide.contains (m.instant - m.ticks) = true
  instant : Integer.Range.wide.contains m.instant = true
  offset : ∀ o ∈ m.offset, -840 ≤ o ∧ o ≤ 840

theorem readable_of_ofFields? (h : ofFields? day hour minute ticks offset = some m)
    (hticks : ticks < 60 * ticksPerSecond.toNat)
    (hoffset : ∀ o ∈ offset, -840 ≤ o ∧ o ≤ 840) : m.Readable := by
  obtain ⟨rfl, -, hstart, hinstant⟩ := ofFields?_eq_some_iff.1 h
  exact ⟨by rwa [ticks_of_ofFields? h hticks], hinstant, hoffset⟩

theorem ticks_lt (m : Moment) : m.ticks < 60 * ticksPerSecond.toNat := by
  unfold ticks ticksPerSecond
  omega

theorem minute_lt (m : Moment) : m.minute < 60 := by
  unfold minute
  omega

theorem hour_lt (m : Moment) : m.hour < 24 := by
  unfold hour
  omega

/-- A moment is built again from its fields, and from any day of the same number. -/
theorem ofFields?_of_readable (h : m.Readable)
    (hday : Calendar.number day = m.localSeconds / 86400) :
    ofFields? day m.hour m.minute m.ticks m.offset = some m := by
  rw [ofFields?_eq_some_iff]
  refine ⟨rfl, ?_, h.start, h.instant⟩
  rw [hday]
  unfold hour minute ticks localSeconds ticksPerSecond
  omega

theorem number_day (m : Moment) : Calendar.number m.day = m.localSeconds / 86400 :=
  Calendar.number_ofNumber _

theorem valid_day (m : Moment) : m.day.Valid := Calendar.valid_ofNumber _

/-- The years of moments are far from the limits of 64 bits. -/
theorem Readable.year_le (h : m.Readable) :
    Integer.Range.long.contains m.day.year.natAbs = true := by
  have hinstant := Integer.Range.contains_iff.1 h.instant
  simp only [Integer.Range.wide] at hinstant
  have hoffset : -840 ≤ m.offset.getD 0 ∧ m.offset.getD 0 ≤ 840 := by
    cases hm : m.offset with
    | none => decide
    | some o => exact h.offset o hm
  have hnumber : -9000000000000000 ≤ m.localSeconds / 86400 ∧
      m.localSeconds / 86400 < 9000000000000000 := by
    unfold localSeconds ticksPerSecond
    omega
  have hle : m.day.year ≤ 9223372036854775807 :=
    (Calendar.year_ofNumber_le_iff _ _).2 (Int.lt_trans hnumber.2 (by decide))
  have hge : -9223372036854775807 ≤ m.day.year :=
    (Calendar.le_year_ofNumber_iff _ _).2 (Int.le_trans (by decide) hnumber.1)
  rw [Integer.Range.contains_iff]
  simp only [Integer.Range.long]
  omega

end Rdf.Moment
