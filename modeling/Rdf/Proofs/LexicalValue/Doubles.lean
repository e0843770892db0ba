import Rdf.Proofs.LexicalValue.Datatypes
import Rdf.Proofs.LexicalValue.Temporals
import Rdf.Proofs.Number.FloatReading
import Rdf.Proofs.Results

/-!
# Dates and times are no floating point numbers

Unless asked to do otherwise, the datatypes of dates and times have their forms read as floating
point numbers. No form of a date or time is one: behind an optional minus sign it begins with the
digits of a year or of an hour, and these go on with a hyphen or a colon. Main statements:

* `IsTemporalForm.read?_eq_none`: no format reads a form of a date or time;
* `temporals_are_no_doubles`: such forms are errors under these datatypes, and whatever is read as a
  number under them is no date or time.
-/

namespace Rdf

open TemporalText

variable {cs rest : List Char}

/-! ## How dates and times begin -/

/-- Behind an optional sign there are digits, which go on with a mark that no number has there. -/
def BeginsMarked (cs : List Char) : Prop :=
  ∃ ds c rest, (FloatFormat.unsign cs).2 = ds ++ c :: rest ∧ (∀ c ∈ ds, c.isDigit = true) ∧
    ds ≠ [] ∧ FloatFormat.goesOn c = false

theorem BeginsMarked.read?_eq_none (h : BeginsMarked cs) (f : FloatFormat) : f.read? cs = none := by
  obtain ⟨ds, c, rest, hcs, hdigits, hne, hc⟩ := h
  exact f.read?_eq_none_of_mark hcs hdigits hne hc

theorem beginsMarked_padded {width : Nat} (h : 0 < width) (n : Nat) {c : Char}
    (hc : FloatFormat.goesOn c = false) (rest : List Char) :
    BeginsMarked (Digits.padded width n ++ c :: rest) := by
  have hdigits : ∀ c ∈ Digits.padded width n, c.isDigit = true :=
    fun _ => Digits.isDigit_of_mem_padded
  refine ⟨Digits.padded width n, c, rest, ?_, hdigits, Digits.padded_ne_nil h n, hc⟩
  rw [FloatFormat.unsign_of_isDigit hdigits (Digits.padded_ne_nil h n)]

namespace TemporalText

theorem IsYear.beginsMarked {y : Int} {year : List Char} (h : IsYear y year) (rest : List Char) :
    BeginsMarked (year ++ '-' :: rest) := by
  have hhyphen : FloatFormat.goesOn '-' = false := by decide
  cases h with
  | @plain n => exact beginsMarked_padded (by decide) n hhyphen rest
  | @negative n =>
    exact ⟨_, _, _, rfl, fun _ => Digits.isDigit_of_mem_padded, Digits.padded_ne_nil (by decide) n,
      hhyphen⟩

/-- A day begins with a year and a hyphen. -/
theorem IsDay.beginsMarked {d : Calendar.Day} {day : List Char} (h : IsDay d day)
    (rest : List Char) : BeginsMarked (day ++ rest) := by
  obtain ⟨-, year, hyear, rfl⟩ := h
  rw [List.append_assoc, List.cons_append]
  exact hyear.beginsMarked _

/-- A clock begins with an hour and a colon. -/
theorem IsClock.beginsMarked {k : Clock} {clock : List Char} (h : IsClock k clock)
    (rest : List Char) : BeginsMarked (clock ++ rest) := by
  obtain ⟨-, -, -, seconds, -, rfl⟩ := h
  rw [List.append_assoc, List.cons_append]
  exact beginsMarked_padded (by decide) k.hour (by decide) _

end TemporalText

/-! ## Forms of dates and times -/

/-- The forms that one of the readers of times, date-times and dates accepts. -/
def IsTemporalForm (cs : List Char) : Prop :=
  (TimeOfDay.read? cs).isSome = true ∨ (DateTime.read? cs).isSome = true ∨
    (Date.read? cs).isSome = true

instance : Decidable (IsTemporalForm cs) := inferInstanceAs (Decidable (_ ∨ _ ∨ _))

theorem IsTemporalForm.beginsMarked (h : IsTemporalForm cs) : BeginsMarked cs := by
  unfold IsTemporalForm at h
  simp only [Option.isSome_iff_exists, TimeOfDay.read?_eq_some_iff, DateTime.read?_eq_some_iff,
    Date.read?_eq_some_iff] at h
  obtain ⟨t, k, offset, clock, ending, hclock, -, rfl, -⟩ |
    ⟨t, d, k, offset, day, clock, ending, hday, -, -, rfl, -⟩ |
    ⟨t, d, offset, day, ending, hday, -, rfl, -⟩ := h
  · exact TemporalText.IsClock.beginsMarked hclock ending
  · exact TemporalText.IsDay.beginsMarked hday _
  · exact TemporalText.IsDay.beginsMarked hday ending

/-- No format reads a form of a date or time. -/
theorem IsTemporalForm.read?_eq_none (h : IsTemporalForm cs) (f : FloatFormat) :
    f.read? cs = none :=
  h.beginsMarked.read?_eq_none f

/-- What is read as a date or time of some kind is a form of one. -/
theorem Temporal.IsForm.isTemporalForm {u : Temporal} {s : String} (h : u.IsForm s) :
    IsTemporalForm s.toList := by
  cases u with
  | offsetTime t => exact .inl (Option.isSome_iff_exists.2 ⟨t, h.1⟩)
  | localTime t => exact .inl (Option.isSome_iff_exists.2 ⟨t, h.1⟩)
  | offsetDateTime t => exact .inr (.inl (Option.isSome_iff_exists.2 ⟨t, h.1⟩))
  | localDateTime t => exact .inr (.inl (Option.isSome_iff_exists.2 ⟨t, h.1⟩))
  | date d => exact .inr (.inr (Option.isSome_iff_exists.2 ⟨d, h.1⟩))

namespace LexicalValue

variable {v : LexicalValue}

theorem double_eq_error (h : IsTemporalForm v.lexical.toList) :
    v.double = .error (.unreadable v.lexical .double) := by
  refine readAs_eq_error fun x hx => ?_
  rw [readAs_eq_ok_iff, h.read?_eq_none] at hx
  cases hx

theorem float_eq_error (h : IsTemporalForm v.lexical.toList) :
    v.float = .error (.unreadable v.lexical .float) := by
  refine readAs_eq_error fun x hx => ?_
  rw [readAs_eq_ok_iff, h.read?_eq_none] at hx
  cases hx

theorem isTemporalForm_of_temporal {u : Temporal} (h : v.temporal = .ok u) :
    IsTemporalForm v.lexical.toList :=
  (Temporal.read_eq_ok_iff_isForm.1 h).isTemporalForm

/-- A form of a date or time, and with it every form that is read as one, is no floating point
number. So under the datatypes of dates and times it is the error that it is no number, or what it
is read as where that is asked for; and a form that is read as a number under them is no date or
time. -/
theorem temporals_are_no_doubles (v : LexicalValue) :
    (IsTemporalForm v.lexical.toList →
      v.double = .error (.unreadable v.lexical .double) ∧
      v.float = .error (.unreadable v.lexical .float)) ∧
    (∀ u, v.temporal = .ok u → IsTemporalForm v.lexical.toList) ∧
    ∀ d ∈ Vocabulary.temporals,
      (IsTemporalForm v.lexical.toList → { v with datatype := d.text }.dynamic .asDouble =
        .error (.unreadable v.lexical .double)) ∧
      { v with datatype := d.text }.dynamic .asTemporal = v.temporal.map .temporal ∧
      ∀ x, { v with datatype := d.text }.dynamic .asDouble = .ok x →
        ∃ e, v.temporal = .error e := by
  refine ⟨fun h => ⟨double_eq_error h, float_eq_error h⟩, fun u => isTemporalForm_of_temporal,
    fun d hd => ?_⟩
  have hdynamic : { v with datatype := d.text }.dynamic .asDouble = v.double.map .double :=
    dynamic_of_temporals _ .asDouble hd rfl
  have hrefused : IsTemporalForm v.lexical.toList →
      { v with datatype := d.text }.dynamic .asDouble =
        .error (.unreadable v.lexical .double) := by
    intro h
    rw [hdynamic, double_eq_error h]
    rfl
  refine ⟨hrefused, dynamic_of_temporals _ .asTemporal hd rfl, fun x hx => ?_⟩
  cases hread : v.temporal with
  | error e => exact ⟨e, rfl⟩
  | ok u =>
    rw [hrefused (isTemporalForm_of_temporal hread)] at hx
    cases hx

theorem temporals_are_no_doubles_of_year :
    (LexicalValue.mk "-12345-06-07" "" none).double =
      .error (.unreadable "-12345-06-07" .double) ∧
    (LexicalValue.mk "24:00:00" Vocabulary.time.text none).dynamic .asDouble =
      .error (.unreadable "24:00:00" .double) ∧
    IsTemporalForm "2020-01-02T03:04:05Z".toList ∧
    ∃ e, (LexicalValue.mk "1e3" "" none).temporal = .error e := by
  obtain ⟨hyear, -, -⟩ := temporals_are_no_doubles ⟨"-12345-06-07", "", none⟩
  obtain ⟨-, -, htime⟩ := temporals_are_no_doubles ⟨"24:00:00", "", none⟩
  obtain ⟨-, hread, -⟩ := temporals_are_no_doubles ⟨"2020-01-02T03:04:05Z", "", none⟩
  obtain ⟨-, -, hnumber⟩ := temporals_are_no_doubles ⟨"1e3", "", none⟩
  have hmoment : (LexicalValue.mk "2020-01-02T03:04:05Z" "" none).temporal =
      .ok (.offsetDateTime ⟨⟨63713531045 * ticksPerSecond, some 0⟩⟩) := by decide +kernel
  have hthousand : (LexicalValue.mk "1e3" Vocabulary.date.text none).dynamic .asDouble =
      .ok (.double (.finite false 8796093022208000 (-43))) := by decide +kernel
  exact ⟨(hyear (by decide +kernel)).1, (htime _ (by decide)).1 (by decide +kernel),
    hread _ hmoment, (hnumber _ (by decide)).2.2 _ hthousand⟩

end LexicalValue
end Rdf
