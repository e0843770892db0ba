import Rdf.Proofs.LexicalValue.Datatypes
import Rdf.Proofs.LexicalValue.Temporals
import Rdf.Proofs.Term.Literals

/-!
# Dates and times as native values

A date-time or a date becomes a native value if its text is read back as the same value. Of the
values that were read from some text, these are the ones whose text is as short as its shape asks
for. In the other direction, what a form is read as has such a text again, except for the last
midnight of the year 9999, which is the first one of a year of five digits. Main statements:

* `Temporal.isForm_print_iff`: when the text of a value is read as that value;
* `NativeValue.native_temporals`: which values are taken, and what their literals are read as;
* `NativeValue.read_temporals_are_native`: what a form was read as is taken and read again.
-/

namespace Rdf

namespace Temporal

variable {u w : Temporal} {s : String} {cs : List Char}

/-! ## Texts that are read back -/

/-- A date-time of the kind that its offset tells. -/
def ofDateTime (t : DateTime) : Temporal :=
  if t.moment.offset.isSome then .offsetDateTime t else .localDateTime t

/-- A time of day of the kind that its offset tells. -/
def ofTimeOfDay (t : TimeOfDay) : Temporal :=
  if t.moment.offset.isSome then .offsetTime t else .localTime t

/-- The texts that the reader for the kind of a value reads as the value. -/
def IsReadFrom (u : Temporal) (cs : List Char) : Prop :=
  match u with
  | .offsetTime t => TimeOfDay.read? cs = some t
  | .localTime t => TimeOfDay.read? cs = some t
  | .offsetDateTime t => DateTime.read? cs = some t
  | .localDateTime t => DateTime.read? cs = some t
  | .date d => Date.read? cs = some d

theorem IsForm.isReadFrom (h : u.IsForm s) : u.IsReadFrom s.toList := by
  cases u <;> exact h.1

/-- A value that was read is read again from its own text. -/
theorem IsReadFrom.print (h : u.IsReadFrom cs) : u.IsReadFrom u.print := by
  cases u with
  | offsetTime t => exact TimeOfDay.read?_print h
  | localTime t => exact TimeOfDay.read?_print h
  | offsetDateTime t => exact DateTime.read?_print h
  | localDateTime t => exact DateTime.read?_print h
  | date d => exact Date.read?_print h

/-- Values of one kind that are read from one text are equal. -/
theorem IsReadFrom.unique (h : u.IsReadFrom cs) (h' : w.IsReadFrom cs)
    (hsame : u.sameValue w = true) : u = w := by
  cases u <;> cases w <;> try cases hsame
  all_goals exact congrArg _ (Option.some.inj (h.symm.trans h'))

theorem sameValue_self (u : Temporal) : u.sameValue u = true := by
  cases u <;> simp [sameValue, Moment.sameInstant]

/-- Values that have or lack an offset as their kind says, and whose text is not longer than the
shape of the kind allows. -/
def Writable : Temporal → Prop
  | .offsetTime t => t.moment.offset.isSome = true
  | .localTime t => t.moment.offset.isSome = false
  | .offsetDateTime t => t.moment.offset.isSome = true
  | .localDateTime t => t.moment.offset.isSome = false ∧
      (0 ≤ t.moment.day.year ∧ t.moment.day.year ≤ 9999) ∧ t.moment.instant % ticksPerSecond = 0
  | .date d => d.moment.offset.isSome = false ∧ 0 ≤ d.moment.day.year ∧ d.moment.day.year ≤ 9999

/-- The text of a value that was read is read as the value if it is not too long. -/
theorem isForm_print_iff (h : u.IsReadFrom cs) :
    u.IsForm (String.ofList u.print) ↔ u.Writable := by
  have hprint := h.print
  unfold IsForm
  rw [← String.length_toList, String.toList_ofList]
  cases u with
  | offsetTime t => exact and_iff_right hprint
  | localTime t => exact and_iff_right hprint
  | offsetDateTime t => exact and_iff_right hprint
  | localDateTime t =>
    refine (and_iff_right hprint).trans (and_congr_right fun hnone => ?_)
    exact DateTime.length_print_eq_iff hnone
  | date d =>
    refine (and_iff_right hprint).trans ⟨fun hlength => ?_, fun hw => ?_⟩
    · have hnone := Date.offset_of_length hprint hlength
      exact ⟨hnone, (Date.length_print_eq_iff hnone).1 hlength⟩
    · exact (Date.length_print_eq_iff hw.1).2 hw.2

/-- What is read from the text of a value, if it is the same. -/
theorem exists_read_print_iff (h : u.IsReadFrom cs) :
    (∃ w, read (String.ofList u.print) = .ok w ∧ u.sameValue w = true) ↔ u.Writable := by
  rw [← isForm_print_iff h]
  constructor
  · rintro ⟨w, hread, hsame⟩
    have hform := read_eq_ok_iff_isForm.1 hread
    have hw := hform.isReadFrom
    rw [String.toList_ofList] at hw
    obtain rfl := h.print.unique hw hsame
    exact hform
  · intro hform
    exact ⟨u, read_eq_ok_iff_isForm.2 hform, sameValue_self u⟩

end Temporal

/-! ## Literals -/

section Literals

variable {u : Temporal} {s : String} {datatype : Iri}

/-- A literal is read as a date or time, also by way of its datatype. -/
def Literal.ReadsAs (l : Literal) (u : Temporal) : Prop :=
  l.parts.temporal = .ok u ∧ l.parts.dynamic .asTemporal = .ok (.temporal u)

theorem Literal.readsAs_typed (hform : u.IsForm s) (h : datatype ∈ Vocabulary.temporals) :
    (Literal.typed s datatype).ReadsAs u := by
  have hread : (Literal.typed s datatype).parts.temporal = .ok u :=
    Temporal.read_eq_ok_iff_isForm.2 hform
  refine ⟨hread, ?_⟩
  rw [LexicalValue.dynamic_of_temporals _ _ h rfl]
  show (Literal.typed s datatype).parts.temporal.map _ = _
  rw [hread]
  rfl

end Literals

namespace NativeValue

variable {c : Context} {u : Temporal} {v w : NativeValue} {kind : CheckedTemporal} {cs : List Char}
  {t : DateTime} {d : Date} {l : Literal}

/-! ## Checked values -/

/-- A value is checked by whether it can be written; otherwise its text is in the error. -/
theorem checked_of_writable (h : u.IsReadFrom cs) (hwritable : u.Writable) :
    checked u kind v = .ok v := by
  obtain ⟨w, hread, hsame⟩ := (Temporal.exists_read_print_iff h).2 hwritable
  unfold checked
  simp only [hread, if_pos hsame]

theorem checked_of_not_writable (h : u.IsReadFrom cs) (hnot : ¬u.Writable) :
    checked u kind v = .error (.unreadableTemporal (String.ofList u.print) kind) := by
  rw [← Temporal.exists_read_print_iff h] at hnot
  unfold checked
  cases hread : Temporal.read (String.ofList u.print) with
  | error => simp only [hread]
  | ok w => simp only [hread, if_neg fun hsame => hnot ⟨w, hread, hsame⟩]

theorem checked_eq_ok_iff (h : u.IsReadFrom cs) :
    checked u kind v = .ok w ↔ u.Writable ∧ w = v := by
  by_cases hwritable : u.Writable
  · rw [checked_of_writable h hwritable, Except.ok.injEq]
    exact eq_comm.trans (and_iff_right hwritable).symm
  · rw [checked_of_not_writable h hwritable]
    simp [hwritable]

theorem ofOffsetDateTime_eq_ok_iff (h : DateTime.read? cs = some t) :
    ofOffsetDateTime t = .ok v ↔ t.moment.offset.isSome = true ∧ v = .offsetDateTime t :=
  checked_eq_ok_iff (u := .offsetDateTime t) h

theorem ofLocalDateTime_eq_ok_iff (h : DateTime.read? cs = some t) :
    ofLocalDateTime t = .ok v ↔
      (Temporal.localDateTime t).Writable ∧ v = .localDateTime t :=
  checked_eq_ok_iff (u := .localDateTime t) h

theorem ofLocalDate_eq_ok_iff (h : Date.read? cs = some d) :
    ofLocalDate d = .ok v ↔ (Temporal.date d).Writable ∧ v = .localDate d :=
  checked_eq_ok_iff (u := .date d) h

/-- Of the two kinds of date-times the one is taken that the offset asks for. -/
theorem ofDateTime_eq_ok_iff (h : DateTime.read? cs = some t) :
    ofDateTime t = .ok v ↔ ofOffsetDateTime t = .ok v ∨ ofLocalDateTime t = .ok v := by
  unfold ofDateTime
  rw [ofOffsetDateTime_eq_ok_iff h, ofLocalDateTime_eq_ok_iff h]
  split
  · next hsome =>
    rw [ofOffsetDateTime_eq_ok_iff h]
    simp [Temporal.Writable, hsome]
  · next hnone =>
    rw [ofLocalDateTime_eq_ok_iff h]
    simp [hnone]

theorem nativeLiteral_eq_ok_iff :
    c.nativeLiteral v = .ok l ↔ c.offers .typedLiteral = true ∧ l = v.toLiteral := by
  obtain ⟨hstring, hlang⟩ := Literal.hasForm_toLiteral v
  unfold Context.nativeLiteral Context.typedLiteral Context.need
  rw [Literal.ofDatatype_of_ne hstring hlang]
  cases c.offers .typedLiteral with
  | false => simp [bind, Except.bind]
  | true => simp [bind, Except.bind, toLiteral, eq_comm]

theorem dateTime_mem_temporals : Vocabulary.dateTime ∈ Vocabulary.temporals := by decide

theorem date_mem_temporals : Vocabulary.date ∈ Vocabulary.temporals := by decide

theorem time_mem_temporals : Vocabulary.time ∈ Vocabulary.temporals := by decide

theorem readsAs_toLiteral (h : u.IsReadFrom cs) (hwritable : u.Writable)
    (hlexical : v.canonical = u.print) (hdatatype : v.datatype ∈ Vocabulary.temporals) :
    v.toLiteral.ReadsAs u := by
  have hform := (Temporal.isForm_print_iff h).2 hwritable
  rw [← hlexical] at hform
  exact Literal.readsAs_typed hform hdatatype

/-- A date-time that was taken has the kind that its offset tells, and so does its literal. -/
theorem readsAs_of_dateTime (h : DateTime.read? cs = some t)
    (hv : ofOffsetDateTime t = .ok v ∨ ofLocalDateTime t = .ok v) :
    v.temporal? = some (.ofDateTime t) ∧ v.toLiteral.ReadsAs (.ofDateTime t) := by
  unfold Temporal.ofDateTime
  rcases hv with hv | hv
  · obtain ⟨hsome, rfl⟩ := (ofOffsetDateTime_eq_ok_iff h).1 hv
    rw [if_pos hsome]
    exact ⟨rfl, readsAs_toLiteral (u := .offsetDateTime t) h hsome rfl dateTime_mem_temporals⟩
  · obtain ⟨hwritable, rfl⟩ := (ofLocalDateTime_eq_ok_iff h).1 hv
    rw [if_neg (by rw [hwritable.1]; decide)]
    exact ⟨rfl, readsAs_toLiteral (u := .localDateTime t) h hwritable rfl dateTime_mem_temporals⟩

theorem readsAs_of_date (h : Date.read? cs = some d) (hv : ofLocalDate d = .ok v) :
    v.temporal? = some (.date d) ∧ v.toLiteral.ReadsAs (.date d) := by
  obtain ⟨hwritable, rfl⟩ := (ofLocalDate_eq_ok_iff h).1 hv
  exact ⟨rfl, readsAs_toLiteral (u := .date d) h hwritable rfl date_mem_temporals⟩

/-- Times of day are not checked, and need not be. -/
theorem readsAs_time {t : TimeOfDay} (h : TimeOfDay.read? cs = some t) :
    (NativeValue.time t).toLiteral.ReadsAs (.ofTimeOfDay t) := by
  unfold Temporal.ofTimeOfDay
  split
  · next hsome => exact readsAs_toLiteral (u := .offsetTime t) h hsome rfl time_mem_temporals
  · next hnone =>
    exact readsAs_toLiteral (u := .localTime t) h (Bool.eq_false_iff.2 hnone) rfl time_mem_temporals

/-! ## Values of any type -/

theorem bind_nativeLiteral_eq_ok_iff {x : Except TermError NativeValue} :
    x >>= c.nativeLiteral = .ok l ↔
      c.offers .typedLiteral = true ∧ ∃ v, x = .ok v ∧ l = v.toLiteral := by
  rw [bind_eq_ok_iff]
  simp only [nativeLiteral_eq_ok_iff]
  exact ⟨fun ⟨v, hv, hoffers, hl⟩ => ⟨hoffers, v, hv, hl⟩,
    fun ⟨hoffers, v, hv, hl⟩ => ⟨v, hv, hoffers, hl⟩⟩

theorem exists_bind_nativeLiteral_iff {x : Except TermError NativeValue} :
    (∃ l, x >>= c.nativeLiteral = .ok l) ↔ c.offers .typedLiteral = true ∧ ∃ v, x = .ok v := by
  simp only [bind_nativeLiteral_eq_ok_iff]
  exact ⟨fun ⟨_, hoffers, v, hv, _⟩ => ⟨hoffers, v, hv⟩,
    fun ⟨hoffers, v, hv⟩ => ⟨_, hoffers, v, hv, rfl⟩⟩

/-- Date-times and dates that were read are taken as native values exactly if they can be read back:
with an offset always, without one if the year has four digits and the seconds are whole, and dates
if they have no offset and the year has four digits. A context that offers literals with a datatype
takes the same ones. The literals of what is taken, and of all times of day, are read as the same
value again, in the kind that the offset tells. -/
theorem native_temporals (c : Context) :
    (∀ cs t, DateTime.read? cs = some t →
      ((∃ v, ofOffsetDateTime t = .ok v) ↔ t.moment.offset.isSome = true) ∧
      ((∃ v, ofLocalDateTime t = .ok v) ↔ t.moment.offset.isSome = false ∧
        (0 ≤ t.moment.day.year ∧ t.moment.day.year ≤ 9999) ∧
        t.moment.instant % ticksPerSecond = 0) ∧
      ((∃ l, c.literalOf (.dateTime t) = .ok l) ↔ c.offers .typedLiteral = true ∧
        ∃ v, ofOffsetDateTime t = .ok v ∨ ofLocalDateTime t = .ok v) ∧
      (∀ v, ofOffsetDateTime t = .ok v ∨ ofLocalDateTime t = .ok v →
        v.temporal? = some (.ofDateTime t) ∧ v.toLiteral.ReadsAs (.ofDateTime t)) ∧
      ∀ l, c.literalOf (.dateTime t) = .ok l → l.ReadsAs (.ofDateTime t)) ∧
    (∀ cs d, Date.read? cs = some d →
      ((∃ v, ofLocalDate d = .ok v) ↔ d.moment.offset.isSome = false ∧
        0 ≤ d.moment.day.year ∧ d.moment.day.year ≤ 9999) ∧
      ((∃ l, c.literalOf (.date d) = .ok l) ↔ c.offers .typedLiteral = true ∧
        ∃ v, ofLocalDate d = .ok v) ∧
      (∀ v, ofLocalDate d = .ok v →
        v.temporal? = some (.date d) ∧ v.toLiteral.ReadsAs (.date d)) ∧
      ∀ l, c.literalOf (.date d) = .ok l → l.ReadsAs (.date d)) ∧
    ∀ cs t, TimeOfDay.read? cs = some t →
      (NativeValue.time t).toLiteral.ReadsAs (.ofTimeOfDay t) := by
  refine ⟨fun cs t h => ⟨?_, ?_, ?_, fun v => readsAs_of_dateTime h, fun l hl => ?_⟩,
    fun cs d h => ⟨?_, ?_, fun v => readsAs_of_date h, fun l hl => ?_⟩, fun cs t => readsAs_time⟩
  · simp only [ofOffsetDateTime_eq_ok_iff h, exists_and_left, exists_eq, and_true]
  · simp only [ofLocalDateTime_eq_ok_iff h, exists_and_left, exists_eq, and_true]
    rfl
  · simp only [← ofDateTime_eq_ok_iff h, Context.literalOf_dateTime]
    exact exists_bind_nativeLiteral_iff
  · rw [Context.literalOf_dateTime] at hl
    obtain ⟨-, v, hv, rfl⟩ := bind_nativeLiteral_eq_ok_iff.1 hl
    exact (readsAs_of_dateTime h ((ofDateTime_eq_ok_iff h).1 hv)).2
  · simp only [ofLocalDate_eq_ok_iff h, exists_and_left, exists_eq, and_true]
    rfl
  · simp only [Context.literalOf_date]
    exact exists_bind_nativeLiteral_iff
  · rw [Context.literalOf_date] at hl
    obtain ⟨-, v, hv, rfl⟩ := bind_nativeLiteral_eq_ok_iff.1 hl
    exact (readsAs_of_date h hv).2

theorem native_temporals_of_leap_day :
    ∃ t d k, DateTime.read? "2011-03-24T15:16:17.5+02:00".toList = some t ∧
      Date.read? "2020-02-29".toList = some d ∧ TimeOfDay.read? "24:00:00Z".toList = some k ∧
      (∃ l, Context.literalsOnly.literalOf (.dateTime t) = .ok l ∧
        l.ReadsAs (.offsetDateTime t)) ∧
      (∃ l, Context.literalsOnly.literalOf (.date d) = .ok l ∧ l.ReadsAs (.date d)) ∧
      (NativeValue.time k).toLiteral.ReadsAs (.offsetTime k) := by
  have hdateTime : DateTime.read? "2011-03-24T15:16:17.5+02:00".toList =
      some ⟨⟨63436569377500000000000000000, some 120⟩⟩ := by decide +kernel
  have hdate : Date.read? "2020-02-29".toList = some ⟨⟨63718531200 * ticksPerSecond, none⟩⟩ := by
    decide +kernel
  have htime : TimeOfDay.read? "24:00:00Z".toList =
      some ⟨⟨62230204800 * ticksPerSecond, some 0⟩⟩ := by decide +kernel
  obtain ⟨ofDateTimes, ofDates, ofTimes⟩ := native_temporals Context.literalsOnly
  obtain ⟨hoffset, -, hliteral, -, hreads⟩ := ofDateTimes _ _ hdateTime
  obtain ⟨hlocal, hliteral', -, hreads'⟩ := ofDates _ _ hdate
  obtain ⟨v, hv⟩ := hoffset.2 rfl
  obtain ⟨l, hl⟩ := hliteral.2 ⟨rfl, v, .inl hv⟩
  obtain ⟨l', hl'⟩ := hliteral'.2 ⟨rfl, hlocal.2 (by decide +kernel)⟩
  exact ⟨_, _, _, hdateTime, hdate, htime, ⟨l, hl, hreads l hl⟩, ⟨l', hl', hreads' l' hl'⟩,
    ofTimes _ _ htime⟩

end NativeValue

/-! ## Forms that are written back -/

section Forms

variable {cs : List Char} {u : Temporal} {s : String}

/-- The end of the year 9999, written as midnight at the end of its last day. -/
def endOf9999 : String := "9999-12-31T24:00:00"

/-- Midnight at the end of a day leads to the year 10000 on one day only. -/
theorem DateTime.year_of_length {t : DateTime} (h : read? cs = some t)
    (hnone : t.moment.offset.isSome = false) (hlength : cs.length = 19)
    (hne : cs ≠ endOf9999.toList) : 0 ≤ t.moment.day.year ∧ t.moment.day.year ≤ 9999 := by
  obtain ⟨d, k, day, clock, hday, hten, hclock, height, rfl, hm⟩ :=
    exists_fields_of_length h hnone hlength
  obtain ⟨hlow, hhigh⟩ := hday.bounds_of_length hten
  have hnumber := Moment.dayNumber_of_ofFields? hm hclock.ticks_lt hclock.2.1
  unfold Moment.day
  rw [hnumber]
  refine ⟨(Calendar.le_year_ofNumber_iff _ _).2 ?_, (Calendar.year_ofNumber_le_iff _ _).2 ?_⟩
  · have hle := Calendar.daysThrough_le_number hday.1
    have hmono := Calendar.daysThrough_mono (show (0 : Int) - 1 ≤ d.year - 1 by omega)
    omega
  · -- a later year can only begin at midnight after the last day, and that has one text
    by_contra hnot
    have hlt := Calendar.number_lt_daysThrough hday.1
    have hmono := Calendar.daysThrough_mono hhigh
    have hhour := hclock.1
    have hmidnight : k.hour = 24 := by omega
    obtain rfl : d = Calendar.lastDay 9999 := Calendar.eq_lastDay hday.1 hhigh (by omega)
    obtain ⟨hminute, hticks⟩ := hclock.2.2.1 hmidnight
    obtain ⟨s, -, hs, rfl⟩ := hclock.eq_of_length height
    rw [hticks] at hs
    obtain rfl : s = 0 := (Nat.mul_eq_zero.1 hs.symm).resolve_right (by decide)
    rw [hday.eq_printDay (by decide), hmidnight, hminute] at hne
    exact hne (by decide +kernel)

theorem DateTime.whole_of_length {t : DateTime} (h : read? cs = some t)
    (hnone : t.moment.offset.isSome = false) (hlength : cs.length = 19) :
    t.moment.instant % ticksPerSecond = 0 := by
  obtain ⟨d, k, day, clock, -, -, hclock, height, -, hm⟩ :=
    exists_fields_of_length h hnone hlength
  obtain ⟨s, -, hs, -⟩ := hclock.eq_of_length height
  obtain ⟨-, hinstant, -⟩ := Moment.ofFields?_eq_some_iff.1 hm
  have hcast : ((s * ticksPerSecond.toNat : Nat) : Int) = s * ticksPerSecond := Int.natCast_mul _ _
  rw [hinstant, hs, hcast, ← Int.add_mul]
  exact Int.mul_emod_left _ _

theorem Date.year_of_length {d : Date} (h : read? cs = some d) (hlength : cs.length = 10) :
    0 ≤ d.moment.day.year ∧ d.moment.day.year ≤ 9999 := by
  obtain ⟨day, offset, text, ending, hday, -, rfl, hm⟩ := read?_eq_some_iff.1 h
  have hten := hday.ten_le_length
  rw [List.length_append] at hlength
  rw [Moment.day_of_ofFields? hm (by decide) (by decide) hday.1 (by decide)]
  exact hday.bounds_of_length (by omega)

theorem Temporal.IsForm.writable (h : u.IsForm s) (hne : s ≠ endOf9999) : u.Writable := by
  cases u with
  | offsetTime t => exact h.2
  | localTime t => exact h.2
  | offsetDateTime t => exact h.2
  | localDateTime t =>
    obtain ⟨hread, hnone, hlength⟩ := h
    rw [← String.length_toList] at hlength
    have hne' : s.toList ≠ endOf9999.toList := fun heq => hne (String.toList_inj.1 heq)
    exact ⟨hnone, DateTime.year_of_length hread hnone hlength hne',
      DateTime.whole_of_length hread hnone hlength⟩
  | date d =>
    obtain ⟨hread, hlength⟩ := h
    rw [← String.length_toList] at hlength
    exact ⟨Date.offset_of_length hread hlength, Date.year_of_length hread hlength⟩

end Forms

namespace NativeValue

/-- The native value of a date or time: a time of day as it is, the others after the check for their
kind. -/
def ofTemporal : Temporal → Except TermError NativeValue
  | .offsetTime t => .ok (.time t)
  | .localTime t => .ok (.time t)
  | .offsetDateTime t => ofOffsetDateTime t
  | .localDateTime t => ofLocalDateTime t
  | .date d => ofLocalDate d

theorem ofTemporal_of_writable {u : Temporal} {cs : List Char} (h : u.IsReadFrom cs)
    (hwritable : u.Writable) : ∃ v, ofTemporal u = .ok v ∧ v.toLiteral.ReadsAs u := by
  cases u with
  | offsetTime t => exact ⟨.time t, rfl, readsAs_toLiteral h hwritable rfl time_mem_temporals⟩
  | localTime t => exact ⟨.time t, rfl, readsAs_toLiteral h hwritable rfl time_mem_temporals⟩
  | offsetDateTime t =>
    exact ⟨.offsetDateTime t, (ofOffsetDateTime_eq_ok_iff h).2 ⟨hwritable, rfl⟩,
      readsAs_toLiteral h hwritable rfl dateTime_mem_temporals⟩
  | localDateTime t =>
    exact ⟨.localDateTime t, (ofLocalDateTime_eq_ok_iff h).2 ⟨hwritable, rfl⟩,
      readsAs_toLiteral h hwritable rfl dateTime_mem_temporals⟩
  | date d =>
    exact ⟨.localDate d, (ofLocalDate_eq_ok_iff h).2 ⟨hwritable, rfl⟩,
      readsAs_toLiteral h hwritable rfl date_mem_temporals⟩

/-- What a form is read as can be written back, and is read again as the same value of the same
kind. The one exception is the end of the year 9999 written as midnight, which is the beginning of
the year 10000, and this has no text of four digits for the year. -/
theorem read_temporals_are_native (v : LexicalValue) (u : Temporal) (h : v.temporal = .ok u) :
    (v.lexical ≠ endOf9999 →
      ∃ n, ofTemporal u = .ok n ∧ n.toLiteral.parts.temporal = .ok u) ∧
    (v.lexical = endOf9999 →
      ofTemporal u = .error (.unreadableTemporal "10000-01-01T00:00:00" .localDateTime)) := by
  have hform := Temporal.read_eq_ok_iff_isForm.1 h
  refine ⟨fun hne => ?_, fun heq => ?_⟩
  · obtain ⟨n, hn, hreads⟩ := ofTemporal_of_writable hform.isReadFrom (hform.writable hne)
    exact ⟨n, hn, hreads.1⟩
  have hread : Temporal.read endOf9999 =
      .ok (.localDateTime ⟨⟨315537897600 * ticksPerSecond, none⟩⟩) := by decide +kernel
  rw [← heq] at hread
  obtain rfl := Except.ok.inj (h.symm.trans hread)
  decide +kernel

theorem read_temporals_are_native_midnight :
    ∃ t n, (LexicalValue.mk "2011-03-24T24:00:00" "" none).temporal = .ok (.localDateTime t) ∧
      ofTemporal (.localDateTime t) = .ok n ∧
      n.toLiteral.parts.temporal = .ok (.localDateTime t) := by
  have hread : (LexicalValue.mk "2011-03-24T24:00:00" "" none).temporal =
      .ok (.localDateTime ⟨⟨63436608000 * ticksPerSecond, none⟩⟩) := by decide +kernel
  obtain ⟨n, hn, hback⟩ := (read_temporals_are_native _ _ hread).1 (by decide)
  exact ⟨_, n, hread, hn, hback⟩

/-- The year 10000 is not written back. -/
theorem end_of_9999_is_not_native :
    ¬∀ (v : LexicalValue) (u : Temporal), v.temporal = .ok u →
      ∃ n, ofTemporal u = .ok n ∧ n.toLiteral.parts.temporal = .ok u := by
  intro h
  have hread : (LexicalValue.mk endOf9999 "" none).temporal =
      .ok (.localDateTime ⟨⟨315537897600 * ticksPerSecond, none⟩⟩) := by decide +kernel
  obtain ⟨n, hn, -⟩ := h _ _ hread
  have herror : ofTemporal (.localDateTime ⟨⟨315537897600 * ticksPerSecond, none⟩⟩) =
      .error (.unreadableTemporal "10000-01-01T00:00:00" .localDateTime) := by decide +kernel
  rw [herror] at hn
  cases hn

end NativeValue
end Rdf
