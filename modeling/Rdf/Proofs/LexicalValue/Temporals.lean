import Rdf.LexicalValue.Temporals
import Rdf.Proofs.Temporal.Shapes

/-!
# Dates and times told by their shape

A form is read by the reader that its third character and its length ask for. No form that another
reader accepts is lost that way, except for date-times and dates whose length asks for something
else. Main statements:

* `read_eq_ok_iff`: a form is read if the reader of its shape accepts it;
* `read_eq_ok_iff_isForm`: which forms are read as which value;
* `temporal_shapes`: all kinds of values and errors.
-/

namespace Rdf

open TemporalText

namespace Temporal

variable {cs : List Char} {s : String} {u : Temporal}

/-! ## Shapes -/

/-- What a form of a shape has to be. -/
def Shape.target : Shape → ReadTarget
  | .time _ => .time
  | .dateTime _ => .dateTime
  | .date => .date

/-- Reads a form of a shape. -/
def Shape.read? : Shape → List Char → Option Temporal
  | .time offset, cs => readTime? offset cs
  | .dateTime offset, cs => readDateTime? offset cs
  | .date, cs => (Date.read? cs).map .date

theorem shape?_of_third {c : Char} (h : cs[2]? = some c) : shape? cs =
    some (if c = ':' then .time (cs.any isMark) else if 19 < cs.length then .dateTime true
      else if 10 < cs.length then .dateTime false else .date) := by
  match cs, h with
  | a :: b :: c' :: cs, h =>
    obtain rfl : c' = c := by simpa using h
    unfold shape?
    dsimp only
    split
    · rfl
    · split
      · rfl
      · split <;> rfl

theorem shape?_eq_none_iff : shape? cs = none ↔ cs.length < 3 := by
  constructor
  · intro h
    by_contra hnot
    rw [shape?_of_third (List.getElem?_eq_getElem (by omega))] at h
    cases h
  · intro h
    match cs, h with
    | [], _ => rfl
    | [_], _ => rfl
    | [_, _], _ => rfl

theorem read_eq (s : String) : read s =
    match shape? s.toList with
    | none => .error (.shapeless s)
    | some shape => LexicalError.orUnreadable s shape.target (shape.read? s.toList) := by
  unfold read
  dsimp only
  cases shape? s.toList with
  | none => rfl
  | some shape => cases shape <;> rfl

/-- A form is read if the reader of its shape accepts it. -/
theorem read_eq_ok_iff : read s = .ok u ↔
    ∃ shape, shape? s.toList = some shape ∧ shape.read? s.toList = some u := by
  rw [read_eq]
  cases shape? s.toList with
  | none => simp
  | some shape =>
    cases h : shape.read? s.toList with
    | none => simp [h, LexicalError.orUnreadable]
    | some v => simp [h, LexicalError.orUnreadable]

/-! ## Readers -/

theorem readTime?_eq_some_iff {offset : Bool} : readTime? offset cs = some u ↔
    ∃ t, TimeOfDay.read? cs = some t ∧
      if offset then t.moment.offset.isSome = true ∧ u = .offsetTime t else u = .localTime t := by
  unfold readTime?
  rw [Option.bind_eq_bind, Option.bind_eq_some_iff]
  refine exists_congr fun t => and_congr_right fun _ => ?_
  cases offset with
  | false =>
    simp only [Bool.false_eq_true, if_false, Option.some.injEq]
    exact eq_comm
  | true =>
    simp only [if_true, Option.ite_none_right_eq_some, Option.some.injEq]
    exact and_congr_right fun _ => eq_comm

theorem readDateTime?_eq_some_iff {offset : Bool} : readDateTime? offset cs = some u ↔
    ∃ t, DateTime.read? cs = some t ∧ t.moment.offset.isSome = offset ∧
      u = if offset then .offsetDateTime t else .localDateTime t := by
  unfold readDateTime?
  rw [Option.bind_eq_bind, Option.bind_eq_some_iff]
  refine exists_congr fun t => and_congr_right fun _ => ?_
  rw [Option.ite_none_left_eq_some, not_not, Option.some.injEq, eq_comm (b := u)]

/-! ## Kinds of forms -/

theorem shape?_of_time {t : TimeOfDay} (h : TimeOfDay.read? cs = some t) :
    shape? cs = some (.time t.moment.offset.isSome) := by
  rw [shape?_of_third (TimeOfDay.third_of_read? h), TimeOfDay.any_isMark_of_read? h]
  rfl

theorem shape?_of_dateTime {t : DateTime} (h : DateTime.read? cs = some t) :
    shape? cs = some (.dateTime (decide (19 < cs.length))) := by
  obtain ⟨c, hc, hne⟩ := DateTime.third_of_read? h
  have hle := (DateTime.length_of_read? h).1
  rw [shape?_of_third hc, if_neg hne]
  split
  · next hlt => rw [decide_eq_true hlt]
  · next hnot => rw [if_pos (by omega), decide_eq_false hnot]

theorem shape?_of_date {t : Date} (h : Date.read? cs = some t) (hlength : cs.length = 10) :
    shape? cs = some .date := by
  obtain ⟨c, hc, hne⟩ := Date.third_of_read? h
  rw [shape?_of_third hc, if_neg hne, if_neg (by omega), if_neg (by omega)]

theorem length_le_of_shape?_date (h : shape? cs = some .date) : cs.length ≤ 10 := by
  by_contra hnot
  rw [shape?_of_third (List.getElem?_eq_getElem (show 2 < cs.length by omega))] at h
  split at h
  · cases h
  · split at h
    · cases h
    · rw [if_pos (by omega)] at h
      cases h

/-- The forms that are read as a value: those of its grammar, and of date-times without an offset
and of dates only the shortest. -/
def IsForm (u : Temporal) (s : String) : Prop :=
  match u with
  | .offsetTime t => TimeOfDay.read? s.toList = some t ∧ t.moment.offset.isSome = true
  | .localTime t => TimeOfDay.read? s.toList = some t ∧ t.moment.offset.isSome = false
  | .offsetDateTime t => DateTime.read? s.toList = some t ∧ t.moment.offset.isSome = true
  | .localDateTime t =>
    DateTime.read? s.toList = some t ∧ t.moment.offset.isSome = false ∧ s.length = 19
  | .date d => Date.read? s.toList = some d ∧ s.length = 10

theorem isForm_of_read? {shape : Shape} (hshape : shape? s.toList = some shape)
    (hread : shape.read? s.toList = some u) : u.IsForm s := by
  have hlength : s.toList.length = s.length := String.length_toList
  cases shape with
  | time offset =>
    obtain ⟨t, ht, hu⟩ := readTime?_eq_some_iff.1 hread
    rw [shape?_of_time ht] at hshape
    obtain rfl := Shape.time.inj (Option.some.inj hshape)
    split at hu
    · obtain ⟨hsome, rfl⟩ := hu
      exact ⟨ht, hsome⟩
    · next hnone =>
      subst hu
      exact ⟨ht, Bool.eq_false_iff.2 hnone⟩
  | dateTime offset =>
    obtain ⟨t, ht, hoffset, rfl⟩ := readDateTime?_eq_some_iff.1 hread
    cases offset with
    | true => exact ⟨ht, hoffset⟩
    | false =>
      rw [shape?_of_dateTime ht] at hshape
      have hle : ¬19 < s.toList.length :=
        of_decide_eq_false (Shape.dateTime.inj (Option.some.inj hshape))
      have hge := (DateTime.length_of_read? ht).1
      exact ⟨ht, hoffset, by omega⟩
  | date =>
    obtain ⟨d, hd, rfl⟩ := Option.map_eq_some_iff.1 hread
    have hle := length_le_of_shape?_date hshape
    have hge := (Date.length_of_read? hd).1
    exact ⟨hd, by omega⟩

theorem IsForm.exists_shape (h : u.IsForm s) :
    ∃ shape, shape? s.toList = some shape ∧ shape.read? s.toList = some u := by
  have hlength : s.toList.length = s.length := String.length_toList
  cases u with
  | offsetTime t =>
    obtain ⟨ht, hoffset⟩ := h
    refine ⟨_, shape?_of_time ht, readTime?_eq_some_iff.2 ⟨t, ht, ?_⟩⟩
    rw [if_pos hoffset]
    exact ⟨hoffset, rfl⟩
  | localTime t =>
    obtain ⟨ht, hoffset⟩ := h
    refine ⟨_, shape?_of_time ht, readTime?_eq_some_iff.2 ⟨t, ht, ?_⟩⟩
    rw [if_neg (by rw [hoffset]; decide)]
  | offsetDateTime t =>
    obtain ⟨ht, hoffset⟩ := h
    have hlong := (DateTime.length_of_read? ht).2 hoffset
    refine ⟨_, shape?_of_dateTime ht, readDateTime?_eq_some_iff.2 ⟨t, ht, ?_⟩⟩
    rw [decide_eq_true hlong]
    exact ⟨hoffset, rfl⟩
  | localDateTime t =>
    obtain ⟨ht, hoffset, hshort⟩ := h
    refine ⟨_, shape?_of_dateTime ht, readDateTime?_eq_some_iff.2 ⟨t, ht, ?_⟩⟩
    rw [decide_eq_false (by omega)]
    exact ⟨hoffset, rfl⟩
  | date d =>
    obtain ⟨hd, hshort⟩ := h
    exact ⟨_, shape?_of_date hd (by omega), by rw [Shape.read?, hd]; rfl⟩

/-- What the shape asks for is what the form is. -/
theorem read_eq_ok_iff_isForm : read s = .ok u ↔ u.IsForm s := by
  rw [read_eq_ok_iff]
  constructor
  · rintro ⟨shape, hshape, hread⟩
    exact isForm_of_read? hshape hread
  · exact IsForm.exists_shape

theorem read_eq_shapeless_iff : read s = .error (.shapeless s) ↔ s.length < 3 := by
  rw [← String.length_toList, ← shape?_eq_none_iff, read_eq]
  cases shape? s.toList with
  | none => simp
  | some shape => cases h : shape.read? s.toList <;> simp [h, LexicalError.orUnreadable]

/-- A form that has a shape and is not read is not a form of the target of its shape. -/
theorem exists_eq_unreadable (hlength : 3 ≤ s.length) (h : ∀ u, read s ≠ .ok u) :
    ∃ target, read s = .error (.unreadable s target) := by
  cases hshape : shape? s.toList with
  | none =>
    rw [shape?_eq_none_iff, String.length_toList] at hshape
    omega
  | some shape =>
    refine ⟨shape.target, ?_⟩
    rw [read_eq, hshape]
    dsimp only
    cases hread : shape.read? s.toList with
    | none => rfl
    | some u => exact absurd (read_eq_ok_iff.2 ⟨shape, hshape, hread⟩) (h u)

/-- Whether the kind of a value is one with an offset. -/
def hasOffset : Temporal → Bool
  | .offsetTime _ => true
  | .offsetDateTime _ => true
  | _ => false

/-- The moment of a value of any kind. -/
def moment : Temporal → Moment
  | .offsetTime t => t.moment
  | .localTime t => t.moment
  | .offsetDateTime t => t.moment
  | .localDateTime t => t.moment
  | .date d => d.moment

/-- Dates are as short as they can be, and then they have no offset. -/
theorem offset_of_read_date {d : Date} (h : read s = .ok (.date d)) :
    d.moment.offset.isSome = false := by
  obtain ⟨hd, hlength⟩ := read_eq_ok_iff_isForm.1 h
  exact Date.offset_of_length hd (String.length_toList.trans hlength)

theorem hasOffset_of_read (h : read s = .ok u) : u.hasOffset = u.moment.offset.isSome := by
  cases u with
  | offsetTime t => exact (read_eq_ok_iff_isForm.1 h).2.symm
  | localTime t => exact (read_eq_ok_iff_isForm.1 h).2.symm
  | offsetDateTime t => exact (read_eq_ok_iff_isForm.1 h).2.symm
  | localDateTime t => exact (read_eq_ok_iff_isForm.1 h).2.1.symm
  | date d => exact (offset_of_read_date h).symm

/-- One language for each kind of value: times of day and date-times with and without an offset, of
the latter those of 19 characters, and dates of 10 characters, which then have no offset. Below 3
characters a form has no shape; all others are refused with the form. The kind says whether the
value has an offset. -/
theorem temporal_shapes (v : LexicalValue) :
    (∀ t, v.temporal = .ok (.offsetTime t) ↔
      TimeOfDay.read? v.lexical.toList = some t ∧ t.moment.offset.isSome = true) ∧
    (∀ t, v.temporal = .ok (.localTime t) ↔
      TimeOfDay.read? v.lexical.toList = some t ∧ t.moment.offset.isSome = false) ∧
    (∀ t, v.temporal = .ok (.offsetDateTime t) ↔
      DateTime.read? v.lexical.toList = some t ∧ t.moment.offset.isSome = true) ∧
    (∀ t, v.temporal = .ok (.localDateTime t) ↔
      DateTime.read? v.lexical.toList = some t ∧ t.moment.offset.isSome = false ∧
        v.lexical.length = 19) ∧
    (∀ d, v.temporal = .ok (.date d) ↔
      Date.read? v.lexical.toList = some d ∧ v.lexical.length = 10) ∧
    (∀ d, v.temporal = .ok (.date d) → d.moment.offset.isSome = false) ∧
    (v.temporal = .error (.shapeless v.lexical) ↔ v.lexical.length < 3) ∧
    (3 ≤ v.lexical.length → (∀ u, v.temporal ≠ .ok u) →
      ∃ target, v.temporal = .error (.unreadable v.lexical target)) ∧
    ∀ u, v.temporal = .ok u → u.hasOffset = u.moment.offset.isSome := by
  refine ⟨fun t => read_eq_ok_iff_isForm, fun t => read_eq_ok_iff_isForm,
    fun t => read_eq_ok_iff_isForm, fun t => read_eq_ok_iff_isForm,
    fun d => read_eq_ok_iff_isForm, fun d => offset_of_read_date, read_eq_shapeless_iff,
    exists_eq_unreadable, fun u => hasOffset_of_read⟩

theorem temporal_shapes_of_date :
    (∃ d, (LexicalValue.mk "1986-01-24" "" none).temporal = .ok (.date d) ∧
      d.moment.offset.isSome = false ∧ (Temporal.date d).hasOffset = d.moment.offset.isSome) ∧
    ∃ target, (LexicalValue.mk "1986-13-24" "" none).temporal =
      .error (.unreadable "1986-13-24" target) := by
  obtain ⟨-, -, -, -, hdate, hnone, -, -, hkind⟩ := temporal_shapes ⟨"1986-01-24", "", none⟩
  obtain ⟨-, -, -, -, -, -, -, hunreadable, -⟩ := temporal_shapes ⟨"1986-13-24", "", none⟩
  have hread : (LexicalValue.mk "1986-01-24" "" none).temporal =
      .ok (.date ⟨⟨62642505600 * ticksPerSecond, none⟩⟩) := (hdate _).2 (by decide +kernel)
  have herror : (LexicalValue.mk "1986-13-24" "" none).temporal =
      .error (.unreadable "1986-13-24" .date) := by decide +kernel
  exact ⟨⟨_, hread, hnone _ hread, hkind _ hread⟩,
    hunreadable (by decide +kernel) fun u hu => by rw [herror] at hu; cases hu⟩

end Temporal
end Rdf
