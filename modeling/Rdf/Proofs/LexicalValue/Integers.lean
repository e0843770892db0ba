import Rdf.Proofs.LexicalValue.Datatypes
import Rdf.Proofs.Number.Integer
import Rdf.Proofs.Results

/-!
# Integers of fixed width and of any size

A form is read as an integer of fixed width by one reader and as an integer of any size by another.
Both give the same number where the width suffices, except that underscores between the digits are
skipped by the latter and refused by the former. Main statements:

* `fixed_eq_ok_iff`: what is read at a fixed width;
* `integers_agree`: the same, the errors, and what datatypes of both kinds make of one form;
* `underscores_disagree`: underscores are the difference.
-/

namespace Rdf.LexicalValue

variable {v : LexicalValue} {w : Width} {n : Int}

theorem fixed_eq_readAs (v : LexicalValue) (w : Width) :
    v.fixed w = v.readAs w.target w.range.read? := by
  cases w <;> rfl

theorem Width.lowest_neg (w : Width) : w.range.lowest < 0 := by
  cases w <;> decide

/-- At a fixed width a form is read as what it is at any size, if that fits and no underscores are
skipped. -/
theorem fixed_eq_ok_iff : v.fixed w = .ok n ↔
    v.integer = .ok n ∧ w.range.contains n = true ∧ '_' ∉ v.lexical.toList := by
  rw [fixed_eq_readAs, readAs_eq_ok_iff, Integer.Range.read?_eq_some_iff w.lowest_neg]
  unfold integer
  rw [readAs_eq_ok_iff]

theorem fixed_eq_error (h : ∀ n, v.fixed w ≠ .ok n) :
    v.fixed w = .error (.unreadable v.lexical w.target) := by
  rw [fixed_eq_readAs] at h ⊢
  exact readAs_eq_error h

/-! ## Datatypes -/

/-- Under a datatype of fixed width a form is read as under one of any size, if the number fits into
64 bits and no underscores are skipped. -/
theorem dynamic_eq_ok_iff {d e : Iri} (hd : d ∈ Vocabulary.fixedWidthIntegers)
    (he : e ∈ Vocabulary.unboundedIntegers) (reading : TemporalReading) {x : DynamicValue} :
    { v with datatype := d.text }.dynamic reading = .ok x ↔
      ∃ n, x = .long n ∧ { v with datatype := e.text }.dynamic reading = .ok (.integer n) ∧
        Integer.Range.long.contains n = true ∧ '_' ∉ v.lexical.toList := by
  have hlong : ∀ n, v.long = .ok n ↔ v.integer = .ok n ∧
      Integer.Range.long.contains n = true ∧ '_' ∉ v.lexical.toList :=
    fun n => fixed_eq_ok_iff (w := .long)
  -- the accessors do not look at the datatype
  have hfixed : { v with datatype := d.text }.dynamic reading = v.long.map .long :=
    dynamic_of_fixedWidthIntegers _ reading hd rfl
  have hunbounded : { v with datatype := e.text }.dynamic reading = v.integer.map .integer :=
    dynamic_of_unboundedIntegers _ reading he rfl
  rw [hfixed, hunbounded, map_eq_ok_iff]
  simp only [map_eq_ok_iff, DynamicValue.integer.injEq, exists_eq_right, hlong]
  exact exists_congr fun n => and_comm.trans (and_congr_left' eq_comm)

theorem dynamic_eq_error {d : Iri} (hd : d ∈ Vocabulary.fixedWidthIntegers)
    (reading : TemporalReading)
    (h : ∀ x, { v with datatype := d.text }.dynamic reading ≠ .ok x) :
    { v with datatype := d.text }.dynamic reading = .error (.unreadable v.lexical .long) := by
  have hfixed : { v with datatype := d.text }.dynamic reading = v.long.map .long :=
    dynamic_of_fixedWidthIntegers _ reading hd rfl
  rw [hfixed] at h ⊢
  have herror : v.long = .error (.unreadable v.lexical .long) :=
    fixed_eq_error (w := .long) fun n hn => h (.long n) (map_eq_ok_iff.2 ⟨n, hn, rfl⟩)
  rw [herror]
  rfl

/-- At a fixed width a form is read as the same number as at any size, if the number is in the range
of the width and no underscore occurs in the form, and is refused otherwise. So it is under datatypes
of both kinds, where the width is that of 64 bits. -/
theorem integers_agree (v : LexicalValue) :
    (∀ w n, v.fixed w = .ok n ↔
      v.integer = .ok n ∧ w.range.contains n = true ∧ '_' ∉ v.lexical.toList) ∧
    (∀ w, (∀ n, v.fixed w ≠ .ok n) → v.fixed w = .error (.unreadable v.lexical w.target)) ∧
    ∀ d ∈ Vocabulary.fixedWidthIntegers, ∀ e ∈ Vocabulary.unboundedIntegers, ∀ reading,
      (∀ x, { v with datatype := d.text }.dynamic reading = .ok x ↔
        ∃ n, x = .long n ∧ { v with datatype := e.text }.dynamic reading = .ok (.integer n) ∧
          Integer.Range.long.contains n = true ∧ '_' ∉ v.lexical.toList) ∧
      ((∀ x, { v with datatype := d.text }.dynamic reading ≠ .ok x) →
        { v with datatype := d.text }.dynamic reading = .error (.unreadable v.lexical .long)) :=
  ⟨fun _ _ => fixed_eq_ok_iff, fun _ => fixed_eq_error, fun _ hd _ he reading =>
    ⟨fun _ => dynamic_eq_ok_iff hd he reading, dynamic_eq_error hd reading⟩⟩

theorem integers_agree_at_limits :
    (LexicalValue.mk "-00128" "" none).fixed .byte = .ok (-128) ∧
    (LexicalValue.mk "+128" "" none).fixed .byte = .error (.unreadable "+128" .byte) ∧
    (LexicalValue.mk "+128" (Vocabulary.xsd "byte").text none).dynamic .asDouble =
      .ok (.long 128) := by
  obtain ⟨hlow, -, -⟩ := integers_agree ⟨"-00128", "", none⟩
  obtain ⟨hhigh, herror, hdynamic⟩ := integers_agree ⟨"+128", "", none⟩
  have hinteger : (LexicalValue.mk "+128" "" none).integer = .ok 128 := by decide +kernel
  refine ⟨(hlow .byte (-128)).2 (by decide +kernel), herror .byte fun n hn => ?_, ?_⟩
  · obtain ⟨hn', hcontains, -⟩ := (hhigh .byte n).1 hn
    obtain rfl := Except.ok.inj (hinteger.symm.trans hn')
    exact absurd hcontains (by decide)
  · obtain ⟨hiff, -⟩ := hdynamic (Vocabulary.xsd "byte") (by decide) Vocabulary.integer (by decide)
      .asDouble
    exact (hiff _).2 ⟨128, rfl, by decide +kernel⟩

/-- Forms with underscores are integers of any size, but not of a fixed width that suffices. -/
theorem underscores_disagree :
    ¬∀ (v : LexicalValue) (w : Width) (n : Int),
      v.fixed w = .ok n ↔ v.integer = .ok n ∧ w.range.contains n = true := by
  intro h
  have hinteger : (LexicalValue.mk "1_0" "" none).integer = .ok 10 := by decide +kernel
  have hfixed := (h ⟨"1_0", "", none⟩ .byte 10).2 ⟨hinteger, by decide⟩
  exact absurd hfixed (by decide +kernel)

end Rdf.LexicalValue
