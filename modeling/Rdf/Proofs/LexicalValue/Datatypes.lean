import Rdf.LexicalValue.Dynamic

/-!
# Readers and datatypes

Every accessor reads the whole lexical form by the reader of its target, and a datatype asks for one
accessor. The lists of datatypes have no text in common, so that the order in which they are tried
does not matter. Main statements:

* `readAs_eq_ok_iff`, `readAs_eq_error`: what an accessor gives, and the only error that it has;
* `dynamic_of_unboundedIntegers`, `dynamic_of_fixedWidthIntegers`, `dynamic_of_decimal`,
  `dynamic_of_temporals`: the accessor that a datatype asks for.
-/

namespace Rdf.LexicalValue

variable {v : LexicalValue}

/-! ## Readers -/

section Readers

variable {α : Type} {target : ReadTarget} {reader : List Char → Option α} {a : α}

theorem readAs_eq_ok_iff : v.readAs target reader = .ok a ↔ reader v.lexical.toList = some a := by
  unfold readAs
  cases reader v.lexical.toList <;> simp [LexicalError.orUnreadable]

theorem readAs_ofList_eq_ok_iff {cs : List Char} {datatype : String} {language : Option String} :
    (LexicalValue.mk (String.ofList cs) datatype language).readAs target reader = .ok a ↔
      reader cs = some a := by
  rw [readAs_eq_ok_iff, String.toList_ofList]

theorem readAs_eq_error (h : ∀ a, v.readAs target reader ≠ .ok a) :
    v.readAs target reader = .error (.unreadable v.lexical target) := by
  unfold readAs at h ⊢
  cases hread : reader v.lexical.toList with
  | none => rfl
  | some a => exact absurd (by rw [hread]; rfl) (h a)

end Readers

/-! ## Datatypes -/

section Datatypes

variable {datatype : Iri} {datatypes : List Iri}

theorem hasDatatype_of_mem (h : datatype ∈ datatypes) (hv : v.datatype = datatype.text) :
    v.hasDatatype datatypes = true := by
  simp only [hasDatatype, List.any_eq_true, decide_eq_true_eq]
  exact ⟨datatype, h, hv.symm⟩

/-- A datatype of one list is none of a list without common texts. -/
theorem not_hasDatatype_of_mem {others : List Iri} (h : datatype ∈ datatypes)
    (hv : v.datatype = datatype.text)
    (hdisjoint : ∀ d ∈ datatypes, ∀ e ∈ others, e.text ≠ d.text) :
    ¬v.hasDatatype others = true := by
  simp only [hasDatatype, List.any_eq_true, decide_eq_true_eq, hv]
  rintro ⟨e, he, heq⟩
  exact hdisjoint datatype h e he heq

variable (v) (reading : TemporalReading)

theorem dynamic_of_unboundedIntegers (h : datatype ∈ Vocabulary.unboundedIntegers)
    (hv : v.datatype = datatype.text) : v.dynamic reading = v.integer.map .integer :=
  if_pos (hasDatatype_of_mem h hv)

theorem dynamic_of_fixedWidthIntegers (h : datatype ∈ Vocabulary.fixedWidthIntegers)
    (hv : v.datatype = datatype.text) : v.dynamic reading = v.long.map .long := by
  unfold dynamic
  rw [if_neg (not_hasDatatype_of_mem h hv (by decide)), if_pos (hasDatatype_of_mem h hv)]

theorem dynamic_of_decimal (hv : v.datatype = Vocabulary.decimal.text) :
    v.dynamic reading = v.decimal.map .decimal := by
  have h : Vocabulary.decimal ∈ [Vocabulary.decimal] := List.mem_cons_self
  unfold dynamic
  rw [if_neg (not_hasDatatype_of_mem h hv (by decide)),
    if_neg (not_hasDatatype_of_mem h hv (by decide)), if_pos (hasDatatype_of_mem h hv)]

theorem dynamic_of_temporals (h : datatype ∈ Vocabulary.temporals)
    (hv : v.datatype = datatype.text) : v.dynamic reading = match reading with
      | .asDouble => v.double.map .double
      | .asTemporal => v.temporal.map .temporal := by
  unfold dynamic
  rw [if_neg (not_hasDatatype_of_mem h hv (by decide)),
    if_neg (not_hasDatatype_of_mem h hv (by decide)),
    if_neg (not_hasDatatype_of_mem h hv (by decide)),
    if_neg (not_hasDatatype_of_mem h hv (by decide)),
    if_neg (not_hasDatatype_of_mem h hv (by decide))]
  refine (if_pos (hasDatatype_of_mem h hv)).trans ?_
  cases reading <;> rfl

end Datatypes

end Rdf.LexicalValue
