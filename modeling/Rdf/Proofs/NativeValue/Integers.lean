import Rdf.Proofs.LexicalValue.Integers
import Rdf.Proofs.NativeValue.Temporals
import Rdf.Proofs.Number.Decimal

/-!
# Integers as native values

Integers of every type have one kind of literal, which does not show the type. Its lexical form is
the canonical spelling of the number, and every accessor reads it as far as its range goes. Main
statement:

* `NativeInteger.integers_round_trip`: how literals of native integers are built, what they look
  like, what is read from them, and when they are equal.
-/

namespace Rdf

/-- An integer of a type. -/
structure NativeInteger where
  type : IntegerType
  value : Int
  contains_value : type.contains value = true

namespace NativeInteger

variable (x y : NativeInteger) {w : LexicalValue.Width}

/-- The integer among the values of its type. -/
def typed : (NativeType.integer x.type).Value := ⟨x.value, x.contains_value⟩

/-- The integer as a value whose type is still to be found out. -/
def any : AnyValue := ⟨.native (.integer x.type), x.typed⟩

/-- What a literal takes of the integer. -/
def native : NativeValue := (NativeType.integer x.type).toNative x.typed

/-- The literal that stands for the integer. -/
def literal : Literal := x.native.toLiteral

/-! ## Reading -/

theorem integer_parts : x.literal.parts.integer = .ok x.value :=
  LexicalValue.readAs_ofList_eq_ok_iff.2 (Integer.read?_ofInt x.value)

theorem dynamic_parts (reading : TemporalReading) :
    x.literal.parts.dynamic reading = .ok (.integer x.value) := by
  have hdatatype : Vocabulary.integer ∈ Vocabulary.unboundedIntegers := by decide
  rw [LexicalValue.dynamic_of_unboundedIntegers _ reading hdatatype rfl, integer_parts]
  rfl

theorem underscore_notMem_parts : '_' ∉ x.literal.parts.lexical.toList := by
  obtain ⟨p, -, -, htext, -⟩ := exists_spelling_ofInt x.value
  have hlexical : x.literal.parts.lexical.toList = p.text := String.toList_ofList.trans htext.symm
  rw [hlexical]
  intro hmem
  exact absurd (p.mem_text hmem) (by decide)

/-- An accessor of fixed width gives the integer if the width suffices. -/
theorem fixed_parts (w : LexicalValue.Width) : x.literal.parts.fixed w =
    if w.range.contains x.value then .ok x.value
    else .error (.unreadable x.native.lexical w.target) := by
  split
  · next hcontains =>
    exact LexicalValue.fixed_eq_ok_iff.2 ⟨x.integer_parts, hcontains, x.underscore_notMem_parts⟩
  · next hnot =>
    refine LexicalValue.fixed_eq_error fun n hn => hnot ?_
    obtain ⟨hinteger, hcontains, -⟩ := LexicalValue.fixed_eq_ok_iff.1 hn
    rwa [← Except.ok.inj (x.integer_parts.symm.trans hinteger)] at hcontains

/-- The accessor for the type of an integer gives the integer. -/
theorem fixed_parts_of_type (h : x.type = .signed w) : x.literal.parts.fixed w = .ok x.value := by
  have hcontains : w.range.contains x.value = true := by
    have htype := x.contains_value
    rwa [h] at htype
  rw [fixed_parts, if_pos hcontains]

theorem literal_eq_iff : x.literal = y.literal ↔ x.value = y.value := by
  constructor
  · intro h
    have hinteger := y.integer_parts
    rw [← h, integer_parts] at hinteger
    exact Except.ok.inj hinteger
  · intro h
    have hnative : x.native = y.native := congrArg NativeValue.integer h
    rw [literal, hnative, literal]

/-! ## Literals -/

/-- A context that offers everything builds the literal of an integer, from the value as well as
from a value whose type it has to find out. The literal is of one datatype, and its form is the one
canonical spelling of the number, which has no point. It is read as the integer at any size, and at
a fixed width as the integer or else with an error that shows the form, so that the accessor for the
type of the integer always gives it. Literals of two integers of any types are equal if the integers
are. -/
theorem integers_round_trip (scope : Scope) :
    (Context.full scope).nativeLiteral x.native = .ok x.literal ∧
    (Context.full scope).literalOf x.any = .ok x.literal ∧
    (∃ p : Spelling, (∀ q : Spelling, q.IsCanonical ∧ q.value = x.value ↔ q = p) ∧
      p.places = none ∧ x.literal = .typed (String.ofList p.text) Vocabulary.integer) ∧
    x.literal.parts.integer = .ok x.value ∧
    (∀ reading, x.literal.parts.dynamic reading = .ok (.integer x.value)) ∧
    (∀ w : LexicalValue.Width, x.literal.parts.fixed w =
      if w.range.contains x.value then .ok x.value
      else .error (.unreadable x.native.lexical w.target)) ∧
    (∀ w, x.type = .signed w → x.literal.parts.fixed w = .ok x.value) ∧
    (x.literal = y.literal ↔ x.value = y.value) := by
  have hnative : (Context.full scope).nativeLiteral x.native = .ok x.literal :=
    NativeValue.nativeLiteral_eq_ok_iff.2 ⟨rfl, rfl⟩
  have hany : (Context.full scope).literalOf x.any = .ok x.literal := by
    rw [any, Context.literalOf_native]
    exact hnative
  refine ⟨hnative, hany, ?_, x.integer_parts, x.dynamic_parts, x.fixed_parts,
    fun w => x.fixed_parts_of_type, x.literal_eq_iff y⟩
  obtain ⟨p, hp, hplaces, htext, hvalue⟩ := exists_spelling_ofInt x.value
  exact ⟨p, fun q => hp.iff_eq hvalue, hplaces, by rw [htext]; rfl⟩

/-- The largest number of 64 bits without a sign and the smallest with one. -/
theorem integers_round_trip_at_limits :
    let x : NativeInteger := ⟨.unsigned .long, 18446744073709551615, by decide⟩
    let y : NativeInteger := ⟨.signed .long, -9223372036854775808, by decide⟩
    let z : NativeInteger := ⟨.unbounded, 18446744073709551615, rfl⟩
    (Context.full default).literalOf x.any =
      .ok (.typed "18446744073709551615" Vocabulary.integer) ∧
    (Context.full default).literalOf y.any =
      .ok (.typed "-9223372036854775808" Vocabulary.integer) ∧
    x.literal.parts.fixed .long = .error (.unreadable "18446744073709551615" .long) ∧
    x.literal.parts.integer = .ok 18446744073709551615 ∧
    y.literal.parts.fixed .long = .ok (-9223372036854775808) ∧
    y.literal.parts.fixed .int = .error (.unreadable "-9223372036854775808" .int) ∧
    x.literal ≠ y.literal ∧ x.literal = z.literal := by
  intro x y z
  obtain ⟨-, hx, -, hinteger, -, hfixed, -, hxy⟩ := integers_round_trip x y default
  obtain ⟨-, hy, -, -, -, hfixed', htype, -⟩ := integers_round_trip y x default
  obtain ⟨-, -, -, -, -, -, -, hxz⟩ := integers_round_trip x z default
  have htext : x.native.lexical = "18446744073709551615" := by decide +kernel
  have htext' : y.native.lexical = "-9223372036854775808" := by decide +kernel
  refine ⟨?_, ?_, ?_, hinteger, htype .long rfl, ?_, ?_, hxz.2 rfl⟩
  · rw [hx, literal, NativeValue.toLiteral, htext]
    rfl
  · rw [hy, literal, NativeValue.toLiteral, htext']
    rfl
  · rw [hfixed, htext, if_neg (by decide)]
    rfl
  · rw [hfixed', htext', if_neg (by decide)]
    rfl
  · rw [Ne, hxy]
    decide

end NativeInteger

end Rdf
