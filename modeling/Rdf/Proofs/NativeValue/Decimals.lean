import Rdf.NativeValue
import Rdf.Proofs.LexicalValue.Datatypes
import Rdf.Proofs.Number.Decimal

/-!
# Decimals as native values

The literal of a decimal has the canonical spelling of its number as lexical form, so that equal
numbers have equal literals, and it is read as the same number. Every other spelling is read as the
number that it denotes, and leads to the same literal. Main statement:

* `NativeValue.decimals_are_canonical`: the form of these literals, and what is read from them and
  from all other spellings.
-/

namespace Rdf.NativeValue

variable {d e : Decimal}

theorem toLiteral_decimal (d : Decimal) : (decimal d).toLiteral =
    .typed (String.ofList d.canonical) Vocabulary.decimal := rfl

theorem toLiteral_decimal_eq_iff :
    (decimal d).toLiteral = (decimal e).toLiteral ↔ d.value = e.value := by
  rw [← Decimal.canonical_eq_iff, toLiteral_decimal, toLiteral_decimal]
  simp [String.ofList_inj]

/-- A literal of a decimal is read as a decimal that is the same number. -/
theorem exists_decimal_parts (h : Integer.Range.long.contains d.normalized.scale = true) :
    ∃ e, (decimal d).toLiteral.parts.decimal = .ok e ∧ e.value = d.value ∧
      ∀ reading, (decimal d).toLiteral.parts.dynamic reading = .ok (.decimal e) := by
  obtain ⟨e, hread, hvalue⟩ := Decimal.read?_canonical h
  have hdecimal : (decimal d).toLiteral.parts.decimal = .ok e :=
    LexicalValue.readAs_ofList_eq_ok_iff.2 hread
  refine ⟨e, hdecimal, hvalue, fun reading => ?_⟩
  rw [LexicalValue.dynamic_of_decimal _ reading rfl, hdecimal]
  rfl

/-- Every spelling that fits into memory is read as the number that it denotes. -/
theorem exists_decimal_of_spelling {p : Spelling} {v : LexicalValue}
    (htext : v.lexical.toList = p.text) (hlength : v.lexical.length < 2 ^ 63) :
    ∃ d, v.decimal = .ok d ∧ d.value = p.value := by
  have hplaces := p.length_fraction_le_length_text
  have hrange : Integer.Range.long.contains p.fraction.length = true := by
    rw [← String.length_toList, htext] at hlength
    have hlowest : Integer.Range.long.lowest ≤ 0 := by decide
    have hhighest : Integer.Range.long.highest = 2 ^ 63 - 1 := by decide
    rw [Integer.Range.contains_iff]
    omega
  obtain ⟨d, hread, hvalue⟩ := p.exists_read? hrange
  refine ⟨d, LexicalValue.readAs_eq_ok_iff.2 ?_, hvalue⟩
  rw [htext, hread]

/-- The lexical form of a decimal is the one canonical spelling of its number. It is read as the
same number if the scale of the normal form can be counted in 64 bits, under the datatype of the
literal as well. Literals of decimals are equal if the numbers are. Every spelling that fits into
memory is read as the number that it denotes, so that all spellings of a number lead to one
literal. -/
theorem decimals_are_canonical :
    (∀ d, ∃ p : Spelling, (∀ q : Spelling, q.IsCanonical ∧ q.value = d.value ↔ q = p) ∧
      (decimal d).toLiteral = .typed (String.ofList p.text) Vocabulary.decimal) ∧
    (∀ d, Integer.Range.long.contains d.normalized.scale = true →
      ∃ e, (decimal d).toLiteral.parts.decimal = .ok e ∧ e.value = d.value ∧
        ∀ reading, (decimal d).toLiteral.parts.dynamic reading = .ok (.decimal e)) ∧
    (∀ d e, (decimal d).toLiteral = (decimal e).toLiteral ↔ d.value = e.value) ∧
    ∀ (p : Spelling) (v : LexicalValue),
      v.lexical.toList = p.text → v.lexical.length < 2 ^ 63 →
      (∃ d, v.decimal = .ok d ∧ d.value = p.value) ∧
      ∀ (q : Spelling) (w : LexicalValue),
        w.lexical.toList = q.text → w.lexical.length < 2 ^ 63 → p.value = q.value →
        ∀ d e, v.decimal = .ok d → w.decimal = .ok e →
          (decimal d).toLiteral = (decimal e).toLiteral := by
  refine ⟨fun d => ?_, fun d => exists_decimal_parts, fun d e => toLiteral_decimal_eq_iff,
    fun p v hp hv => ⟨exists_decimal_of_spelling hp hv, fun q w hq hw heq d e hd he => ?_⟩⟩
  · obtain ⟨p, hp, htext, hvalue, -⟩ := Decimal.exists_spelling_canonical d
    exact ⟨p, fun q => hp.iff_eq hvalue, by rw [htext, toLiteral_decimal]⟩
  · obtain ⟨d', hd', hdvalue⟩ := exists_decimal_of_spelling hp hv
    obtain ⟨e', he', hevalue⟩ := exists_decimal_of_spelling hq hw
    obtain rfl := Except.ok.inj (hd.symm.trans hd')
    obtain rfl := Except.ok.inj (he.symm.trans he')
    rw [toLiteral_decimal_eq_iff, hdvalue, hevalue, heq]

theorem decimals_are_canonical_of_half :
    (∃ e, (decimal ⟨1250, 3⟩).toLiteral.parts.decimal = .ok e ∧ e.value = 5 / 4) ∧
    ∃ d e, (LexicalValue.mk "+.50" "" none).decimal = .ok d ∧ d.value = 1 / 2 ∧
      (LexicalValue.mk "0.5" "" none).decimal = .ok e ∧
      (decimal d).toLiteral = (decimal e).toLiteral := by
  obtain ⟨-, hread, -, hspellings⟩ := decimals_are_canonical
  have hpdigits : ['5', '0'].all Char.isDigit = true := by decide
  have hqdigits : ['0', '5'].all Char.isDigit = true := by decide
  let p : Spelling := ⟨.plus, [], some ['5', '0'], List.all_eq_true.1 hpdigits, by decide⟩
  let q : Spelling := ⟨.none, ['0'], some ['5'], List.all_eq_true.1 hqdigits, by decide⟩
  have hfifty : Digits.toNat ['5', '0'] = 50 := by decide
  have hfive : Digits.toNat ['5'] = 5 := by decide
  have hzero : Digits.toNat ['0'] = 0 := by decide
  have hnil : Digits.toNat [] = 0 := by decide
  have hp : p.value = 1 / 2 := by
    norm_num [p, Spelling.value, Spelling.fraction, hfifty, hnil]
  have hq : q.value = 1 / 2 := by
    norm_num [q, Spelling.value, Spelling.fraction, hfive, hzero]
  obtain ⟨e, he, hevalue, -⟩ := hread ⟨1250, 3⟩ (by decide +kernel)
  have hvalue : (⟨1250, 3⟩ : Decimal).value = 5 / 4 := by
    norm_num [Decimal.value, zpow_neg]
  obtain ⟨⟨d, hd, hdvalue⟩, hsame⟩ := hspellings p ⟨"+.50", "", none⟩ rfl (by decide)
  obtain ⟨⟨d', hd', -⟩, -⟩ := hspellings q ⟨"0.5", "", none⟩ rfl (by decide)
  exact ⟨⟨e, he, hevalue.trans hvalue⟩, d, d', hd, hdvalue.trans hp, hd',
    hsame q _ rfl (by decide) (hp.trans hq.symm) d d' hd hd'⟩

end Rdf.NativeValue
