import Rdf.Exchange
import Rdf.Proofs.Results
import Rdf.Proofs.Term.LanguageTag

/-!
# The identity of literals

A literal is kept in one of three forms, and two literals are equal if the forms are. That is the
equality of their lexical forms, datatypes and languages, because no constructor uses a form for what
another one stands for: a literal with a datatype is never a plain string or a text in a language.
Main statements:

* `Literal.built_iff`: what the constructors build, in terms of the form;
* `Literal.Built.eq_iff`: built literals are equal if their parts are;
* `literal_identity`: that, and which language tags there are and when they are the same.
-/

namespace Rdf

namespace Literal

/-! ## Constructors -/

/-- The literals that can be built: from texts, from native values, and through a context. -/
inductive Built : Literal → Prop
  | simple (lexical : String) : Built (.plain lexical)
  | typed {lexical datatype l} (h : ofDatatype lexical datatype = .ok l) : Built l
  | tagged {lexical tag l} (h : ofLanguage lexical tag = .ok l) : Built l
  | native (v : NativeValue) : Built v.toLiteral
  | createLiteral {c : Context} {lexical l} (h : c.plainLiteral lexical = .ok l) : Built l
  | createTyped {c : Context} {lexical datatype l} (h : c.typedLiteral lexical datatype = .ok l) :
    Built l
  | createTagged {c : Context} {lexical tag l} (h : c.taggedLiteral lexical tag = .ok l) : Built l
  | createNative {c : Context} {v l} (h : c.nativeLiteral v = .ok l) : Built l
  | createDynamic {c : Context} {v l} (h : c.literalOf v = .ok l) : Built l
  | imported {c : Context} {x l} (h : c.importTerm x = .ok (.literal l)) : Built l

/-- The form of a literal fits its datatype, and its language is a tag in lower case. -/
def HasForm : Literal → Prop
  | .plain _ => True
  | .tagged _ language => LanguageTag.read? language = some language
  | .typed _ datatype => datatype ≠ Vocabulary.string ∧ datatype ≠ Vocabulary.langString

variable {lexical tag language : String} {datatype : Iri} {l m : Literal} {c : Context}

theorem HasForm.of_ofDatatype (h : ofDatatype lexical datatype = .ok l) : l.HasForm := by
  unfold ofDatatype at h
  split at h
  · obtain rfl := Except.ok.inj h
    trivial
  · split at h
    · cases h
    · next hstring hlang =>
      obtain rfl := Except.ok.inj h
      exact ⟨hstring, hlang⟩

theorem ofDatatype_of_ne (hstring : datatype ≠ Vocabulary.string)
    (hlang : datatype ≠ Vocabulary.langString) :
    ofDatatype lexical datatype = .ok (.typed lexical datatype) := by
  unfold ofDatatype
  rw [if_neg hstring, if_neg hlang]

theorem ofLanguage_of_read? (h : LanguageTag.read? tag = some language) :
    ofLanguage lexical tag = .ok (.tagged lexical language) := by
  unfold ofLanguage
  rw [h]

theorem ofLanguage_eq_ok_iff : ofLanguage lexical tag = .ok l ↔
    tag.toList ∈ LanguageTag.grammar ∧ l = .tagged lexical tag.toLower := by
  unfold ofLanguage
  cases hread : LanguageTag.read? tag with
  | none =>
    have hnot : tag.toList ∉ LanguageTag.grammar := by
      intro h
      rw [LanguageTag.read?_eq_some_iff.2 ⟨h, rfl⟩] at hread
      cases hread
    simp [hnot]
  | some language =>
    obtain ⟨hgrammar, rfl⟩ := LanguageTag.read?_eq_some_iff.1 hread
    simp [hgrammar, eq_comm]

theorem ofLanguage_eq_error (h : tag.toList ∉ LanguageTag.grammar) :
    ofLanguage lexical tag = .error (.invalidLanguageTag tag) := by
  unfold ofLanguage
  cases hread : LanguageTag.read? tag with
  | none => rfl
  | some language => exact absurd (LanguageTag.read?_eq_some_iff.1 hread).1 h

/-- A stored tag is accepted again and stored unchanged. -/
theorem read?_toLower (h : tag.toList ∈ LanguageTag.grammar) :
    LanguageTag.read? tag.toLower = some tag.toLower := by
  rw [LanguageTag.read?_eq_some_iff]
  exact ⟨LanguageTag.toLower_mem_grammar h, (LanguageTag.toLower_toLower_string tag).symm⟩

theorem HasForm.of_ofLanguage (h : ofLanguage lexical tag = .ok l) : l.HasForm := by
  obtain ⟨hgrammar, rfl⟩ := ofLanguage_eq_ok_iff.1 h
  exact read?_toLower hgrammar

/-- The datatypes of native values are neither that of plain strings nor that of texts in a
language. -/
theorem hasForm_toLiteral (v : NativeValue) : v.toLiteral.HasForm := by
  show v.datatype ≠ Vocabulary.string ∧ v.datatype ≠ Vocabulary.langString
  cases v <;> simp only [NativeValue.datatype] <;> decide

/-! ## Contexts -/

theorem HasForm.of_plainLiteral (h : c.plainLiteral lexical = .ok l) : l.HasForm := by
  obtain ⟨-, -, hl⟩ := bind_eq_ok_iff.1 h
  obtain rfl := Except.ok.inj hl
  trivial

theorem HasForm.of_typedLiteral (h : c.typedLiteral lexical datatype = .ok l) : l.HasForm := by
  obtain ⟨-, -, hl⟩ := bind_eq_ok_iff.1 h
  exact .of_ofDatatype hl

theorem HasForm.of_taggedLiteral (h : c.taggedLiteral lexical tag = .ok l) : l.HasForm := by
  obtain ⟨-, -, hl⟩ := bind_eq_ok_iff.1 h
  exact .of_ofLanguage hl

theorem HasForm.of_literalOf {v : AnyValue} (h : c.literalOf v = .ok l) : l.HasForm := by
  rcases v with ⟨type, value⟩
  cases type with
  | string =>
    rw [Context.literalOf_string] at h
    exact .of_plainLiteral h
  | borrowedString =>
    rw [Context.literalOf_borrowedString] at h
    exact .of_plainLiteral h
  | dateTime =>
    rw [← AnyValue.dateTime, Context.literalOf_dateTime] at h
    obtain ⟨v, -, hv⟩ := bind_eq_ok_iff.1 h
    exact .of_typedLiteral hv
  | date =>
    rw [← AnyValue.date, Context.literalOf_date] at h
    obtain ⟨v, -, hv⟩ := bind_eq_ok_iff.1 h
    exact .of_typedLiteral hv
  | native type =>
    rw [Context.literalOf_native] at h
    exact .of_typedLiteral h
  | other =>
    rw [Context.literalOf_other] at h
    cases h

theorem HasForm.of_importLiteral {parts : LexicalValue} (h : c.importLiteral parts = .ok l) :
    l.HasForm := by
  unfold Context.importLiteral at h
  split at h
  · exact .of_taggedLiteral h
  · obtain ⟨datatype, -, hl⟩ := bind_eq_ok_iff.1 h
    exact .of_typedLiteral hl

theorem HasForm.of_importTerm {x : ExchangeTerm} (h : c.importTerm x = .ok (.literal l)) :
    l.HasForm := by
  cases x with
  | iri text =>
    obtain ⟨i, -, hi⟩ := map_eq_ok_iff.1 h
    cases hi
  | blankNode label =>
    obtain ⟨b, -, hb⟩ := map_eq_ok_iff.1 h
    cases hb
  | literal parts =>
    obtain ⟨l', hl', heq⟩ := map_eq_ok_iff.1 h
    obtain rfl := Term.literal.inj heq
    exact .of_importLiteral hl'

/-- What the constructors build: the literals whose form fits. -/
theorem built_iff : l.Built ↔ l.HasForm := by
  constructor
  · intro h
    cases h with
    | simple => trivial
    | typed h => exact .of_ofDatatype h
    | tagged h => exact .of_ofLanguage h
    | native v => exact hasForm_toLiteral v
    | createLiteral h => exact .of_plainLiteral h
    | createTyped h => exact .of_typedLiteral h
    | createTagged h => exact .of_taggedLiteral h
    | createNative h => exact .of_typedLiteral h
    | createDynamic h => exact .of_literalOf h
    | imported h => exact .of_importTerm h
  · intro h
    cases l with
    | plain lexical => exact .simple lexical
    | tagged lexical language => exact .tagged (ofLanguage_of_read? h)
    | typed lexical datatype => exact .typed (ofDatatype_of_ne h.1 h.2)

/-! ## Identity -/

theorem Built.language_isSome_iff (h : l.Built) :
    l.language.isSome = true ↔ l.datatype = Vocabulary.langString := by
  have hform := built_iff.1 h
  cases l with
  | plain lexical => simpa [language, Literal.datatype] using (by decide)
  | tagged lexical language => simp [Literal.language, Literal.datatype]
  | typed lexical datatype => simpa [language, Literal.datatype] using hform.2

theorem Built.isPlain_iff (h : l.Built) :
    l.isPlain = true ↔ l.datatype = Vocabulary.string := by
  have hform := built_iff.1 h
  cases l with
  | plain lexical => simp [isPlain, Literal.datatype]
  | tagged lexical language => simpa [isPlain, Literal.datatype] using (by decide)
  | typed lexical datatype => simpa [isPlain, Literal.datatype] using hform.1

/-- Built literals are equal if their parts are. -/
theorem Built.eq_iff (hl : l.Built) (hm : m.Built) :
    l = m ↔ l.lexical = m.lexical ∧ l.datatype = m.datatype ∧ l.language = m.language := by
  constructor
  · rintro rfl
    exact ⟨rfl, rfl, rfl⟩
  · rintro ⟨hlexical, hdatatype, hlanguage⟩
    -- the language tells tagged literals from the others, and the datatype plain ones from typed
    have hplain : l.isPlain = m.isPlain := by
      rw [Bool.eq_iff_iff, hl.isPlain_iff, hm.isPlain_iff, hdatatype]
    cases l <;> cases m <;> simp_all [lexical, Literal.datatype, language, isPlain]

/-- Literals are equal if their lexical forms, datatypes and languages are: the literals with a
language are those of one datatype, and the plain ones those of another. Language tags are the texts
of a grammar, kept in lower case, and the same if only the case of letters differs. -/
theorem literal_identity :
    (∀ l : Literal, l.Built → (l.language.isSome = true ↔ l.datatype = Vocabulary.langString) ∧
      (l.isPlain = true ↔ l.datatype = Vocabulary.string)) ∧
    (∀ l m : Literal, l.Built → m.Built →
      (l = m ↔ l.lexical = m.lexical ∧ l.datatype = m.datatype ∧ l.language = m.language)) ∧
    (∀ lexical tag, (tag.toList ∈ LanguageTag.grammar →
        ofLanguage lexical tag = .ok (.tagged lexical tag.toLower)) ∧
      (tag.toList ∉ LanguageTag.grammar →
        ofLanguage lexical tag = .error (.invalidLanguageTag tag))) ∧
    (∀ lexical tag language, ofLanguage lexical tag = .ok (.tagged lexical language) →
      ofLanguage lexical language = .ok (.tagged lexical language)) ∧
    (∀ lexical tag tag' l l', ofLanguage lexical tag = .ok l → ofLanguage lexical tag' = .ok l' →
      (l = l' ↔ List.Forall₂ LanguageTag.SameButCase tag.toList tag'.toList)) := by
  refine ⟨fun l h => ⟨h.language_isSome_iff, h.isPlain_iff⟩, fun l m hl hm => hl.eq_iff hm,
    fun lexical tag => ⟨fun h => ofLanguage_eq_ok_iff.2 ⟨h, rfl⟩, ofLanguage_eq_error⟩,
    fun lexical tag language h => ?_, fun lexical tag tag' l l' h h' => ?_⟩
  · obtain ⟨hgrammar, heq⟩ := ofLanguage_eq_ok_iff.1 h
    obtain ⟨-, rfl⟩ := Literal.tagged.inj heq
    exact ofLanguage_of_read? (read?_toLower hgrammar)
  · obtain ⟨-, rfl⟩ := ofLanguage_eq_ok_iff.1 h
    obtain ⟨-, rfl⟩ := ofLanguage_eq_ok_iff.1 h'
    rw [Literal.tagged.injEq, ← LanguageTag.toLower_string_eq_iff]
    exact and_iff_right rfl

/-- A handed in literal whose datatype is that of plain strings, and two spellings of a tag. -/
theorem literal_identity_imported :
    (Literal.plain "colour").Built ∧
    ((Literal.plain "colour").isPlain = true ↔
      (Literal.plain "colour").datatype = Vocabulary.string) ∧
    ofLanguage "colour" "EN-gb" = .ok (.tagged "colour" "en-gb") ∧
    ofLanguage "colour" "en-GB" = .ok (.tagged "colour" "en-gb") ∧
    List.Forall₂ LanguageTag.SameButCase "EN-gb".toList "en-GB".toList := by
  have himported : (Context.full default).importTerm
      (.literal ⟨"colour", Vocabulary.string.text, none⟩) = .ok (.literal (.plain "colour")) := by
    decide +kernel
  have hbuilt : (Literal.plain "colour").Built := .imported himported
  have hupper : ofLanguage "colour" "EN-gb" = .ok (.tagged "colour" "en-gb") := by decide +kernel
  have hlower : ofLanguage "colour" "en-GB" = .ok (.tagged "colour" "en-gb") := by decide +kernel
  obtain ⟨hkind, -, -, -, hsame⟩ := literal_identity
  exact ⟨hbuilt, (hkind _ hbuilt).2, hupper, hlower,
    (hsame "colour" "EN-gb" "en-GB" _ _ hupper hlower).1 rfl⟩

end Literal

/-! ## Terms over a class of IRIs -/

/-- The IRIs of a term have a property, that of its datatype too, and a literal can be built. -/
def Term.Over (P : Iri → Prop) : Term → Prop
  | .iri i => P i
  | .blankNode _ => True
  | .literal l => l.Built ∧ P l.datatype

/-- So do the IRIs of a triple. -/
structure Triple.Over (P : Iri → Prop) (t : Triple) : Prop where
  subject : t.subject.toTerm.Over P
  predicate : P t.predicate
  object : t.object.Over P

end Rdf
