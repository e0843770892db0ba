import Rdf.Error
import Rdf.Term.LanguageTag

/-!
Building terms from texts and from other terms, with the checks that this takes.
-/

namespace Rdf

/-- The IRI with a text that is an IRI reference. -/
def Iri.read (text : String) : Except TermError Iri :=
  match Reference.check text.toList with
  | .ok _ => .ok ⟨text⟩
  | .error fault => .error (.invalidIri text fault)

/-- The scope whose salt is written in `text`. -/
def Scope.read (text : String) : Except TermError Scope :=
  match Uuid.read text with
  | .ok salt => .ok ⟨salt⟩
  | .error cause => .error (.invalidScope text cause)

namespace Literal

/-- Literal with a datatype. The datatype of plain strings gives a plain literal; that of texts in a
language is refused. -/
def ofDatatype (lexical : String) (datatype : Iri) : Except TermError Literal :=
  if datatype = Vocabulary.string then .ok (.plain lexical)
  else if datatype = Vocabulary.langString then .error .languageMissing
  else .ok (.typed lexical datatype)

/-- Literal in a language. The tag is stored in lower case. -/
def ofLanguage (lexical tag : String) : Except TermError Literal :=
  match LanguageTag.read? tag with
  | some language => .ok (.tagged lexical language)
  | none => .error (.invalidLanguageTag tag)

end Literal

namespace Term

/-- The term as a subject. -/
def toSubject : Term → Except TermError Subject
  | .iri i => .ok (.iri i)
  | .blankNode b => .ok (.blankNode b)
  | .literal l => .error (.literalSubject l)

/-- The term as an IRI. -/
def toIri : Term → Except TermError Iri
  | .iri i => .ok i
  | t => .error (.notIri t)

/-- The term as a blank node. -/
def toBlankNode : Term → Except TermError BlankNode
  | .blankNode b => .ok b
  | t => .error (.notBlankNode t)

/-- The term as a literal. -/
def toLiteral : Term → Except TermError Literal
  | .literal l => .ok l
  | t => .error (.notLiteral t)

end Term

/-- Triple of three terms, if the first may be a subject and the second is an IRI. -/
def Triple.ofTerms (subject predicate object : Term) : Except TermError Triple := do
  let s ← subject.toSubject
  match predicate with
  | .iri p => .ok ⟨s, p, object⟩
  | other => .error (.predicateNotIri other)

end Rdf
