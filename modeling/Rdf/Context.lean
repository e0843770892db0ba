import Rdf.AnyValue
import Rdf.Term.Building

/-!
Contexts: each has a scope for blank nodes, or none, and offers some of the operations that build
terms. An operation that is not offered fails with its name.
-/

namespace Rdf

/-- A scope for blank nodes and the operations on offer. -/
structure Context where
  scope : Option Scope
  offers : Capability → Bool

namespace Context

/-- The context that offers everything, with a scope. -/
def full (scope : Scope) : Context := ⟨some scope, fun _ => true⟩

/-- The context that offers nothing. -/
def bare : Context := ⟨none, fun _ => false⟩

/-- The context that offers plain literals and literals with a datatype. -/
def literalsOnly : Context := ⟨none, fun c => c = .plainLiteral || c = .typedLiteral⟩

/-- The context that has a scope and offers nothing. -/
def scopeOnly (scope : Scope) : Context := ⟨some scope, fun _ => false⟩

variable (c : Context)

/-- Fails unless an operation is offered. -/
def need (operation : Capability) : Except TermError Unit :=
  if c.offers operation then .ok () else .error (.unsupported operation)

/-- The scope, for an operation that needs one. -/
def needScope (operation : Capability) : Except TermError Scope :=
  match c.scope with
  | some scope => .ok scope
  | none => .error (.unsupported operation)

/-- New blank node with the given random reference. -/
def freshBlankNode (reference : Uuid) : Except TermError BlankNode := do
  c.need .freshBlankNode
  return ⟨← c.needScope .freshBlankNode, reference⟩

/-- Blank node with a label, which must not be empty. -/
def labeledBlankNode (label : String) : Except TermError BlankNode := do
  c.need .labeledBlankNode
  let scope ← c.needScope .labeledBlankNode
  if label = "" then .error .emptyLabel else .ok (.labeled scope label)

/-- The blank node of this context that stands for one of any scope. Every context with a scope has
this operation. -/
def adopt (b : BlankNode) : Except TermError BlankNode := do
  return b.adoptedBy (← c.needScope .adoption)

/-- The IRI with a text. -/
def iri (text : String) : Except TermError Iri := do
  c.need .iri
  Iri.read text

/-- Plain literal. -/
def plainLiteral (lexical : String) : Except TermError Literal := do
  c.need .plainLiteral
  return .plain lexical

/-- Literal with a datatype. -/
def typedLiteral (lexical : String) (datatype : Iri) : Except TermError Literal := do
  c.need .typedLiteral
  Literal.ofDatatype lexical datatype

/-- Literal in a language. -/
def taggedLiteral (lexical tag : String) : Except TermError Literal := do
  c.need .taggedLiteral
  Literal.ofLanguage lexical tag

/-- Triple of three terms. -/
def triple (subject predicate object : Term) : Except TermError Triple := do
  c.need .triple
  Triple.ofTerms subject predicate object

/-- Literal of a native value. -/
def nativeLiteral (v : NativeValue) : Except TermError Literal :=
  c.typedLiteral v.lexical v.datatype

/-- Literal of a value of any type. Strings are tried first, then date-times and dates that are
still to be checked, then native values. -/
def literalOf (v : AnyValue) : Except TermError Literal :=
  if let some s := v.downcast? .string then c.plainLiteral s
  else if let some s := v.downcast? .borrowedString then c.plainLiteral s
  else if let some t := v.downcast? .dateTime then do c.nativeLiteral (← NativeValue.ofDateTime t)
  else if let some d := v.downcast? .date then do c.nativeLiteral (← NativeValue.ofLocalDate d)
  else match v.native? with
  | some n => c.nativeLiteral n
  | none => .error .unknownType

theorem literalOf_string (s : String) : c.literalOf ⟨.string, s⟩ = c.plainLiteral s := rfl

theorem literalOf_borrowedString (s : String) :
    c.literalOf ⟨.borrowedString, s⟩ = c.plainLiteral s := rfl

theorem literalOf_dateTime (t : DateTime) :
    c.literalOf (.dateTime t) = NativeValue.ofDateTime t >>= c.nativeLiteral := rfl

theorem literalOf_date (d : Date) :
    c.literalOf (.date d) = NativeValue.ofLocalDate d >>= c.nativeLiteral := rfl

/-- The tries before the right one fail, and the right one gives the value. -/
theorem literalOf_native (type : NativeType) (value : type.Value) :
    c.literalOf ⟨.native type, value⟩ = c.nativeLiteral (type.toNative value) := by
  have hfails : ∀ tried, ValueType.native type ≠ tried →
      (AnyValue.mk (.native type) value).downcast? tried = none :=
    fun tried h => AnyValue.downcast?_of_ne h
  rw [literalOf, hfails .string nofun, hfails .borrowedString nofun, hfails .dateTime nofun,
    hfails .date nofun, AnyValue.native?_native]

theorem literalOf_other : c.literalOf ⟨.other, ()⟩ = .error .unknownType := rfl

/-- Triple whose object is a literal still to be built; the literal comes first. -/
def tripleWith (subject : Subject) (predicate : Iri) (object : Except TermError Literal) :
    Except TermError Triple := do
  c.triple subject.toTerm (.iri predicate) (.literal (← object))

end Context

end Rdf
