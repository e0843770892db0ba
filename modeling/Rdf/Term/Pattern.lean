import Rdf.Term.Basic

/-!
Positions of a triple, and patterns that bind some of them to a term.
-/

namespace Rdf

/-- A position of a triple. -/
inductive Position where
  | subject
  | predicate
  | object
deriving DecidableEq

/-- A value for each position. -/
structure ByPosition (α : Type) where
  subject : α
  predicate : α
  object : α

namespace ByPosition

/-- The value at a position. -/
def get {α : Type} (v : ByPosition α) : Position → α
  | .subject => v.subject
  | .predicate => v.predicate
  | .object => v.object

/-- The same value everywhere. -/
def all {α : Type} (a : α) : ByPosition α := ⟨a, a, a⟩

/-- The values of a function of the position and the value there. -/
def map {α β : Type} (f : Position → α → β) : ByPosition α → ByPosition β
  | ⟨s, p, o⟩ => ⟨f .subject s, f .predicate p, f .object o⟩

end ByPosition

/-- The term at a position. -/
def Triple.termAt (t : Triple) : Position → Term
  | .subject => t.subject.toTerm
  | .predicate => .iri t.predicate
  | .object => t.object

/-- Terms that some positions are bound to; the others are free. -/
structure Pattern where
  subject : Option Subject
  predicate : Option Iri
  object : Option Term
deriving DecidableEq, Inhabited

namespace Pattern

/-- The pattern without bound positions. -/
def any : Pattern := ⟨none, none, none⟩

/-- The pattern that only the triple matches. -/
def ofTriple (t : Triple) : Pattern := ⟨some t.subject, some t.predicate, some t.object⟩

/-- Whether no position is bound. -/
def isAny (p : Pattern) : Bool := p.subject.isNone && p.predicate.isNone && p.object.isNone

/-- The term that a position is bound to. -/
def termAt (p : Pattern) : Position → Option Term
  | .subject => p.subject.map Subject.toTerm
  | .predicate => p.predicate.map Term.iri
  | .object => p.object

/-- The pattern with one position made free. -/
def free (p : Pattern) : Position → Pattern
  | .subject => { p with subject := none }
  | .predicate => { p with predicate := none }
  | .object => { p with object := none }

/-- Whether every bound position of the pattern holds its term in the triple. -/
def isMatch (p : Pattern) (t : Triple) : Bool :=
  p.subject.all (· = t.subject) && p.predicate.all (· = t.predicate) && p.object.all (· = t.object)

end Pattern

end Rdf
