import Rdf.Uuid.Named

/-!
The terms of the data model, and triples of them. Equality of terms is equality of these values.
-/

namespace Rdf

/-- An IRI reference, identified by its text. -/
structure Iri where
  text : String
deriving DecidableEq, Hashable, Inhabited

/-- The salt shared by the blank nodes of one context. -/
structure Scope where
  salt : Uuid
deriving DecidableEq, Hashable, Inhabited

/-- A blank node, identified by its scope and a reference within it. -/
structure BlankNode where
  scope : Scope
  reference : Uuid
deriving DecidableEq, Hashable, Inhabited

/-- A literal: a plain string, a text in a language, or a text with a datatype. -/
inductive Literal where
  | plain (lexical : String)
  | tagged (lexical language : String)
  | typed (lexical : String) (datatype : Iri)
deriving DecidableEq, Hashable, Inhabited

/-- A term: what may stand in the object position of a triple. -/
inductive Term where
  | iri (i : Iri)
  | blankNode (b : BlankNode)
  | literal (l : Literal)
deriving DecidableEq, Hashable, Inhabited

/-- A term that may stand in the subject position of a triple. -/
inductive Subject where
  | iri (i : Iri)
  | blankNode (b : BlankNode)
deriving DecidableEq, Hashable, Inhabited

/-- A triple. -/
structure Triple where
  subject : Subject
  predicate : Iri
  object : Term
deriving DecidableEq, Hashable, Inhabited

/-- The subject as a term. -/
def Subject.toTerm : Subject → Term
  | .iri i => .iri i
  | .blankNode b => .blankNode b

namespace Term

/-- The term as a subject, if it is no literal. -/
def subject? : Term → Option Subject
  | .iri i => some (.iri i)
  | .blankNode b => some (.blankNode b)
  | .literal _ => none

/-- The term as an IRI. -/
def iri? : Term → Option Iri
  | .iri i => some i
  | _ => none

/-- The term as a blank node. -/
def blankNode? : Term → Option BlankNode
  | .blankNode b => some b
  | _ => none

/-- The term as a literal. -/
def literal? : Term → Option Literal
  | .literal l => some l
  | _ => none

end Term

namespace Scope

/-- Scope whose salt has number `n`. -/
def ofNat (n : Nat) : Scope := ⟨Uuid.ofNat n⟩

/-- Hyphenated text of the salt. -/
def text (s : Scope) : String := s.salt.hyphenated

/-- Reference of the blank node with a label. -/
def referenceOfLabel (s : Scope) (label : String) : Uuid := s.salt.named (Bytes.utf8 label)

/-- Name from which the stand-in of a foreign blank node is derived. It begins with a byte that
never occurs in UTF-8, so it is no label's. -/
def foreignName (foreign : BlankNode) : List UInt8 :=
  0xFF :: foreign.scope.salt.bytes ++ foreign.reference.bytes

/-- Reference of the blank node that stands for one of another scope. -/
def referenceOfForeign (s : Scope) (foreign : BlankNode) : Uuid :=
  s.salt.named (foreignName foreign)

end Scope

namespace BlankNode

/-- Blank node with a label in a scope. -/
def labeled (scope : Scope) (label : String) : BlankNode := ⟨scope, scope.referenceOfLabel label⟩

/-- The blank node of `scope` that stands for `b`: `b` itself if it belongs there. -/
def adoptedBy (scope : Scope) (b : BlankNode) : BlankNode :=
  if scope = b.scope then b else ⟨scope, scope.referenceOfForeign b⟩

/-- Label in texts: the 32 digits of the reference. -/
def label (b : BlankNode) : String := b.reference.simple

end BlankNode

end Rdf
