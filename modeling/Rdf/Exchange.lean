import Rdf.Context

/-!
Terms as they are exchanged with other libraries: blank nodes by label alone, and no check of any
part. Blank nodes get the scope of the context that imports them.
-/

namespace Rdf

/-- A term on its way to or from another library. -/
inductive ExchangeTerm where
  | iri (text : String)
  | blankNode (label : String)
  | literal (parts : LexicalValue)
deriving DecidableEq

/-- A triple on its way to or from another library. -/
structure ExchangeTriple where
  subject : ExchangeTerm
  predicate : String
  object : ExchangeTerm
deriving DecidableEq

/-- The term as it is handed out. -/
def Term.exported : Term → ExchangeTerm
  | .iri i => .iri i.text
  | .blankNode b => .blankNode b.label
  | .literal l => .literal l.parts

/-- The triple as it is handed out. -/
def Triple.exported (t : Triple) : ExchangeTriple :=
  ⟨t.subject.toTerm.exported, t.predicate.text, t.object.exported⟩

namespace Context

variable (c : Context)

/-- Literal with the given parts. A language makes the datatype irrelevant. -/
def importLiteral (parts : LexicalValue) : Except TermError Literal :=
  match parts.language with
  | some tag => c.taggedLiteral parts.lexical tag
  | none => do c.typedLiteral parts.lexical (← c.iri parts.datatype)

/-- Term of this context for one that is handed in. -/
def importTerm : ExchangeTerm → Except TermError Term
  | .iri text => (c.iri text).map .iri
  | .blankNode label => (c.labeledBlankNode label).map .blankNode
  | .literal parts => (c.importLiteral parts).map .literal

/-- Triple of this context for one that is handed in. -/
def importTriple (t : ExchangeTriple) : Except TermError Triple := do
  let s ← c.importTerm t.subject
  let p ← c.iri t.predicate
  let o ← c.importTerm t.object
  c.triple s (.iri p) o

end Context

end Rdf
