import Rdf.Iri.Reference
import Rdf.Term.Canonical
import Rdf.Uuid.Reading

/-!
Why a term could not be built, and the texts that say so.
-/

namespace Rdf

/-- The operations that a context may offer. -/
inductive Capability where
  | freshBlankNode
  | labeledBlankNode
  | adoption
  | iri
  | plainLiteral
  | typedLiteral
  | taggedLiteral
  | triple
  | graph
deriving DecidableEq

/-- Name of an operation in error texts. -/
def Capability.name : Capability → String
  | .freshBlankNode => "create_blank_node"
  | .labeledBlankNode => "create_blank_node_with_label"
  | .adoption => "adopt_blank_node"
  | .iri => "create_iri"
  | .plainLiteral => "create_literal"
  | .typedLiteral => "create_typed_literal"
  | .taggedLiteral => "create_language_tagged_literal"
  | .triple => "create_triple"
  | .graph => "create_graph"

/-- The native temporal values with a checked form. -/
inductive CheckedTemporal where
  | localDateTime
  | offsetDateTime
  | localDate
deriving DecidableEq

/-- Name of a checked temporal value in error texts. -/
def CheckedTemporal.name : CheckedTemporal → String
  | .localDateTime => "LocalDateTime"
  | .offsetDateTime => "OffsetDateTime"
  | .localDate => "LocalDate"

/-- Why a term could not be built. -/
inductive TermError where
  | unsupported (operation : Capability)
  | invalidIri (text : String) (fault : Reference.Fault)
  | invalidScope (text : String) (cause : Uuid.ReadError)
  | languageMissing
  | invalidLanguageTag (tag : String)
  | literalSubject (literal : Literal)
  | predicateNotIri (predicate : Term)
  | notIri (term : Term)
  | notBlankNode (term : Term)
  | notLiteral (term : Term)
  | emptyLabel
  | unreadableTemporal (lexical : String) (kind : CheckedTemporal)
  | unknownType
deriving DecidableEq

/-- Whether the error is a missing operation rather than a bad argument. -/
def TermError.isUnsupported : TermError → Bool
  | .unsupported _ => true
  | _ => false

/-- What is wrong with the argument, or which operation is missing. -/
def TermError.detail : TermError → String
  | .unsupported operation => s!"{operation.name} is not supported by this context"
  | .invalidIri text fault => s!"'{text}' is not a valid IRI: {fault.message}"
  | .invalidScope text cause => s!"'{text}' is not a scope: {cause.message}"
  | .languageMissing => "rdf:langString literals require a language tag"
  | .invalidLanguageTag tag => s!"'{tag}' is not a valid language tag"
  | .literalSubject literal => s!"The literal {literal.display} cannot be a subject"
  | .predicateNotIri predicate => s!"The predicate {predicate.display} is not an IRI"
  | .notIri term => s!"{term.display} is not an IRI"
  | .notBlankNode term => s!"{term.display} is not a blank node"
  | .notLiteral term => s!"{term.display} is not a literal"
  | .emptyLabel => "Blank node labels must not be empty"
  | .unreadableTemporal lexical kind => s!"{lexical} is not a valid {kind.name}"
  | .unknownType => "Cannot interpret a value of this type as an RDF literal"

/-- Error text. -/
def TermError.message (e : TermError) : String :=
  if e.isUnsupported then e.detail else s!"Invalid argument: {e.detail}"

end Rdf
