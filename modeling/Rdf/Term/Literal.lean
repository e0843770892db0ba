import Rdf.Vocabulary

/-!
The parts of a literal: lexical form, datatype and language.
-/

namespace Rdf

namespace Literal

/-- The lexical form. -/
def lexical : Literal → String
  | .plain s => s
  | .tagged s _ => s
  | .typed s _ => s

/-- The language tag. -/
def language : Literal → Option String
  | .tagged _ tag => some tag
  | _ => none

/-- The datatype. -/
def datatype : Literal → Iri
  | .plain _ => Vocabulary.string
  | .tagged _ _ => Vocabulary.langString
  | .typed _ d => d

/-- Whether the literal is a plain string. -/
def isPlain : Literal → Bool
  | .plain _ => true
  | _ => false

end Literal

/-- The parts of a literal that its interpretation looks at. Any three texts are allowed. -/
structure LexicalValue where
  lexical : String
  datatype : String
  language : Option String
deriving DecidableEq, Inhabited

/-- The parts of a literal. -/
def Literal.parts (l : Literal) : LexicalValue := ⟨l.lexical, l.datatype.text, l.language⟩

end Rdf
