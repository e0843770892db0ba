import Rdf.Term.Literal

/-!
Canonical texts: each term as it stands in a line of text, and a triple as such a line. IRIs stand
in angle brackets as they are, blank nodes without their scope, and lexical forms with quotes,
backslashes and line ends escaped.
-/

namespace Rdf

/-- Escaped form of one character of a lexical form. -/
def Literal.escape (c : Char) : List Char :=
  if c = '"' then ['\\', '"']
  else if c = '\\' then ['\\', '\\']
  else if c = '\n' then ['\\', 'n']
  else if c = '\r' then ['\\', 'r']
  else [c]

/-- Canonical characters of a literal with these parts. -/
def LexicalValue.canonical (v : LexicalValue) : List Char :=
  let quoted := '"' :: v.lexical.toList.flatMap Literal.escape ++ ['"']
  match v.language with
  | some tag => quoted ++ '@' :: tag.toList
  | none =>
    if v.datatype = Vocabulary.string.text then quoted
    else quoted ++ '^' :: '^' :: '<' :: v.datatype.toList ++ ['>']

namespace Iri

/-- Canonical characters. -/
def canonical (i : Iri) : List Char := '<' :: i.text.toList ++ ['>']

/-- Canonical text. -/
def display (i : Iri) : String := String.ofList i.canonical

/-- Escaped form of an ASCII character in a text for diagnostics. -/
def debugEscape (c : Char) : List Char :=
  if c = '"' ∨ c = '\\' then ['\\', c]
  else if c = '\n' then ['\\', 'n']
  else if c = '\r' then ['\\', 'r']
  else if c = '\t' then ['\\', 't']
  else if c.toNat = 0 then ['\\', '0']
  else if c.toNat < 32 ∨ c.toNat = 127 then
    '\\' :: 'u' :: '\x7b' :: (Hex.ofNat 2 c.toNat).dropWhile (· = '0') ++ ['\x7d']
  else [c]

/-- Text for diagnostics. Characters beyond ASCII stand as they are. -/
def debug (i : Iri) : String :=
  "Iri(\"" ++ String.ofList (i.text.toList.flatMap debugEscape) ++ "\")"

end Iri

namespace BlankNode

/-- Canonical characters. -/
def canonical (b : BlankNode) : List Char := '_' :: ':' :: b.reference.digits

/-- Canonical text. -/
def display (b : BlankNode) : String := String.ofList b.canonical

end BlankNode

namespace Literal

/-- Canonical characters. -/
def canonical (l : Literal) : List Char := l.parts.canonical

/-- Canonical text. -/
def display (l : Literal) : String := String.ofList l.canonical

end Literal

namespace Term

/-- Canonical characters. -/
def canonical : Term → List Char
  | .iri i => i.canonical
  | .blankNode b => b.canonical
  | .literal l => l.canonical

/-- Canonical text. -/
def display (t : Term) : String := String.ofList t.canonical

end Term

namespace Subject

/-- Canonical text. -/
def display (s : Subject) : String := s.toTerm.display

end Subject

namespace Triple

/-- Canonical characters: the three terms and a dot, with blanks between. -/
def canonical (t : Triple) : List Char :=
  t.subject.toTerm.canonical ++ ' ' :: t.predicate.canonical ++ ' ' :: t.object.canonical
    ++ [' ', '.']

/-- Canonical line, without a line end. -/
def display (t : Triple) : String := String.ofList t.canonical

end Triple

end Rdf
