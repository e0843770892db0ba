/-!
Why a lexical form could not be read, and the texts that say so.
-/

namespace Rdf

/-- What a lexical form is read as. -/
inductive ReadTarget where
  | byte
  | short
  | int
  | long
  | integer
  | decimal
  | float
  | double
  | boolean
  | time
  | date
  | dateTime
deriving DecidableEq

/-- Name of a target in error texts. -/
def ReadTarget.name : ReadTarget → String
  | .byte => "xsd:byte"
  | .short => "xsd:short"
  | .int => "xsd:int"
  | .long => "xsd:long"
  | .integer => "xsd:integer"
  | .decimal => "xsd:decimal"
  | .float => "xsd:float"
  | .double => "xsd:double"
  | .boolean => "xsd:boolean"
  | .time => "xsd:time"
  | .date => "xsd:date"
  | .dateTime => "xsd:dateTime"

/-- Why a lexical form could not be read. -/
inductive LexicalError where
  | unreadable (lexical : String) (target : ReadTarget)
  | shapeless (lexical : String)
deriving DecidableEq

/-- Error text. -/
def LexicalError.message : LexicalError → String
  | .unreadable lexical target => s!"Cannot parse '{lexical}' as {target.name}"
  | .shapeless lexical => s!"Cannot infer a temporal shape from '{lexical}'"

/-- What was read of a lexical form, or the error that it is not a form of the target. -/
def LexicalError.orUnreadable {α : Type} (lexical : String) (target : ReadTarget) :
    Option α → Except LexicalError α
  | some a => .ok a
  | none => .error (.unreadable lexical target)

end Rdf
