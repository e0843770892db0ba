import Rdf.LexicalValue.Numbers
import Rdf.LexicalValue.Temporals
import Rdf.Term.Canonical

/-!
Reading a lexical form as the kind of value that its datatype asks for.
-/

namespace Rdf

/-- How forms with a datatype of dates and times are read. -/
inductive TemporalReading where
  | asDouble
  | asTemporal
deriving DecidableEq

/-- A value whose kind depends on the datatype. -/
inductive DynamicValue where
  | integer (n : Int)
  | long (n : Int)
  | decimal (d : Decimal)
  | float (x : Floating)
  | double (x : Floating)
  | temporal (t : Temporal)
  | text (s : String)
deriving DecidableEq

/-- Whether two values are of one kind and equal. -/
def DynamicValue.sameValue : DynamicValue → DynamicValue → Bool
  | .integer a, .integer b => a = b
  | .long a, .long b => a = b
  | .decimal a, .decimal b => a.equals b
  | .float a, .float b => a.sameNumber b
  | .double a, .double b => a.sameNumber b
  | .temporal a, .temporal b => a.sameValue b
  | .text a, .text b => a = b
  | _, _ => false

/-- A string, a floating point number, or the canonical text of another literal. -/
inductive ObjectValue where
  | text (s : String)
  | float (x : Floating)
  | double (x : Floating)
  | encoded (s : String)
deriving DecidableEq

/-- Whether two values are of one kind and equal. -/
def ObjectValue.sameValue : ObjectValue → ObjectValue → Bool
  | .text a, .text b => a = b
  | .float a, .float b => a.sameNumber b
  | .double a, .double b => a.sameNumber b
  | .encoded a, .encoded b => a = b
  | _, _ => false

namespace LexicalValue

/-- Whether the datatype is one of the given. -/
def hasDatatype (v : LexicalValue) (datatypes : List Iri) : Bool :=
  datatypes.any (·.text = v.datatype)

/-- The value that the datatype asks for. -/
def dynamic (v : LexicalValue) (reading : TemporalReading) : Except LexicalError DynamicValue :=
  if v.hasDatatype Vocabulary.unboundedIntegers then v.integer.map .integer
  else if v.hasDatatype Vocabulary.fixedWidthIntegers then v.long.map .long
  else if v.hasDatatype [Vocabulary.decimal] then v.decimal.map .decimal
  else if v.hasDatatype [Vocabulary.float] then v.float.map .float
  else if v.hasDatatype [Vocabulary.double] then v.double.map .double
  else if v.hasDatatype Vocabulary.temporals then
    match reading with
    | .asDouble => v.double.map .double
    | .asTemporal => v.temporal.map .temporal
  else .ok (.text v.lexical)

/-- Strings and floating point numbers as such, everything else as canonical text. -/
def object (v : LexicalValue) : Except LexicalError ObjectValue :=
  if v.hasDatatype [Vocabulary.string] then .ok (.text v.lexical)
  else if v.hasDatatype [Vocabulary.float] then v.float.map .float
  else if v.hasDatatype [Vocabulary.double] then v.double.map .double
  else .ok (.encoded (String.ofList v.canonical))

end LexicalValue

end Rdf
