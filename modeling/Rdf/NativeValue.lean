import Rdf.Error
import Rdf.LexicalValue.Temporals
import Rdf.Number.Decimal
import Rdf.Number.Shortest

/-!
Native values and the literals that stand for them. Date-times and dates are taken only if their
text is read back as the same value.
-/

namespace Rdf

/-- A native value with a canonical literal. -/
inductive NativeValue where
  | integer (n : Int)
  | decimal (d : Decimal)
  | float (x : Floating)
  | double (x : Floating)
  | boolean (b : Bool)
  | time (t : TimeOfDay)
  | localDateTime (t : DateTime)
  | offsetDateTime (t : DateTime)
  | localDate (d : Date)
deriving DecidableEq

namespace NativeValue

/-- Datatype of the literal. -/
def datatype : NativeValue → Iri
  | .integer _ => Vocabulary.integer
  | .decimal _ => Vocabulary.decimal
  | .float _ => Vocabulary.float
  | .double _ => Vocabulary.double
  | .boolean _ => Vocabulary.boolean
  | .time _ => Vocabulary.time
  | .localDateTime _ => Vocabulary.dateTime
  | .offsetDateTime _ => Vocabulary.dateTime
  | .localDate _ => Vocabulary.date

/-- Canonical characters of the value. -/
def canonical : NativeValue → List Char
  | .integer n => Digits.ofInt n
  | .decimal d => d.canonical
  | .float x => FloatFormat.single.print x
  | .double x => FloatFormat.double.print x
  | .boolean true => "true".toList
  | .boolean false => "false".toList
  | .time t => t.print
  | .localDateTime t => t.print
  | .offsetDateTime t => t.print
  | .localDate d => d.print

/-- Canonical lexical form. -/
def lexical (v : NativeValue) : String := String.ofList v.canonical

/-- The literal that stands for the value. -/
def toLiteral (v : NativeValue) : Literal := .typed v.lexical v.datatype

/-- Checks a date or time if its text is read as the same value. -/
def checked (t : Temporal) (kind : CheckedTemporal) (v : NativeValue) :
    Except TermError NativeValue :=
  let lexical := String.ofList t.print
  match Temporal.read lexical with
  | .ok u => if t.sameValue u then .ok v else .error (.unreadableTemporal lexical kind)
  | .error _ => .error (.unreadableTemporal lexical kind)

/-- A date-time without offset. -/
def ofLocalDateTime (t : DateTime) : Except TermError NativeValue :=
  checked (.localDateTime t) .localDateTime (.localDateTime t)

/-- A date-time with an offset. -/
def ofOffsetDateTime (t : DateTime) : Except TermError NativeValue :=
  checked (.offsetDateTime t) .offsetDateTime (.offsetDateTime t)

/-- A date without offset. -/
def ofLocalDate (d : Date) : Except TermError NativeValue :=
  checked (.date d) .localDate (.localDate d)

/-- A date-time of either kind. -/
def ofDateTime (t : DateTime) : Except TermError NativeValue :=
  if t.moment.offset.isSome then ofOffsetDateTime t else ofLocalDateTime t

/-- The temporal value of a checked date-time or date. -/
def temporal? : NativeValue → Option Temporal
  | .localDateTime t => some (.localDateTime t)
  | .offsetDateTime t => some (.offsetDateTime t)
  | .localDate d => some (.date d)
  | _ => none

end NativeValue

end Rdf
