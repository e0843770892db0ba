import Rdf.LexicalValue.Error
import Rdf.Temporal.Printing
import Rdf.Term.Literal

/-!
Reading a lexical form as a date or time whose kind is told from the shape of the form.
-/

namespace Rdf

/-- A date or time, with the kinds that have an offset told apart from those that have none. -/
inductive Temporal where
  | offsetTime (t : TimeOfDay)
  | localTime (t : TimeOfDay)
  | offsetDateTime (t : DateTime)
  | localDateTime (t : DateTime)
  | date (d : Date)
deriving DecidableEq, Inhabited

namespace Temporal

/-- Text of the value. -/
def print : Temporal → List Char
  | .offsetTime t => t.print
  | .localTime t => t.print
  | .offsetDateTime t => t.print
  | .localDateTime t => t.print
  | .date d => d.print

/-- Whether two values are of one kind and the same instant. -/
def sameValue : Temporal → Temporal → Bool
  | .offsetTime a, .offsetTime b => a.moment.sameInstant b.moment
  | .localTime a, .localTime b => a.moment.sameInstant b.moment
  | .offsetDateTime a, .offsetDateTime b => a.moment.sameInstant b.moment
  | .localDateTime a, .localDateTime b => a.moment.sameInstant b.moment
  | .date a, .date b => a.moment.sameInstant b.moment
  | _, _ => false

/-- The kinds of form that are told apart by shape. -/
inductive Shape where
  | time (offset : Bool)
  | dateTime (offset : Bool)
  | date
deriving DecidableEq

/-- Shape of a form: a colon in third place is a time, with an offset if a sign or a `Z` occurs; of
the others, more than nineteen characters are a date and time with an offset, more than ten one
without, and the rest a date. Forms of fewer than three characters have no shape. -/
def shape? (cs : List Char) : Option Shape :=
  match cs with
  | _ :: _ :: c :: _ =>
    if c = ':' then some (.time (cs.any fun c => c = '+' || c = '-' || c = 'Z'))
    else if 19 < cs.length then some (.dateTime true)
    else if 10 < cs.length then some (.dateTime false)
    else some .date
  | _ => none

/-- Reads a time of day; a form with a sign or a `Z` has to have an offset. -/
def readTime? (offset : Bool) (cs : List Char) : Option Temporal := do
  let t ← TimeOfDay.read? cs
  if offset then if t.moment.offset.isSome then some (.offsetTime t) else none
  else some (.localTime t)

/-- Reads a date with a time, with an offset or without. -/
def readDateTime? (offset : Bool) (cs : List Char) : Option Temporal := do
  let t ← DateTime.read? cs
  if t.moment.offset.isSome ≠ offset then none
  else some (if offset then .offsetDateTime t else .localDateTime t)

/-- Reads a form according to its shape. -/
def read (lexical : String) : Except LexicalError Temporal :=
  let cs := lexical.toList
  match shape? cs with
  | none => .error (.shapeless lexical)
  | some (.time offset) => LexicalError.orUnreadable lexical .time (readTime? offset cs)
  | some (.dateTime offset) => LexicalError.orUnreadable lexical .dateTime (readDateTime? offset cs)
  | some .date => LexicalError.orUnreadable lexical .date ((Date.read? cs).map .date)

end Temporal

/-- The lexical form as a date or time. -/
def LexicalValue.temporal (v : LexicalValue) : Except LexicalError Temporal :=
  Temporal.read v.lexical

end Rdf
