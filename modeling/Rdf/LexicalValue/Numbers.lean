import Rdf.LexicalValue.Error
import Rdf.Number.Decimal
import Rdf.Number.FloatReading
import Rdf.Term.Literal

/-!
Reading a lexical form as a number or a truth value. The datatype plays no part.
-/

namespace Rdf.LexicalValue

/-- Reads the lexical form with a reader for the target. -/
def readAs {α : Type} (v : LexicalValue) (target : ReadTarget) (reader : List Char → Option α) :
    Except LexicalError α :=
  LexicalError.orUnreadable v.lexical target (reader v.lexical.toList)

/-- The lexical form as an integer of 8 bits. -/
def byte (v : LexicalValue) : Except LexicalError Int := v.readAs .byte Integer.Range.byte.read?

/-- The lexical form as an integer of 16 bits. -/
def short (v : LexicalValue) : Except LexicalError Int := v.readAs .short Integer.Range.short.read?

/-- The lexical form as an integer of 32 bits. -/
def int (v : LexicalValue) : Except LexicalError Int := v.readAs .int Integer.Range.int.read?

/-- The lexical form as an integer of 64 bits. -/
def long (v : LexicalValue) : Except LexicalError Int := v.readAs .long Integer.Range.long.read?

/-- The fixed widths. -/
inductive Width where
  | byte
  | short
  | int
  | long
deriving DecidableEq

/-- The numbers of a width. -/
def Width.range : Width → Integer.Range
  | .byte => .byte
  | .short => .short
  | .int => .int
  | .long => .long

/-- What a form of a width has to be. -/
def Width.target : Width → ReadTarget
  | .byte => .byte
  | .short => .short
  | .int => .int
  | .long => .long

/-- The lexical form as an integer of a width. -/
def fixed (v : LexicalValue) : Width → Except LexicalError Int
  | .byte => v.byte
  | .short => v.short
  | .int => v.int
  | .long => v.long

/-- The lexical form as an integer of any size. -/
def integer (v : LexicalValue) : Except LexicalError Int := v.readAs .integer Integer.read?

/-- The lexical form as a decimal. -/
def decimal (v : LexicalValue) : Except LexicalError Decimal := v.readAs .decimal Decimal.read?

/-- The lexical form as a floating point number of 32 bits. -/
def float (v : LexicalValue) : Except LexicalError Floating :=
  v.readAs .float FloatFormat.single.read?

/-- The lexical form as a floating point number of 64 bits. -/
def double (v : LexicalValue) : Except LexicalError Floating :=
  v.readAs .double FloatFormat.double.read?

/-- Reads a truth value: one of the two words in any case, or a digit. -/
def readBoolean? (cs : List Char) : Option Bool :=
  let word := cs.map Char.toLower
  if cs = ['1'] ∨ word = "true".toList then some true
  else if cs = ['0'] ∨ word = "false".toList then some false
  else none

/-- The lexical form as a truth value. -/
def boolean (v : LexicalValue) : Except LexicalError Bool := v.readAs .boolean readBoolean?

end Rdf.LexicalValue
