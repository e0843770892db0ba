import Rdf.LexicalValue.Numbers
import Rdf.NativeValue

/-!
Values whose type is found out when they are used. Types are tried one after the other, and each try
gives the value only if the type is the right one.
-/

namespace Rdf

/-- The numbers of a width without negative ones. -/
def LexicalValue.Width.unsignedRange : LexicalValue.Width → Integer.Range
  | .byte => .unsignedByte
  | .short => .unsignedShort
  | .int => .unsignedInt
  | .long => .unsignedLong

/-- The types of native integers: of fixed width with or without negative numbers, and of any
size. -/
inductive IntegerType where
  | signed (w : LexicalValue.Width)
  | unsigned (w : LexicalValue.Width)
  | unbounded
deriving DecidableEq

/-- Whether a number is of the type. -/
def IntegerType.contains : IntegerType → Int → Bool
  | .signed w, n => w.range.contains n
  | .unsigned w, n => w.unsignedRange.contains n
  | .unbounded, _ => true

/-- The types of native values. -/
inductive NativeType where
  | integer (type : IntegerType)
  | decimal
  | float
  | double
  | boolean
  | localDateTime
  | offsetDateTime
  | localDate
  | time
deriving DecidableEq

namespace NativeType

/-- The values of a type. -/
def Value : NativeType → Type
  | .integer type => { n : Int // type.contains n = true }
  | .decimal => Decimal
  | .float | .double => Floating
  | .boolean => Bool
  | .localDateTime | .offsetDateTime => DateTime
  | .localDate => Date
  | .time => TimeOfDay

/-- What a literal takes of a value. Integers of all types have the same literals. -/
def toNative : (type : NativeType) → type.Value → NativeValue
  | .integer _, n => .integer n.val
  | .decimal, d => .decimal d
  | .float, x => .float x
  | .double, x => .double x
  | .boolean, b => .boolean b
  | .localDateTime, t => .localDateTime t
  | .offsetDateTime, t => .offsetDateTime t
  | .localDate, d => .localDate d
  | .time, t => .time t

/-- All native types, in the order in which they are tried. -/
def all : List NativeType :=
  [.integer (.signed .byte), .integer (.signed .short), .integer (.signed .int),
    .integer (.signed .long), .integer (.unsigned .byte), .integer (.unsigned .short),
    .integer (.unsigned .int), .integer (.unsigned .long), .integer .unbounded, .decimal, .float,
    .double, .boolean, .localDateTime, .offsetDateTime, .localDate, .time]

theorem mem_all (type : NativeType) : type ∈ all := by
  cases type with
  | integer type =>
    cases type with
    | signed w => cases w <;> decide
    | unsigned w => cases w <;> decide
    | unbounded => decide
  | _ => decide

end NativeType

/-- The types that are told apart. Strings are owned or borrowed, and all types without literals
count as one. -/
inductive ValueType where
  | string
  | borrowedString
  | dateTime
  | date
  | native (type : NativeType)
  | other
deriving DecidableEq

/-- The values of a type. -/
abbrev ValueType.Value : ValueType → Type
  | .string | .borrowedString => String
  | .dateTime => DateTime
  | .date => Date
  | .native type => type.Value
  | .other => Unit

/-- A value together with its type. -/
structure AnyValue where
  type : ValueType
  value : type.Value

namespace AnyValue

/-- The value, if its type is the one that is tried. -/
def downcast? (v : AnyValue) (type : ValueType) : Option type.Value :=
  if h : v.type = type then some (h ▸ v.value) else none

/-- The native value, if one of the native types is the right one. -/
def native? (v : AnyValue) : Option NativeValue :=
  NativeType.all.findSome? fun type => (v.downcast? (.native type)).map type.toNative

theorem downcast?_self (type : ValueType) (value : type.Value) :
    (mk type value).downcast? type = some value := dif_pos rfl

theorem downcast?_of_ne {v : AnyValue} {type : ValueType} (h : v.type ≠ type) :
    v.downcast? type = none := dif_neg h

/-- A native value is found, whatever its type. -/
theorem native?_native (type : NativeType) (value : type.Value) :
    (mk (.native type) value).native? = some (type.toNative value) := by
  have hself : ((mk (.native type) value).downcast? (.native type)).map type.toNative =
      some (type.toNative value) := by rw [downcast?_self, Option.map_some]
  -- only the try of its own type can have given the value
  obtain ⟨v, hv⟩ : ∃ v, (mk (.native type) value).native? = some v := by
    rw [← Option.isSome_iff_exists, native?, List.findSome?_isSome_iff]
    exact ⟨type, type.mem_all, by rw [hself]; rfl⟩
  obtain ⟨tried, -, htried⟩ := List.exists_of_findSome?_eq_some hv
  by_cases h : type = tried
  · subst h
    rw [hv, ← htried, hself]
  · rw [downcast?_of_ne fun heq => h (ValueType.native.inj heq)] at htried
    cases htried

theorem native?_of_ne {v : AnyValue} (h : ∀ type, v.type ≠ .native type) : v.native? = none := by
  rw [native?, List.findSome?_eq_none_iff]
  intro type _
  rw [downcast?_of_ne (h type), Option.map_none]

/-- A date-time, not yet checked. -/
def dateTime (t : DateTime) : AnyValue := ⟨.dateTime, t⟩

/-- A date, not yet checked. -/
def date (d : Date) : AnyValue := ⟨.date, d⟩

end AnyValue

end Rdf
