import Rdf.Text.Digits
import Rdf.Text.Hex

/-!
The textual form of 128-bit host addresses: eight groups of up to four hexadecimal digits, one run
of zero groups left out as `::`, the last two groups possibly as four decimal numbers.
-/

namespace Rdf.HostAddress

/-- One decimal number of the dotted form: at most three digits, at most 255, no leading zero. -/
def octet? (cs : List Char) : Option (List Char) :=
  let (ds, rest) := Digits.span cs
  let padded := 1 < ds.length ∧ ds.head? = some '0'
  if ds = [] ∨ 3 < ds.length ∨ padded ∨ 255 < Digits.toNat ds then none else some rest

/-- The given number of decimal numbers, with dots between. -/
def octets? : (count : Nat) → List Char → Option (List Char)
  | 0, cs => some cs
  | 1, cs => octet? cs
  | count + 2, cs =>
    match octet? cs with
    | some ('.' :: rest) => octets? (count + 1) rest
    | _ => none

/-- Four decimal numbers with dots between. -/
def dotted? (cs : List Char) : Option (List Char) := octets? 4 cs

/-- One group of one to four hexadecimal digits. -/
def group? (cs : List Char) : Option (List Char) :=
  let ds := cs.takeWhile Hex.isDigit
  if ds = [] ∨ 4 < ds.length then none else some (cs.dropWhile Hex.isDigit)

/-- The colon in front of every group but the first. -/
def separator? (first : Bool) (cs : List Char) : Option (List Char) :=
  if first then some cs
  else
    match cs with
    | ':' :: rest => some rest
    | _ => none

/-- Groups read so far, whether the last two were dotted, and the text that follows. -/
structure Groups where
  count : Nat
  dotted : Bool
  rest : List Char

/-- As many groups as there are, at most `limit` more after the first `done`. -/
def groups (done : Nat) : (limit : Nat) → List Char → Groups
  | 0, cs => ⟨done, false, cs⟩
  | limit + 1, cs =>
    match separator? (done = 0) cs with
    | none => ⟨done, false, cs⟩
    | some start =>
      match (if limit = 0 then none else dotted? start) with
      | some rest => ⟨done + 2, true, rest⟩
      | none =>
        match group? start with
        | some rest => groups (done + 1) limit rest
        | none => ⟨done, false, cs⟩

/-- Whether the whole text is an address. -/
def isAddress (cs : List Char) : Bool :=
  let front := groups 0 8 cs
  if front.count = 8 then front.rest.isEmpty
  else if front.dotted then false
  else
    match front.rest with
    | ':' :: ':' :: rest => (groups 0 (7 - front.count) rest).rest.isEmpty
    | _ => false

end Rdf.HostAddress
