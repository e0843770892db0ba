/-!
The order of texts by code point, which is also the order of their UTF-8 forms.
-/

namespace Rdf.Text

/-- Order of two natural numbers. -/
def compareNat (a b : Nat) : Ordering :=
  if a < b then .lt else if a = b then .eq else .gt

/-- Lexicographic order by code point, a shorter text before its continuations. -/
def compareChars : List Char → List Char → Ordering
  | [], [] => .eq
  | [], _ :: _ => .lt
  | _ :: _, [] => .gt
  | a :: as, b :: bs => (compareNat a.toNat b.toNat).then (compareChars as bs)

/-- Order of two strings by code point. -/
def compare (a b : String) : Ordering := compareChars a.toList b.toList

end Rdf.Text
