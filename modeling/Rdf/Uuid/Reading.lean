import Rdf.Uuid.Basic

/-!
Reading identifiers: 32 digits, or the hyphenated form, bare, in braces or after `urn:uuid:`.
A text that is none of these is looked at again to say what is wrong with it.
-/

namespace Rdf.Uuid

/-- Why a text is no identifier. Lengths and positions count UTF-8 bytes. -/
inductive ReadError where
  | length (found : Nat)
  | character (found : Char) (position : Nat)
  | groupCount (found : Nat)
  | groupLength (group expected found : Nat)
deriving DecidableEq

/-- Error text. -/
def ReadError.message : ReadError → String
  | .length found => s!"invalid length: found {found}"
  | .character found position => s!"invalid character: found `{found}` at {position}"
  | .groupCount found => s!"invalid group count: expected 5, found {found}"
  | .groupLength group expected found =>
    s!"invalid group length in group {group}: expected {expected}, found {found}"

/-- UTF-8 length of a text. -/
def byteLength (cs : List Char) : Nat := cs.foldl (fun n c => n + c.utf8Size) 0

/-- The rest of `cs` after `start`, compared without regard to ASCII case. -/
def dropIgnoringCase : (start cs : List Char) → Option (List Char)
  | [], cs => some cs
  | _ :: _, [] => none
  | s :: start, c :: cs => if s = c.toLower then dropIgnoringCase start cs else none

/-- The text that announces an identifier in a name. -/
def urn : List Char := "urn:uuid:".toList

/-- The text between braces. -/
def unbrace? : List Char → Option (List Char)
  | '\x7b' :: rest => if rest.getLast? = some '\x7d' then some rest.dropLast else none
  | _ => none

/-- Reads groups of the given lengths, each of hexadecimal digits, with hyphens between. -/
def readGroups : (lengths : List Nat) → List Char → Option (List Char)
  | [], cs => if cs = [] then some [] else none
  | n :: lengths, cs =>
    let group := cs.take n
    if group.length = n ∧ group.all Hex.isDigit then
      match lengths, cs.drop n with
      | [], rest => if rest = [] then some group else none
      | _ :: _, '-' :: rest => (readGroups lengths rest).map (group ++ ·)
      | _ :: _, _ => none
    else none

/-- Group lengths of the hyphenated form. -/
def groupLengths : List Nat := [8, 4, 4, 4, 12]

/-- Reads the hyphenated form. -/
def readHyphenated? (cs : List Char) : Option Uuid :=
  ((readGroups groupLengths cs).bind Hex.toNat?).map ofNat

/-- Reads 32 digits. -/
def readSimple? (cs : List Char) : Option Uuid :=
  if cs.length = 32 then (Hex.toNat? cs).map ofNat else none

/-- Byte positions of the hyphens, or the first character that cannot occur. -/
def hyphens : (position : Nat) → List Char → Except ReadError (List Nat)
  | _, [] => .ok []
  | position, c :: cs =>
    if c = '-' then (hyphens (position + 1) cs).map (position :: ·)
    else if Hex.isDigit c then hyphens (position + 1) cs
    else .error (.character c position)

/-- First group, from number `group` on, that does not end where it should. -/
def misplaced (offset : Nat) : (group start : Nat) → (lengths ends : List Nat) → Option ReadError
  | group, start, expected :: lengths, stop :: ends =>
    if stop = offset + start + expected then
      misplaced offset (group + 1) (start + expected + 1) lengths ends
    else some (.groupLength group expected (stop - offset - start))
  | _, _, _, _ => none

/-- What is wrong with a text of `length` bytes in all whose part `cs` after `offset` bytes should
be digits, in hyphenated groups if `grouped`. -/
def diagnose (length offset : Nat) (grouped : Bool) (cs : List Char) : ReadError :=
  match hyphens offset cs with
  | .error e => e
  | .ok ends =>
    if ends = [] ∧ !grouped then .length length
    else if ends.length ≠ 4 then .groupCount (ends.length + 1)
    else (misplaced offset 0 0 [8, 4, 4, 4] ends).getD (.groupLength 4 12 (length - 24))

/-- Explains why a text could not be read. A text as long as the hyphenated form is looked at
whole, also within a frame; one whose inner part is as long as that form, as that part alone. -/
def explain (cs : List Char) : ReadError :=
  let length := byteLength cs
  if length = 0 ∨ 45 < length then .length length
  else if length = 36 then diagnose 36 0 true cs
  else
    match unbrace? cs, dropIgnoringCase urn cs with
    | some inner, _ =>
      if length = 38 then diagnose 36 0 true inner else diagnose length 1 true inner
    | none, some inner =>
      if length = 45 then diagnose 36 0 true inner else diagnose length 9 true inner
    | none, none => diagnose length 0 false cs

/-- Reads an identifier in any of its forms. -/
def read (s : String) : Except ReadError Uuid :=
  let cs := s.toList
  let inner := (unbrace? cs).orElse fun _ => dropIgnoringCase urn cs
  match (readSimple? cs).orElse fun _ => readHyphenated? (inner.getD cs) with
  | some u => .ok u
  | none => .error (explain cs)

end Rdf.Uuid
