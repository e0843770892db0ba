import Rdf.Iri.HostAddress

/-!
The grammar of IRI references, read in one pass from left to right. `check` gives the first fault,
if there is any.
-/

namespace Rdf.Reference

/-- What is wrong with a text that is no IRI reference. -/
inductive Fault where
  | noScheme
  | codePoint (c : Char)
  | percent (found : List Char)
  | hostCharacter (c : Char)
  | hostAddress
  | numberCharacter (c : Char)
deriving DecidableEq

/-- Error text. -/
def Fault.message : Fault → String
  | .noScheme => "No scheme found in an absolute IRI"
  | .codePoint c => s!"Invalid IRI code point '{c}'"
  | .percent found => s!"Invalid IRI percent encoding '%{String.ofList found}'"
  | .hostCharacter c => s!"Invalid character '{c}' in host"
  | .hostAddress => "Invalid host IP (invalid IPv6 address syntax)"
  | .numberCharacter c => s!"Invalid character '{c}'"

/-- ASCII letters, digits and the marks allowed in every part. -/
def isPlain (c : Char) : Bool := c.isAlphanum || "!$&'()*+,-.;=_~".toList.contains c

/-- Ranges of the code points beyond ASCII that are allowed in every part. -/
def wideRanges : List (Nat × Nat) :=
  [(0xA0, 0xD7FF), (0xF900, 0xFDCF), (0xFDF0, 0xFFEF)]
    ++ (List.range 13).map (fun k => ((k + 1) * 0x10000, (k + 1) * 0x10000 + 0xFFFD))
    ++ [(0xE1000, 0xEFFFD)]

/-- Ranges of the private code points, allowed in queries only. -/
def privateRanges : List (Nat × Nat) :=
  [(0xE000, 0xF8FF), (0xF0000, 0xFFFFD), (0x100000, 0x10FFFD)]

/-- Whether the code point of `c` lies in one of the ranges. -/
def inRanges (ranges : List (Nat × Nat)) (c : Char) : Bool :=
  ranges.any fun r => r.1 ≤ c.toNat && c.toNat ≤ r.2

/-- Characters allowed in every part. -/
def isUnit (c : Char) : Bool := isPlain c || inRanges wideRanges c

/-- Characters of a path. -/
def isPathChar (c : Char) : Bool := isUnit c || c = ':' || c = '@' || c = '/'

/-- Characters of a fragment. -/
def isFragmentChar (c : Char) : Bool := isPathChar c || c = '?'

/-- Characters of a query. -/
def isQueryChar (c : Char) : Bool := isFragmentChar c || inRanges privateRanges c

/-- Reads characters of one part up to the first that `stop` marks; `%` takes two hexadecimal
digits with it. Gives the text from the stopping character on. -/
def scan (allowed stop : Char → Bool) : List Char → Except Fault (List Char)
  | [] => .ok []
  | '%' :: rest =>
    if stop '%' then .ok ('%' :: rest)
    else
      match rest with
      | a :: b :: rest =>
        if Hex.isDigit a && Hex.isDigit b then scan allowed stop rest else .error (.percent [a, b])
      | short => .error (.percent short)
  | c :: rest =>
    if stop c then .ok (c :: rest)
    else if allowed c then scan allowed stop rest
    else .error (.codePoint c)

/-- The fragment, up to the end. -/
def fragment (cs : List Char) : Except Fault Unit :=
  (scan isFragmentChar (fun _ => false) cs).map fun _ => ()

/-- The query, and the fragment after it. -/
def query (cs : List Char) : Except Fault Unit := do
  match ← scan isQueryChar (· = '#') cs with
  | _ :: rest => fragment rest
  | [] => .ok ()

/-- The path, and what follows it. -/
def path (cs : List Char) : Except Fault Unit := do
  match ← scan isPathChar (fun c => c = '?' || c = '#') cs with
  | '?' :: rest => query rest
  | _ :: rest => fragment rest
  | [] => .ok ()

/-- Characters that end an authority. -/
def endsAuthority (c : Char) : Bool := c = '/' || c = '?' || c = '#'

/-- The digits after the colon of a host, possibly none, and what follows them. -/
def hostNumber (cs : List Char) : Except Fault Unit :=
  match cs.dropWhile Char.isDigit with
  | [] => .ok ()
  | c :: rest => if endsAuthority c then path (c :: rest) else .error (.numberCharacter c)

/-- An address of a later version, after its `v`: hexadecimal digits, a dot, and plain characters or
colons. -/
def laterAddress (cs : List Char) : Except Fault Unit :=
  let version := cs.takeWhile (· ≠ '.')
  let body := (cs.dropWhile (· ≠ '.')).drop 1
  match version.find? (!Hex.isDigit ·) with
  | some c => .error (.hostCharacter c)
  | none =>
    if version = [] then .error (.hostCharacter (body.headD ']'))
    else if body = [] then .error (.hostCharacter ']')
    else
      match body.find? fun c => !(isPlain c || c = ':') with
      | some c => .error (.hostCharacter c)
      | none => .ok ()

/-- The address between brackets. -/
def bracketed (cs : List Char) : Except Fault Unit :=
  match cs with
  | 'v' :: rest => laterAddress rest
  | 'V' :: rest => laterAddress rest
  | cs => if HostAddress.isAddress cs then .ok () else .error .hostAddress

/-- The host, and what follows it. -/
def host (cs : List Char) : Except Fault Unit :=
  match cs with
  | '[' :: rest =>
    if rest.contains ']' then do
      bracketed (rest.takeWhile (· ≠ ']'))
      match (rest.dropWhile (· ≠ ']')).drop 1 with
      | [] => .ok ()
      | ':' :: rest => hostNumber rest
      | c :: rest => if endsAuthority c then path (c :: rest) else .error (.hostCharacter c)
    else .error (.hostCharacter '[')
  | cs => do
    match ← scan isUnit (fun c => c = ':' || endsAuthority c) cs with
    | ':' :: rest => hostNumber rest
    | rest => path rest

/-- The authority: user information up to an `@`, if there is one, then the host. -/
def authority (cs : List Char) : Except Fault Unit := do
  let stop (c : Char) := c = '@' || c = '[' || endsAuthority c
  match ← scan (fun c => isUnit c || c = ':') stop cs with
  | '@' :: rest => host rest
  | _ => host cs

/-- What follows a scheme, or the start of a relative reference: an authority or a path. -/
def hierarchy (cs : List Char) : Except Fault Unit :=
  match cs with
  | '/' :: '/' :: rest => authority rest
  | cs => path cs

/-- A reference without scheme. Its first segment has no colon. -/
def relative (cs : List Char) : Except Fault Unit :=
  match cs with
  | '/' :: _ => hierarchy cs
  | cs => do
    let rest ← scan (fun c => isUnit c || c = '@') endsAuthority cs
    path rest

/-- The text after a scheme and its colon. -/
def afterScheme? : List Char → Option (List Char)
  | [] => none
  | c :: rest =>
    if c.isAlpha then
      match rest.dropWhile fun c => c.isAlphanum || c = '+' || c = '-' || c = '.' with
      | ':' :: rest => some rest
      | _ => none
    else none

/-- First fault of a text as an IRI reference. -/
def check (cs : List Char) : Except Fault Unit :=
  match cs with
  | ':' :: _ => .error .noScheme
  | cs =>
    match afterScheme? cs with
    | some rest => hierarchy rest
    | none => relative cs

end Rdf.Reference
