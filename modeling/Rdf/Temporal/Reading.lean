import Rdf.Temporal.Moment

/-!
Reading dates and times: `YYYY-MM-DD`, `hh:mm:ss` with an optional fraction, both joined by `T`,
each with an optional offset at the end. Readers of parts give the value and the text that follows.
-/

namespace Rdf

namespace TemporalText

/-- The text after an expected character. -/
def expect? (c : Char) : List Char → Option (List Char)
  | d :: cs => if d = c then some cs else none
  | [] => none

/-- A number of exactly two digits. -/
def pair? (cs : List Char) : Option (Nat × List Char) :=
  let (ds, rest) := Digits.span cs
  if ds.length = 2 then some (Digits.toNat ds, rest) else none

/-- A number of exactly two digits between two bounds. -/
def pairIn? (low high : Nat) (cs : List Char) : Option (Nat × List Char) :=
  (pair? cs).filter fun r => low ≤ r.1 && r.1 ≤ high

/-- The sign in front, if it is a minus, and the rest. -/
def unsign : List Char → Bool × List Char
  | '-' :: cs => (true, cs)
  | cs => (false, cs)

/-- A year of at least four digits, of more only without a leading zero. -/
def year? (cs : List Char) : Option (Int × List Char) :=
  let (negative, cs) := unsign cs
  let (ds, rest) := Digits.span cs
  let padded := 4 < ds.length ∧ ds.head? = some '0'
  let n : Int := Digits.toNat ds
  if ds.length < 4 ∨ padded ∨ ¬Integer.Range.long.contains n then none
  else some (if negative then -n else n, rest)

/-- A day that exists. -/
def day? (cs : List Char) : Option (Calendar.Day × List Char) := do
  let (year, cs) ← year? cs
  let cs ← expect? '-' cs
  let (month, cs) ← pairIn? 1 12 cs
  let cs ← expect? '-' cs
  let (day, cs) ← pairIn? 1 (Calendar.daysInMonth year month) cs
  some (⟨year, month, day⟩, cs)

/-- A text without the zeros at its end. -/
def dropZeros (cs : List Char) : List Char := (cs.reverse.dropWhile (· = '0')).reverse

/-- Ticks in a fraction of a second with the given digits: at most eighteen, zeros at the end
apart. -/
def fraction? (ds : List Char) : Option Nat :=
  let ds := dropZeros ds
  if 18 < ds.length then none else some (Digits.toNat ds * Nat.pow 10 (18 - ds.length))

/-- Seconds below sixty with an optional fraction, in ticks. -/
def seconds? (cs : List Char) : Option (Nat × List Char) := do
  let (whole, cs) ← pairIn? 0 59 cs
  match cs with
  | '.' :: rest =>
    let (ds, rest) := Digits.span rest
    let part ← if ds = [] then none else fraction? ds
    some (whole * ticksPerSecond.toNat + part, rest)
  | rest => some (whole * ticksPerSecond.toNat, rest)

/-- Hour, minute and ticks of a time of day. -/
structure Clock where
  hour : Nat
  minute : Nat
  ticks : Nat

/-- A time of day, midnight at the end of the day included. -/
def clock? (cs : List Char) : Option (Clock × List Char) := do
  let (hour, cs) ← pairIn? 0 24 cs
  let cs ← expect? ':' cs
  let (minute, cs) ← pairIn? 0 59 cs
  let cs ← expect? ':' cs
  let (ticks, cs) ← seconds? cs
  if hour = 24 ∧ (minute ≠ 0 ∨ ticks ≠ 0) then none else some (⟨hour, minute, ticks⟩, cs)

/-- Hours and minutes of an offset of at most fourteen hours, in minutes. -/
def offsetMinutes? (cs : List Char) : Option (Int × List Char) := do
  let (hours, cs) ← pair? cs
  let cs ← expect? ':' cs
  let (minutes, cs) ← pairIn? 0 59 cs
  if 13 < hours ∧ ¬(hours = 14 ∧ minutes = 0) then none
  else some (((hours * 60 + minutes : Nat) : Int), cs)

/-- The offset at the end of a text, if there is one; nothing may follow it. -/
def ending? : List Char → Option (Option Int)
  | [] => some none
  | ['Z'] => some (some 0)
  | c :: cs => do
    let (minutes, rest) ← if c = '+' ∨ c = '-' then offsetMinutes? cs else none
    if rest = [] then some (some (if c = '-' then -minutes else minutes)) else none

end TemporalText

open TemporalText

/-- Reads a date with a time of day. -/
def DateTime.read? (cs : List Char) : Option DateTime := do
  let (day, cs) ← day? cs
  let cs ← expect? 'T' cs
  let (clock, cs) ← clock? cs
  let offset ← ending? cs
  (Moment.ofFields? day clock.hour clock.minute clock.ticks offset).map DateTime.mk

/-- Reads a date. -/
def Date.read? (cs : List Char) : Option Date := do
  let (day, cs) ← day? cs
  let offset ← ending? cs
  (Moment.ofFields? day 0 0 0 offset).map Date.mk

/-- The day on which times of day are placed. -/
def TimeOfDay.referenceDay : Calendar.Day := ⟨1972, 12, 31⟩

/-- Reads a time of day. Midnight at the end of the day is that at its start. -/
def TimeOfDay.read? (cs : List Char) : Option TimeOfDay := do
  let (clock, cs) ← clock? cs
  let offset ← ending? cs
  let hour := if clock.hour = 24 then 0 else clock.hour
  (Moment.ofFields? referenceDay hour clock.minute clock.ticks offset).map TimeOfDay.mk

end Rdf
