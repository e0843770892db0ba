import Rdf.Number.FloatReading
import Rdf.Proofs.Text.Digits

/-!
# Texts that are no floating point numbers

Behind the sign, a floating point number is one of three words, or digits with at most one point
that go on with an exponent or end. Main statement:

* `FloatFormat.read?_eq_none_of_mark`: a text whose first digits go on with any other mark is
  refused.
-/

namespace Rdf.FloatFormat

variable {cs ds rest : List Char} {c : Char}

/-! ## Signs and words -/

theorem unsign_of_isDigit (hdigits : ∀ c ∈ ds, c.isDigit = true) (hne : ds ≠ []) :
    unsign (ds ++ rest) = (false, ds ++ rest) := by
  obtain ⟨d, ds, rfl⟩ := List.exists_cons_of_ne_nil hne
  have hd : d.isDigit = true := hdigits d List.mem_cons_self
  rw [List.cons_append]
  unfold unsign
  split
  · next heq =>
    obtain ⟨rfl, -⟩ := List.cons.inj heq
    exact absurd hd (by decide)
  · next heq =>
    obtain ⟨rfl, -⟩ := List.cons.inj heq
    exact absurd hd (by decide)
  · rfl

theorem toLower_of_isDigit (h : c.isDigit = true) : c.toLower = c := by
  have hall : ∀ d : Fin 10, (Digits.digit d).toLower = Digits.digit d := by decide
  rw [← Digits.digit_value h]
  exact hall ⟨Digits.value c, Digits.value_lt h⟩

/-- What begins with a digit is none of the words. -/
theorem readSpecial?_of_isDigit (h : c.isDigit = true) (negative : Bool) (cs : List Char) :
    readSpecial? negative (c :: cs) = none := by
  have hword : ∀ w : List Char, w.head?.any Char.isDigit = false →
      (c :: cs).map Char.toLower ≠ w := by
    rintro w hw rfl
    rw [List.map_cons, List.head?_cons, Option.any_some, toLower_of_isDigit h, h] at hw
    cases hw
  unfold readSpecial?
  have hinf := hword "inf".toList (by decide)
  have hinfinity := hword "infinity".toList (by decide)
  have hnan := hword "nan".toList (by decide)
  simp only [hinf, hinfinity, or_self, if_false, hnan]

/-! ## Digits and what follows them -/

/-- A mark that may follow the first digits of a number. -/
def goesOn (c : Char) : Bool := c.isDigit || c = '.' || c = 'e' || c = 'E'

theorem splitPoint_of_mark (hdigits : ∀ c ∈ ds, c.isDigit = true) (hc : goesOn c = false) :
    splitPoint (ds ++ c :: rest) = (ds, [], c :: rest) := by
  simp only [goesOn, Bool.or_eq_false_iff, decide_eq_false_iff_not] at hc
  obtain ⟨⟨⟨hdigit, hpoint⟩, -⟩, -⟩ := hc
  have hstops : Digits.Stops (c :: rest) := fun d hd => Option.some.inj hd ▸ hdigit
  unfold splitPoint
  rw [Digits.span_append hdigits hstops]
  split
  · next heq =>
    obtain ⟨-, htail⟩ := Prod.mk.inj heq
    exact absurd (List.cons.inj htail).1 hpoint
  · next heq =>
    obtain ⟨rfl, rfl⟩ := Prod.mk.inj heq
    rfl

theorem readExponent?_of_mark (hc : goesOn c = false) : readExponent? (c :: rest) = none := by
  simp only [goesOn, Bool.or_eq_false_iff, decide_eq_false_iff_not] at hc
  obtain ⟨⟨-, hlower⟩, hupper⟩ := hc
  exact if_neg (not_or.2 ⟨hlower, hupper⟩)

/-- A text is refused if its first digits, behind a sign, go on with a mark of no number. -/
theorem read?_eq_none_of_mark (f : FloatFormat) (hcs : (unsign cs).2 = ds ++ c :: rest)
    (hdigits : ∀ c ∈ ds, c.isDigit = true) (hne : ds ≠ []) (hc : goesOn c = false) :
    f.read? cs = none := by
  have hspecial : ∀ negative, readSpecial? negative (ds ++ c :: rest) = none := by
    obtain ⟨d, ds, rfl⟩ := List.exists_cons_of_ne_nil hne
    exact fun negative => readSpecial?_of_isDigit (hdigits d List.mem_cons_self) negative _
  unfold read? readFinite?
  simp only [hcs, hspecial, splitPoint_of_mark hdigits hc, readExponent?_of_mark hc]
  simp [hne]

end Rdf.FloatFormat
