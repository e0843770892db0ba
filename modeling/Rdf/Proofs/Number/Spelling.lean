import Mathlib.Algebra.Order.Field.Rat
import Mathlib.Tactic.FieldSimp
import Mathlib.Tactic.NormNum
import Mathlib.Tactic.Ring
import Rdf.Number.Decimal
import Rdf.Proofs.Number.Integer

/-!
# Spellings of decimal numbers

A decimal number is spelled with an optional sign, digits, and an optional point with more digits
behind it. One of the two runs of digits may be empty, but not both. `Spelling` has these parts and
says which number they denote; one number has many spellings, and one of them is canonical. Main
statements:

* `Spelling.read?_text`: every spelling is read, with a scale that is the number of its places;
* `Spelling.value_eq`: the unscaled number and the scale give the number that is denoted;
* `exists_spelling_ofInt`: the text of an integer is its canonical spelling.
-/

namespace Rdf

open Digits (toNat)

/-! ## Signs -/

/-- What stands in front of the digits of a number. -/
inductive Sign where
  | none
  | plus
  | minus
deriving DecidableEq

namespace Sign

/-- Text of a sign. -/
def text : Sign → List Char
  | none => []
  | plus => ['+']
  | minus => ['-']

/-- The number with the sign in front of a natural number. -/
def signed (s : Sign) (n : Nat) : Int := Integer.signed (s = minus) n

/-- The sign that integers are written with. -/
def ofInt (n : Int) : Sign := if n < 0 then minus else none

variable {s : Sign} {n : Int}

theorem mem_text {c : Char} (h : c ∈ s.text) : c = '+' ∨ c = '-' := by
  cases s <;> simp_all [text]

theorem ofInt_ne_plus (n : Int) : ofInt n ≠ plus := by
  unfold ofInt
  split <;> decide

theorem natAbs_pos_of_minus (h : ofInt n = minus) : 0 < n.natAbs := by
  unfold ofInt at h
  split at h
  · omega
  · cases h

theorem signed_ofInt (n : Int) : (ofInt n).signed n.natAbs = n := by
  unfold ofInt
  split
  · next hneg =>
    have hsigned : minus.signed n.natAbs = -(n.natAbs : Int) := rfl
    rw [hsigned]
    omega
  · next hpos =>
    have hsigned : none.signed n.natAbs = n.natAbs := rfl
    rw [hsigned]
    omega

theorem natAbs_signed (s : Sign) (m : Nat) : (s.signed m).natAbs = m := by
  cases s <;> simp [signed, Integer.signed]

/-- Apart from zero, no number has two signs without plus. -/
theorem eq_of_signed_eq {s' : Sign} {m : Nat} (hs : s ≠ plus) (hs' : s' ≠ plus) (hm : 0 < m)
    (h : s.signed m = s'.signed m) : s = s' := by
  have hnone : none.signed m = m := rfl
  have hminus : minus.signed m = -(m : Int) := rfl
  cases s with
  | plus => exact absurd rfl hs
  | none =>
    cases s' with
    | none => rfl
    | plus => exact absurd rfl hs'
    | minus =>
      rw [hnone, hminus] at h
      omega
  | minus =>
    cases s' with
    | minus => rfl
    | plus => exact absurd rfl hs'
    | none =>
      rw [hnone, hminus] at h
      omega

theorem signed_mul (s : Sign) (m k : Nat) : s.signed (m * k) = s.signed m * k := by
  cases s <;> simp [signed, Integer.signed]

theorem text_ofInt (n : Int) : (ofInt n).text ++ Digits.ofNat n.natAbs = Digits.ofInt n := by
  cases n with
  | ofNat n =>
    have hsign : ofInt (.ofNat n) = none := if_neg (Int.not_lt.2 (Int.natCast_nonneg n))
    rw [hsign]
    rfl
  | negSucc n =>
    have hsign : ofInt (.negSucc n) = minus := if_pos (Int.negSucc_lt_zero n)
    rw [hsign]
    rfl

end Sign

theorem head?_ne_of_isDigit {ds : List Char} {c : Char} (hdigits : ∀ d ∈ ds, d.isDigit = true)
    (hc : c.isDigit = false) : ds.head? ≠ some c := by
  intro hhead
  have hdigit := hdigits c (List.mem_of_head? hhead)
  rw [hc] at hdigit
  cases hdigit

namespace Integer

variable {ds : List Char}

theorem readSpaced?_of_isDigit (hdigits : ∀ c ∈ ds, c.isDigit = true) (hne : ds ≠ []) :
    readSpaced? ds = some (toNat ds) :=
  (read?_digits_eq_some_iff.1 (Digits.read?_eq_some_iff.2 ⟨hne, hdigits, rfl⟩)).1

/-- Digits with a sign in front are read as the number that they denote. -/
theorem read?_sign_append (s : Sign) (hdigits : ∀ c ∈ ds, c.isDigit = true) (hne : ds ≠ []) :
    read? (s.text ++ ds) = some (s.signed (toNat ds)) := by
  have hread := readSpaced?_of_isDigit hdigits hne
  have hplus : ds.head? ≠ some '+' := head?_ne_of_isDigit hdigits (by decide)
  have hminus : ds.head? ≠ some '-' := head?_ne_of_isDigit hdigits (by decide)
  cases s with
  | none =>
    rw [Sign.text, List.nil_append, read?_unsigned hplus hminus, hread]
    rfl
  | plus =>
    rw [Sign.text, List.singleton_append, read?_plus, hread]
    rfl
  | minus =>
    rw [Sign.text, List.singleton_append, read?_minus hplus, hread]
    rfl

/-- Integers are read back from their texts. -/
theorem read?_ofInt (n : Int) : read? (Digits.ofInt n) = some n := by
  have hdigits : ∀ c ∈ Digits.ofNat n.natAbs, c.isDigit = true :=
    fun _ => Digits.isDigit_of_mem_ofNat
  have hne : Digits.ofNat n.natAbs ≠ [] := List.ne_nil_of_length_pos (Digits.length_ofNat_pos _)
  rw [← Sign.text_ofInt, read?_sign_append _ hdigits hne, Digits.toNat_ofNat, Sign.signed_ofInt]

end Integer

/-! ## Spellings -/

/-- A way to write a decimal number: a sign, digits, and perhaps a point with more digits. -/
structure Spelling where
  sign : Sign
  whole : List Char
  places : Option (List Char)
  isDigit : ∀ c ∈ whole ++ places.getD [], c.isDigit = true
  ne_nil : whole ++ places.getD [] ≠ []

namespace Spelling

variable (p : Spelling) {c : Char}

/-- The digits behind the point. -/
def fraction : List Char := p.places.getD []

/-- All digits. -/
def digits : List Char := p.whole ++ p.fraction

/-- The point and the digits behind it. -/
def ending : List Char :=
  match p.places with
  | none => []
  | some ds => '.' :: ds

/-- Text of a spelling. -/
def text : List Char := p.sign.text ++ p.whole ++ p.ending

/-- The number that a spelling denotes. -/
def value : ℚ :=
  (match p.sign with
    | .minus => -1
    | _ => 1) * (toNat p.whole + toNat p.fraction / 10 ^ p.fraction.length)

/-- The decimal with the unscaled number and the places as they stand in a spelling. -/
def decimal : Decimal := ⟨p.sign.signed (toNat p.digits), p.fraction.length⟩

/-- The canonical spelling of a number has no plus sign, no zeros that could be left out in front or
behind, no point behind which nothing stands, and no minus sign in front of zero. -/
structure IsCanonical : Prop where
  not_plus : p.sign ≠ .plus
  whole_ne_nil : p.whole ≠ []
  no_leading_zero : p.whole.head? = some '0' → p.whole = ['0']
  places_ne_nil : p.places ≠ some []
  no_trailing_zero : p.fraction.getLast? ≠ some '0'
  not_minus_zero : p.text ≠ ['-', '0']

/-! ## Reading -/

theorem mem_text (h : c ∈ p.text) : c = '+' ∨ c = '-' ∨ c = '.' ∨ c.isDigit = true := by
  have hdigit := p.isDigit c
  unfold text ending at h
  simp only [List.mem_append] at h hdigit
  rcases h with (h | h) | h
  · exact (Sign.mem_text h).imp_right .inl
  · exact .inr (.inr (.inr (hdigit (.inl h))))
  · cases hplaces : p.places with
    | none => simp [hplaces] at h
    | some ds =>
      simp only [hplaces, List.mem_cons, Option.getD_some] at h hdigit
      exact .inr (.inr (h.imp_right fun hmem => hdigit (.inr hmem)))

theorem not_startsExponent_of_mem (h : c ∈ p.text) : Decimal.startsExponent c = false := by
  unfold Decimal.startsExponent
  rcases p.mem_text h with rfl | rfl | rfl | hdigit
  · decide
  · decide
  · decide
  · rw [← Digits.digit_value hdigit]
    have hall : ∀ d : Fin 10, (Digits.digit d = 'e' || Digits.digit d = 'E') = false := by decide
    exact hall ⟨_, Digits.value_lt hdigit⟩

theorem text_ne_nil : p.text ≠ [] := by
  have hne := p.ne_nil
  unfold text ending
  cases hplaces : p.places with
  | none =>
    rw [hplaces, Option.getD_none, List.append_nil] at hne
    simp [hne]
  | some ds => simp

theorem length_fraction_le_length_text : p.fraction.length ≤ p.text.length := by
  unfold text ending fraction
  cases p.places with
  | none => exact Nat.zero_le _
  | some ds =>
    simp only [Option.getD_some, List.length_append, List.length_cons]
    omega

theorem takeWhile_text : p.text.takeWhile (· ≠ '.') = p.sign.text ++ p.whole := by
  have hlead : ∀ c ∈ p.sign.text ++ p.whole, decide (c ≠ '.') = true := by
    intro c hc
    rw [decide_eq_true_eq]
    rintro rfl
    rcases List.mem_append.1 hc with hc | hc
    · exact absurd (Sign.mem_text hc) (by decide)
    · exact absurd (p.isDigit _ (List.mem_append_left _ hc)) (by decide)
  unfold text ending
  rw [List.takeWhile_append_of_pos hlead]
  cases p.places <;> simp

theorem dropWhile_text : (p.text.dropWhile (· ≠ '.')).drop 1 = p.fraction := by
  have hsplit := List.takeWhile_append_dropWhile (p := (· ≠ '.')) (l := p.text)
  rw [takeWhile_text] at hsplit
  rw [List.append_cancel_left hsplit, ending, fraction]
  cases p.places <;> rfl

/-- The unscaled number consists of all digits, and the digits behind the point are counted. -/
theorem readPointed?_text : Decimal.readPointed? p.text =
    some (p.sign.signed (toNat p.digits), p.fraction.length) := by
  have hunderscore : '_' ∉ p.fraction := fun hmem =>
    absurd (p.isDigit _ (List.mem_append_right _ hmem)) (by decide)
  unfold Decimal.readPointed?
  simp only [takeWhile_text, dropWhile_text, List.append_assoc]
  have hread : Integer.read? (p.sign.text ++ (p.whole ++ p.fraction)) =
      some (p.sign.signed (toNat p.digits)) := Integer.read?_sign_append _ p.isDigit p.ne_nil
  rw [hread, Integer.filter_underscores hunderscore]
  rfl

/-- Every spelling is read, as long as its places can be counted in 64 bits. -/
theorem read?_text (h : Integer.Range.long.contains p.fraction.length = true) :
    Decimal.read? p.text = some p.decimal := by
  have hbase : p.text.takeWhile (!Decimal.startsExponent ·) = p.text := by
    rw [List.takeWhile_eq_self_iff]
    intro c hc
    rw [p.not_startsExponent_of_mem hc]
    rfl
  have hexponent : p.text.dropWhile (!Decimal.startsExponent ·) = [] := by
    have hsplit := List.takeWhile_append_dropWhile (p := (!Decimal.startsExponent ·)) (l := p.text)
    rw [hbase] at hsplit
    exact List.append_right_eq_self.1 hsplit
  unfold Decimal.read?
  simp only [hbase, hexponent, Decimal.readExponent?, if_neg p.text_ne_nil, readPointed?_text,
    Option.bind_eq_bind, Option.bind_some, sub_zero, if_pos h]
  rfl

/-! ## Values -/

/-- The unscaled number and the scale give the number that is denoted. -/
theorem value_eq : p.value = (p.sign.signed (toNat p.digits) : ℚ) *
    10 ^ (-(p.fraction.length : ℤ)) := by
  have hpow : (10 : ℚ) ^ p.fraction.length ≠ 0 := pow_ne_zero _ (by norm_num)
  rw [value, digits, Digits.toNat_append, zpow_neg, zpow_natCast]
  cases p.sign <;> simp [Sign.signed, Integer.signed] <;> field_simp

/-- A text spells one number only. -/
theorem value_eq_of_text_eq {p q : Spelling} (h : p.text = q.text) : p.value = q.value := by
  have hread := congrArg Decimal.readPointed? h
  rw [readPointed?_text, readPointed?_text] at hread
  obtain ⟨hunscaled, hplaces⟩ := Prod.mk.inj (Option.some.inj hread)
  rw [value_eq, value_eq, hunscaled, hplaces]

end Spelling

/-! ## Integers -/

namespace Spelling

/-- The spelling of a whole number without a point. -/
def ofNat (s : Sign) (n : Nat) : Spelling where
  sign := s
  whole := Digits.ofNat n
  places := none
  isDigit c hc := by
    rw [Option.getD_none, List.append_nil] at hc
    exact Digits.isDigit_of_mem_ofNat hc
  ne_nil := by
    rw [Option.getD_none, List.append_nil]
    exact List.ne_nil_of_length_pos (Digits.length_ofNat_pos n)

variable {s : Sign} {n : Nat}

theorem text_ofNat (s : Sign) (n : Nat) : (ofNat s n).text = s.text ++ Digits.ofNat n :=
  List.append_nil _

theorem value_ofNat (s : Sign) (n : Nat) : (ofNat s n).value = s.signed n := by
  have hdigits : (ofNat s n).digits = Digits.ofNat n := List.append_nil _
  have hplaces : (ofNat s n).fraction.length = 0 := rfl
  rw [value_eq, hdigits, hplaces, Digits.toNat_ofNat]
  exact mul_one _

theorem isCanonical_ofNat (hplus : s ≠ .plus) (hminus : s = .minus → 0 < n) :
    (ofNat s n).IsCanonical where
  not_plus := hplus
  whole_ne_nil := List.ne_nil_of_length_pos (Digits.length_ofNat_pos n)
  no_leading_zero hzero := by
    rcases Nat.eq_zero_or_pos n with rfl | hpos
    · exact Digits.ofNat_of_lt (by decide)
    · exact absurd hzero (Digits.head?_ofNat_ne hpos)
  places_ne_nil := nofun
  no_trailing_zero := nofun
  not_minus_zero htext := by
    rw [text_ofNat] at htext
    cases s with
    | none =>
      have hmem : '-' ∈ Digits.ofNat n := by
        rw [← List.nil_append (Digits.ofNat n)]
        exact htext ▸ List.mem_cons_self
      exact absurd (Digits.isDigit_of_mem_ofNat hmem) (by decide)
    | plus => exact hplus rfl
    | minus =>
      have hdigits : Digits.ofNat n = ['0'] := (List.cons.inj htext).2
      have hzero := Digits.head?_ofNat_ne (hminus rfl)
      rw [hdigits] at hzero
      exact hzero rfl

end Spelling

/-- The text of an integer is its canonical spelling. -/
theorem exists_spelling_ofInt (n : Int) : ∃ p : Spelling,
    p.IsCanonical ∧ p.places = none ∧ p.text = Digits.ofInt n ∧ p.value = n := by
  refine ⟨.ofNat (.ofInt n) n.natAbs, ?_, rfl, ?_, ?_⟩
  · exact Spelling.isCanonical_ofNat (Sign.ofInt_ne_plus n) Sign.natAbs_pos_of_minus
  · rw [Spelling.text_ofNat, Sign.text_ofInt]
  · rw [Spelling.value_ofNat, Sign.signed_ofInt]

end Rdf
