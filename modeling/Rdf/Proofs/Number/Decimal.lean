import Rdf.Proofs.Number.Spelling

/-!
# Decimals and their canonical texts

A decimal is an unscaled number and a scale, and many decimals are the same number. The normal form
takes the zeros off the end of the unscaled number; plain notation then fills up with zeros on
either side of the point, or puts the point between the digits. Main statements:

* `normalized_eq_iff`: two decimals have one normal form if they are the same number;
* `Spelling.IsCanonical.eq_of_value_eq`: a number has one canonical spelling;
* `exists_spelling_canonical`: this is the text of a decimal;
* `canonical_eq_iff`: so texts are equal if numbers are;
* `read?_canonical`, `Spelling.exists_read?`: texts are read as the number that they denote.
-/

namespace Rdf.Decimal

variable {a b d : Decimal} {n : Nat}

/-- The number that a decimal is. -/
def value (d : Decimal) : ℚ := d.unscaled * 10 ^ (-d.scale)

/-! ## The normal form -/

/-- Zero has no scale, and any other number no zero at its end. -/
def IsNormal (d : Decimal) : Prop :=
  (d.unscaled = 0 ∧ d.scale = 0) ∨ ¬10 ∣ d.unscaled

theorem stripZeros_spec (hn : 0 < n) (scale : Int) : ∃ k : Nat,
    n = (stripZeros n scale).1 * 10 ^ k ∧ (stripZeros n scale).2 = scale - k ∧
      ¬10 ∣ (stripZeros n scale).1 := by
  induction n, scale using stripZeros.induct with
  | case1 n scale h ih =>
    obtain ⟨k, hvalue, hscale, hend⟩ := ih (by omega)
    rw [stripZeros, if_pos h]
    refine ⟨k + 1, ?_, ?_, hend⟩
    · rw [Nat.pow_succ, ← Nat.mul_assoc, ← hvalue]
      omega
    · rw [hscale]
      omega
  | case2 n scale h =>
    rw [stripZeros, if_neg h]
    refine ⟨0, (Nat.mul_one n).symm, ?_, ?_⟩
    · omega
    · dsimp only
      omega

/-- The normal form of a number that is not zero has lost some zeros, and none is left. -/
theorem exists_unscaled_eq (h : d.unscaled ≠ 0) : ∃ k : Nat,
    d.unscaled = d.normalized.unscaled * 10 ^ k ∧ d.normalized.scale = d.scale - k ∧
      ¬10 ∣ d.normalized.unscaled := by
  obtain ⟨k, hvalue, hscale, hend⟩ := stripZeros_spec (Int.natAbs_pos.2 h) d.scale
  have habs : (d.unscaled.natAbs : Int) = (stripZeros d.unscaled.natAbs d.scale).1 * 10 ^ k := by
    exact_mod_cast hvalue
  unfold normalized
  rw [if_neg h]
  generalize stripZeros d.unscaled.natAbs d.scale = r at hscale hend habs ⊢
  obtain ⟨n, scale⟩ := r
  refine ⟨k, ?_, hscale, ?_⟩
  · dsimp only at habs ⊢
    split
    · rw [Int.neg_mul, ← habs]
      omega
    · rw [← habs]
      omega
  · dsimp only at hend ⊢
    split <;> omega

theorem isNormal_normalized (d : Decimal) : d.normalized.IsNormal := by
  by_cases h : d.unscaled = 0
  · left
    unfold normalized
    rw [if_pos h]
    exact ⟨rfl, rfl⟩
  · obtain ⟨k, -, -, hend⟩ := exists_unscaled_eq h
    exact .inr hend

theorem value_normalized (d : Decimal) : d.normalized.value = d.value := by
  have hten : (10 : ℚ) ≠ 0 := by norm_num
  by_cases h : d.unscaled = 0
  · unfold value normalized
    rw [if_pos h, h]
    simp
  · obtain ⟨k, hunscaled, hscale, -⟩ := exists_unscaled_eq h
    have hpow : (10 : ℚ) ^ (-(d.scale - k)) = 10 ^ k * 10 ^ (-d.scale) := by
      rw [← zpow_natCast, ← zpow_add₀ hten]
      congr 1
      omega
    unfold value
    rw [hscale, hpow, ← mul_assoc]
    congr 1
    exact_mod_cast hunscaled.symm

/-- Two decimals are compared at the larger scale. -/
theorem value_eq_iff_of_le (h : a.scale ≤ b.scale) :
    a.value = b.value ↔ a.unscaled * 10 ^ (b.scale - a.scale).toNat = b.unscaled := by
  have hten : (10 : ℚ) ≠ 0 := by norm_num
  have hpow : (10 : ℚ) ^ (-a.scale) = 10 ^ (b.scale - a.scale).toNat * 10 ^ (-b.scale) := by
    rw [← zpow_natCast, ← zpow_add₀ hten]
    congr 1
    omega
  unfold value
  rw [hpow, ← mul_assoc, mul_left_inj' (zpow_ne_zero _ hten)]
  exact_mod_cast Iff.rfl

/-- At the larger of two scales of one number a zero could be dropped. -/
theorem dvd_unscaled_of_lt (h : a.scale < b.scale) (hab : a.value = b.value) :
    10 ∣ b.unscaled := by
  have hunscaled := (value_eq_iff_of_le h.le).1 hab
  obtain ⟨k, hk⟩ : ∃ k : Nat, (b.scale - a.scale).toNat = k + 1 :=
    ⟨(b.scale - a.scale).toNat - 1, by omega⟩
  rw [hk, pow_succ, ← mul_assoc] at hunscaled
  exact Dvd.intro_left _ hunscaled

/-- Normal forms of one number have one scale. -/
theorem IsNormal.scale_le (ha : a.IsNormal) (hb : b.IsNormal) (hab : a.value = b.value) :
    b.scale ≤ a.scale := by
  by_contra hlt
  have hscales : a.scale < b.scale := by omega
  obtain ⟨hzero, hscale⟩ := hb.resolve_right (not_not.2 (dvd_unscaled_of_lt hscales hab))
  have hunscaled := (value_eq_iff_of_le hscales.le).1 hab
  rw [hzero] at hunscaled
  have hzero' := (Int.mul_eq_zero.1 hunscaled).resolve_right (pow_ne_zero _ (by decide))
  obtain ⟨-, hscale'⟩ := ha.resolve_right (not_not.2 (hzero' ▸ dvd_zero 10))
  omega

theorem unscaled_eq_of_value_eq (hscale : a.scale = b.scale) (hab : a.value = b.value) :
    a.unscaled = b.unscaled := by
  have hunscaled := (value_eq_iff_of_le hscale.le).1 hab
  rwa [hscale, sub_self, Int.toNat_zero, pow_zero, mul_one] at hunscaled

theorem IsNormal.eq_of_value_eq (ha : a.IsNormal) (hb : b.IsNormal) (hab : a.value = b.value) :
    a = b := by
  have hscale : a.scale = b.scale := le_antisymm (hb.scale_le ha hab.symm) (ha.scale_le hb hab)
  have hunscaled := unscaled_eq_of_value_eq hscale hab
  obtain ⟨u, s⟩ := a
  exact congrArg₂ Decimal.mk hunscaled hscale

theorem normalized_eq_iff : a.normalized = b.normalized ↔ a.value = b.value := by
  constructor
  · intro h
    rw [← value_normalized, h, value_normalized]
  · intro h
    apply (isNormal_normalized a).eq_of_value_eq (isNormal_normalized b)
    rw [value_normalized, value_normalized, h]

end Rdf.Decimal

namespace Rdf

/-! ## Plain notation -/

namespace Spelling

variable {s : Sign} {n places : Nat}

/-- The spelling of a number with a point in front of its last places. -/
def pointed (s : Sign) (n places : Nat) : Spelling where
  sign := s
  whole :=
    let ds := Digits.padded (places + 1) n
    ds.take (ds.length - places)
  places :=
    let ds := Digits.padded (places + 1) n
    some (ds.drop (ds.length - places))
  isDigit c hc := by
    rw [Option.getD_some, List.take_append_drop] at hc
    exact Digits.isDigit_of_mem_padded hc
  ne_nil := by
    rw [Option.getD_some, List.take_append_drop]
    exact Digits.padded_ne_nil (Nat.succ_pos places) n

theorem text_pointed (s : Sign) (n places : Nat) :
    (pointed s n places).text = s.text ++ Decimal.pointed n places :=
  List.append_assoc _ _ _

theorem digits_pointed (s : Sign) (n places : Nat) :
    (pointed s n places).digits = Digits.padded (places + 1) n :=
  List.take_append_drop _ _

theorem length_fraction_pointed (s : Sign) (n places : Nat) :
    (pointed s n places).fraction.length = places := by
  have hlength := Digits.length_padded (places + 1) n
  have hfraction : (pointed s n places).fraction.length = (Digits.padded (places + 1) n).length -
      ((Digits.padded (places + 1) n).length - places) := List.length_drop
  omega

theorem value_pointed (s : Sign) (n places : Nat) :
    (pointed s n places).value = s.signed n * 10 ^ (-(places : ℤ)) := by
  rw [value_eq, digits_pointed, length_fraction_pointed, Digits.toNat_padded]
  rfl

theorem whole_pointed (s : Sign) (n places : Nat) :
    (pointed s n places).whole = (Digits.padded (places + 1) n).take
      ((Digits.padded (places + 1) n).length - places) := rfl

theorem whole_pointed_ne_nil (s : Sign) (n places : Nat) : (pointed s n places).whole ≠ [] := by
  have hlength := Digits.length_padded (places + 1) n
  rw [whole_pointed, Ne, List.take_eq_nil_iff, not_or]
  exact ⟨by omega, Digits.padded_ne_nil (Nat.succ_pos places) n⟩

/-- A zero stands in front of the point only if no other digit does. -/
theorem whole_pointed_of_zero (h : (pointed s n places).whole.head? = some '0') :
    (pointed s n places).whole = ['0'] := by
  rcases Nat.lt_or_ge n (10 ^ (places + 1)) with hlt | hle
  · have hlength : (pointed s n places).whole.length = 1 := by
      rw [whole_pointed, List.length_take, Digits.length_padded_of_lt hlt]
      omega
    obtain ⟨c, hc⟩ := List.length_eq_one_iff.1 hlength
    rw [hc] at h ⊢
    rw [Option.some.inj h]
  · have hpos : 0 < n := Nat.lt_of_lt_of_le (Nat.pow_pos (by decide)) hle
    have hlength := Digits.length_padded (places + 1) n
    rw [whole_pointed, List.head?_take, if_neg (by omega), Digits.padded_of_le hle] at h
    exact absurd h (Digits.head?_ofNat_ne hpos)

/-- The last place is the last digit of the number. -/
theorem getLast?_fraction_pointed (hplaces : 0 < places) :
    (pointed s n places).fraction.getLast? = some (Digits.digit (n % 10)) := by
  have hlength := length_fraction_pointed s n places
  have hdigits := digits_pointed s n places
  have hne : (pointed s n places).fraction ≠ [] := List.ne_nil_of_length_pos (by omega)
  rw [Digits.padded_succ hplaces, digits] at hdigits
  have hlast := congrArg List.getLast? hdigits
  rwa [List.getLast?_append_of_ne_nil _ hne, List.getLast?_concat] at hlast

theorem isCanonical_pointed (hplus : s ≠ .plus) (hn : n % 10 ≠ 0) (hplaces : 0 < places) :
    (pointed s n places).IsCanonical where
  not_plus := hplus
  whole_ne_nil := whole_pointed_ne_nil s n places
  no_leading_zero := whole_pointed_of_zero
  places_ne_nil hnil := by
    have hlength := length_fraction_pointed s n places
    have hfraction : (pointed s n places).fraction = [] := by
      rw [fraction, hnil]
      rfl
    rw [hfraction, List.length_nil] at hlength
    omega
  no_trailing_zero := by
    rw [getLast?_fraction_pointed hplaces]
    intro hzero
    have hvalue := Digits.value_digit (Nat.mod_lt n (by decide : 10 > 0))
    rw [Option.some.inj hzero] at hvalue
    exact hn hvalue.symm
  not_minus_zero htext := by
    have hpoint : '.' ∈ (pointed s n places).text := by
      rw [text_pointed]
      simp [Decimal.pointed]
    rw [htext] at hpoint
    exact absurd hpoint (by decide)

theorem value_decimal (p : Spelling) : p.decimal.value = p.value := p.value_eq.symm

/-- A spelling is read as the number that it denotes. -/
theorem exists_read? (p : Spelling)
    (h : Integer.Range.long.contains p.fraction.length = true) :
    ∃ d, Decimal.read? p.text = some d ∧ d.value = p.value :=
  ⟨p.decimal, p.read?_text h, p.value_decimal⟩

/-! ## Canonical spellings are unique -/

section Canonical

variable {p q : Spelling}

theorem isDigit_of_mem_whole (p : Spelling) : ∀ c ∈ p.whole, c.isDigit = true :=
  fun c hc => p.isDigit c (List.mem_append_left _ hc)

theorem isDigit_of_mem_fraction (p : Spelling) : ∀ c ∈ p.fraction, c.isDigit = true :=
  fun c hc => p.isDigit c (List.mem_append_right _ hc)

/-- Without zeros in front, the digits before the point are the text of a number. -/
theorem IsCanonical.whole_eq (h : p.IsCanonical) :
    p.whole = Digits.ofNat (Digits.toNat p.whole) := by
  by_cases hzero : p.whole.head? = some '0'
  · rw [h.no_leading_zero hzero]
    exact (Digits.ofNat_of_lt (show 0 < 10 by decide)).symm
  · exact (Digits.ofNat_toNat p.isDigit_of_mem_whole h.whole_ne_nil hzero).symm

theorem IsCanonical.places_eq (h : p.IsCanonical) :
    p.places = if p.fraction = [] then none else some p.fraction := by
  have hne := h.places_ne_nil
  unfold fraction
  cases hplaces : p.places with
  | none => rfl
  | some ds => rw [Option.getD_some, if_neg fun hnil => hne (by rw [hplaces, hnil])]

/-- The last of the digits is no zero, if it stands behind the point. -/
theorem IsCanonical.not_dvd (h : p.IsCanonical) (hne : p.fraction ≠ []) :
    ¬10 ∣ Digits.toNat p.digits := by
  obtain ⟨ds, c, hfraction⟩ := (List.eq_nil_or_concat p.fraction).resolve_left hne
  rw [List.concat_eq_append] at hfraction
  have hlast := h.no_trailing_zero
  have hdigit : c.isDigit = true := by
    refine p.isDigit_of_mem_fraction c ?_
    rw [hfraction]
    exact List.mem_concat_self
  have hvalue := Digits.digit_value hdigit
  have hlt := Digits.value_lt hdigit
  rw [hfraction, List.getLast?_concat] at hlast
  rw [digits, hfraction, ← List.append_assoc, Digits.toNat_append_singleton]
  intro hdvd
  have hzero : Digits.value c = 0 := by omega
  rw [hzero] at hvalue
  exact hlast (congrArg some hvalue.symm)

theorem IsCanonical.sign_of_zero (h : p.IsCanonical) (hzero : Digits.toNat p.digits = 0) :
    p.sign = .none := by
  have hfraction : p.fraction = [] := by
    by_contra hne
    exact h.not_dvd hne (hzero ▸ dvd_zero 10)
  rw [digits, hfraction, List.append_nil] at hzero
  have hwhole := h.whole_eq
  have hplaces := h.places_eq
  rw [hzero, Digits.ofNat_of_lt (by decide)] at hwhole
  rw [if_pos hfraction] at hplaces
  cases hsign : p.sign with
  | none => rfl
  | plus => exact absurd hsign h.not_plus
  | minus =>
    refine absurd ?_ h.not_minus_zero
    rw [text, hsign, hwhole, ending, hplaces]
    rfl

theorem IsCanonical.length_fraction_le (hq : q.IsCanonical) (h : p.value = q.value) :
    q.fraction.length ≤ p.fraction.length := by
  by_contra hlt
  have hne : q.fraction ≠ [] := List.ne_nil_of_length_pos (by omega)
  have hscale : p.decimal.scale < q.decimal.scale := Int.ofNat_lt.2 (Nat.lt_of_not_le hlt)
  have hdvd := Decimal.dvd_unscaled_of_lt hscale (by rw [value_decimal, value_decimal, h])
  have habs := Int.natAbs_dvd_natAbs.2 hdvd
  rw [decimal, Sign.natAbs_signed] at habs
  exact hq.not_dvd hne habs

/-- A number has one canonical spelling. -/
theorem IsCanonical.eq_of_value_eq (hp : p.IsCanonical) (hq : q.IsCanonical)
    (h : p.value = q.value) : p = q := by
  have hlength : p.fraction.length = q.fraction.length :=
    Nat.le_antisymm (hp.length_fraction_le h.symm) (hq.length_fraction_le h)
  have hsigned : p.decimal.unscaled = q.decimal.unscaled :=
    Decimal.unscaled_eq_of_value_eq (congrArg Int.ofNat hlength)
      (by rw [value_decimal, value_decimal, h])
  have hdigits : Digits.toNat p.digits = Digits.toNat q.digits := by
    have habs := congrArg Int.natAbs hsigned
    rwa [decimal, decimal, Sign.natAbs_signed, Sign.natAbs_signed] at habs
  -- the digits before and behind the point are those of the same two numbers
  obtain ⟨hwhole, hfraction⟩ := Digits.toNat_append_inj p.isDigit_of_mem_fraction
    q.isDigit_of_mem_fraction hlength hdigits
  have hfractions := Digits.eq_of_toNat_eq p.isDigit_of_mem_fraction q.isDigit_of_mem_fraction
    hlength hfraction
  have hwholes : p.whole = q.whole := by rw [hp.whole_eq, hq.whole_eq, hwhole]
  have hplaces : p.places = q.places := by rw [hp.places_eq, hq.places_eq, hfractions]
  have hsigns : p.sign = q.sign := by
    rcases Nat.eq_zero_or_pos (Digits.toNat p.digits) with hzero | hpos
    · rw [hp.sign_of_zero hzero, hq.sign_of_zero (hdigits ▸ hzero)]
    · rw [decimal, decimal, ← hdigits] at hsigned
      exact Sign.eq_of_signed_eq hp.not_plus hq.not_plus hpos hsigned
  obtain ⟨s, w, f, _, _⟩ := p
  obtain ⟨s', w', f', _, _⟩ := q
  simp only at hwholes hplaces hsigns
  subst hwholes hplaces hsigns
  rfl

theorem IsCanonical.iff_eq {r : ℚ} (hp : p.IsCanonical) (hvalue : p.value = r) :
    q.IsCanonical ∧ q.value = r ↔ q = p := by
  constructor
  · intro ⟨hq, hqvalue⟩
    exact hq.eq_of_value_eq hp (hqvalue.trans hvalue.symm)
  · rintro rfl
    exact ⟨hp, hvalue⟩

end Canonical

end Spelling

namespace Decimal

variable {a b d : Decimal}

/-- Plain notation is a sign and either a whole number or one with places. -/
theorem plain_eq (d : Decimal) : d.plain = (Sign.ofInt d.unscaled).text ++
    if d.scale ≤ 0 then Digits.ofNat (d.unscaled.natAbs * 10 ^ d.scale.natAbs)
    else pointed d.unscaled.natAbs d.scale.toNat := by
  have hwhole : (if d.unscaled.natAbs = 0 then ['0']
      else Digits.ofNat d.unscaled.natAbs ++ List.replicate d.scale.natAbs '0') =
      Digits.ofNat (d.unscaled.natAbs * 10 ^ d.scale.natAbs) := by
    split
    · next hzero =>
      rw [hzero, Nat.zero_mul]
      exact (Digits.ofNat_of_lt (show 0 < 10 by decide)).symm
    · next hne => rw [Digits.ofNat_mul_pow (Nat.pos_of_ne_zero hne)]
  unfold plain Sign.ofInt
  simp only [hwhole]
  split <;> rfl

/-- The plain notation of a normal form is the canonical spelling of the number. -/
theorem IsNormal.exists_spelling (h : d.IsNormal) : ∃ p : Spelling,
    p.IsCanonical ∧ p.text = d.plain ∧ p.value = d.value ∧ p.fraction.length = d.scale.toNat := by
  rw [plain_eq]
  split
  · next hscale =>
    refine ⟨.ofNat (.ofInt d.unscaled) (d.unscaled.natAbs * 10 ^ d.scale.natAbs), ?_, ?_, ?_, ?_⟩
    · refine Spelling.isCanonical_ofNat (Sign.ofInt_ne_plus _) fun hminus => ?_
      exact Nat.mul_pos (Sign.natAbs_pos_of_minus hminus) (Nat.pow_pos (by decide))
    · exact Spelling.text_ofNat _ _
    · have hpow : -d.scale = (d.scale.natAbs : ℤ) := by omega
      rw [Spelling.value_ofNat, Sign.signed_mul, Sign.signed_ofInt, value, hpow, zpow_natCast]
      push_cast
      rfl
    · exact (Int.toNat_of_nonpos hscale).symm
  · next hscale =>
    refine ⟨.pointed (.ofInt d.unscaled) d.unscaled.natAbs d.scale.toNat, ?_, ?_, ?_, ?_⟩
    · have hend : ¬10 ∣ d.unscaled := h.resolve_left fun hzero => hscale hzero.2.le
      exact Spelling.isCanonical_pointed (Sign.ofInt_ne_plus _) (by omega) (by omega)
    · exact Spelling.text_pointed _ _ _
    · rw [Spelling.value_pointed, Sign.signed_ofInt, Int.toNat_of_nonneg (by omega)]
      rfl
    · exact Spelling.length_fraction_pointed _ _ _

/-! ## Canonical texts -/

/-- The text of a decimal is the canonical spelling of its number. -/
theorem exists_spelling_canonical (d : Decimal) : ∃ p : Spelling,
    p.IsCanonical ∧ p.text = d.canonical ∧ p.value = d.value ∧
      p.fraction.length = d.normalized.scale.toNat := by
  obtain ⟨p, hp, htext, hvalue, hlength⟩ := (isNormal_normalized d).exists_spelling
  exact ⟨p, hp, htext, hvalue.trans (value_normalized d), hlength⟩

theorem canonical_eq_iff : a.canonical = b.canonical ↔ a.value = b.value := by
  constructor
  · intro h
    obtain ⟨p, -, hp, hpvalue, -⟩ := exists_spelling_canonical a
    obtain ⟨q, -, hq, hqvalue, -⟩ := exists_spelling_canonical b
    rw [← hpvalue, ← hqvalue]
    exact Spelling.value_eq_of_text_eq (by rw [hp, hq, h])
  · intro h
    unfold canonical
    rw [normalized_eq_iff.2 h]

/-- A canonical text is read as the same number. -/
theorem read?_canonical (h : Integer.Range.long.contains d.normalized.scale = true) :
    ∃ e, read? d.canonical = some e ∧ e.value = d.value := by
  obtain ⟨p, -, htext, hvalue, hlength⟩ := exists_spelling_canonical d
  have hrange : Integer.Range.long.contains p.fraction.length = true := by
    rw [Integer.Range.contains_iff] at h ⊢
    have hlowest : Integer.Range.long.lowest ≤ 0 := by decide
    have hhighest : 0 ≤ Integer.Range.long.highest := by decide
    omega
  obtain ⟨e, he, hevalue⟩ := p.exists_read? hrange
  exact ⟨e, htext ▸ he, hevalue.trans hvalue⟩

end Decimal

end Rdf
