import Mathlib.Data.List.Basic
import Mathlib.Data.List.Induction
import Mathlib.Data.List.TakeWhile
import Mathlib.Tactic.Ring
import Rdf.Text.Digits

/-!
# Decimal digits

A number is written in one way for each width, and a run of digits is read as the number that it is
the text of. Main statements:

* `toNat_ofNat`, `toNat_padded`: a number is read back from its text, filled up with zeros or not;
* `padded_toNat`: a run of digits is the text of its number at the length of the run;
* `length_padded_of_lt`: numbers below a power of ten have the width that is asked for;
* `span_append`: a run of digits is taken off the front of a text.
-/

namespace Rdf.Digits

variable {c : Char} {ds rest : List Char} {n width : Nat}

/-! ## Single digits -/

theorem value_digit {d : Nat} (h : d < 10) : value (digit d) = d := by
  have hall : ∀ d : Fin 10, value (digit d) = d.val := by decide
  exact hall ⟨d, h⟩

theorem isDigit_digit {d : Nat} (h : d < 10) : (digit d).isDigit = true := by
  have hall : ∀ d : Fin 10, (digit d.val).isDigit = true := by decide
  exact hall ⟨d, h⟩

theorem isDigit_iff_toNat : c.isDigit = true ↔ 48 ≤ c.toNat ∧ c.toNat ≤ 57 := by
  simp only [Char.isDigit, Bool.and_eq_true, decide_eq_true_eq]
  exact Iff.rfl

theorem value_lt (h : c.isDigit = true) : value c < 10 := by
  obtain ⟨-, hle⟩ := isDigit_iff_toNat.1 h
  unfold value
  omega

theorem digit_value (h : c.isDigit = true) : digit (value c) = c := by
  obtain ⟨hle, -⟩ := isDigit_iff_toNat.1 h
  unfold digit value
  rw [Nat.add_sub_cancel' hle, Char.ofNat_toNat]

/-! ## Reading -/

theorem toNat_append_singleton (ds : List Char) (c : Char) :
    toNat (ds ++ [c]) = 10 * toNat ds + value c := by
  simp [toNat]

theorem toNat_append (ds es : List Char) :
    toNat (ds ++ es) = toNat ds * 10 ^ es.length + toNat es := by
  induction es using List.reverseRecOn with
  | nil => simp [toNat]
  | append_singleton es c ih =>
    rw [← List.append_assoc, toNat_append_singleton, toNat_append_singleton, ih, List.length_append,
      List.length_singleton, Nat.pow_succ]
    ring

theorem toNat_zeros (k : Nat) : toNat (List.replicate k '0') = 0 := by
  induction k with
  | zero => rfl
  | succ k ih =>
    rw [List.replicate_succ', toNat_append_singleton, ih]
    rfl

theorem toNat_append_zeros (ds : List Char) (k : Nat) :
    toNat (ds ++ List.replicate k '0') = toNat ds * 10 ^ k := by
  rw [toNat_append, toNat_zeros, List.length_replicate, Nat.add_zero]

theorem toNat_zeros_append (ds : List Char) (k : Nat) :
    toNat (List.replicate k '0' ++ ds) = toNat ds := by
  rw [toNat_append, toNat_zeros, Nat.zero_mul, Nat.zero_add]

theorem toNat_lt (hdigits : ∀ c ∈ ds, c.isDigit = true) : toNat ds < 10 ^ ds.length := by
  induction ds using List.reverseRecOn with
  | nil => decide
  | append_singleton ds c ih =>
    have hlt := ih fun d hd => hdigits d (by simp [hd])
    have hvalue := value_lt (hdigits c (by simp))
    rw [toNat_append_singleton, List.length_append, List.length_singleton, Nat.pow_succ]
    omega

theorem read?_eq_some_iff {cs : List Char} : read? cs = some n ↔
    cs ≠ [] ∧ (∀ c ∈ cs, c.isDigit = true) ∧ toNat cs = n := by
  cases cs with
  | nil => simp [read?]
  | cons c cs => simp [read?]

/-! ## Writing -/

theorem ofNat_of_lt (h : n < 10) : ofNat n = [digit n] := by
  rw [ofNat, if_pos h]

theorem ofNat_of_le (h : 10 ≤ n) : ofNat n = ofNat (n / 10) ++ [digit (n % 10)] := by
  rw [ofNat, if_neg (Nat.not_lt.2 h)]

theorem toNat_ofNat (n : Nat) : toNat (ofNat n) = n := by
  induction n using ofNat.induct with
  | case1 n h =>
    rw [ofNat_of_lt h]
    exact (Nat.zero_add _).trans (value_digit h)
  | case2 n h ih =>
    rw [ofNat_of_le (Nat.not_lt.1 h), toNat_append_singleton, ih,
      value_digit (Nat.mod_lt n (by omega))]
    omega

theorem isDigit_of_mem_ofNat (h : c ∈ ofNat n) : c.isDigit = true := by
  induction n using ofNat.induct with
  | case1 n hlt =>
    rw [ofNat_of_lt hlt, List.mem_singleton] at h
    exact h ▸ isDigit_digit hlt
  | case2 n hle ih =>
    rw [ofNat_of_le (Nat.not_lt.1 hle), List.mem_append, List.mem_singleton] at h
    rcases h with h | rfl
    · exact ih h
    · exact isDigit_digit (Nat.mod_lt n (by omega))

theorem length_ofNat_pos (n : Nat) : 0 < (ofNat n).length := by
  rcases Nat.lt_or_ge n 10 with h | h
  · simp [ofNat_of_lt h]
  · simp [ofNat_of_le h]

/-- The length of a text tells the powers of ten that the number is below. -/
theorem length_ofNat_le_iff (n k : Nat) : (ofNat n).length ≤ k + 1 ↔ n < 10 ^ (k + 1) := by
  induction n using ofNat.induct generalizing k with
  | case1 n h =>
    have hpow : 10 ^ 1 ≤ 10 ^ (k + 1) := Nat.pow_le_pow_right (by omega) (by omega)
    rw [ofNat_of_lt h, List.length_singleton]
    omega
  | case2 n h ih =>
    rw [ofNat_of_le (Nat.not_lt.1 h), List.length_append, List.length_singleton,
      Nat.add_le_add_iff_right]
    cases k with
    | zero =>
      have hpos := length_ofNat_pos (n / 10)
      omega
    | succ k =>
      rw [ih k, Nat.div_lt_iff_lt_mul (by omega), ← Nat.pow_succ]

/-- No zero stands in front of a number, unless it is zero. -/
theorem head?_ofNat_ne (h : 0 < n) : (ofNat n).head? ≠ some '0' := by
  induction n using ofNat.induct with
  | case1 n hlt =>
    rw [ofNat_of_lt hlt, List.head?_cons, Ne, Option.some.injEq]
    intro hzero
    have hvalue := value_digit hlt
    rw [hzero] at hvalue
    exact absurd hvalue.symm (Nat.ne_of_gt h)
  | case2 n hle ih =>
    have hpos : 0 < n / 10 := by omega
    have hne : ofNat (n / 10) ≠ [] := List.ne_nil_of_length_pos (length_ofNat_pos _)
    rw [ofNat_of_le (Nat.not_lt.1 hle), List.head?_append_of_ne_nil _ hne]
    exact ih hpos

/-! ## Filling up -/

theorem padded_eq (width n : Nat) :
    padded width n = List.replicate (width - (ofNat n).length) '0' ++ ofNat n := rfl

theorem toNat_padded (width n : Nat) : toNat (padded width n) = n := by
  rw [padded_eq, toNat_zeros_append, toNat_ofNat]

theorem isDigit_of_mem_padded (h : c ∈ padded width n) : c.isDigit = true := by
  rcases List.mem_append.1 h with h | h
  · rw [List.eq_of_mem_replicate h]
    rfl
  · exact isDigit_of_mem_ofNat h

theorem length_padded (width n : Nat) :
    (padded width n).length = max width (ofNat n).length := by
  rw [padded_eq, List.length_append, List.length_replicate]
  omega

theorem padded_ne_nil (h : 0 < width) (n : Nat) : padded width n ≠ [] := by
  apply List.ne_nil_of_length_pos
  rw [length_padded]
  omega

theorem length_padded_of_lt (h : n < 10 ^ (width + 1)) :
    (padded (width + 1) n).length = width + 1 := by
  rw [length_padded]
  exact Nat.max_eq_left ((length_ofNat_le_iff n width).2 h)

/-- Nothing is filled up in front of a number that is long enough. -/
theorem padded_of_le (h : 10 ^ width ≤ n) : padded width n = ofNat n := by
  cases width with
  | zero =>
    rw [padded_eq, Nat.zero_sub]
    rfl
  | succ k =>
    have hlength := (length_ofNat_le_iff n k).not.2 (Nat.not_lt.2 h)
    rw [padded_eq, Nat.sub_eq_zero_of_le (by omega)]
    rfl

/-- A text of more than one digit ends with its last digit. -/
theorem padded_succ (hwidth : 0 < width) (n : Nat) :
    padded (width + 1) n = padded width (n / 10) ++ [digit (n % 10)] := by
  rcases Nat.lt_or_ge n 10 with h | h
  · have hzero : ofNat (n / 10) = ['0'] := by
      rw [Nat.div_eq_of_lt h]
      exact ofNat_of_lt (by decide)
    have hzeros : List.replicate (width - 1) '0' ++ ['0'] = List.replicate width '0' := by
      rw [← List.replicate_succ', Nat.sub_add_cancel hwidth]
    simp [padded_eq, ofNat_of_lt h, hzero, Nat.mod_eq_of_lt h, hzeros]
  · simp [padded_eq, ofNat_of_le h]

/-- A run of digits is the text of its number at the length of the run. -/
theorem padded_toNat (hdigits : ∀ c ∈ ds, c.isDigit = true) (hne : ds ≠ []) :
    padded ds.length (toNat ds) = ds := by
  induction ds using List.reverseRecOn with
  | nil => exact absurd rfl hne
  | append_singleton ds c ih =>
    have hc := hdigits c (by simp)
    rw [toNat_append_singleton, List.length_append, List.length_singleton]
    rcases ds.eq_nil_or_concat with rfl | ⟨_, _, hds⟩
    · have hvalue : 10 * toNat [] + value c = value c := Nat.zero_add _
      rw [hvalue, List.length_nil, padded_eq, ofNat_of_lt (value_lt hc), digit_value hc]
      rfl
    · have hpos : 0 < ds.length := by simp [hds]
      have hlt := value_lt hc
      have hdiv : (10 * toNat ds + value c) / 10 = toNat ds := by omega
      have hmod : (10 * toNat ds + value c) % 10 = value c := by omega
      rw [padded_succ hpos, hdiv, hmod, digit_value hc,
        ih (fun d hd => hdigits d (by simp [hd])) (List.ne_nil_of_length_pos hpos)]

/-- Without leading zeros the length of a run does not matter. -/
theorem ofNat_toNat (hdigits : ∀ c ∈ ds, c.isDigit = true) (hne : ds ≠ [])
    (hhead : ds.head? ≠ some '0') : ofNat (toNat ds) = ds := by
  have hpadded := padded_toNat hdigits hne
  rw [padded_eq] at hpadded
  cases hzeros : ds.length - (ofNat (toNat ds)).length with
  | zero => simpa [hzeros] using hpadded
  | succ k =>
    rw [hzeros, List.replicate_succ] at hpadded
    rw [← hpadded] at hhead
    exact absurd rfl hhead

/-- A power of ten puts zeros behind a number. -/
theorem ofNat_mul_pow (h : 0 < n) (k : Nat) :
    ofNat (n * 10 ^ k) = ofNat n ++ List.replicate k '0' := by
  have hne : ofNat n ≠ [] := List.ne_nil_of_length_pos (length_ofNat_pos n)
  have hdigits : ∀ c ∈ ofNat n ++ List.replicate k '0', c.isDigit = true := by
    intro c hc
    rcases List.mem_append.1 hc with hc | hc
    · exact isDigit_of_mem_ofNat hc
    · rw [List.eq_of_mem_replicate hc]
      rfl
  have hhead : (ofNat n ++ List.replicate k '0').head? ≠ some '0' := by
    rw [List.head?_append_of_ne_nil _ hne]
    exact head?_ofNat_ne h
  have htext := ofNat_toNat hdigits (List.append_ne_nil_of_left_ne_nil hne _) hhead
  rwa [toNat_append_zeros, toNat_ofNat] at htext

/-- Runs of one length are equal if their numbers are. -/
theorem eq_of_toNat_eq {es : List Char} (hds : ∀ c ∈ ds, c.isDigit = true)
    (hes : ∀ c ∈ es, c.isDigit = true) (hlength : ds.length = es.length)
    (h : toNat ds = toNat es) : ds = es := by
  rcases es.eq_nil_or_concat with rfl | ⟨_, _, hconcat⟩
  · exact List.length_eq_zero_iff.1 hlength
  · have hne : es ≠ [] := by simp [hconcat]
    have hne' : ds ≠ [] := List.ne_nil_of_length_pos (hlength ▸ List.length_pos_of_ne_nil hne)
    calc ds = padded ds.length (toNat ds) := (padded_toNat hds hne').symm
      _ = padded es.length (toNat es) := by rw [hlength, h]
      _ = es := padded_toNat hes hne

/-- A run is taken apart at a given distance from its end. -/
theorem toNat_append_inj {ds' es es' : List Char} (hes : ∀ c ∈ es, c.isDigit = true)
    (hes' : ∀ c ∈ es', c.isDigit = true) (hlength : es.length = es'.length)
    (h : toNat (ds ++ es) = toNat (ds' ++ es')) : toNat ds = toNat ds' ∧ toNat es = toNat es' := by
  have hdiv : ∀ ds es : List Char, (∀ c ∈ es, c.isDigit = true) →
      toNat (ds ++ es) / 10 ^ es.length = toNat ds := by
    intro ds es hes
    rw [toNat_append, Nat.mul_comm, Nat.mul_add_div (Nat.pow_pos (by decide)),
      Nat.div_eq_of_lt (toNat_lt hes), Nat.add_zero]
  have hleading : toNat ds = toNat ds' := by
    rw [← hdiv ds es hes, ← hdiv ds' es' hes', h, hlength]
  rw [toNat_append, toNat_append, hleading, hlength] at h
  exact ⟨hleading, Nat.add_left_cancel h⟩

/-! ## Runs in front of a text -/

/-- A text that does not go on with a digit. -/
def Stops (rest : List Char) : Prop := ∀ c ∈ rest.head?, c.isDigit = false

theorem span_append (hdigits : ∀ c ∈ ds, c.isDigit = true) (hrest : Stops rest) :
    span (ds ++ rest) = (ds, rest) := by
  unfold span
  rw [List.takeWhile_append_of_pos hdigits, List.dropWhile_append_of_pos hdigits]
  cases rest with
  | nil => simp
  | cons c rest => simp [hrest c rfl]

theorem span_append_padded (hrest : Stops rest) :
    span (padded width n ++ rest) = (padded width n, rest) :=
  span_append (fun _ => isDigit_of_mem_padded) hrest

/-- Every text is a run of digits and what follows it. -/
theorem exists_span (cs : List Char) : ∃ ds rest, cs = ds ++ rest ∧
    span cs = (ds, rest) ∧ ∀ c ∈ ds, c.isDigit = true :=
  ⟨_, _, (List.takeWhile_append_dropWhile).symm, rfl, fun _ hc => List.mem_takeWhile_imp hc⟩

end Rdf.Digits
