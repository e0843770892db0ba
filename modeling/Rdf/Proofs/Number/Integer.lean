import Rdf.Number.Integer
import Rdf.Proofs.Text.Digits

/-!
# Two readers of integers

One reader takes the integers of a range and one those of any size. They agree on signs, on leading
zeros and on what is no number at all; they differ in the underscores that only the latter skips.
Main statement:

* `Range.read?_eq_some_iff`: a range with negative numbers reads what the other reader does, without
  underscores and as far as the range goes.
-/

namespace Rdf.Integer

variable {r : Range} {cs : List Char} {n : Int}

theorem Range.contains_iff : r.contains n = true ↔ r.lowest ≤ n ∧ n ≤ r.highest := by
  simp [Range.contains]

/-! ## Digits and underscores -/

theorem filter_underscores (h : '_' ∉ cs) : cs.filter (· ≠ '_') = cs := by
  rw [List.filter_eq_self]
  intro c hc
  exact decide_eq_true fun (heq : c = '_') => h (heq ▸ hc)

/-- Digits alone are digits with underscores in which no underscore occurs. -/
theorem read?_digits_eq_some_iff {n : Nat} :
    Digits.read? cs = some n ↔ readSpaced? cs = some n ∧ '_' ∉ cs := by
  unfold readSpaced?
  split
  · next ds =>
    have hread : Digits.read? ('_' :: ds) = none := rfl
    simp [hread]
  · constructor
    · intro h
      obtain ⟨-, hdigits, -⟩ := Digits.read?_eq_some_iff.1 h
      have hnot : '_' ∉ cs := fun hmem => absurd (hdigits _ hmem) (by decide)
      exact ⟨by rwa [filter_underscores hnot], hnot⟩
    · rintro ⟨h, hnot⟩
      rwa [filter_underscores hnot] at h

theorem read?_digits_plus (cs : List Char) : Digits.read? ('+' :: cs) = none := rfl

/-! ## Signs -/

/-- A number with the sign that stood in front. -/
def signed (negative : Bool) (n : Nat) : Int := if negative then -n else n

theorem Range.read?_eq_some_iff_unsign : r.read? cs = some n ↔
    ∃ k, Digits.read? (r.unsign cs).2 = some k ∧ signed (r.unsign cs).1 k = n ∧
      r.contains n = true := by
  unfold Range.read?
  cases h : Digits.read? (r.unsign cs).2 with
  | none => simp [h]
  | some k =>
    simp only [h, Option.ite_none_right_eq_some, Option.some.injEq, exists_eq_left', signed]
    constructor
    · rintro ⟨hcontains, rfl⟩
      exact ⟨rfl, hcontains⟩
    · rintro ⟨rfl, hcontains⟩
      exact ⟨hcontains, rfl⟩

theorem read?_plus (cs : List Char) : read? ('+' :: cs) = (readSpaced? cs).map (signed false) := by
  have hread : read? ('+' :: cs) = (readSpaced? cs >>= fun n => some (n : Int)).map id := rfl
  rw [hread]
  cases readSpaced? cs <;> rfl

theorem read?_minus (h : cs.head? ≠ some '+') :
    read? ('-' :: cs) = (readSpaced? cs).map (signed true) := by
  have hnatural : readNatural? cs = readSpaced? cs := by
    unfold readNatural?
    split
    · exact absurd rfl h
    · rfl
  unfold read?
  split
  · next heq => exact absurd (by simpa using congrArg (List.head? ·.tail) heq) h
  · next heq =>
    obtain rfl := (List.cons.inj heq).2
    rw [hnatural]
    cases readSpaced? cs <;> rfl
  · next hminus => exact absurd rfl (hminus cs)

theorem read?_unsigned (hplus : cs.head? ≠ some '+') (hminus : cs.head? ≠ some '-') :
    read? cs = (readSpaced? cs).map (signed false) := by
  unfold read? readNatural?
  split
  · exact absurd rfl hminus
  · exact absurd rfl hminus
  · split
    · exact absurd rfl hplus
    · cases readSpaced? cs <;> rfl

/-- Both readers see the same sign, except that nothing is read after a minus and a plus. -/
theorem read?_eq_unsign (h : r.lowest < 0) (hsigns : ∀ ds, cs ≠ '-' :: '+' :: ds) :
    read? cs = (readSpaced? (r.unsign cs).2).map (signed (r.unsign cs).1) := by
  unfold Range.unsign
  split
  · next ds => exact read?_plus ds
  · next ds =>
    rw [if_pos h]
    refine read?_minus fun hhead => ?_
    obtain ⟨es, rfl⟩ := List.head?_eq_some_iff.1 hhead
    exact hsigns es rfl
  · next hplus hminus =>
    refine read?_unsigned (fun hhead => ?_) fun hhead => ?_
    · obtain ⟨ds, rfl⟩ := List.head?_eq_some_iff.1 hhead
      exact hplus ds rfl
    · obtain ⟨ds, rfl⟩ := List.head?_eq_some_iff.1 hhead
      exact hminus ds rfl

theorem underscore_mem_unsign (r : Range) (cs : List Char) : '_' ∈ (r.unsign cs).2 ↔ '_' ∈ cs := by
  unfold Range.unsign
  split
  · simp
  · split <;> simp
  · rfl

/-- The integers of a range are read as those of any size, but without underscores. -/
theorem Range.read?_eq_some_iff (h : r.lowest < 0) : r.read? cs = some n ↔
    Integer.read? cs = some n ∧ r.contains n = true ∧ '_' ∉ cs := by
  rw [Range.read?_eq_some_iff_unsign]
  by_cases hsigns : ∃ ds, cs = '-' :: '+' :: ds
  · obtain ⟨ds, rfl⟩ := hsigns
    simp [Range.unsign, h, read?_digits_plus, Integer.read?]
  · rw [read?_eq_unsign h fun ds hds => hsigns ⟨ds, hds⟩, Option.map_eq_some_iff]
    simp only [read?_digits_eq_some_iff, underscore_mem_unsign]
    constructor
    · rintro ⟨k, ⟨hk, hnot⟩, hn, hcontains⟩
      exact ⟨⟨k, hk, hn⟩, hcontains, hnot⟩
    · rintro ⟨⟨k, hk, hn⟩, hcontains, hnot⟩
      exact ⟨k, ⟨hk, hnot⟩, hn, hcontains⟩

end Rdf.Integer
