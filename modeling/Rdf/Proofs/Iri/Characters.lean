import Mathlib
import Rdf.Proofs.Results
import Rdf.Term.Building

/-!
# The characters of IRI references

The grammar reads a reference part by part, and every part has characters of its own. None of them
is an angle bracket, a quote, a blank or a control character, so a reference can stand between angle
brackets as it is. Main statements:

* `within_of_check`: a text without fault consists of characters that occur in some part;
* `Iri.Accepted.isClean`: so an accepted IRI has no character that a line sets apart.
-/

namespace Rdf

namespace Reference

/-! ## Characters -/

/-- Characters that occur in some part of a reference. -/
def isReferenceChar (c : Char) : Bool := isQueryChar c || "#%[]".toList.contains c

/-- Characters that a line of text sets apart: brackets and quotes around terms, the blank between
them, and control characters. -/
def IsDelimiter (c : Char) : Prop :=
  c = '<' ∨ c = '>' ∨ c = '"' ∨ c = ' ' ∨ c.toNat < 0x20 ∨ (0x7F ≤ c.toNat ∧ c.toNat ≤ 0x9F)

instance : DecidablePred IsDelimiter := fun _ => inferInstanceAs (Decidable (_ ∨ _))

section Characters

variable {c : Char}

theorem isReferenceChar_of_isQueryChar (h : isQueryChar c = true) : isReferenceChar c = true := by
  simp [isReferenceChar, h]

theorem isReferenceChar_of_isFragmentChar (h : isFragmentChar c = true) :
    isReferenceChar c = true := isReferenceChar_of_isQueryChar (by simp [isQueryChar, h])

theorem isReferenceChar_of_isPathChar (h : isPathChar c = true) : isReferenceChar c = true :=
  isReferenceChar_of_isFragmentChar (by simp [isFragmentChar, h])

theorem isReferenceChar_of_isUnit (h : isUnit c = true) : isReferenceChar c = true :=
  isReferenceChar_of_isPathChar (by simp [isPathChar, h])

theorem isReferenceChar_of_isPlain (h : isPlain c = true) : isReferenceChar c = true :=
  isReferenceChar_of_isUnit (by simp [isUnit, h])

theorem isReferenceChar_of_isAlphanum (h : c.isAlphanum = true) : isReferenceChar c = true :=
  isReferenceChar_of_isPlain (by simp [isPlain, h])

theorem isReferenceChar_of_isDigit (h : c.isDigit = true) : isReferenceChar c = true :=
  isReferenceChar_of_isAlphanum (by simp [Char.isAlphanum, h])

theorem isAlphanum_iff_toNat : c.isAlphanum = true ↔
    (65 ≤ c.toNat ∧ c.toNat ≤ 90) ∨ (97 ≤ c.toNat ∧ c.toNat ≤ 122) ∨
      (48 ≤ c.toNat ∧ c.toNat ≤ 57) := by
  simp only [Char.isAlphanum, Char.isAlpha, Char.isUpper, Char.isLower, Char.isDigit,
    Bool.or_eq_true, Bool.and_eq_true, decide_eq_true_eq, ge_iff_le, or_assoc]
  exact Iff.rfl

theorem isReferenceChar_of_isHexDigit (h : Hex.isDigit c = true) : isReferenceChar c = true := by
  apply isReferenceChar_of_isAlphanum
  rw [isAlphanum_iff_toNat]
  simp only [Hex.isDigit, Char.isDigit, Bool.or_eq_true, Bool.and_eq_true, decide_eq_true_eq,
    ge_iff_le] at h
  change ((48 ≤ c.toNat ∧ c.toNat ≤ 57) ∨ (97 ≤ c.toNat ∧ c.toNat ≤ 102)) ∨
    (65 ≤ c.toNat ∧ c.toNat ≤ 70) at h
  omega

theorem isDelimiter_iff_toNat : IsDelimiter c ↔ c.toNat = 0x3C ∨ c.toNat = 0x3E ∨
    c.toNat = 0x22 ∨ c.toNat = 0x20 ∨ c.toNat < 0x20 ∨ (0x7F ≤ c.toNat ∧ c.toNat ≤ 0x9F) := by
  unfold IsDelimiter
  rw [← Char.toNat_inj, ← Char.toNat_inj, ← Char.toNat_inj, ← Char.toNat_inj]
  exact Iff.rfl

/-- The ranges beyond ASCII begin after the control characters. -/
theorem le_toNat_of_inRanges {ranges : List (Nat × Nat)} (hranges : ∀ r ∈ ranges, 0xA0 ≤ r.1)
    (h : inRanges ranges c = true) : 0xA0 ≤ c.toNat := by
  obtain ⟨r, hr, hc⟩ := List.any_eq_true.1 h
  have hle := hranges r hr
  simp only [Bool.and_eq_true, decide_eq_true_eq] at hc
  omega

theorem not_isDelimiter_of_isPlain (h : isPlain c = true) : ¬ IsDelimiter c := by
  have hmarks : ("!$&'()*+,-.;=_~".toList.all fun d => ¬ IsDelimiter d) = true := by decide
  rcases Bool.or_eq_true_iff.1 h with halphanum | hmark
  · rw [isAlphanum_iff_toNat] at halphanum
    rw [isDelimiter_iff_toNat]
    omega
  · exact of_decide_eq_true (List.all_eq_true.1 hmarks c (List.contains_iff_mem.1 hmark))

/-- What a line sets apart occurs in no part of a reference. -/
theorem not_isDelimiter (h : isReferenceChar c = true) : ¬ IsDelimiter c := by
  have hmarks : (":@/?#%[]".toList.all fun d => ¬ IsDelimiter d) = true := by decide
  have hranges : ∀ r ∈ wideRanges ++ privateRanges, 0xA0 ≤ r.1 := by decide
  have hkinds : isPlain c = true ∨ inRanges (wideRanges ++ privateRanges) c = true ∨
      c ∈ ":@/?#%[]".toList := by
    simp only [isReferenceChar, isQueryChar, isFragmentChar, isPathChar, isUnit, inRanges,
      Bool.or_eq_true, decide_eq_true_eq, List.contains_iff_mem, List.any_append] at h ⊢
    simp only [String.reduceToList, List.mem_cons] at h ⊢
    grind
  rcases hkinds with hplain | hrange | hmark
  · exact not_isDelimiter_of_isPlain hplain
  · have hle := le_toNat_of_inRanges hranges hrange
    rw [isDelimiter_iff_toNat]
    omega
  · exact of_decide_eq_true (List.all_eq_true.1 hmarks c hmark)

end Characters

/-! ## Parts -/

/-- Every character occurs in some part of a reference. -/
def Within (cs : List Char) : Prop := ∀ c ∈ cs, isReferenceChar c = true

section Parts

variable {c : Char} {cs rest : List Char}

@[simp] theorem within_nil : Within [] := by
  simp [Within]

@[simp] theorem within_cons : Within (c :: cs) ↔ isReferenceChar c = true ∧ Within cs := by
  simp [Within]

/-- Characters of a kind that a reference may contain can be left out in front. -/
theorem within_of_dropWhile {kind : Char → Bool} (hkind : ∀ c, kind c = true → isReferenceChar c)
    (h : Within (cs.dropWhile kind)) : Within cs := by
  intro c hc
  rw [← List.takeWhile_append_dropWhile (p := kind) (l := cs), List.mem_append] at hc
  rcases hc with hc | hc
  · exact hkind c (List.mem_takeWhile_imp hc)
  · exact h c hc

/-- So can the text before a mark, and the mark. -/
theorem within_of_split {mark : Char} (hmark : isReferenceChar mark = true)
    (hfront : Within (cs.takeWhile (· ≠ mark)))
    (hback : Within ((cs.dropWhile (· ≠ mark)).drop 1)) : Within cs := by
  intro c hc
  rw [← List.takeWhile_append_dropWhile (p := (· ≠ mark)) (l := cs), List.mem_append] at hc
  rcases hc with hc | hc
  · exact hfront c hc
  · cases hdrop : cs.dropWhile (· ≠ mark) with
    | nil => rw [hdrop] at hc; cases hc
    | cons d tail =>
      have hd : d = mark := by
        have hnot := List.head?_dropWhile_not (· ≠ mark) cs
        rw [hdrop] at hnot
        simpa using hnot
      rw [hdrop] at hc hback
      rcases List.mem_cons.1 hc with rfl | hc
      · rw [hd]; exact hmark
      · exact hback c hc

/-- What is read of a part, and the character that stops it. -/
theorem scan_eq_ok {allowed stop : Char → Bool}
    (hallowed : ∀ c, allowed c = true → isReferenceChar c = true)
    (h : scan allowed stop cs = .ok rest) :
    (∀ c tail, rest = c :: tail → stop c = true) ∧ (Within rest → Within cs) := by
  fun_induction scan allowed stop cs with
  | case1 =>
    obtain rfl := Except.ok.inj h
    simp
  | case2 tail hstop =>
    obtain rfl := Except.ok.inj h
    simp [hstop]
  | case3 hstop a b tail hhex ih =>
    obtain ⟨hhead, hwithin⟩ := ih h
    obtain ⟨ha, hb⟩ := Bool.and_eq_true_iff.1 hhex
    refine ⟨hhead, fun hrest => ?_⟩
    simp only [within_cons]
    exact ⟨by decide, isReferenceChar_of_isHexDigit ha, isReferenceChar_of_isHexDigit hb,
      hwithin hrest⟩
  | case4 => cases h
  | case5 => cases h
  | case6 c tail hpercent hstop =>
    obtain rfl := Except.ok.inj h
    simp [hstop]
  | case7 c tail hpercent hstop hc ih =>
    obtain ⟨hhead, hwithin⟩ := ih h
    exact ⟨hhead, fun hrest => within_cons.2 ⟨hallowed c hc, hwithin hrest⟩⟩
  | case8 => cases h

theorem within_of_fragment (h : fragment cs = .ok ()) : Within cs := by
  obtain ⟨rest, hscan, -⟩ := map_eq_ok_iff.1 h
  obtain ⟨hhead, hwithin⟩ := scan_eq_ok (fun c => isReferenceChar_of_isFragmentChar) hscan
  cases rest with
  | nil => exact hwithin within_nil
  | cons c tail => cases hhead c tail rfl

theorem within_of_query (h : query cs = .ok ()) : Within cs := by
  obtain ⟨rest, hscan, hrest⟩ := bind_eq_ok_iff.1 h
  obtain ⟨hhead, hwithin⟩ := scan_eq_ok (fun c => isReferenceChar_of_isQueryChar) hscan
  apply hwithin
  cases rest with
  | nil => exact within_nil
  | cons c tail =>
    obtain rfl : c = '#' := by simpa using hhead c tail rfl
    exact within_cons.2 ⟨by decide, within_of_fragment hrest⟩

theorem within_of_path (h : path cs = .ok ()) : Within cs := by
  obtain ⟨rest, hscan, hrest⟩ := bind_eq_ok_iff.1 h
  obtain ⟨hhead, hwithin⟩ := scan_eq_ok (fun c => isReferenceChar_of_isPathChar) hscan
  apply hwithin
  cases rest with
  | nil => exact within_nil
  | cons c tail =>
    have hc : c = '?' ∨ c = '#' := by simpa using hhead c tail rfl
    rcases hc with rfl | rfl
    · exact within_cons.2 ⟨by decide, within_of_query hrest⟩
    · exact within_cons.2 ⟨by decide, within_of_fragment hrest⟩

/-! ## Authorities -/

theorem within_of_hostNumber (h : hostNumber cs = .ok ()) : Within cs := by
  apply within_of_dropWhile fun c => isReferenceChar_of_isDigit
  unfold hostNumber at h
  split at h
  · next hrest => rw [hrest]; exact within_nil
  · next c tail hrest =>
    split at h
    · rw [hrest]; exact within_of_path h
    · cases h

theorem within_of_laterAddress (h : laterAddress cs = .ok ()) : Within cs := by
  unfold laterAddress at h
  simp only at h
  split at h
  · cases h
  · next hversion =>
    split at h
    · cases h
    · split at h
      · cases h
      · split at h
        · cases h
        · next hbody =>
          rw [List.find?_eq_none] at hversion hbody
          refine within_of_split (show isReferenceChar '.' = true by decide) ?_ ?_
          · intro c hc
            exact isReferenceChar_of_isHexDigit (by simpa using hversion c hc)
          · intro c hc
            have hkinds : isPlain c = true ∨ c = ':' := by
              simpa [or_iff_not_imp_left] using hbody c hc
            rcases hkinds with hplain | rfl
            · exact isReferenceChar_of_isPlain hplain
            · decide

/-! ### Numeric addresses -/

theorem within_of_octet? (h : HostAddress.octet? cs = some rest) (hrest : Within rest) :
    Within cs := by
  unfold HostAddress.octet? Digits.span at h
  simp only at h
  split at h
  · cases h
  · obtain rfl := Option.some.inj h
    exact within_of_dropWhile (fun c => isReferenceChar_of_isDigit) hrest

theorem within_of_octets? {count : Nat} (h : HostAddress.octets? count cs = some rest)
    (hrest : Within rest) : Within cs := by
  fun_induction HostAddress.octets? count cs with
  | case1 cs =>
    obtain rfl := Option.some.inj h
    exact hrest
  | case2 cs => exact within_of_octet? h hrest
  | case3 count cs tail hoctet ih =>
    exact within_of_octet? hoctet (within_cons.2 ⟨by decide, ih h⟩)
  | case4 => cases h

theorem within_of_group? (h : HostAddress.group? cs = some rest) (hrest : Within rest) :
    Within cs := by
  unfold HostAddress.group? at h
  simp only at h
  split at h
  · cases h
  · obtain rfl := Option.some.inj h
    exact within_of_dropWhile (fun c => isReferenceChar_of_isHexDigit) hrest

theorem within_of_separator? {first : Bool} (h : HostAddress.separator? first cs = some rest)
    (hrest : Within rest) : Within cs := by
  unfold HostAddress.separator? at h
  split at h
  · obtain rfl := Option.some.inj h
    exact hrest
  · split at h
    · obtain rfl := Option.some.inj h
      exact within_cons.2 ⟨by decide, hrest⟩
    · cases h

theorem within_of_groups {done limit : Nat} (h : Within (HostAddress.groups done limit cs).rest) :
    Within cs := by
  fun_induction HostAddress.groups done limit cs with
  | case1 => exact h
  | case2 => exact h
  | case3 done limit cs start hseparator tail hdotted =>
    split at hdotted
    · cases hdotted
    · exact within_of_separator? hseparator (within_of_octets? hdotted h)
  | case4 done limit cs start hseparator _ tail hgroup ih =>
    exact within_of_separator? hseparator (within_of_group? hgroup (ih h))
  | case5 => exact h

theorem within_of_isAddress (h : HostAddress.isAddress cs = true) : Within cs := by
  unfold HostAddress.isAddress at h
  simp only at h
  apply within_of_groups
  split at h
  · rw [List.isEmpty_iff.1 h]
    exact within_nil
  · split at h
    · cases h
    · split at h
      · next tail hrest =>
        rw [hrest]
        have htail : Within tail := by
          apply within_of_groups
          rw [List.isEmpty_iff.1 h]
          exact within_nil
        exact within_cons.2 ⟨by decide, within_cons.2 ⟨by decide, htail⟩⟩
      · cases h

theorem within_of_bracketed (h : bracketed cs = .ok ()) : Within cs := by
  unfold bracketed at h
  split at h
  · exact within_cons.2 ⟨by decide, within_of_laterAddress h⟩
  · exact within_cons.2 ⟨by decide, within_of_laterAddress h⟩
  · split at h
    · next haddress => exact within_of_isAddress haddress
    · cases h

theorem within_of_host (h : host cs = .ok ()) : Within cs := by
  unfold host at h
  split at h
  · next tail =>
    refine within_cons.2 ⟨by decide, ?_⟩
    split at h
    · obtain ⟨⟨⟩, haddress, h⟩ := bind_eq_ok_iff.1 h
      refine within_of_split (show isReferenceChar ']' = true by decide)
        (within_of_bracketed haddress) ?_
      split at h
      · next hrest => rw [hrest]; exact within_nil
      · next hrest => rw [hrest]; exact within_cons.2 ⟨by decide, within_of_hostNumber h⟩
      · next hrest =>
        rw [hrest]
        split at h
        · exact within_of_path h
        · cases h
    · cases h
  · obtain ⟨rest, hscan, hrest⟩ := bind_eq_ok_iff.1 h
    obtain ⟨-, hwithin⟩ := scan_eq_ok (fun c => isReferenceChar_of_isUnit) hscan
    apply hwithin
    split at hrest
    · exact within_cons.2 ⟨by decide, within_of_hostNumber hrest⟩
    · exact within_of_path hrest

theorem within_of_authority (h : authority cs = .ok ()) : Within cs := by
  obtain ⟨rest, hscan, hrest⟩ := bind_eq_ok_iff.1 h
  split at hrest
  · refine (scan_eq_ok (fun c hc => ?_) hscan).2 (within_cons.2 ⟨by decide, within_of_host hrest⟩)
    rcases Bool.or_eq_true_iff.1 hc with hunit | hcolon
    · exact isReferenceChar_of_isUnit hunit
    · rw [of_decide_eq_true hcolon]; decide
  · exact within_of_host hrest

/-! ## References -/

theorem within_of_hierarchy (h : hierarchy cs = .ok ()) : Within cs := by
  unfold hierarchy at h
  split at h
  · next tail => exact within_cons.2 ⟨by decide, within_cons.2 ⟨by decide, within_of_authority h⟩⟩
  · exact within_of_path h

theorem within_of_relative (h : relative cs = .ok ()) : Within cs := by
  unfold relative at h
  split at h
  · exact within_of_hierarchy h
  · obtain ⟨rest, hscan, hrest⟩ := bind_eq_ok_iff.1 h
    refine (scan_eq_ok (fun c hc => ?_) hscan).2 (within_of_path hrest)
    rcases Bool.or_eq_true_iff.1 hc with hunit | hat
    · exact isReferenceChar_of_isUnit hunit
    · rw [of_decide_eq_true hat]; decide

theorem within_of_afterScheme? (h : afterScheme? cs = some rest) (hrest : Within rest) :
    Within cs := by
  unfold afterScheme? at h
  split at h
  · cases h
  · next c tail =>
    split at h
    · next halpha =>
      split at h
      · next hdrop =>
        obtain rfl := Option.some.inj h
        refine within_cons.2 ⟨isReferenceChar_of_isAlphanum (by simp [Char.isAlphanum, halpha]), ?_⟩
        refine within_of_dropWhile (fun c hc => isReferenceChar_of_isPlain ?_)
          (hdrop ▸ within_cons.2 ⟨by decide, hrest⟩)
        simp only [isPlain, Bool.or_eq_true, decide_eq_true_eq] at hc ⊢
        rcases hc with ((hc | rfl) | rfl) | rfl
        · exact .inl hc
        · exact .inr (by decide)
        · exact .inr (by decide)
        · exact .inr (by decide)
      · cases h
    · cases h

/-- A text without fault consists of characters that occur in some part of a reference. -/
theorem within_of_check (h : check cs = .ok ()) : Within cs := by
  unfold check at h
  split at h
  · cases h
  · split at h
    · next tail hscheme => exact within_of_afterScheme? hscheme (within_of_hierarchy h)
    · exact within_of_relative h

end Parts

end Reference

/-! ## Accepted IRIs -/

namespace Iri

variable {text : String} {i : Iri}

theorem read_eq_ok_iff :
    read text = .ok i ↔ i.text = text ∧ Reference.check text.toList = .ok () := by
  unfold read
  split
  · next hcheck =>
    rw [Except.ok.injEq, hcheck]
    exact ⟨fun h => h ▸ ⟨rfl, rfl⟩, fun h => h.1 ▸ rfl⟩
  · next hcheck => simp [hcheck]

/-- The text of the IRI is accepted. -/
def Accepted (i : Iri) : Prop := read i.text = .ok i

instance : DecidablePred Accepted := fun _ => inferInstanceAs (Decidable (_ = _))

theorem accepted_of_read (h : read text = .ok i) : i.Accepted := by
  have htext := (read_eq_ok_iff.1 h).1
  unfold Accepted
  rw [htext, h]

/-- The text has no character that a line sets apart. -/
def IsClean (i : Iri) : Prop := ∀ c ∈ i.text.toList, ¬ Reference.IsDelimiter c

theorem Accepted.isClean (h : i.Accepted) : i.IsClean := by
  intro c hc
  exact Reference.not_isDelimiter (Reference.within_of_check (read_eq_ok_iff.1 h).2 c hc)

end Iri

end Rdf
