import Mathlib
import Rdf.Term.LanguageTag

/-!
# Language tags

The check splits a text at its hyphens and looks at the parts one by one. The grammar speaks of the
text as a whole: a run of letters, and runs of letters and digits with a hyphen in front. Main
statements:

* `isValid_iff`: the texts that pass the check are those of the grammar;
* `read?_eq_some_iff`: they are stored in lower case;
* `toLower_mem_grammar`: which is a tag again;
* `map_toLower_eq_iff`: texts are stored alike if they differ only in the case of letters.
-/

open scoped Computability

namespace Rdf.LanguageTag

/-! ## The grammar -/

/-- The letters of ASCII. -/
def IsLetter (c : Char) : Prop := ('A' ≤ c ∧ c ≤ 'Z') ∨ ('a' ≤ c ∧ c ≤ 'z')

/-- The digits of ASCII. -/
def IsDigit (c : Char) : Prop := '0' ≤ c ∧ c ≤ '9'

instance : DecidablePred IsLetter := fun _ => inferInstanceAs (Decidable (_ ∨ _))

instance : DecidablePred IsDigit := fun _ => inferInstanceAs (Decidable (_ ∧ _))

/-- One to eight characters of a kind. -/
def run (kind : Char → Prop) : Language Char := {w | 1 ≤ w.length ∧ w.length ≤ 8 ∧ ∀ c ∈ w, kind c}

/-- The language tags: `[A-Za-z]{1,8}(-[A-Za-z0-9]{1,8})*`. -/
def grammar : Language Char :=
  run IsLetter * (({['-']} : Language Char) * run fun c => IsLetter c ∨ IsDigit c)∗

theorem mem_run {kind : Char → Prop} {w : List Char} :
    w ∈ run kind ↔ 1 ≤ w.length ∧ w.length ≤ 8 ∧ ∀ c ∈ w, kind c := Iff.rfl

/-- A tag is a first run and further runs with hyphens in front. -/
theorem mem_grammar_iff {cs : List Char} :
    cs ∈ grammar ↔ ∃ (first : List Char) (others : List (List Char)),
      cs = first ++ others.flatMap ('-' :: ·) ∧ first ∈ run IsLetter ∧
      ∀ w ∈ others, w ∈ run fun c => IsLetter c ∨ IsDigit c := by
  constructor
  · intro h
    obtain ⟨first, hfirst, rest, hrest, rfl⟩ := Language.mem_mul.1 h
    obtain ⟨parts, rfl, hparts⟩ := Language.mem_kstar.1 hrest
    -- every part is a hyphen and a run, so dropping its head loses nothing
    have hpart : ∀ y ∈ parts, y = '-' :: y.tail ∧
        y.tail ∈ run fun c => IsLetter c ∨ IsDigit c := by
      intro y hy
      obtain ⟨hyphen, hhyphen, w, hw, rfl⟩ := Language.mem_mul.1 (hparts y hy)
      obtain rfl : hyphen = ['-'] := hhyphen
      exact ⟨rfl, hw⟩
    refine ⟨first, parts.map List.tail, ?_, hfirst, ?_⟩
    · rw [List.flatMap_map, List.flatMap_def,
        List.map_congr_left fun y hy => (hpart y hy).1.symm, List.map_id']
    · intro w hw
      obtain ⟨y, hy, rfl⟩ := List.mem_map.1 hw
      exact (hpart y hy).2
  · rintro ⟨first, others, rfl, hfirst, hothers⟩
    apply Language.append_mem_mul hfirst
    rw [Language.mem_kstar, List.flatMap_def]
    refine ⟨_, rfl, fun y hy => ?_⟩
    obtain ⟨w, hw, rfl⟩ := List.mem_map.1 hy
    exact Language.append_mem_mul (Set.mem_singleton ['-']) (hothers w hw)

/-! ## Characters -/

section Characters

variable {c d : Char}

theorem isLetter_iff_toNat :
    IsLetter c ↔ (65 ≤ c.toNat ∧ c.toNat ≤ 90) ∨ (97 ≤ c.toNat ∧ c.toNat ≤ 122) := Iff.rfl

theorem isDigit_iff_toNat : IsDigit c ↔ 48 ≤ c.toNat ∧ c.toNat ≤ 57 := Iff.rfl

theorem isAlpha_iff : c.isAlpha = true ↔ IsLetter c := by
  simp [Char.isAlpha, Char.isUpper, Char.isLower, IsLetter, Char.le_def]

theorem isAlphanum_iff : c.isAlphanum = true ↔ IsLetter c ∨ IsDigit c := by
  rw [Char.isAlphanum, Bool.or_eq_true, isAlpha_iff]
  simp [Char.isDigit, IsDigit, Char.le_def]

theorem toNat_toLower (c : Char) :
    c.toLower.toNat = if 65 ≤ c.toNat ∧ c.toNat ≤ 90 then c.toNat + 32 else c.toNat := by
  unfold Char.toLower
  have hiff : c.val ≥ 'A'.val ∧ c.val ≤ 'Z'.val ↔ 65 ≤ c.toNat ∧ c.toNat ≤ 90 := Iff.rfl
  by_cases h : 65 ≤ c.toNat ∧ c.toNat ≤ 90
  · rw [dif_pos (hiff.2 h), if_pos h]
    show (c.val.toNat + 32) % 2 ^ 32 = c.val.toNat + 32
    have hle : c.val.toNat ≤ 90 := h.2
    omega
  · rw [dif_neg fun hv => h (hiff.1 hv), if_neg h]

theorem toLower_toLower (c : Char) : c.toLower.toLower = c.toLower := by
  apply Char.toNat_inj.1
  rw [toNat_toLower, toNat_toLower c]
  split_ifs <;> omega

theorem IsLetter.toLower (h : IsLetter c) : IsLetter c.toLower := by
  rw [isLetter_iff_toNat] at h ⊢
  rw [toNat_toLower]
  split <;> omega

theorem IsDigit.toLower (h : IsDigit c) : IsDigit c.toLower := by
  rw [isDigit_iff_toNat] at h ⊢
  rw [toNat_toLower]
  split <;> omega

/-- The same character, or the same letter in the other case. -/
def SameButCase (c d : Char) : Prop :=
  c = d ∨ IsLetter c ∧ IsLetter d ∧ (c.toNat = d.toNat + 32 ∨ d.toNat = c.toNat + 32)

theorem toLower_eq_iff : c.toLower = d.toLower ↔ SameButCase c d := by
  unfold SameButCase
  rw [← Char.toNat_inj, ← Char.toNat_inj, toNat_toLower, toNat_toLower, isLetter_iff_toNat,
    isLetter_iff_toNat]
  split <;> split <;> omega

end Characters

/-! ## The check -/

theorem subtags_eq_splitOn (cs : List Char) : subtags cs = cs.splitOn '-' := by
  induction cs with
  | nil => rfl
  | cons c cs ih =>
    rw [subtags, List.splitOn_cons_eq_if_modifyHead, ih]
    by_cases hc : c = '-'
    · simp [hc]
    · cases hsplit : cs.splitOn '-' with
      | nil => exact absurd hsplit (List.splitOn_ne_nil '-' cs)
      | cons first others => simp [hc]

theorem intercalate_hyphen (first : List Char) (others : List (List Char)) :
    ['-'].intercalate (first :: others) = first ++ others.flatMap ('-' :: ·) := by
  induction others generalizing first with
  | nil => simp
  | cons w others ih => rw [List.intercalate_cons_cons, ih w]; simp

theorem isSubtag_iff {allowed : Char → Bool} {kind : Char → Prop}
    (h : ∀ c, allowed c = true ↔ kind c) (w : List Char) :
    isSubtag allowed w = true ↔ w ∈ run kind := by
  simp only [isSubtag, Bool.and_eq_true, decide_eq_true_eq, List.all_eq_true, h, mem_run, and_assoc]

theorem hyphen_notMem_run {kind : Char → Prop} (h : ¬ kind '-') {w : List Char} (hw : w ∈ run kind) :
    '-' ∉ w := fun hmem => h ((mem_run.1 hw).2.2 '-' hmem)

/-- The texts that pass the check are those of the grammar. -/
theorem isValid_iff {cs : List Char} : isValid cs = true ↔ cs ∈ grammar := by
  have hparts : ∀ first others, subtags cs = first :: others →
      (isValid cs = true ↔ first ∈ run IsLetter ∧
        ∀ w ∈ others, w ∈ run fun c => IsLetter c ∨ IsDigit c) := by
    intro first others h
    simp only [isValid, h, Bool.and_eq_true, List.all_eq_true,
      isSubtag_iff fun c => isAlpha_iff, isSubtag_iff fun c => isAlphanum_iff]
  rw [mem_grammar_iff]
  constructor
  · intro h
    cases hsplit : subtags cs with
    | nil =>
      rw [subtags_eq_splitOn] at hsplit
      exact absurd hsplit (List.splitOn_ne_nil '-' cs)
    | cons first others =>
      refine ⟨first, others, ?_, (hparts first others hsplit).1 h⟩
      rw [← intercalate_hyphen, ← hsplit, subtags_eq_splitOn, List.intercalate_splitOn]
  · rintro ⟨first, others, hcs, hfirst, hothers⟩
    refine (hparts first others ?_).2 ⟨hfirst, hothers⟩
    rw [subtags_eq_splitOn, hcs, ← intercalate_hyphen]
    refine List.splitOn_intercalate '-' ?_ (List.cons_ne_nil _ _)
    rw [List.forall_mem_cons]
    -- there is no hyphen within a run
    exact ⟨hyphen_notMem_run (by decide) hfirst,
      fun w hw => hyphen_notMem_run (by decide) (hothers w hw)⟩

theorem read?_eq_some_iff {tag language : String} :
    read? tag = some language ↔ tag.toList ∈ grammar ∧ language = tag.toLower := by
  have hlower : String.ofList (tag.toList.map Char.toLower) = tag.toLower := by
    rw [← String.toList_inj, String.toList_ofList, String.toLower, String.toList_map]
  unfold read?
  simp only [hlower]
  by_cases h : tag.toList ∈ grammar
  · rw [if_pos (isValid_iff.2 h), Option.some.injEq]
    exact ⟨fun heq => ⟨h, heq.symm⟩, fun heq => heq.2.symm⟩
  · rw [if_neg fun hv => h (isValid_iff.1 hv)]
    exact ⟨fun heq => absurd heq (by simp), fun heq => absurd heq.1 h⟩

/-! ## Case -/

theorem map_toLower_mem_run (kind : Char → Prop) (h : ∀ c, kind c → kind c.toLower)
    {w : List Char} (hw : w ∈ run kind) : w.map Char.toLower ∈ run kind := by
  obtain ⟨hpos, hle, hall⟩ := mem_run.1 hw
  refine mem_run.2 ⟨by simpa using hpos, by simpa using hle, fun c hc => ?_⟩
  obtain ⟨d, hd, rfl⟩ := List.mem_map.1 hc
  exact h d (hall d hd)

theorem map_toLower_mem_grammar {cs : List Char} (h : cs ∈ grammar) :
    cs.map Char.toLower ∈ grammar := by
  obtain ⟨first, others, rfl, hfirst, hothers⟩ := mem_grammar_iff.1 h
  refine mem_grammar_iff.2 ⟨first.map Char.toLower, others.map (·.map Char.toLower), ?_,
    map_toLower_mem_run IsLetter (fun c => IsLetter.toLower) hfirst, fun w hw => ?_⟩
  · have hhyphen : '-'.toLower = '-' := rfl
    simp [List.flatMap_def, List.map_flatten, Function.comp_def, hhyphen]
  · obtain ⟨v, hv, rfl⟩ := List.mem_map.1 hw
    exact map_toLower_mem_run (fun c => IsLetter c ∨ IsDigit c)
      (fun c => Or.imp IsLetter.toLower IsDigit.toLower) (hothers v hv)

theorem toLower_mem_grammar {tag : String} (h : tag.toList ∈ grammar) :
    tag.toLower.toList ∈ grammar := by
  rw [String.toLower, String.toList_map]
  exact map_toLower_mem_grammar h

theorem toLower_toLower_string (tag : String) : tag.toLower.toLower = tag.toLower := by
  rw [← String.toList_inj]
  simp only [String.toLower, String.toList_map, List.map_map, Function.comp_def, toLower_toLower]

theorem map_toLower_eq_iff {cs ds : List Char} :
    cs.map Char.toLower = ds.map Char.toLower ↔ List.Forall₂ SameButCase cs ds := by
  rw [← List.forall₂_eq_eq_eq, List.forall₂_map_left_iff, List.forall₂_map_right_iff]
  simp only [toLower_eq_iff]

theorem toLower_string_eq_iff {tag tag' : String} :
    tag.toLower = tag'.toLower ↔ List.Forall₂ SameButCase tag.toList tag'.toList := by
  rw [← String.toList_inj, String.toLower, String.toLower, String.toList_map, String.toList_map,
    map_toLower_eq_iff]

/-- The characters of tags. -/
theorem mem_grammar_char {cs : List Char} (h : cs ∈ grammar) {c : Char} (hc : c ∈ cs) :
    IsLetter c ∨ IsDigit c ∨ c = '-' := by
  obtain ⟨first, others, rfl, hfirst, hothers⟩ := mem_grammar_iff.1 h
  rcases List.mem_append.1 hc with hc | hc
  · exact .inl ((mem_run.1 hfirst).2.2 c hc)
  · obtain ⟨w, hw, hcw⟩ := List.mem_flatMap.1 hc
    rcases List.mem_cons.1 hcw with rfl | hcw
    · exact .inr (.inr rfl)
    · rcases (mem_run.1 (hothers w hw)).2.2 c hcw with hletter | hdigit
      · exact .inl hletter
      · exact .inr (.inl hdigit)

end Rdf.LanguageTag
