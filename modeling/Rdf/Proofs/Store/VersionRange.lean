import Rdf.Store.VersionRange

/-!
# Version ranges as histories of one triple

Between writes the bounds of a range grow strictly and stay below the version that the next write
uses. On such a range `contains` is a question of parity: a version sees the triple iff the number
of bounds up to that version is odd (`contains_iff`). From this follow

* what a toggle in a version does: it turns presence in that version over and leaves every earlier
  version alone (`contains_toggle_self`, `Writing.contains_of_lt`);
* what the end of a transaction does: an upgrade moves what the transaction saw to the new version
  (`Writing.contains_upgrade`) and adds a bound iff presence was turned over
  (`Writing.bounds_upgrade`), and a rollback restores the old bounds (`Writing.bounds_rollBack`).
-/

namespace Rdf
namespace VersionRange

/-! ## Presence as parity -/

/-- On growing bounds, a version is covered iff the number of bounds up to it is odd. -/
theorem covers_iff : ∀ {bs : List Nat} {v : Nat}, bs.Pairwise (· < ·) →
    (covers bs v = true ↔ bs.countP (· ≤ v) % 2 = 1)
  | [], v, _ => by simp [covers]
  | [start], v, _ => by by_cases h : start ≤ v <;> simp [covers, h]
  | start :: stop :: bs, v, h => by
    rw [List.pairwise_cons, List.pairwise_cons] at h
    obtain ⟨hstart, hstop, hbs⟩ := h
    have hlt : start < stop := hstart stop (by simp)
    have ih := covers_iff (v := v) hbs
    -- the first two bounds add two, one or nothing to the count: `v` lies behind, between or before
    simp only [covers, Bool.or_eq_true, Bool.and_eq_true, decide_eq_true_eq, ih,
      List.countP_cons]
    by_cases hv : stop ≤ v
    · have : start ≤ v := by omega
      simp only [hv, this, if_true]
      omega
    · -- no later bound is reached either
      have hnone : bs.countP (· ≤ v) = 0 := by
        rw [List.countP_eq_zero]
        intro b hb
        have := hstop b hb
        simp only [decide_eq_true_eq]
        omega
      rw [hnone]
      by_cases hs : start ≤ v <;> simp [hv, hs]
      omega

theorem contains_iff {r : VersionRange} {v : Nat} (h : r.bounds.Pairwise (· < ·)) :
    r.contains v = true ↔ r.bounds.countP (· ≤ v) % 2 = 1 := covers_iff h

/-- Two ranges that differ only in bounds above a version agree in it. -/
theorem contains_congr {r r' : VersionRange} {v : Nat} (h : r.bounds.Pairwise (· < ·))
    (h' : r'.bounds.Pairwise (· < ·))
    (hcount : r'.bounds.countP (· ≤ v) = r.bounds.countP (· ≤ v)) :
    r'.contains v = r.contains v := by
  rw [Bool.eq_iff_iff, contains_iff h, contains_iff h', hcount]

/-! ## Ranges below a version -/

/-- The bounds grow strictly, and all of them are smaller than `v`. -/
structure Below (r : VersionRange) (v : Nat) : Prop where
  sorted : r.bounds.Pairwise (· < ·)
  lt : ∀ b ∈ r.bounds, b < v

theorem Below.mono {r : VersionRange} {v w : Nat} (h : r.Below v) (hvw : v ≤ w) : r.Below w :=
  ⟨h.sorted, fun b hb => Nat.lt_of_lt_of_le (h.lt b hb) hvw⟩

theorem below_absent (v : Nat) : absent.Below v :=
  ⟨List.Pairwise.nil, fun b hb => by simp [bounds] at hb⟩

/-- The last bound is the last element of the list of bounds. -/
theorem mem_of_last? {r : VersionRange} {v : Nat} (h : r.last? = some v) : v ∈ r.bounds :=
  List.mem_of_getLast? h

theorem Below.last?_ne {r : VersionRange} {v w : Nat} (h : r.Below v) (hvw : v ≤ w) :
    r.last? ≠ some w := by
  intro hl
  have := h.lt w (mem_of_last? hl)
  omega

/-- From the last bound on, presence does not change any more. -/
theorem contains_of_le {r : VersionRange} {v : Nat} (h : r.bounds.Pairwise (· < ·))
    (hle : ∀ b ∈ r.bounds, b ≤ v) : r.contains v = r.isPresent := by
  have hcount : r.bounds.countP (· ≤ v) = r.bounds.length := by
    rw [List.countP_eq_length]
    intro b hb
    simpa using hle b hb
  rw [Bool.eq_iff_iff, contains_iff h, hcount, isPresent, decide_eq_true_eq]

/-! ## Ranges in which a version is being written -/

/-- A range while version `v` is written: its bounds are the ones from before, or those and `v`. -/
def Writing (v : Nat) (before r : VersionRange) : Prop :=
  r.bounds = before.bounds ∨ r.bounds = before.bounds ++ [v]

theorem Writing.refl (v : Nat) (r : VersionRange) : Writing v r r := Or.inl rfl

namespace Writing

variable {v w : Nat} {before r : VersionRange}

/-- The last bound tells whether the range was changed. -/
theorem bounds_eq (h : Writing v before r) (hb : before.Below v) :
    r.bounds = if r.last? = some v then before.bounds ++ [v] else before.bounds := by
  rcases h with h | h
  · -- the old bounds are smaller than `v`, so that none of them is mistaken for a new one
    have hl : r.last? ≠ some v := by
      rw [last?, h]
      exact hb.last?_ne (Nat.le_refl v)
    rw [if_neg hl, h]
  · have hl : r.last? = some v := by rw [last?, h, List.getLast?_concat]
    rw [if_pos hl, h]

theorem below_succ (h : Writing v before r) (hb : before.Below v) : r.Below (v + 1) := by
  rcases h with h | h
  · constructor
    · rw [h]; exact hb.sorted
    · intro b hm
      rw [h] at hm
      have := hb.lt b hm
      omega
  · constructor
    · rw [h, List.pairwise_append]
      refine ⟨hb.sorted, List.pairwise_singleton _ _, fun a ha b hm => ?_⟩
      rw [List.mem_singleton] at hm
      rw [hm]
      exact hb.lt a ha
    · intro b hm
      rw [h, List.mem_append, List.mem_singleton] at hm
      rcases hm with hm | hm
      · have := hb.lt b hm
        omega
      · omega

/-- Versions before the one being written see what they saw. -/
theorem contains_of_lt (h : Writing v before r) (hb : before.Below v) (hw : w < v) :
    r.contains w = before.contains w := by
  apply contains_congr hb.sorted (h.below_succ hb).sorted
  rcases h with h | h
  · rw [h]
  · have hv : ¬ v ≤ w := by omega
    rw [h, List.countP_append]
    simp [hv]

/-- The version being written sees the latest state. -/
theorem contains_self (h : Writing v before r) (hb : before.Below v) :
    r.contains v = r.isPresent := by
  have hs := h.below_succ hb
  refine contains_of_le hs.sorted fun b hm => ?_
  have := hs.lt b hm
  omega

end Writing

/-! ## Toggles -/

theorem bounds_toggle (r : VersionRange) (v : Nat) :
    (r.toggle v).bounds = if r.last? = some v then r.bounds.dropLast else r.bounds ++ [v] := by
  unfold toggle
  split
  · rw [bounds_pop]
  · rw [bounds_push]

theorem isPresent_toggle (r : VersionRange) (v : Nat) :
    (r.toggle v).isPresent = !r.isPresent := by
  rw [isPresent, isPresent, bounds_toggle]
  -- one bound more or less turns the parity over
  by_cases h : r.last? = some v
  · have hpos : 0 < r.bounds.length := List.length_pos_of_mem (mem_of_last? h)
    rw [if_pos h, List.length_dropLast, Bool.eq_iff_iff]
    simp only [Bool.not_eq_true', decide_eq_true_eq, decide_eq_false_iff_not]
    omega
  · rw [if_neg h, List.length_append, List.length_singleton, Bool.eq_iff_iff]
    simp only [Bool.not_eq_true', decide_eq_true_eq, decide_eq_false_iff_not]
    omega

theorem Writing.toggle {v : Nat} {before r : VersionRange} (h : Writing v before r)
    (hb : before.Below v) : Writing v before (r.toggle v) := by
  have heq := h.bounds_eq hb
  by_cases hl : r.last? = some v
  · left
    rw [bounds_toggle, if_pos hl, heq, if_pos hl, List.dropLast_concat]
  · right
    rw [bounds_toggle, if_neg hl, heq, if_neg hl]

theorem contains_toggle_self {v : Nat} {before r : VersionRange} (h : Writing v before r)
    (hb : before.Below v) : (r.toggle v).contains v = !r.contains v := by
  rw [(h.toggle hb).contains_self hb, h.contains_self hb, isPresent_toggle]

theorem add?_eq (r : VersionRange) (v : Nat) :
    r.add? v = if r.isPresent then none else some (r.toggle v) := rfl

theorem remove?_eq (r : VersionRange) (v : Nat) :
    r.remove? v = if r.isPresent then some (r.toggle v) else none := rfl

/-! ## The end of a transaction -/

theorem bounds_setLast {r : VersionRange} (h : r.bounds ≠ []) (v : Nat) :
    (r.setLast v).bounds = r.bounds.dropLast ++ [v] := by
  cases r with
  | absent => exact absurd rfl h
  | since start => rfl
  | between start stop => rfl
  | history bounds => rfl

theorem bounds_upgrade (r : VersionRange) (n v : Nat) :
    (r.upgrade n v).bounds = if r.last? = some n then r.bounds.dropLast ++ [v] else r.bounds := by
  unfold upgrade
  split
  · next h => exact bounds_setLast (List.ne_nil_of_mem (mem_of_last? h)) v
  · rfl

theorem bounds_rollBack (r : VersionRange) (n : Nat) :
    (r.rollBack n).bounds = if r.last? = some n then r.bounds.dropLast else r.bounds := by
  unfold rollBack
  split
  · rw [bounds_pop]
  · rfl

theorem isPresent_upgrade (r : VersionRange) (n v : Nat) :
    (r.upgrade n v).isPresent = r.isPresent := by
  rw [isPresent, isPresent, bounds_upgrade]
  by_cases h : r.last? = some n
  · have hpos : 0 < r.bounds.length := List.length_pos_of_mem (mem_of_last? h)
    rw [if_pos h, List.length_append, List.length_dropLast, List.length_singleton,
      Nat.sub_add_cancel hpos]
  · rw [if_neg h]

namespace Writing

variable {n v w : Nat} {before r : VersionRange}

/-- After an upgrade the changes of the transaction are changes of the new version. -/
theorem upgrade (h : Writing n before r) (hb : before.Below n) :
    Writing v before (r.upgrade n v) := by
  have heq := h.bounds_eq hb
  by_cases hl : r.last? = some n
  · right
    rw [bounds_upgrade, if_pos hl, heq, if_pos hl, List.dropLast_concat]
  · left
    rw [bounds_upgrade, if_neg hl, heq, if_neg hl]

theorem bounds_rollBack (h : Writing n before r) (hb : before.Below n) :
    (r.rollBack n).bounds = before.bounds := by
  have heq := h.bounds_eq hb
  by_cases hl : r.last? = some n
  · rw [VersionRange.bounds_rollBack, if_pos hl, heq, if_pos hl, List.dropLast_concat]
  · rw [VersionRange.bounds_rollBack, if_neg hl, heq, if_neg hl]

/-- The new version sees what the transaction saw. -/
theorem contains_upgrade (h : Writing n before r) (hb : before.Below v) (hv : v ≤ n) :
    (r.upgrade n v).contains v = r.contains n := by
  have hbn := hb.mono hv
  rw [(h.upgrade hbn).contains_self hb, h.contains_self hbn, isPresent_upgrade]

end Writing

/-- The last bound tells whether presence was turned over. -/
theorem Writing.last?_eq_some_iff {v : Nat} {before r : VersionRange} (h : Writing v before r)
    (hb : before.Below v) : r.last? = some v ↔ r.isPresent ≠ before.isPresent := by
  rcases h with h | h
  · have hl : r.last? ≠ some v := by
      rw [last?, h]
      exact hb.last?_ne (Nat.le_refl v)
    have heq : r.isPresent = before.isPresent := by rw [isPresent, h, isPresent]
    exact iff_of_false hl fun hne => hne heq
  · have hl : r.last? = some v := by rw [last?, h, List.getLast?_concat]
    have hne : r.isPresent ≠ before.isPresent := by
      rw [isPresent, isPresent, h, List.length_append, List.length_singleton, ne_eq,
        Bool.eq_iff_iff]
      simp only [decide_eq_true_eq]
      omega
    exact iff_of_true hl hne

/-- After an upgrade there are the old bounds, and the new version if presence was turned over. -/
theorem Writing.bounds_upgrade {n : Nat} {before r : VersionRange} (h : Writing n before r)
    (hb : before.Below n) (v : Nat) : (r.upgrade n v).bounds =
      before.bounds ++ if r.isPresent = before.isPresent then [] else [v] := by
  have heq := h.bounds_eq hb
  have hiff := h.last?_eq_some_iff hb
  rw [VersionRange.bounds_upgrade]
  by_cases hl : r.last? = some n
  · rw [if_pos hl, if_neg (hiff.1 hl), heq, if_pos hl, List.dropLast_concat]
  · have hp : r.isPresent = before.isPresent :=
      Decidable.byContradiction fun hne => hl (hiff.2 hne)
    rw [if_neg hl, if_pos hp, List.append_nil, heq, if_neg hl]

/-- A range that does not end with the transaction's bound is left alone. -/
theorem upgrade_of_last?_ne {r : VersionRange} {n v : Nat} (h : r.last? ≠ some n) :
    r.upgrade n v = r := if_neg h

theorem rollBack_of_last?_ne {r : VersionRange} {n : Nat} (h : r.last? ≠ some n) :
    r.rollBack n = r := if_neg h

/-- A new bound may as well be the version at once. -/
theorem upgrade_push (r : VersionRange) (n v : Nat) : (r.push n).upgrade n v = r.push v := by
  have hlast : (r.push n).last? = some n := by rw [last?, bounds_push, List.getLast?_concat]
  rw [upgrade, if_pos hlast]
  cases r with
  | absent => rfl
  | since start => rfl
  | between start stop => rfl
  | history bs =>
    rw [push, setLast, List.dropLast_concat]
    rfl

/-- A second upgrade of one range does nothing. -/
theorem upgrade_upgrade {r : VersionRange} {n v : Nat} (hv : v ≠ n) :
    (r.upgrade n v).upgrade n v = r.upgrade n v := by
  apply upgrade_of_last?_ne
  rw [last?, bounds_upgrade]
  by_cases h : r.last? = some n
  · rw [if_pos h, List.getLast?_concat]
    intro heq
    exact hv (Option.some.inj heq)
  · rw [if_neg h]
    exact h

/-- A second rollback of one range does nothing. -/
theorem Writing.rollBack_rollBack {before r : VersionRange} {n : Nat} (h : Writing n before r)
    (hb : before.Below n) : (r.rollBack n).rollBack n = r.rollBack n := by
  apply rollBack_of_last?_ne
  -- the bounds are the old ones again, and those do not end with `n`
  rw [last?, h.bounds_rollBack hb]
  exact hb.last?_ne (Nat.le_refl n)

/-! ## Canonical forms -/

/-- Zero, one and two bounds have the forms of their own. -/
def Canonical (r : VersionRange) : Prop := ofBounds r.bounds = r

theorem canonical_ofBounds (bs : List Nat) : (ofBounds bs).Canonical := by
  rw [Canonical, bounds_ofBounds]

theorem canonical_absent : absent.Canonical := rfl

theorem canonical_since (v : Nat) : (since v).Canonical := rfl

/-- A range without bounds has the form for it. -/
theorem Canonical.eq_absent {r : VersionRange} (h : r.Canonical) (hb : r.bounds = []) :
    r = absent := by
  rw [← h, hb]
  rfl

theorem Canonical.push {r : VersionRange} (h : r.Canonical) (v : Nat) : (r.push v).Canonical := by
  cases r with
  | absent => rfl
  | since start => rfl
  | between start stop => rfl
  | history bs =>
    -- a history in canonical form has three bounds at least
    rcases bs with _ | ⟨a, _ | ⟨b, _ | ⟨c, bs⟩⟩⟩
    · cases h
    · cases h
    · cases h
    · rfl

theorem Canonical.toggle {r : VersionRange} (h : r.Canonical) (v : Nat) :
    (r.toggle v).Canonical := by
  unfold VersionRange.toggle
  split
  · exact canonical_ofBounds _
  · exact h.push v

theorem Canonical.setLast {r : VersionRange} (h : r.Canonical) (v : Nat) :
    (r.setLast v).Canonical := by
  cases r with
  | absent => rfl
  | since start => rfl
  | between start stop => rfl
  | history bs =>
    -- the last of three bounds or more is replaced, and they stay as many
    rcases bs with _ | ⟨a, _ | ⟨b, _ | ⟨c, bs⟩⟩⟩
    · cases h
    · cases h
    · cases h
    · cases bs <;> rfl

theorem Canonical.upgrade {r : VersionRange} (h : r.Canonical) (n v : Nat) :
    (r.upgrade n v).Canonical := by
  unfold VersionRange.upgrade
  split
  · exact h.setLast v
  · exact h

theorem Canonical.rollBack {r : VersionRange} (h : r.Canonical) (n : Nat) :
    (r.rollBack n).Canonical := by
  unfold VersionRange.rollBack
  split
  · exact canonical_ofBounds _
  · exact h

end VersionRange
end Rdf
