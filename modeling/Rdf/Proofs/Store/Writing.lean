import Rdf.Store.Basic
import Rdf.Proofs.Store.Queries
import Rdf.Proofs.Store.VersionRange

/-!
# Changes of an index in one version

All that ever writes to an index (a transaction, a bulk load, the building of a new index) does so
under one number, in single changes: `Write`. An index that such changes have led from `c₀` to `c`
is related to it by `Evolves`: no node is lost, and every range has its old bounds or those and the
number. Main statements:

* `Evolves.write`: single changes keep this relation;
* `Evolves.insert`, `Evolves.removeNode`: what the operations answer and what they do to the set of
  triples that the number sees;
* `Evolves.keeps`: smaller versions keep seeing what they saw;
* `Evolves.upgraded`, `Evolves.rolledBack`: the number can be turned into a version, or its bounds
  dropped.
-/

namespace Rdf
namespace Content

open VersionRange (Writing)

/-! ## Single changes -/

/-- The index with the presence of the triple of a node turned over in a version. -/
def toggleNode (c : Content) (node v : Nat) : Content :=
  c.withRanges fun i r => if i = node then r.toggle v else r

/-- A single change in a version: the presence of the triple of a node is turned over, or a triple
gets a node. -/
inductive Write (v : Nat) (c : Content) : Change → Content → Prop
  | revived {i : Nat} (hi : i < c.nodes.size) (h : (c.rangeOf i).isPresent = false) :
    Write v c (.inserted i) (c.toggleNode i v)
  | created {t : Triple} (h : c.index[t]? = none) :
    Write v c (.inserted c.nodes.size) (c.append t (.since v))
  | dropped {i : Nat} (hi : i < c.nodes.size) (h : (c.rangeOf i).isPresent = true) :
    Write v c (.removed i) (c.toggleNode i v)

section Toggle

variable {c : Content} {i v : Nat}

theorem rangeOf_toggleNode (hi : i < c.nodes.size) (j : Nat) :
    (c.toggleNode i v).rangeOf j = if j = i then (c.rangeOf i).toggle v else c.rangeOf j := by
  rcases Nat.lt_or_ge j c.nodes.size with hj | hj
  · rw [toggleNode, rangeOf_withRanges hj]
    by_cases hji : j = i
    · rw [if_pos hji, if_pos hji, hji]
    · rw [if_neg hji, if_neg hji]
  · have hsize : (c.toggleNode i v).nodes.size ≤ j := by
      rw [toggleNode, size_nodes_withRanges]
      exact hj
    rw [if_neg (by omega), rangeOf_of_size_le hsize, rangeOf_of_size_le hj]

theorem modifyRange_toggle (c : Content) (i v : Nat) :
    (c.modifyRange i fun _ => (c.rangeOf i).toggle v) = c.toggleNode i v := by
  rw [modifyRange_eq, toggleNode]
  apply withRanges_congr
  intro j hj
  by_cases hji : j = i
  · rw [if_pos hji, if_pos hji, hji]
  · rw [if_neg hji, if_neg hji]

theorem lt_size_of_isPresent (h : (c.rangeOf i).isPresent = true) : i < c.nodes.size := by
  by_contra hi
  rw [rangeOf_of_size_le (by omega)] at h
  cases h

end Toggle

/-! ## The operations as single changes -/

section Cases

variable {c : Content}

/-- An insertion finds its triple present, or is a single change of the triple's node. -/
theorem insert_cases (h : c.WellFormed) (t : Triple) (v : Nat) :
    (∃ i, c.tripleAt i = some t ∧ (c.rangeOf i).isPresent = true ∧ c.insert t v = (none, c)) ∨
    ∃ i c', c'.tripleAt i = some t ∧ Write v c (.inserted i) c' ∧ c.insert t v = (some i, c') := by
  unfold insert
  cases hi : c.index[t]? with
  | none => exact Or.inr ⟨_, _, tripleAt_append_size c t (.since v), .created hi, rfl⟩
  | some i =>
    have ht := (h.indexed t i).1 hi
    simp only [VersionRange.add?_eq]
    by_cases hp : (c.rangeOf i).isPresent = true
    · left
      refine ⟨i, ht, hp, ?_⟩
      rw [if_pos hp]
    · right
      refine ⟨i, c.toggleNode i v, ?_, .revived (lt_size_of_tripleAt ht) (by simpa using hp), ?_⟩
      · rw [toggleNode, tripleAt_withRanges, ht]
      · rw [if_neg hp]
        simp only
        rw [modifyRange_toggle]

/-- A removal finds the triple of its node absent, or is a single change of the node. -/
theorem removeNode_cases (c : Content) (i v : Nat) :
    ((c.rangeOf i).isPresent = false ∧ c.removeNode i v = (none, c)) ∨
    ∃ c', c'.tripleAt i = c.tripleAt i ∧ Write v c (.removed i) c' ∧
      c.removeNode i v = (some i, c') := by
  simp only [removeNode, VersionRange.remove?_eq]
  by_cases hp : (c.rangeOf i).isPresent = true
  · right
    refine ⟨c.toggleNode i v, ?_, .dropped (lt_size_of_isPresent hp) hp, ?_⟩
    · rw [toggleNode, tripleAt_withRanges]
    · rw [if_pos hp]
      simp only
      rw [modifyRange_toggle]
  · left
    refine ⟨by simpa using hp, ?_⟩
    rw [if_neg hp]

end Cases

/-! ## What single changes keep -/

section Write

variable {v : Nat} {c c' : Content} {e : Change}

theorem Write.wellFormed (h : Write v c e c') (hc : c.WellFormed) : c'.WellFormed := by
  cases h with
  | revived hi hp => exact hc.withRanges
  | created ht => exact hc.append ht
  | dropped hi hp => exact hc.withRanges

/-- No node goes, and no node changes its triple. -/
theorem WellFormed.insert (h : c.WellFormed) (t : Triple) (v : Nat) :
    (c.insert t v).2.WellFormed := by
  rcases insert_cases h t v with ⟨i, -, -, hi⟩ | ⟨i, c', -, hw, hi⟩
  · rw [hi]
    exact h
  · rw [hi]
    exact hw.wellFormed h

theorem Write.tripleAt (h : Write v c e c') {i : Nat} {t : Triple} (ht : c.tripleAt i = some t) :
    c'.tripleAt i = some t := by
  cases h with
  | revived hi hp => rw [toggleNode, tripleAt_withRanges, ht]
  | created hnew => rw [tripleAt_append_of_lt (lt_size_of_tripleAt ht), ht]
  | dropped hi hp => rw [toggleNode, tripleAt_withRanges, ht]

/-- The changed node is a node of the changed index. -/
theorem Write.exists_tripleAt (h : Write v c e c') : ∃ t, c'.tripleAt e.node = some t := by
  have hold : ∀ i, i < c.nodes.size → ∃ t, (c.toggleNode i v).tripleAt i = some t := by
    intro i hi
    rw [toggleNode, tripleAt_withRanges]
    exact exists_tripleAt_of_lt hi
  cases h with
  | revived hi hp => exact hold _ hi
  | created ht => exact ⟨_, tripleAt_append_size c _ _⟩
  | dropped hi hp => exact hold _ hi

/-- All other nodes keep their versions. -/
theorem Write.rangeOf_of_ne (h : Write v c e c') {i : Nat} (hi : i ≠ e.node) :
    c'.rangeOf i = c.rangeOf i := by
  cases h with
  | revived hlt hp =>
    rw [rangeOf_toggleNode hlt]
    exact if_neg hi
  | created ht =>
    rw [rangeOf_append]
    exact if_neg hi
  | dropped hlt hp =>
    rw [rangeOf_toggleNode hlt]
    exact if_neg hi

end Write

/-- A triple that gets a node is present from the version on. -/
theorem contains_append {c : Content} {v : Nat} (h : c.WellFormed) {t : Triple} (u : Triple) :
    (c.append t (.since v)).contains v u = if u = t then true else c.contains v u := by
  have hindex : (c.append t (.since v)).index = c.index.insert t c.nodes.size := rfl
  rw [contains, hindex, Std.HashMap.getElem?_insert]
  by_cases hu : u = t
  · subst hu
    rw [if_pos rfl, if_pos (beq_self_eq_true u)]
    simp [isVisible, rangeOf_append, VersionRange.contains, VersionRange.bounds,
      VersionRange.covers]
  · rw [if_neg hu, if_neg (by simpa using Ne.symm hu), contains]
    cases hj : c.index[u]? with
    | none => rfl
    | some j =>
      have hlt := lt_size_of_tripleAt ((h.indexed u j).1 hj)
      simp only
      rw [isVisible, rangeOf_append, if_neg (by omega), isVisible]

theorem contains_of_tripleAt {c : Content} (h : c.WellFormed) {i : Nat} {t : Triple}
    (ht : c.tripleAt i = some t) (v : Nat) : c.contains v t = c.isVisible v i := by
  rw [contains, (h.indexed t i).2 ht]

/-- All bounds of all nodes are smaller than a version. -/
def Below (c : Content) (v : Nat) : Prop := ∀ i, (c.rangeOf i).Below v

theorem Below.mono {c : Content} {v w : Nat} (h : c.Below v) (hvw : v ≤ w) : c.Below w :=
  fun i => (h i).mono hvw

/-- From the last bound on, every version sees the same triples. -/
theorem view_of_below {c : Content} {v w : Nat} (h : c.Below (v + 1)) (hvw : v ≤ w) :
    c.view w = c.view v := by
  ext t
  rw [mem_view, mem_view, contains, contains]
  cases c.index[t]? with
  | none => rfl
  | some i =>
    have hle : ∀ b ∈ (c.rangeOf i).bounds, b ≤ v := by
      intro b hb
      have := (h i).lt b hb
      omega
    have hle' : ∀ b ∈ (c.rangeOf i).bounds, b ≤ w := fun b hb => Nat.le_trans (hle b hb) hvw
    simp only
    rw [isVisible, isVisible, VersionRange.contains_of_le (h i).sorted hle,
      VersionRange.contains_of_le (h i).sorted hle']

theorem below_empty (v : Nat) : empty.Below v := by
  intro i
  rw [rangeOf_of_size_le (Nat.zero_le i)]
  exact VersionRange.below_absent v

/-- An index after single changes in version `v`. -/
structure Evolves (v : Nat) (c₀ c : Content) : Prop where
  wellFormed : c.WellFormed
  tripleAt : ∀ i t, c₀.tripleAt i = some t → c.tripleAt i = some t
  writing : ∀ i, Writing v (c₀.rangeOf i) (c.rangeOf i)

theorem Evolves.refl {c : Content} (h : c.WellFormed) (v : Nat) : Evolves v c c :=
  ⟨h, fun _ _ ht => ht, fun i => Writing.refl v (c.rangeOf i)⟩

/-! ## Versions that are kept -/

/-- The index `c'` has the nodes of `c`, and shows what `c` shows of every version before `v`. -/
structure Keeps (v : Nat) (c c' : Content) : Prop where
  tripleAt : ∀ i t, c.tripleAt i = some t → c'.tripleAt i = some t
  contains : ∀ i, ∀ w < v, (c'.rangeOf i).contains w = (c.rangeOf i).contains w

theorem lt_size_of_isVisible {c : Content} {w i : Nat} (h : c.isVisible w i = true) :
    i < c.nodes.size := by
  by_contra hi
  rw [isVisible, rangeOf_of_size_le (by omega)] at h
  cases h

namespace Keeps

variable {v w : Nat} {c c' c'' : Content}

theorem refl (v : Nat) (c : Content) : Keeps v c c := ⟨fun _ _ h => h, fun _ _ _ => rfl⟩

theorem trans (h : Keeps v c c') (h' : Keeps v c' c'') : Keeps v c c'' :=
  ⟨fun i t ht => h'.tripleAt i t (h.tripleAt i t ht),
    fun i w hw => (h'.contains i w hw).trans (h.contains i w hw)⟩

theorem mono (h : Keeps v c c') (hw : w ≤ v) : Keeps w c c' :=
  ⟨h.tripleAt, fun i u hu => h.contains i u (Nat.lt_of_lt_of_le hu hw)⟩

theorem view (hk : Keeps v c c') (h : c.WellFormed) (h' : c'.WellFormed) (hw : w < v) :
    c'.view w = c.view w := by
  have hvisible : ∀ i, c'.isVisible w i = c.isVisible w i := fun i => hk.contains i w hw
  ext t
  rw [mem_view, mem_view, contains_iff h, contains_iff h']
  constructor
  · -- only old nodes are visible, and they have their old triples
    intro ⟨i, ht, hi⟩
    rw [hvisible] at hi
    obtain ⟨u, hu⟩ := exists_tripleAt_of_lt (lt_size_of_isVisible hi)
    rw [hk.tripleAt i u hu] at ht
    obtain rfl := Option.some.inj ht
    exact ⟨i, hu, hi⟩
  · intro ⟨i, ht, hi⟩
    exact ⟨i, hk.tripleAt i t ht, by rw [hvisible, hi]⟩

end Keeps

namespace Evolves

variable {v : Nat} {c₀ c c' : Content} {e : Change}

/-- A single change is a further step of the evolution. -/
theorem write (h : Evolves v c₀ c) (hb : c₀.Below v) (hw : Write v c e c') :
    Evolves v c₀ c' := by
  refine ⟨hw.wellFormed h.wellFormed, fun i t ht => hw.tripleAt (h.tripleAt i t ht), fun j => ?_⟩
  have htoggle : ∀ i, i < c.nodes.size →
      Writing v (c₀.rangeOf j) ((c.toggleNode i v).rangeOf j) := by
    intro i hi
    rw [rangeOf_toggleNode hi]
    by_cases hji : j = i
    · rw [if_pos hji, ← hji]
      exact (h.writing j).toggle (hb j)
    · rw [if_neg hji]
      exact h.writing j
  cases hw with
  | revived hi hp => exact htoggle _ hi
  | dropped hi hp => exact htoggle _ hi
  | created ht =>
    rw [rangeOf_append]
    by_cases hj : j = c.nodes.size
    · -- the node is new, so that it had no bounds before
      have hold := h.writing j
      rw [rangeOf_of_size_le (c := c) (by omega)] at hold
      rw [if_pos hj]
      rcases hold with hold | hold
      · exact Or.inr (by rw [← hold]; rfl)
      · simp [VersionRange.bounds] at hold
    · rw [if_neg hj]
      exact h.writing j

theorem below_succ (h : Evolves v c₀ c) (hb : c₀.Below v) : c.Below (v + 1) :=
  fun i => (h.writing i).below_succ (hb i)

/-- The version being written sees a node iff its triple is present after the last change. -/
theorem isVisible_eq (h : Evolves v c₀ c) (hb : c₀.Below v) (i : Nat) :
    c.isVisible v i = (c.rangeOf i).isPresent :=
  (h.writing i).contains_self (hb i)

theorem keeps (h : Evolves v c₀ c) (hb : c₀.Below v) : Keeps v c₀ c :=
  ⟨h.tripleAt, fun i _ hw => (h.writing i).contains_of_lt (hb i) hw⟩

/-! ## What changes do to the set of triples -/

/-- Turning over the presence of a node changes the answer for its triple and for no other. -/
theorem contains_toggleNode (h : Evolves v c₀ c) (hb : c₀.Below v) {i : Nat} {t : Triple}
    (ht : c.tripleAt i = some t) (u : Triple) :
    (c.toggleNode i v).contains v u = if u = t then !c.contains v t else c.contains v u := by
  have hi := lt_size_of_tripleAt ht
  have hvisible : ∀ j, (c.toggleNode i v).isVisible v j =
      if j = i then !c.isVisible v i else c.isVisible v j := by
    intro j
    rw [isVisible, rangeOf_toggleNode hi]
    by_cases hji : j = i
    · rw [if_pos hji, if_pos hji, VersionRange.contains_toggle_self (h.writing i) (hb i)]
      rfl
    · rw [if_neg hji, if_neg hji]
      rfl
  have hindex : (c.toggleNode i v).index = c.index := rfl
  by_cases hu : u = t
  · subst hu
    rw [if_pos rfl, contains, contains, hindex, (h.wellFormed.indexed u i).2 ht]
    simp only
    rw [hvisible, if_pos rfl]
  · rw [if_neg hu, contains, contains, hindex]
    cases hj : c.index[u]? with
    | none => rfl
    | some j =>
      -- another triple has another node
      have hji : j ≠ i := by
        intro hji
        subst hji
        rw [(h.wellFormed.indexed u j).1 hj] at ht
        exact hu (Option.some.inj ht)
      simp only
      rw [hvisible, if_neg hji]

/-- A logged insertion adds its triple, which was absent. -/
theorem view_inserted (h : Evolves v c₀ c) (hb : c₀.Below v) {i : Nat} {t : Triple}
    (hw : Write v c (.inserted i) c') (ht : c'.tripleAt i = some t) :
    t ∉ c.view v ∧ c'.view v = Insert.insert t (c.view v) := by
  cases hw with
  | revived hi hp =>
    rw [toggleNode, tripleAt_withRanges] at ht
    have habsent : c.contains v t = false := by
      rw [contains_of_tripleAt h.wellFormed ht, h.isVisible_eq hb, hp]
    refine ⟨by rw [mem_view, habsent]; exact Bool.false_ne_true, ?_⟩
    ext u
    rw [mem_view, h.contains_toggleNode hb ht, Finset.mem_insert, mem_view]
    by_cases hu : u = t
    · simp [hu, habsent]
    · simp [hu]
  | @created t' hnew =>
    rw [tripleAt_append_size] at ht
    obtain rfl : t = t' := (Option.some.inj ht).symm
    refine ⟨?_, ?_⟩
    · rw [mem_view, contains, hnew]
      exact Bool.false_ne_true
    · ext u
      rw [mem_view, contains_append h.wellFormed, Finset.mem_insert, mem_view]
      by_cases hu : u = t
      · simp [hu]
      · simp [hu]

/-- A logged removal takes away its triple, which was present. -/
theorem view_removed (h : Evolves v c₀ c) (hb : c₀.Below v) {i : Nat} {t : Triple}
    (hw : Write v c (.removed i) c') (ht : c'.tripleAt i = some t) :
    t ∈ c.view v ∧ c'.view v = (c.view v).erase t := by
  cases hw with
  | dropped hi hp =>
    rw [toggleNode, tripleAt_withRanges] at ht
    have hpresent : c.contains v t = true := by
      rw [contains_of_tripleAt h.wellFormed ht, h.isVisible_eq hb, hp]
    refine ⟨by rw [mem_view, hpresent], ?_⟩
    ext u
    rw [mem_view, h.contains_toggleNode hb ht, Finset.mem_erase, mem_view]
    by_cases hu : u = t
    · simp [hu, hpresent]
    · simp [hu]

/-- An insertion answers whether its triple was absent, and adds it. -/
theorem insert (h : Evolves v c₀ c) (hb : c₀.Below v) (t : Triple) :
    Evolves v c₀ (c.insert t v).2 ∧ (c.insert t v).1.isSome = decide (t ∉ c.view v) ∧
      (c.insert t v).2.view v = Insert.insert t (c.view v) := by
  rcases insert_cases h.wellFormed t v with ⟨i, ht, hp, hi⟩ | ⟨i, c', ht, hw, hi⟩
  · have hmem : t ∈ c.view v := by
      rw [mem_view, contains_of_tripleAt h.wellFormed ht, h.isVisible_eq hb, hp]
    rw [hi]
    exact ⟨h, by simp [hmem], (Finset.insert_eq_of_mem hmem).symm⟩
  · obtain ⟨hmem, hview⟩ := h.view_inserted hb hw ht
    rw [hi]
    exact ⟨h.write hb hw, (decide_eq_true hmem).symm, hview⟩

end Evolves

/-! ## The end of the changes -/

section End

variable {c c₀ : Content} {n v : Nat}

theorem rangeOf_withRanges_of_absent {g : Nat → VersionRange → VersionRange}
    (hg : ∀ i, g i .absent = .absent) (c : Content) (i : Nat) :
    (c.withRanges g).rangeOf i = g i (c.rangeOf i) := by
  rcases Nat.lt_or_ge i c.nodes.size with hi | hi
  · exact rangeOf_withRanges hi
  · have hsize : (c.withRanges g).nodes.size ≤ i := by
      rw [size_nodes_withRanges]
      exact hi
    rw [rangeOf_of_size_le hsize, rangeOf_of_size_le hi, hg]

/-- The index with all changes under number `n` moved to version `v`. -/
def upgraded (c : Content) (n v : Nat) : Content := c.withRanges fun _ r => r.upgrade n v

/-- The index without the changes under number `n`. -/
def rolledBack (c : Content) (n : Nat) : Content := c.withRanges fun _ r => r.rollBack n

theorem rangeOf_upgraded (c : Content) (n v i : Nat) :
    (c.upgraded n v).rangeOf i = (c.rangeOf i).upgrade n v :=
  rangeOf_withRanges_of_absent (fun _ => rfl) c i

theorem rangeOf_rolledBack (c : Content) (n i : Nat) :
    (c.rolledBack n).rangeOf i = (c.rangeOf i).rollBack n :=
  rangeOf_withRanges_of_absent (fun _ => rfl) c i

/-- Changes under a number become changes in a version. -/
theorem Evolves.upgraded (h : Evolves n c₀ c) (hb : c₀.Below n) (v : Nat) :
    Evolves v c₀ (c.upgraded n v) := by
  refine ⟨h.wellFormed.withRanges, fun i t ht => ?_, fun i => ?_⟩
  · rw [Content.upgraded, tripleAt_withRanges]
    exact h.tripleAt i t ht
  · rw [rangeOf_upgraded]
    exact (h.writing i).upgrade (hb i)

/-- The new version sees the set that the number saw. -/
theorem Evolves.view_upgraded (h : Evolves n c₀ c) (hb : c₀.Below v) (hv : v ≤ n) :
    (c.upgraded n v).view v = c.view n := by
  ext t
  have hindex : (c.upgraded n v).index = c.index := rfl
  rw [mem_view, mem_view, contains, contains, hindex]
  cases c.index[t]? with
  | none => rfl
  | some i =>
    simp only
    rw [isVisible, rangeOf_upgraded, (h.writing i).contains_upgrade (hb i) hv, isVisible]

/-- A rollback leaves every node the bounds from before the changes. -/
theorem Evolves.bounds_rolledBack (h : Evolves n c₀ c) (hb : c₀.Below n) (i : Nat) :
    ((c.rolledBack n).rangeOf i).bounds = (c₀.rangeOf i).bounds := by
  rw [rangeOf_rolledBack]
  exact (h.writing i).bounds_rollBack (hb i)

theorem Evolves.keeps_rolledBack (h : Evolves n c₀ c) (hb : c₀.Below n) (v : Nat) :
    Keeps v c₀ (c.rolledBack n) := by
  refine ⟨fun i t ht => ?_, fun i w _ => ?_⟩
  · rw [rolledBack, tripleAt_withRanges]
    exact h.tripleAt i t ht
  · rw [VersionRange.contains, h.bounds_rolledBack hb, VersionRange.contains]

end End

end Content
end Rdf
