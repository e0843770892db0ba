import Rdf.Proofs.Store.Checking
import Rdf.Proofs.Store.Versions

/-!
# What a transaction leaves behind

While it runs, a transaction writes its own number into the versions of nodes, takes it out again
when it changes its mind, and creates nodes that may be of no use in the end. Main statements:

* `Running.bounds_committed`: a commit leaves a node its old bounds, with the new version behind them
  iff the presence of its triple is not what it was;
* `Running.rangeOf_aborted`: an abort leaves old nodes their bounds, and new nodes none;
* `net_effect`: so nothing of the transaction is left but the difference that it has made.
-/

namespace Rdf
namespace Content

open VersionRange (Canonical)

/-! ## Presence before and after -/

namespace Evolves

variable {v : Nat} {c₀ c : Content} {i : Nat} {t : Triple}

/-- The old index shows a triple through the node that has it in the new one. -/
theorem contains_before (h : Evolves v c₀ c) (h₀ : c₀.WellFormed) (ht : c.tripleAt i = some t)
    (w : Nat) : c₀.contains w t = c₀.isVisible w i := by
  rw [contains]
  cases hj : c₀.index[t]? with
  | some j =>
    have hold := h.tripleAt j t ((h₀.indexed t j).1 hj)
    rw [h.wellFormed.tripleAt_inj hold ht]
  | none =>
    -- the node is new, since an old node would be that of the same triple
    have hi : ¬ i < c₀.nodes.size := by
      intro hi
      obtain ⟨u, hu⟩ := exists_tripleAt_of_lt hi
      have hnew := h.tripleAt i u hu
      rw [ht] at hnew
      obtain rfl := Option.some.inj hnew
      rw [(h₀.indexed t i).2 hu] at hj
      cases hj
    simp only
    rw [isVisible, rangeOf_of_size_le (by omega)]
    rfl

theorem isPresent_before (h : Evolves v c₀ c) (h₀ : c₀.WellFormed) {w : Nat}
    (hb : c₀.Below (w + 1)) (ht : c.tripleAt i = some t) :
    (c₀.rangeOf i).isPresent = decide (t ∈ c₀.view w) := by
  have hle : ∀ b ∈ (c₀.rangeOf i).bounds, b ≤ w := fun b hm => Nat.le_of_lt_succ ((hb i).lt b hm)
  rw [← contains_eq_decide, h.contains_before h₀ ht, isVisible,
    VersionRange.contains_of_le (hb i).sorted hle]

theorem isPresent_after (h : Evolves v c₀ c) (hb : c₀.Below v) (ht : c.tripleAt i = some t) :
    (c.rangeOf i).isPresent = decide (t ∈ c.view v) := by
  rw [← contains_eq_decide, contains_of_tripleAt h.wellFormed ht, h.isVisible_eq hb]

end Evolves

/-! ## Forms of ranges -/

/-- A single change leaves ranges in canonical form. -/
theorem Write.canonical {v : Nat} {c c' : Content} {e : Change} (h : Write v c e c') {i : Nat}
    (hi : (c.rangeOf i).Canonical) : (c'.rangeOf i).Canonical := by
  have htoggle : ∀ j, j < c.nodes.size → ((c.toggleNode j v).rangeOf i).Canonical := by
    intro j hj
    rw [rangeOf_toggleNode hj]
    by_cases hij : i = j
    · rw [if_pos hij, ← hij]
      exact hi.toggle v
    · rw [if_neg hij]
      exact hi
  cases h with
  | revived hj hp => exact htoggle _ hj
  | created ht =>
    rw [rangeOf_append]
    split
    · exact VersionRange.canonical_since v
    · exact hi
  | dropped hj hp => exact htoggle _ hj

end Content

namespace Transaction

variable {s : Store} {x x' : Transaction} {i : Nat}

theorem Moves.canonical (h : Moves x x') (hi : (x.store.content.rangeOf i).Canonical) :
    (x'.store.content.rangeOf i).Canonical := by
  induction h with
  | refl => exact hi
  | tail _ hm ih =>
    obtain ⟨hw⟩ := hm
    exact hw.canonical ih

/-! ## The end of a transaction, node by node -/

theorem Running.tripleAt_committed (h : Running s x) (i : Nat) :
    x.committed.content.tripleAt i = x.store.content.tripleAt i := by
  rw [h.committed_eq]
  exact Content.tripleAt_withRanges _ _ i

theorem Running.tripleAt_aborted (h : Running s x) (i : Nat) :
    x.aborted.content.tripleAt i = x.store.content.tripleAt i := by
  rw [h.aborted_eq]
  exact Content.tripleAt_withRanges _ _ i

/-- A commit leaves the old bounds, and the new version if the presence of the triple has changed. -/
theorem Running.bounds_committed (h : Running s x) {t : Triple}
    (ht : x.committed.content.tripleAt i = some t) :
    (x.committed.content.rangeOf i).bounds = (s.content.rangeOf i).bounds ++
      if t ∈ s.content.view s.version ↔ t ∈ x.view then [] else [s.version + 1] := by
  rw [h.tripleAt_committed] at ht
  have hbefore := h.evolves.isPresent_before h.sound.wellFormed h.sound.below ht
  have hafter := h.evolves.isPresent_after h.below ht
  have hiff : (x.store.content.rangeOf i).isPresent = (s.content.rangeOf i).isPresent ↔
      (t ∈ s.content.view s.version ↔ t ∈ x.view) := by
    rw [hbefore, hafter, decide_eq_decide]
    exact iff_comm
  rw [h.committed_eq]
  show ((x.store.content.upgraded x.number (s.version + 1)).rangeOf i).bounds = _
  rw [Content.rangeOf_upgraded, (h.evolves.writing i).bounds_upgrade (h.below i)]
  simp only [hiff]

/-- The number of the transaction is a bound of no node any more. -/
theorem Running.number_notMem_committed (h : Running s x) (i : Nat) :
    x.number ∉ (x.committed.content.rangeOf i).bounds := by
  intro hm
  have hlt := (h.committed.sound.below i).lt _ hm
  have hversion := h.version_lt
  rw [h.committed.version_eq, h.number_eq] at hlt
  omega

/-- An abort leaves every node its old bounds. -/
theorem Running.bounds_aborted (h : Running s x) (i : Nat) :
    (x.aborted.content.rangeOf i).bounds = (s.content.rangeOf i).bounds := by
  rw [h.aborted_eq]
  exact h.evolves.bounds_rolledBack h.below i

/-- An abort leaves no bounds to the nodes that the transaction has created. -/
theorem Running.rangeOf_aborted (h : Running s x) (hm : Moves s.begin x)
    (hi : s.content.nodes.size ≤ i) : x.aborted.content.rangeOf i = .absent := by
  have hold : s.content.rangeOf i = .absent := Content.rangeOf_of_size_le hi
  have hcanonical : (s.begin.store.content.rangeOf i).Canonical := by
    show (s.content.rangeOf i).Canonical
    rw [hold]
    exact VersionRange.canonical_absent
  have hbounds := h.bounds_aborted i
  rw [hold] at hbounds
  refine VersionRange.Canonical.eq_absent ?_ hbounds
  rw [h.aborted_eq]
  show ((x.store.content.rolledBack x.number).rangeOf i).Canonical
  rw [Content.rangeOf_rolledBack]
  exact (hm.canonical hcanonical).rollBack _

end Transaction

/-! ## The net effect -/

namespace Store

/-- The store `s'` is `s` with one more version, whose triples are those of `S`. Nothing else is left
of the transaction with the given number. -/
structure NetEffect (s : Store) (number : Nat) (S : Finset Triple) (s' : Store) : Prop where
  kept : ∀ i t, s.content.tripleAt i = some t → s'.content.tripleAt i = some t ∧
    (s'.content.rangeOf i).bounds = (s.content.rangeOf i).bounds ++
      if t ∈ s.triples ↔ t ∈ S then [] else [s.version + 1]
  created : ∀ i t, s.content.tripleAt i = none → s'.content.tripleAt i = some t →
    (s'.content.rangeOf i).bounds = if t ∈ S then [s.version + 1] else []
  number_notMem : ∀ g i, number ∉ ((s'.contentOf g).rangeOf i).bounds
  version_eq : s'.version = s.version + 1
  size_eq : s'.size = s'.content.nodes.countP fun n => n.range.contains (s.version + 1)

/-- The store `s'` is `s` with some more nodes, which are present in no version. -/
structure NoEffect (s s' : Store) : Prop where
  kept : ∀ i t, s.content.tripleAt i = some t → s'.content.tripleAt i = some t ∧
    (s'.content.rangeOf i).bounds = (s.content.rangeOf i).bounds
  created : ∀ i, s.content.tripleAt i = none → s'.content.rangeOf i = .absent
  version_eq : s'.version = s.version
  size_eq : s'.size = s.size

section NetEffect

variable {s : Store} {x : Transaction}

theorem size_le_of_tripleAt_eq_none {c : Content} {i : Nat} (h : c.tripleAt i = none) :
    c.nodes.size ≤ i := by
  by_contra hi
  obtain ⟨t, ht⟩ := Content.exists_tripleAt_of_lt (Nat.lt_of_not_le hi)
  rw [h] at ht
  cases ht

theorem netEffect_committed (h : Transaction.Running s x) (hpast : x.committed.PastBelow)
    (hs : s.triples = s.content.view s.version) : s.NetEffect x.number x.view x.committed where
  kept i t ht := by
    have hnew : x.committed.content.tripleAt i = some t := by
      rw [h.tripleAt_committed]
      exact h.evolves.tripleAt i t ht
    refine ⟨hnew, ?_⟩
    rw [hs]
    exact h.bounds_committed hnew
  created i t hi ht := by
    have hsize := size_le_of_tripleAt_eq_none hi
    have hbounds := h.bounds_committed ht
    -- the triple was absent, since its only node is new
    have habsent : t ∉ s.content.view s.version := by
      rw [h.tripleAt_committed] at ht
      rw [Content.mem_view, h.evolves.contains_before h.sound.wellFormed ht, Content.isVisible,
        Content.rangeOf_of_size_le hsize]
      exact Bool.false_ne_true
    rw [hbounds, Content.rangeOf_of_size_le hsize]
    by_cases hmem : t ∈ x.view <;> simp [habsent, hmem, VersionRange.bounds]
  number_notMem g i := by
    rcases Nat.lt_or_ge g x.committed.generation with hg | hg
    · intro hm
      have hlt := (hpast g hg i).lt _ hm
      have hversion := h.version_lt
      rw [h.committed.version_eq, h.number_eq] at hlt
      omega
    · rw [contentOf_of_size_le hg]
      exact h.number_notMem_committed i
  version_eq := h.committed.version_eq
  size_eq := by
    have hsound := h.committed.sound
    rw [hsound.size_eq, hsound.wellFormed.card_view, h.committed.version_eq]

theorem noEffect_aborted (h : Transaction.Running s x) (hm : Transaction.Moves s.begin x) :
    s.NoEffect x.aborted where
  kept i t ht := by
    refine ⟨?_, h.bounds_aborted i⟩
    rw [h.tripleAt_aborted]
    exact h.evolves.tripleAt i t ht
  created i hi := h.rangeOf_aborted hm (size_le_of_tripleAt_eq_none hi)
  version_eq := h.aborted.version_eq
  size_eq := by rw [h.aborted_eq]

/-- However often a transaction has changed its mind about a triple: if it succeeds, then before any
compaction every node has its old bounds, with the new version behind them iff the presence of its
triple is not what it was, and the number of the transaction is a bound of no node. If it fails, all
that is left of it are nodes without bounds. -/
theorem net_effect (es : List Event) (hes : es.countP Event.isStart < transactionBase) {s : Store}
    (hs : State.initial.run es = .idle s) (steps : List WriteStep) :
    let x := (inTurn Transaction.perform s.begin steps).2
    let added := x.log.countP Change.isInsertion
    let removed := x.log.countP (!·.isInsertion)
    (removed ≤ s.size + added ∧ x.committed.size = s.size + added - removed ∧
      s.NetEffect s.begin.number (inTurn WriteStep.onSet s.triples steps).2 x.committed) ∧
    s.NoEffect x.aborted ∧
    ∀ (α ε : Type) (r : Except ε α),
      s.transact (fun y => (r, (inTurn Transaction.perform y steps).2)) = (r, match r with
        | .ok _ => x.committed.compactIfNeeded
        | .error _ => x.aborted.compactIfNeeded) := by
  intro x added removed
  obtain ⟨hrunning, -, -, hview⟩ := performed_of_run hes hs steps
  have hmoves : Transaction.Moves s.begin x :=
    Transaction.moves_inTurn hrunning.sound.wellFormed steps
  have hwf := wellFormed_of_idle hs
  have hcommitted : x.committed.PastBelow := by
    refine PastBelow.of_past_eq (s := s) (fun g _ => below_of_idle hes hs g) ?_ ?_
    · show x.store.past = s.past
      rw [hrunning.store_eq]
    · rw [hrunning.committed.version_eq]
      exact Nat.le_succ _
  have hcounted : x.view.card + removed = s.size + added := hrunning.counted
  refine ⟨⟨by omega, ?_, ?_⟩, noEffect_aborted hrunning hmoves, fun α ε r => ?_⟩
  · show x.store.size + added - removed = s.size + added - removed
    rw [hrunning.store_eq]
  · rw [← hview, ← hmoves.number_eq]
    exact netEffect_committed hrunning hcommitted (triples_eq hwf)
  · cases r <;> rfl

/-- Of two triples that are present, one is removed and one is removed and inserted again. A third
was removed before and is inserted again, and a new one does not stay. -/
theorem net_effect_of_undone :
    let t : Triple := ⟨.iri ⟨"a"⟩, ⟨"p"⟩, .iri ⟨"a"⟩⟩
    let u : Triple := ⟨.iri ⟨"a"⟩, ⟨"p"⟩, .iri ⟨"b"⟩⟩
    let v : Triple := ⟨.iri ⟨"b"⟩, ⟨"p"⟩, .iri ⟨"a"⟩⟩
    let w : Triple := ⟨.iri ⟨"b"⟩, ⟨"p"⟩, .iri ⟨"b"⟩⟩
    let before : List (List WriteStep) :=
      [[.insert t, .insert u, .insert v], [.remove t, .remove u], [.insert t]]
    let steps : List WriteStep :=
      [.remove v, .remove t, .insert w, .insert v, .insert u, .remove w]
    ∃ s, State.initial.run (before.flatMap Event.committing) = .idle s ∧ s.triples = {t, v} ∧
      let x := (inTurn Transaction.perform s.begin steps).2
      (∃ i, s.content.tripleAt i = some t ∧
        (x.committed.content.rangeOf i).bounds = (s.content.rangeOf i).bounds ++ [4] ∧
        (x.aborted.content.rangeOf i).bounds = (s.content.rangeOf i).bounds) ∧
      (∃ i, s.content.tripleAt i = some v ∧
        (x.committed.content.rangeOf i).bounds = (s.content.rangeOf i).bounds) ∧
      (∀ i, s.content.tripleAt i = some u →
        (x.committed.content.rangeOf i).bounds = (s.content.rangeOf i).bounds ++ [4]) ∧
      ∀ i, s.content.tripleAt i = none → x.committed.content.tripleAt i = some w →
        (x.committed.content.rangeOf i).bounds = [] := by
  intro t u v w before steps
  obtain ⟨s, hs, hversion, htriples⟩ := exists_run_committing before (by decide)
  have hpublished : s.triples = {t, v} := by
    rw [htriples]
    decide
  have hstarts : (before.flatMap Event.committing).countP Event.isStart < transactionBase := by
    rw [countP_committing]
    decide
  obtain ⟨⟨-, -, heffect⟩, hnone, -⟩ := net_effect _ hstarts hs steps
  have hset : (inTurn WriteStep.onSet s.triples steps).2 = {v, u} := by
    rw [hpublished]
    decide
  rw [hset] at heffect
  have hwf := wellFormed_of_idle hs
  obtain ⟨i, hi⟩ := hwf.exists_tripleAt_of_mem (t := t) (by rw [hpublished]; decide)
  obtain ⟨j, hj⟩ := hwf.exists_tripleAt_of_mem (t := v) (by rw [hpublished]; decide)
  have hkept := fun i t hi => (heffect.kept i t hi).2
  rw [hpublished, hversion] at hkept
  refine ⟨s, hs, hpublished, ⟨i, hi, ?_, (hnone.kept i t hi).2⟩, ⟨j, hj, ?_⟩, fun k hk => ?_,
    fun k hk hw => ?_⟩
  · rw [hkept i t hi, if_neg (by decide)]
    rfl
  · rw [hkept j v hj, if_pos (by decide), List.append_nil]
  · rw [hkept k u hk, if_neg (by decide)]
    rfl
  · rw [heffect.created k w hk hw, if_neg (by decide)]

end NetEffect

end Store
end Rdf
