import Rdf.Store.BulkLoad
import Rdf.Proofs.Store.Transactions

/-!
# What is published

How operations end: a commit turns the changes of a transaction into the next version, an abort
takes them back, a bulk load publishes what it has written, and a compaction puts a new index with
the same triples in the place of the old one. Main statements:

* `upgradeLogged_eq`, `rollBackLogged_eq`: replaying the log treats every node of the index alike,
  since each node with the transaction's number is logged, and a second replay of one node is
  without effect;
* `Store.Published`: the state in which an operation leaves a store, as a relation to the set of
  triples published; `Running.commit`, `Running.abort`, `Loading.finish`, `published_clear` and
  `Store.Published.compactIfNeeded` say that every operation ends in it.
-/

namespace Rdf

/-! ## Replaying the log -/

namespace Content

/-- Changing the versions of listed nodes one after the other changes each of them once, if a second
change does nothing. -/
theorem foldr_modifyRange {c : Content} {f : VersionRange → VersionRange}
    (hf : ∀ i, f (f (c.rangeOf i)) = f (c.rangeOf i)) (log : List Change) :
    log.foldr (fun e c => c.modifyRange e.node f) c =
      c.withRanges fun i r => if i ∈ log.map Change.node then f r else r := by
  induction log with
  | nil => simp [withRanges_id]
  | cons e log ih =>
    rw [List.foldr_cons, ih, modifyRange_eq, withRanges_withRanges]
    apply withRanges_congr
    intro i _
    rw [List.map_cons]
    -- a node that occurs again has been changed already, and is not changed further
    by_cases hi : i = e.node <;> by_cases hlog : i ∈ log.map Change.node
    · simp [← hi, hlog, hf]
    · simp [← hi, hlog]
    · simp [hi, hlog]
    · simp [hi, hlog]

/-- If the versions of all other nodes are left alone, every node is changed. -/
theorem foldr_modifyRange_of_logged {c : Content} {f : VersionRange → VersionRange}
    {log : List Change} (hf : ∀ i, f (f (c.rangeOf i)) = f (c.rangeOf i))
    (hlog : ∀ i, i ∉ log.map Change.node → f (c.rangeOf i) = c.rangeOf i) :
    log.foldr (fun e c => c.modifyRange e.node f) c = c.withRanges fun _ r => f r := by
  rw [foldr_modifyRange hf]
  apply withRanges_congr
  intro i _
  by_cases hi : i ∈ log.map Change.node
  · rw [if_pos hi]
  · rw [if_neg hi, hlog i hi]

end Content

namespace Transaction

open Content (Evolves)

section Replay

variable {s : Store} {x : Transaction}

theorem Running.upgradeLogged_eq (h : Running s x) {v : Nat} (hv : v ≠ x.number) :
    upgradeLogged x.number v x.log x.store.content = x.store.content.upgraded x.number v := by
  apply Content.foldr_modifyRange_of_logged
  · intro i
    exact VersionRange.upgrade_upgrade hv
  · intro i hi
    exact VersionRange.upgrade_of_last?_ne fun hl => hi (h.logged i hl)

theorem Running.rollBackLogged_eq (h : Running s x) :
    rollBackLogged x.number x.log x.store.content = x.store.content.rolledBack x.number := by
  have hb := h.below
  rw [rollBackLogged, List.foldl_eq_foldr_reverse]
  apply Content.foldr_modifyRange_of_logged
  · intro i
    exact (h.evolves.writing i).rollBack_rollBack (hb i)
  · intro i hi
    rw [List.map_reverse, List.mem_reverse] at hi
    exact VersionRange.rollBack_of_last?_ne fun hl => hi (h.logged i hl)

end Replay

end Transaction

/-! ## Published stores -/

/-- A store between operations that has published the set `S` as a version. -/
structure Store.Published (s : Store) (version : Nat) (S : Finset Triple) : Prop where
  sound : s.Sound
  version_eq : s.version = version
  view_eq : s.content.view version = S

namespace Store

variable {s : Store} {S : Finset Triple} {v : Nat}

theorem published_empty : empty.Published 0 ∅ where
  sound := by
    refine ⟨Content.wellFormed_empty, Content.below_empty _, ?_⟩
    show 0 = (Content.empty.view 0).card
    rw [Content.view_empty, Finset.card_empty]
  version_eq := rfl
  view_eq := Content.view_empty 0

/-- A store that is cleared publishes the empty set. -/
theorem published_clear (s : Store) : s.clear.Published (s.version + 1) ∅ where
  sound := by
    refine ⟨Content.wellFormed_empty, Content.below_empty _, ?_⟩
    show 0 = (Content.empty.view (s.version + 1)).card
    rw [Content.view_empty, Finset.card_empty]
  version_eq := rfl
  view_eq := Content.view_empty _

/-! ## Compaction -/

/-- Triples inserted one after the other into a new index are all of its triples. -/
theorem evolves_foldl_insert (ts : List Triple) {c : Content} (h : Content.Evolves 0 .empty c) :
    let c' := ts.foldl (fun c t => (c.insert t 0).2) c
    Content.Evolves 0 .empty c' ∧ c'.view 0 = c.view 0 ∪ ts.toFinset := by
  induction ts generalizing c with
  | nil => exact ⟨h, by rw [List.toFinset_nil, Finset.union_empty]; rfl⟩
  | cons t ts ih =>
    obtain ⟨he, -, hview⟩ := h.insert (Content.below_empty 0) t
    obtain ⟨he', hview'⟩ := ih he
    refine ⟨he', ?_⟩
    rw [List.foldl_cons, hview', hview, List.toFinset_cons, Finset.insert_union,
      Finset.union_insert]

theorem evolves_compacted (s : Store) : Content.Evolves 0 .empty s.compacted :=
  (evolves_foldl_insert _ (Content.Evolves.refl Content.wellFormed_empty 0)).1

/-- The new index holds the published triples, in every version. -/
theorem view_compacted (h : s.content.WellFormed) (w : Nat) :
    s.compacted.view w = s.content.view s.version := by
  have hb := (evolves_compacted s).below_succ (Content.below_empty 0)
  rw [Content.view_of_below hb (Nat.zero_le w)]
  have hview := (evolves_foldl_insert (s.matching s.snapshot .any).reverse
    (Content.Evolves.refl Content.wellFormed_empty 0)).2
  refine hview.trans ?_
  have hmatching : s.matching s.snapshot .any = s.content.matching s.snapshot .any := by
    rw [matching, snapshot, contentOf_generation]
  have hany : ∀ t, Pattern.any.isMatch t = true := fun t => rfl
  rw [List.toFinset_reverse, hmatching, Content.toFinset_matching h, Content.view_empty,
    Finset.empty_union]
  simp only [hany, Finset.filter_true]
  rfl

/-- A compaction, if there is one, changes nothing that is published. -/
theorem Published.compactIfNeeded (h : s.Published v S) : s.compactIfNeeded.Published v S := by
  rw [Store.compactIfNeeded]
  split
  · exact h
  · have hview := view_compacted h.sound.wellFormed
    refine ⟨⟨(evolves_compacted s).wellFormed, ?_, ?_⟩, h.version_eq, ?_⟩
    · apply ((evolves_compacted s).below_succ (Content.below_empty 0)).mono
      exact Nat.succ_le_succ (Nat.zero_le _)
    · show s.size = (s.compacted.view s.version).card
      rw [hview]
      exact h.sound.size_eq
    · show s.compacted.view v = S
      rw [hview, h.version_eq]
      exact h.view_eq

end Store

/-! ## The end of a transaction -/

namespace Transaction

open Content (Evolves)

variable {s : Store} {x : Transaction}

/-- The size that a commit publishes is computed without underflow. -/
theorem Running.card_view (h : Running s x) :
    x.view.card = s.size + x.log.countP Change.isInsertion - x.log.countP (!·.isInsertion) := by
  have := h.counted
  omega

theorem Running.committed_eq (h : Running s x) :
    x.committed = ⟨s.past, x.store.content.upgraded x.number (s.version + 1), s.version + 1,
      x.view.card, s.started + 1⟩ := by
  have hne : s.version + 1 ≠ x.number := by
    have hv := h.version_lt
    rw [h.number_eq]
    omega
  -- the fields apart from the index are those of the store that the transaction was begun at
  rw [h.card_view, ← h.upgradeLogged_eq hne]
  rcases x with ⟨⟨past, content, version, size, started⟩, number, log⟩
  have hstore := h.store_eq
  simp only [Store.mk.injEq] at hstore
  obtain ⟨rfl, -, rfl, rfl, rfl⟩ := hstore
  rfl

theorem Running.aborted_eq (h : Running s x) :
    x.aborted = ⟨s.past, x.store.content.rolledBack x.number, s.version, s.size,
      s.started + 1⟩ := by
  rw [← h.rollBackLogged_eq]
  rcases x with ⟨⟨past, content, version, size, started⟩, number, log⟩
  have hstore := h.store_eq
  simp only [Store.mk.injEq] at hstore
  obtain ⟨rfl, -, rfl, rfl, rfl⟩ := hstore
  rfl

/-- The changes of the transaction become the next version. -/
theorem Running.committed (h : Running s x) : x.committed.Published (s.version + 1) x.view := by
  have hevolves := h.evolves.upgraded h.below (s.version + 1)
  have hview := h.evolves.view_upgraded h.sound.below h.version_lt_number
  rw [h.committed_eq]
  refine ⟨⟨hevolves.wellFormed, hevolves.below_succ h.sound.below, ?_⟩, rfl, hview⟩
  show x.view.card = ((x.store.content.upgraded x.number (s.version + 1)).view _).card
  rw [hview]
  rfl

/-- A commit publishes the triples of the transaction as the next version. -/
theorem Running.commit (h : Running s x) : x.commit.Published (s.version + 1) x.view :=
  h.committed.compactIfNeeded

/-- Without the changes of the transaction, the published triples are left. -/
theorem Running.aborted (h : Running s x) :
    x.aborted.Published s.version (s.content.view s.version) := by
  have hs := h.sound
  have hb := h.below
  have hwf : (x.store.content.rolledBack x.number).WellFormed := h.evolves.wellFormed.withRanges
  have hview := (h.evolves.keeps_rolledBack hb (s.version + 1)).view hs.wellFormed hwf
    (Nat.lt_succ_self s.version)
  -- the versions are back to their old bounds, even those of nodes that stay in the index
  rw [h.aborted_eq]
  refine ⟨⟨hwf, fun i => ?_, ?_⟩, rfl, hview⟩
  · obtain ⟨hsorted, hlt⟩ := hs.below i
    rw [← h.evolves.bounds_rolledBack hb i] at hsorted hlt
    exact ⟨hsorted, hlt⟩
  · show s.size = ((x.store.content.rolledBack x.number).view s.version).card
    rw [hview, hs.size_eq]

/-- An abort leaves the published triples and their version. -/
theorem Running.abort (h : Running s x) :
    x.abort.Published s.version (s.content.view s.version) :=
  h.aborted.compactIfNeeded

end Transaction

/-! ## Bulk loads -/

namespace BulkLoad

open Content (Evolves)

/-- The triples of a stream up to its first error. -/
def loaded {ε : Type} : List (Except ε Triple) → List Triple
  | [] => []
  | .ok t :: items => t :: loaded items
  | .error _ :: _ => []

/-- The first error of a stream. -/
def failure {ε : Type} : List (Except ε Triple) → Option ε
  | [] => none
  | .ok _ :: items => failure items
  | .error e :: _ => some e

/-- The triples present in the version that the load will publish. -/
def view (l : BulkLoad) : Finset Triple := l.store.content.view (l.store.version + 1)

/-- The load `l` was started at the store `s`. -/
structure Loading (s : Store) (l : BulkLoad) : Prop where
  sound : s.Sound
  store_eq : l.store = ⟨s.past, l.store.content, s.version, s.size, s.started⟩
  evolves : Evolves (s.version + 1) s.content l.store.content
  counted : l.view.card = s.size + l.added

section Loading

variable {s : Store} {l : BulkLoad}

theorem view_start (hs : s.Sound) (hooks : Nat) :
    (start s hooks).view = s.content.view s.version :=
  Content.view_of_below hs.below (Nat.le_succ _)

theorem loading_start (hs : s.Sound) (hooks : Nat) : Loading s (start s hooks) where
  sound := hs
  store_eq := rfl
  evolves := Evolves.refl hs.wellFormed _
  counted := by
    rw [view_start hs, ← hs.size_eq]
    rfl

theorem store_add (l : BulkLoad) (t : Triple) :
    (l.add t).store = ⟨l.store.past, (l.store.content.insert t (l.store.version + 1)).2,
      l.store.version, l.store.size, l.store.started⟩ := rfl

theorem added_add (l : BulkLoad) (t : Triple) :
    (l.add t).added =
      if (l.store.content.insert t (l.store.version + 1)).1.isSome then l.added + 1
      else l.added := rfl

theorem Loading.version_eq (h : Loading s l) : l.store.version = s.version := by
  rw [h.store_eq]

/-- A triple of the stream is added to the version that will be published. -/
theorem Loading.add (h : Loading s l) (t : Triple) :
    Loading s (l.add t) ∧ (l.add t).view = Insert.insert t l.view := by
  have hversion := h.version_eq
  obtain ⟨hevolves, hanswer, hview⟩ := h.evolves.insert h.sound.below t
  have hnew : (l.add t).view = Insert.insert t l.view := by
    rw [view, view, store_add, hversion]
    exact hview
  refine ⟨⟨h.sound, ?_, ?_, ?_⟩, hnew⟩
  · rw [store_add, h.store_eq]
  · rw [store_add, hversion]
    exact hevolves
  · have hcounted := h.counted
    rw [hnew, added_add, hversion, hanswer]
    have hold : l.view = l.store.content.view (s.version + 1) := by rw [view, hversion]
    by_cases ht : t ∈ l.view
    · rw [Finset.insert_eq_of_mem ht, hcounted, ← hold]
      simp [ht]
    · rw [Finset.card_insert_of_notMem ht, hcounted, ← hold]
      simp [ht, Nat.add_assoc]

/-- A load adds the triples up to the first error. -/
theorem Loading.run {ε : Type} (h : Loading s l) (items : List (Except ε Triple)) :
    (l.run items).1 = failure items ∧ Loading s (l.run items).2 ∧
      (l.run items).2.view = l.view ∪ (loaded items).toFinset := by
  induction items generalizing l with
  | nil => exact ⟨rfl, h, by rw [loaded, List.toFinset_nil, Finset.union_empty]; rfl⟩
  | cons item items ih =>
    cases item with
    | error e => exact ⟨rfl, h, by rw [loaded, List.toFinset_nil, Finset.union_empty]; rfl⟩
    | ok t =>
      obtain ⟨hadd, hview⟩ := h.add t
      obtain ⟨hfailure, hrun, hview'⟩ := ih hadd
      refine ⟨hfailure, hrun, ?_⟩
      rw [BulkLoad.run, hview', hview, loaded, List.toFinset_cons, Finset.insert_union,
        Finset.union_insert]

/-- Apart from its index, a load leaves the store that it was started at. -/
theorem Loading.finish_eq (h : Loading s l) : l.finish =
    ⟨s.past, l.store.content, s.version + 1, s.size + l.added, s.started⟩ := by
  rcases l with ⟨⟨past, content, version, size, started⟩, hooks, processed, added, calls⟩
  have hstore := h.store_eq
  simp only [Store.mk.injEq] at hstore
  obtain ⟨rfl, -, rfl, rfl, rfl⟩ := hstore
  rfl

/-- The end of a load publishes its triples as the next version. -/
theorem Loading.finish (h : Loading s l) : l.finish.Published (s.version + 1) l.view := by
  have hview : l.store.content.view (s.version + 1) = l.view := by rw [view, h.version_eq]
  rw [h.finish_eq]
  refine ⟨⟨h.evolves.wellFormed, h.evolves.below_succ h.sound.below, ?_⟩, rfl, hview⟩
  show s.size + l.added = (l.store.content.view (s.version + 1)).card
  rw [hview, h.counted]

end Loading

end BulkLoad

/-- A load publishes the next version, with the triples up to the first error. -/
theorem Store.Sound.load {ε : Type} {s : Store} (hs : s.Sound) (hooks : Nat)
    (items : List (Except ε Triple)) :
    let S := s.content.view s.version ∪ (BulkLoad.loaded items).toFinset
    (s.load hooks items).1.outcome = (match BulkLoad.failure items with
      | some e => .error e
      | none => .ok (S.card - (s.content.view s.version).card)) ∧
    (s.load hooks items).2.Published (s.version + 1) S := by
  obtain ⟨hfailure, hrun, hview⟩ := (BulkLoad.loading_start hs hooks).run items
  rw [BulkLoad.view_start hs] at hview
  have hcounted := hrun.counted
  rw [hview, hs.size_eq] at hcounted
  refine ⟨?_, ?_⟩
  · show (match ((BulkLoad.start s hooks).run items).1 with
      | some e => Except.error e
      | none => .ok ((BulkLoad.start s hooks).run items).2.added) = _
    rw [hfailure]
    cases BulkLoad.failure items with
    | some e => rfl
    | none =>
      simp only [Except.ok.injEq]
      omega
  · rw [← hview]
    exact hrun.finish

end Rdf
