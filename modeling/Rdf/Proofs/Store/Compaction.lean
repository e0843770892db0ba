import Rdf.Proofs.Store.Checking
import Rdf.Proofs.Store.Versions

/-!
# Indexes are kept compact

A commit and an abort look whether the index holds too many triples that are not present any more,
and build a new one if it does. Loads do not look, but whatever they add to the index is present
when they end. So the bound holds whenever no operation is running. Main statements:

* `compact_compactIfNeeded`: after a commit or an abort the index is compact, since a new index
  holds the published triples only;
* `State.Valid.compact_run`, `compact_of_idle`: so it is between the operations of every run;
* `Published.rebuilt`: a new index holds the published triples, in every version, and nothing else;
* `compaction_invisible`: no reader and no cursor can tell that there is a new index.
-/

namespace Rdf
namespace Content

variable {c : Content}

theorem size_index_empty : empty.index.size = 0 := Std.HashMap.size_empty

/-- An insertion makes room for its triple at most, and only if the triple was absent. -/
theorem WellFormed.size_insert_le (h : c.WellFormed) (t : Triple) (v : Nat) :
    (c.insert t v).2.index.size ≤
      c.index.size + if (c.insert t v).1.isSome then 1 else 0 := by
  rcases insert_cases h t v with ⟨i, -, -, hi⟩ | ⟨i, c', -, hw, hi⟩
  · rw [hi]
    exact Nat.le_refl _
  · rw [hi]
    show c'.index.size ≤ c.index.size + 1
    rw [(hw.wellFormed h).size_index, h.size_index]
    cases hw with
    | revived hj hp =>
      rw [toggleNode, size_nodes_withRanges]
      exact Nat.le_succ _
    | created ht => rw [size_nodes_append]

/-- A list of triples makes room for as many triples as it has. -/
theorem WellFormed.size_foldl_insert_le (h : c.WellFormed) (ts : List Triple) (v : Nat) :
    (ts.foldl (fun c t => (c.insert t v).2) c).index.size ≤ c.index.size + ts.length := by
  induction ts generalizing c with
  | nil => exact Nat.le_refl _
  | cons t ts ih =>
    have hrest := ih (h.insert t v)
    have hfirst : (c.insert t v).2.index.size ≤ c.index.size + 1 := by
      refine Nat.le_trans (h.size_insert_le t v) ?_
      split <;> omega
    rw [List.foldl_cons, List.length_cons]
    omega

/-! ## The triples of a version among those of the index -/

theorem card_keys (c : Content) : c.index.keys.toFinset.card = c.index.size := by
  rw [List.toFinset_card_of_nodup Std.HashMap.nodup_keys, Std.HashMap.length_keys]

theorem card_view_le (c : Content) (v : Nat) : (c.view v).card ≤ c.index.size := by
  rw [← card_keys]
  exact Finset.card_le_card (Finset.filter_subset _ _)

/-- An index that has room for the triples of a version only holds no others. -/
theorem mem_index_iff_of_size_le {v : Nat} (h : c.index.size ≤ (c.view v).card) (t : Triple) :
    t ∈ c.index ↔ t ∈ c.view v := by
  have hview : c.view v = c.index.keys.toFinset := by
    apply Finset.eq_of_subset_of_card_le (Finset.filter_subset _ _)
    rw [card_keys]
    exact h
  rw [hview, List.mem_toFinset, Std.HashMap.mem_keys]

end Content

namespace Store

variable {s : Store}

/-- The index holds few triples that are not present: less than the threshold, or fewer than are
present. -/
def Compact (s : Store) : Prop := s.content.index.size - s.size < max compactionThreshold s.size

theorem compactIfNeeded_of_compact (h : s.Compact) : s.compactIfNeeded = s := if_pos h

/-- A small index is compact. -/
theorem compact_of_lt (h : s.content.index.size < compactionThreshold) : s.Compact :=
  Nat.lt_of_le_of_lt (Nat.sub_le _ _) (Nat.lt_of_lt_of_le h (Nat.le_max_left _ _))

/-- A new index has room for the published triples only. -/
theorem Sound.size_compacted_le (h : s.Sound) : s.compacted.index.size ≤ s.size := by
  have hshows : s.Shows s.snapshot (s.content.view s.version) :=
    Published.shows ⟨h, rfl, rfl⟩
  have hsize := Content.wellFormed_empty.size_foldl_insert_le
    (s.matching s.snapshot .any).reverse 0
  rw [Content.size_index_empty, Nat.zero_add, List.length_reverse, hshows.length_matching_any,
    ← h.size_eq] at hsize
  exact hsize

theorem compact_compactIfNeeded (h : s.Sound) : s.compactIfNeeded.Compact := by
  rw [compactIfNeeded]
  split
  · next hcompact => exact hcompact
  · show s.compacted.index.size - s.size < max compactionThreshold s.size
    rw [Nat.sub_eq_zero_of_le h.size_compacted_le]
    exact Nat.lt_of_lt_of_le (by decide) (Nat.le_max_left _ _)

theorem compact_of_empty (h : s.content = .empty) : s.Compact := by
  apply compact_of_lt
  rw [h, Content.size_index_empty]
  decide

/-- If a load may end compact, it may after one more triple. -/
theorem compact_finish_add {l : BulkLoad} (hl : l.store.content.WellFormed)
    (h : l.finish.Compact) (t : Triple) : (l.add t).finish.Compact := by
  have hindex := hl.size_insert_le t (l.store.version + 1)
  change l.store.content.index.size - (l.store.size + l.added) <
    max compactionThreshold (l.store.size + l.added) at h
  show (l.store.content.insert t (l.store.version + 1)).2.index.size -
    (l.store.size + (l.add t).added) < max compactionThreshold (l.store.size + (l.add t).added)
  rw [BulkLoad.added_add]
  split at hindex
  · next hsome =>
    rw [if_pos hsome]
    omega
  · next hnone =>
    rw [if_neg hnone]
    omega

namespace State

variable {k : Nat} {σ : State}

/-- The index is compact, or will be when the running operation ends. -/
def Compact : State → Prop
  | .idle s => s.Compact
  | .writing _ => True
  | .loading l => l.finish.Compact

theorem compact_initial : initial.Compact := compact_of_empty (s := .empty) rfl

theorem Valid.compact_after (h : Valid k σ) (hσ : σ.Compact) (e : Event) :
    (σ.after e).Compact := by
  revert h hσ
  apply after_cases (P := fun σ _ σ' => Valid k σ → σ.Compact → σ'.Compact)
  case begin => exact fun s _ _ => trivial
  case startLoad => exact fun s hooks _ hs => hs
  case clear => exact fun s _ _ => compact_of_empty (s := s.clear) rfl
  case perform => exact fun x step _ _ => trivial
  case commit =>
    intro x hvalid _
    cases hvalid with
    | writing h _ => exact compact_compactIfNeeded h.committed.sound
  case abort =>
    intro x hvalid _
    cases hvalid with
    | writing h _ => exact compact_compactIfNeeded h.aborted.sound
  case load =>
    intro l t hvalid hl
    cases hvalid with
    | loading h _ => exact compact_finish_add h.evolves.wellFormed hl t
  case finishLoad => exact fun l _ hl => hl
  case wait => exact fun σ e _ hσ => hσ

theorem Valid.compact_run (h : Valid k σ) (hσ : σ.Compact) (es : List Event)
    (hk : k + es.countP Event.isStart < transactionBase) : (σ.run es).Compact :=
  h.run_induction (P := Compact) (fun e hvalid hcompact => hvalid.compact_after hcompact e) hσ es hk

end State

/-- Between operations, the index is compact. -/
theorem compact_of_idle {es : List Event} (hes : es.countP Event.isStart < transactionBase)
    (hs : State.initial.run es = .idle s) : s.Compact := by
  have hcompact := State.valid_initial.compact_run State.compact_initial es (by omega)
  rw [hs] at hcompact
  exact hcompact

/-! ## What a compaction leaves -/

/-- A reader and its cursors answer in the store `s'` what they answer in the store `s`. -/
structure SameReads (r : Reader) (s s' : Store) : Prop where
  contains : ∀ t, s'.contains r t = s.contains r t
  count : s'.count r = s.count r
  seesNothing : s'.seesNothing r = s.seesNothing r
  matching : ∀ p, s'.matching r p = s.matching r p
  rest : ∀ cursor : Cursor, cursor.reader = r → s'.rest cursor = s.rest cursor
  take : ∀ cursor : Cursor, cursor.reader = r → ∀ n, s'.take n cursor = s.take n cursor
  check : s'.check r = s.check r

theorem SameReads.of_contentOf_eq {s s' : Store} {r : Reader}
    (h : s'.contentOf r.generation = s.contentOf r.generation) : SameReads r s s' where
  contains t := by rw [Store.contains, h, Store.contains]
  count := by rw [Store.count, h, Store.count]
  seesNothing := by rw [Store.seesNothing, h, Store.seesNothing]
  matching p := by rw [Store.matching, h, Store.matching]
  rest cursor hr := by rw [Store.rest, hr, h, Store.rest, hr]
  take cursor hr n := by rw [Store.take, hr, h, Store.take, hr]
  check := by rw [Store.check, h, Store.check]

/-- The store `s'` is `s` with a new index. It holds the published triples of `s` and no others,
shows them in every version, and is consistent. -/
structure Rebuilt (s s' : Store) : Prop where
  mem_index : ∀ t, t ∈ s'.content.index ↔ t ∈ s.triples
  contains : ∀ version t, s'.content.contains version t = decide (t ∈ s.triples)
  consistent : s'.content.Consistent
  version_eq : s'.version = s.version
  size_eq : s'.size = s.size
  generation_eq : s'.generation = s.generation + 1

section Rebuilt

variable {v : Nat} {S : Finset Triple}

theorem compactIfNeeded_of_not_compact (h : ¬ s.Compact) :
    s.compactIfNeeded = s.renew s.compacted :=
  if_neg h

/-- A compaction of a published store builds a new index of its triples. -/
theorem Published.rebuilt (h : s.Published v S) (hs : ¬ s.Compact) :
    Rebuilt s s.compactIfNeeded := by
  have hview : ∀ w, s.compacted.view w = s.triples := by
    intro w
    rw [h.triples_eq, view_compacted h.sound.wellFormed, h.version_eq, h.view_eq]
  have hsize : s.compacted.index.size ≤ (s.compacted.view 0).card := by
    rw [hview, h.triples_eq, ← h.size_eq]
    exact h.sound.size_compacted_le
  rw [compactIfNeeded_of_not_compact hs]
  refine ⟨fun t => ?_, fun w t => ?_, (evolves_compacted s).wellFormed.consistent, rfl, rfl,
    Array.size_push _⟩
  · rw [← hview 0]
    exact Content.mem_index_iff_of_size_le hsize t
  · rw [← hview w]
    exact Content.contains_eq_decide s.compacted w t

/-- The index that was replaced is left to its readers, whatever happens later. -/
theorem sameReads_run {k : Nat} (h : (State.idle s.compactIfNeeded).Valid k) (hs : ¬ s.Compact)
    (later : List Event) (hk : k + later.countP Event.isStart < transactionBase) {r : Reader}
    (hr : r.generation ≤ s.generation) :
    SameReads r s ((State.idle s.compactIfNeeded).run later).store := by
  have hpast : s.compactIfNeeded.past = s.past.push s.content := by
    rw [compactIfNeeded_of_not_compact hs]
    rfl
  have hgeneration : r.generation < s.compactIfNeeded.generation := by
    rw [generation, hpast, Array.size_push]
    exact Nat.lt_succ_of_le hr
  apply SameReads.of_contentOf_eq
  rw [(h.frozen_run later hk).contentOf_eq _ hgeneration]
  exact contentOf_of_past_push hpast hr

/-- The end of a transaction either leaves the index or puts a new one in its place, which the
readers taken before never notice. -/
theorem Published.compaction {k : Nat} (h : s.Published v S) (hv : v ≤ k) :
    (s.Compact → s.compactIfNeeded = s) ∧ (¬ s.Compact → Rebuilt s s.compactIfNeeded ∧
      ∀ later : List Event, k + later.countP Event.isStart < transactionBase → ∀ r : Reader,
        r.generation ≤ s.generation →
          SameReads r s ((State.idle s.compactIfNeeded).run later).store) := by
  refine ⟨compactIfNeeded_of_compact, fun hs => ⟨h.rebuilt hs, fun later hk r hr => ?_⟩⟩
  exact sameReads_run (State.Valid.of_published h.compactIfNeeded hv) hs later hk hr

end Rebuilt

/-- Between operations, the index has room for the present triples, and for fewer others than the
threshold or the present ones. A commit or an abort that finds more of them puts a new index in
place: it holds the published triples and no others, shows them in every version, and is consistent,
while version and size stay, and all readers taken before answer for ever as they did. -/
theorem compaction_invisible (es : List Event) (hes : es.countP Event.isStart < transactionBase) :
    (∀ s, State.initial.run es = .idle s → s.size ≤ s.content.index.size ∧
      s.content.index.size - s.size < max 1024 s.size) ∧
    ∀ x, State.initial.run es = .writing x →
      x.commit = x.committed.compactIfNeeded ∧ x.abort = x.aborted.compactIfNeeded ∧
      ∀ s, s = x.committed ∨ s = x.aborted → (s.Compact → s.compactIfNeeded = s) ∧
        (¬ s.Compact → Rebuilt s s.compactIfNeeded ∧ ∀ later : List Event,
          (es ++ later).countP Event.isStart < transactionBase → ∀ r : Reader,
            r.generation ≤ s.generation →
              SameReads r s ((State.idle s.compactIfNeeded).run later).store) := by
  refine ⟨fun s hs => ?_, fun x hx => ⟨rfl, rfl, fun s hs => ?_⟩⟩
  · refine ⟨?_, compact_of_idle hes hs⟩
    rw [(sound_of_run hes hs).1.size_eq]
    exact Content.card_view_le _ _
  · have hvalid := State.valid_initial.run es (by omega)
    rw [hx, Nat.zero_add] at hvalid
    simp only [List.countP_append]
    cases hvalid with
    | writing hrunning hk =>
      rcases hs with rfl | rfl
      · exact hrunning.committed.compaction hk
      · exact hrunning.aborted.compaction (Nat.le_of_lt hk)

/-- Triples with objects of different lengths. -/
def lengthy (n : Nat) : List Triple :=
  (List.range n).map fun i =>
    ⟨default, default, .literal (.plain (String.ofList (List.replicate i 'a')))⟩

theorem nodup_lengthy (n : Nat) : (lengthy n).Nodup := by
  refine List.Nodup.map (fun i j hij => ?_) List.nodup_range
  have hlength := congrArg List.length (String.ofList_injective (by simpa using hij))
  simpa using hlength

theorem length_lengthy (n : Nat) : (lengthy n).length = n := by
  rw [lengthy, List.length_map, List.length_range]

/-- A transaction that fails on an empty store leaves a node for each triple that it has inserted,
and none of them is present. -/
theorem aborted_of_extend {ts : List Triple} (hts : ts.Nodup) :
    let x := (empty.begin.perform (.extend ts)).2
    ts.length ≤ x.aborted.content.index.size ∧ x.aborted.size = 0 ∧ x.aborted.triples = ∅ := by
  intro x
  have hperformed := @performed_of_run empty [] (by decide) rfl [.extend ts]
  have hrunning : Transaction.Running empty x := hperformed.1
  have hview : x.view = empty.triples ∪ ts.toFinset := hperformed.2.2.2
  refine ⟨?_, ?_, hrunning.aborted.triples_eq.trans (Content.view_empty 0)⟩
  · rw [hrunning.aborted_eq]
    refine Nat.le_trans ?_ (Content.card_view_le x.store.content x.number)
    rw [show x.store.content.view x.number = _ from hview, ← List.toFinset_card_of_nodup hts]
    exact Finset.card_le_card Finset.subset_union_right
  · rw [hrunning.aborted_eq]
    rfl

theorem compaction_invisible_of_failure :
    let x := (empty.begin.perform (.extend (lengthy 1024))).2
    1024 ≤ x.aborted.content.index.size ∧ Rebuilt x.aborted x.abort ∧
      x.abort.content.index.isEmpty = true := by
  have hends := (compaction_invisible [.begin, .perform (.extend (lengthy 1024))] (by decide)).2
  obtain ⟨-, -, hend⟩ := hends (empty.begin.perform (.extend (lengthy 1024))).2 rfl
  obtain ⟨hindex, hsize, htriples⟩ := aborted_of_extend (nodup_lengthy 1024)
  rw [length_lengthy] at hindex
  -- the transaction as a variable, so that nothing computes its content
  generalize (empty.begin.perform (.extend (lengthy 1024))).2 = x at hend hindex hsize htriples ⊢
  have hcompact : ¬ x.aborted.Compact := by
    rw [Compact, hsize, compactionThreshold]
    omega
  obtain ⟨hrebuilt, -⟩ := (hend x.aborted (Or.inr rfl)).2 hcompact
  refine ⟨hindex, hrebuilt, Std.HashMap.isEmpty_iff_forall_not_mem.2 fun t ht => ?_⟩
  have hmem := (hrebuilt.mem_index t).1 ht
  rw [htriples] at hmem
  exact absurd hmem (Finset.notMem_empty t)

end Store
end Rdf
