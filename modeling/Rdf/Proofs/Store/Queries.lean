import Rdf.Store.Cursor
import Rdf.Proofs.Store.Chains
import Mathlib.Data.Finset.Card

/-!
# Queries of one version

Three ways lead to the triples of a version: the index answers for one triple and counts them, and a
cursor walks one of four chains and filters. On a well-formed index they agree. Main statements:

* `take_eq`, `rest_take`: what a cursor yields step by step is the walk of its chain;
* `matching_eq`: whichever chain a query chooses, its result is that of walking all nodes;
* `mem_matching`, `nodup_matching`: the result holds every triple of the version that matches, once;
* `mem_view`, `card_view`: the triples of a version as a finite set.
-/

namespace Rdf

/-! ## Patterns -/

theorem Subject.toTerm_inj {s s' : Subject} : s.toTerm = s'.toTerm ↔ s = s' := by
  cases s <;> cases s' <;> simp [Subject.toTerm]

/-- A pattern matches what its rest matches among the triples with the bound term. -/
theorem Pattern.isMatch_free {p : Pattern} {q : Position} {u : Term} (h : p.termAt q = some u)
    (t : Triple) : p.isMatch t = ((p.free q).isMatch t && decide (t.termAt q = u)) := by
  rcases p with ⟨ps, pp, po⟩
  cases q with
  | subject =>
    obtain ⟨s, rfl, rfl⟩ := Option.map_eq_some_iff.1 h
    simp only [isMatch, free, Triple.termAt, Option.all_some, Option.all_none, Bool.true_and,
      Subject.toTerm_inj, eq_comm (a := t.subject)]
    rw [Bool.and_assoc, Bool.and_comm]
  | predicate =>
    obtain ⟨i, rfl, rfl⟩ := Option.map_eq_some_iff.1 h
    simp only [isMatch, free, Triple.termAt, Option.all_some, Option.all_none, Bool.and_true,
      Term.iri.injEq, eq_comm (a := t.predicate)]
    rw [Bool.and_assoc, Bool.and_assoc, Bool.and_comm (decide _)]
  | object =>
    obtain rfl : po = some u := h
    simp only [isMatch, free, Triple.termAt, Option.all_some, Option.all_none, Bool.and_true,
      eq_comm (a := t.object)]

namespace Content

/-! ## Cursors step by step -/

section Steps

variable (c : Content)

theorem nextFrom_eq (cursor : Cursor) (i : Nat) :
    c.nextFrom cursor i = match c.yielded cursor i with
      | some t => some (t, c.previous cursor.chain i)
      | none => (c.previous cursor.chain i).bind (c.nextFrom cursor) := by
  rw [nextFrom]
  cases c.yielded cursor i with
  | some t => rfl
  | none =>
    simp only
    split <;> rename_i h <;> rw [h] <;> rfl

/-- The triples that a cursor yields from a position on. -/
theorem filterMap_walk (cursor : Cursor) (i : Nat) :
    (c.walk cursor.chain (some i)).filterMap (c.yielded cursor) =
      match c.nextFrom cursor i with
      | some (t, position) => t :: (c.walk cursor.chain position).filterMap (c.yielded cursor)
      | none => [] := by
  -- a node that is not yielded passes the question on to the node before it in the chain
  induction i using Nat.strongRecOn with
  | ind i ih =>
    rw [nextFrom_eq]
    rcases Nat.lt_or_ge i c.nodes.size with hi | hi
    · rw [walk_some hi, List.filterMap_cons]
      cases c.yielded cursor i with
      | some t => rfl
      | none =>
        simp only
        cases hp : c.previous cursor.chain i with
        | none => rfl
        | some j => exact ih j (previous_lt hp)
    · -- a position outside of the index ends the walk
      have hnode : c.nodes[i]? = none := Array.getElem?_eq_none hi
      rw [walk_of_size_le hi, yielded, previous, hnode]
      rfl

theorem rest_eq (cursor : Cursor) :
    c.rest cursor = match c.next cursor with
      | (some t, cursor) => t :: c.rest cursor
      | (none, _) => [] := by
  rcases cursor with ⟨reader, chain, filter, _ | i⟩
  · rfl
  · have h := c.filterMap_walk ⟨reader, chain, filter, some i⟩ i
    rw [rest, h, next, Option.bind_some]
    cases c.nextFrom ⟨reader, chain, filter, some i⟩ i <;> rfl

theorem rest_of_next_none {cursor cursor' : Cursor} (h : c.next cursor = (none, cursor')) :
    c.rest cursor' = [] := by
  unfold next at h
  split at h
  · cases h
  · obtain rfl := (Prod.mk.inj h).2
    rfl

/-- The next triples of a cursor are the first of those that it still yields. -/
theorem take_eq (n : Nat) (cursor : Cursor) : (c.take n cursor).1 = (c.rest cursor).take n := by
  induction n generalizing cursor with
  | zero => rfl
  | succ n ih =>
    rw [take, rest_eq]
    rcases c.next cursor with ⟨_ | t, cursor'⟩
    · rfl
    · simp only [List.take_succ_cons]
      rw [ih cursor']

/-- A cursor that has moved yields the triples that are left. -/
theorem rest_take (n : Nat) (cursor : Cursor) :
    c.rest (c.take n cursor).2 = (c.rest cursor).drop n := by
  induction n generalizing cursor with
  | zero => rfl
  | succ n ih =>
    rw [take, c.rest_eq cursor]
    rcases h : c.next cursor with ⟨_ | t, cursor'⟩
    · simp only [List.drop_nil]
      exact c.rest_of_next_none h
    · simp only [List.drop_succ_cons]
      exact ih cursor'

end Steps

/-! ## The choice of the chain -/

section Choice

variable {c : Content}

theorem bound_eq_some {p : Pattern} {q : Position} {start : Option Nat} {count : Nat}
    (h : c.bound p q = some (start, count)) :
    ∃ u, p.termAt q = some u ∧ start = lastOf (c.chains.get q) u := by
  obtain ⟨u, hu, hs⟩ := Option.map_eq_some_iff.1 h
  refine ⟨u, hu, ?_⟩
  rw [lastOf]
  cases hc : (c.chains.get q)[u]? with
  | none => rw [hc] at hs; exact (Prod.mk.inj hs).1.symm
  | some chain => rw [hc] at hs; exact (Prod.mk.inj hs).1.symm

/-- A query starts at the end of the chain of some bound term, or at the latest node. -/
theorem query_eq (c : Content) (r : Reader) (p : Pattern) :
    (∃ q u, p.termAt q = some u ∧
      c.query r p = ⟨r, .sharing q, p.free q, lastOf (c.chains.get q) u⟩) ∨
    c.query r p = ⟨r, .all, p, c.last⟩ := by
  unfold query
  simp only
  split
  · next start count h =>
    obtain ⟨u, hu, rfl⟩ := bound_eq_some (Option.filter_eq_some_iff.1 h).1
    exact Or.inl ⟨.subject, u, hu, rfl⟩
  · split
    · next start count h =>
      obtain ⟨u, hu, rfl⟩ := bound_eq_some (Option.filter_eq_some_iff.1 h).1
      exact Or.inl ⟨.predicate, u, hu, rfl⟩
    · split
      · next start count h =>
        obtain ⟨u, hu, rfl⟩ := bound_eq_some h
        exact Or.inl ⟨.object, u, hu, rfl⟩
      · exact Or.inr rfl

theorem filterMap_earlier {α : Type} {q q' : Nat → Bool} {f f' : Nat → Option α} {n : Nat}
    (h : ∀ i < n, (if q i then f i else none) = if q' i then f' i else none) :
    (earlier q n).filterMap f = (earlier q' n).filterMap f' := by
  induction n with
  | zero => rfl
  | succ n ih =>
    have hn := h n (Nat.lt_succ_self n)
    have ih := ih fun i hi => h i (Nat.lt_succ_of_lt hi)
    rw [earlier_succ, earlier_succ]
    by_cases hq : q n = true <;> by_cases hq' : q' n = true <;>
      simp only [hq, hq', if_true, Bool.false_eq_true, if_false] at hn ⊢
    · rw [List.filterMap_cons, List.filterMap_cons, hn, ih]
    · rw [List.filterMap_cons, hn, ih]
    · rw [List.filterMap_cons, ← hn, ih]
    · exact ih

theorem yielded_eq_some {cursor : Cursor} {i : Nat} {t : Triple} :
    c.yielded cursor i = some t ↔ c.tripleAt i = some t ∧
      c.isVisible cursor.reader.version i = true ∧ cursor.filter.isMatch t = true := by
  unfold yielded tripleAt isVisible rangeOf
  cases c.nodes[i]? with
  | none => simp
  | some n =>
    simp only [Option.map_some, Option.some.injEq]
    split
    · next h =>
      rw [Bool.and_eq_true] at h
      constructor
      · intro ht
        obtain rfl := Option.some.inj ht
        exact ⟨rfl, h⟩
      · intro ⟨ht, _⟩
        subst ht
        rfl
    · next h =>
      rw [Bool.and_eq_true] at h
      constructor
      · intro hnone
        cases hnone
      · intro ⟨ht, h'⟩
        subst ht
        exact absurd h' h

/-- Whichever chain a query walks, it yields what a walk over all nodes would, in the same order. -/
theorem matching_eq (h : c.WellFormed) (r : Reader) (p : Pattern) :
    c.matching r p = c.rest ⟨r, .all, p, c.last⟩ := by
  rw [matching]
  rcases c.query_eq r p with ⟨q, u, hu, hquery⟩ | hquery
  · rw [hquery, rest, rest, h.walk_all]
    simp only
    rw [h.walk_sharing]
    -- the chain leaves out nodes with other terms, and the full pattern rejects the same nodes
    apply filterMap_earlier
    intro i hi
    rw [if_pos rfl, hasTerm_eq]
    apply Option.ext
    intro t
    rw [yielded_eq_some]
    simp only [p.isMatch_free hu, Bool.and_eq_true, decide_eq_true_eq]
    split
    · next hterm =>
      rw [yielded_eq_some]
      simp only
      constructor
      · intro ⟨ht, hv, hm⟩
        rw [ht] at hterm
        exact ⟨ht, hv, hm, by simpa using hterm⟩
      · intro ⟨ht, hv, hm, _⟩
        exact ⟨ht, hv, hm⟩
    · next hterm =>
      constructor
      · intro hnone
        cases hnone
      · intro ⟨ht, _, _, hm⟩
        rw [ht] at hterm
        simp [hm] at hterm
  · rw [hquery]

end Choice

/-! ## What a version holds -/

section Version

variable {c : Content} {v : Nat} {t : Triple}

theorem contains_iff (h : c.WellFormed) :
    c.contains v t = true ↔ ∃ i, c.tripleAt i = some t ∧ c.isVisible v i = true := by
  unfold contains
  constructor
  · intro hc
    split at hc
    · next i hi => exact ⟨i, (h.indexed t i).1 hi, hc⟩
    · cases hc
  · intro ⟨i, ht, hv⟩
    rw [(h.indexed t i).2 ht]
    exact hv

/-- A query yields exactly the triples of the version that match. -/
theorem mem_matching (h : c.WellFormed) {r : Reader} {p : Pattern} :
    t ∈ c.matching r p ↔ c.contains r.version t = true ∧ p.isMatch t = true := by
  rw [matching_eq h, rest, h.walk_all, List.mem_filterMap, contains_iff h]
  constructor
  · intro ⟨i, _, hi⟩
    obtain ⟨ht, hv, hm⟩ := yielded_eq_some.1 hi
    exact ⟨⟨i, ht, hv⟩, hm⟩
  · intro ⟨⟨i, ht, hv⟩, hm⟩
    refine ⟨i, mem_earlier.2 ⟨lt_size_of_tripleAt ht, rfl⟩, ?_⟩
    exact yielded_eq_some.2 ⟨ht, hv, hm⟩

/-- No triple is yielded twice. -/
theorem nodup_matching (h : c.WellFormed) (r : Reader) (p : Pattern) :
    (c.matching r p).Nodup := by
  rw [matching_eq h, rest, h.walk_all]
  refine (nodup_earlier _ _).filterMap fun i j t hi hj => ?_
  exact h.tripleAt_inj (yielded_eq_some.1 hi).1 (yielded_eq_some.1 hj).1

/-- The triples of a version. -/
def view (c : Content) (version : Nat) : Finset Triple :=
  c.index.keys.toFinset.filter fun t => c.contains version t = true

@[simp] theorem mem_view : t ∈ c.view v ↔ c.contains v t = true := by
  rw [view, Finset.mem_filter, List.mem_toFinset, Std.HashMap.mem_keys, and_iff_right_iff_imp]
  intro h
  rw [Std.HashMap.mem_iff_isSome_getElem?]
  unfold contains at h
  split at h
  · next i hi => rw [hi]; rfl
  · cases h

@[simp] theorem view_empty (v : Nat) : empty.view v = ∅ := by
  ext t
  simp [contains, empty]

theorem contains_eq_decide (c : Content) (v : Nat) (t : Triple) :
    c.contains v t = decide (t ∈ c.view v) := by
  rw [Bool.eq_iff_iff, decide_eq_true_eq, mem_view]

theorem size_eq_countP (c : Content) (v : Nat) :
    c.size v = c.index.toList.countP fun e => c.isVisible v e.2 := by
  -- the fold is generalized to any count that it starts from
  have hfold : ∀ (es : List (Triple × Nat)) (n : Nat),
      es.foldl (fun n e => if c.isVisible v e.2 then n + 1 else n) n =
        n + es.countP fun e => c.isVisible v e.2 := by
    intro es
    induction es with
    | nil => simp
    | cons e es ih =>
      intro n
      rw [List.foldl_cons, ih, List.countP_cons]
      split <;> omega
  rw [size, Std.HashMap.fold_eq_foldl_toList, hfold, Nat.zero_add]

theorem contains_of_mem_toList {e : Triple × Nat} (he : e ∈ c.index.toList) :
    c.contains v e.1 = c.isVisible v e.2 := by
  rw [contains, Std.HashMap.mem_toList_iff_getElem?_eq_some.1 he]

/-- The count of the index is the number of triples of the version. -/
theorem card_view (c : Content) (v : Nat) : (c.view v).card = c.size v := by
  -- both sides count entries of the index, whose keys are all different
  rw [size_eq_countP, view, ← List.toFinset_filter,
    List.toFinset_card_of_nodup (Std.HashMap.nodup_keys.filter _), ← List.countP_eq_length_filter,
    ← Std.HashMap.map_fst_toList_eq_keys, List.countP_map]
  apply List.countP_congr
  intro e he
  simp [contains_of_mem_toList he]

theorem isEmpty_eq_all (c : Content) (v : Nat) :
    c.isEmpty v = c.index.toList.all fun e => !c.isVisible v e.2 := by
  have hfold : ∀ (es : List (Triple × Nat)) (b : Bool),
      es.foldl (fun b e => b && !c.isVisible v e.2) b =
        (b && es.all fun e => !c.isVisible v e.2) := by
    intro es
    induction es with
    | nil => simp
    | cons e es ih =>
      intro b
      rw [List.foldl_cons, ih, List.all_cons, Bool.and_assoc]
  rw [isEmpty, Std.HashMap.fold_eq_foldl_toList, hfold, Bool.true_and]

theorem isEmpty_iff (c : Content) (v : Nat) : c.isEmpty v = true ↔ c.view v = ∅ := by
  rw [isEmpty_eq_all, List.all_eq_true, Finset.eq_empty_iff_forall_notMem]
  constructor
  · intro hall t ht
    rw [mem_view, contains] at ht
    split at ht
    · next i hi =>
      have := hall (t, i) (Std.HashMap.mem_toList_iff_getElem?_eq_some.2 hi)
      simp [ht] at this
    · cases ht
  · intro hempty e he
    have := hempty e.1
    rw [mem_view, contains_of_mem_toList he] at this
    simpa using this

/-- A query yields as many triples as the version has that match. -/
theorem toFinset_matching (h : c.WellFormed) (r : Reader) (p : Pattern) :
    (c.matching r p).toFinset = (c.view r.version).filter fun t => p.isMatch t = true := by
  ext t
  rw [List.mem_toFinset, mem_matching h, Finset.mem_filter, mem_view]

end Version

end Content
end Rdf
