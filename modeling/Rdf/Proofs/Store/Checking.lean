import Rdf.Proofs.Store.Reads

/-!
# The check of an index

`Content.Consistent` says what a reader may rely on: the index leads to one node for each triple, and
every chain visits the nodes that belong to it, each once, as many as it counts. The check follows
all chains and adds up their lengths, and on an index that was built by insertions it finds nothing.
Main statements:

* `WellFormed.perm_sharing`: the chains of a position split the nodes among them;
* `WellFormed.check`: the check of a well-formed index succeeds;
* `check_succeeds`: at every moment of every run, every index that was ever built is consistent, and
  its check succeeds.
-/

namespace Rdf
namespace Content

/-- The index leads from every triple to its single node, and every chain visits the nodes that
belong to it, each of them once, as many as are counted. -/
structure Consistent (c : Content) : Prop where
  indexed : ∀ t i, c.index[t]? = some i ↔ c.tripleAt i = some t
  nodup_all : (c.walk .all c.last).Nodup
  mem_all : ∀ i, i ∈ c.walk .all c.last ↔ ∃ t : Triple, c.index[t]? = some i
  nodup_sharing : ∀ p u, (c.walk (.sharing p) (lastOf (c.chains.get p) u)).Nodup
  mem_sharing : ∀ p u i, i ∈ c.walk (.sharing p) (lastOf (c.chains.get p) u) ↔
    ∃ t : Triple, c.index[t]? = some i ∧ t.termAt p = u
  count_eq : ∀ p (u : Term) (chain : Chain), (c.chains.get p)[u]? = some chain →
    chain.count = (c.walk (.sharing p) (some chain.last)).length

section WellFormed

variable {c : Content} {p : Position} {u : Term}

theorem hasTerm_iff {i : Nat} :
    c.hasTerm p u i = true ↔ ∃ t, c.tripleAt i = some t ∧ t.termAt p = u := by
  rw [hasTerm_eq, Option.any_eq_true]
  simp only [decide_eq_true_eq]

theorem head?_of_chainOf {is : List Nat} {chain : Chain} (h : chainOf is = some chain) :
    is.head? = some chain.last ∧ chain.count = is.length := by
  cases is with
  | nil => cases h
  | cons i is =>
    obtain rfl := Option.some.inj h
    exact ⟨rfl, rfl⟩

/-- The chain that is stored for a term. -/
theorem WellFormed.walk_chain (h : c.WellFormed) {chain : Chain}
    (hu : (c.chains.get p)[u]? = some chain) :
    c.walk (.sharing p) (some chain.last) = earlier (c.hasTerm p u) c.nodes.size ∧
      chain.count = (earlier (c.hasTerm p u) c.nodes.size).length := by
  have hlast : lastOf (c.chains.get p) u = some chain.last := by rw [lastOf, hu, Option.map_some]
  rw [h.chained] at hu
  refine ⟨?_, (head?_of_chainOf hu).2⟩
  rw [← hlast]
  exact h.walk_sharing p u

theorem WellFormed.consistent (h : c.WellFormed) : c.Consistent where
  indexed := h.indexed
  nodup_all := by
    rw [h.walk_all]
    exact nodup_earlier _ _
  mem_all i := by
    rw [h.walk_all, mem_earlier]
    constructor
    · intro ⟨hi, _⟩
      obtain ⟨t, ht⟩ := exists_tripleAt_of_lt hi
      exact ⟨t, (h.indexed t i).2 ht⟩
    · intro ⟨t, ht⟩
      exact ⟨lt_size_of_tripleAt ((h.indexed t i).1 ht), rfl⟩
  nodup_sharing p u := by
    rw [h.walk_sharing]
    exact nodup_earlier _ _
  mem_sharing p u i := by
    rw [h.walk_sharing, mem_earlier, hasTerm_iff]
    simp only [h.indexed]
    constructor
    · intro ⟨_, ht⟩
      exact ht
    · intro ⟨t, ht, hu⟩
      exact ⟨lt_size_of_tripleAt ht, t, ht, hu⟩
  count_eq p u chain hu := by
    obtain ⟨hwalk, hcount⟩ := h.walk_chain hu
    rw [hwalk, hcount]

/-! ## Counting nodes -/

theorem nodup_map_fst_toList {α β : Type} [BEq α] [LawfulBEq α] [Hashable α] (m : Std.HashMap α β) :
    (m.toList.map Prod.fst).Nodup := by
  rw [Std.HashMap.map_fst_toList_eq_keys]
  exact Std.HashMap.nodup_keys

/-- If the index leads to nodes that have their triples, then to different nodes. -/
theorem nodup_indexed_nodes (h : ∀ t i, c.index[t]? = some i → c.tripleAt i = some t) :
    (c.index.toList.map Prod.snd).Nodup := by
  refine List.Nodup.map_on ?_ (nodup_map_fst_toList c.index).of_map
  -- a node has one triple, so that different entries lead to different nodes
  intro ⟨t, i⟩ ht ⟨t', j⟩ ht' hij
  obtain rfl : i = j := hij
  rw [Std.HashMap.mem_toList_iff_getElem?_eq_some] at ht ht'
  have heq := (h t i ht).symm.trans (h t' i ht')
  rw [Option.some.inj heq]

/-- The index leads to every node once. -/
theorem WellFormed.perm_index (h : c.WellFormed) :
    (c.index.toList.map Prod.snd).Perm (List.range c.nodes.size) := by
  have hmem : ∀ {t i}, (t, i) ∈ c.index.toList ↔ c.tripleAt i = some t := by
    intro t i
    rw [Std.HashMap.mem_toList_iff_getElem?_eq_some, h.indexed]
  have hnodup := nodup_indexed_nodes fun t i => (h.indexed t i).1
  rw [List.perm_ext_iff_of_nodup hnodup List.nodup_range]
  intro i
  rw [List.mem_map, List.mem_range]
  constructor
  · intro ⟨⟨t, j⟩, ht, hij⟩
    obtain rfl : j = i := hij
    exact lt_size_of_tripleAt (hmem.1 ht)
  · intro hi
    obtain ⟨t, ht⟩ := exists_tripleAt_of_lt hi
    exact ⟨(t, i), hmem.2 ht, rfl⟩

/-- There are as many triples as nodes. -/
theorem WellFormed.size_index (h : c.WellFormed) : c.index.size = c.nodes.size := by
  rw [← Std.HashMap.length_toList, ← List.length_map Prod.snd, h.perm_index.length_eq,
    List.length_range]

/-- A version has as many triples as there are nodes that are present in it. -/
theorem WellFormed.card_view (h : c.WellFormed) (v : Nat) :
    (c.view v).card = c.nodes.countP fun n => n.range.contains v := by
  have hnodes : (List.range c.nodes.size).map (c.isVisible v) =
      c.nodes.toList.map fun n => n.range.contains v := by
    refine List.ext_getElem (by simp) fun i hi _ => ?_
    rw [List.length_map, List.length_range] at hi
    rw [List.getElem_map, List.getElem_map, List.getElem_range, Array.getElem_toList, isVisible,
      rangeOf_of_getElem? (Array.getElem?_eq_getElem hi)]
  have hperm := (h.perm_index.map (c.isVisible v)).countP_eq id
  rw [hnodes, List.countP_map, List.countP_map, List.countP_map] at hperm
  rw [Content.card_view, size_eq_countP, ← Array.countP_toList]
  exact hperm

/-- The chains of a position split the nodes among them. -/
theorem WellFormed.perm_sharing (h : c.WellFormed) (p : Position) :
    ((c.chains.get p).keys.flatMap fun u => earlier (c.hasTerm p u) c.nodes.size).Perm
      (List.range c.nodes.size) := by
  have hnodup :
      ((c.chains.get p).keys.flatMap fun u => earlier (c.hasTerm p u) c.nodes.size).Nodup := by
    rw [List.nodup_flatMap]
    refine ⟨fun u _ => nodup_earlier _ _, ?_⟩
    refine (Std.HashMap.nodup_keys (m := c.chains.get p)).imp fun {u u'} hne => ?_
    -- a node has one term at the position, hence it is in one chain
    intro i hi hi'
    obtain ⟨t, ht, rfl⟩ := hasTerm_iff.1 (mem_earlier.1 hi).2
    obtain ⟨t', ht', rfl⟩ := hasTerm_iff.1 (mem_earlier.1 hi').2
    rw [ht] at ht'
    exact hne (by rw [Option.some.inj ht'])
  rw [List.perm_ext_iff_of_nodup hnodup List.nodup_range]
  intro i
  rw [List.mem_flatMap, List.mem_range]
  constructor
  · intro ⟨u, _, hi⟩
    exact (mem_earlier.1 hi).1
  · intro hi
    obtain ⟨t, ht⟩ := exists_tripleAt_of_lt hi
    have hmem : i ∈ earlier (c.hasTerm p (t.termAt p)) c.nodes.size :=
      mem_earlier.2 ⟨hi, hasTerm_iff.2 ⟨t, ht, rfl⟩⟩
    refine ⟨t.termAt p, ?_, hmem⟩
    -- a term that some node has is the key of a chain
    rw [Std.HashMap.mem_keys, Std.HashMap.mem_iff_isSome_getElem?, h.chained]
    cases hc : earlier (c.hasTerm p (t.termAt p)) c.nodes.size with
    | nil =>
      rw [hc] at hmem
      cases hmem
    | cons j is => rfl

/-! ## The check -/

theorem WellFormed.isIndexed (h : c.WellFormed) {i : Nat} (hi : i < c.nodes.size) :
    c.isIndexed i = true := by
  have hn := Array.getElem?_eq_getElem hi
  rw [Content.isIndexed, hn]
  simpa using (h.indexed _ i).2 (tripleAt_of_getElem? hn)

theorem checkNodes_eq_ok {is : List Nat} (hterm : ∀ i ∈ is, c.hasTerm p u i = true)
    (hindexed : ∀ i ∈ is, c.isIndexed i = true) : c.checkNodes p u is = .ok () := by
  induction is with
  | nil => rfl
  | cons i is ih =>
    rw [List.forall_mem_cons] at hterm hindexed
    rw [checkNodes, hterm.1, hindexed.1, ih hterm.2 hindexed.2]
    rfl

theorem WellFormed.checkChain (h : c.WellFormed) {chain : Chain}
    (hu : (c.chains.get p)[u]? = some chain) :
    c.checkChain p u chain = .ok (earlier (c.hasTerm p u) c.nodes.size).length := by
  obtain ⟨hwalk, hcount⟩ := h.walk_chain hu
  have hnodes : c.checkNodes p u (earlier (c.hasTerm p u) c.nodes.size) = .ok () :=
    checkNodes_eq_ok (fun _ hi => (mem_earlier.1 hi).2)
      fun _ hi => h.isIndexed (mem_earlier.1 hi).1
  rw [Content.checkChain, hwalk, hnodes, hcount, decide_eq_true rfl]
  rfl

theorem checkChains_eq_ok (nodes : Term → List Nat) {chains : List (Term × Chain)}
    (h : ∀ e ∈ chains, c.checkChain p e.1 e.2 = .ok (nodes e.1).length) (found : Nat) :
    c.checkChains p chains found = .ok (found + ((chains.map Prod.fst).flatMap nodes).length) := by
  induction chains generalizing found with
  | nil => rfl
  | cons e chains ih =>
    rw [List.forall_mem_cons] at h
    have hrest := ih h.2 (found + (nodes e.1).length)
    rw [Nat.add_assoc, ← List.length_append] at hrest
    rw [checkChains, h.1]
    exact hrest

theorem WellFormed.checkPosition (h : c.WellFormed) (p : Position) :
    c.checkPosition p = .ok () := by
  have hentries : ∀ e ∈ (c.chains.get p).toList, c.checkChain p e.1 e.2 =
      .ok (earlier (c.hasTerm p e.1) c.nodes.size).length :=
    fun e he => h.checkChain (Std.HashMap.mem_toList_iff_getElem?_eq_some.1 he)
  have hchains := checkChains_eq_ok (fun u => earlier (c.hasTerm p u) c.nodes.size) hentries 0
  rw [Std.HashMap.map_fst_toList_eq_keys, (h.perm_sharing p).length_eq, List.length_range,
    Nat.zero_add] at hchains
  rw [Content.checkPosition, hchains, h.size_index]
  show require (decide (c.nodes.size = c.nodes.size)) .total = .ok ()
  rw [decide_eq_true rfl]
  rfl

theorem WellFormed.checkAll (h : c.WellFormed) : c.checkAll = .ok () := by
  have hindexed : (earlier (fun _ => true) c.nodes.size).all c.isIndexed = true := by
    rw [List.all_eq_true]
    exact fun i hi => h.isIndexed (mem_earlier.1 hi).1
  have hlength : (earlier (fun _ => true) c.nodes.size).length = c.index.size := by
    simp [earlier, h.size_index]
  rw [Content.checkAll, h.walk_all, hindexed, hlength, decide_eq_true rfl]
  rfl

/-- The check of a well-formed index succeeds. -/
theorem WellFormed.check (h : c.WellFormed) : c.check = .ok () := by
  rw [Content.check, h.checkAll, h.checkPosition, h.checkPosition, h.checkPosition]
  rfl

end WellFormed

end Content

namespace Store

/-- At every moment of every run, also between the steps of an operation, each index that was ever
built is consistent, and its check succeeds for every reader. -/
theorem check_succeeds (es : List Event) (context : Context) :
    let s := (State.initial.run es).store
    (∀ generation, (s.contentOf generation).Consistent) ∧ (∀ r : Reader, s.check r = .ok ()) ∧
      (Graph.mk context s).check = .ok () := by
  intro s
  have h : s.WellFormed := wellFormed_run es
  exact ⟨fun g => (h g).consistent, fun r => (h r.generation).check,
    (h s.snapshot.generation).check⟩

end Store
end Rdf
