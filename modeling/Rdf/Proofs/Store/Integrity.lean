import Rdf.Proofs.Results
import Rdf.Proofs.Store.Checking

/-!
# What a successful check proves

The check of an index follows links, looks up the nodes that it meets, and compares counts. It never
asks whether two chains share a node, nor whether a node is missing from its chains. Both follow by
counting: the nodes met are different, all of them are indexed, and they are as many as the index
has triples, so that none is left out. This needs no knowledge of how the index came about, only
that links lead to earlier nodes or to none. Main statements:

* `perm_of_length_eq`: as many different indexed nodes as there are triples are all nodes of the
  index, each under its own triple;
* `LinksBack.check_eq_ok_iff`: the check succeeds iff the index is `Intact`;
* `intact_of_check`: so queries of an index that was checked yield what a filter of its triples
  does.
-/

namespace Rdf
namespace Content

/-! ## Following links -/

/-- Every link leads to an earlier node, or to one that is gone. -/
def LinksBack (c : Content) : Prop :=
  ∀ i n k j, c.nodes[i]? = some n → n.link k = some j → j < i ∨ c.nodes.size ≤ j

/-- The nodes that the links of a chain lead through from a place on. A node that is gone ends the
chain. -/
inductive Visits (c : Content) (k : ChainKind) : Option Nat → List Nat → Prop
  | ended : Visits c k none []
  | gone {i : Nat} (h : c.nodes.size ≤ i) : Visits c k (some i) []
  | node {i : Nat} {n : Node} {is : List Nat} (hn : c.nodes[i]? = some n)
    (h : Visits c k (n.link k) is) : Visits c k (some i) (i :: is)

section Links

variable {c : Content} {k : ChainKind} {start : Option Nat} {is : List Nat} {i : Nat}

/-- A link to a later node would end a walk, but there is none. -/
theorem LinksBack.walk_link (h : c.LinksBack) {n : Node} (hn : c.nodes[i]? = some n) :
    c.walk k (n.link k) = c.walk k (c.previous k i) := by
  have hi := (Array.getElem?_eq_some_iff.1 hn).1
  have hprevious : c.previous k i = (n.link k).filter (· < i) := by rw [previous, hn]
  rw [hprevious]
  cases hj : n.link k with
  | none => rfl
  | some j =>
    rcases h i n k j hn hj with hlt | hgone
    · rw [Option.filter_some_pos (by simpa using hlt)]
    · have hlt : ¬ j < i := by omega
      rw [Option.filter_some_neg (by simpa using hlt)]
      exact walk_of_size_le hgone

/-- A walk visits the nodes that the links lead through. -/
theorem LinksBack.visits_walk (h : c.LinksBack) (k : ChainKind) (start : Option Nat) :
    c.Visits k start (c.walk k start) := by
  have hsome : ∀ i, c.Visits k (some i) (c.walk k (some i)) := by
    intro i
    induction i using Nat.strongRecOn with
    | ind i ih =>
      rcases Nat.lt_or_ge i c.nodes.size with hi | hi
      · have hn := Array.getElem?_eq_getElem hi
        rw [walk_some hi, ← h.walk_link hn]
        refine .node hn ?_
        cases hj : (c.nodes[i]).link k with
        | none => exact .ended
        | some j =>
          rcases h i _ k j hn hj with hlt | hgone
          · exact ih j hlt
          · rw [walk_of_size_le hgone]
            exact .gone hgone
      · rw [walk_of_size_le hi]
        exact .gone hi
  cases start with
  | none => exact .ended
  | some i => exact hsome i

/-- The links lead through no other nodes. -/
theorem LinksBack.eq_walk (h : c.LinksBack) (hv : c.Visits k start is) : is = c.walk k start := by
  induction hv with
  | ended => rfl
  | gone hi => exact (walk_of_size_le hi).symm
  | node hn _ ih => rw [walk_some (Array.getElem?_eq_some_iff.1 hn).1, ih, h.walk_link hn]

/-- The links of an index that was built by insertions lead back. -/
theorem WellFormed.linksBack (h : c.WellFormed) : c.LinksBack := by
  intro i n k j hn hj
  left
  cases k with
  | all =>
    rw [Node.link, h.linked i n hn] at hj
    exact head?_earlier_lt hj
  | sharing p =>
    rw [Node.link, h.linkedAt i n p hn] at hj
    exact head?_earlier_lt hj

/-- A walk never goes up. -/
theorem le_of_mem_walk {j : Nat} (hi : i ∈ c.walk k (some j)) : i ≤ j := by
  induction j using Nat.strongRecOn with
  | ind j ih =>
    rcases Nat.lt_or_ge j c.nodes.size with hj | hj
    · rw [walk_some hj, List.mem_cons] at hi
      rcases hi with rfl | hi
      · exact Nat.le_refl i
      · cases hp : c.previous k j with
        | none =>
          rw [hp] at hi
          cases hi
        | some m =>
          rw [hp] at hi
          exact Nat.le_trans (ih m (previous_lt hp) hi) (Nat.le_of_lt (previous_lt hp))
    · rw [walk_of_size_le hj] at hi
      cases hi

/-- So it meets no node twice. -/
theorem nodup_walk (c : Content) (k : ChainKind) (start : Option Nat) : (c.walk k start).Nodup := by
  have hsome : ∀ i, (c.walk k (some i)).Nodup := by
    intro i
    induction i using Nat.strongRecOn with
    | ind i ih =>
      rcases Nat.lt_or_ge i c.nodes.size with hi | hi
      · rw [walk_some hi, List.nodup_cons]
        cases hp : c.previous k i with
        | none => exact ⟨List.not_mem_nil, List.nodup_nil⟩
        | some j =>
          have hlt := previous_lt hp
          refine ⟨fun hmem => ?_, ih j hlt⟩
          have hle := le_of_mem_walk hmem
          omega
      · rw [walk_of_size_le hi]
        exact List.nodup_nil
  cases start with
  | none => exact List.nodup_nil
  | some i => exact hsome i

end Links

/-! ## Intact indexes -/

/-- The links from a place on lead through the nodes of the triples of the index that have a
property, and through each of them once. -/
def Gathers (c : Content) (k : ChainKind) (start : Option Nat) (q : Triple → Prop) : Prop :=
  ∃ is, c.Visits k start is ∧ is.Nodup ∧ ∀ i, i ∈ is ↔ ∃ t, c.index[t]? = some i ∧ q t

/-- The index leads from every triple to a node that has it, and every chain goes through the nodes
of the index that belong to it, through each of them once, and counts them. -/
structure Intact (c : Content) : Prop where
  indexed : ∀ t i, c.index[t]? = some i → c.tripleAt i = some t
  all : c.Gathers .all c.last fun _ => True
  sharing : ∀ p u, c.Gathers (.sharing p) (lastOf (c.chains.get p) u) fun t => t.termAt p = u
  counted : ∀ p (u : Term) chain is, (c.chains.get p)[u]? = some chain →
    c.Visits (.sharing p) (some chain.last) is → chain.count = is.length

section Counting

variable {c : Content} {k : ChainKind} {start : Option Nat} {q : Triple → Prop} {is : List Nat}
  {t : Triple} {i : Nat}

theorem LinksBack.gathers_iff (h : c.LinksBack) : c.Gathers k start q ↔
    ∀ i, i ∈ c.walk k start ↔ ∃ t, c.index[t]? = some i ∧ q t := by
  constructor
  · rintro ⟨is, hv, _, hmem⟩
    rw [h.eq_walk hv] at hmem
    exact hmem
  · intro hmem
    exact ⟨c.walk k start, h.visits_walk k start, nodup_walk c k start, hmem⟩

theorem isIndexed_iff :
    c.isIndexed i = true ↔ ∃ t, c.tripleAt i = some t ∧ c.index[t]? = some i := by
  unfold isIndexed tripleAt
  cases c.nodes[i]? <;> simp

theorem mem_indexed_nodes :
    i ∈ c.index.toList.map Prod.snd ↔ ∃ t : Triple, c.index[t]? = some i := by
  simp only [List.mem_map, Prod.exists, Std.HashMap.mem_toList_iff_getElem?_eq_some,
    exists_eq_right]

theorem length_indexed_nodes (c : Content) :
    (c.index.toList.map Prod.snd).length = c.index.size := by
  rw [List.length_map, Std.HashMap.length_toList]

/-- As many different indexed nodes as there are triples are all nodes of the index. -/
theorem perm_of_length_eq (hnodup : is.Nodup) (hindexed : ∀ i ∈ is, c.isIndexed i = true)
    (hlength : is.length = c.index.size) : is.Perm (c.index.toList.map Prod.snd) := by
  have hsubset : is ⊆ c.index.toList.map Prod.snd := by
    intro i hi
    obtain ⟨t, -, ht⟩ := isIndexed_iff.1 (hindexed i hi)
    exact mem_indexed_nodes.2 ⟨t, ht⟩
  apply (List.subperm_of_subset hnodup hsubset).perm_of_length_le
  rw [length_indexed_nodes, hlength]

/-- Each of them has the triple that leads to it. -/
theorem tripleAt_of_perm (hnodup : is.Nodup) (hindexed : ∀ i ∈ is, c.isIndexed i = true)
    (hperm : is.Perm (c.index.toList.map Prod.snd)) (ht : c.index[t]? = some i) :
    c.tripleAt i = some t := by
  have hi : i ∈ is := hperm.mem_iff.2 (mem_indexed_nodes.2 ⟨t, ht⟩)
  obtain ⟨u, hu, hui⟩ := isIndexed_iff.1 (hindexed i hi)
  -- the index leads to no node twice, so that the node's own triple is the one that led to it
  have hinj := List.inj_on_of_nodup_map (hperm.nodup_iff.1 hnodup)
    (Std.HashMap.mem_toList_iff_getElem?_eq_some.2 ht)
    (Std.HashMap.mem_toList_iff_getElem?_eq_some.2 hui) rfl
  rw [hu, (Prod.mk.inj hinj).1]

end Counting

/-! ## What the parts of the check establish -/

/-- The chain of a term passes: its nodes are indexed and have the term, and they are as many as it
counts. -/
structure Passes (c : Content) (p : Position) (u : Term) (chain : Chain) : Prop where
  hasTerm : ∀ i ∈ c.walk (.sharing p) (some chain.last), c.hasTerm p u i = true
  isIndexed : ∀ i ∈ c.walk (.sharing p) (some chain.last), c.isIndexed i = true
  count_eq : chain.count = (c.walk (.sharing p) (some chain.last)).length

/-- The nodes met in the chains of a position. -/
def met (c : Content) (p : Position) : List Nat :=
  (c.chains.get p).toList.flatMap fun e => c.walk (.sharing p) (some e.2.last)

section Parts

variable {c : Content} {p : Position} {u : Term}

theorem require_eq_ok_iff {b : Bool} {cause : Corruption} :
    require b cause = .ok () ↔ b = true := by
  cases b <;> simp [require]

theorem checkNodes_eq_ok_iff {is : List Nat} : c.checkNodes p u is = .ok () ↔
    (∀ i ∈ is, c.hasTerm p u i = true) ∧ ∀ i ∈ is, c.isIndexed i = true := by
  constructor
  · intro h
    induction is with
    | nil => exact ⟨fun i hi => absurd hi List.not_mem_nil, fun i hi => absurd hi List.not_mem_nil⟩
    | cons i is ih =>
      obtain ⟨hterm, h⟩ := check_bind_eq_ok_iff.1 h
      obtain ⟨hindexed, h⟩ := check_bind_eq_ok_iff.1 h
      obtain ⟨hterms, hall⟩ := ih h
      exact ⟨List.forall_mem_cons.2 ⟨require_eq_ok_iff.1 hterm, hterms⟩,
        List.forall_mem_cons.2 ⟨require_eq_ok_iff.1 hindexed, hall⟩⟩
  · rintro ⟨hterm, hindexed⟩
    exact checkNodes_eq_ok hterm hindexed

theorem checkChain_eq_ok_iff {chain : Chain} {n : Nat} : c.checkChain p u chain = .ok n ↔
    c.Passes p u chain ∧ n = (c.walk (.sharing p) (some chain.last)).length := by
  constructor
  · intro h
    obtain ⟨hnodes, h⟩ := check_bind_eq_ok_iff.1 h
    obtain ⟨hcount, h⟩ := check_bind_eq_ok_iff.1 h
    obtain ⟨hterm, hindexed⟩ := checkNodes_eq_ok_iff.1 hnodes
    have hcount := of_decide_eq_true (require_eq_ok_iff.1 hcount)
    exact ⟨⟨hterm, hindexed, hcount.symm⟩, (Except.ok.inj h).symm⟩
  · rintro ⟨h, hn⟩
    have hnodes := checkNodes_eq_ok h.hasTerm h.isIndexed
    rw [checkChain, hnodes, h.count_eq, hn, decide_eq_true rfl]
    rfl

theorem checkChains_eq_ok_iff {chains : List (Term × Chain)} {found n : Nat} :
    c.checkChains p chains found = .ok n ↔ (∀ e ∈ chains, c.Passes p e.1 e.2) ∧
      n = found + (chains.flatMap fun e => c.walk (.sharing p) (some e.2.last)).length := by
  induction chains generalizing found with
  | nil =>
    rw [checkChains, Except.ok.injEq, List.flatMap_nil]
    simp [eq_comm]
  | cons e chains ih =>
    rw [checkChains, bind_eq_ok_iff, List.forall_mem_cons, List.flatMap_cons, List.length_append]
    constructor
    · rintro ⟨m, hm, h⟩
      obtain ⟨hpasses, rfl⟩ := checkChain_eq_ok_iff.1 hm
      obtain ⟨hall, hn⟩ := ih.1 h
      exact ⟨⟨hpasses, hall⟩, by omega⟩
    · rintro ⟨⟨hpasses, hall⟩, hn⟩
      exact ⟨_, checkChain_eq_ok_iff.2 ⟨hpasses, rfl⟩, ih.2 ⟨hall, by omega⟩⟩

theorem checkPosition_eq_ok_iff : c.checkPosition p = .ok () ↔
    (∀ u chain, (c.chains.get p)[u]? = some chain → c.Passes p u chain) ∧
      (c.met p).length = c.index.size := by
  have hentries : (∀ e ∈ (c.chains.get p).toList, c.Passes p e.1 e.2) ↔
      ∀ (u : Term) chain, (c.chains.get p)[u]? = some chain → c.Passes p u chain := by
    simp only [Prod.forall, Std.HashMap.mem_toList_iff_getElem?_eq_some]
  rw [checkPosition, bind_eq_ok_iff]
  simp only [checkChains_eq_ok_iff, require_eq_ok_iff, decide_eq_true_eq, Nat.zero_add, hentries]
  constructor
  · rintro ⟨n, ⟨hall, hn⟩, hsize⟩
    exact ⟨hall, hn.symm.trans hsize⟩
  · rintro ⟨hall, hsize⟩
    exact ⟨c.index.size, ⟨hall, hsize.symm⟩, rfl⟩

theorem checkAll_eq_ok_iff : c.checkAll = .ok () ↔
    (∀ i ∈ c.walk .all c.last, c.isIndexed i = true) ∧
      (c.walk .all c.last).length = c.index.size := by
  rw [checkAll, check_bind_eq_ok_iff, require_eq_ok_iff, require_eq_ok_iff, List.all_eq_true,
    decide_eq_true_eq]

theorem check_eq_ok_iff_parts : c.check = .ok () ↔
    c.checkAll = .ok () ∧ ∀ p, c.checkPosition p = .ok () := by
  rw [check, check_bind_eq_ok_iff, check_bind_eq_ok_iff, check_bind_eq_ok_iff]
  constructor
  · rintro ⟨hall, hs, hp, ho⟩
    refine ⟨hall, fun p => ?_⟩
    cases p with
    | subject => exact hs
    | predicate => exact hp
    | object => exact ho
  · rintro ⟨hall, hpositions⟩
    exact ⟨hall, hpositions .subject, hpositions .predicate, hpositions .object⟩

/-- Chains whose nodes have their term share no node. -/
theorem nodup_met (h : ∀ u chain, (c.chains.get p)[u]? = some chain → c.Passes p u chain) :
    (c.met p).Nodup := by
  rw [met, List.nodup_flatMap]
  refine ⟨fun e _ => nodup_walk c _ _, ?_⟩
  have hkeys : (c.chains.get p).toList.Pairwise fun e e' => e.1 ≠ e'.1 :=
    List.pairwise_map.1 (nodup_map_fst_toList _)
  refine hkeys.imp_of_mem fun {e e'} he he' hne i hi hi' => ?_
  rw [Std.HashMap.mem_toList_iff_getElem?_eq_some] at he he'
  obtain ⟨t, ht, hterm⟩ := hasTerm_iff.1 ((h _ _ he).hasTerm i hi)
  obtain ⟨t', ht', hterm'⟩ := hasTerm_iff.1 ((h _ _ he').hasTerm i hi')
  rw [ht] at ht'
  obtain rfl := Option.some.inj ht'
  exact hne (hterm.symm.trans hterm')

end Parts

/-! ## The check decides integrity -/

section Check

variable {c : Content} {p : Position} {u : Term} {t : Triple} {i : Nat}

/-- A chain that passes is one of the index, whose nodes are those of the triples with its term. -/
theorem mem_walk_of_checked (hindexed : ∀ t i, c.index[t]? = some i → c.tripleAt i = some t)
    (hposition : c.checkPosition p = .ok ()) :
    i ∈ c.walk (.sharing p) (lastOf (c.chains.get p) u) ↔
      ∃ t : Triple, c.index[t]? = some i ∧ t.termAt p = u := by
  obtain ⟨hpasses, hlength⟩ := checkPosition_eq_ok_iff.1 hposition
  constructor
  · intro hi
    rw [lastOf] at hi
    cases hu : (c.chains.get p)[u]? with
    | none =>
      rw [hu] at hi
      cases hi
    | some chain =>
      rw [hu] at hi
      obtain ⟨t, ht, hti⟩ := isIndexed_iff.1 ((hpasses u chain hu).isIndexed i hi)
      obtain ⟨t', ht', hterm⟩ := hasTerm_iff.1 ((hpasses u chain hu).hasTerm i hi)
      rw [ht] at ht'
      obtain rfl := Option.some.inj ht'
      exact ⟨t, hti, hterm⟩
  · rintro ⟨t, ht, hterm⟩
    -- the chains together hold all nodes, and this node can only be in the chain of its term
    have hmet : ∀ j ∈ c.met p, c.isIndexed j = true := by
      intro j hj
      obtain ⟨e, he, hj⟩ := List.mem_flatMap.1 hj
      exact (hpasses _ _ (Std.HashMap.mem_toList_iff_getElem?_eq_some.1 he)).isIndexed j hj
    have hperm := perm_of_length_eq (nodup_met hpasses) hmet hlength
    obtain ⟨⟨u', chain⟩, he, hi⟩ :=
      List.mem_flatMap.1 (hperm.mem_iff.2 (mem_indexed_nodes.2 ⟨t, ht⟩))
    rw [Std.HashMap.mem_toList_iff_getElem?_eq_some] at he
    obtain ⟨t', ht', hterm'⟩ := hasTerm_iff.1 ((hpasses u' chain he).hasTerm i hi)
    rw [hindexed t i ht] at ht'
    obtain rfl := Option.some.inj ht'
    obtain rfl : u' = u := hterm'.symm.trans hterm
    rw [lastOf, he]
    exact hi

/-- If all parts of the check succeed, the index is intact. -/
theorem LinksBack.intact (h : c.LinksBack) (hall : c.checkAll = .ok ())
    (hpositions : ∀ p, c.checkPosition p = .ok ()) : c.Intact := by
  obtain ⟨hisIndexed, hlength⟩ := checkAll_eq_ok_iff.1 hall
  have hnodup := nodup_walk c .all c.last
  have hperm := perm_of_length_eq hnodup hisIndexed hlength
  have hindexed : ∀ t i, c.index[t]? = some i → c.tripleAt i = some t :=
    fun t i ht => tripleAt_of_perm hnodup hisIndexed hperm ht
  refine ⟨hindexed, ?_, fun p u => ?_, fun p u chain is hu hv => ?_⟩
  · rw [h.gathers_iff]
    intro i
    rw [hperm.mem_iff, mem_indexed_nodes]
    simp only [and_true]
  · rw [h.gathers_iff]
    exact fun i => mem_walk_of_checked hindexed (hpositions p)
  · rw [h.eq_walk hv]
    exact ((checkPosition_eq_ok_iff.1 (hpositions p)).1 u chain hu).count_eq

/-- The chains of an intact index pass. -/
theorem Intact.passes (hc : c.Intact) (h : c.LinksBack) {chain : Chain}
    (hu : (c.chains.get p)[u]? = some chain) : c.Passes p u chain := by
  have hlast : lastOf (c.chains.get p) u = some chain.last := by rw [lastOf, hu, Option.map_some]
  have hmem := h.gathers_iff.1 (hc.sharing p u)
  rw [hlast] at hmem
  refine ⟨fun i hi => ?_, fun i hi => ?_, hc.counted p u chain _ hu (h.visits_walk _ _)⟩
  · obtain ⟨t, ht, hterm⟩ := (hmem i).1 hi
    exact hasTerm_iff.2 ⟨t, hc.indexed t i ht, hterm⟩
  · obtain ⟨t, ht, -⟩ := (hmem i).1 hi
    exact isIndexed_iff.2 ⟨t, hc.indexed t i ht, ht⟩

/-- The nodes met in the chains of a position of an intact index are all of its nodes. -/
theorem Intact.mem_met (hc : c.Intact) (h : c.LinksBack) :
    i ∈ c.met p ↔ ∃ t : Triple, c.index[t]? = some i := by
  rw [met, List.mem_flatMap]
  constructor
  · rintro ⟨e, he, hi⟩
    rw [Std.HashMap.mem_toList_iff_getElem?_eq_some] at he
    obtain ⟨t, -, ht⟩ := isIndexed_iff.1 ((hc.passes h he).isIndexed i hi)
    exact ⟨t, ht⟩
  · rintro ⟨t, ht⟩
    have hi := (h.gathers_iff.1 (hc.sharing p (t.termAt p)) i).2 ⟨t, ht, rfl⟩
    -- a chain with a node has a head
    rw [lastOf] at hi
    cases hu : (c.chains.get p)[t.termAt p]? with
    | none =>
      rw [hu] at hi
      cases hi
    | some chain =>
      rw [hu] at hi
      exact ⟨(t.termAt p, chain), Std.HashMap.mem_toList_iff_getElem?_eq_some.2 hu, hi⟩

/-- The check of an intact index finds nothing. -/
theorem Intact.check (hc : c.Intact) (h : c.LinksBack) : c.check = .ok () := by
  have hnodes := nodup_indexed_nodes hc.indexed
  have hlength : ∀ is : List Nat, is.Nodup → (∀ i, i ∈ is ↔ ∃ t : Triple, c.index[t]? = some i) →
      is.length = c.index.size := by
    intro is hnodup hmem
    have hperm := (List.perm_ext_iff_of_nodup hnodup hnodes).2 fun i =>
      (hmem i).trans mem_indexed_nodes.symm
    rw [hperm.length_eq, length_indexed_nodes]
  have hall := h.gathers_iff.1 hc.all
  simp only [and_true] at hall
  rw [check_eq_ok_iff_parts, checkAll_eq_ok_iff]
  refine ⟨⟨fun i hi => ?_, hlength _ (nodup_walk c _ _) hall⟩, fun p => ?_⟩
  · obtain ⟨t, ht⟩ := (hall i).1 hi
    exact isIndexed_iff.2 ⟨t, hc.indexed t i ht, ht⟩
  · rw [checkPosition_eq_ok_iff]
    have hpasses : ∀ u chain, (c.chains.get p)[u]? = some chain → c.Passes p u chain :=
      fun u chain hu => hc.passes h hu
    exact ⟨hpasses, hlength _ (nodup_met hpasses) fun i => hc.mem_met h⟩

/-- The check of an index with well-founded links succeeds iff the index is intact. -/
theorem LinksBack.check_eq_ok_iff (h : c.LinksBack) : c.check = .ok () ↔ c.Intact := by
  constructor
  · intro hcheck
    obtain ⟨hall, hpositions⟩ := check_eq_ok_iff_parts.1 hcheck
    exact h.intact hall hpositions
  · intro hc
    exact hc.check h

end Check

/-! ## Queries of an intact index -/

section Queries

variable {c : Content}

/-- The triples of the index that a version has and that match a pattern, in no particular order. -/
def filtered (c : Content) (version : Nat) (p : Pattern) : List Triple :=
  (c.index.toList.filter fun e => c.isVisible version e.2 && p.isMatch e.1).map Prod.fst

theorem nodup_filtered (c : Content) (v : Nat) (p : Pattern) : (c.filtered v p).Nodup := by
  exact (nodup_map_fst_toList c.index).sublist (List.filter_sublist.map Prod.fst)

theorem mem_filtered {v : Nat} {p : Pattern} {t : Triple} : t ∈ c.filtered v p ↔
    ∃ i, c.index[t]? = some i ∧ c.isVisible v i = true ∧ p.isMatch t = true := by
  simp only [filtered, List.mem_map, List.mem_filter, Prod.exists, exists_and_right,
    exists_eq_right, Std.HashMap.mem_toList_iff_getElem?_eq_some, Bool.and_eq_true]

/-- A walk that visits the nodes of the triples with a property, once each, and yields those that
match what is left of a pattern, is a filter by the whole pattern. -/
theorem Intact.perm_filterMap (hc : c.Intact) {cursor : Cursor} {is : List Nat} {p : Pattern}
    {q : Triple → Prop} (hnodup : is.Nodup) (hmem : ∀ i, i ∈ is ↔ ∃ t, c.index[t]? = some i ∧ q t)
    (hfilter : ∀ t, p.isMatch t = true ↔ cursor.filter.isMatch t = true ∧ q t) :
    (is.filterMap (c.yielded cursor)).Perm (c.filtered cursor.reader.version p) := by
  -- only nodes of the index are visited, and each has the triple that leads to it
  have hindex : ∀ i ∈ is, ∀ t, c.yielded cursor i = some t → c.index[t]? = some i ∧ q t := by
    intro i hi t hyields
    obtain ⟨u, hu, hq⟩ := (hmem i).1 hi
    have htriple := (yielded_eq_some.1 hyields).1
    rw [hc.indexed u i hu] at htriple
    obtain rfl := Option.some.inj htriple
    exact ⟨hu, hq⟩
  refine (List.perm_ext_iff_of_nodup ?_ (c.nodup_filtered _ p)).2 fun t => ?_
  · rw [List.Nodup, List.pairwise_filterMap]
    refine hnodup.imp_of_mem fun {i j} hi hj hne t ht t' ht' heq => ?_
    subst heq
    have hsame := (hindex i hi t ht).1.symm.trans (hindex j hj t ht').1
    exact hne (Option.some.inj hsame)
  · rw [List.mem_filterMap, mem_filtered]
    constructor
    · rintro ⟨i, hi, hyields⟩
      obtain ⟨ht, hq⟩ := hindex i hi t hyields
      obtain ⟨-, hvisible, hmatch⟩ := yielded_eq_some.1 hyields
      exact ⟨i, ht, hvisible, (hfilter t).2 ⟨hmatch, hq⟩⟩
    · rintro ⟨i, ht, hvisible, hmatch⟩
      obtain ⟨hmatch, hq⟩ := (hfilter t).1 hmatch
      exact ⟨i, (hmem i).2 ⟨t, ht, hq⟩,
        yielded_eq_some.2 ⟨hc.indexed t i ht, hvisible, hmatch⟩⟩

/-- A query of an intact index, on whichever chain, is a filter of the triples of the index. -/
theorem Intact.perm_matching (hc : c.Intact) (h : c.LinksBack) (r : Reader) (p : Pattern) :
    (c.matching r p).Perm (c.filtered r.version p) := by
  rw [matching]
  rcases c.query_eq r p with ⟨q, u, hu, hquery⟩ | hquery
  · rw [hquery]
    apply hc.perm_filterMap (nodup_walk c _ _) (h.gathers_iff.1 (hc.sharing q u))
    intro t
    rw [p.isMatch_free hu, Bool.and_eq_true, decide_eq_true_eq]
  · rw [hquery]
    apply hc.perm_filterMap (nodup_walk c _ _) (h.gathers_iff.1 hc.all)
    intro t
    rw [and_true]

/-- Whatever an index went through, and also if it came about in another way: if its links lead to
earlier nodes or to none and its check succeeds, then it is intact, and every query in every version
yields, step by step, the triples of the index that the version has and that match. -/
theorem intact_of_check (c : Content) (hlinks : c.LinksBack) (hcheck : c.check = .ok ()) :
    c.Intact ∧ ∀ r p, (c.matching r p).Perm (c.filtered r.version p) ∧
      ∀ n, (c.take n (c.query r p)).1 = (c.matching r p).take n := by
  have hc := hlinks.check_eq_ok_iff.1 hcheck
  exact ⟨hc, fun r p => ⟨hc.perm_matching hlinks r p, fun n => c.take_eq n _⟩⟩

/-- Four triples that share terms, three of them in one chain. One of the three was removed. -/
theorem intact_of_check_of_removed :
    let a : Iri := ⟨"a"⟩
    let t : Triple := ⟨.iri a, ⟨"p"⟩, .iri a⟩
    let u : Triple := ⟨.iri a, ⟨"p"⟩, .iri ⟨"b"⟩⟩
    let v : Triple := ⟨.iri ⟨"b"⟩, ⟨"p"⟩, .iri a⟩
    let w : Triple := ⟨.iri a, ⟨"q"⟩, .iri a⟩
    let c := (((empty.append t (.since 1)).append u (.between 1 2)).append v (.since 2)).append w
      (.since 2)
    c.LinksBack ∧ c.check = .ok () ∧
      c.walk (.sharing .subject) (lastOf (c.chains.get .subject) (.iri a)) = [3, 1, 0] ∧
      (c.matching ⟨0, 2⟩ ⟨some (.iri a), none, none⟩).Perm [t, w] := by
  intro a t u v w c
  have hc : c.WellFormed := by
    have hempty : ∀ t : Triple, empty.index[t]? = none := fun t => Std.HashMap.getElem?_empty
    refine (((wellFormed_empty.append (hempty t)).append ?_).append ?_).append ?_ <;>
      simp [index_append, Std.HashMap.getElem?_insert, hempty, t, u, v, w, a]
  obtain ⟨hintact, hqueries⟩ := intact_of_check c hc.linksBack hc.check
  refine ⟨hc.linksBack, hc.check, ?_, (hqueries _ _).1.trans ?_⟩
  · rw [hc.walk_sharing]
    rfl
  · refine (List.perm_ext_iff_of_nodup (c.nodup_filtered _ _) (by decide)).2 fun x => ?_
    rw [mem_filtered]
    constructor
    · rintro ⟨i, hi, hvisible, hmatch⟩
      have hx := hintact.indexed x i hi
      -- one node is not visible any more, and one does not match
      obtain rfl | rfl | rfl | rfl : i = 0 ∨ i = 1 ∨ i = 2 ∨ i = 3 := by
        have hlt : i < 4 := lt_size_of_tripleAt hx
        omega
      all_goals obtain rfl := Option.some.inj hx
      all_goals revert hvisible hmatch
      all_goals decide
    · intro hx
      rcases List.mem_cons.1 hx with rfl | hx
      · exact ⟨0, (hc.indexed _ _).2 rfl, rfl, rfl⟩
      · obtain rfl := List.mem_singleton.1 hx
        exact ⟨3, (hc.indexed _ _).2 rfl, rfl, rfl⟩

end Queries

end Content
end Rdf
