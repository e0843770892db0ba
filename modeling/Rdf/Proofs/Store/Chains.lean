import Rdf.Store.Checking
import Mathlib.Data.List.Nodup

/-!
# Chains of an index

`WellFormed` says what every index looks like that was built by insertions: the index leads from
each triple to its one node, every link leads to the latest earlier node of its chain, and the
heads of the chains are the latest nodes of all with the right counts. Main statements:

* `walk_all`, `walk_sharing`: walking a chain from its head visits exactly the nodes that belong to
  it, the latest first;
* `WellFormed.append`, `WellFormed.withRanges`: a new node and a change of versions, which are all
  that ever happens to an index, keep it well-formed.
-/

namespace Rdf

@[simp] theorem ByPosition.get_map {α β : Type} (f : Position → α → β) (v : ByPosition α)
    (p : Position) : (v.map f).get p = f p (v.get p) := by
  cases p <;> rfl

namespace Content

/-! ## Earlier nodes -/

/-- The nodes before `n` with a property, the latest first. -/
def earlier (q : Nat → Bool) (n : Nat) : List Nat := (List.range n).reverse.filter q

theorem earlier_succ (q : Nat → Bool) (n : Nat) :
    earlier q (n + 1) = if q n then n :: earlier q n else earlier q n := by
  rw [earlier, List.range_succ, List.reverse_append, List.reverse_singleton, List.singleton_append,
    List.filter_cons]
  rfl

@[simp] theorem mem_earlier {q : Nat → Bool} {n i : Nat} :
    i ∈ earlier q n ↔ i < n ∧ q i = true := by
  simp [earlier]

theorem head?_earlier_lt {q : Nat → Bool} {n i : Nat} (h : (earlier q n).head? = some i) : i < n :=
  (mem_earlier.1 (List.mem_of_head? h)).1

theorem nodup_earlier (q : Nat → Bool) (n : Nat) : (earlier q n).Nodup :=
  (List.nodup_reverse.2 List.nodup_range).filter q

theorem earlier_congr {q q' : Nat → Bool} {n : Nat} (h : ∀ i < n, q i = q' i) :
    earlier q n = earlier q' n := by
  apply List.filter_congr
  intro i hi
  rw [List.mem_reverse, List.mem_range] at hi
  exact h i hi

/-! ## Nodes and their triples -/

/-- The triple of a node. -/
def tripleAt (c : Content) (node : Nat) : Option Triple := (c.nodes[node]?).map Node.triple

theorem tripleAt_of_getElem? {c : Content} {i : Nat} {n : Node} (h : c.nodes[i]? = some n) :
    c.tripleAt i = some n.triple := by
  rw [tripleAt, h, Option.map_some]

theorem lt_size_of_tripleAt {c : Content} {i : Nat} {t : Triple} (h : c.tripleAt i = some t) :
    i < c.nodes.size := by
  by_contra hi
  rw [tripleAt, Array.getElem?_eq_none (by omega)] at h
  cases h

theorem exists_tripleAt_of_lt {c : Content} {i : Nat} (hi : i < c.nodes.size) :
    ∃ t, c.tripleAt i = some t := by
  rw [tripleAt, Array.getElem?_eq_getElem hi]
  exact ⟨_, rfl⟩

theorem rangeOf_of_getElem? {c : Content} {i : Nat} {n : Node} (h : c.nodes[i]? = some n) :
    c.rangeOf i = n.range := by
  rw [rangeOf, h]

theorem rangeOf_of_size_le {c : Content} {i : Nat} (h : c.nodes.size ≤ i) :
    c.rangeOf i = .absent := by
  rw [rangeOf, Array.getElem?_eq_none h]

theorem hasTerm_eq (c : Content) (p : Position) (u : Term) (i : Nat) :
    c.hasTerm p u i = (c.tripleAt i).any fun t => t.termAt p = u := by
  unfold hasTerm tripleAt
  cases c.nodes[i]? <;> rfl

theorem hasTerm_congr {c c' : Content} {i : Nat} (h : c'.tripleAt i = c.tripleAt i) (p : Position)
    (u : Term) : c'.hasTerm p u i = c.hasTerm p u i := by
  rw [hasTerm_eq, hasTerm_eq, h]

/-! ## Well-formed indexes -/

/-- The head of a chain that consists of these nodes, the latest first. -/
def chainOf : List Nat → Option Chain
  | [] => none
  | i :: is => some ⟨i, is.length + 1⟩

theorem map_last_chainOf (is : List Nat) : (chainOf is).map Chain.last = is.head? := by
  cases is <;> rfl

theorem extended_chainOf (i : Nat) (is : List Nat) :
    Chain.extended i (chainOf is) = chainOf (i :: is) := by
  cases is <;> rfl

/-- The index leads from every triple to its node, the links of a node to the latest earlier nodes
of its chains, and the heads of the chains to the latest nodes of all. -/
structure WellFormed (c : Content) : Prop where
  indexed : ∀ t i, c.index[t]? = some i ↔ c.tripleAt i = some t
  linked : ∀ i n, c.nodes[i]? = some n → n.previous = (earlier (fun _ => true) i).head?
  linkedAt : ∀ i n p, c.nodes[i]? = some n →
    n.previousAt.get p = (earlier (c.hasTerm p (n.triple.termAt p)) i).head?
  last : c.last = (earlier (fun _ => true) c.nodes.size).head?
  chained : ∀ p u, (c.chains.get p)[u]? = chainOf (earlier (c.hasTerm p u) c.nodes.size)

namespace WellFormed

variable {c : Content}

/-- Different nodes have different triples. -/
theorem tripleAt_inj (h : c.WellFormed) {i j : Nat} {t : Triple} (hi : c.tripleAt i = some t)
    (hj : c.tripleAt j = some t) : i = j := by
  rw [← h.indexed] at hi hj
  rw [hi] at hj
  exact Option.some.inj hj

theorem lastOf_eq (h : c.WellFormed) (p : Position) (u : Term) :
    lastOf (c.chains.get p) u = (earlier (c.hasTerm p u) c.nodes.size).head? := by
  rw [lastOf, h.chained p u, map_last_chainOf]

end WellFormed

theorem wellFormed_empty : empty.WellFormed where
  indexed t i := by simp [empty, tripleAt]
  linked i n h := by simp [empty] at h
  linkedAt i n p h := by simp [empty] at h
  last := rfl
  chained p u := by cases p <;> simp [empty, ByPosition.get, chainOf, earlier]

/-! ## Walks -/

section Walk

variable {c : Content} {k : ChainKind}

theorem walkFrom_eq (c : Content) (k : ChainKind) (i : Nat) (before : Array Nat) :
    c.walkFrom k i before = match c.previous k i with
      | some j => c.walkFrom k j (before.push i)
      | none => before.push i := by
  rw [walkFrom]
  split <;> rename_i h <;> rw [h]

theorem toList_walkFrom (c : Content) (k : ChainKind) (i : Nat) (before : Array Nat) :
    (c.walkFrom k i before).toList = before.toList ++ (c.walkFrom k i #[]).toList := by
  -- links lead to earlier nodes, so that the induction is on the number of the node
  induction i using Nat.strongRecOn generalizing before with
  | ind i ih =>
    rw [walkFrom_eq c k i before, walkFrom_eq c k i #[]]
    cases hp : c.previous k i with
    | none => simp
    | some j =>
      have hj := previous_lt hp
      simp only
      rw [ih j hj (before.push i), ih j hj (#[].push i)]
      simp

theorem lt_size_of_previous {i j : Nat} (h : c.previous k i = some j) : j < c.nodes.size := by
  have hj := previous_lt h
  by_contra hsize
  rw [previous, Array.getElem?_eq_none (by omega)] at h
  cases h

theorem walk_of_size_le {i : Nat} (h : c.nodes.size ≤ i) : c.walk k (some i) = [] :=
  if_neg (by omega)

/-- A walk visits a node of the index and goes on with the node before it in the chain. -/
theorem walk_some {i : Nat} (h : i < c.nodes.size) :
    c.walk k (some i) = i :: c.walk k (c.previous k i) := by
  have hwalk : c.walk k (some i) = (c.walkFrom k i #[]).toList := if_pos h
  rw [hwalk, walkFrom_eq]
  cases hp : c.previous k i with
  | none => rfl
  | some j =>
    simp only
    rw [toList_walkFrom, walk, if_pos (lt_size_of_previous hp)]
    rfl

/-- A walk from the latest node of a chain visits the nodes of the chain, if every one of them is
linked to the one before. -/
theorem walk_head? {q : Nat → Bool} {n : Nat} (hn : n ≤ c.nodes.size)
    (hq : ∀ i < n, q i = true → c.previous k i = (earlier q i).head?) :
    c.walk k (earlier q n).head? = earlier q n := by
  induction n with
  | zero => rfl
  | succ n ih =>
    have hwalk := ih (by omega) fun i hi => hq i (by omega)
    rw [earlier_succ]
    -- either node `n` is the head, or the head lies below it
    by_cases hqn : q n = true
    · rw [if_pos hqn, List.head?_cons, walk_some (by omega), hq n (by omega) hqn, hwalk]
    · rw [if_neg hqn]
      exact hwalk

end Walk

namespace WellFormed

variable {c : Content}

theorem previous_all (h : c.WellFormed) {i : Nat} (hi : i < c.nodes.size) :
    c.previous .all i = (earlier (fun _ => true) i).head? := by
  have hn := Array.getElem?_eq_getElem hi
  rw [previous, hn]
  show (c.nodes[i].previous).filter (· < i) = _
  rw [h.linked i _ hn]
  cases hh : (earlier (fun _ => true) i).head? with
  | none => rfl
  | some j => simp [head?_earlier_lt hh]

theorem previous_sharing (h : c.WellFormed) {p : Position} {u : Term} {i : Nat}
    (hi : c.hasTerm p u i = true) :
    c.previous (.sharing p) i = (earlier (c.hasTerm p u) i).head? := by
  obtain ⟨n, hn, rfl⟩ : ∃ n, c.nodes[i]? = some n ∧ n.triple.termAt p = u := by
    unfold hasTerm at hi
    split at hi
    · next n hn => exact ⟨n, hn, by simpa using hi⟩
    · cases hi
  rw [previous, hn]
  show (n.previousAt.get p).filter (· < i) = _
  rw [h.linkedAt i n p hn]
  cases hh : (earlier (c.hasTerm p (n.triple.termAt p)) i).head? with
  | none => rfl
  | some j => simp [head?_earlier_lt hh]

/-- The chain of all nodes. -/
theorem walk_all (h : c.WellFormed) :
    c.walk .all c.last = earlier (fun _ => true) c.nodes.size := by
  rw [h.last]
  exact walk_head? (Nat.le_refl _) fun i hi _ => h.previous_all hi

/-- The chain of a term at a position. -/
theorem walk_sharing (h : c.WellFormed) (p : Position) (u : Term) :
    c.walk (.sharing p) (lastOf (c.chains.get p) u) = earlier (c.hasTerm p u) c.nodes.size := by
  rw [h.lastOf_eq]
  exact walk_head? (Nat.le_refl _) fun i _ hi => h.previous_sharing hi

end WellFormed

/-! ## A new node -/

section Append

variable {c : Content} {t : Triple} {r : VersionRange}

@[simp] theorem size_nodes_append (c : Content) (t : Triple) (r : VersionRange) :
    (c.append t r).nodes.size = c.nodes.size + 1 := Array.size_push _

theorem index_append (c : Content) (t : Triple) (r : VersionRange) :
    (c.append t r).index = c.index.insert t c.nodes.size := rfl

theorem getElem?_append_of_lt {i : Nat} (hi : i < c.nodes.size) :
    (c.append t r).nodes[i]? = c.nodes[i]? := by
  have hnodes : (c.append t r).nodes =
    c.nodes.push ⟨t, r, c.last, c.chains.map fun p m => lastOf m (t.termAt p)⟩ := rfl
  rw [hnodes, Array.getElem?_push, if_neg (by omega)]

theorem getElem?_append_size (c : Content) (t : Triple) (r : VersionRange) :
    (c.append t r).nodes[c.nodes.size]? =
      some ⟨t, r, c.last, c.chains.map fun p m => lastOf m (t.termAt p)⟩ :=
  Array.getElem?_push_size

theorem tripleAt_append_of_lt {i : Nat} (hi : i < c.nodes.size) :
    (c.append t r).tripleAt i = c.tripleAt i := by
  rw [tripleAt, getElem?_append_of_lt hi, tripleAt]

theorem tripleAt_append_size (c : Content) (t : Triple) (r : VersionRange) :
    (c.append t r).tripleAt c.nodes.size = some t :=
  tripleAt_of_getElem? (getElem?_append_size c t r)

theorem rangeOf_append (c : Content) (t : Triple) (r : VersionRange) (i : Nat) :
    (c.append t r).rangeOf i = if i = c.nodes.size then r else c.rangeOf i := by
  rcases Nat.lt_trichotomy i c.nodes.size with hi | rfl | hi
  · rw [if_neg (by omega), rangeOf, getElem?_append_of_lt hi, rangeOf]
  · rw [if_pos rfl, rangeOf_of_getElem? (getElem?_append_size c t r)]
  · have hsize : (c.append t r).nodes.size ≤ i := by
      rw [size_nodes_append]
      exact hi
    rw [if_neg (by omega), rangeOf_of_size_le hsize, rangeOf_of_size_le (by omega)]

theorem earlier_hasTerm_append {n : Nat} (hn : n ≤ c.nodes.size) (p : Position) (u : Term) :
    earlier ((c.append t r).hasTerm p u) n = earlier (c.hasTerm p u) n :=
  earlier_congr fun _ hi => hasTerm_congr (tripleAt_append_of_lt (by omega)) p u

theorem earlier_hasTerm_append_succ (p : Position) (u : Term) :
    earlier ((c.append t r).hasTerm p u) (c.nodes.size + 1) =
      if t.termAt p = u then c.nodes.size :: earlier (c.hasTerm p u) c.nodes.size
      else earlier (c.hasTerm p u) c.nodes.size := by
  rw [earlier_succ, earlier_hasTerm_append (Nat.le_refl _), hasTerm_eq, tripleAt_append_size]
  simp

/-- A triple without a node gets one at the end of its chains. -/
theorem WellFormed.append (h : c.WellFormed) (ht : c.index[t]? = none) :
    (c.append t r).WellFormed where
  indexed t' i := by
    rw [index_append, Std.HashMap.getElem?_insert]
    -- an old node, the new node, or no node at all
    rcases Nat.lt_trichotomy i c.nodes.size with hi | rfl | hi
    · rw [tripleAt_append_of_lt hi, ← h.indexed]
      by_cases heq : t = t'
      · subst heq
        rw [ht]
        simp
        omega
      · simp [heq]
    · rw [tripleAt_append_size]
      by_cases heq : t = t'
      · simp [heq]
      · -- the old index holds no node of this number
        have hold : c.index[t']? ≠ some c.nodes.size := by
          intro hs
          have := lt_size_of_tripleAt ((h.indexed _ _).1 hs)
          omega
        simp [heq, hold]
    · have hnone : (c.append t r).tripleAt i = none := by
        rw [tripleAt, Array.getElem?_eq_none (by rw [size_nodes_append]; omega), Option.map_none]
      have hold : c.index[t']? ≠ some i := by
        intro hs
        have := lt_size_of_tripleAt ((h.indexed _ _).1 hs)
        omega
      rw [hnone]
      by_cases heq : t = t'
      · simp [heq]
        omega
      · simp [heq, hold]
  linked i n hn := by
    have hi : i < c.nodes.size + 1 := by
      rw [← size_nodes_append c t r]
      exact (Array.getElem?_eq_some_iff.1 hn).1
    rcases Nat.lt_succ_iff_lt_or_eq.1 hi with hi | rfl
    · rw [getElem?_append_of_lt hi] at hn
      exact h.linked i n hn
    · rw [getElem?_append_size] at hn
      obtain rfl := Option.some.inj hn
      exact h.last
  linkedAt i n p hn := by
    have hi : i < c.nodes.size + 1 := by
      rw [← size_nodes_append c t r]
      exact (Array.getElem?_eq_some_iff.1 hn).1
    rw [earlier_hasTerm_append (by omega)]
    rcases Nat.lt_succ_iff_lt_or_eq.1 hi with hi | rfl
    · rw [getElem?_append_of_lt hi] at hn
      exact h.linkedAt i n p hn
    · rw [getElem?_append_size] at hn
      obtain rfl := Option.some.inj hn
      rw [ByPosition.get_map]
      exact h.lastOf_eq p (t.termAt p)
  last := by
    rw [size_nodes_append, earlier_succ]
    rfl
  chained p u := by
    have hchains : (c.append t r).chains =
      c.chains.map fun p m => m.alter (t.termAt p) (Chain.extended c.nodes.size) := rfl
    rw [hchains, ByPosition.get_map, Std.HashMap.getElem?_alter, size_nodes_append,
      earlier_hasTerm_append_succ, h.chained p (t.termAt p), extended_chainOf, h.chained p u]
    by_cases hu : t.termAt p = u
    · subst hu
      simp
    · simp [hu]

end Append

/-! ## Changed versions -/

/-- The index with the versions of every node changed. -/
def withRanges (c : Content) (g : Nat → VersionRange → VersionRange) : Content :=
  { c with nodes := c.nodes.mapIdx fun i n => { n with range := g i n.range } }

section WithRanges

variable {c : Content} {g : Nat → VersionRange → VersionRange}

@[simp] theorem size_nodes_withRanges (c : Content) (g : Nat → VersionRange → VersionRange) :
    (c.withRanges g).nodes.size = c.nodes.size := Array.size_mapIdx

theorem getElem?_withRanges (c : Content) (g : Nat → VersionRange → VersionRange) (i : Nat) :
    (c.withRanges g).nodes[i]? = (c.nodes[i]?).map fun n => { n with range := g i n.range } :=
  Array.getElem?_mapIdx

@[simp] theorem tripleAt_withRanges (c : Content) (g : Nat → VersionRange → VersionRange)
    (i : Nat) : (c.withRanges g).tripleAt i = c.tripleAt i := by
  rw [tripleAt, getElem?_withRanges, Option.map_map]
  rfl

theorem rangeOf_withRanges {i : Nat} (hi : i < c.nodes.size) :
    (c.withRanges g).rangeOf i = g i (c.rangeOf i) := by
  rw [rangeOf, getElem?_withRanges, rangeOf, Array.getElem?_eq_getElem hi, Option.map_some]

@[simp] theorem hasTerm_withRanges (c : Content) (g : Nat → VersionRange → VersionRange)
    (p : Position) (u : Term) : (c.withRanges g).hasTerm p u = c.hasTerm p u :=
  funext fun i => hasTerm_congr (tripleAt_withRanges c g i) p u

/-- Only what becomes of the actual versions counts. -/
theorem withRanges_congr {g' : Nat → VersionRange → VersionRange}
    (h : ∀ i < c.nodes.size, g i (c.rangeOf i) = g' i (c.rangeOf i)) :
    c.withRanges g = c.withRanges g' := by
  have hnodes : (c.withRanges g).nodes = (c.withRanges g').nodes := by
    apply Array.ext_getElem?
    intro i
    rw [getElem?_withRanges, getElem?_withRanges]
    cases hn : c.nodes[i]? with
    | none => rfl
    | some n =>
      have hi := h i (Array.getElem?_eq_some_iff.1 hn).1
      rw [rangeOf_of_getElem? hn] at hi
      rw [Option.map_some, Option.map_some, hi]
  exact congrArg (Content.mk · c.index c.last c.chains) hnodes

theorem withRanges_withRanges (c : Content) (g g' : Nat → VersionRange → VersionRange) :
    (c.withRanges g).withRanges g' = c.withRanges fun i r => g' i (g i r) := by
  simp [withRanges, Function.comp_def]

theorem withRanges_id (c : Content) : (c.withRanges fun _ r => r) = c := by
  have hnodes : (c.withRanges fun _ r => r).nodes = c.nodes := by
    apply Array.ext_getElem?
    intro i
    rw [getElem?_withRanges]
    exact Option.map_id'
  exact congrArg (Content.mk · c.index c.last c.chains) hnodes

theorem modifyRange_eq (c : Content) (node : Nat) (f : VersionRange → VersionRange) :
    c.modifyRange node f = c.withRanges fun i r => if i = node then f r else r := by
  have hnodes : (c.modifyRange node f).nodes =
      (c.withRanges fun i r => if i = node then f r else r).nodes := by
    apply Array.ext_getElem?
    intro i
    have hmodify : (c.modifyRange node f).nodes =
      c.nodes.modify node fun n => { n with range := f n.range } := rfl
    rw [getElem?_withRanges, hmodify, Array.getElem?_modify]
    by_cases hi : node = i
    · rw [if_pos hi]
      simp [hi]
    · rw [if_neg hi]
      simp [Ne.symm hi]
  exact congrArg (Content.mk · c.index c.last c.chains) hnodes

theorem WellFormed.withRanges (h : c.WellFormed) : (c.withRanges g).WellFormed where
  indexed t i := by rw [tripleAt_withRanges]; exact h.indexed t i
  linked i n hn := by
    rw [getElem?_withRanges, Option.map_eq_some_iff] at hn
    obtain ⟨m, hm, rfl⟩ := hn
    exact h.linked i m hm
  linkedAt i n p hn := by
    rw [getElem?_withRanges, Option.map_eq_some_iff] at hn
    obtain ⟨m, hm, rfl⟩ := hn
    rw [hasTerm_withRanges]
    exact h.linkedAt i m p hm
  last := by rw [size_nodes_withRanges]; exact h.last
  chained p u := by
    rw [size_nodes_withRanges, hasTerm_withRanges]
    exact h.chained p u

theorem WellFormed.modifyRange (h : c.WellFormed) (node : Nat) (f : VersionRange → VersionRange) :
    (c.modifyRange node f).WellFormed := by
  rw [modifyRange_eq]
  exact h.withRanges

end WithRanges

end Content
end Rdf
