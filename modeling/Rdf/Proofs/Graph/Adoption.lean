import Rdf.Proofs.Graph.Merging
import Rdf.Proofs.Term.Minting

/-!
# Adopted blank nodes never alias

A merge may bring together blank nodes of many scopes. Those of the graph's own scope stay, so they
are traced back to the labels that they were minted for; the others are traced back to themselves.
The origins are then all different, and so are the blank nodes in the graph. Main statements:

* `Origin.Traced.eq_of_adoptedBy_eq`: adoption keeps blank nodes apart whose origins are traced;
* `card_toFinset_map_adoptedBy`: so no two triples of a list become one;
* `minted_nodes_never_alias`: what is minted for different requests differs, also in texts that do
  not show the scope, and a merge into an empty graph adds every triple of its list.
-/

namespace Rdf

/-! ## Origins of blank nodes -/

namespace Origin

/-- What a scope traces a blank node back to: its own ones to a label, the others to themselves. -/
inductive Traced (s : Scope) : BlankNode → Origin → Prop
  | own (text : String) : Traced s (.labeled s text) (.label text)
  | foreign (b : BlankNode) (h : b.scope ≠ s) : Traced s b (.foreign b)

variable {s : Scope} {a b : BlankNode} {r r' : Origin} {inputs : Set (List UInt8)}

theorem Traced.isNew (h : Traced s b r) : r.IsNew s := by
  cases h with
  | own text => trivial
  | foreign b h => exact h

theorem Traced.adoptedBy_eq (h : Traced s b r) : b.adoptedBy s = r.node s := by
  cases h with
  | own text => exact BlankNode.adoptedBy_of_scope_eq rfl
  | foreign b h => rfl

theorem Traced.unique (ha : Traced s a r) (hb : Traced s b r) : a = b := by
  cases ha <;> cases hb <;> rfl

/-- Adoption keeps blank nodes apart, if no two of the hashed inputs collide. -/
theorem Traced.eq_of_adoptedBy_eq (hinputs : Set.InjOn Uuid.ofHashed inputs)
    (ha : Traced s a r) (hb : Traced s b r') (hr : r.input s ∈ inputs) (hr' : r'.input s ∈ inputs)
    (h : a.adoptedBy s = b.adoptedBy s) : a = b := by
  rw [ha.adoptedBy_eq, hb.adoptedBy_eq, node_eq_iff hinputs ha.isNew hb.isNew hr hr'] at h
  obtain ⟨-, rfl⟩ := h
  exact ha.unique hb

/-- A context mints `b` for an origin from one of the inputs. -/
structure Minted (inputs : Set (List UInt8)) (s : Scope) (r : Origin) (b : BlankNode) : Prop where
  isNew : r.IsNew s
  hashed : r.input s ∈ inputs
  answer : ∃ c : Context, c.scope = some s ∧ r.mint c = .ok b

theorem Minted.eq_node (h : Minted inputs s r b) : b = r.node s := by
  obtain ⟨c, hc, hmint⟩ := h.answer
  exact eq_node_of_mint hc hmint

/-- Every blank node of a triple is traced back by the scope of a context to one of the inputs. -/
def AllTraced (inputs : Set (List UInt8)) (c : Context) (t : Triple) : Prop :=
  ∀ b ∈ t.blankNodes, ∃ s r, c.scope = some s ∧ Traced s b r ∧ r.input s ∈ inputs

theorem AllTraced.blankNodes_eq_nil {c : Context} {t : Triple} (h : AllTraced inputs c t)
    (hc : c.scope = none) : t.blankNodes = [] := by
  rw [List.eq_nil_iff_forall_not_mem]
  intro b hb
  obtain ⟨s, r, hs, -⟩ := h b hb
  rw [hc] at hs
  cases hs

end Origin

/-! ## Merges -/

namespace Graph

variable {ε : Type} {g : Graph} {v : Nat} {c : Context} {t u : Triple} {ts : List Triple}
  {inputs : Set (List UInt8)}

/-- Triples that are adopted as one are the same. -/
theorem eq_of_adopt_eq (hinputs : Set.InjOn Uuid.ofHashed inputs)
    (ht : Origin.AllTraced inputs c t) (hu : Origin.AllTraced inputs c u)
    (h : adopt c t = adopt c u) : t = u := by
  cases hc : c.scope with
  | none =>
    -- without a scope nothing is traced, so there are no blank nodes
    rw [adopt_of_no_scope hc, adopt_of_no_scope hc, if_pos (ht.blankNodes_eq_nil hc),
      if_pos (hu.blankNodes_eq_nil hc)] at h
    exact Except.ok.inj h
  | some s =>
    rw [adopt_of_scope hc, adopt_of_scope hc, Except.ok.injEq, adoptedBy_eq_rename,
      adoptedBy_eq_rename] at h
    refine Triple.eq_of_rename_eq (fun a ha b hb hab => ?_) h
    obtain ⟨s₁, r₁, hs₁, htraced₁, hr₁⟩ := ht a ha
    obtain ⟨s₂, r₂, hs₂, htraced₂, hr₂⟩ := hu b hb
    rw [hc, Option.some.injEq] at hs₁ hs₂
    subst hs₁ hs₂
    exact htraced₁.eq_of_adoptedBy_eq hinputs htraced₂ hr₁ hr₂ hab

/-- The triple as a context adopts it. -/
def adopted (c : Context) (t : Triple) : Triple := c.scope.elim t fun scope => t.adoptedBy scope

theorem adopt_eq_ok (h : Origin.AllTraced inputs c t) : adopt c t = .ok (adopted c t) := by
  unfold adopted
  cases hc : c.scope with
  | none => rw [adopt_of_no_scope hc, if_pos (h.blankNodes_eq_nil hc), Option.elim_none]
  | some s => rw [adopt_of_scope hc, Option.elim_some]

/-- A merge into a graph without triples adds as many as the list has different ones. -/
theorem merge_of_triples_eq_empty (h : g.store.Published v g.store.triples)
    (hv : v < Store.transactionBase) (hempty : g.store.triples = ∅)
    (hinputs : Set.InjOn Uuid.ofHashed inputs)
    (hts : ∀ t ∈ ts, Origin.AllTraced inputs g.context t) :
    (g.merge ts).1 = .ok ts.toFinset.card ∧ (g.merge ts).2.size = ts.toFinset.card := by
  have hok : ¬ (g.context.scope = none ∧ ∃ t ∈ ts, t.blankNodes ≠ []) := by
    rintro ⟨hc, t, ht, hne⟩
    exact hne ((hts t ht).blankNodes_eq_nil hc)
  obtain ⟨us, hmerges⟩ := merges h hv hok
  have hus : us = ts.map (adopted g.context) := by
    have hmap := mapM_eq_ok fun t ht => adopt_eq_ok (hts t ht)
    rw [hmerges.adopted] at hmap
    exact Except.ok.inj hmap
  have hinj : Set.InjOn (adopted g.context) ts.toFinset := by
    intro t ht u hu htu
    have ht' := hts t (List.mem_toFinset.1 ht)
    have hu' := hts u (List.mem_toFinset.1 hu)
    apply eq_of_adopt_eq hinputs ht' hu'
    rw [adopt_eq_ok ht', adopt_eq_ok hu', htu]
  have hcard : us.toFinset.card = ts.toFinset.card := by
    have himage : us.toFinset = ts.toFinset.image (adopted g.context) := by
      ext u
      simp [hus]
    rw [himage, Finset.card_image_of_injOn hinj]
  constructor
  · rw [hmerges.answer, hempty, Finset.sdiff_empty, hcard]
  · rw [hmerges.shows.size, hempty, Finset.empty_union, hcard]

/-- What is hashed for a blank node tells the scope and what it is minted for. If no two of the
inputs collide, then so do the blank nodes, and their texts, which do not show the scope. Blank
nodes of labels and adopted ones stay apart, also from each other, and a merge of triples whose
blank nodes are foreign or labeled makes no two of them one. -/
theorem minted_nodes_never_alias {inputs : Set (List UInt8)}
    (hinputs : Set.InjOn Uuid.ofHashed inputs) :
    (∀ (s₁ s₂ : Scope) (r₁ r₂ : Origin),
      s₁.salt.bytes ++ r₁.name = s₂.salt.bytes ++ r₂.name ↔ s₁ = s₂ ∧ r₁ = r₂) ∧
    (∀ (s : Scope) (r : Origin), r.IsNew s → r ≠ .label "" → r.input s ∈ inputs →
      Origin.Minted inputs s r ⟨s, Uuid.ofHashed (s.salt.bytes ++ r.name)⟩) ∧
    (∀ s₁ s₂ r₁ r₂ b₁ b₂, Origin.Minted inputs s₁ r₁ b₁ → Origin.Minted inputs s₂ r₂ b₂ →
      (b₁ = b₂ ↔ s₁ = s₂ ∧ r₁ = r₂) ∧ (b₁.display = b₂.display ↔ b₁ = b₂) ∧
      (b₁.label = b₂.label ↔ b₁ = b₂)) ∧
    (∀ s₁ s₂ b text b₁ b₂, Origin.Minted inputs s₁ (.foreign b) b₁ →
      Origin.Minted inputs s₂ (.label text) b₂ → b₁ ≠ b₂) ∧
    (∀ s a b b', Origin.Minted inputs s (.foreign a) b' → Origin.Minted inputs s (.foreign b) b' →
      a = b) ∧
    (∀ (c : Context) (ops : List (Operation ε)) (ts : List Triple),
      let g := (inTurn perform (empty c) ops).2
      ops.length < Store.transactionBase → g.isEmpty = true →
      (∀ t ∈ ts, Origin.AllTraced inputs c t) →
      (g.merge ts).1 = .ok ts.toFinset.card ∧ (g.merge ts).2.size = ts.toFinset.card) := by
  have hnodes : ∀ {s₁ s₂ r₁ r₂ b₁ b₂}, Origin.Minted inputs s₁ r₁ b₁ →
      Origin.Minted inputs s₂ r₂ b₂ → (b₁.reference = b₂.reference ↔ s₁ = s₂ ∧ r₁ = r₂) ∧
        (b₁ = b₂ ↔ s₁ = s₂ ∧ r₁ = r₂) := by
    intro s₁ s₂ r₁ r₂ b₁ b₂ h₁ h₂
    rw [h₁.eq_node, h₂.eq_node]
    exact ⟨Origin.reference_eq_iff hinputs h₁.isNew h₂.isNew h₁.hashed h₂.hashed,
      Origin.node_eq_iff hinputs h₁.isNew h₂.isNew h₁.hashed h₂.hashed⟩
  refine ⟨fun s₁ s₂ r₁ r₂ => Origin.input_eq_iff, fun s r hnew hr hhashed => ?_,
    fun s₁ s₂ r₁ r₂ b₁ b₂ h₁ h₂ => ?_, fun s₁ s₂ b text b₁ b₂ h₁ h₂ heq => ?_,
    fun s a b b' ha hb => ?_, ?_⟩
  · have hmint : r.mint (.full s) = .ok (r.node s) := by
      apply Origin.mint_full
      rintro text rfl rfl
      exact hr rfl
    rw [Origin.node_eq hnew] at hmint
    exact ⟨hnew, hhashed, .full s, rfl, hmint⟩
  · obtain ⟨hreference, hnode⟩ := hnodes h₁ h₂
    exact ⟨hnode, by rw [BlankNode.display_eq_iff, hreference, hnode],
      by rw [BlankNode.label_eq_iff, hreference, hnode]⟩
  · obtain ⟨-, hr⟩ := (hnodes h₁ h₂).2.1 heq
    cases hr
  · obtain ⟨-, hr⟩ := (hnodes ha hb).2.1 rfl
    exact Origin.foreign.inj hr
  · intro c ops ts g hops hempty hts
    have hcontext : g.context = c := context_inTurn (empty c) ops
    obtain ⟨-, v, hv, hpublished⟩ := exists_published c ops hops
    have htriples : g.store.triples = ∅ := by
      rw [(shows_published hpublished).isEmpty, decide_eq_true_eq] at hempty
      exact hempty
    refine merge_of_triples_eq_empty hpublished (by omega) htriples hinputs fun t ht => ?_
    rw [hcontext]
    exact hts t ht

/-- Two blank nodes with one label, of the graph's scope and of another, stay two. -/
theorem minted_nodes_never_alias_same_label :
    let own : Triple := ⟨.blankNode (.labeled (.ofNat 1) "b"), default, default⟩
    let foreign : Triple := ⟨.blankNode (.labeled (.ofNat 2) "b"), default, default⟩
    (merge (empty (.full (.ofNat 1))) [own, foreign, own]).1 = .ok 2 := by
  intro own foreign
  let s : Scope := .ofNat 1
  let label : Origin := .label "b"
  let adopted : Origin := .foreign (.labeled (.ofNat 2) "b")
  have hinputs : Set.InjOn Uuid.ofHashed {label.input s, adopted.input s} := by
    have hne : Uuid.ofHashed (label.input s) ≠ Uuid.ofHashed (adopted.input s) := by decide +kernel
    simp [Set.injOn_pair, hne]
  obtain ⟨-, -, -, -, -, hmerge⟩ := minted_nodes_never_alias (ε := Empty) hinputs
  have hcard : [own, foreign, own].toFinset.card = 2 := by decide +kernel
  rw [← hcard]
  refine (hmerge (.full s) [] [own, foreign, own] (by decide) rfl ?_).1
  have hown : Origin.AllTraced {label.input s, adopted.input s} (.full s) own := by
    intro b hb
    obtain rfl := List.mem_singleton.1 hb
    exact ⟨s, label, rfl, .own "b", by simp⟩
  have hforeign : Origin.AllTraced {label.input s, adopted.input s} (.full s) foreign := by
    intro b hb
    obtain rfl := List.mem_singleton.1 hb
    exact ⟨s, adopted, rfl, .foreign _ (by decide), by simp⟩
  simp only [List.forall_mem_cons, List.not_mem_nil, false_implies, implies_true, and_true]
  exact ⟨hown, hforeign, hown⟩

end Graph
end Rdf
