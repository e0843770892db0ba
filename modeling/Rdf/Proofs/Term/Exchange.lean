import Rdf.Proofs.Iri.Characters
import Rdf.Proofs.Term.BlankNodes
import Rdf.Proofs.Term.Literals
import Rdf.Proofs.Term.Minting

/-!
# Exchange of terms and graphs

Terms are handed out as texts, blank nodes without their scope, and what is handed in is checked and
built anew, every blank node by its label. Between the two, a triple of accepted IRIs is only
renamed: its blank nodes become those of the importing scope for the digits of their references.
Main statements:

* `importTriple_exported`: what is handed out is accepted, and renamed;
* `reimported_injOn`: no two blank nodes become one, unless they are handed out as one or their
  labels collide;
* `exported_of_importTerm`: what is accepted is handed out again, its language tag in lower case.
-/

namespace Rdf

/-- The blank node that a scope has for one that was handed out. -/
def BlankNode.reimported (s : Scope) (b : BlankNode) : BlankNode := .labeled s b.label

variable {s : Scope} {c : Context} {l : Literal} {t : Term}

/-! ## Out and in -/

theorem BlankNode.label_ne_empty (b : BlankNode) : b.label ≠ "" := by
  intro h
  have hlength := congrArg (fun text => text.toList.length) h
  simp [label, Uuid.simple, Uuid.length_digits] at hlength

theorem labeledBlankNode_label (s : Scope) (b : BlankNode) :
    (Context.full s).labeledBlankNode b.label = .ok (b.reimported s) :=
  Origin.mint_full (r := .label b.label) fun _ h => Origin.label.inj h ▸ b.label_ne_empty

theorem importLiteral_parts (hbuilt : l.Built) (h : l.datatype.Accepted) :
    (Context.full s).importLiteral l.parts = .ok l := by
  have hform := Literal.built_iff.1 hbuilt
  cases l with
  | plain lexical => exact bind_eq_ok_iff.2 ⟨Vocabulary.string, h, rfl⟩
  | tagged lexical language =>
    exact bind_eq_ok_iff.2 ⟨(), rfl, Literal.ofLanguage_of_read? hform⟩
  | typed lexical datatype =>
    exact bind_eq_ok_iff.2 ⟨datatype, h, Literal.ofDatatype_of_ne hform.1 hform.2⟩

theorem importTerm_exported (h : t.Over Iri.Accepted) :
    (Context.full s).importTerm t.exported = .ok (t.rename (BlankNode.reimported s)) := by
  cases t with
  | iri i => exact map_eq_ok_iff.2 ⟨i, h, rfl⟩
  | blankNode b =>
    simp only [Term.exported, Context.importTerm, labeledBlankNode_label]
    rfl
  | literal l => exact map_eq_ok_iff.2 ⟨l, importLiteral_parts h.1 h.2, rfl⟩

theorem toSubject_rename (f : BlankNode → BlankNode) (u : Subject) :
    (u.toTerm.rename f).toSubject = .ok (u.rename f) := by
  cases u <;> rfl

/-- A triple that is handed out is accepted, and its blank nodes are renamed. -/
theorem importTriple_exported {t : Triple} (h : t.Over Iri.Accepted) :
    (Context.full s).importTriple t.exported = .ok (t.rename (BlankNode.reimported s)) := by
  refine bind_eq_ok_iff.2 ⟨_, importTerm_exported h.subject, ?_⟩
  refine bind_eq_ok_iff.2 ⟨_, h.predicate, ?_⟩
  refine bind_eq_ok_iff.2 ⟨_, importTerm_exported h.object, ?_⟩
  refine bind_eq_ok_iff.2 ⟨(), rfl, ?_⟩
  exact bind_eq_ok_iff.2 ⟨_, toSubject_rename _ _, rfl⟩

/-! ## Whole graphs -/

/-- No two blank nodes become one, if they are handed out as two and no two labels collide. -/
theorem reimported_injOn {G : Finset Triple}
    (hreference : Set.InjOn BlankNode.reference (Triple.blankNodesOf G))
    (hinputs : Set.InjOn Uuid.ofHashed
      ((fun b => (Origin.label b.label).input s) '' Triple.blankNodesOf G)) :
    Set.InjOn (BlankNode.reimported s) (Triple.blankNodesOf G) := by
  intro a ha b hb h
  have hnode : (Origin.label a.label).node s = (Origin.label b.label).node s := h
  have hnew : ∀ b : BlankNode, (Origin.label b.label).IsNew s := fun _ => trivial
  obtain ⟨-, horigin⟩ := (Origin.node_eq_iff hinputs (hnew a) (hnew b)
    (Set.mem_image_of_mem _ ha) (Set.mem_image_of_mem _ hb)).1 hnode
  exact hreference ha hb (BlankNode.label_eq_iff.1 (Origin.label.inj horigin))

/-! ## In and out -/

theorem text_of_iri {text : String} {i : Iri} (h : c.iri text = .ok i) : i.text = text := by
  obtain ⟨-, -, hread⟩ := bind_eq_ok_iff.1 h
  exact (Iri.read_eq_ok_iff.1 hread).1

theorem Literal.parts_of_ofDatatype {lexical : String} {datatype : Iri}
    (h : ofDatatype lexical datatype = .ok l) : l.parts = ⟨lexical, datatype.text, none⟩ := by
  unfold ofDatatype at h
  split at h
  · next hstring =>
    obtain rfl := Except.ok.inj h
    rw [hstring]
    rfl
  · split at h
    · cases h
    · obtain rfl := Except.ok.inj h
      rfl

/-- An accepted literal keeps its parts, its language tag in lower case. -/
theorem parts_of_importLiteral {parts : LexicalValue}
    (htagged : parts.language ≠ none → parts.datatype = Vocabulary.langString.text)
    (h : c.importLiteral parts = .ok l) :
    l.parts = { parts with language := parts.language.map String.toLower } := by
  obtain ⟨lexical, datatype, language⟩ := parts
  cases language with
  | none =>
    obtain ⟨i, hi, htyped⟩ := bind_eq_ok_iff.1 h
    obtain ⟨-, -, hl⟩ := bind_eq_ok_iff.1 htyped
    rw [Literal.parts_of_ofDatatype hl, text_of_iri hi]
    rfl
  | some tag =>
    obtain ⟨-, -, hl⟩ := bind_eq_ok_iff.1 h
    obtain ⟨-, rfl⟩ := Literal.ofLanguage_eq_ok_iff.1 hl
    have hdatatype : datatype = Vocabulary.langString.text := htagged (by simp)
    rw [hdatatype]
    rfl

theorem exported_of_importTerm_iri {text : String} (h : c.importTerm (.iri text) = .ok t) :
    t.exported = .iri text := by
  obtain ⟨i, hi, rfl⟩ := map_eq_ok_iff.1 h
  exact congrArg ExchangeTerm.iri (text_of_iri hi)

theorem exported_of_importTerm_literal {parts : LexicalValue}
    (htagged : parts.language ≠ none → parts.datatype = Vocabulary.langString.text)
    (h : c.importTerm (.literal parts) = .ok t) :
    t.exported = .literal { parts with language := parts.language.map String.toLower } := by
  obtain ⟨l, hl, rfl⟩ := map_eq_ok_iff.1 h
  exact congrArg ExchangeTerm.literal (parts_of_importLiteral htagged hl)

/-- Exchange keeps graphs. A triple that is handed out is accepted by every context that offers
everything, and only its blank nodes are new: each is the one that is labeled with the digits of the
old one's reference. For a set of triples whose blank nodes have different references that is an
isomorphism, as long as the labels do not collide. The other way around, an accepted IRI or literal
is handed out as it was, its language tag in lower case. -/
theorem exchange_keeps_graphs (s : Scope) :
    (∀ t : Triple, t.Over Iri.Accepted →
      (Context.full s).importTriple t.exported =
        .ok (t.rename fun b => .labeled s (String.ofList b.reference.digits))) ∧
    (∀ G : Finset Triple, (∀ t ∈ G, t.Over Iri.Accepted) →
      Set.InjOn BlankNode.reference (Triple.blankNodesOf G) →
      Set.InjOn Uuid.ofHashed
        ((fun b => (Origin.label b.label).input s) '' Triple.blankNodesOf G) →
      ∃ H : Finset Triple,
        (∀ u, u ∈ H ↔ ∃ t ∈ G, (Context.full s).importTriple t.exported = .ok u) ∧
        Triple.IsIsomorphism (BlankNode.reimported s) G H) ∧
    (∀ (c : Context) (text : String) (t : Term),
      c.importTerm (.iri text) = .ok t → t.exported = .iri text) ∧
    (∀ (c : Context) (parts : LexicalValue) (t : Term),
      (parts.language ≠ none → parts.datatype = Vocabulary.langString.text) →
      c.importTerm (.literal parts) = .ok t →
      t.exported = .literal { parts with language := parts.language.map String.toLower }) := by
  refine ⟨fun t => importTriple_exported, fun G hG hreference hinputs => ?_,
    fun c text t => exported_of_importTerm_iri, fun c parts t => exported_of_importTerm_literal⟩
  refine ⟨G.image (Triple.rename (BlankNode.reimported s)), fun u => ?_,
    Triple.isIsomorphism_rename (reimported_injOn hreference hinputs)⟩
  rw [Finset.mem_image]
  constructor
  · rintro ⟨t, ht, rfl⟩
    exact ⟨t, ht, importTriple_exported (hG t ht)⟩
  · rintro ⟨t, ht, hu⟩
    rw [importTriple_exported (hG t ht)] at hu
    exact ⟨t, ht, Except.ok.inj hu⟩

/-- Two blank nodes of different scopes, one of them in both positions, and a tagged literal. -/
theorem exchange_keeps_graphs_two_scopes :
    let a : BlankNode := ⟨.ofNat 1, .ofNat 5⟩
    let b : BlankNode := ⟨.ofNat 2, .ofNat 6⟩
    let p : Iri := ⟨"http://example.com/p"⟩
    let G : Finset Triple := {⟨.blankNode a, p, .blankNode b⟩,
      ⟨.blankNode b, p, .literal (.tagged "colour" "en-gb")⟩}
    ∃ H : Finset Triple,
      (∀ u, u ∈ H ↔ ∃ t ∈ G, (Context.full (.ofNat 3)).importTriple t.exported = .ok u) ∧
      Triple.IsIsomorphism (BlankNode.reimported (.ofNat 3)) G H := by
  intro a b p G
  let s : Scope := .ofNat 3
  have hp : p.Accepted := by decide +kernel
  have hlang : Vocabulary.langString.Accepted := by decide +kernel
  have htagged : Literal.ofLanguage "colour" "en-gb" = .ok (.tagged "colour" "en-gb") := by
    decide +kernel
  have hover : ∀ t ∈ G, t.Over Iri.Accepted := by
    simp only [G, Finset.mem_insert, Finset.mem_singleton, forall_eq_or_imp, forall_eq]
    exact ⟨⟨trivial, hp, trivial⟩, ⟨trivial, hp, .tagged htagged, hlang⟩⟩
  have hnodes : Triple.blankNodesOf G ⊆ {a, b} := by
    rintro d ⟨t, ht, hd⟩
    simp only [G, Finset.mem_insert, Finset.mem_singleton] at ht
    rcases ht with rfl | rfl <;>
      simp_all [Triple.blankNodes, Subject.toTerm, Term.blankNode?]
  have hreference : Set.InjOn BlankNode.reference {a, b} := by
    have hne : a.reference ≠ b.reference := by decide
    simp [Set.injOn_pair, hne]
  have hinputs : Set.InjOn Uuid.ofHashed
      ((fun d => (Origin.label d.label).input s) '' {a, b}) := by
    have hne : Uuid.ofHashed ((Origin.label a.label).input s) ≠
        Uuid.ofHashed ((Origin.label b.label).input s) := by decide +kernel
    simp [Set.image_pair, Set.injOn_pair, hne]
  obtain ⟨-, hgraph, -, -⟩ := exchange_keeps_graphs s
  exact hgraph G hover (hreference.mono hnodes) (hinputs.mono (Set.image_mono hnodes))

end Rdf
