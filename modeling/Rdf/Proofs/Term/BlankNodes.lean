import Mathlib.Data.Finset.Image
import Rdf.Proofs.Uuid.Texts
import Rdf.Term.Canonical

/-!
# Renaming the blank nodes of triples

Whatever takes a triple from one context to another replaces its blank nodes and leaves the rest as
it is: adoption by a scope, export and import, and a printed line, which does not show the scope.
All of them are renamings. Main statements:

* `Triple.eq_of_rename_eq`: a renaming that keeps the blank nodes of two triples apart keeps the
  triples apart;
* `Triple.isIsomorphism_rename`: and a renaming that keeps those of a whole set of triples apart is
  an isomorphism of it.
-/

namespace Rdf

/-! ## Blank nodes in texts -/

namespace BlankNode

variable {a b : BlankNode}

/-- The text of a blank node shows its reference and nothing else. -/
theorem display_eq_iff : a.display = b.display ↔ a.reference = b.reference := by
  constructor
  · intro h
    have hdigits : '_' :: ':' :: a.reference.digits = '_' :: ':' :: b.reference.digits :=
      String.ofList_injective h
    simp only [List.cons.injEq, true_and] at hdigits
    exact Uuid.digits_injective hdigits
  · intro h
    unfold display canonical
    rw [h]

theorem label_eq_iff : a.label = b.label ↔ a.reference = b.reference :=
  Uuid.simple_injective.eq_iff

end BlankNode

/-! ## Renamings -/

/-- The subject with another blank node, if it is one. -/
def Subject.rename (f : BlankNode → BlankNode) : Subject → Subject
  | .iri i => .iri i
  | .blankNode b => .blankNode (f b)

/-- The term with another blank node, if it is one. -/
def Term.rename (f : BlankNode → BlankNode) : Term → Term
  | .blankNode b => .blankNode (f b)
  | other => other

section Terms

variable {f : BlankNode → BlankNode}

theorem Subject.eq_of_rename_eq {s s' : Subject}
    (hf : ∀ a b, s.toTerm.blankNode? = some a → s'.toTerm.blankNode? = some b → f a = f b → a = b)
    (h : s.rename f = s'.rename f) : s = s' := by
  cases s <;> cases s' <;> simp_all [rename, toTerm, Term.blankNode?]

theorem Term.eq_of_rename_eq {o o' : Term}
    (hf : ∀ a b, o.blankNode? = some a → o'.blankNode? = some b → f a = f b → a = b)
    (h : o.rename f = o'.rename f) : o = o' := by
  cases o <;> cases o' <;> simp_all [rename, blankNode?]

end Terms

namespace Triple

/-- The blank nodes of a triple, which stand as its subject or object. -/
def blankNodes (t : Triple) : List BlankNode :=
  t.subject.toTerm.blankNode?.toList ++ t.object.blankNode?.toList

/-- The triple with its blank nodes replaced. -/
def rename (f : BlankNode → BlankNode) (t : Triple) : Triple :=
  ⟨t.subject.rename f, t.predicate, t.object.rename f⟩

variable {f g : BlankNode → BlankNode} {t u : Triple}

theorem blankNodes_rename (f : BlankNode → BlankNode) (t : Triple) :
    (t.rename f).blankNodes = t.blankNodes.map f := by
  rcases t with ⟨_ | _, p, _ | _ | _⟩ <;> rfl

/-- Only the new names of the triple's own blank nodes matter. -/
theorem rename_congr (h : ∀ b ∈ t.blankNodes, f b = g b) : t.rename f = t.rename g := by
  rcases t with ⟨_ | b, p, _ | b' | _⟩ <;>
    simp_all [rename, blankNodes, Subject.rename, Term.rename, Subject.toTerm, Term.blankNode?]

theorem rename_id (t : Triple) : t.rename id = t := by
  rcases t with ⟨_ | _, p, _ | _ | _⟩ <;> rfl

/-- Triples with the same new names are the same, if their blank nodes are kept apart. -/
theorem eq_of_rename_eq (hf : ∀ a ∈ t.blankNodes, ∀ b ∈ u.blankNodes, f a = f b → a = b)
    (h : t.rename f = u.rename f) : t = u := by
  obtain ⟨s, p, o⟩ := t
  obtain ⟨s', p', o'⟩ := u
  simp only [rename, mk.injEq] at h
  obtain ⟨hs, rfl, ho⟩ := h
  have hsubject : s = s' := Subject.eq_of_rename_eq (fun a b ha hb =>
    hf a (by simp [blankNodes, ha]) b (by simp [blankNodes, hb])) hs
  have hobject : o = o' := Term.eq_of_rename_eq (fun a b ha hb =>
    hf a (by simp [blankNodes, ha]) b (by simp [blankNodes, hb])) ho
  rw [hsubject, hobject]

/-! ## Isomorphisms -/

/-- The blank nodes of a set of triples. -/
def blankNodesOf (G : Finset Triple) : Set BlankNode := {b | ∃ t ∈ G, b ∈ t.blankNodes}

/-- A renaming is an isomorphism of sets of triples: it matches the blank nodes of the one with
those of the other, and turns the triples of the one into those of the other. -/
structure IsIsomorphism (f : BlankNode → BlankNode) (G H : Finset Triple) : Prop where
  bijOn : Set.BijOn f (blankNodesOf G) (blankNodesOf H)
  mem_iff : ∀ t, (∀ b ∈ t.blankNodes, b ∈ blankNodesOf G) → (t ∈ G ↔ t.rename f ∈ H)
  exists_eq : ∀ u ∈ H, ∃ t ∈ G, t.rename f = u

theorem mem_blankNodesOf_image {G : Finset Triple} {b : BlankNode} :
    b ∈ blankNodesOf (G.image (rename f)) ↔ ∃ a ∈ blankNodesOf G, f a = b := by
  simp only [blankNodesOf, Set.mem_ofPred_eq, Finset.mem_image]
  constructor
  · rintro ⟨_, ⟨t, ht, rfl⟩, hb⟩
    rw [blankNodes_rename, List.mem_map] at hb
    obtain ⟨a, ha, rfl⟩ := hb
    exact ⟨a, ⟨t, ht, ha⟩, rfl⟩
  · rintro ⟨a, ⟨t, ht, ha⟩, rfl⟩
    refine ⟨t.rename f, ⟨t, ht, rfl⟩, ?_⟩
    rw [blankNodes_rename]
    exact List.mem_map_of_mem ha

theorem isIsomorphism_rename {G : Finset Triple} (hf : Set.InjOn f (blankNodesOf G)) :
    IsIsomorphism f G (G.image (rename f)) where
  bijOn := by
    refine ⟨fun a ha => mem_blankNodesOf_image.2 ⟨a, ha, rfl⟩, hf, fun b hb => ?_⟩
    obtain ⟨a, ha, hab⟩ := mem_blankNodesOf_image.1 hb
    exact ⟨a, ha, hab⟩
  mem_iff t ht := by
    constructor
    · exact Finset.mem_image_of_mem _
    · intro h
      obtain ⟨u, hu, hut⟩ := Finset.mem_image.1 h
      have heq : u = t := eq_of_rename_eq (fun a ha b hb => hf ⟨u, hu, ha⟩ (ht b hb)) hut
      rwa [← heq]
  exists_eq u hu := Finset.mem_image.1 hu

end Triple

end Rdf
