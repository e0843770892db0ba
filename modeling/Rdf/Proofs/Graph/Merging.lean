import Rdf.Proofs.Graph.Operations
import Rdf.Proofs.Store.Compaction
import Rdf.Proofs.Term.BlankNodes

/-!
# Merging triples of other contexts

A merge replaces the blank nodes of its triples by those of the graph's context, all of them before
the first triple is inserted. A blank node that belongs to the context already stands for itself, so
that adoption is the identity on what it has made, and a second merge of the same triples finds all
of them present. Main statements:

* `within_of_adopt`, `adopt_of_within`: adopted triples belong to the context, and triples that
  belong to it are adopted as they are;
* `Graph.addsNothing_of_subset`: a merge of triples that are all present moves the number of the
  version and nothing else;
* `merge_adopts`: a merge adds its triples, adopted, or fails and changes nothing; when it is done
  again, it adds nothing.
-/

namespace Rdf

/-! ## Blank nodes of triples -/

namespace Triple

/-- All blank nodes of a triple belong to the scope of a context, if it has one. -/
def Within (t : Triple) (scope : Option Scope) : Prop := ∀ b ∈ t.blankNodes, scope = some b.scope

/-- The triple with its blank nodes adopted by a scope. -/
def adoptedBy (scope : Scope) (t : Triple) : Triple where
  subject := match t.subject with
    | .blankNode b => .blankNode (b.adoptedBy scope)
    | .iri i => .iri i
  predicate := t.predicate
  object := match t.object with
    | .blankNode b => .blankNode (b.adoptedBy scope)
    | other => other

end Triple

namespace BlankNode

variable {scope : Scope} {b : BlankNode}

theorem scope_adoptedBy (scope : Scope) (b : BlankNode) : (b.adoptedBy scope).scope = scope := by
  rw [adoptedBy]
  split
  · next h => exact h.symm
  · rfl

theorem adoptedBy_of_scope_eq (h : scope = b.scope) : b.adoptedBy scope = b := if_pos h

end BlankNode

section Adoption

variable {c : Context} {scope : Scope} {t u : Triple}

/-- Adoption is a renaming. -/
theorem adoptedBy_eq_rename (scope : Scope) (t : Triple) :
    t.adoptedBy scope = t.rename (·.adoptedBy scope) := by
  rcases t with ⟨_ | _, p, _ | _ | _⟩ <;> rfl

theorem blankNodes_adoptedBy (scope : Scope) (t : Triple) :
    (t.adoptedBy scope).blankNodes = t.blankNodes.map (·.adoptedBy scope) := by
  rw [adoptedBy_eq_rename, Triple.blankNodes_rename]

theorem adoptedBy_of_within (h : t.Within (some scope)) : t.adoptedBy scope = t := by
  have hb : ∀ b ∈ t.blankNodes, b.adoptedBy scope = id b :=
    fun b hb => BlankNode.adoptedBy_of_scope_eq (Option.some.inj (h b hb))
  rw [adoptedBy_eq_rename, Triple.rename_congr hb, Triple.rename_id]

theorem adopt_of_scope (hc : c.scope = some scope) (t : Triple) :
    Graph.adopt c t = .ok (t.adoptedBy scope) := by
  have hadopt : ∀ b, c.adopt b = .ok (b.adoptedBy scope) := by
    intro b
    rw [Context.adopt, Context.needScope, hc]
    rfl
  rcases t with ⟨_ | b, p, _ | b' | _⟩ <;> rw [Graph.adopt] <;> simp only [hadopt] <;> rfl

theorem adopt_of_no_scope (hc : c.scope = none) (t : Triple) :
    Graph.adopt c t = if t.blankNodes = [] then .ok t else .error (.unsupported .adoption) := by
  have hadopt : ∀ b, c.adopt b = .error (.unsupported .adoption) := by
    intro b
    rw [Context.adopt, Context.needScope, hc]
    rfl
  rcases t with ⟨_ | b, p, _ | b' | _⟩ <;> rw [Graph.adopt] <;> simp only [hadopt] <;> rfl

/-- All blank nodes of an adopted triple belong to the context. -/
theorem within_of_adopt (h : Graph.adopt c t = .ok u) : u.Within c.scope := by
  cases hc : c.scope with
  | none =>
    rw [adopt_of_no_scope hc] at h
    split at h
    · next hnone =>
      obtain rfl := Except.ok.inj h
      intro b hb
      rw [hnone] at hb
      cases hb
    · cases h
  | some scope =>
    rw [adopt_of_scope hc] at h
    obtain rfl := Except.ok.inj h
    intro b hb
    rw [blankNodes_adoptedBy, List.mem_map] at hb
    obtain ⟨b', -, rfl⟩ := hb
    rw [BlankNode.scope_adoptedBy]

/-- A triple whose blank nodes belong to the context is adopted as it is. -/
theorem adopt_of_within (h : t.Within c.scope) : Graph.adopt c t = .ok t := by
  cases hc : c.scope with
  | none =>
    have hnone : t.blankNodes = [] := by
      rw [List.eq_nil_iff_forall_not_mem]
      intro b hb
      have := h b hb
      rw [hc] at this
      cases this
    rw [adopt_of_no_scope hc, if_pos hnone]
  | some scope =>
    rw [hc] at h
    rw [adopt_of_scope hc, adoptedBy_of_within h]

end Adoption

/-! ## Adoption of lists -/

section Lists

variable {α β ε : Type} {f : α → Except ε β} {as : List α}

theorem mapM_eq_ok {h : α → β} (hf : ∀ a ∈ as, f a = .ok (h a)) : as.mapM f = .ok (as.map h) := by
  induction as with
  | nil => rfl
  | cons a as ih =>
    rw [List.forall_mem_cons] at hf
    rw [List.mapM_cons, hf.1, ih hf.2]
    rfl

/-- If there is one error only, and some element has it, then the list has it. -/
theorem mapM_eq_error {e : ε} (hf : ∀ a ∈ as, (∃ b, f a = .ok b) ∨ f a = .error e)
    (he : ∃ a ∈ as, f a = .error e) : as.mapM f = .error e := by
  induction as with
  | nil =>
    obtain ⟨a, ha, -⟩ := he
    cases ha
  | cons a as ih =>
    rw [List.forall_mem_cons] at hf
    rw [List.mapM_cons]
    obtain ⟨⟨b, hb⟩ | ha, hrest⟩ := hf
    · -- the error is further on
      obtain ⟨a', ha', he'⟩ := he
      have htail : ∃ a ∈ as, f a = .error e := by
        rcases List.mem_cons.1 ha' with rfl | ha'
        · rw [hb] at he'
          cases he'
        · exact ⟨a', ha', he'⟩
      rw [hb, ih hrest htail]
      rfl
    · rw [ha]
      rfl

end Lists

namespace Graph

variable {ε : Type} {g : Graph} {v : Nat} {S : Finset Triple} {ts us : List Triple}

/-- Adoption fails if there is no scope and a blank node, and only then. -/
theorem mapM_adopt_eq_error {c : Context} (hc : c.scope = none)
    (hts : ∃ t ∈ ts, t.blankNodes ≠ []) :
    ts.mapM (adopt c) = .error (.unsupported .adoption) := by
  refine mapM_eq_error (fun t _ => ?_) ?_
  · rw [adopt_of_no_scope hc]
    split
    · exact .inl ⟨t, rfl⟩
    · exact .inr rfl
  · obtain ⟨t, ht, hne⟩ := hts
    exact ⟨t, ht, by rw [adopt_of_no_scope hc, if_neg hne]⟩

theorem mapM_adopt_eq_ok {c : Context} (h : ¬ (c.scope = none ∧ ∃ t ∈ ts, t.blankNodes ≠ [])) :
    ∃ us, ts.mapM (adopt c) = .ok us ∧ (∀ u ∈ us, ∃ t ∈ ts, adopt c t = .ok u) ∧
      ∀ t ∈ ts, ∀ u, adopt c t = .ok u → u ∈ us := by
  have hadopt : ∀ t ∈ ts, adopt c t = .ok (c.scope.elim t fun scope => t.adoptedBy scope) := by
    intro t ht
    cases hc : c.scope with
    | some scope => exact adopt_of_scope hc t
    | none =>
      have hnone : t.blankNodes = [] := by
        by_contra hne
        exact h ⟨hc, t, ht, hne⟩
      rw [adopt_of_no_scope hc, if_pos hnone]
      rfl
  refine ⟨_, mapM_eq_ok hadopt, fun u hu => ?_, fun t ht u hu => ?_⟩
  · obtain ⟨t, ht, rfl⟩ := List.mem_map.1 hu
    exact ⟨t, ht, hadopt t ht⟩
  · rw [hadopt t ht] at hu
    exact List.mem_map.2 ⟨t, ht, Except.ok.inj hu⟩

/-! ## Merges that add nothing -/

/-- A merge of `ts` into `g` adds nothing: it publishes the same triples under another number. -/
structure AddsNothing (g : Graph) (ts : List Triple) : Prop where
  answer : (g.merge ts).1 = .ok 0
  context_eq : (g.merge ts).2.context = g.context
  store_eq : (g.merge ts).2.store =
    { g.store with version := g.store.version + 1, started := g.store.started + 1 }
  shows : ∀ S, g.Shows S → (g.merge ts).2.Shows S

theorem shows_published (h : g.store.Published v S) : g.Shows S :=
  shows_of_snapshot h.shows h.size_eq

theorem Shows.unique {S' : Finset Triple} (h : g.Shows S) (h' : g.Shows S') : S = S' := by
  ext t
  have hcontains := (h.contains t).symm.trans (h'.contains t)
  exact decide_eq_decide.1 hcontains

/-- A transaction that does nothing publishes the same index again, if that is compact. -/
theorem commit_begin {s : Store} (h : s.Compact) :
    s.begin.commit = { s with version := s.version + 1, started := s.started + 1 } :=
  Store.compactIfNeeded_of_compact (s := s.begin.committed) h

theorem addsNothing_of_subset (h : g.store.Published v S) (hv : v < Store.transactionBase)
    (hcompact : g.store.Compact) (hadopt : ts.mapM (adopt g.context) = .ok us)
    (hus : us.toFinset ⊆ S) : g.AddsNothing ts := by
  obtain ⟨hrunning, hview⟩ := h.view_begin hv
  rw [← hview] at hus
  have hextend := hrunning.extend_of_subset hus
  have hmerge : g.merge ts = (.ok 0, ⟨g.context, g.store.begin.commit⟩) := by
    rcases g with ⟨context, s⟩
    rw [merge, hadopt]
    simp only [extend, write, Store.write]
    rw [hextend]
  have hshows : (g.merge ts).2.Shows S := by
    have hcommit := hrunning.commit
    rw [hview] at hcommit
    rw [hmerge]
    exact shows_published hcommit
  refine ⟨?_, ?_, ?_, fun S' hS' => ?_⟩
  · rw [hmerge]
  · rw [hmerge]
  · rw [hmerge]
    exact commit_begin hcompact
  · rw [hS'.unique (shows_published h)]
    exact hshows

/-! ## Additions -/

/-- Whether an operation removes nothing. -/
def Operation.isAddition : Operation ε → Bool
  | .insert _ | .extend _ | .merge _ | .load _ _ => true
  | .transact steps _ => steps.all fun
    | .insert _ | .extend _ => true
    | _ => false
  | .remove _ | .removeMatching _ | .clear => false

theorem subset_inTurn_onSet {steps : List WriteStep}
    (h : ∀ step ∈ steps, ∀ S, S ⊆ (step.onSet S).2) (S : Finset Triple) :
    S ⊆ (inTurn WriteStep.onSet S steps).2 := by
  induction steps generalizing S with
  | nil => exact Finset.Subset.refl S
  | cons step steps ih =>
    rw [List.forall_mem_cons] at h
    exact (h.1 S).trans (ih h.2 _)

theorem Operation.subset_onSet {op : Operation ε} (h : op.isAddition = true) (c : Context)
    (S : Finset Triple) : S ⊆ (op.onSet c S).2 := by
  cases op with
  | insert t => exact Finset.subset_insert t S
  | extend ts => exact Finset.subset_union_left
  | merge ts =>
    rw [onSet]
    cases ts.mapM (adopt c) with
    | ok us => exact Finset.subset_union_left
    | error e => exact Finset.Subset.refl S
  | load hooks items =>
    rw [onSet]
    cases BulkLoad.failure items with
    | none => exact Finset.subset_union_left
    | some e => exact Finset.subset_union_left
  | transact steps failure =>
    show S ⊆ if failure.isSome then S else (inTurn WriteStep.onSet S steps).2
    split
    · exact Finset.Subset.refl S
    · refine subset_inTurn_onSet (fun step hstep S => ?_) S
      have hkind := List.all_eq_true.1 h step hstep
      cases step with
      | insert t => exact Finset.subset_insert t S
      | extend ts => exact Finset.subset_union_left
      | remove t => cases hkind
      | removeMatching p => cases hkind
      | clear => cases hkind
  | remove t => cases h
  | removeMatching p => cases h
  | clear => cases h

/-- Additions keep all triples that are present. -/
theorem subset_triples_inTurn {ops : List (Operation ε)} (hops : ∀ op ∈ ops, op.isAddition = true)
    (h : g.store.Published v S) (hv : v + ops.length < Store.transactionBase) :
    S ⊆ (inTurn perform g ops).2.store.triples := by
  induction ops generalizing g v S with
  | nil =>
    rw [show (inTurn perform g []).2.store.triples = S from h.shows.toFinset_matching_any]
  | cons op ops ih =>
    rw [List.forall_mem_cons] at hops
    rw [List.length_cons] at hv
    obtain ⟨-, w, hw, hpublished⟩ := perform_published h (by omega) op
    exact (Operation.subset_onSet hops.1 g.context S).trans (ih hops.2 hpublished (by omega))

/-! ## Merges of any list -/

theorem context_inTurn (g : Graph) (ops : List (Operation ε)) :
    (inTurn perform g ops).2.context = g.context := by
  induction ops generalizing g with
  | nil => rfl
  | cons op ops ih => exact (ih (g.perform op).2).trans (context_perform g op)

/-- Whatever has happened to a graph, it is compact, and shows the triples that its store has
published. -/
theorem exists_published (context : Context) (ops : List (Operation ε))
    (hops : ops.length < Store.transactionBase) :
    let g := (inTurn perform (empty context) ops).2
    g.store.Compact ∧ ∃ v ≤ ops.length, g.store.Published v g.store.triples := by
  intro g
  obtain ⟨es, hle, hes⟩ := exists_run context ops
  have hstart : es.countP Store.Event.isStart < Store.transactionBase := by omega
  obtain ⟨hsound, hversion⟩ := Store.sound_of_run hstart hes
  have hwf := Store.wellFormed_run es
  rw [hes] at hwf
  exact ⟨Store.compact_of_idle hstart hes, g.store.version, Nat.le_trans hversion hle,
    hsound, rfl, (Store.triples_eq hwf).symm⟩

/-- A merge of `ts` into `g` adds the triples `us`, which are `ts` adopted by the context. -/
structure Merges (g : Graph) (ts us : List Triple) : Prop where
  adopted : ts.mapM (adopt g.context) = .ok us
  answer : (g.merge ts).1 = .ok (us.toFinset \ g.store.triples).card
  shows : (g.merge ts).2.Shows (g.store.triples ∪ us.toFinset)
  within : ∀ u ∈ us, u.Within g.context.scope
  kept : ∀ t ∈ ts, t.Within g.context.scope → adopt g.context t = .ok t ∧ t ∈ us
  idempotent : ∀ u ∈ us, adopt g.context u = .ok u

theorem merges (h : g.store.Published v g.store.triples) (hv : v < Store.transactionBase)
    (hok : ¬ (g.context.scope = none ∧ ∃ t ∈ ts, t.blankNodes ≠ [])) : ∃ us, g.Merges ts us := by
  obtain ⟨us, hadopted, hfrom, hto⟩ := mapM_adopt_eq_ok hok
  have hwithin : ∀ u ∈ us, u.Within g.context.scope := by
    intro u hu
    obtain ⟨t, -, ht⟩ := hfrom u hu
    exact within_of_adopt ht
  obtain ⟨hanswer, w, -, hpublished⟩ := perform_published h hv (Operation.merge (ε := Empty) ts)
  rw [Operation.onSet, hadopted] at hanswer hpublished
  refine ⟨us, hadopted, ?_, shows_published hpublished, hwithin, fun t ht hin => ?_,
    fun u hu => adopt_of_within (hwithin u hu)⟩
  · have hcount := Finset.card_sdiff_add_card us.toFinset g.store.triples
    rw [Answer.merged.inj hanswer, Finset.union_comm, ← hcount, Nat.add_sub_cancel]
  · have hadopt := adopt_of_within hin
    exact ⟨hadopt, hto t ht t hadopt⟩

/-- A merge takes over its triples with their blank nodes adopted by the graph's context. It fails
if there is no scope to adopt them, and then it changes nothing. Once it is done, doing it again
after any additions adds nothing, and neither does a merge of the graph into itself, if its blank
nodes are its own. -/
theorem merge_adopts (context : Context) (ops later : List (Operation ε)) (ts : List Triple)
    (hlater : ∀ op ∈ later, op.isAddition = true)
    (hk : ops.length + later.length + 2 < Store.transactionBase) :
    let g := (inTurn perform (empty context) ops).2
    let fails := context.scope = none ∧ ∃ t ∈ ts, t.blankNodes ≠ []
    g.Shows g.store.triples ∧
    (fails → g.merge ts = (.error (.unsupported .adoption), g)) ∧
    (¬ fails → (∃ us, g.Merges ts us) ∧
      (inTurn perform (g.merge ts).2 later).2.AddsNothing ts) ∧
    ((∀ t ∈ g.store.triples, t.Within context.scope) → g.AddsNothing (g.matching .any)) := by
  intro g fails
  have hcontext : g.context = context := context_inTurn (empty context) ops
  obtain ⟨hcompact, v, hv, hpublished⟩ := exists_published context ops (by omega)
  refine ⟨shows_published hpublished, fun ⟨hc, hts⟩ => ?_, fun hok => ?_, fun hown => ?_⟩
  · rw [merge, hcontext, mapM_adopt_eq_error hc hts]
  · have hok' : ¬ (g.context.scope = none ∧ ∃ t ∈ ts, t.blankNodes ≠ []) := by
      rw [hcontext]
      exact hok
    obtain ⟨us, hmerges⟩ := merges hpublished (by omega) hok'
    refine ⟨⟨us, hmerges⟩, ?_⟩
    -- the merge and what comes later are operations on the graph like those before
    have hrun : (inTurn perform (g.merge ts).2 later).2 =
        (inTurn perform (empty context) (ops ++ .merge ts :: later)).2 := by
      rw [inTurn_append]
      rfl
    have hlength : (ops ++ .merge ts :: later).length = ops.length + later.length + 1 := by
      rw [List.length_append, List.length_cons, Nat.add_assoc]
    obtain ⟨hcompact', w, hw, hpublished'⟩ :=
      exists_published context (ops ++ .merge ts :: later) (by omega)
    have hadopted : ts.mapM (adopt (inTurn perform (g.merge ts).2 later).2.context) = .ok us := by
      rw [hrun, context_inTurn, ← hmerges.adopted, hcontext]
      rfl
    rw [← hrun] at hcompact' hpublished'
    obtain ⟨-, w', hw', hmerged⟩ := perform_published hpublished (by omega)
      (Operation.merge (ε := ε) ts)
    have hnew : us.toFinset ⊆ ((Operation.merge (ε := ε) ts).onSet g.context g.store.triples).2 := by
      rw [Operation.onSet, hmerges.adopted]
      exact Finset.subset_union_right
    have hold := subset_triples_inTurn hlater hmerged (by omega)
    exact addsNothing_of_subset hpublished' (by omega) hcompact' hadopted (hnew.trans hold)
  · have hown' : ∀ t ∈ g.matching .any, adopt g.context t = .ok (id t) := by
      intro t ht
      apply adopt_of_within
      rw [hcontext]
      exact hown t (List.mem_toFinset.2 ht)
    have hadopted := mapM_eq_ok hown'
    rw [List.map_id] at hadopted
    exact addsNothing_of_subset hpublished (by omega) hcompact hadopted (Finset.Subset.refl _)

/-- The stand-in for a blank node of another context is found when it is merged again. -/
theorem merge_adopts_foreign :
    let foreign : Triple := ⟨.blankNode ⟨.ofNat 2, default⟩, default, default⟩
    let g := (merge (empty (.full (.ofNat 1))) [foreign]).2
    (g.insert default).2.AddsNothing [foreign] := by
  intro foreign g
  obtain ⟨-, -, hmerges, -⟩ := merge_adopts (ε := Empty) (.full (.ofNat 1)) [] [.insert default]
    [foreign] (by simp [Operation.isAddition]) (by decide)
  obtain ⟨-, hagain⟩ := hmerges (by simp [Context.full])
  -- the operation is looked at without the graph, whose blank nodes would be computed
  have hinsert : ∀ g : Graph, (inTurn perform g [Operation.insert (ε := Empty) default]).2 =
      (g.insert default).2 := fun _ => rfl
  rw [hinsert] at hagain
  exact hagain

/-- A merge that adds nothing is a transaction all the same, and publishes a new version. -/
theorem merge_again_publishes :
    let g := (merge (empty .bare) [default]).2
    (g.merge [default]).2.store.snapshot ≠ g.store.snapshot := by
  intro g
  let op : Operation Empty := .merge [default]
  obtain ⟨hcompact, -⟩ := exists_published .bare [op] (by decide)
  obtain ⟨-, v, hv, hpublished⟩ :=
    perform_published (g := empty .bare) Store.published_empty (by decide) op
  have hbase : v < Store.transactionBase := Nat.lt_of_le_of_lt hv (by decide)
  have hnothing : g.AddsNothing [default] :=
    addsNothing_of_subset hpublished hbase hcompact rfl Finset.subset_union_right
  intro hsnapshot
  have hversion := congrArg Reader.version hsnapshot
  rw [hnothing.store_eq] at hversion
  exact Nat.succ_ne_self _ hversion

end Graph
end Rdf
