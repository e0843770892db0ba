import Rdf.Proofs.Store.Reads

/-!
# Snapshots are isolated

A reader shares its index with the writers, who append nodes to it and change the versions of nodes
all the time. `Content.Keeps` says what they leave alone: the triples of the nodes, hence the links
between them, and the visibility of the nodes in all versions before the one being written. So a
walk from an old node visits the nodes that it would have visited before. Main statements:

* `Content.Keeps.take`, `Content.Keeps.rest`, `Content.Keeps.matching`: cursors and queries of kept
  versions yield what they did;
* `State.Valid.keeps_run`: every run keeps the version published at its start and all before it;
* `snapshot_isolation`: a snapshot shows the same triples for ever, and so do the cursors that were
  opened from it, however far they have been moved.
-/

namespace Rdf
namespace Content

/-! ## Places of cursors -/

/-- The cursor stands at a node of the index, or at its end. -/
def Holds (c : Content) (cursor : Cursor) : Prop := ∀ i, cursor.position = some i → i < c.nodes.size

section Holds

variable {c : Content}

theorem holds_query (h : c.WellFormed) (r : Reader) (p : Pattern) : c.Holds (c.query r p) := by
  intro i hi
  rcases c.query_eq r p with ⟨q, u, -, hq⟩ | hq
  · rw [hq] at hi
    simp only at hi
    rw [h.lastOf_eq] at hi
    exact head?_earlier_lt hi
  · rw [hq] at hi
    simp only at hi
    rw [h.last] at hi
    exact head?_earlier_lt hi

theorem lt_size_of_nextFrom {cursor : Cursor} {i j : Nat} {t : Triple}
    (h : c.nextFrom cursor i = some (t, some j)) : j < c.nodes.size := by
  induction i using Nat.strongRecOn with
  | ind i ih =>
    rw [nextFrom_eq] at h
    cases hy : c.yielded cursor i with
    | some u =>
      rw [hy] at h
      simp only [Option.some.injEq, Prod.mk.injEq] at h
      exact lt_size_of_previous h.2
    | none =>
      rw [hy] at h
      simp only at h
      cases hp : c.previous cursor.chain i with
      | none =>
        rw [hp] at h
        cases h
      | some k =>
        rw [hp] at h
        exact ih k (previous_lt hp) h

/-- A cursor that has moved stands at a node. -/
theorem holds_next (cursor : Cursor) : c.Holds (c.next cursor).2 := by
  intro j hj
  unfold next at hj
  split at hj
  · next t position h =>
    obtain ⟨i, -, hi⟩ := Option.bind_eq_some_iff.1 h
    obtain rfl : position = some j := hj
    exact lt_size_of_nextFrom hi
  · cases hj

theorem reader_next (cursor : Cursor) : (c.next cursor).2.reader = cursor.reader := by
  unfold next
  split <;> rfl

theorem take_succ (n : Nat) (cursor : Cursor) :
    (c.take (n + 1) cursor).2 = match c.next cursor with
      | (some _, cursor) => (c.take n cursor).2
      | (none, cursor) => cursor := by
  rw [take]
  rcases c.next cursor with ⟨_ | t, cursor'⟩ <;> rfl

theorem holds_take {cursor : Cursor} (h : c.Holds cursor) (n : Nat) :
    c.Holds (c.take n cursor).2 := by
  induction n generalizing cursor with
  | zero => exact h
  | succ n ih =>
    have hholds := c.holds_next cursor
    rw [take_succ]
    rcases hnext : c.next cursor with ⟨_ | t, cursor'⟩ <;> rw [hnext] at hholds
    · exact hholds
    · exact ih hholds

theorem reader_take (n : Nat) (cursor : Cursor) : (c.take n cursor).2.reader = cursor.reader := by
  induction n generalizing cursor with
  | zero => rfl
  | succ n ih =>
    have hreader := c.reader_next cursor
    rw [take_succ]
    rcases hnext : c.next cursor with ⟨_ | t, cursor'⟩ <;> rw [hnext] at hreader
    · exact hreader
    · exact (ih cursor').trans hreader

end Holds

/-! ## What cursors yield of kept versions -/

namespace Keeps

variable {v : Nat} {c c' : Content} {k : ChainKind} {i : Nat} {cursor : Cursor}

theorem tripleAt_eq (h : Keeps v c c') (hi : i < c.nodes.size) : c'.tripleAt i = c.tripleAt i := by
  obtain ⟨t, ht⟩ := exists_tripleAt_of_lt hi
  rw [ht, h.tripleAt i t ht]

theorem size_le (h : Keeps v c c') : c.nodes.size ≤ c'.nodes.size := by
  by_contra hlt
  obtain ⟨t, ht⟩ := exists_tripleAt_of_lt (Nat.lt_of_not_le hlt)
  exact Nat.lt_irrefl _ (lt_size_of_tripleAt (h.tripleAt _ t ht))

/-- The links of the old nodes stay, since they follow from the triples of the nodes before. -/
theorem previous (h : Keeps v c c') (hc : c.WellFormed) (hc' : c'.WellFormed)
    (hi : i < c.nodes.size) : c'.previous k i = c.previous k i := by
  cases k with
  | all => rw [hc.previous_all hi, hc'.previous_all (Nat.lt_of_lt_of_le hi h.size_le)]
  | sharing p =>
    obtain ⟨t, ht⟩ := exists_tripleAt_of_lt hi
    have hterm : c.hasTerm p (t.termAt p) i = true := by
      rw [hasTerm_eq, ht]
      exact decide_eq_true rfl
    have hterm' : c'.hasTerm p (t.termAt p) i = true := by
      rw [hasTerm_congr (h.tripleAt_eq hi), hterm]
    rw [hc.previous_sharing hterm, hc'.previous_sharing hterm']
    -- the earlier nodes are old, and old nodes have their old terms
    congr 1
    apply earlier_congr
    intro j hj
    exact hasTerm_congr (h.tripleAt_eq (Nat.lt_trans hj hi)) p _

theorem yielded (h : Keeps v c c') (hv : cursor.reader.version < v) (hi : i < c.nodes.size) :
    c'.yielded cursor i = c.yielded cursor i := by
  have hvisible : c'.isVisible cursor.reader.version i = c.isVisible cursor.reader.version i :=
    h.contains i _ hv
  apply Option.ext
  intro t
  rw [yielded_eq_some, yielded_eq_some, h.tripleAt_eq hi, hvisible]

/-- Nodes added later are invisible. -/
theorem yielded_eq_none (h : Keeps v c c') (hv : cursor.reader.version < v)
    (hi : c.nodes.size ≤ i) : c'.yielded cursor i = none := by
  have hvisible : c'.isVisible cursor.reader.version i = c.isVisible cursor.reader.version i :=
    h.contains i _ hv
  rw [Option.eq_none_iff_forall_ne_some]
  intro t ht
  obtain ⟨-, hsees, -⟩ := yielded_eq_some.1 ht
  rw [hvisible] at hsees
  have hlt := lt_size_of_isVisible hsees
  omega

theorem nextFrom (h : Keeps v c c') (hc : c.WellFormed) (hc' : c'.WellFormed)
    (hv : cursor.reader.version < v) (hi : i < c.nodes.size) :
    c'.nextFrom cursor i = c.nextFrom cursor i := by
  induction i using Nat.strongRecOn with
  | ind i ih =>
    rw [nextFrom_eq, nextFrom_eq, h.yielded hv hi, h.previous hc hc' hi]
    cases c.yielded cursor i with
    | some t => rfl
    | none =>
      simp only
      cases hp : c.previous cursor.chain i with
      | none => rfl
      | some j => exact ih j (previous_lt hp) (lt_size_of_previous hp)

theorem next (h : Keeps v c c') (hc : c.WellFormed) (hc' : c'.WellFormed)
    (hv : cursor.reader.version < v) (hcursor : c.Holds cursor) :
    c'.next cursor = c.next cursor := by
  have hbind : cursor.position.bind (c'.nextFrom cursor) =
      cursor.position.bind (c.nextFrom cursor) := by
    cases hp : cursor.position with
    | none => rfl
    | some i => exact h.nextFrom hc hc' hv (hcursor i hp)
  rw [Content.next, hbind, Content.next]

/-- A cursor yields what it would have yielded before, and moves to the same place. -/
theorem take (h : Keeps v c c') (hc : c.WellFormed) (hc' : c'.WellFormed)
    (hv : cursor.reader.version < v) (hcursor : c.Holds cursor) (n : Nat) :
    c'.take n cursor = c.take n cursor := by
  induction n generalizing cursor with
  | zero => rfl
  | succ n ih =>
    have hholds := c.holds_next cursor
    have hreader := c.reader_next cursor
    rw [Content.take, Content.take, h.next hc hc' hv hcursor]
    rcases hnext : c.next cursor with ⟨_ | t, cursor'⟩
    · rfl
    · rw [hnext] at hholds hreader
      simp only at hreader
      simp only
      rw [ih (by rw [hreader]; exact hv) hholds]

/-- The rest of a cursor is that of before. -/
theorem rest (h : Keeps v c c') (hc : c.WellFormed) (hc' : c'.WellFormed)
    (hv : cursor.reader.version < v) (hcursor : c.Holds cursor) :
    c'.rest cursor = c.rest cursor := by
  -- all beginnings agree, hence so does one that is long enough for both
  have hall : ∀ n, (c'.rest cursor).take n = (c.rest cursor).take n := by
    intro n
    rw [← take_eq, ← take_eq, h.take hc hc' hv hcursor]
  have hlength := hall ((c'.rest cursor).length + (c.rest cursor).length)
  rw [List.take_of_length_le (Nat.le_add_right _ _),
    List.take_of_length_le (Nat.le_add_left _ _)] at hlength
  exact hlength

/-- A query yields the same triples in the same order, even if it takes another chain. -/
theorem matching (h : Keeps v c c') (hc : c.WellFormed) (hc' : c'.WellFormed) {r : Reader}
    (hv : r.version < v) (p : Pattern) : c'.matching r p = c.matching r p := by
  rw [matching_eq hc, matching_eq hc', Content.rest, Content.rest, hc.walk_all, hc'.walk_all]
  -- the walk of the grown index begins with new nodes, and none of them is yielded
  have hnew : ∀ n, c.nodes.size ≤ n →
      (earlier (fun _ => true) n).filterMap (c'.yielded ⟨r, .all, p, c'.last⟩) =
        (earlier (fun _ => true) c.nodes.size).filterMap (c'.yielded ⟨r, .all, p, c'.last⟩) := by
    intro n hn
    induction n, hn using Nat.le_induction with
    | base => rfl
    | succ n hn ih =>
      rw [earlier_succ, if_pos rfl, List.filterMap_cons, h.yielded_eq_none hv hn, ih]
  rw [hnew _ h.size_le]
  apply filterMap_earlier
  intro i hi
  rw [if_pos rfl, if_pos rfl]
  exact h.yielded hv hi

/-- Two indexes that have come from a third by writing later versions agree on the earlier ones. -/
theorem of_common {c₀ : Content} (h : Keeps v c₀ c) (h' : Keeps v c₀ c')
    (ht : ∀ i t, c.tripleAt i = some t → c'.tripleAt i = some t) : Keeps v c c' where
  tripleAt := ht
  contains i w hw := (h'.contains i w hw).trans (h.contains i w hw).symm

end Keeps

end Content

namespace Store

/-! ## What a store keeps for its readers -/

/-- The store `s'` has the indexes of `s`, and they show what they showed of every version before
`v`. -/
structure Keeps (v : Nat) (s s' : Store) : Prop where
  generation_le : s.generation ≤ s'.generation
  content : ∀ g ≤ s.generation, Content.Keeps v (s.contentOf g) (s'.contentOf g)

namespace Keeps

variable {v w : Nat} {s s' s'' : Store}

theorem refl (v : Nat) (s : Store) : Keeps v s s :=
  ⟨Nat.le_refl _, fun g _ => Content.Keeps.refl v (s.contentOf g)⟩

theorem trans (h : Keeps v s s') (h' : Keeps v s' s'') : Keeps v s s'' where
  generation_le := Nat.le_trans h.generation_le h'.generation_le
  content g hg := (h.content g hg).trans (h'.content g (Nat.le_trans hg h.generation_le))

theorem mono (h : Keeps v s s') (hw : w ≤ v) : Keeps w s s' :=
  ⟨h.generation_le, fun g hg => (h.content g hg).mono hw⟩

theorem of_past_eq (hp : s'.past = s.past) (h : Content.Keeps v s.content s'.content) :
    Keeps v s s' where
  generation_le := by rw [generation, generation, hp]
  content g hg := by
    rcases Nat.lt_or_eq_of_le hg with hg | rfl
    · rw [contentOf_of_past_eq hp hg]
      exact Content.Keeps.refl v _
    · have hgeneration : s.generation = s'.generation := by rw [generation, generation, hp]
      rw [contentOf_generation, hgeneration, contentOf_generation]
      exact h

/-- A new index leaves the readers of the earlier ones what they have. -/
theorem of_past_push (hp : s'.past = s.past.push s.content) : Keeps v s s' where
  generation_le := by
    rw [generation, generation, hp, Array.size_push]
    exact Nat.le_succ _
  content g hg := by
    rw [contentOf_of_past_push hp hg]
    exact Content.Keeps.refl v _

theorem compactIfNeeded (v : Nat) (s : Store) : Keeps v s s.compactIfNeeded := by
  rw [Store.compactIfNeeded]
  split
  · exact refl v s
  · exact of_past_push rfl

section Reads

variable {r : Reader}

/-- A reader that sees an old version goes on seeing it. -/
theorem view (h : Keeps v s s') (hs : s.WellFormed) (hs' : s'.WellFormed)
    (hg : r.generation ≤ s.generation) (hv : r.version < v) :
    (s'.contentOf r.generation).view r.version = (s.contentOf r.generation).view r.version :=
  (h.content r.generation hg).view (hs _) (hs' _) hv

theorem contains (h : Keeps v s s') (hs : s.WellFormed) (hs' : s'.WellFormed)
    (hg : r.generation ≤ s.generation) (hv : r.version < v) (t : Triple) :
    s'.contains r t = s.contains r t := by
  rw [(hs'.shows r).contains, (hs.shows r).contains, h.view hs hs' hg hv]

theorem count (h : Keeps v s s') (hs : s.WellFormed) (hs' : s'.WellFormed)
    (hg : r.generation ≤ s.generation) (hv : r.version < v) : s'.count r = s.count r := by
  rw [(hs'.shows r).count, (hs.shows r).count, h.view hs hs' hg hv]

theorem seesNothing (h : Keeps v s s') (hs : s.WellFormed) (hs' : s'.WellFormed)
    (hg : r.generation ≤ s.generation) (hv : r.version < v) :
    s'.seesNothing r = s.seesNothing r := by
  rw [(hs'.shows r).seesNothing, (hs.shows r).seesNothing, h.view hs hs' hg hv]

theorem matching (h : Keeps v s s') (hs : s.WellFormed) (hs' : s'.WellFormed)
    (hg : r.generation ≤ s.generation) (hv : r.version < v) (p : Pattern) :
    s'.matching r p = s.matching r p :=
  (h.content r.generation hg).matching (hs _) (hs' _) hv p

end Reads

end Keeps

/-! ## What runs keep -/

section Moves

variable {s : Store} {x x' : Transaction} {l : BulkLoad}

/-- Steps of a transaction leave all versions before its number. -/
theorem keeps_moves (h : Transaction.Running s x) (hm : Transaction.Moves x x') :
    Keeps x.number x.store x'.store := by
  have h' := h.moves hm
  have hkeeps' := h'.evolves.keeps h'.below
  rw [hm.number_eq] at hkeeps'
  apply Keeps.of_past_eq
  · rw [hm.store_eq]
  · exact (h.evolves.keeps h.below).of_common hkeeps' fun i t ht => hm.tripleAt ht

/-- The end of a transaction leaves all versions published before. -/
theorem keeps_commit (h : Transaction.Running s x) : Keeps (s.version + 1) x.store x.commit := by
  have hevolves := h.evolves.upgraded h.below (s.version + 1)
  -- before and after the upgrade, old versions show what the index showed at the beginning
  have hkeeps := (h.evolves.keeps h.below).mono h.version_lt_number
  have htriples : ∀ i t, x.store.content.tripleAt i = some t →
      (x.store.content.upgraded x.number (s.version + 1)).tripleAt i = some t := by
    intro i t ht
    rw [Content.upgraded, Content.tripleAt_withRanges, ht]
  have hcommitted : Keeps (s.version + 1) x.store x.committed := by
    have hpast : x.committed.past = x.store.past := rfl
    apply Keeps.of_past_eq hpast
    rw [h.committed_eq]
    exact hkeeps.of_common (hevolves.keeps h.sound.below) htriples
  exact hcommitted.trans (Keeps.compactIfNeeded _ x.committed)

theorem keeps_abort (h : Transaction.Running s x) : Keeps (s.version + 1) x.store x.abort := by
  have hkeeps := (h.evolves.keeps h.below).mono h.version_lt_number
  have htriples : ∀ i t, x.store.content.tripleAt i = some t →
      (x.store.content.rolledBack x.number).tripleAt i = some t := by
    intro i t ht
    rw [Content.rolledBack, Content.tripleAt_withRanges, ht]
  have haborted : Keeps (s.version + 1) x.store x.aborted := by
    have hpast : x.aborted.past = x.store.past := rfl
    apply Keeps.of_past_eq hpast
    rw [h.aborted_eq]
    exact hkeeps.of_common (h.evolves.keeps_rolledBack h.below _) htriples
  exact haborted.trans (Keeps.compactIfNeeded _ x.aborted)

/-- A load leaves all versions published before. -/
theorem keeps_add (h : BulkLoad.Loading s l) (t : Triple) :
    Keeps (s.version + 1) l.store (l.add t).store := by
  have h' := (h.add t).1
  refine Keeps.of_past_eq rfl ?_
  refine (h.evolves.keeps h.sound.below).of_common (h'.evolves.keeps h'.sound.below) ?_
  intro i u hu
  rw [BulkLoad.store_add]
  show (l.store.content.insert t (l.store.version + 1)).2.tripleAt i = some u
  rcases Content.insert_cases h.evolves.wellFormed t (l.store.version + 1) with
    ⟨j, -, -, hj⟩ | ⟨j, c, -, hw, hj⟩
  · rw [hj]
    exact hu
  · rw [hj]
    exact hw.tripleAt hu

end Moves

namespace State

variable {k : Nat} {σ : State}

/-- Every event keeps the published version and all before it, and publishes later ones only. -/
theorem Valid.keeps_after (h : Valid k σ) (e : Event) :
    Keeps (σ.store.version + 1) σ.store (σ.after e).store ∧
      σ.store.version ≤ (σ.after e).store.version := by
  revert h
  apply after_cases (P := fun σ e σ' => Valid k σ →
    Keeps (σ.store.version + 1) σ.store σ'.store ∧ σ.store.version ≤ σ'.store.version)
  case begin =>
    intro s _
    exact ⟨.of_past_eq rfl (Content.Keeps.refl _ _), Nat.le_refl _⟩
  case startLoad =>
    intro s hooks _
    exact ⟨.refl _ _, Nat.le_refl _⟩
  case clear =>
    intro s _
    exact ⟨.of_past_push rfl, Nat.le_succ _⟩
  case perform =>
    intro x step hvalid
    cases hvalid with
    | writing h _ =>
      have hm := Transaction.moves_perform h.evolves.wellFormed step
      have hversion : x.store.version + 1 ≤ x.number := by
        rw [h.store_eq]
        exact h.version_lt_number
      refine ⟨(keeps_moves h hm).mono hversion, ?_⟩
      show x.store.version ≤ (x.perform step).2.store.version
      rw [hm.store_eq]
  case commit =>
    intro x hvalid
    cases hvalid with
    | @writing s _ h _ =>
      have hversion : x.store.version = s.version := by rw [h.store_eq]
      show Keeps (x.store.version + 1) x.store x.commit ∧ x.store.version ≤ x.commit.version
      rw [hversion, h.commit.version_eq]
      exact ⟨keeps_commit h, Nat.le_succ _⟩
  case abort =>
    intro x hvalid
    cases hvalid with
    | @writing s _ h _ =>
      have hversion : x.store.version = s.version := by rw [h.store_eq]
      show Keeps (x.store.version + 1) x.store x.abort ∧ x.store.version ≤ x.abort.version
      rw [hversion, h.abort.version_eq]
      exact ⟨keeps_abort h, Nat.le_refl _⟩
  case load =>
    intro l t hvalid
    cases hvalid with
    | loading h _ =>
      refine ⟨?_, Nat.le_refl _⟩
      show Keeps (l.store.version + 1) l.store (l.add t).store
      rw [h.version_eq]
      exact keeps_add h t
  case finishLoad =>
    intro l _
    exact ⟨.of_past_eq rfl (Content.Keeps.refl _ _), Nat.le_succ _⟩
  case wait =>
    intro σ e _
    exact ⟨.refl _ _, Nat.le_refl _⟩

/-- Every run keeps the version published at its start and all before it. -/
theorem Valid.keeps_run (h : Valid k σ) (es : List Event)
    (hk : k + es.countP Event.isStart < transactionBase) :
    Keeps (σ.store.version + 1) σ.store (σ.run es).store ∧
      σ.store.version ≤ (σ.run es).store.version := by
  refine h.run_induction (P := fun σ' => Keeps (σ.store.version + 1) σ.store σ'.store ∧
    σ.store.version ≤ σ'.store.version) ?_ ⟨.refl _ _, Nat.le_refl _⟩ es hk
  -- a later event keeps a later version, and with it the earlier one
  intro k' σ' e hvalid ⟨hkeeps, hversion⟩
  obtain ⟨hkeeps', hversion'⟩ := hvalid.keeps_after e
  exact ⟨hkeeps.trans (hkeeps'.mono (Nat.succ_le_succ hversion)), Nat.le_trans hversion hversion'⟩

end State

/-- A snapshot shows the triples of its moment at all later moments of a run. -/
theorem State.shows_snapshot_of_run (before later : List Event)
    (hk : (before ++ later).countP Event.isStart < transactionBase) :
    let σ := State.initial.run before
    (State.initial.run (before ++ later)).store.Shows σ.store.snapshot σ.store.triples := by
  intro σ
  rw [List.countP_append] at hk
  have hvalid : σ.Valid (0 + before.countP Event.isStart) :=
    State.valid_initial.run before (by omega)
  obtain ⟨hkeeps, -⟩ := hvalid.keeps_run later (by omega)
  have hs : σ.store.WellFormed := wellFormed_run before
  have hs' : (σ.run later).store.WellFormed := hs.run later
  have hview := hkeeps.view hs hs' (r := σ.store.snapshot) (Nat.le_refl _) (Nat.lt_succ_self _)
  have hshows := hs'.shows σ.store.snapshot
  rw [hview, show σ.store.snapshot.generation = σ.store.generation from rfl,
    contentOf_generation] at hshows
  rw [State.run_append, triples_eq hs]
  exact hshows

/-! ## Snapshots and their cursors -/

/-- A cursor over the triples that match `p` in the snapshot of the state `σ`, as it is held after
the events `es`, with the triples `ts` that it has yielded by then. It may have been opened at once
or later, and moved at any time. -/
inductive Held (σ : State) (p : Pattern) : List Event → List Triple → Cursor → Prop
  | opened (es : List Event) :
    Held σ p es [] ((σ.run es).store.query σ.store.snapshot p)
  | moved {es : List Event} {ts : List Triple} {cursor : Cursor} (h : Held σ p es ts cursor)
    (n : Nat) : Held σ p es (ts ++ ((σ.run es).store.take n cursor).1)
      ((σ.run es).store.take n cursor).2
  | kept {es : List Event} {ts : List Triple} {cursor : Cursor} (h : Held σ p es ts cursor)
    (e : Event) : Held σ p (es ++ [e]) ts cursor

section Isolation

variable {k : Nat} {σ : State} {p : Pattern} {es : List Event} {ts : List Triple} {cursor : Cursor}

/-- What later events keep of what a snapshot sees after the events `es`. -/
theorem State.Valid.keeps_snapshot (h : σ.Valid k) (es es' : List Event)
    (hk : k + (es ++ es').countP Event.isStart < transactionBase) :
    Content.Keeps (σ.store.version + 1) ((σ.run es).store.contentOf σ.store.generation)
      ((σ.run (es ++ es')).store.contentOf σ.store.generation) := by
  rw [List.countP_append] at hk
  obtain ⟨hkeeps, hversion⟩ := h.keeps_run es (by omega)
  -- later events keep the version that is published by then, and with it the earlier one
  obtain ⟨hkeeps', -⟩ := (h.run es (by omega)).keeps_run es' (by omega)
  rw [State.run_append]
  exact (hkeeps'.content _ hkeeps.generation_le).mono (Nat.succ_le_succ hversion)

/-- A held cursor stands at a node of the index of its snapshot, and what it has yielded and what it
will yield make up the triples that match in the snapshot. -/
theorem Held.accounted (hc : Held σ p es ts cursor) (hσ : σ.store.WellFormed) (h : σ.Valid k)
    (hk : k + es.countP Event.isStart < transactionBase) :
    let c := (σ.run es).store.contentOf σ.store.generation
    cursor.reader = σ.store.snapshot ∧ c.Holds cursor ∧
      ts ++ c.rest cursor = σ.store.matching σ.store.snapshot p := by
  induction hc with
  | opened es =>
    have hkeeps := h.keeps_snapshot [] es hk
    refine ⟨reader_query _ _ _, Content.holds_query (hσ.run es _) _ p, ?_⟩
    rw [List.nil_append]
    exact hkeeps.matching (hσ _) (hσ.run es _) (Nat.lt_succ_self _) p
  | @moved es ts cursor _ n ih =>
    obtain ⟨hreader, hholds, hrest⟩ := ih hk
    have hgeneration : cursor.reader.generation = σ.store.generation := by rw [hreader]; rfl
    rw [Store.take, hgeneration]
    refine ⟨(Content.reader_take n cursor).trans hreader, Content.holds_take hholds n, ?_⟩
    -- what the cursor moves over goes from the rest to what it has yielded
    rw [Content.take_eq, Content.rest_take, List.append_assoc, List.take_append_drop, hrest]
  | @kept es ts cursor _ e ih =>
    have hk' : k + es.countP Event.isStart < transactionBase := by
      rw [List.countP_append] at hk
      omega
    obtain ⟨hreader, hholds, hrest⟩ := ih hk'
    have hkeeps := h.keeps_snapshot es [e] hk
    have hversion : cursor.reader.version < σ.store.version + 1 := by
      rw [hreader]
      exact Nat.lt_succ_self _
    refine ⟨hreader, fun i hi => Nat.lt_of_lt_of_le (hholds i hi) hkeeps.size_le, ?_⟩
    rw [hkeeps.rest (hσ.run es _) (hσ.run (es ++ [e]) _) hversion hholds, hrest]

/-- What a held cursor yields next does not depend on later events. -/
theorem Held.unaffected (hc : Held σ p es ts cursor) (hσ : σ.store.WellFormed) (h : σ.Valid k)
    (later : List Event) (hk : k + (es ++ later).countP Event.isStart < transactionBase) :
    (σ.run (es ++ later)).store.rest cursor = (σ.run es).store.rest cursor ∧
      ∀ n, (σ.run (es ++ later)).store.take n cursor = (σ.run es).store.take n cursor := by
  have hes : k + es.countP Event.isStart < transactionBase := by
    rw [List.countP_append] at hk
    omega
  obtain ⟨hreader, hholds, -⟩ := hc.accounted hσ h hes
  have hkeeps := h.keeps_snapshot es later hk
  have hversion : cursor.reader.version < σ.store.version + 1 := by
    rw [hreader]
    exact Nat.lt_succ_self _
  have hgeneration : cursor.reader.generation = σ.store.generation := by rw [hreader]; rfl
  rw [Store.rest, Store.rest, hgeneration]
  refine ⟨hkeeps.rest (hσ.run es _) (hσ.run (es ++ later) _) hversion hholds, fun n => ?_⟩
  rw [Store.take, Store.take, hgeneration]
  exact hkeeps.take (hσ.run es _) (hσ.run (es ++ later) _) hversion hholds n

end Isolation

/-- Whatever happens after a snapshot was taken, it shows the triples of that moment. A cursor that
was opened from it at any time, and moved any number of times, has yielded and will yield exactly
the triples that matched then, and what comes next does not depend on what happens in between. -/
theorem snapshot_isolation (before between later : List Event)
    (hk : (before ++ between ++ later).countP Event.isStart < 2 ^ 62) :
    let σ := State.initial.run before
    let s := σ.store
    let s₁ := (σ.run between).store
    let s₂ := (σ.run (between ++ later)).store
    ((∀ t, s₁.contains s.snapshot t = s.contains s.snapshot t) ∧
      s₁.count s.snapshot = s.count s.snapshot ∧
      s₁.seesNothing s.snapshot = s.seesNothing s.snapshot ∧
      ∀ p, s₁.matching s.snapshot p = s.matching s.snapshot p) ∧
    ∀ p ts cursor, Held σ p between ts cursor →
      ts ++ s₁.rest cursor = s.matching s.snapshot p ∧
      s₂.rest cursor = s₁.rest cursor ∧ ∀ n, s₂.take n cursor = s₁.take n cursor := by
  intro σ s s₁ s₂
  have hbase : 2 ^ 62 ≤ transactionBase := by decide
  rw [List.append_assoc, List.countP_append] at hk
  have hvalid : σ.Valid (0 + before.countP Event.isStart) :=
    State.valid_initial.run before (by omega)
  have hall : 0 + before.countP Event.isStart + (between ++ later).countP Event.isStart <
      transactionBase := by omega
  have hbetween : 0 + before.countP Event.isStart + between.countP Event.isStart <
      transactionBase := by
    rw [List.countP_append] at hall
    omega
  have hs : s.WellFormed := wellFormed_run before
  have hs₁ : s₁.WellFormed := hs.run between
  obtain ⟨hkeeps, -⟩ := hvalid.keeps_run between hbetween
  have hversion : s.snapshot.version < s.version + 1 := Nat.lt_succ_self _
  have hgeneration : s.snapshot.generation ≤ s.generation := Nat.le_refl _
  refine ⟨⟨hkeeps.contains hs hs₁ hgeneration hversion, hkeeps.count hs hs₁ hgeneration hversion,
    hkeeps.seesNothing hs hs₁ hgeneration hversion, hkeeps.matching hs hs₁ hgeneration hversion⟩,
    fun p ts cursor hc => ?_⟩
  obtain ⟨hreader, -, hrest⟩ := hc.accounted hs hvalid hbetween
  refine ⟨?_, hc.unaffected hs hvalid later hall⟩
  rw [Store.rest, hreader]
  exact hrest

theorem snapshot_isolation_of_removed :
    let σ := State.initial.run [.begin, .perform (.insert default), .commit]
    (σ.run [.begin, .perform (.remove default)]).store.contains σ.store.snapshot default =
      σ.store.contains σ.store.snapshot default := by
  intro σ
  obtain ⟨⟨hcontains, -⟩, -⟩ := snapshot_isolation [.begin, .perform (.insert default), .commit]
    [.begin, .perform (.remove default)] [.commit] (by decide)
  exact hcontains default

end Store
end Rdf
