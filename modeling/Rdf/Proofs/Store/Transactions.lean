import Rdf.Proofs.Store.Writing
import Mathlib.Data.Finset.Basic
import Mathlib.Logic.Relation

/-!
# Running transactions

A transaction is followed from the store that it was begun at. `Running` relates the two at every
moment: the index has evolved by single changes under the transaction's number, every node that
carries the number is logged, and the log counts what the set of triples has gained and lost. Main
statements:

* `Running.move`: single changes keep this relation;
* `Running.insert`, `Running.remove`, `Running.extend`, `Running.removeMatching`, `Running.clear`:
  every operation of a transaction answers and acts as it would on a plain set.
-/

namespace Rdf

@[simp] theorem Store.contentOf_generation (s : Store) : s.contentOf s.generation = s.content := by
  rw [contentOf, generation, Array.getElem?_eq_none (Nat.le_refl _), Option.getD_none]

/-- Between operations the bounds are at most the published version, and the published size is the
number of its triples. -/
structure Store.Sound (s : Store) : Prop where
  wellFormed : s.content.WellFormed
  below : s.content.Below (s.version + 1)
  size_eq : s.size = (s.content.view s.version).card

namespace Transaction

open Content (Write Evolves)

/-- The triples as this transaction has left them so far. -/
def view (x : Transaction) : Finset Triple := x.store.content.view x.number

/-- The transaction after a logged change of its index. -/
def changed (x : Transaction) (e : Change) (c : Content) : Transaction :=
  ⟨⟨x.store.past, c, x.store.version, x.store.size, x.store.started⟩, x.number, e :: x.log⟩

/-- A single logged change. -/
inductive Move (x : Transaction) : Transaction → Prop
  | mk {e : Change} {c : Content} (hw : Write x.number x.store.content e c) : Move x (x.changed e c)

/-- Any number of single changes. -/
abbrev Moves : Transaction → Transaction → Prop := Relation.ReflTransGen Move

/-! ## Single changes -/

section Moves

variable {x x' : Transaction}

/-- Changes touch nothing but the index and the log. -/
theorem Moves.store_eq (h : Moves x x') : x'.store =
    ⟨x.store.past, x'.store.content, x.store.version, x.store.size, x.store.started⟩ := by
  induction h with
  | refl => rfl
  | @tail y z _ hm ih =>
    obtain ⟨hw⟩ := hm
    rename_i e c
    exact congrArg (fun s => (⟨s.past, c, s.version, s.size, s.started⟩ : Store)) ih

theorem Moves.number_eq (h : Moves x x') : x'.number = x.number := by
  induction h with
  | refl => rfl
  | tail _ hm ih =>
    obtain ⟨hw⟩ := hm
    exact ih

/-- The nodes of the index keep their triples. -/
theorem Moves.tripleAt (h : Moves x x') {i : Nat} {t : Triple}
    (ht : x.store.content.tripleAt i = some t) : x'.store.content.tripleAt i = some t := by
  induction h with
  | refl => exact ht
  | tail _ hm ih =>
    obtain ⟨hw⟩ := hm
    exact hw.tripleAt ih

theorem Moves.wellFormed (h : Moves x x') (hx : x.store.content.WellFormed) :
    x'.store.content.WellFormed := by
  induction h with
  | refl => exact hx
  | tail _ hm ih =>
    obtain ⟨hw⟩ := hm
    exact hw.wellFormed ih

/-- An operation that changes nothing leaves the transaction as it is. -/
theorem apply_none {change : Content → Option Nat × Content} {entry : Nat → Change}
    (h : change x.store.content = (none, x.store.content)) : x.apply change entry = (false, x) := by
  rcases x with ⟨⟨past, content, version, size, started⟩, number, log⟩
  simp only at h
  rw [apply, h]

theorem apply_some {change : Content → Option Nat × Content} {entry : Nat → Change} {i : Nat}
    {c : Content} (h : change x.store.content = (some i, c)) :
    x.apply change entry = (true, x.changed (entry i) c) := by
  rcases x with ⟨⟨past, content, version, size, started⟩, number, log⟩
  simp only at h
  rw [apply, h]
  rfl

/-- Only what a change does to the actual index counts. -/
theorem apply_congr {change change' : Content → Option Nat × Content} {entry : Nat → Change}
    (h : change x.store.content = change' x.store.content) :
    x.apply change entry = x.apply change' entry := by
  rcases x with ⟨⟨past, content, version, size, started⟩, number, log⟩
  simp only at h
  rw [apply, apply, h]

theorem moves_insert (h : x.store.content.WellFormed) (t : Triple) : Moves x (x.insert t).2 := by
  rcases Content.insert_cases h t x.number with ⟨i, -, -, hi⟩ | ⟨i, c, -, hw, hi⟩
  · rw [Transaction.insert, apply_none hi]
  · rw [Transaction.insert, apply_some hi]
    exact .single ⟨hw⟩

theorem moves_removeNode (x : Transaction) (i : Nat) :
    Moves x (x.apply (·.removeNode i x.number) .removed).2 := by
  rcases Content.removeNode_cases x.store.content i x.number with ⟨-, hi⟩ | ⟨c, -, hw, hi⟩
  · rw [apply_none hi]
  · rw [apply_some hi]
    exact .single ⟨hw⟩

theorem remove_of_index {t : Triple} {i : Nat} (hi : x.store.content.index[t]? = some i) :
    x.remove t = x.apply (·.removeNode i x.number) .removed := by
  rw [Transaction.remove]
  apply apply_congr
  show x.store.content.remove t x.number = _
  rw [Content.remove, hi]

theorem remove_of_index_none {t : Triple} (hi : x.store.content.index[t]? = none) :
    x.remove t = (false, x) := by
  rw [Transaction.remove]
  apply apply_none
  rw [Content.remove, hi]

theorem moves_remove (x : Transaction) (t : Triple) : Moves x (x.remove t).2 := by
  cases hi : x.store.content.index[t]? with
  | none =>
    rw [remove_of_index_none hi]
  | some i =>
    rw [remove_of_index hi]
    exact moves_removeNode x i

theorem countEffects_cons {α : Type} (step : Transaction → α → Bool × Transaction)
    (x : Transaction) (a : α) (as : List α) (n : Nat) :
    countEffects step x (a :: as) n =
      countEffects step (step x a).2 as (if (step x a).1 then n + 1 else n) := by
  rw [countEffects]
  rcases step x a with ⟨_ | _, x'⟩ <;> rfl

/-- What every step does, many steps do. -/
theorem countEffects_induction {α : Type} {step : Transaction → α → Bool × Transaction}
    {P : Transaction → Prop} (hstep : ∀ x a, P x → P (step x a).2) (as : List α) (hx : P x)
    (n : Nat) : P (countEffects step x as n).2 := by
  induction as generalizing x n with
  | nil => exact hx
  | cons a as ih =>
    rw [countEffects_cons]
    exact ih (hstep x a hx) _

theorem moves_extend (h : x.store.content.WellFormed) (ts : List Triple) :
    Moves x (x.extend ts).2 :=
  countEffects_induction (P := Moves x)
    (fun _ t hy => hy.trans (moves_insert (hy.wellFormed h) t)) ts .refl 0

theorem moves_removeMatching (x : Transaction) (p : Pattern) : Moves x (x.removeMatching p).2 :=
  countEffects_induction (P := Moves x) (fun y t hy => hy.trans (moves_remove y t)) _ .refl 0

theorem moves_clear (x : Transaction) : Moves x x.clear := by
  apply countEffects_induction (P := Moves x) _ _ .refl
  -- the number that the loop goes on with is still that of the transaction
  intro y node hy
  rw [← hy.number_eq]
  exact hy.trans (moves_removeNode y node)

end Moves

/-! ## The invariant of a running transaction -/

/-- The transaction `x` was begun at the store `s`. -/
structure Running (s : Store) (x : Transaction) : Prop where
  sound : s.Sound
  version_lt : s.version < Store.transactionBase
  number_eq : x.number = Store.transactionBase + (s.started + 1)
  store_eq : x.store = ⟨s.past, x.store.content, s.version, s.size, s.started + 1⟩
  evolves : Evolves x.number s.content x.store.content
  logged : ∀ i, (x.store.content.rangeOf i).last? = some x.number → i ∈ x.log.map Change.node
  counted : x.view.card + x.log.countP (!·.isInsertion) = s.size + x.log.countP Change.isInsertion

section Running

variable {s : Store} {x x' : Transaction}

/-- A version is smaller than the number of every transaction begun at it. -/
theorem version_lt_number (hv : s.version < Store.transactionBase) :
    s.version < s.begin.number := by
  show s.version < Store.transactionBase + (s.started + 1)
  omega

/-- A transaction begins with the triples of the published version. -/
theorem view_begin (hs : s.Sound) (hv : s.version < Store.transactionBase) :
    s.begin.view = s.content.view s.version :=
  Content.view_of_below hs.below (Nat.le_of_lt (version_lt_number hv))

theorem running_begin (hs : s.Sound) (hv : s.version < Store.transactionBase) :
    Running s s.begin where
  sound := hs
  version_lt := hv
  number_eq := rfl
  store_eq := rfl
  evolves := Evolves.refl hs.wellFormed _
  logged i hi := by
    have hlt := version_lt_number hv
    exact absurd hi ((hs.below i).last?_ne hlt)
  counted := by
    rw [view_begin hs hv, ← hs.size_eq]
    rfl

theorem Running.version_lt_number (h : Running s x) : s.version < x.number := by
  have hv := h.version_lt
  rw [h.number_eq]
  omega

/-- All bounds that the transaction found are smaller than its number. -/
theorem Running.below (h : Running s x) : s.content.Below x.number :=
  h.sound.below.mono h.version_lt_number

/-- Whatever the transaction has done, the published version has its old triples. -/
theorem Running.view_published (h : Running s x) :
    x.store.content.view s.version = s.content.view s.version :=
  (h.evolves.keeps h.below).view h.sound.wellFormed h.evolves.wellFormed h.version_lt_number

/-- A single change keeps the invariant. -/
theorem Running.move (h : Running s x) (hm : Move x x') : Running s x' := by
  have hb := h.below
  obtain ⟨hw⟩ := hm
  rename_i e c
  refine ⟨h.sound, h.version_lt, h.number_eq, ?_, h.evolves.write hb hw, fun i hi => ?_, ?_⟩
  · have hstore := h.store_eq
    exact congrArg (fun s => (⟨s.past, c, s.version, s.size, s.started⟩ : Store)) hstore
  · -- the changed node is logged first, and the others have the bounds that they had
    show i ∈ e.node :: x.log.map Change.node
    by_cases hie : i = e.node
    · rw [hie]
      exact List.mem_cons_self
    · apply List.mem_cons_of_mem
      apply h.logged
      rw [← hw.rangeOf_of_ne hie]
      exact hi
  · -- an insertion adds one to both sides, and so does a removal, as it takes a triple away
    have hcounted := h.counted
    obtain ⟨t, ht⟩ := hw.exists_tripleAt
    show (c.view x.number).card + (e :: x.log).countP _ = s.size + (e :: x.log).countP _
    rw [List.countP_cons, List.countP_cons]
    cases e with
    | inserted i =>
      obtain ⟨hmem, hview⟩ := h.evolves.view_inserted hb hw ht
      have hkind : (Change.inserted i).isInsertion = true := rfl
      rw [hview, Finset.card_insert_of_notMem hmem]
      simp only [hkind, Bool.not_true, Bool.false_eq_true, if_false, if_true]
      rw [view] at hcounted
      omega
    | removed i =>
      obtain ⟨hmem, hview⟩ := h.evolves.view_removed hb hw ht
      have hpos := Finset.card_pos.2 ⟨t, hmem⟩
      have hkind : (Change.removed i).isInsertion = false := rfl
      rw [hview, Finset.card_erase_of_mem hmem]
      simp only [hkind, Bool.not_false, Bool.false_eq_true, if_false, if_true]
      rw [view] at hcounted
      omega

theorem Running.moves (h : Running s x) (hm : Moves x x') : Running s x' := by
  induction hm with
  | refl => exact h
  | tail _ hm ih => exact ih.move hm

end Running

/-! ## What operations answer -/

section Operations

variable {s : Store} {x : Transaction}

theorem Running.insert (h : Running s x) (t : Triple) :
    (x.insert t).1 = decide (t ∉ x.view) ∧ (x.insert t).2.view = Insert.insert t x.view := by
  obtain ⟨-, hanswer, hview⟩ := h.evolves.insert h.below t
  rcases Content.insert_cases h.evolves.wellFormed t x.number with ⟨i, -, -, hi⟩ | ⟨i, c, -, -, hi⟩
  · rw [hi] at hanswer hview
    rw [Transaction.insert, apply_none hi]
    exact ⟨hanswer, hview⟩
  · rw [hi] at hanswer hview
    rw [Transaction.insert, apply_some hi]
    exact ⟨hanswer, hview⟩

theorem Running.removeNode (h : Running s x) {i : Nat} {t : Triple}
    (ht : x.store.content.tripleAt i = some t) :
    let step := x.apply (·.removeNode i x.number) .removed
    step.1 = decide (t ∈ x.view) ∧ step.2.view = x.view.erase t := by
  have hwf := h.evolves.wellFormed
  rcases Content.removeNode_cases x.store.content i x.number with ⟨hp, hi⟩ | ⟨c, hc, hw, hi⟩
  · -- the number sees what is present after the last change
    have hmem : t ∉ x.view := by
      rw [view, Content.mem_view, Content.contains_of_tripleAt hwf ht,
        h.evolves.isVisible_eq h.below, hp]
      exact Bool.false_ne_true
    rw [apply_none hi]
    exact ⟨by simp [hmem], (Finset.erase_eq_of_notMem hmem).symm⟩
  · rw [ht] at hc
    obtain ⟨hmem, hview⟩ := h.evolves.view_removed h.below hw hc
    rw [apply_some hi]
    exact ⟨(decide_eq_true hmem).symm, hview⟩

theorem Running.remove (h : Running s x) (t : Triple) :
    (x.remove t).1 = decide (t ∈ x.view) ∧ (x.remove t).2.view = x.view.erase t := by
  cases hi : x.store.content.index[t]? with
  | none =>
    have hmem : t ∉ x.view := by
      rw [view, Content.mem_view, Content.contains, hi]
      exact Bool.false_ne_true
    rw [remove_of_index_none hi]
    exact ⟨by simp [hmem], (Finset.erase_eq_of_notMem hmem).symm⟩
  | some i =>
    rw [remove_of_index hi]
    exact h.removeNode ((h.evolves.wellFormed.indexed t i).1 hi)

theorem Running.countEffects_insert (h : Running s x) (ts : List Triple) (n : Nat) :
    let done := countEffects Transaction.insert x ts n
    done.1 + x.view.card = n + done.2.view.card ∧ done.2.view = x.view ∪ ts.toFinset := by
  induction ts generalizing x n with
  | nil => exact ⟨rfl, by rw [List.toFinset_nil, Finset.union_empty]; rfl⟩
  | cons t ts ih =>
    obtain ⟨hb, hview⟩ := h.insert t
    have hnext := h.moves (moves_insert h.evolves.wellFormed t)
    obtain ⟨hcount, hview'⟩ := ih hnext (if (x.insert t).1 then n + 1 else n)
    simp only at hcount hview' ⊢
    rw [countEffects_cons]
    refine ⟨?_, ?_⟩
    · rw [hview, hb] at hcount
      rw [hb]
      by_cases ht : t ∈ x.view
      · simp only [ht, not_true_eq_false, decide_false, Bool.false_eq_true, if_false,
          Finset.insert_eq_of_mem] at hcount ⊢
        exact hcount
      · simp only [ht, not_false_eq_true, decide_true, if_true,
          Finset.card_insert_of_notMem] at hcount ⊢
        omega
    · rw [hview', hview, List.toFinset_cons, Finset.insert_union, Finset.union_insert]

theorem Running.countEffects_remove (h : Running s x) (ts : List Triple) (n : Nat) :
    let done := countEffects Transaction.remove x ts n
    done.1 + done.2.view.card = n + x.view.card ∧ done.2.view = x.view \ ts.toFinset := by
  induction ts generalizing x n with
  | nil => exact ⟨rfl, by rw [List.toFinset_nil, Finset.sdiff_empty]; rfl⟩
  | cons t ts ih =>
    obtain ⟨hb, hview⟩ := h.remove t
    obtain ⟨hcount, hview'⟩ :=
      ih (h.moves (moves_remove x t)) (if (x.remove t).1 then n + 1 else n)
    simp only at hcount hview' ⊢
    rw [countEffects_cons]
    refine ⟨?_, ?_⟩
    · rw [hview, hb] at hcount
      rw [hb]
      by_cases ht : t ∈ x.view
      · have hpos := Finset.card_pos.2 ⟨t, ht⟩
        simp only [ht, decide_true, if_true, Finset.card_erase_of_mem] at hcount ⊢
        omega
      · simp only [ht, decide_false, Bool.false_eq_true, if_false, not_false_eq_true,
          Finset.erase_eq_of_notMem] at hcount ⊢
        exact hcount
    · rw [hview', hview, List.toFinset_cons, Finset.sdiff_insert, Finset.erase_sdiff_comm]

/-- Removing nodes leaves the triples of the other nodes. -/
theorem Running.mem_view_countEffects_removeNode (h : Running s x) {number : Nat}
    (hx : x.number = number) {nodes : List Nat}
    (hn : ∀ i ∈ nodes, ∃ t, x.store.content.tripleAt i = some t) (n : Nat) (t : Triple) :
    let step := fun (x : Transaction) node => x.apply (·.removeNode node number) .removed
    t ∈ (countEffects step x nodes n).2.view ↔
      t ∈ x.view ∧ ∀ i ∈ nodes, x.store.content.tripleAt i ≠ some t := by
  induction nodes generalizing x n with
  | nil => simp [countEffects]
  | cons i nodes ih =>
    obtain ⟨u, hu⟩ := hn i List.mem_cons_self
    have hm := moves_removeNode x i
    have hstep := h.removeNode hu
    rw [hx] at hm hstep
    obtain ⟨-, hview⟩ := hstep
    have hnumber := hm.number_eq.trans hx
    have htriples : ∀ j ∈ nodes, ∃ t, x.store.content.tripleAt j = some t :=
      fun j hj => hn j (List.mem_cons_of_mem i hj)
    have hmem := ih (h.moves hm) hnumber
      (fun j hj => (htriples j hj).imp fun t ht => hm.tripleAt ht)
      (if (x.apply (·.removeNode i number) .removed).1 then n + 1 else n)
    simp only at hmem ⊢
    rw [countEffects_cons, hmem, hview, Finset.mem_erase, List.forall_mem_cons, hu]
    -- the remaining nodes have the triples that they had before
    have hrest : (∀ j ∈ nodes, (x.apply (·.removeNode i number) .removed).2.store.content.tripleAt j
        ≠ some t) ↔ ∀ j ∈ nodes, x.store.content.tripleAt j ≠ some t := by
      refine forall₂_congr fun j hj => ?_
      obtain ⟨w, hw⟩ := htriples j hj
      rw [hm.tripleAt hw, hw]
    have hne : some u ≠ some t ↔ t ≠ u := by
      rw [ne_eq, Option.some.injEq]
      exact ne_comm
    rw [hrest, hne, and_assoc, and_left_comm]

/-- An extension adds its triples and counts those that were absent. -/
theorem Running.extend (h : Running s x) (ts : List Triple) :
    (x.extend ts).1 = (x.view ∪ ts.toFinset).card - x.view.card ∧
      (x.extend ts).2.view = x.view ∪ ts.toFinset := by
  obtain ⟨hcount, hview⟩ := h.countEffects_insert ts 0
  refine ⟨?_, hview⟩
  rw [← hview]
  show (x.extend ts).1 = (x.extend ts).2.view.card - x.view.card
  change (x.extend ts).1 + x.view.card = 0 + (x.extend ts).2.view.card at hcount
  omega

/-- Triples that are present are left alone. -/
theorem Running.insert_of_mem (h : Running s x) {t : Triple} (ht : t ∈ x.view) :
    x.insert t = (false, x) := by
  obtain ⟨hanswer, -⟩ := h.insert t
  rcases Content.insert_cases h.evolves.wellFormed t x.number with ⟨i, -, -, hi⟩ | ⟨i, c, -, -, hi⟩
  · rw [Transaction.insert, apply_none hi]
  · rw [Transaction.insert, apply_some hi] at hanswer
    exact absurd ht (of_decide_eq_true hanswer.symm)

theorem Running.extend_of_subset (h : Running s x) {ts : List Triple} (hts : ts.toFinset ⊆ x.view) :
    x.extend ts = (0, x) := by
  have hall : ∀ t ∈ ts, t ∈ x.view := fun t ht => hts (List.mem_toFinset.2 ht)
  rw [Transaction.extend]
  clear hts
  induction ts with
  | nil => rfl
  | cons t ts ih =>
    rw [List.forall_mem_cons] at hall
    rw [countEffects_cons, h.insert_of_mem hall.1]
    exact ih hall.2

theorem matching_reader (x : Transaction) (p : Pattern) :
    x.store.matching x.reader p = x.store.content.matching x.reader p := by
  rw [Store.matching, reader, Store.contentOf_generation]

/-- A removal by pattern takes away the triples that match, and counts them. -/
theorem Running.removeMatching (h : Running s x) (p : Pattern) :
    (x.removeMatching p).1 = (x.view.filter fun t => p.isMatch t = true).card ∧
      (x.removeMatching p).2.view = x.view.filter fun t => ¬ p.isMatch t = true := by
  obtain ⟨hcount, hview⟩ := h.countEffects_remove (x.store.matching x.reader p) 0
  change (x.removeMatching p).1 + (x.removeMatching p).2.view.card = 0 + x.view.card at hcount
  change (x.removeMatching p).2.view = _ at hview
  have hfound : (x.store.matching x.reader p).toFinset =
      x.view.filter fun t => p.isMatch t = true := by
    rw [matching_reader, Content.toFinset_matching h.evolves.wellFormed]
    rfl
  rw [hfound, ← Finset.filter_not] at hview
  refine ⟨?_, hview⟩
  -- what has gone and what is left make up the view
  have hsplit := Finset.card_filter_add_card_filter_not (s := x.view) fun t => p.isMatch t = true
  rw [hview] at hcount
  omega

/-- A clearing within the transaction leaves no triple. -/
theorem Running.clear (h : Running s x) : x.clear.view = ∅ := by
  have hwf := h.evolves.wellFormed
  have hmem : ∀ {t i}, (t, i) ∈ x.store.content.index.toList ↔
      x.store.content.tripleAt i = some t := by
    intro t i
    rw [Std.HashMap.mem_toList_iff_getElem?_eq_some, hwf.indexed]
  have hnodes : ∀ i ∈ x.store.content.index.toList.map Prod.snd,
      ∃ t, x.store.content.tripleAt i = some t := by
    intro i hi
    obtain ⟨⟨t, j⟩, he, rfl⟩ := List.mem_map.1 hi
    exact ⟨t, hmem.1 he⟩
  -- a triple that is left was there before, and so was its node
  rw [Finset.eq_empty_iff_forall_notMem]
  intro t ht
  obtain ⟨hold, hnone⟩ := (h.mem_view_countEffects_removeNode rfl hnodes 0 t).1 ht
  rw [view, Content.mem_view, Content.contains_iff hwf] at hold
  obtain ⟨i, hi, -⟩ := hold
  exact hnone i (List.mem_map.2 ⟨(t, i), hmem.2 hi, rfl⟩) hi

end Operations

end Transaction
end Rdf
