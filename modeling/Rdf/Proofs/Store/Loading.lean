import Rdf.Proofs.Store.Publishing

/-!
# Loads and transactions in lockstep

A load writes the version that it is going to publish. A transaction writes its number, and the
commit puts the version in its place. When both insert the same triples one by one, the index of
the load is at every moment the one that a commit would make of that of the transaction. Main
statements:

* `Content.upgraded_insert`: an insertion in a version is one under a number, upgraded afterwards;
* `BulkLoad.Lockstep.add`, `BulkLoad.Lockstep.run`: so loads and transactions stay in lockstep;
* `Store.load_eq_committed`: a load leaves what a commit of the same triples leaves, before a
  compaction and apart from the count of transactions;
* `BulkLoad.Called.run`: the hooks are called at the multiples of the interval.
-/

namespace Rdf

namespace Content

variable {c c₀ : Content} {n v : Nat}

/-! ## Insertions under two numbers -/

/-- Nothing was removed under the number: all triples that it has changed are present. -/
def Inserting (n : Nat) (c : Content) : Prop :=
  ∀ i, (c.rangeOf i).last? = some n → (c.rangeOf i).isPresent = true

theorem upgraded_of_below (h : c.Below n) (v : Nat) : c.upgraded n v = c := by
  rw [upgraded, ← withRanges_id c, withRanges_withRanges]
  apply withRanges_congr
  intro i _
  exact VersionRange.upgrade_of_last?_ne ((h i).last?_ne (Nat.le_refl n))

theorem upgraded_append (c : Content) (t : Triple) (n v : Nat) :
    (c.append t (.since n)).upgraded n v = (c.upgraded n v).append t (.since v) := by
  have hsince : (VersionRange.since n).upgrade n v = .since v :=
    VersionRange.upgrade_push .absent n v
  rcases c with ⟨nodes, index, last, chains⟩
  simp only [append, upgraded, withRanges, Array.mapIdx_push, Array.size_mapIdx, hsince]

/-- A node whose last bound is neither of the numbers is turned over alike. -/
theorem upgraded_toggleNode {i : Nat} (hn : (c.rangeOf i).last? ≠ some n)
    (hv : (c.rangeOf i).last? ≠ some v) :
    (c.toggleNode i n).upgraded n v = (c.upgraded n v).toggleNode i v := by
  rw [upgraded, toggleNode, withRanges_withRanges, upgraded, toggleNode, withRanges_withRanges]
  apply withRanges_congr
  intro j _
  by_cases hj : j = i
  · rw [if_pos hj, if_pos hj, hj, VersionRange.upgrade_of_last?_ne hn, VersionRange.toggle,
      VersionRange.toggle, if_neg hn, if_neg hv, VersionRange.upgrade_push]
  · rw [if_neg hj, if_neg hj]

theorem Inserting.toggleNode (h : c.Inserting n) {i : Nat} (hi : i < c.nodes.size)
    (habsent : (c.rangeOf i).isPresent = false) : (c.toggleNode i n).Inserting n := by
  intro j hj
  rw [rangeOf_toggleNode hi] at hj ⊢
  split
  · rw [VersionRange.isPresent_toggle, habsent]
    rfl
  · next hne =>
    rw [if_neg hne] at hj
    exact h j hj

theorem Inserting.append (h : c.Inserting n) (t : Triple) :
    (c.append t (.since n)).Inserting n := by
  intro j hj
  rw [rangeOf_append] at hj ⊢
  split
  · rfl
  · next hne =>
    rw [if_neg hne] at hj
    exact h j hj

/-- An insertion in a version is one under a number, upgraded afterwards. -/
theorem upgraded_insert (h : Evolves n c₀ c) (hb : c₀.Below v) (hv : v ≤ n)
    (hinserting : c.Inserting n) (t : Triple) :
    (c.upgraded n v).insert t v = ((c.insert t n).1, (c.insert t n).2.upgraded n v) ∧
      (c.insert t n).2.Inserting n := by
  have hindex : (c.upgraded n v).index = c.index := rfl
  unfold insert
  rw [hindex]
  cases hi : c.index[t]? with
  | none =>
    refine ⟨Prod.ext ?_ (upgraded_append c t n v).symm, hinserting.append t⟩
    exact congrArg some (size_nodes_withRanges c _)
  | some i =>
    simp only [VersionRange.add?_eq]
    have hpresent : ((c.upgraded n v).rangeOf i).isPresent = (c.rangeOf i).isPresent := by
      rw [rangeOf_upgraded, VersionRange.isPresent_upgrade]
    rw [hpresent]
    by_cases hp : (c.rangeOf i).isPresent = true
    · rw [if_pos hp, if_pos hp]
      exact ⟨rfl, hinserting⟩
    · -- an absent triple has its old bounds, and those are neither of the numbers
      have hn : (c.rangeOf i).last? ≠ some n := fun hlast => hp (hinserting i hlast)
      have hbounds := (h.writing i).bounds_eq ((hb i).mono hv)
      rw [if_neg hn] at hbounds
      have hlast : (c.rangeOf i).last? ≠ some v := by
        rw [VersionRange.last?, hbounds]
        exact (hb i).last?_ne (Nat.le_refl v)
      have hlt := lt_size_of_tripleAt ((h.wellFormed.indexed t i).1 hi)
      rw [if_neg hp, if_neg hp]
      simp only [modifyRange_toggle]
      rw [upgraded_toggleNode hn hlast]
      exact ⟨rfl, hinserting.toggleNode hlt (Bool.eq_false_iff.2 hp)⟩

end Content

namespace BulkLoad

variable {ε : Type} {s : Store} {x : Transaction} {l : BulkLoad}

/-! ## Lockstep -/

/-- The load `l` and the transaction `x` were started at the store `s`, and have inserted the same
triples. -/
structure Lockstep (s : Store) (x : Transaction) (l : BulkLoad) : Prop where
  running : Transaction.Running s x
  loading : Loading s l
  inserting : x.store.content.Inserting x.number
  content_eq : l.store.content = x.store.content.upgraded x.number (s.version + 1)

theorem lockstep_start (hs : s.Sound) (hv : s.version < Store.transactionBase) (hooks : Nat) :
    Lockstep s s.begin (start s hooks) := by
  have hrunning := Transaction.running_begin hs hv
  refine ⟨hrunning, loading_start hs hooks, fun i hi => ?_, ?_⟩
  · exact absurd hi ((hrunning.below i).last?_ne (Nat.le_refl _))
  · exact (Content.upgraded_of_below hrunning.below _).symm

theorem content_insert (h : x.store.content.WellFormed) (t : Triple) :
    (x.insert t).2.store.content = (x.store.content.insert t x.number).2 := by
  rcases Content.insert_cases h t x.number with ⟨i, -, -, hi⟩ | ⟨i, c, -, -, hi⟩
  · rw [Transaction.insert, Transaction.apply_none hi, hi]
  · rw [Transaction.insert, Transaction.apply_some hi, hi]
    rfl

/-- One more triple keeps a load and a transaction in lockstep. -/
theorem Lockstep.add (h : Lockstep s x l) (t : Triple) : Lockstep s (x.insert t).2 (l.add t) := by
  have hwf := h.running.evolves.wellFormed
  have hmoves := Transaction.moves_insert hwf t
  obtain ⟨hinsert, hinserting⟩ := Content.upgraded_insert h.running.evolves h.running.sound.below
    h.running.version_lt_number h.inserting t
  refine ⟨h.running.moves hmoves, (h.loading.add t).1, ?_, ?_⟩
  · rw [content_insert hwf, hmoves.number_eq]
    exact hinserting
  · rw [content_insert hwf, hmoves.number_eq, store_add, h.loading.version_eq, h.content_eq,
      hinsert]

/-- A stream is loaded in lockstep with a transaction that inserts the triples before its error. -/
theorem Lockstep.run (h : Lockstep s x l) (items : List (Except ε Triple)) (n : Nat) :
    Lockstep s (Transaction.countEffects Transaction.insert x (loaded items) n).2
      (l.run items).2 := by
  induction items generalizing x l n with
  | nil => exact h
  | cons item items ih =>
    cases item with
    | error e => exact h
    | ok t =>
      rw [loaded, Transaction.countEffects_cons]
      exact ih (h.add t) _

/-- The end of the load is the commit of the transaction. -/
theorem Lockstep.finish_eq (h : Lockstep s x l) :
    l.finish = { x.committed with started := s.started } := by
  have hview : l.view = x.view := by
    rw [view, h.loading.version_eq, h.content_eq]
    exact h.running.evolves.view_upgraded h.running.sound.below h.running.version_lt_number
  rw [h.loading.finish_eq, h.running.committed_eq, h.content_eq, ← h.loading.counted, hview]

/-! ## Calls of hooks -/

/-- The calls that are due for a number of triples: all hooks in order, whenever the count reaches a
multiple of the interval. -/
def callsUpTo (hooks processed : Nat) : List HookCall :=
  (List.range (processed / interval)).flatMap fun k => callsAt hooks ((k + 1) * interval)

/-- All hooks were called whenever they had to be. -/
def Called (l : BulkLoad) : Prop := l.calls.toList = callsUpTo l.hooks l.processed

theorem called_start (s : Store) (hooks : Nat) : (start s hooks).Called := by
  have hzero : (start s hooks).processed / interval = 0 := Nat.zero_div _
  rw [Called, callsUpTo, hzero]
  rfl

theorem processed_add (l : BulkLoad) (t : Triple) : (l.add t).processed = l.processed + 1 := rfl

theorem calls_add (l : BulkLoad) (t : Triple) : (l.add t).calls = l.calls ++
    (if (l.processed + 1) % interval = 0 then callsAt l.hooks (l.processed + 1) else []) := rfl

theorem Called.add (h : l.Called) (t : Triple) : (l.add t).Called := by
  have hhooks : (l.add t).hooks = l.hooks := rfl
  rw [Called, callsUpTo, calls_add, processed_add, hhooks, Array.toList_appendList, h, callsUpTo,
    Nat.succ_div]
  by_cases hdvd : interval ∣ l.processed + 1
  · -- the next multiple is reached
    have hreached : (l.processed / interval + 1) * interval = l.processed + 1 := by
      rw [← Nat.succ_div_of_dvd hdvd, Nat.div_mul_cancel hdvd]
    rw [if_pos hdvd, if_pos (Nat.mod_eq_zero_of_dvd hdvd), List.range_succ, List.flatMap_append,
      List.flatMap_singleton, hreached]
  · rw [if_neg hdvd, if_neg fun hmod => hdvd (Nat.dvd_of_mod_eq_zero hmod), Nat.add_zero,
      List.append_nil]

/-- Every triple before the error is counted, and the hooks are called in time. -/
theorem Called.run (h : l.Called) (items : List (Except ε Triple)) :
    (l.run items).2.Called ∧ (l.run items).2.hooks = l.hooks ∧
      (l.run items).2.processed = l.processed + (loaded items).length := by
  induction items generalizing l with
  | nil => exact ⟨h, rfl, rfl⟩
  | cons item items ih =>
    cases item with
    | error e => exact ⟨h, rfl, rfl⟩
    | ok t =>
      obtain ⟨hcalled, hhooks, hprocessed⟩ := ih (h.add t)
      refine ⟨hcalled, hhooks, ?_⟩
      rw [BulkLoad.run, hprocessed, processed_add, loaded, List.length_cons]
      omega

end BulkLoad

namespace Store

variable {ε : Type} {s : Store}

/-- A load leaves what a commit of its triples leaves, before a compaction and apart from the count
of transactions. -/
theorem load_eq_committed (hs : s.Sound) (hv : s.version < transactionBase) (hooks : Nat)
    (items : List (Except ε Triple)) : (s.load hooks items).2 =
      { (s.begin.extend (BulkLoad.loaded items)).2.committed with started := s.started } :=
  ((BulkLoad.lockstep_start hs hv hooks).run items 0).finish_eq

end Store

end Rdf
