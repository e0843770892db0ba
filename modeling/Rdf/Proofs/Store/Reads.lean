import Rdf.Graph
import Rdf.Proofs.Store.Runs

/-!
# What readers see

There are several ways to ask a reader for its triples: one by one, by counting, through a cursor
that stops early or goes on to its end. `Store.Shows` says that all of them agree on one set, and
`Graph.Shows` says the same of the latest version as a graph shows it. Main statements:

* `Store.WellFormed.shows`: every reader shows the triples of its version;
* `queries_exact`: at every moment of every run, a query yields exactly the triples that its reader
  contains and its pattern matches, and the counts agree with it;
* `exists_run_committing`: transactions that are committed one after the other leave the set that
  their steps make;
* `reads_own_writes`: a transaction sees its own changes, and nobody else does.
-/

namespace Rdf

/-! ## Agreement of all reads -/

/-- All that a reader answers is about the triples of the set `S`. -/
structure Store.Shows (s : Store) (r : Reader) (S : Finset Triple) : Prop where
  contains : ∀ t, s.contains r t = decide (t ∈ S)
  count : s.count r = S.card
  seesNothing : s.seesNothing r = decide (S = ∅)
  nodup : ∀ p, (s.matching r p).Nodup
  mem_matching : ∀ p t, t ∈ s.matching r p ↔ t ∈ S ∧ p.isMatch t = true

/-- All that a graph answers is about the triples of the set `S`. -/
structure Graph.Shows (g : Graph) (S : Finset Triple) : Prop where
  contains : ∀ t, g.contains t = decide (t ∈ S)
  size : g.size = S.card
  isEmpty : g.isEmpty = decide (S = ∅)
  nodup : ∀ p, (g.matching p).Nodup
  mem_matching : ∀ p t, t ∈ g.matching p ↔ t ∈ S ∧ p.isMatch t = true
  containsMatch : ∀ p, g.containsMatch p = decide (∃ t ∈ S, p.isMatch t = true)

namespace Store

variable {s : Store} {r : Reader} {S : Finset Triple}

/-- The triples of the version published last. -/
def triples (s : Store) : Finset Triple := (s.matching s.snapshot .any).toFinset

/-- A reader of a well-formed index shows the triples of its version. -/
theorem shows_view (h : (s.contentOf r.generation).WellFormed) :
    s.Shows r ((s.contentOf r.generation).view r.version) where
  contains t := Content.contains_eq_decide _ _ t
  count := (Content.card_view _ _).symm
  seesNothing := by
    rw [Bool.eq_iff_iff, decide_eq_true_eq]
    exact Content.isEmpty_iff _ _
  nodup p := Content.nodup_matching h r p
  mem_matching p t := by
    rw [Content.mem_view]
    exact Content.mem_matching h

theorem WellFormed.shows (h : s.WellFormed) (r : Reader) :
    s.Shows r ((s.contentOf r.generation).view r.version) :=
  shows_view (h r.generation)

/-- The snapshot shows the published triples. -/
theorem Published.shows {v : Nat} (h : s.Published v S) : s.Shows s.snapshot S := by
  have hwf : (s.contentOf s.snapshot.generation).WellFormed := by
    rw [snapshot, contentOf_generation]
    exact h.sound.wellFormed
  have hshows := shows_view hwf
  rw [snapshot, contentOf_generation, h.version_eq, h.view_eq] at hshows
  rw [snapshot, h.version_eq]
  exact hshows

theorem Published.size_eq {v : Nat} (h : s.Published v S) : s.size = S.card := by
  rw [h.sound.size_eq, h.version_eq, h.view_eq]

theorem Shows.toFinset_matching_any (h : s.Shows r S) : (s.matching r .any).toFinset = S := by
  ext t
  rw [List.mem_toFinset, h.mem_matching, and_iff_left_iff_imp]
  exact fun _ => rfl

theorem Published.triples_eq {v : Nat} (h : s.Published v S) : s.triples = S :=
  h.shows.toFinset_matching_any

/-- The query without a bound term yields as many triples as there are. -/
theorem Shows.length_matching_any (h : s.Shows r S) : (s.matching r .any).length = S.card := by
  rw [← h.toFinset_matching_any, List.toFinset_card_of_nodup (h.nodup .any)]

theorem triples_eq (h : s.WellFormed) : s.triples = s.content.view s.version := by
  rw [triples, (h.shows s.snapshot).toFinset_matching_any, snapshot, contentOf_generation]

theorem reader_query (s : Store) (r : Reader) (p : Pattern) : (s.query r p).reader = r := by
  rcases Content.query_eq (s.contentOf r.generation) r p with ⟨q, u, -, hq⟩ | hq
  · rw [query, hq]
  · rw [query, hq]

/-- A present triple has a node. -/
theorem WellFormed.exists_tripleAt_of_mem (h : s.WellFormed) {t : Triple} (ht : t ∈ s.triples) :
    ∃ i, s.content.tripleAt i = some t := by
  rw [triples_eq h, Content.mem_view] at ht
  obtain ⟨i, hi, -⟩ := (Content.contains_iff h.content).1 ht
  exact ⟨i, hi⟩

/-- A new cursor yields the triples that match, step by step. -/
theorem take_query (s : Store) (r : Reader) (p : Pattern) (n : Nat) :
    (s.take n (s.query r p)).1 = (s.matching r p).take n := by
  rw [take, reader_query, Content.take_eq]
  rfl

/-- The first triple of a query tells whether there is any. -/
theorem Shows.isEmpty_take_one (h : s.Shows r S) (p : Pattern) :
    (s.take 1 (s.query r p)).1.isEmpty = !decide (∃ t ∈ S, p.isMatch t = true) := by
  have hmem := h.mem_matching p
  rw [take_query]
  -- the first of the matching triples exists iff there is a matching triple
  cases hm : s.matching r p with
  | nil =>
    have hnone : ¬ ∃ t ∈ S, p.isMatch t = true := by
      intro ⟨t, ht⟩
      rw [← hmem, hm] at ht
      cases ht
    rw [decide_eq_false hnone]
    rfl
  | cons t ts =>
    have hsome : t ∈ S ∧ p.isMatch t = true := by
      rw [← hmem, hm]
      exact List.mem_cons_self
    rw [decide_eq_true ⟨t, hsome⟩]
    rfl

end Store

/-- A graph shows what the snapshot shows, if the published size is right. -/
theorem Graph.shows_of_snapshot {g : Graph} {S : Finset Triple}
    (h : g.store.Shows g.store.snapshot S) (hsize : g.store.size = S.card) : g.Shows S where
  contains := h.contains
  size := hsize
  isEmpty := by
    show decide (g.store.size = 0) = decide (S = ∅)
    rw [hsize]
    simp only [Finset.card_eq_zero]
  nodup := h.nodup
  mem_matching := h.mem_matching
  containsMatch p := by
    show (!(g.store.take 1 (g.store.query g.store.snapshot p)).1.isEmpty) = _
    rw [h.isEmpty_take_one, Bool.not_not]

namespace Store

/-! ## Queries are exact -/

/-- At every moment of every run, a query yields exactly the triples that its reader contains and
its pattern matches, each of them once, and all other ways to read agree with it. -/
theorem queries_exact (es : List Event) (context : Context) :
    let s := (State.initial.run es).store
    (∀ r p, (s.matching r p).Nodup ∧
      (∀ t, t ∈ s.matching r p ↔ s.contains r t = true ∧ p.isMatch t = true) ∧
      ∀ n, (s.take n (s.query r p)).1 = (s.matching r p).take n) ∧
    (∀ r, s.count r = (s.matching r .any).length ∧
      s.seesNothing r = (s.matching r .any).isEmpty) ∧
    ∀ p, (Graph.mk context s).containsMatch p = true ↔
      ∃ t, (Graph.mk context s).contains t = true ∧ p.isMatch t = true := by
  intro s
  have hwf : s.WellFormed := wellFormed_run es
  refine ⟨fun r p => ⟨(hwf.shows r).nodup p, fun t => ?_, take_query s r p⟩,
    fun r => ⟨?_, ?_⟩, fun p => ?_⟩
  · rw [(hwf.shows r).mem_matching, (hwf.shows r).contains, decide_eq_true_eq]
  · rw [(hwf.shows r).count, (hwf.shows r).length_matching_any]
  · rw [(hwf.shows r).seesNothing, Bool.eq_iff_iff, decide_eq_true_eq, List.isEmpty_iff,
      ← Finset.card_eq_zero, ← (hwf.shows r).length_matching_any, List.length_eq_zero_iff]
  · have hshows := hwf.shows s.snapshot
    show (!(s.take 1 (s.query s.snapshot p)).1.isEmpty) = true ↔
      ∃ t, s.contains s.snapshot t = true ∧ p.isMatch t = true
    rw [hshows.isEmpty_take_one, Bool.not_not, decide_eq_true_eq]
    simp only [hshows.contains, decide_eq_true_eq]

/-! ## Transactions read their own writes -/

section Transactions

variable {s : Store} {x : Transaction}

/-- The reader of a running transaction shows the triples as the transaction has left them. -/
theorem shows_reader (h : x.store.WellFormed) : x.store.Shows x.reader x.view := by
  have hshows := h.shows x.reader
  rw [Transaction.reader, contentOf_generation] at hshows
  exact hshows

/-- All others see the published triples while a transaction runs. -/
theorem shows_snapshot (hwf : x.store.WellFormed) (h : Transaction.Running s x) :
    x.store.Shows x.store.snapshot (s.content.view s.version) := by
  have hversion : x.store.version = s.version := by rw [h.store_eq]
  have hview : x.store.content.view x.store.version = s.content.view s.version := by
    rw [hversion, h.view_published]
  have hshows := hwf.shows x.store.snapshot
  rw [snapshot, contentOf_generation, hview] at hshows
  exact hshows

/-- Steps of a transaction that is begun in a run do to the published triples what they do to a
set, and get its answers. -/
theorem performed_of_run {es : List Event} (hes : es.countP Event.isStart < transactionBase)
    (hs : State.initial.run es = .idle s) (steps : List WriteStep) :
    let done := inTurn Transaction.perform s.begin steps
    let spec := inTurn WriteStep.onSet s.triples steps
    Transaction.Running s done.2 ∧ done.2.store.WellFormed ∧ done.1 = spec.1 ∧
      done.2.view = spec.2 := by
  intro done spec
  obtain ⟨hsound, hle⟩ := sound_of_run hes hs
  have hversion : s.version < transactionBase := Nat.lt_of_le_of_lt hle hes
  have hwf := wellFormed_of_idle hs
  obtain ⟨hanswers, hrunning, hview⟩ := (Transaction.running_begin hsound hversion).inTurn steps
  rw [Transaction.view_begin hsound hversion, ← triples_eq hwf] at hanswers hview
  have hbegin : s.begin.store.WellFormed := hwf.of_past_eq rfl hsound.wellFormed
  exact ⟨hrunning, hbegin.moves (Transaction.moves_inTurn hsound.wellFormed steps), hanswers, hview⟩

/-- The events of a transaction that is committed. -/
def Event.committing (steps : List WriteStep) : List Event :=
  .begin :: (steps.map .perform ++ [.commit])

theorem countP_committing (transactions : List (List WriteStep)) :
    (transactions.flatMap Event.committing).countP Event.isStart = transactions.length := by
  induction transactions with
  | nil => rfl
  | cons steps transactions ih =>
    rw [List.flatMap_cons, List.countP_append, ih, Event.committing, List.countP_cons,
      State.countP_steps (fun _ => rfl) rfl, List.length_cons, Nat.add_comm]
    rfl

/-- Transactions that are committed one after the other leave the set that their steps make in
turn, in one version for each. -/
theorem exists_run_committing (transactions : List (List WriteStep))
    (hlength : transactions.length < transactionBase) :
    ∃ s, State.initial.run (transactions.flatMap Event.committing) = .idle s ∧
      s.version = transactions.length ∧
      s.triples = transactions.foldl (fun S steps => (inTurn WriteStep.onSet S steps).2) ∅ := by
  induction transactions using List.reverseRecOn with
  | nil => exact ⟨empty, rfl, rfl, published_empty.triples_eq⟩
  | append_singleton transactions steps ih =>
    rw [List.length_append] at hlength
    obtain ⟨s, hs, hversion, htriples⟩ := ih (Nat.lt_of_le_of_lt (Nat.le_add_right _ _) hlength)
    have hstart := countP_committing transactions
    obtain ⟨hrunning, -, -, hview⟩ := performed_of_run (by omega) hs steps
    refine ⟨(inTurn Transaction.perform s.begin steps).2.commit, ?_, ?_, ?_⟩
    · rw [List.flatMap_append, State.run_append, hs, List.flatMap_singleton, Event.committing,
        State.run_cons, State.run_append]
      rw [show (State.idle s).after .begin = .writing s.begin from rfl, State.run_perform]
      rfl
    · rw [hrunning.commit.version_eq, hversion, List.length_append, List.length_singleton]
    · rw [hrunning.commit.triples_eq, hview, htriples, List.foldl_append]
      rfl

/-- While a transaction runs, its own reader shows the set that its steps make of the published
triples, and the steps get the answers of that set. Everybody else still sees the published triples.
The steps may be any that a longer transaction begins with. -/
theorem reads_own_writes (es : List Event) (hes : es.countP Event.isStart < 2 ^ 62) {s : Store}
    (hs : State.initial.run es = .idle s) (context : Context) (steps : List WriteStep) :
    let done := inTurn Transaction.perform s.begin steps
    let spec := inTurn WriteStep.onSet s.triples steps
    done.1 = spec.1 ∧ done.2.store.Shows done.2.reader spec.2 ∧
      done.2.store.Shows done.2.store.snapshot s.triples ∧
      (Graph.mk context done.2.store).Shows s.triples := by
  intro done spec
  have hbase : es.countP Event.isStart < transactionBase := Nat.lt_trans hes (by decide)
  have htriples : s.triples = s.content.view s.version := triples_eq (wellFormed_of_idle hs)
  obtain ⟨hrunning, hwf, hanswers, hview⟩ := performed_of_run hbase hs steps
  have hsnapshot := shows_snapshot hwf hrunning
  have hsize : done.2.store.size = s.triples.card := by
    rw [hrunning.store_eq, htriples, ← (sound_of_run hbase hs).1.size_eq]
  rw [← htriples] at hsnapshot
  refine ⟨hanswers, ?_, hsnapshot, Graph.shows_of_snapshot hsnapshot hsize⟩
  -- the transaction's own view is the set that the steps make
  show done.2.store.Shows done.2.reader (inTurn WriteStep.onSet s.triples steps).2
  rw [← hview]
  exact shows_reader hwf

/-- One triple was removed and inserted again before, and one was removed for good. -/
theorem reads_own_writes_of_reinserted :
    let t : Triple := ⟨.iri ⟨"a"⟩, ⟨"p"⟩, .iri ⟨"a"⟩⟩
    let u : Triple := ⟨.iri ⟨"a"⟩, ⟨"p"⟩, .iri ⟨"b"⟩⟩
    let v : Triple := ⟨.iri ⟨"b"⟩, ⟨"p"⟩, .iri ⟨"a"⟩⟩
    let before : List (List WriteStep) :=
      [[.insert t, .insert u, .insert v], [.remove t, .remove u], [.insert t]]
    let steps : List WriteStep := [.remove v, .insert u, .insert v, .insert v, .remove t,
      .removeMatching ⟨some (.iri ⟨"b"⟩), none, none⟩]
    ∃ s, State.initial.run (before.flatMap Event.committing) = .idle s ∧ s.triples = {t, v} ∧
      let done := inTurn Transaction.perform s.begin steps
      done.1 = [.effect true, .effect true, .effect true, .effect false, .effect true, .count 1] ∧
      done.2.store.Shows done.2.reader {u} ∧
      done.2.store.Shows done.2.store.snapshot {t, v} := by
  intro t u v before steps
  obtain ⟨s, hs, -, htriples⟩ := exists_run_committing before (by decide)
  have hpublished : s.triples = {t, v} := by
    rw [htriples]
    decide
  have hstarts : (before.flatMap Event.committing).countP Event.isStart < 2 ^ 62 := by
    rw [countP_committing]
    decide
  obtain ⟨hanswers, hreader, hsnapshot, -⟩ := reads_own_writes _ hstarts hs .bare steps
  rw [hpublished] at hanswers hreader hsnapshot
  refine ⟨s, hs, hpublished, hanswers.trans ?_, ?_, hsnapshot⟩
  · decide
  · have hset : (inTurn WriteStep.onSet {t, v} steps).2 = {u} := by decide
    rw [← hset]
    exact hreader

end Transactions

end Store
end Rdf
