import Rdf.Proofs.Store.Isolation
import Rdf.Proofs.Store.Versions

/-!
# Readers that outlive their transaction

A reader of a running transaction carries the number of the transaction as its version. The number
is larger than every version that is published before or after, and smaller than those of later
transactions. So when the transaction has ended, its readers are not views of the version that it
has published. Main statements:

* `kept_reader_follows`: they show that version when it is published, and then whatever is published
  next, and even the triples of a load that is still running, until a new index takes the place of
  theirs; from then on they show what they showed last;
* `kept_reader_leaks`: so a triple that is loaded later comes into view.
-/

namespace Rdf
namespace Store
namespace State

/-- The triples of the version published last, or of the version that the running load would publish
now. -/
def latest : State → Finset Triple
  | .idle s => s.triples
  | .writing x => x.store.triples
  | .loading l => l.finish.triples

variable {k n : Nat} {σ : State}

/-- The number of a transaction that has ended sees the latest triples in the latest index. -/
theorem Valid.view_latest (h : Valid k σ) (hσ : σ.store.WellFormed) (hk : k < transactionBase)
    (hn : transactionBase ≤ n) (hended : Ended n σ) : σ.store.content.view n = σ.latest := by
  cases h with
  | @idle s h hv =>
    show s.content.view n = s.triples
    rw [triples_eq (s := s) hσ, Content.view_of_below h.below (by omega)]
  | @writing s x h hv =>
    show x.store.content.view n = x.store.triples
    have hversion : x.store.version = s.version := by rw [h.store_eq]
    -- a running transaction is not seen by smaller numbers, and not by the published version
    rw [triples_eq (s := x.store) hσ, hversion, h.view_published,
      (h.evolves.keeps h.below).view h.sound.wellFormed h.evolves.wellFormed hended,
      Content.view_of_below h.sound.below (by omega)]
  | @loading s l h hv =>
    have hfinish : l.finish.WellFormed := hσ.of_past_eq rfl hσ.content
    have hversion := h.finish.version_eq
    show l.finish.content.view n = l.finish.triples
    rw [triples_eq hfinish, Content.view_of_below h.finish.sound.below (by omega)]

/-- A reader of a transaction that has ended follows the latest version, as long as its index is the
latest. -/
theorem Valid.shows_latest (h : Valid k σ) (hσ : σ.store.WellFormed) (hk : k < transactionBase)
    {r : Reader} (hr : transactionBase ≤ r.version) (hended : Ended r.version σ)
    (hg : r.generation = σ.store.generation) : σ.store.Shows r σ.latest := by
  have hshows := hσ.shows r
  rw [hg, contentOf_generation, h.view_latest hσ hk hr hended] at hshows
  exact hshows

end State

section Readers

variable {s s' : Store} {r : Reader} {S : Finset Triple}

/-- What a reader shows depends on its index alone. -/
theorem Shows.of_contentOf_eq (h : s.Shows r S)
    (hc : s'.contentOf r.generation = s.contentOf r.generation) : s'.Shows r S where
  contains t := by
    rw [Store.contains, hc]
    exact h.contains t
  count := by
    rw [Store.count, hc]
    exact h.count
  seesNothing := by
    rw [Store.seesNothing, hc]
    exact h.seesNothing
  nodup p := by
    rw [Store.matching, hc]
    exact h.nodup p
  mem_matching p t := by
    rw [Store.matching, hc]
    exact h.mem_matching p t

/-- All readers of a transaction are alike. -/
theorem reader_moves {x x' : Transaction} (h : Transaction.Moves x x') : x'.reader = x.reader := by
  rw [Transaction.reader, Transaction.reader, h.number_eq, h.store_eq]
  rfl

/-- When a transaction commits, its readers show the version that it publishes. -/
theorem shows_reader_commit {x : Transaction} (h : Transaction.Running s x)
    (hx : x.store.WellFormed) : x.commit.Shows x.reader x.view := by
  have hcommitted : x.committed.WellFormed :=
    hx.of_past_eq rfl h.committed.sound.wellFormed
  have hview : x.committed.content.view x.number = x.view := by
    rw [← h.committed.view_eq, ← h.committed.version_eq]
    apply Content.view_of_below h.committed.sound.below
    have hversion := h.version_lt_number
    rw [h.committed.version_eq]
    omega
  -- a compaction leaves the index to its readers
  have hkeeps := (Keeps.compactIfNeeded (x.number + 1) x.committed).view hcommitted
    hcommitted.compactIfNeeded (r := x.reader) (Nat.le_refl _) (Nat.lt_succ_self _)
  have hgeneration : x.committed.contentOf x.reader.generation = x.committed.content :=
    contentOf_generation x.committed
  have hshows := hcommitted.compactIfNeeded.shows x.reader
  rw [hkeeps, hgeneration] at hshows
  rw [← hview]
  exact hshows

end Readers

section Kept

/-- An empty index is not replaced. -/
theorem generation_commit_empty : empty.begin.commit.generation = 0 := rfl

/-- A reader taken at any point of a transaction that commits shows the triples that the transaction
publishes. Later on it shows what is published last, or what the running load has added to it, as
long as no new index was built, and from then on what it showed at that time. -/
theorem kept_reader_follows (before : List Event) {s : Store}
    (hs : State.initial.run before = .idle s) (taken rest : List WriteStep)
    (later further : List Event)
    (hk : (before ++ later ++ further).countP Event.isStart + 1 < transactionBase) :
    let r := (inTurn Transaction.perform s.begin taken).2.reader
    let s₁ := (inTurn Transaction.perform s.begin (taken ++ rest)).2.commit
    let σ := (State.idle s₁).run later
    s₁.Shows r (inTurn WriteStep.onSet s.triples (taken ++ rest)).2 ∧
    r.generation ≤ σ.store.generation ∧
    (r.generation = σ.store.generation → σ.store.Shows r σ.latest) ∧
    (r.generation < σ.store.generation → ∀ S, σ.store.Shows r S →
      (σ.run further).store.Shows r S) := by
  intro r s₁ σ
  let x := (inTurn Transaction.perform s.begin (taken ++ rest)).2
  rw [List.countP_append, List.countP_append] at hk
  obtain ⟨hrunning, hx, -, hview⟩ := performed_of_run (by omega) hs (taken ++ rest)
  have hreader : x.reader = r := by
    have hwf := hrunning.sound.wellFormed
    have hall := reader_moves (Transaction.moves_inTurn (x := s.begin) hwf (taken ++ rest))
    exact hall.trans (reader_moves (Transaction.moves_inTurn (x := s.begin) hwf taken)).symm
  have hversion : r.version = transactionBase + s₁.started := by
    rw [← hreader]
    exact number_eq_commit hrunning
  -- the state after the commit, and the states that later events lead it to
  have hcommit : (State.idle s₁).Valid (before.countP Event.isStart + 1) := by
    obtain ⟨-, hle⟩ := sound_of_run (by omega) hs
    exact .of_published hrunning.commit (Nat.succ_le_succ hle)
  have hσ := hcommit.run later (by omega)
  have hended : σ.Ended r.version :=
    State.Ended.run (σ := .idle s₁) (Nat.le_of_eq hversion) hcommit later (by omega)
  have hwf : σ.store.WellFormed := WellFormed.run (σ := .idle s₁) hx.commit later
  refine ⟨?_, ?_, fun hg => ?_, fun hg S hS => ?_⟩
  · rw [← hview, ← hreader]
    exact shows_reader_commit hrunning hx
  · have hle : x.committed.generation ≤ s₁.generation :=
      (Keeps.compactIfNeeded 0 x.committed).generation_le
    rw [← hreader]
    exact Nat.le_trans hle (hcommit.frozen_run later (by omega)).generation_le
  · exact hσ.shows_latest hwf (by omega) (by omega) hended hg
  · exact hS.of_contentOf_eq ((hσ.frozen_run further (by omega)).contentOf_eq _ hg)

theorem kept_reader_follows_load :
    let σ := (State.idle empty.begin.commit).run [.startLoad 0, .load default, .finishLoad]
    σ.store.Shows empty.begin.reader σ.latest := by
  intro σ
  obtain ⟨-, -, hlatest, -⟩ := kept_reader_follows [] rfl [] []
    [.startLoad 0, .load default, .finishLoad] [] (by decide)
  exact hlatest generation_commit_empty

/-- So a reader of a transaction is not a view of the version that the transaction publishes: it
shows a triple that is loaded afterwards. -/
theorem kept_reader_leaks : ¬ ∀ (before : List Event) (s : Store) (taken rest : List WriteStep)
    (later : List Event), (before ++ later).countP Event.isStart + 1 < 2 ^ 62 →
    State.initial.run before = .idle s →
    let r := (inTurn Transaction.perform s.begin taken).2.reader
    let s₁ := (inTurn Transaction.perform s.begin (taken ++ rest)).2.commit
    ((State.idle s₁).run later).store.Shows r
      (inTurn WriteStep.onSet s.triples (taken ++ rest)).2 := by
  intro h
  let later : List Event := [.startLoad 0, .load default, .finishLoad]
  let σ := (State.idle empty.begin.commit).run later
  have hnone := (h [] empty [] [] later (by decide) rfl).contains default
  -- the load publishes its triple
  have hrun : State.initial.run [.begin, .commit] = .idle empty.begin.commit := rfl
  obtain ⟨hsound, -⟩ := sound_of_run (by decide) hrun
  obtain ⟨-, hload⟩ := hsound.load (ε := Empty) 0 [.ok default]
  have hmem : default ∈ σ.latest := by
    rw [show σ.latest = _ from hload.shows.toFinset_matching_any]
    exact Finset.mem_union_right _ (List.mem_toFinset.2 List.mem_cons_self)
  -- the reader has the index that the load has written to
  have hvalid : σ.Valid 2 := State.valid_initial.run (.begin :: .commit :: later) (by decide)
  have hwf : σ.store.WellFormed := wellFormed_run (.begin :: .commit :: later)
  have hended : σ.Ended empty.begin.reader.version := Nat.le_refl _
  have hlatest := hvalid.shows_latest hwf (by decide) (by decide) hended generation_commit_empty
  have hsome := hlatest.contains default
  rw [decide_eq_true hmem] at hsome
  exact Bool.false_ne_true (hnone.symm.trans hsome)

end Kept

end Store
end Rdf
