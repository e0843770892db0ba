import Rdf.Proofs.Graph.Operations
import Rdf.Proofs.Store.KeptReaders
import Rdf.Proofs.Store.Loading

/-!
# Loads agree with transactions

A load of a stream leaves a graph that cannot be told from one that a transaction has extended by
the triples before the error. It publishes one version when it ends, and snapshots taken before the
load or while it runs show nothing of it. Main statements:

* `Graph.loads_agree_with_transactions`: answers, index, version, calls of hooks, snapshots, and
  whatever is done to the graph later;
* `Graph.kept_reader_sees_load`: a reader of a transaction that has ended is no snapshot, and sees
  the triples of a load that comes later.
-/

namespace Rdf

open Store (Event State transactionBase)

/-- A moment of a load that was started at the store `s`, after a number of triples: nothing is
published, and the hooks have been called whenever they had to be. -/
structure BulkLoad.Moment (s : Store) (hooks processed : Nat) (l : BulkLoad) : Prop where
  snapshot_eq : l.store.snapshot = s.snapshot
  size_eq : l.store.size = s.size
  processed_eq : l.processed = processed
  calls_eq : l.calls.toList = BulkLoad.callsUpTo hooks processed

namespace BulkLoad

variable {ε : Type} {s : Store}

theorem moment_run (hs : s.Sound) (hooks : Nat) (items : List (Except ε Triple)) :
    Moment s hooks (loaded items).length ((start s hooks).run items).2 := by
  obtain ⟨-, hloading, -⟩ := (loading_start hs hooks).run items
  obtain ⟨hcalled, hhooks, hprocessed⟩ := (called_start s hooks).run items
  have hcount : ((start s hooks).run items).2.processed = (loaded items).length :=
    hprocessed.trans (Nat.zero_add _)
  have hhooks' : ((start s hooks).run items).2.hooks = hooks := hhooks
  refine ⟨?_, ?_, hcount, ?_⟩
  · rw [hloading.store_eq]
    rfl
  · rw [hloading.store_eq]
  · rw [hcalled, hhooks', hcount]

end BulkLoad

namespace Graph

variable {ε : Type} {g : Graph} {v : Nat} {S : Finset Triple}

/-- Operations on a graph that has published a set get the answers of the set, and leave a graph
that shows what becomes of it. -/
theorem inTurn_published (h : g.store.Published v S) (ops : List (Operation ε))
    (hv : v + ops.length < transactionBase) :
    (inTurn perform g ops).1 = (inTurn (Operation.onSet g.context) S ops).1 ∧
      (inTurn perform g ops).2.Shows (inTurn (Operation.onSet g.context) S ops).2 := by
  -- every operation publishes at most one version, so that the numbers last for all that are left
  obtain ⟨hanswers, -, w, hpublished, -⟩ := inTurn_sim (f := perform)
    (g := Operation.onSet g.context) (s := g) (t := S)
    (R := fun n g' S => g'.context = g.context ∧
      ∃ v, g'.store.Published v S ∧ v + n < transactionBase)
    (by
      intro n g' S op ⟨hcontext, v, hpublished, hv⟩
      obtain ⟨hanswer, w, hw, hpublished'⟩ := perform_published hpublished (by omega) op
      rw [hcontext] at hanswer hpublished'
      exact ⟨hanswer, (context_perform g' op).trans hcontext, w, hpublished', by omega⟩)
    ops ⟨rfl, v, h, hv⟩
  exact ⟨hanswers, shows_of_snapshot hpublished.shows hpublished.size_eq⟩

/-! ## Readers -/

section Readers

variable {es before : List Event} {s : Store}

/-- A running load is a moment of a run. -/
theorem run_moment (hs : State.initial.run es = .idle s) (hooks : Nat)
    (items : List (Except ε Triple)) :
    State.initial.run (es ++ .startLoad hooks :: (BulkLoad.loaded items).map Event.load) =
      .loading ((BulkLoad.start s hooks).run items).2 := by
  rw [State.run_append, hs, State.run_cons]
  exact run_load _ items

theorem countP_moment (es : List Event) (hooks : Nat) (ts : List Triple) :
    (es ++ .startLoad hooks :: ts.map Event.load).countP Event.isStart =
      es.countP Event.isStart + 1 := by
  have hload : (ts.map Event.load).countP Event.isStart = 0 := by
    rw [List.countP_map, List.countP_eq_zero]
    exact fun _ _ => Bool.false_ne_true
  rw [List.countP_append, List.countP_cons, hload]
  rfl

/-- A snapshot that was taken before a load shows nothing of the load while it runs. -/
theorem shows_snapshot_moment (hs : State.initial.run es = .idle s) (hbefore : before <+: es)
    (hk : es.countP Event.isStart + 1 < transactionBase) (hooks : Nat)
    (items : List (Except ε Triple)) :
    let σ := State.initial.run before
    ((BulkLoad.start s hooks).run items).2.store.Shows σ.store.snapshot σ.store.triples := by
  obtain ⟨rest, rfl⟩ := hbefore
  have hrun := run_moment hs hooks items
  have hcount := countP_moment (before ++ rest) hooks (BulkLoad.loaded items)
  rw [List.append_assoc] at hrun hcount
  have hshows := State.shows_snapshot_of_run before _ (by rw [hcount]; exact hk)
  rw [hrun] at hshows
  exact hshows

/-- It shows nothing of the operations that come later. -/
theorem shows_snapshot_inTurn (hs : State.initial.run es = .idle g.store) (hbefore : before <+: es)
    (ops : List (Operation ε)) (hk : es.countP Event.isStart + ops.length < transactionBase) :
    let σ := State.initial.run before
    (inTurn perform g ops).2.store.Shows σ.store.snapshot σ.store.triples := by
  obtain ⟨rest, rfl⟩ := hbefore
  obtain ⟨es', hle, hrun⟩ := exists_run_from g ops
  have hall : State.initial.run (before ++ (rest ++ es')) =
      .idle (inTurn perform g ops).2.store := by
    rw [← List.append_assoc, State.run_append, hs, hrun]
  have hcount : (before ++ (rest ++ es')).countP Event.isStart < transactionBase := by
    rw [← List.append_assoc, List.countP_append]
    omega
  have hshows := State.shows_snapshot_of_run before _ hcount
  rw [hall] at hshows
  exact hshows

end Readers

/-! ## Loads of any stream -/

/-- A load inserts what a transaction inserts that extends the graph by the triples before the
error. It answers with the count of those that were absent, or with the error, and leaves the index
that the transaction leaves before a compaction, as one new version. While it runs, nothing is
published, and all hooks are called in order whenever the count of triples has reached a multiple of
the interval. Snapshots that were taken before it, which are the ones to be had while it runs as
well, show what they showed, for ever. Later operations cannot tell the load from the
transaction. -/
theorem loads_agree_with_transactions (context : Context) (es : List Event) {s : Store}
    (hs : State.initial.run es = .idle s) (hooks : Nat) (items : List (Except ε Triple))
    (later : List (Operation ε))
    (hk : es.countP Event.isStart + later.length + 1 < transactionBase) :
    let ts := BulkLoad.loaded items
    let S := s.triples ∪ ts.toFinset
    let load := s.load hooks items
    let extend := s.write (·.extend ts)
    let moment := fun k => ((BulkLoad.start s hooks).run (items.take k)).2
    let loaded := inTurn perform ⟨context, load.2⟩ later
    let extended := inTurn perform ⟨context, extend.2⟩ later
    let spec := inTurn (Operation.onSet context) S later
    (load.1.outcome = (match BulkLoad.failure items with
        | some e => .error e
        | none => .ok extend.1) ∧
      extend.1 = S.card - s.triples.card ∧
      load.2 = { (s.begin.extend ts).2.committed with started := s.started } ∧
      load.2.version = s.version + 1) ∧
    (load.1.calls = BulkLoad.callsUpTo hooks ts.length ∧
      ∀ k, (moment k).Moment s hooks (BulkLoad.loaded (items.take k)).length) ∧
    (∀ before, before <+: es →
      let σ := State.initial.run before
      (∀ k, (moment k).store.Shows σ.store.snapshot σ.store.triples) ∧
      loaded.2.store.Shows σ.store.snapshot σ.store.triples) ∧
    (loaded.1 = spec.1 ∧ loaded.2.Shows spec.2) ∧
    extended.1 = spec.1 ∧ extended.2.Shows spec.2 := by
  intro ts S load extend moment loaded extended spec
  obtain ⟨hsound, hversion⟩ := Store.sound_of_run (by omega) hs
  have hbase : s.version < transactionBase := by omega
  have hpublished : s.Published s.version s.triples := by
    have hwf := Store.wellFormed_run es
    rw [hs] at hwf
    exact ⟨hsound, rfl, (Store.triples_eq hwf).symm⟩
  obtain ⟨hanswer, hextend⟩ := hpublished.perform hbase (.extend ts)
  have hcount : extend.1 = S.card - s.triples.card := StepAnswer.count.inj hanswer
  obtain ⟨houtcome, hload⟩ := hsound.load hooks items
  rw [hpublished.view_eq] at houtcome hload
  have hindex := Store.load_eq_committed hsound hbase hooks items
  refine ⟨⟨?_, hcount, hindex, hload.version_eq⟩, ⟨?_, ?_⟩,
    fun before hbefore => ⟨fun k => ?_, ?_⟩, ?_, ?_⟩
  · rw [hcount]
    exact houtcome
  · exact (BulkLoad.moment_run hsound hooks items).calls_eq
  · exact fun k => BulkLoad.moment_run hsound hooks (items.take k)
  · exact shows_snapshot_moment hs hbefore (by omega) hooks (items.take k)
  · exact shows_snapshot_inTurn (g := ⟨context, s⟩) hs hbefore (.load hooks items :: later)
      (by rw [List.length_cons]; omega)
  · exact inTurn_published (g := ⟨context, load.2⟩) hload later (by omega)
  · exact inTurn_published (g := ⟨context, extend.2⟩) hextend later (by omega)

theorem loads_agree_with_transactions_of_failure :
    let load := Store.empty.load 1 [.ok default, .ok default, .error ()]
    load.1.outcome = .error () ∧ load.1.calls = [] ∧ load.2.version = 1 ∧
      (inTurn perform ⟨.bare, load.2⟩ [.remove default, .load 0 [.ok default]]).1 =
        ([.effect true, .loaded (.ok 1)] : List (Answer Unit)) := by
  intro load
  obtain ⟨⟨houtcome, -, -, hversion⟩, ⟨hcalls, -⟩, -, ⟨hanswers, -⟩, -⟩ :=
    loads_agree_with_transactions .bare [] rfl 1 [.ok default, .ok default, .error ()]
      [.remove default, .load 0 [.ok default]] (by decide)
  refine ⟨houtcome, hcalls, hversion, ?_⟩
  rw [hanswers]
  rfl

/-! ## Readers of transactions -/

/-- A reader that was taken at some moment of a run: a snapshot, or a reader of the transaction that
was running. -/
inductive Taken (es : List Event) : Reader → Prop
  | snapshot {before : List Event} (h : before <+: es) :
    Taken es (State.initial.run before).store.snapshot
  | ofTransaction {before : List Event} {x : Transaction} (h : before <+: es)
    (hx : State.initial.run before = .writing x) : Taken es x.reader

/-- A reader of a transaction that has ended shows what is published, if its index is the latest. -/
theorem shows_published_of_ended {s : Store} {r : Reader} (h : s.Published v S) (hs : s.WellFormed)
    (hv : v < transactionBase) (hr : transactionBase ≤ r.version)
    (hended : r.version ≤ transactionBase + s.started) (hg : r.generation = s.generation) :
    s.Shows r S := by
  have hvalid : (State.idle s).Valid v := .of_published h (Nat.le_refl v)
  have hshows := hvalid.shows_latest hs hv hr hended hg
  rw [show (State.idle s).latest = S from h.shows.toFinset_matching_any] at hshows
  exact hshows

/-- But readers that transactions have left behind see what is loaded, even if the load fails. -/
theorem kept_reader_sees_load : ¬∀ (es : List Event) (s : Store) (r : Reader)
    (items : List (Except Unit Triple)), es.countP Event.isStart < 2 ^ 62 →
    State.initial.run es = .idle s → Taken es r →
    ∀ t, s.contains r t = false → (s.load 0 items).2.contains r t = false := by
  intro h
  let s : Store := Store.empty.begin.commit
  let r : Reader := Store.empty.begin.reader
  let load := s.load 0 [.ok default, .error ()]
  have hbegun : State.initial.run [.begin] = .writing Store.empty.begin := rfl
  have htaken : Taken [.begin, .commit] r := .ofTransaction ⟨[.commit], rfl⟩ hbegun
  obtain ⟨hrunning, hview⟩ := Store.published_empty.view_begin (by decide)
  have hpublished : s.Published 1 ∅ := by
    rw [← hview]
    exact hrunning.commit
  -- the reader has the index that the load writes to, and a number above all versions
  have hwf : s.WellFormed := Store.wellFormed_run [.begin, .commit]
  have hbefore := shows_published_of_ended (r := r) hpublished hwf (by decide) (by decide)
    (by decide) Store.generation_commit_empty
  obtain ⟨-, hload⟩ := hpublished.sound.load 0 [.ok default, .error ()]
  have hwf' : load.2.WellFormed :=
    Store.wellFormed_run [.begin, .commit, .startLoad 0, .load default, .finishLoad]
  have hafter := shows_published_of_ended (r := r) hload hwf' (by decide) (by decide)
    (by decide) Store.generation_commit_empty
  have hnone := h [.begin, .commit] s r [.ok default, .error ()] (by decide) rfl htaken default
    (by rw [hbefore.contains]; decide)
  have hmem : default ∈ (BulkLoad.loaded [.ok default, .error ()]).toFinset :=
    List.mem_toFinset.2 List.mem_cons_self
  rw [hafter.contains, decide_eq_true (Finset.mem_union_right _ hmem)] at hnone
  cases hnone

end Graph

end Rdf
