import Rdf.Proofs.Store.Reads

/-!
# A graph is a set of triples

Every change of a graph is an operation of its own: a single one, a transaction with any steps that
succeeds or fails in the end, a load of a stream that may hold an error, or a clearing. A graph and
its clones share one store, so that the operations on all of them form one list, in the order in
which they got hold of the store. Main statements:

* `refines_set`: any list of operations gets the answers that a plain set of triples gives, and
  leaves a graph that shows the triples of that set;
* `run_events`: an operation is a run of the store, so that what holds of all runs holds of graphs.
-/

namespace Rdf

/-! ## Operations -/

namespace Graph

/-- An operation on a graph. The steps of a transaction are taken back if there is a failure. -/
inductive Operation (ε : Type) where
  | insert (t : Triple)
  | extend (ts : List Triple)
  | merge (ts : List Triple)
  | remove (t : Triple)
  | removeMatching (p : Pattern)
  | clear
  | load (hooks : Nat) (items : List (Except ε Triple))
  | transact (steps : List WriteStep) (failure : Option ε)

/-- The answer of an operation: whether it had an effect, how many triples it affected, or the error
that ended it. -/
inductive Answer (ε : Type) where
  | effect (b : Bool)
  | count (n : Nat)
  | merged (outcome : Except TermError Nat)
  | loaded (outcome : Except ε Nat)
  | transacted (outcome : Except (ε × List StepAnswer) (List StepAnswer))
  | done

variable {ε : Type}

/-- What a transaction ends in: its failure, if there is one. The answers of its steps are known in
any case. -/
def outcome (failure : Option ε) (answers : List StepAnswer) :
    Except (ε × List StepAnswer) (List StepAnswer) :=
  match failure with
  | some e => .error (e, answers)
  | none => .ok answers

/-- Performs steps in a transaction and ends it. -/
def closure (steps : List WriteStep) (failure : Option ε) (x : Transaction) :
    Except (ε × List StepAnswer) (List StepAnswer) × Transaction :=
  (outcome failure (inTurn Transaction.perform x steps).1, (inTurn Transaction.perform x steps).2)

/-- Performs an operation. -/
def perform (g : Graph) : Operation ε → Answer ε × Graph
  | .insert t => (.effect (g.insert t).1, (g.insert t).2)
  | .extend ts => (.count (g.extend ts).1, (g.extend ts).2)
  | .merge ts => (.merged (g.merge ts).1, (g.merge ts).2)
  | .remove t => (.effect (g.remove t).1, (g.remove t).2)
  | .removeMatching p => (.count (g.removeMatching p).1, (g.removeMatching p).2)
  | .clear => (.done, g.clear)
  | .load hooks items => (.loaded (g.load hooks items).1.outcome, (g.load hooks items).2)
  | .transact steps failure =>
    (.transacted (g.transact (closure steps failure)).1, (g.transact (closure steps failure)).2)

/-- An operation on a plain set of triples, with blank nodes adopted by a context. -/
def Operation.onSet (c : Context) (S : Finset Triple) : Operation ε → Answer ε × Finset Triple
  | .insert t => (.effect (decide (t ∉ S)), Insert.insert t S)
  | .extend ts => (.count ((S ∪ ts.toFinset).card - S.card), S ∪ ts.toFinset)
  | .merge ts =>
    match ts.mapM (adopt c) with
    | .ok us => (.merged (.ok ((S ∪ us.toFinset).card - S.card)), S ∪ us.toFinset)
    | .error e => (.merged (.error e), S)
  | .remove t => (.effect (decide (t ∈ S)), S.erase t)
  | .removeMatching p =>
    (.count (S.filter fun t => p.isMatch t = true).card, S.filter fun t => ¬ p.isMatch t = true)
  | .clear => (.done, ∅)
  | .load _ items =>
    let S' := S ∪ (BulkLoad.loaded items).toFinset
    match BulkLoad.failure items with
    | some e => (.loaded (.error e), S')
    | none => (.loaded (.ok (S'.card - S.card)), S')
  | .transact steps failure =>
    let (answers, S') := inTurn WriteStep.onSet S steps
    (.transacted (outcome failure answers), if failure.isSome then S else S')

end Graph

/-! ## Operations on a published store -/

namespace Store

variable {s : Store} {v : Nat} {S : Finset Triple}

theorem Published.view_begin (h : s.Published v S) (hv : v < transactionBase) :
    Transaction.Running s s.begin ∧ s.begin.view = S := by
  rw [← h.version_eq] at hv
  refine ⟨Transaction.running_begin h.sound hv, ?_⟩
  rw [Transaction.view_begin h.sound hv, h.version_eq, h.view_eq]

/-- A transaction with a single step publishes what the step makes of the set. -/
theorem Published.perform (h : s.Published v S) (hv : v < transactionBase) (step : WriteStep) :
    (s.begin.perform step).1 = (step.onSet S).1 ∧
      (s.begin.perform step).2.commit.Published (v + 1) (step.onSet S).2 := by
  obtain ⟨hrunning, hbegin⟩ := h.view_begin hv
  obtain ⟨hanswer, hview⟩ := hrunning.perform step
  rw [hbegin] at hanswer hview
  refine ⟨hanswer, ?_⟩
  rw [← hview, ← h.version_eq]
  exact (hrunning.performed step).commit

/-- A transaction publishes what its steps make of the set, or leaves the set if it fails. -/
theorem Published.transact {ε : Type} (h : s.Published v S) (hv : v < transactionBase)
    (steps : List WriteStep) (failure : Option ε) :
    let spec := inTurn WriteStep.onSet S steps
    let S' := if failure.isSome then S else spec.2
    (s.transact (Graph.closure steps failure)).1 = Graph.outcome failure spec.1 ∧
      ∃ w ≤ v + 1, (s.transact (Graph.closure steps failure)).2.Published w S' := by
  obtain ⟨hbegun, hbegin⟩ := h.view_begin hv
  obtain ⟨hanswers, hrunning, hview⟩ := hbegun.inTurn steps
  rw [hbegin] at hanswers hview
  cases failure with
  | none =>
    refine ⟨congrArg Except.ok hanswers, v + 1, Nat.le_refl _, ?_⟩
    have hcommit := hrunning.commit
    rw [hview, h.version_eq] at hcommit
    exact hcommit
  | some e =>
    refine ⟨congrArg (fun answers => Except.error (e, answers)) hanswers, v, Nat.le_succ v, ?_⟩
    have habort := hrunning.abort
    rw [h.version_eq, h.view_eq] at habort
    exact habort

end Store

namespace Graph

variable {ε : Type} {g : Graph} {v : Nat} {S : Finset Triple}

theorem context_perform (g : Graph) (op : Operation ε) : (g.perform op).2.context = g.context := by
  cases op with
  | merge ts =>
    show (g.merge ts).2.context = g.context
    rw [merge]
    cases ts.mapM (adopt g.context) <;> rfl
  | _ => rfl

/-- An operation does what it does on the set of published triples. -/
theorem perform_published (h : g.store.Published v S) (hv : v < Store.transactionBase)
    (op : Operation ε) :
    (g.perform op).1 = (op.onSet g.context S).1 ∧
      ∃ w ≤ v + 1, (g.perform op).2.store.Published w (op.onSet g.context S).2 := by
  rcases g with ⟨context, s⟩
  cases op with
  | insert t =>
    obtain ⟨hanswer, hpublished⟩ := h.perform hv (.insert t)
    exact ⟨congrArg Answer.effect (StepAnswer.effect.inj hanswer), v + 1, Nat.le_refl _, hpublished⟩
  | extend ts =>
    obtain ⟨hanswer, hpublished⟩ := h.perform hv (.extend ts)
    exact ⟨congrArg Answer.count (StepAnswer.count.inj hanswer), v + 1, Nat.le_refl _, hpublished⟩
  | merge ts =>
    show Answer.merged (merge ⟨context, s⟩ ts).1 = _ ∧
      ∃ w ≤ v + 1, (merge ⟨context, s⟩ ts).2.store.Published w _
    -- adoption comes before the transaction: if it fails, nothing has been begun
    rw [merge, Operation.onSet]
    cases ts.mapM (adopt context) with
    | ok us =>
      obtain ⟨hanswer, hpublished⟩ := h.perform hv (.extend us)
      have hcount := StepAnswer.count.inj hanswer
      exact ⟨congrArg (fun n => Answer.merged (.ok n)) hcount, v + 1, Nat.le_refl _, hpublished⟩
    | error e => exact ⟨rfl, v, Nat.le_succ v, h⟩
  | remove t =>
    obtain ⟨hanswer, hpublished⟩ := h.perform hv (.remove t)
    exact ⟨congrArg Answer.effect (StepAnswer.effect.inj hanswer), v + 1, Nat.le_refl _, hpublished⟩
  | removeMatching p =>
    obtain ⟨hanswer, hpublished⟩ := h.perform hv (.removeMatching p)
    exact ⟨congrArg Answer.count (StepAnswer.count.inj hanswer), v + 1, Nat.le_refl _, hpublished⟩
  | clear =>
    have hclear := Store.published_clear s
    rw [h.version_eq] at hclear
    exact ⟨rfl, v + 1, Nat.le_refl _, hclear⟩
  | load hooks items =>
    obtain ⟨houtcome, hpublished⟩ := h.sound.load hooks items
    rw [h.version_eq, h.view_eq] at houtcome hpublished
    show Answer.loaded (s.load hooks items).1.outcome = _ ∧
      ∃ w ≤ v + 1, (s.load hooks items).2.Published w _
    rw [houtcome, Operation.onSet]
    cases BulkLoad.failure items with
    | none => exact ⟨rfl, v + 1, Nat.le_refl _, hpublished⟩
    | some e => exact ⟨rfl, v + 1, Nat.le_refl _, hpublished⟩
  | transact steps failure =>
    obtain ⟨hanswer, hpublished⟩ := h.transact hv steps failure
    exact ⟨congrArg Answer.transacted hanswer, hpublished⟩

/-- Any list of operations gets the answers of a plain set of triples, and leaves a graph that shows
the triples of that set. As every beginning of a list is a list, this is so after each of them. -/
theorem refines_set (context : Context) (ops : List (Operation ε)) (hops : ops.length < 2 ^ 62) :
    let done := inTurn perform (empty context) ops
    let spec := inTurn (Operation.onSet context) ∅ ops
    done.1 = spec.1 ∧ done.2.Shows spec.2 := by
  have hbase : 2 ^ 62 ≤ Store.transactionBase := by decide
  -- every operation publishes at most one version, so that the numbers last for all that are left
  obtain ⟨hanswers, -, v, hpublished, -⟩ := inTurn_sim (f := perform)
    (g := Operation.onSet context) (s := empty context) (t := ∅)
    (R := fun n g S => g.context = context ∧
      ∃ v, g.store.Published v S ∧ v + n < Store.transactionBase)
    (by
      intro n g S op ⟨hcontext, v, hpublished, hv⟩
      subst hcontext
      obtain ⟨hanswer, w, hw, hpublished'⟩ := perform_published hpublished (by omega) op
      exact ⟨hanswer, context_perform g op, w, hpublished', by omega⟩)
    ops ⟨rfl, 0, Store.published_empty, by omega⟩
  exact ⟨hanswers, shows_of_snapshot hpublished.shows hpublished.size_eq⟩

theorem refines_set_of_failure :
    (inTurn perform (empty .bare) [.insert default, .transact [.remove default, .clear] (some ()),
      .remove default]).1 =
    [.effect true, .transacted (.error ((), [.effect true, .done])), .effect true] := by
  obtain ⟨hanswers, -⟩ := refines_set .bare [.insert default,
    .transact [.remove default, .clear] (some ()), .remove default] (by decide)
  rw [hanswers]
  rfl

/-! ## Operations as runs of the store -/

/-- The events of an operation on a graph with a context. -/
def Operation.events (c : Context) : Operation ε → List Store.Event
  | .insert t => [.begin, .perform (.insert t), .commit]
  | .extend ts => [.begin, .perform (.extend ts), .commit]
  | .merge ts =>
    match ts.mapM (adopt c) with
    | .ok us => [.begin, .perform (.extend us), .commit]
    | .error _ => []
  | .remove t => [.begin, .perform (.remove t), .commit]
  | .removeMatching p => [.begin, .perform (.removeMatching p), .commit]
  | .clear => [.clear]
  | .load hooks items =>
    .startLoad hooks :: ((BulkLoad.loaded items).map .load ++ [.finishLoad])
  | .transact steps failure =>
    .begin :: (steps.map .perform ++ [if failure.isSome then .abort else .commit])

theorem run_load (l : BulkLoad) (items : List (Except ε Triple)) :
    (Store.State.loading l).run ((BulkLoad.loaded items).map .load) = .loading (l.run items).2 := by
  induction items generalizing l with
  | nil => rfl
  | cons item items ih =>
    cases item with
    | ok t => exact ih (l.add t)
    | error e => rfl

/-- An operation is a run of the store from one idle state to the next. -/
theorem run_events (g : Graph) (op : Operation ε) :
    (Store.State.idle g.store).run (op.events g.context) = .idle (g.perform op).2.store := by
  rcases g with ⟨context, s⟩
  cases op with
  | merge ts =>
    show (Store.State.idle s).run _ = .idle (merge ⟨context, s⟩ ts).2.store
    rw [merge, Operation.events]
    cases ts.mapM (adopt context) <;> rfl
  | load hooks items =>
    show ((Store.State.loading (.start s hooks)).run _) = .idle (s.load hooks items).2
    rw [Store.State.run_append, run_load]
    rfl
  | transact steps failure =>
    show ((Store.State.writing s.begin).run _) = .idle (s.transact (closure steps failure)).2
    rw [Store.State.run_append, Store.State.run_perform]
    cases failure <;> rfl
  | _ => rfl

theorem countP_events_le (c : Context) (op : Operation ε) :
    (op.events c).countP Store.Event.isStart ≤ 1 := by
  cases op with
  | merge ts =>
    rw [Operation.events]
    cases ts.mapM (adopt c) with
    | ok us => exact Nat.le_refl 1
    | error e => exact Nat.zero_le 1
  | load hooks items =>
    rw [Operation.events, List.countP_cons, Store.State.countP_steps (fun _ => rfl) rfl]
    exact Nat.le_refl 1
  | transact steps failure =>
    have hend : (if failure.isSome then Store.Event.abort else .commit).isStart = false := by
      cases failure <;> rfl
    rw [Operation.events, List.countP_cons, Store.State.countP_steps (fun _ => rfl) hend]
    exact Nat.le_refl 1
  | _ => exact Nat.le_refl 1

/-- Whatever happens to a graph is a run of its store, in which every operation starts at most one
of the store. -/
theorem exists_run_from (g : Graph) (ops : List (Operation ε)) :
    ∃ es, es.countP Store.Event.isStart ≤ ops.length ∧
      (Store.State.idle g.store).run es = .idle (inTurn perform g ops).2.store := by
  induction ops generalizing g with
  | nil => exact ⟨[], Nat.le_refl 0, rfl⟩
  | cons op ops ih =>
    obtain ⟨es, hcount, hes⟩ := ih (g.perform op).2
    refine ⟨op.events g.context ++ es, ?_, ?_⟩
    · have hop := countP_events_le g.context op
      rw [List.countP_append, List.length_cons]
      omega
    · rw [Store.State.run_append, run_events]
      exact hes

theorem exists_run (context : Context) (ops : List (Operation ε)) :
    ∃ es, es.countP Store.Event.isStart ≤ ops.length ∧
      Store.State.initial.run es = .idle (inTurn perform (empty context) ops).2.store :=
  exists_run_from (empty context) ops

end Graph
end Rdf
