import Rdf.Proofs.Store.Transactions

/-!
# The steps of a transaction

Whoever runs a transaction performs operations one after the other and sees the answer of each. The
same operations make sense on a plain set of triples, and `Running.inTurn` says that nobody can tell
the difference: any list of operations gets the answers that the set gives, and leaves the triples
that the set has in the end.
-/

namespace Rdf

/-- Performs operations one after the other, and gathers their answers. -/
def inTurn {σ α β : Type} (perform : σ → α → β × σ) : σ → List α → List β × σ
  | s, [] => ([], s)
  | s, a :: as =>
    let (b, s) := perform s a
    let (bs, s) := inTurn perform s as
    (b :: bs, s)

theorem inTurn_append {σ α β : Type} (f : σ → α → β × σ) (s : σ) (as as' : List α) :
    (inTurn f s (as ++ as')).2 = (inTurn f (inTurn f s as).2 as').2 := by
  induction as generalizing s with
  | nil => rfl
  | cons a as ih => exact ih (f s a).2

/-- If two systems answer alike and stay related for every single operation, they answer alike for
lists of operations. The relation may depend on the number of operations that are left. -/
theorem inTurn_sim {σ τ α β : Type} {f : σ → α → β × σ} {g : τ → α → β × τ} {R : Nat → σ → τ → Prop}
    (hstep : ∀ n s t a, R (n + 1) s t → (f s a).1 = (g t a).1 ∧ R n (f s a).2 (g t a).2)
    (as : List α) {s : σ} {t : τ} (h : R as.length s t) :
    (inTurn f s as).1 = (inTurn g t as).1 ∧ R 0 (inTurn f s as).2 (inTurn g t as).2 := by
  induction as generalizing s t with
  | nil => exact ⟨rfl, h⟩
  | cons a as ih =>
    obtain ⟨hanswer, hnext⟩ := hstep as.length s t a h
    obtain ⟨hanswers, hend⟩ := ih hnext
    refine ⟨?_, hend⟩
    show (f s a).1 :: (inTurn f (f s a).2 as).1 = (g t a).1 :: (inTurn g (g t a).2 as).1
    rw [hanswer, hanswers]

/-- An operation of a running transaction. -/
inductive WriteStep where
  | insert (t : Triple)
  | extend (ts : List Triple)
  | remove (t : Triple)
  | removeMatching (p : Pattern)
  | clear

/-- The answer of an operation: whether it had an effect, or how many triples it affected. -/
inductive StepAnswer where
  | effect (b : Bool)
  | count (n : Nat)
  | done
deriving DecidableEq

/-- An operation on a plain set of triples. -/
def WriteStep.onSet (S : Finset Triple) : WriteStep → StepAnswer × Finset Triple
  | .insert t => (.effect (decide (t ∉ S)), Insert.insert t S)
  | .extend ts => (.count ((S ∪ ts.toFinset).card - S.card), S ∪ ts.toFinset)
  | .remove t => (.effect (decide (t ∈ S)), S.erase t)
  | .removeMatching p =>
    (.count (S.filter fun t => p.isMatch t = true).card, S.filter fun t => ¬ p.isMatch t = true)
  | .clear => (.done, ∅)

namespace Transaction

/-- Performs one operation. -/
def perform (x : Transaction) : WriteStep → StepAnswer × Transaction
  | .insert t => (.effect (x.insert t).1, (x.insert t).2)
  | .extend ts => (.count (x.extend ts).1, (x.extend ts).2)
  | .remove t => (.effect (x.remove t).1, (x.remove t).2)
  | .removeMatching p => (.count (x.removeMatching p).1, (x.removeMatching p).2)
  | .clear => (.done, x.clear)

theorem moves_perform {x : Transaction} (h : x.store.content.WellFormed) (step : WriteStep) :
    Moves x (x.perform step).2 := by
  cases step with
  | insert t => exact moves_insert h t
  | extend ts => exact moves_extend h ts
  | remove t => exact moves_remove x t
  | removeMatching p => exact moves_removeMatching x p
  | clear => exact moves_clear x

theorem moves_inTurn {x : Transaction} (h : x.store.content.WellFormed) (steps : List WriteStep) :
    Moves x (Rdf.inTurn perform x steps).2 := by
  induction steps generalizing x with
  | nil => exact .refl
  | cons step steps ih =>
    have hm := moves_perform h step
    exact hm.trans (ih (hm.wellFormed h))

section Running

variable {s : Store} {x : Transaction}

theorem Running.performed (h : Running s x) (step : WriteStep) : Running s (x.perform step).2 :=
  h.moves (moves_perform h.evolves.wellFormed step)

/-- An operation does what it does on the set of the triples present. -/
theorem Running.perform (h : Running s x) (step : WriteStep) :
    (x.perform step).1 = (step.onSet x.view).1 ∧
      (x.perform step).2.view = (step.onSet x.view).2 := by
  cases step with
  | insert t =>
    obtain ⟨hanswer, hview⟩ := h.insert t
    exact ⟨congrArg StepAnswer.effect hanswer, hview⟩
  | extend ts =>
    obtain ⟨hanswer, hview⟩ := h.extend ts
    exact ⟨congrArg StepAnswer.count hanswer, hview⟩
  | remove t =>
    obtain ⟨hanswer, hview⟩ := h.remove t
    exact ⟨congrArg StepAnswer.effect hanswer, hview⟩
  | removeMatching p =>
    obtain ⟨hanswer, hview⟩ := h.removeMatching p
    exact ⟨congrArg StepAnswer.count hanswer, hview⟩
  | clear => exact ⟨rfl, h.clear⟩

/-- Any list of operations gets the answers of the plain set, and leaves its triples. -/
theorem Running.inTurn (h : Running s x) (steps : List WriteStep) :
    let done := inTurn Transaction.perform x steps
    let spec := inTurn WriteStep.onSet x.view steps
    done.1 = spec.1 ∧ Running s done.2 ∧ done.2.view = spec.2 := by
  apply inTurn_sim (R := fun _ x S => Running s x ∧ x.view = S) _ steps ⟨h, rfl⟩
  intro _ x S step ⟨hx, hS⟩
  subst hS
  obtain ⟨hanswer, hview⟩ := hx.perform step
  exact ⟨hanswer, hx.performed step, hview⟩

end Running

end Transaction
end Rdf
