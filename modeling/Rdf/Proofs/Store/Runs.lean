import Rdf.Proofs.Store.Publishing
import Rdf.Proofs.Store.Steps
import Mathlib.Algebra.Group.Nat.Defs

/-!
# Runs of a store

Writers take turns: a transaction or a load that has begun keeps the store until it ends, and
readers may look at the store after every single step of it. `Store.State` is what a store may be
doing at such a moment, `Store.Event` what may happen next, and a run is any list of events. An
event that the store is not ready for has to wait, so that it leaves the state as it is. Main
statements:

* `wellFormed_run`: every index that a run has built is well-formed at every moment;
* `State.Valid.run`: as long as fewer operations have been started than there are numbers below
  those of transactions, the store behind the running operation is sound, and the operation is
  related to it by the invariant of its kind;
* `State.Valid.run_induction`: what every event keeps of such states, every run keeps.
-/

namespace Rdf
namespace Store

/-! ## States and events -/

/-- What a store is doing: nothing, a transaction, or a bulk load. -/
inductive State where
  | idle (s : Store)
  | writing (x : Transaction)
  | loading (l : BulkLoad)

/-- What may happen next: the beginning, a step or the end of a transaction or a load, or the
removal of all triples. -/
inductive Event where
  | begin
  | perform (step : WriteStep)
  | commit
  | abort
  | startLoad (hooks : Nat)
  | load (t : Triple)
  | finishLoad
  | clear

/-- Whether an event is the start of an operation of its own. -/
def Event.isStart : Event → Bool
  | .begin | .startLoad _ | .clear => true
  | _ => false

namespace State

/-- The store that readers look at. -/
def store : State → Store
  | .idle s => s
  | .writing x => x.store
  | .loading l => l.store

/-- The state after an event. -/
def after : State → Event → State
  | .idle s, .begin => .writing s.begin
  | .idle s, .startLoad hooks => .loading (.start s hooks)
  | .idle s, .clear => .idle s.clear
  | .writing x, .perform step => .writing (x.perform step).2
  | .writing x, .commit => .idle x.commit
  | .writing x, .abort => .idle x.abort
  | .loading l, .load t => .loading (l.add t)
  | .loading l, .finishLoad => .idle l.finish
  | σ, _ => σ

/-- The state after a list of events. -/
def run (σ : State) (es : List Event) : State := es.foldl after σ

/-- A new store, before anything has happened. -/
def initial : State := .idle .empty

theorem run_cons (σ : State) (e : Event) (es : List Event) : σ.run (e :: es) = (σ.after e).run es :=
  rfl

theorem run_append (σ : State) (es es' : List Event) : σ.run (es ++ es') = (σ.run es).run es' :=
  List.foldl_append

/-- What every event keeps, every run keeps. -/
theorem run_induction {P : State → Prop} (h : ∀ σ e, P σ → P (σ.after e)) {σ : State} (hσ : P σ)
    (es : List Event) : P (σ.run es) := by
  induction es generalizing σ with
  | nil => exact hσ
  | cons e es ih => exact ih (h σ e hσ)

theorem run_perform (x : Transaction) (steps : List WriteStep) :
    (writing x).run (steps.map .perform) = .writing (inTurn Transaction.perform x steps).2 := by
  induction steps generalizing x with
  | nil => rfl
  | cons step steps ih => exact ih (x.perform step).2

/-- The steps and the end of an operation start no other one. -/
theorem countP_steps {α : Type} {f : α → Event} {e : Event} (hf : ∀ a, (f a).isStart = false)
    (he : e.isStart = false) (as : List α) :
    (as.map f ++ [e]).countP Event.isStart = 0 := by
  rw [List.countP_eq_zero]
  intro e' he'
  rw [List.mem_append, List.mem_map, List.mem_singleton] at he'
  obtain ⟨a, -, rfl⟩ | rfl := he'
  · rw [hf a]
    exact Bool.false_ne_true
  · rw [he]
    exact Bool.false_ne_true

/-- An event either changes what the store is doing in the way of its kind, or has to wait. -/
theorem after_cases {P : State → Event → State → Prop} (σ : State) (e : Event)
    (begin : ∀ s, P (.idle s) .begin (.writing s.begin))
    (startLoad : ∀ s hooks, P (.idle s) (.startLoad hooks) (.loading (.start s hooks)))
    (clear : ∀ s, P (.idle s) .clear (.idle s.clear))
    (perform : ∀ x step, P (.writing x) (.perform step) (.writing (x.perform step).2))
    (commit : ∀ x, P (.writing x) .commit (.idle x.commit))
    (abort : ∀ x, P (.writing x) .abort (.idle x.abort))
    (load : ∀ l t, P (.loading l) (.load t) (.loading (l.add t)))
    (finishLoad : ∀ l, P (.loading l) .finishLoad (.idle l.finish))
    (wait : ∀ σ e, P σ e σ) : P σ e (σ.after e) := by
  unfold after
  split
  · exact begin _
  · exact startLoad _ _
  · exact clear _
  · exact perform _ _
  · exact commit _
  · exact abort _
  · exact load _ _
  · exact finishLoad _
  · exact wait _ _

end State

/-! ## All indexes are well-formed -/

/-- All indexes built so far are well-formed, whichever of them a reader looks at. -/
def WellFormed (s : Store) : Prop := ∀ g, (s.contentOf g).WellFormed

section WellFormed

variable {s s' : Store}

theorem contentOf_of_lt {g : Nat} (h : g < s.past.size) : s.contentOf g = s.past[g] := by
  rw [contentOf, Array.getElem?_eq_getElem h, Option.getD_some]

theorem contentOf_of_size_le {g : Nat} (h : s.past.size ≤ g) : s.contentOf g = s.content := by
  rw [contentOf, Array.getElem?_eq_none h, Option.getD_none]

/-- Changes of the latest index leave the earlier ones. -/
theorem contentOf_of_past_eq (hp : s'.past = s.past) {g : Nat} (hg : g < s.past.size) :
    s'.contentOf g = s.contentOf g := by
  have hg' : g < s'.past.size := by rw [hp]; exact hg
  rw [contentOf_of_lt hg, contentOf_of_lt hg']
  simp only [hp]

/-- A new index leaves all that were there before. -/
theorem contentOf_of_past_push (hp : s'.past = s.past.push s.content) {g : Nat}
    (hg : g ≤ s.generation) : s'.contentOf g = s.contentOf g := by
  have hg' : g < s'.past.size := by
    rw [hp, Array.size_push]
    exact Nat.lt_succ_of_le hg
  rw [contentOf_of_lt hg']
  -- what was the latest index is now the last of the past ones
  simp only [hp, Array.getElem_push]
  split
  · next h => rw [contentOf_of_lt h]
  · next h => rw [contentOf_of_size_le (by omega)]

theorem WellFormed.content (h : s.WellFormed) : s.content.WellFormed := by
  rw [← contentOf_generation s]
  exact h s.generation

theorem WellFormed.of_past_eq (h : s.WellFormed) (hp : s'.past = s.past)
    (hc : s'.content.WellFormed) : s'.WellFormed := by
  intro g
  rcases Nat.lt_or_ge g s.past.size with hg | hg
  · rw [contentOf_of_past_eq hp hg]
    exact h g
  · rw [contentOf_of_size_le (by rw [hp]; exact hg)]
    exact hc

theorem WellFormed.of_past_push (h : s.WellFormed) (hp : s'.past = s.past.push s.content)
    (hc : s'.content.WellFormed) : s'.WellFormed := by
  intro g
  rcases Nat.lt_or_ge s.past.size g with hg | hg
  · rw [contentOf_of_size_le (by rw [hp, Array.size_push]; exact hg)]
    exact hc
  · rw [contentOf_of_past_push hp hg]
    exact h g

theorem WellFormed.compactIfNeeded (h : s.WellFormed) : s.compactIfNeeded.WellFormed := by
  rw [Store.compactIfNeeded]
  split
  · exact h
  · exact h.of_past_push rfl (evolves_compacted s).wellFormed

theorem WellFormed.moves {x x' : Transaction} (h : x.store.WellFormed)
    (hm : Transaction.Moves x x') : x'.store.WellFormed := by
  refine h.of_past_eq ?_ (hm.wellFormed h.content)
  rw [hm.store_eq]

theorem wellFormed_upgradeLogged {c : Content} (h : c.WellFormed) (number version : Nat)
    (log : List Change) : (Transaction.upgradeLogged number version log c).WellFormed := by
  induction log with
  | nil => exact h
  | cons e log ih =>
    rw [Transaction.upgradeLogged, List.foldr_cons]
    exact ih.modifyRange e.node _

theorem wellFormed_rollBackLogged {c : Content} (h : c.WellFormed) (number : Nat)
    (log : List Change) : (Transaction.rollBackLogged number log c).WellFormed := by
  induction log generalizing c with
  | nil => exact h
  | cons e log ih => exact ih (h.modifyRange e.node _)

theorem WellFormed.commit {x : Transaction} (h : x.store.WellFormed) : x.commit.WellFormed := by
  have hc := wellFormed_upgradeLogged h.content x.number (x.store.version + 1) x.log
  have hcommitted : x.committed.WellFormed := h.of_past_eq rfl hc
  exact hcommitted.compactIfNeeded

theorem WellFormed.abort {x : Transaction} (h : x.store.WellFormed) : x.abort.WellFormed := by
  have hc := wellFormed_rollBackLogged h.content x.number x.log
  have haborted : x.aborted.WellFormed := h.of_past_eq rfl hc
  exact haborted.compactIfNeeded

theorem WellFormed.add {l : BulkLoad} (h : l.store.WellFormed) (t : Triple) :
    (l.add t).store.WellFormed := by
  refine h.of_past_eq rfl ?_
  rw [BulkLoad.store_add]
  exact h.content.insert t _

theorem wellFormed_empty : empty.WellFormed := fun _ => Content.wellFormed_empty

/-- Every event keeps all indexes well-formed. -/
theorem WellFormed.after {σ : State} (h : σ.store.WellFormed) (e : Event) :
    (σ.after e).store.WellFormed := by
  revert h
  apply State.after_cases (P := fun σ _ σ' => σ.store.WellFormed → σ'.store.WellFormed)
  case begin => exact fun s h => h.of_past_eq rfl h.content
  case startLoad => exact fun s hooks h => h
  case clear => exact fun s h => h.of_past_push rfl Content.wellFormed_empty
  case perform => exact fun x step h => h.moves (Transaction.moves_perform h.content step)
  case commit => exact fun x h => h.commit
  case abort => exact fun x h => h.abort
  case load => exact fun l t h => h.add t
  case finishLoad => exact fun l h => h.of_past_eq rfl h.content
  case wait => exact fun σ e h => h

theorem WellFormed.run {σ : State} (h : σ.store.WellFormed) (es : List Event) :
    (σ.run es).store.WellFormed :=
  State.run_induction (P := fun σ => σ.store.WellFormed) (fun _ e h => h.after e) h es

/-- Every index that a run has built is well-formed at every moment. -/
theorem wellFormed_run (es : List Event) : (State.initial.run es).store.WellFormed :=
  WellFormed.run (σ := .initial) wellFormed_empty es

theorem wellFormed_of_idle {es : List Event} (hs : State.initial.run es = .idle s) :
    s.WellFormed := by
  have hwf := wellFormed_run es
  rw [hs] at hwf
  exact hwf

end WellFormed

/-! ## The invariant of a run -/

namespace State

/-- The state of a run in which `k` operations have been started: no operation is running and the
store is sound, or an operation is running that was begun at a sound store. -/
inductive Valid (k : Nat) : State → Prop
  | idle {s : Store} (h : s.Sound) (hk : s.version ≤ k) : Valid k (.idle s)
  | writing {s : Store} {x : Transaction} (h : Transaction.Running s x) (hk : s.version < k) :
    Valid k (.writing x)
  | loading {s : Store} {l : BulkLoad} (h : BulkLoad.Loading s l) (hk : s.version < k) :
    Valid k (.loading l)

variable {k : Nat} {σ : State}

theorem valid_initial : Valid 0 initial := .idle published_empty.sound (Nat.le_refl 0)

theorem Valid.of_published {s : Store} {v : Nat} {S : Finset Triple} (h : s.Published v S)
    (hk : v ≤ k) : Valid k (.idle s) := by
  refine .idle h.sound ?_
  rw [h.version_eq]
  exact hk

theorem Valid.mono {k' : Nat} (h : Valid k σ) (hk : k ≤ k') : Valid k' σ := by
  cases h with
  | idle h hv => exact .idle h (Nat.le_trans hv hk)
  | writing h hv => exact .writing h (Nat.lt_of_lt_of_le hv hk)
  | loading h hv => exact .loading h (Nat.lt_of_lt_of_le hv hk)

/-- Every event keeps the invariant. -/
theorem Valid.after (h : Valid k σ) (hk : k < transactionBase) (e : Event) :
    Valid (k + if e.isStart then 1 else 0) (σ.after e) := by
  revert h
  apply after_cases (P := fun σ e σ' => Valid k σ → Valid (k + if e.isStart then 1 else 0) σ')
  case begin =>
    intro s hvalid
    cases hvalid with
    | idle h hv =>
      have hlt := Nat.lt_of_le_of_lt hv hk
      exact .writing (Transaction.running_begin h hlt) (Nat.lt_succ_of_le hv)
  case startLoad =>
    intro s hooks hvalid
    cases hvalid with
    | idle h hv => exact .loading (BulkLoad.loading_start h hooks) (Nat.lt_succ_of_le hv)
  case clear =>
    intro s hvalid
    cases hvalid with
    | idle h hv => exact .of_published (published_clear s) (Nat.succ_le_succ hv)
  case perform =>
    intro x step hvalid
    cases hvalid with
    | writing h hv => exact .writing (h.performed step) hv
  case commit =>
    intro x hvalid
    cases hvalid with
    | writing h hv => exact .of_published h.commit hv
  case abort =>
    intro x hvalid
    cases hvalid with
    | writing h hv => exact .of_published h.abort (Nat.le_of_lt hv)
  case load =>
    intro l t hvalid
    cases hvalid with
    | loading h hv => exact .loading (h.add t).1 hv
  case finishLoad =>
    intro l hvalid
    cases hvalid with
    | loading h hv => exact .of_published h.finish hv
  case wait => exact fun σ e h => h.mono (Nat.le_add_right k _)

/-- Every run keeps the invariant, as long as there are numbers left for versions. -/
theorem Valid.run (h : Valid k σ) (es : List Event)
    (hk : k + es.countP Event.isStart < transactionBase) :
    Valid (k + es.countP Event.isStart) (σ.run es) := by
  induction es generalizing k σ with
  | nil => exact h
  | cons e es ih =>
    rw [List.countP_cons] at hk ⊢
    have hstep := h.after (by omega) e
    have hrest := ih hstep (by omega)
    -- the operations of the rest are counted from where the first event has led
    rw [Nat.add_comm (es.countP _), ← Nat.add_assoc]
    exact hrest

/-- What every event keeps of a valid state, every run keeps. -/
theorem Valid.run_induction {P : State → Prop}
    (hstep : ∀ {k : Nat} {σ : State} (e : Event), Valid k σ → P σ → P (σ.after e)) (h : Valid k σ)
    (hσ : P σ) (es : List Event) (hk : k + es.countP Event.isStart < transactionBase) :
    P (σ.run es) := by
  induction es generalizing k σ with
  | nil => exact hσ
  | cons e es ih =>
    rw [List.countP_cons] at hk
    exact ih (h.after (by omega) e) (hstep e h hσ) (by omega)

end State

/-- A run that has led to a store which does nothing has left it sound, with no more versions than
operations were started. -/
theorem sound_of_run {es : List Event} {s : Store}
    (hes : es.countP Event.isStart < transactionBase) (hs : State.initial.run es = .idle s) :
    s.Sound ∧ s.version ≤ es.countP Event.isStart := by
  have hvalid := State.valid_initial.run es (by omega)
  rw [hs, Nat.zero_add] at hvalid
  obtain ⟨hsound, hversion⟩ | _ | _ := hvalid
  exact ⟨hsound, hversion⟩

end Store
end Rdf
