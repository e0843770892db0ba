import Rdf.Proofs.Store.Runs

/-!
# Versions and transaction numbers over a run

Only the latest index is written. The indexes that it has replaced stay as they are, and their bounds
are versions that had been published by then. Main statements:

* `State.Valid.frozen_run`: a run leaves all indexes but the latest as they are;
* `State.Valid.pastBelow_run`, `below_of_idle`: all bounds of all indexes are published versions when
  no operation is running;
* `State.Ended.run`: the number of a transaction that has ended stays below those of later ones.
-/

namespace Rdf
namespace Store

/-! ## Replaced indexes -/

/-- The store `s'` has the indexes that `s` has replaced, as they were. -/
structure Frozen (s s' : Store) : Prop where
  generation_le : s.generation ≤ s'.generation
  contentOf_eq : ∀ g < s.generation, s'.contentOf g = s.contentOf g

namespace Frozen

variable {s s' s'' : Store}

theorem refl (s : Store) : Frozen s s := ⟨Nat.le_refl _, fun _ _ => rfl⟩

theorem trans (h : Frozen s s') (h' : Frozen s' s'') : Frozen s s'' where
  generation_le := Nat.le_trans h.generation_le h'.generation_le
  contentOf_eq g hg :=
    (h'.contentOf_eq g (Nat.lt_of_lt_of_le hg h.generation_le)).trans (h.contentOf_eq g hg)

theorem of_past_eq (hp : s'.past = s.past) : Frozen s s' where
  generation_le := by rw [generation, generation, hp]
  contentOf_eq _ hg := contentOf_of_past_eq hp hg

theorem of_past_push (hp : s'.past = s.past.push s.content) : Frozen s s' where
  generation_le := by
    rw [generation, generation, hp, Array.size_push]
    exact Nat.le_succ _
  contentOf_eq _ hg := contentOf_of_past_push hp (Nat.le_of_lt hg)

theorem compactIfNeeded (s : Store) : Frozen s s.compactIfNeeded := by
  rw [Store.compactIfNeeded]
  split
  · exact refl s
  · exact of_past_push rfl

end Frozen

/-- The bounds of the indexes that have been replaced are published versions. -/
def PastBelow (s : Store) : Prop := ∀ g < s.generation, (s.contentOf g).Below (s.version + 1)

namespace PastBelow

variable {s s' : Store}

theorem of_past_eq (h : s.PastBelow) (hp : s'.past = s.past) (hv : s.version ≤ s'.version) :
    s'.PastBelow := by
  intro g hg
  have hg' : g < s.generation := by
    rw [generation, hp] at hg
    exact hg
  rw [contentOf_of_past_eq hp hg']
  exact (h g hg').mono (Nat.succ_le_succ hv)

/-- The latest index may be replaced if its bounds are published versions. -/
theorem of_past_push (h : s.PastBelow) (hp : s'.past = s.past.push s.content)
    (hc : s.content.Below (s.version + 1)) (hv : s.version ≤ s'.version) : s'.PastBelow := by
  intro g hg
  rw [generation, hp, Array.size_push] at hg
  rw [contentOf_of_past_push hp (Nat.le_of_lt_succ hg)]
  rcases Nat.lt_succ_iff_lt_or_eq.1 hg with hg | rfl
  · exact (h g hg).mono (Nat.succ_le_succ hv)
  · rw [show s.past.size = s.generation from rfl, contentOf_generation]
    exact hc.mono (Nat.succ_le_succ hv)

theorem compactIfNeeded (h : s.PastBelow) (hc : s.content.Below (s.version + 1)) :
    s.compactIfNeeded.PastBelow := by
  rw [Store.compactIfNeeded]
  split
  · exact h
  · exact h.of_past_push rfl hc (Nat.le_refl _)

end PastBelow

namespace State

variable {k : Nat} {σ : State}

/-- Every event leaves the replaced indexes as they are. -/
theorem Valid.frozen_after (h : Valid k σ) (e : Event) : Frozen σ.store (σ.after e).store := by
  revert h
  apply after_cases (P := fun σ _ σ' => Valid k σ → Frozen σ.store σ'.store)
  case begin => exact fun s _ => .of_past_eq rfl
  case startLoad => exact fun s hooks _ => .refl s
  case clear => exact fun s _ => .of_past_push rfl
  case perform =>
    intro x step hvalid
    cases hvalid with
    | writing h _ =>
      apply Frozen.of_past_eq
      show (x.perform step).2.store.past = x.store.past
      rw [(Transaction.moves_perform h.evolves.wellFormed step).store_eq]
  case commit =>
    intro x _
    have hcommitted : Frozen x.store x.committed := .of_past_eq rfl
    exact hcommitted.trans (.compactIfNeeded _)
  case abort =>
    intro x _
    have haborted : Frozen x.store x.aborted := .of_past_eq rfl
    exact haborted.trans (.compactIfNeeded _)
  case load => exact fun l t _ => .of_past_eq rfl
  case finishLoad => exact fun l _ => .of_past_eq rfl
  case wait => exact fun σ e _ => .refl _

/-- A run leaves all indexes but the latest as they are. -/
theorem Valid.frozen_run (h : Valid k σ) (es : List Event)
    (hk : k + es.countP Event.isStart < transactionBase) : Frozen σ.store (σ.run es).store :=
  h.run_induction (P := fun σ' => Frozen σ.store σ'.store)
    (fun e hvalid hfrozen => hfrozen.trans (hvalid.frozen_after e)) (.refl _) es hk

/-- No event brings a bound into a replaced index that is not a published version. -/
theorem Valid.pastBelow_after (h : Valid k σ) (hp : σ.store.PastBelow) (e : Event) :
    (σ.after e).store.PastBelow := by
  revert h hp
  apply after_cases (P := fun σ _ σ' => Valid k σ → σ.store.PastBelow → σ'.store.PastBelow)
  case begin => exact fun s _ hp => hp.of_past_eq rfl (Nat.le_refl _)
  case startLoad => exact fun s hooks _ hp => hp
  case clear =>
    intro s hvalid hp
    cases hvalid with
    | idle h _ => exact hp.of_past_push rfl h.below (Nat.le_succ _)
  case perform =>
    intro x step hvalid hp
    cases hvalid with
    | writing h _ =>
      have hstore := (Transaction.moves_perform h.evolves.wellFormed step).store_eq
      refine hp.of_past_eq ?_ (Nat.le_of_eq ?_)
      · show (x.perform step).2.store.past = x.store.past
        rw [hstore]
      · show x.store.version = (x.perform step).2.store.version
        rw [hstore]
  case commit =>
    intro x hvalid hp
    cases hvalid with
    | writing h _ =>
      have hcommitted : x.committed.PastBelow := hp.of_past_eq rfl (Nat.le_succ _)
      exact hcommitted.compactIfNeeded h.committed.sound.below
  case abort =>
    intro x hvalid hp
    cases hvalid with
    | writing h _ =>
      have haborted : x.aborted.PastBelow := hp.of_past_eq rfl (Nat.le_refl _)
      exact haborted.compactIfNeeded h.aborted.sound.below
  case load => exact fun l t _ hp => hp.of_past_eq rfl (Nat.le_refl _)
  case finishLoad => exact fun l _ hp => hp.of_past_eq rfl (Nat.le_succ _)
  case wait => exact fun σ e _ hp => hp

theorem Valid.pastBelow_run (h : Valid k σ) (hp : σ.store.PastBelow) (es : List Event)
    (hk : k + es.countP Event.isStart < transactionBase) : (σ.run es).store.PastBelow :=
  h.run_induction (P := fun σ => σ.store.PastBelow)
    (fun e hvalid hpast => hvalid.pastBelow_after hpast e) hp es hk

theorem pastBelow_initial : initial.store.PastBelow := fun _ hg => absurd hg (Nat.not_lt_zero _)

end State

section Idle

variable {es : List Event} {s : Store}

/-- Between operations, all bounds of all indexes are published versions. -/
theorem below_of_idle (hes : es.countP Event.isStart < transactionBase)
    (hs : State.initial.run es = .idle s) (g : Nat) : (s.contentOf g).Below (s.version + 1) := by
  have hpast := State.valid_initial.pastBelow_run State.pastBelow_initial es (by omega)
  rw [hs] at hpast
  rcases Nat.lt_or_ge g s.generation with hg | hg
  · exact hpast g hg
  · rw [contentOf_of_size_le hg]
    exact (sound_of_run hes hs).1.below

end Idle

/-! ## Transactions that have ended -/

section Started

variable {s : Store} {x : Transaction}

theorem started_compactIfNeeded (s : Store) : s.compactIfNeeded.started = s.started := by
  rw [compactIfNeeded]
  split <;> rfl

/-- The numbers of later transactions are larger than that of a transaction that has ended. -/
theorem number_eq_commit (h : Transaction.Running s x) :
    x.number = transactionBase + x.commit.started := by
  rw [Transaction.commit, started_compactIfNeeded, h.committed_eq, h.number_eq]

theorem number_eq_abort (h : Transaction.Running s x) :
    x.number = transactionBase + x.abort.started := by
  rw [Transaction.abort, started_compactIfNeeded, h.aborted_eq, h.number_eq]

end Started

namespace State

/-- The transaction with number `n` has ended: a running one has a larger number. -/
def Ended (n : Nat) : State → Prop
  | .idle s => n ≤ transactionBase + s.started
  | .writing x => n < x.number
  | .loading l => n ≤ transactionBase + l.store.started

variable {k n : Nat} {σ : State}

theorem Ended.after (hn : Ended n σ) (h : Valid k σ) (e : Event) : Ended n (σ.after e) := by
  revert h hn
  apply after_cases (P := fun σ _ σ' => Ended n σ → Valid k σ → Ended n σ')
  case begin => exact fun s hn _ => Nat.lt_succ_of_le hn
  case startLoad => exact fun s hooks hn _ => hn
  case clear => exact fun s hn _ => hn
  case perform =>
    intro x step hn hvalid
    cases hvalid with
    | writing h _ =>
      show n < (x.perform step).2.number
      rw [(Transaction.moves_perform h.evolves.wellFormed step).number_eq]
      exact hn
  case commit =>
    intro x hn hvalid
    cases hvalid with
    | writing h _ =>
      show n ≤ transactionBase + x.commit.started
      rw [← number_eq_commit h]
      exact Nat.le_of_lt hn
  case abort =>
    intro x hn hvalid
    cases hvalid with
    | writing h _ =>
      show n ≤ transactionBase + x.abort.started
      rw [← number_eq_abort h]
      exact Nat.le_of_lt hn
  case load => exact fun l t hn _ => hn
  case finishLoad => exact fun l hn _ => hn
  case wait => exact fun σ e hn _ => hn

/-- A transaction that has ended stays behind later ones. -/
theorem Ended.run (hn : Ended n σ) (h : Valid k σ) (es : List Event)
    (hk : k + es.countP Event.isStart < transactionBase) : Ended n (σ.run es) :=
  h.run_induction (fun e hvalid hended => hended.after hvalid e) hn es hk

end State

end Store
end Rdf
