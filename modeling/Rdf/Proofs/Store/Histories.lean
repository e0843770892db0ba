import Rdf.Proofs.Store.Steps
import Rdf.Proofs.Store.VersionRange

/-!
# A range is the history of its triple

What happens to the range of one triple: transactions insert and remove it any number of times under
their numbers and end by an upgrade to the next version or by a rollback, and loads insert it in the
version that they publish. `History` keeps the plain record of it: which insertions and removals had
an effect, in which version, and those that are not published yet. Main statements:

* `Recorded.step`: every event keeps a range and its record together, with the range that was
  published last as the link between them;
* `faithful_history`: in every history the answers are those of the record, the bounds are published
  versions with at most the writer's own number behind them, and a version contains the triple iff
  the last change at or before it was an insertion.
-/

namespace Rdf
namespace VersionRange

/-! ## Events -/

/-- Who may change a range: nobody, the transaction with a number, or a load. -/
inductive Writer where
  | nobody
  | transaction (number : Nat)
  | load
deriving DecidableEq

/-- What may happen next: a transaction or a load begins, makes a change or ends. Whether a range is
touched at all is up to them, as the store publishes versions for all triples at once. -/
inductive Event where
  | begin (number : Nat)
  | startLoad
  | add
  | remove
  | commit
  | rollBack
  | finishLoad
deriving DecidableEq

/-- Whether an event publishes a version. -/
def Event.isPublication : Event → Bool
  | .commit | .finishLoad => true
  | _ => false

/-- The range of a triple, the version published last, and the writer at work. -/
structure Cell where
  range : VersionRange
  version : Nat
  writer : Writer

namespace Cell

/-- A triple that has never been present. -/
def new : Cell := ⟨.absent, 0, .nobody⟩

/-- Takes over a changed range, if there is one, and tells whether there is. -/
def change (s : Cell) : Option VersionRange → Option Bool × Cell
  | some range => (some true, { s with range })
  | none => (some false, s)

/-- Performs an event, and gives the answer of an insertion or a removal. An event that does not fit
the writer has to wait. -/
def step (s : Cell) (e : Event) : Option Bool × Cell :=
  match s.writer, e with
  | .nobody, .begin number => (none, { s with writer := .transaction number })
  | .nobody, .startLoad => (none, { s with writer := .load })
  | .transaction number, .add => s.change (s.range.add? number)
  | .transaction number, .remove => s.change (s.range.remove? number)
  | .transaction number, .commit =>
    (none, ⟨s.range.upgrade number (s.version + 1), s.version + 1, .nobody⟩)
  | .transaction number, .rollBack => (none, ⟨s.range.rollBack number, s.version, .nobody⟩)
  | .load, .add => s.change (s.range.add? (s.version + 1))
  | .load, .finishLoad => (none, ⟨s.range, s.version + 1, .nobody⟩)
  | _, _ => (none, s)

end Cell

/-! ## Records -/

/-- The changes of a triple's presence: those published, with their versions, and those of the writer
at work. The latest comes first, and an insertion is `true`. -/
structure History where
  version : Nat
  published : List (Nat × Bool)
  pending : List Bool
  writer : Writer

namespace History

/-- The record of a triple that has never been present. -/
def new : History := ⟨0, [], [], .nobody⟩

/-- Whether the latest change of all was an insertion. -/
def isPresent (h : History) : Bool := (h.pending ++ h.published.map Prod.snd).head? = some true

/-- The latest published change at or before a version. -/
def lastChange (h : History) (version : Nat) : Option Bool :=
  (h.published.find? fun change => change.1 ≤ version).map Prod.snd

/-- Makes a change, unless the triple is already so. -/
def change (h : History) (insertion : Bool) : Option Bool × History :=
  if h.isPresent = insertion then (some false, h)
  else (some true, { h with pending := insertion :: h.pending })

/-- Publishes the changes of the writer as the next version. -/
def publish (h : History) : History :=
  ⟨h.version + 1, h.pending.map (fun change => (h.version + 1, change)) ++ h.published, [], .nobody⟩

/-- Records an event. -/
def step (h : History) (e : Event) : Option Bool × History :=
  match h.writer, e with
  | .nobody, .begin number => (none, { h with writer := .transaction number })
  | .nobody, .startLoad => (none, { h with writer := .load })
  | .transaction _, .add => h.change true
  | .transaction _, .remove => h.change false
  | .transaction _, .commit => (none, h.publish)
  | .transaction _, .rollBack => (none, { h with pending := [], writer := .nobody })
  | .load, .add => h.change true
  | .load, .finishLoad => (none, h.publish)
  | _, _ => (none, h)

end History

/-! ## Ranges and their records -/

/-- The number under which a writer makes its changes. -/
def Writer.mark (version : Nat) : Writer → Nat
  | .transaction number => number
  | .nobody | .load => version + 1

/-- A range and a record tell the same of a triple. The range `before` is the one that was published
last, and the writer has added its mark to it, or has not. -/
structure Recorded (before : VersionRange) (s : Cell) (h : History) : Prop where
  version_eq : h.version = s.version
  writer_eq : h.writer = s.writer
  below : before.Below (s.version + 1)
  lt_mark : s.version < s.writer.mark s.version
  writing : Writing (s.writer.mark s.version) before s.range
  idle : s.writer = .nobody → s.range.bounds = before.bounds ∧ h.pending = []
  published_le : ∀ change ∈ h.published, change.1 ≤ s.version
  contains : ∀ w ≤ s.version, before.contains w = decide (h.lastChange w = some true)
  isPresent : s.range.isPresent = h.isPresent
  canonical : s.range.Canonical

theorem recorded_new : Recorded .absent .new .new where
  version_eq := rfl
  writer_eq := rfl
  below := below_absent 1
  lt_mark := Nat.lt_succ_self 0
  writing := Writing.refl _ _
  idle _ := ⟨rfl, rfl⟩
  published_le _ hchange := absurd hchange List.not_mem_nil
  contains _ _ := rfl
  isPresent := rfl
  canonical := canonical_absent

section Recorded

variable {before : VersionRange} {s : Cell} {h : History} {w : Nat}

/-- Bounds alone decide what a version contains, and whether the triple is present. -/
theorem contains_eq_of_bounds_eq {r r' : VersionRange} (hb : r'.bounds = r.bounds) (v : Nat) :
    r'.contains v = r.contains v := by
  rw [VersionRange.contains, hb, VersionRange.contains]

/-- The latest of the published changes is the last one at or before the published version. -/
theorem History.lastChange_of_le (hle : ∀ change ∈ h.published, change.1 ≤ w) :
    h.lastChange w = (h.published.map Prod.snd).head? := by
  rw [History.lastChange]
  cases hp : h.published with
  | nil => rfl
  | cons change published =>
    rw [hp, List.forall_mem_cons] at hle
    rw [List.find?_cons_of_pos (by simpa using hle.1)]
    rfl

/-- Older versions do not see what is published now. -/
theorem History.lastChange_publish_of_le (hw : w ≤ h.version) :
    h.publish.lastChange w = h.lastChange w := by
  have hskip : (h.pending.map fun change => (h.version + 1, change)).find?
      (fun change => change.1 ≤ w) = none := by
    rw [List.find?_eq_none]
    intro change hchange
    obtain ⟨insertion, -, rfl⟩ := List.mem_map.1 hchange
    simp only [decide_eq_true_eq]
    omega
  rw [lastChange, publish, List.find?_append, hskip, Option.none_or, lastChange]

theorem History.map_snd_publish (h : History) :
    h.publish.published.map Prod.snd = h.pending ++ h.published.map Prod.snd := by
  rw [publish, List.map_append, List.map_map]
  simp only [Function.comp_def, List.map_id']

namespace Recorded

theorem below_mark (hr : Recorded before s h) : before.Below (s.writer.mark s.version) :=
  hr.below.mono hr.lt_mark

/-- The published range is present iff the latest published change was an insertion. -/
theorem isPresent_before (hr : Recorded before s h) :
    before.isPresent = decide ((h.published.map Prod.snd).head? = some true) := by
  have hle : ∀ b ∈ before.bounds, b ≤ s.version := fun b hb => Nat.le_of_lt_succ (hr.below.lt b hb)
  rw [← contains_of_le hr.below.sorted hle, hr.contains s.version (Nat.le_refl _),
    History.lastChange_of_le hr.published_le]

/-- A writer turns presence over, unless the triple is already so. -/
theorem change (hr : Recorded before s h) (hs : s.writer ≠ .nobody) (insertion : Bool)
    {r : Option VersionRange} (hchange : r = if s.range.isPresent = insertion then none
      else some (s.range.toggle (s.writer.mark s.version))) :
    (s.change r).1 = (h.change insertion).1 ∧
      Recorded before (s.change r).2 (h.change insertion).2 := by
  rw [hchange, History.change, ← hr.isPresent]
  by_cases hp : s.range.isPresent = insertion
  · rw [if_pos hp, if_pos hp]
    exact ⟨rfl, hr⟩
  · rw [if_neg hp, if_neg hp]
    refine ⟨rfl, hr.version_eq, hr.writer_eq, hr.below, hr.lt_mark,
      hr.writing.toggle hr.below_mark, fun hnobody => absurd hnobody hs, hr.published_le,
      hr.contains, ?_, hr.canonical.toggle _⟩
    have hflip : (!s.range.isPresent) = insertion := by cases insertion <;> simpa using hp
    show (s.range.toggle _).isPresent = decide (some insertion = some true)
    rw [isPresent_toggle, hflip]
    simp

/-- When the changes of a writer become the next version, that version sees the latest state. -/
theorem publish (hr : Recorded before s h) {r : VersionRange}
    (hw : Writing (s.version + 1) before r) (hp : r.isPresent = s.range.isPresent) (hc : r.Canonical) :
    Recorded r ⟨r, s.version + 1, .nobody⟩ h.publish := by
  have hle : ∀ change ∈ h.publish.published, change.1 ≤ s.version + 1 := by
    intro change hchange
    rw [History.publish, List.mem_append, hr.version_eq] at hchange
    rcases hchange with hchange | hchange
    · obtain ⟨insertion, -, rfl⟩ := List.mem_map.1 hchange
      exact Nat.le_refl _
    · exact Nat.le_succ_of_le (hr.published_le change hchange)
  have hpresent : r.isPresent = h.publish.isPresent := by
    rw [hp, hr.isPresent, History.isPresent, History.isPresent, h.map_snd_publish]
    rfl
  refine ⟨congrArg (· + 1) hr.version_eq, rfl, hw.below_succ hr.below, Nat.lt_succ_self _,
    Writing.refl _ _, fun _ => ⟨rfl, rfl⟩, hle, fun w hle' => ?_, hpresent, hc⟩
  rcases Nat.lt_or_eq_of_le hle' with hlt | rfl
  · have hw' : w ≤ h.version := by
      rw [hr.version_eq]
      exact Nat.le_of_lt_succ hlt
    rw [hw.contains_of_lt hr.below hlt, hr.contains w (Nat.le_of_lt_succ hlt),
      History.lastChange_publish_of_le hw']
  · rw [hw.contains_self hr.below, hpresent, History.lastChange_of_le hle]
    rfl

/-- When the changes of a transaction are taken back, what is left is the published range. -/
theorem rollBack (hr : Recorded before s h) {number : Nat} (hs : s.writer = .transaction number) :
    Recorded (s.range.rollBack number) ⟨s.range.rollBack number, s.version, .nobody⟩
      { h with pending := [], writer := .nobody } := by
  have hwriting := hr.writing
  have hmark := hr.below_mark
  rw [hs] at hwriting hmark
  have hbounds : (s.range.rollBack number).bounds = before.bounds :=
    hwriting.bounds_rollBack hmark
  refine ⟨hr.version_eq, rfl, ⟨?_, ?_⟩, Nat.lt_succ_self _, Writing.refl _ _,
    fun _ => ⟨rfl, rfl⟩, hr.published_le, fun w hw => ?_, ?_, hr.canonical.rollBack number⟩
  · rw [hbounds]
    exact hr.below.sorted
  · rw [hbounds]
    exact hr.below.lt
  · rw [contains_eq_of_bounds_eq hbounds]
    exact hr.contains w hw
  · have hpresent : (s.range.rollBack number).isPresent = before.isPresent := by
      rw [VersionRange.isPresent, hbounds, VersionRange.isPresent]
    rw [hpresent, hr.isPresent_before]
    rfl

/-- A writer begins with the published range. -/
theorem start (hr : Recorded before s h) (hs : s.writer = .nobody) (writer : Writer)
    (hlt : s.version < writer.mark s.version) (hwriter : writer ≠ .nobody) :
    Recorded before { s with writer } { h with writer } where
  version_eq := hr.version_eq
  writer_eq := rfl
  below := hr.below
  lt_mark := hlt
  writing := Or.inl (hr.idle hs).1
  idle hnobody := absurd hnobody hwriter
  published_le := hr.published_le
  contains := hr.contains
  isPresent := hr.isPresent
  canonical := hr.canonical

/-- Every event gets the answer of the record, and keeps range and record together. -/
theorem step (hr : Recorded before s h) (e : Event)
    (he : ∀ number, e = .begin number → s.version < number) :
    (s.step e).1 = (h.step e).1 ∧ ∃ before', Recorded before' (s.step e).2 (h.step e).2 := by
  rcases s with ⟨range, version, writer⟩
  rcases h with ⟨_, published, pending, _⟩
  obtain rfl := hr.version_eq
  obtain rfl := hr.writer_eq
  rename_i version writer
  cases writer with
  | nobody =>
    cases e with
    | begin number =>
      exact ⟨rfl, before, hr.start rfl (.transaction number) (he number rfl) nofun⟩
    | startLoad => exact ⟨rfl, before, hr.start rfl .load (Nat.lt_succ_self _) nofun⟩
    | _ => exact ⟨rfl, before, hr⟩
  | transaction number =>
    cases e with
    | add =>
      obtain ⟨hanswer, hnext⟩ := hr.change nofun true (add?_eq range number)
      exact ⟨hanswer, before, hnext⟩
    | remove =>
      have hremove : range.remove? number =
          if range.isPresent = false then none else some (range.toggle number) := by
        rw [remove?_eq]
        cases range.isPresent <;> rfl
      obtain ⟨hanswer, hnext⟩ := hr.change nofun false hremove
      exact ⟨hanswer, before, hnext⟩
    | commit =>
      exact ⟨rfl, _, hr.publish (hr.writing.upgrade hr.below_mark)
        (isPresent_upgrade range number _) (hr.canonical.upgrade number _)⟩
    | rollBack => exact ⟨rfl, _, hr.rollBack rfl⟩
    | _ => exact ⟨rfl, before, hr⟩
  | load =>
    cases e with
    | add =>
      obtain ⟨hanswer, hnext⟩ := hr.change nofun true (add?_eq range (version + 1))
      exact ⟨hanswer, before, hnext⟩
    | finishLoad => exact ⟨rfl, range, hr.publish hr.writing rfl hr.canonical⟩
    | _ => exact ⟨rfl, before, hr⟩

end Recorded

/-- An event publishes one version at most. -/
theorem Cell.version_step_le (s : Cell) (e : Event) :
    (s.step e).2.version ≤ s.version + if e.isPublication then 1 else 0 := by
  have hchange : ∀ r, (s.change r).2.version = s.version := by
    intro r
    cases r <;> rfl
  unfold Cell.step
  split <;> simp [hchange, Event.isPublication]

/-- A history gets the answers of the record, and keeps range and record together, as long as every
transaction begins with a number that is larger than all versions so far. -/
theorem Recorded.run (hr : Recorded before s h) (es : List Event)
    (hes : ∀ es' number later, es = es' ++ .begin number :: later →
      s.version + es'.countP Event.isPublication < number) :
    (inTurn Cell.step s es).1 = (inTurn History.step h es).1 ∧
      ∃ before', Recorded before' (inTurn Cell.step s es).2 (inTurn History.step h es).2 := by
  induction es generalizing before s h with
  | nil => exact ⟨rfl, before, hr⟩
  | cons e es ih =>
    obtain ⟨hanswer, before', hnext⟩ :=
      hr.step e fun number heq => hes [] number es (by rw [heq]; rfl)
    have hversion := s.version_step_le e
    obtain ⟨hanswers, hend⟩ := ih hnext fun es' number later heq => by
      have hlt := hes (e :: es') number later (by rw [heq]; rfl)
      rw [List.countP_cons] at hlt
      omega
    refine ⟨?_, hend⟩
    show (s.step e).1 :: (inTurn Cell.step (s.step e).2 es).1 =
      (h.step e).1 :: (inTurn History.step (h.step e).2 es).1
    rw [hanswer, hanswers]

end Recorded

/-! ## Faithful ranges -/

/-- The range shows what the record says: the triple is present after the last change iff that was
an insertion, and in a published version iff the last change at or before it was one. Its bounds are
published versions, with nothing but the mark of the writer behind them, and it has the form for
their number. -/
structure Faithful (s : Cell) (h : History) : Prop where
  version_eq : h.version = s.version
  isPresent : s.range.isPresent = h.isPresent
  idle : s.writer = .nobody →
    s.range.bounds.Pairwise (· < ·) ∧ ∀ b ∈ s.range.bounds, b ≤ s.version
  writing : ∃ bs : List Nat, bs.Pairwise (· < ·) ∧ (∀ b ∈ bs, b ≤ s.version) ∧
    (s.range.bounds = bs ∨ s.range.bounds = bs ++ [s.writer.mark s.version])
  contains_iff : ∀ w ≤ s.version, s.range.contains w = true ↔ h.lastChange w = some true
  canonical : s.range.Canonical

theorem Recorded.faithful {before : VersionRange} {s : Cell} {h : History}
    (hr : Recorded before s h) : Faithful s h where
  version_eq := hr.version_eq
  isPresent := hr.isPresent
  idle hs := by
    rw [(hr.idle hs).1]
    exact ⟨hr.below.sorted, fun b hb => Nat.le_of_lt_succ (hr.below.lt b hb)⟩
  writing := ⟨before.bounds, hr.below.sorted, fun b hb => Nat.le_of_lt_succ (hr.below.lt b hb),
    hr.writing⟩
  contains_iff w hw := by
    rw [hr.writing.contains_of_lt hr.below_mark (Nat.lt_of_le_of_lt hw hr.lt_mark),
      hr.contains w hw, decide_eq_true_eq]
  canonical := hr.canonical

/-- Whatever transactions and loads do to a triple, its range tells faithfully what has happened, at
every moment: every insertion and removal gets the answer of the plain record, and the range shows
what the record says. A transaction needs a number larger than the versions published before it. -/
theorem faithful_history (es : List Event)
    (hes : ∀ before number later, es = before ++ .begin number :: later →
      before.countP Event.isPublication < number) :
    let done := inTurn Cell.step .new es
    let spec := inTurn History.step .new es
    done.1 = spec.1 ∧ Faithful done.2 spec.2 := by
  intro done spec
  obtain ⟨hanswers, before, hr⟩ := recorded_new.run es fun es' number later heq => by
    have hlt := hes es' number later heq
    show 0 + _ < number
    omega
  exact ⟨hanswers, hr.faithful⟩

theorem faithful_history_of_reinserted :
    let es : List Event := [.begin 7, .add, .remove, .add, .commit, .begin 8, .remove, .rollBack,
      .begin 9, .remove, .commit, .startLoad, .add, .add, .finishLoad, .begin 10, .remove]
    (inTurn Cell.step .new es).2.range.contains 2 = false ∧
      (inTurn Cell.step .new es).2.range.contains 3 = true := by
  intro es
  have hes : ∀ before number later, es = before ++ .begin number :: later →
      before.countP Event.isPublication < number := by
    intro before number later heq
    have hnumber : .begin number ∈ es := by simp [heq]
    have hcount : before.countP Event.isPublication ≤ es.countP Event.isPublication := by
      rw [heq]
      exact (List.sublist_append_left before _).countP_le
    rw [show es.countP Event.isPublication = 3 from rfl] at hcount
    simp only [es, List.mem_cons, Event.begin.injEq, reduceCtorEq, List.not_mem_nil, or_false,
      false_or] at hnumber
    omega
  obtain ⟨-, hfaithful⟩ := faithful_history es hes
  refine ⟨?_, (hfaithful.contains_iff 3 (by decide)).2 rfl⟩
  rw [← Bool.not_eq_true, hfaithful.contains_iff 2 (by decide)]
  decide

end VersionRange
end Rdf
