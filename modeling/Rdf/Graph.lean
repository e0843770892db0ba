import Rdf.Context
import Rdf.Store.BulkLoad

/-!
Graphs: a set of triples bound to the context that builds its terms. Every change is a transaction
of its own. Triples from other contexts are merged with their blank nodes replaced by those of this
graph's context.
-/

namespace Rdf

/-- A store bound to a context. -/
structure Graph where
  context : Context
  store : Store

namespace Graph

/-- The graph without triples. -/
def empty (context : Context) : Graph := ⟨context, .empty⟩

/-- Replaces the blank nodes of a triple by those of a context, the subject first. -/
def adopt (c : Context) (t : Triple) : Except TermError Triple := do
  let subject ← match t.subject with
    | .blankNode b => do pure (Subject.blankNode (← c.adopt b))
    | .iri i => pure (Subject.iri i)
  let object ← match t.object with
    | .blankNode b => do pure (Term.blankNode (← c.adopt b))
    | other => pure other
  return ⟨subject, t.predicate, object⟩

/-- Runs a transaction that cannot fail. -/
def write {α : Type} (g : Graph) (f : Transaction → α × Transaction) : α × Graph :=
  match g with
  | ⟨context, store⟩ =>
    match store.write f with
    | (a, store) => (a, ⟨context, store⟩)

/-- Runs a transaction, and takes it back if it fails. -/
def transact {α ε : Type} (g : Graph) (f : Transaction → Except ε α × Transaction) :
    Except ε α × Graph :=
  match g with
  | ⟨context, store⟩ =>
    match store.transact f with
    | (a, store) => (a, ⟨context, store⟩)

/-- Inserts a triple. Tells whether it was absent. -/
def insert (g : Graph) (t : Triple) : Bool × Graph := g.write (·.insert t)

/-- Inserts triples in one transaction, and counts those that were absent. -/
def extend (g : Graph) (ts : List Triple) : Nat × Graph := g.write (·.extend ts)

/-- Inserts triples with their blank nodes adopted by this graph's context, and counts those that
were absent. Nothing is inserted if one cannot be adopted. -/
def merge (g : Graph) (ts : List Triple) : Except TermError Nat × Graph :=
  match ts.mapM (adopt g.context) with
  | .ok ts =>
    match g.extend ts with
    | (count, g) => (.ok count, g)
  | .error e => (.error e, g)

/-- Removes a triple. Tells whether it was present. -/
def remove (g : Graph) (t : Triple) : Bool × Graph := g.write (·.remove t)

/-- Removes the triples that match a pattern, and counts them. -/
def removeMatching (g : Graph) (p : Pattern) : Nat × Graph := g.write (·.removeMatching p)

/-- Removes all triples. -/
def clear (g : Graph) : Graph :=
  match g with
  | ⟨context, store⟩ => ⟨context, store.clear⟩

/-- Loads triples as one version. -/
def load {ε : Type} (g : Graph) (hooks : Nat) (items : List (Except ε Triple)) :
    LoadReport ε × Graph :=
  match g with
  | ⟨context, store⟩ =>
    match store.load hooks items with
    | (report, store) => (report, ⟨context, store⟩)

/-- Number of triples. -/
def size (g : Graph) : Nat := g.store.size

/-- Whether there are no triples. -/
def isEmpty (g : Graph) : Bool := g.store.isEmpty

/-- Whether a triple is in the graph. -/
def contains (g : Graph) (t : Triple) : Bool := g.store.contains g.store.snapshot t

/-- Cursor over the triples that match a pattern. -/
def query (g : Graph) (p : Pattern) : Cursor := g.store.query g.store.snapshot p

/-- Whether some triple matches a pattern. -/
def containsMatch (g : Graph) (p : Pattern) : Bool := !(g.store.take 1 (g.query p)).1.isEmpty

/-- The triples that match a pattern. -/
def matching (g : Graph) (p : Pattern) : List Triple := g.store.matching g.store.snapshot p

/-- Checks the index. -/
def check (g : Graph) : Except Corruption Unit := g.store.check g.store.snapshot

/-- Text for diagnostics. -/
def debug (g : Graph) : String :=
  let scope := match g.context.scope with
    | some scope => "Some(ScopeId(" ++ scope.text ++ "))"
    | none => "None"
  "Graph \x7b scope: " ++ scope ++ ", len: " ++ Digits.text g.size ++ " \x7d"

end Graph

/-- Text of a store for diagnostics. -/
def Store.debug (s : Store) : String :=
  "MemoryTripleStorage \x7b len: " ++ Digits.text s.size ++ ", .. \x7d"

/-- Text of a reader for diagnostics. -/
def Reader.debug (r : Reader) : String :=
  "MemoryStorageReader \x7b snapshot_id: " ++ Digits.text r.version ++ ", .. \x7d"

/-- New graph of a context. -/
def Context.graph (c : Context) : Except TermError Graph := do
  c.need .graph
  return .empty c

end Rdf
