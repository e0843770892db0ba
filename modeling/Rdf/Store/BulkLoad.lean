import Rdf.Store.Basic

/-!
Bulk loads: many triples inserted directly in the version that is published when the load ends. A
load that meets an error ends there, and keeps the triples before it.
-/

namespace Rdf

/-- A call of a progress hook: its index, and the number of triples processed. -/
structure HookCall where
  hook : Nat
  processed : Nat
deriving DecidableEq

/-- A running load: the store, the number of hooks, the triples processed and those that were
absent, and the calls of hooks so far. -/
structure BulkLoad where
  store : Store
  hooks : Nat
  processed : Nat
  added : Nat
  calls : Array HookCall

namespace BulkLoad

/-- Number of triples between calls of the hooks. -/
def interval : Nat := 1000000

/-- Starts a load. -/
def start (s : Store) (hooks : Nat) : BulkLoad := ⟨s, hooks, 0, 0, #[]⟩

/-- Calls of all hooks in order. -/
def callsAt (hooks processed : Nat) : List HookCall :=
  (List.range hooks).map fun hook => ⟨hook, processed⟩

/-- Inserts the next triple. -/
def add (l : BulkLoad) (t : Triple) : BulkLoad :=
  match l with
  | ⟨⟨past, content, version, size, started⟩, hooks, processed, added, calls⟩ =>
    match content.insert t (version + 1) with
    | (node, content) =>
      let processed := processed + 1
      let added := if node.isSome then added + 1 else added
      let due := if processed % interval = 0 then callsAt hooks processed else []
      ⟨⟨past, content, version, size, started⟩, hooks, processed, added, calls.appendList due⟩

/-- Ends the load: publishes the next version. -/
def finish (l : BulkLoad) : Store :=
  match l with
  | ⟨⟨past, content, version, size, started⟩, _, _, added, _⟩ =>
    ⟨past, content, version + 1, size + added, started⟩

/-- Inserts the triples up to the first error, if there is one. -/
def run {ε : Type} (l : BulkLoad) : List (Except ε Triple) → Option ε × BulkLoad
  | [] => (none, l)
  | .ok t :: items => (l.add t).run items
  | .error e :: _ => (some e, l)

end BulkLoad

/-- What a load has done: the number of triples that were absent or the error that ended it, and the
calls of hooks. -/
structure LoadReport (ε : Type) where
  outcome : Except ε Nat
  calls : List HookCall

/-- Loads triples as one version. -/
def Store.load {ε : Type} (s : Store) (hooks : Nat) (items : List (Except ε Triple)) :
    LoadReport ε × Store :=
  match (BulkLoad.start s hooks).run items with
  | (failure, l) =>
    let outcome := match failure with
      | some e => .error e
      | none => .ok l.added
    (⟨outcome, l.calls.toList⟩, l.finish)

end Rdf
