import Rdf.Store.Checking
import Rdf.Store.Cursor

/-!
A store: a set of triples kept in versions. Changes are made in transactions, whose numbers are
larger than every version, so that readers of versions do not see them before they are committed.
Removed triples stay in the index for the readers that still see them; once they outnumber the
present ones, a new index is built, and older readers keep theirs.
-/

namespace Rdf

/-- The indexes built so far, the latest of them apart, with the version published last, the number
of triples in it, and the number of transactions started. -/
structure Store where
  past : Array Content
  content : Content
  version : Nat
  size : Nat
  started : Nat

/-- A change of a node in a transaction. -/
inductive Change where
  | inserted (node : Nat)
  | removed (node : Nat)
deriving DecidableEq

/-- The node that was changed. -/
def Change.node : Change → Nat
  | .inserted node => node
  | .removed node => node

/-- Whether the change was an insertion. -/
def Change.isInsertion : Change → Bool
  | .inserted _ => true
  | .removed _ => false

/-- A running transaction: the store it changes, its number, and its changes, the latest first. -/
structure Transaction where
  store : Store
  number : Nat
  log : List Change

namespace Store

/-- The store without triples. -/
def empty : Store := ⟨#[], .empty, 0, 0, 0⟩

instance : Inhabited Store := ⟨empty⟩

/-- Number of the latest index. -/
def generation (s : Store) : Nat := s.past.size

/-- The index with a number. -/
def contentOf (s : Store) (generation : Nat) : Content := (s.past[generation]?).getD s.content

/-- View of the version published last. -/
def snapshot (s : Store) : Reader := ⟨s.generation, s.version⟩

/-- Whether the published version has no triples. -/
def isEmpty (s : Store) : Bool := s.size = 0

/-- Whether a reader sees a triple. -/
def contains (s : Store) (r : Reader) (t : Triple) : Bool :=
  (s.contentOf r.generation).contains r.version t

/-- Number of triples that a reader sees. -/
def count (s : Store) (r : Reader) : Nat := (s.contentOf r.generation).size r.version

/-- Whether a reader sees no triple. -/
def seesNothing (s : Store) (r : Reader) : Bool := (s.contentOf r.generation).isEmpty r.version

/-- Cursor over the triples that a reader sees and that match a pattern. -/
def query (s : Store) (r : Reader) (p : Pattern) : Cursor := (s.contentOf r.generation).query r p

/-- The triples that a reader sees and that match a pattern. -/
def matching (s : Store) (r : Reader) (p : Pattern) : List Triple :=
  (s.contentOf r.generation).matching r p

/-- The next triples of a cursor, at most `count`, and the cursor behind them. -/
def take (s : Store) (count : Nat) (cursor : Cursor) : List Triple × Cursor :=
  (s.contentOf cursor.reader.generation).take count cursor

/-- All triples that a cursor still yields. -/
def rest (s : Store) (cursor : Cursor) : List Triple :=
  (s.contentOf cursor.reader.generation).rest cursor

/-- Checks the index of a reader. -/
def check (s : Store) (r : Reader) : Except Corruption Unit := (s.contentOf r.generation).check

/-- Puts a new index in the place of the latest. -/
def renew (s : Store) (content : Content) : Store :=
  match s with
  | ⟨past, old, version, size, started⟩ => ⟨past.push old, content, version, size, started⟩

/-- Number of removed triples that an index may always hold. -/
def compactionThreshold : Nat := 1024

/-- Index of the triples of the published version alone, in the order of their insertion, present
since the first version. -/
def compacted (s : Store) : Content :=
  (s.matching s.snapshot .any).reverse.foldl (fun c t => (c.insert t 0).2) .empty

/-- Builds a new index if removed triples outnumber the present ones. -/
def compactIfNeeded (s : Store) : Store :=
  if s.content.index.size - s.size < max compactionThreshold s.size then s else s.renew s.compacted

/-- Number of the transaction before the first. -/
def transactionBase : Nat := 9223372036854775807

/-- Starts a transaction. -/
def begin (s : Store) : Transaction :=
  match s with
  | ⟨past, content, version, size, started⟩ =>
    ⟨⟨past, content, version, size, started + 1⟩, transactionBase + (started + 1), []⟩

/-- Removes all triples as a version of its own. Readers keep their index. -/
def clear (s : Store) : Store :=
  match s with
  | ⟨past, old, version, _, started⟩ => ⟨past.push old, .empty, version + 1, 0, started⟩

end Store

namespace Transaction

/-- View of the triples as this transaction has left them so far. -/
def reader (x : Transaction) : Reader := ⟨x.store.generation, x.number⟩

/-- Makes a change to the index, and logs the node that changed. Tells whether one did. -/
def apply (x : Transaction) (change : Content → Option Nat × Content) (entry : Nat → Change) :
    Bool × Transaction :=
  match x with
  | ⟨⟨past, content, version, size, started⟩, number, log⟩ =>
    match change content with
    | (some node, content) =>
      (true, ⟨⟨past, content, version, size, started⟩, number, entry node :: log⟩)
    | (none, content) => (false, ⟨⟨past, content, version, size, started⟩, number, log⟩)

/-- Inserts a triple. Tells whether it was absent. -/
def insert (x : Transaction) (t : Triple) : Bool × Transaction :=
  let number := x.number
  x.apply (·.insert t number) .inserted

/-- Removes a triple. Tells whether it was present. -/
def remove (x : Transaction) (t : Triple) : Bool × Transaction :=
  let number := x.number
  x.apply (·.remove t number) .removed

/-- Makes a change for each element of a list, and counts those that had an effect. -/
def countEffects {α : Type} (step : Transaction → α → Bool × Transaction) :
    Transaction → List α → Nat → Nat × Transaction
  | x, [], count => (count, x)
  | x, a :: as, count =>
    match step x a with
    | (true, x) => countEffects step x as (count + 1)
    | (false, x) => countEffects step x as count

/-- Inserts triples, and counts those that were absent. -/
def extend (x : Transaction) (ts : List Triple) : Nat × Transaction := countEffects insert x ts 0

/-- Removes the triples that match a pattern, and counts them. -/
def removeMatching (x : Transaction) (p : Pattern) : Nat × Transaction :=
  -- the matches are collected before the first of them is removed
  let found := x.store.matching x.reader p
  countEffects remove x found 0

/-- Removes all triples. -/
def clear (x : Transaction) : Transaction :=
  let number := x.number
  -- all nodes that there are, present or not: removing an absent one changes nothing
  let nodes := x.store.content.index.toList.map Prod.snd
  (countEffects (fun x node => x.apply (·.removeNode node number) .removed) x nodes 0).2

/-- Changes the versions of all logged nodes, the earliest change first. -/
def upgradeLogged (number version : Nat) (log : List Change) (c : Content) : Content :=
  log.foldr (fun change c => c.modifyRange change.node (·.upgrade number version)) c

/-- Takes back all logged changes, the latest first. -/
def rollBackLogged (number : Nat) (log : List Change) (c : Content) : Content :=
  log.foldl (fun c change => c.modifyRange change.node (·.rollBack number)) c

/-- The store with the changes made the next version. -/
def committed (x : Transaction) : Store :=
  match x with
  | ⟨⟨past, content, version, size, started⟩, number, log⟩ =>
    let added := log.countP Change.isInsertion
    let removed := log.countP (!·.isInsertion)
    ⟨past, upgradeLogged number (version + 1) log content, version + 1, size + added - removed,
      started⟩

/-- The store with the changes taken back. -/
def aborted (x : Transaction) : Store :=
  match x with
  | ⟨⟨past, content, version, size, started⟩, number, log⟩ =>
    ⟨past, rollBackLogged number log content, version, size, started⟩

/-- Ends the transaction: its changes become the next version. -/
def commit (x : Transaction) : Store := x.committed.compactIfNeeded

/-- Ends the transaction without effect. -/
def abort (x : Transaction) : Store := x.aborted.compactIfNeeded

end Transaction

namespace Store

/-- Runs a transaction, and takes it back if it fails. -/
def transact {α ε : Type} (s : Store) (f : Transaction → Except ε α × Transaction) :
    Except ε α × Store :=
  match f s.begin with
  | (.ok a, x) => (.ok a, x.commit)
  | (.error e, x) => (.error e, x.abort)

/-- Runs a transaction that cannot fail. -/
def write {α : Type} (s : Store) (f : Transaction → α × Transaction) : α × Store :=
  match f s.begin with
  | (a, x) => (a, x.commit)

end Store

end Rdf
