import Rdf.Store.Content

/-!
Readers, which see one version of one index, and cursors, which walk a chain of the index and yield
the triples that match a pattern.
-/

namespace Rdf

/-- A view of one version, in the index with the given number. -/
structure Reader where
  generation : Nat
  version : Nat
deriving DecidableEq

/-- A place in a chain, with what is left to check of the nodes from there on. -/
structure Cursor where
  reader : Reader
  chain : ChainKind
  filter : Pattern
  position : Option Nat

namespace Content

/-- Latest node and length of the chain of the term that a pattern binds a position to. A term
without triples has the empty chain. -/
def bound (c : Content) (p : Pattern) (position : Position) : Option (Option Nat × Nat) :=
  (p.termAt position).map fun t =>
    match (c.chains.get position)[t]? with
    | some chain => (some chain.last, chain.count)
    | none => (none, 0)

/-- Whether a chain is at most as long as another, where a free position has no chain and sets no
limit. -/
def fits (chain : Option Nat × Nat) : Option (Option Nat × Nat) → Bool
  | some other => chain.2 ≤ other.2
  | none => true

/-- Cursor over the triples that match a pattern, on the shortest of the chains that the bound
positions select. Of chains of one length the leftmost position's is taken. -/
def query (c : Content) (reader : Reader) (p : Pattern) : Cursor :=
  let s := c.bound p .subject
  let q := c.bound p .predicate
  let o := c.bound p .object
  -- counts include nodes that the reader does not see: they only decide how far it has to walk
  match s.filter fun chain => fits chain q && fits chain o with
  | some (start, _) => ⟨reader, .sharing .subject, p.free .subject, start⟩
  | none =>
    match q.filter fun chain => fits chain o with
    | some (start, _) => ⟨reader, .sharing .predicate, p.free .predicate, start⟩
    | none =>
      match o with
      | some (start, _) => ⟨reader, .sharing .object, p.free .object, start⟩
      | none => ⟨reader, .all, p, c.last⟩

/-- The triple of a node, if the cursor yields it. -/
def yielded (c : Content) (cursor : Cursor) (node : Nat) : Option Triple :=
  match c.nodes[node]? with
  | some n =>
    if n.range.contains cursor.reader.version && cursor.filter.isMatch n.triple then some n.triple
    else none
  | none => none

/-- The next triple that the cursor yields from a node on, and the node after it. -/
def nextFrom (c : Content) (cursor : Cursor) (node : Nat) : Option (Triple × Option Nat) :=
  match c.yielded cursor node with
  | some t => some (t, c.previous cursor.chain node)
  | none =>
    match _h : c.previous cursor.chain node with
    | some i => c.nextFrom cursor i
    | none => none
termination_by node
decreasing_by exact previous_lt ‹_›

/-- The next triple that the cursor yields, and the cursor behind it. -/
def next (c : Content) (cursor : Cursor) : Option Triple × Cursor :=
  match cursor.position.bind (c.nextFrom cursor) with
  | some (t, position) => (some t, { cursor with position })
  | none => (none, { cursor with position := none })

/-- The next `count` triples that the cursor yields, or fewer at its end. -/
def take (c : Content) : (count : Nat) → Cursor → List Triple × Cursor
  | 0, cursor => ([], cursor)
  | count + 1, cursor =>
    match c.next cursor with
    | (some t, cursor) =>
      let (ts, cursor) := c.take count cursor
      (t :: ts, cursor)
    | (none, cursor) => ([], cursor)

/-- All triples that the cursor still yields. -/
def rest (c : Content) (cursor : Cursor) : List Triple :=
  (c.walk cursor.chain cursor.position).filterMap (c.yielded cursor)

/-- The triples of a version that match a pattern, the latest first. -/
def matching (c : Content) (reader : Reader) (p : Pattern) : List Triple :=
  c.rest (c.query reader p)

end Content

end Rdf
