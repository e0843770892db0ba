import Rdf.Store.VersionRange
import Rdf.Term.Pattern
import Std.Data.HashMap

/-!
The index of a store: a table of nodes, one for each triple ever inserted, that only grows. Every
node is linked to the node before it in four chains: that of all nodes, and those of the nodes with
the same term at one of the three positions. A link that does not lead to an earlier node ends its
chain.
-/

namespace Rdf

/-- A chain: of all nodes, or of those that share the term at a position. -/
inductive ChainKind where
  | all
  | sharing (p : Position)
deriving DecidableEq

/-- A triple with the versions it is present in and the nodes before it in its chains. -/
structure Node where
  triple : Triple
  range : VersionRange
  previous : Option Nat
  previousAt : ByPosition (Option Nat)

/-- The node before this one in a chain. -/
def Node.link (n : Node) : ChainKind → Option Nat
  | .all => n.previous
  | .sharing p => n.previousAt.get p

/-- The latest node of a chain and the number of nodes in it. -/
structure Chain where
  last : Nat
  count : Nat
deriving DecidableEq

/-- The chain after a node has been put at its end. -/
def Chain.extended (node : Nat) : Option Chain → Option Chain
  | none => some ⟨node, 1⟩
  | some chain => some ⟨node, chain.count + 1⟩

/-- All triples inserted since the index was built, with their chains. -/
structure Content where
  nodes : Array Node
  index : Std.HashMap Triple Nat
  last : Option Nat
  chains : ByPosition (Std.HashMap Term Chain)

namespace Content

/-- The index without triples. -/
def empty : Content := ⟨#[], ∅, none, ⟨∅, ∅, ∅⟩⟩

instance : Inhabited Content := ⟨empty⟩

/-- The versions in which the triple of a node is present. -/
def rangeOf (c : Content) (node : Nat) : VersionRange :=
  match c.nodes[node]? with
  | some n => n.range
  | none => .absent

/-- Changes the versions of a node. -/
def modifyRange (c : Content) (node : Nat) (f : VersionRange → VersionRange) : Content :=
  match c with
  | ⟨nodes, index, last, chains⟩ =>
    ⟨nodes.modify node fun n => { n with range := f n.range }, index, last, chains⟩

/-- Latest node of the chain of a term. -/
def lastOf (m : Std.HashMap Term Chain) (t : Term) : Option Nat := (m[t]?).map Chain.last

/-- Appends the node of a triple that has none. -/
def append (c : Content) (t : Triple) (range : VersionRange) : Content :=
  match c with
  | ⟨nodes, index, last, chains⟩ =>
    let node := nodes.size
    -- the links are taken before the chains grow, so that they lead to earlier nodes
    let before := chains.map fun p m => lastOf m (t.termAt p)
    ⟨nodes.push ⟨t, range, last, before⟩, index.insert t node, some node,
      chains.map fun p m => m.alter (t.termAt p) (Chain.extended node)⟩

/-- Inserts a triple in a version. Gives the node that changed, if one did. -/
def insert (c : Content) (t : Triple) (version : Nat) : Option Nat × Content :=
  match c.index[t]? with
  | some node =>
    match (c.rangeOf node).add? version with
    | some range => (some node, c.modifyRange node fun _ => range)
    | none => (none, c)
  | none => (some c.nodes.size, c.append t (.since version))

/-- Removes the triple of a node in a version. Gives the node, if it changed. -/
def removeNode (c : Content) (node version : Nat) : Option Nat × Content :=
  match (c.rangeOf node).remove? version with
  | some range => (some node, c.modifyRange node fun _ => range)
  | none => (none, c)

/-- Removes a triple in a version. Gives the node that changed, if one did. -/
def remove (c : Content) (t : Triple) (version : Nat) : Option Nat × Content :=
  match c.index[t]? with
  | some node => c.removeNode node version
  | none => (none, c)

/-- Whether the triple of a node is present in a version. -/
def isVisible (c : Content) (version node : Nat) : Bool := (c.rangeOf node).contains version

/-- Whether a triple is present in a version. -/
def contains (c : Content) (version : Nat) (t : Triple) : Bool :=
  match c.index[t]? with
  | some node => c.isVisible version node
  | none => false

/-- Number of triples present in a version. -/
def size (c : Content) (version : Nat) : Nat :=
  c.index.fold (fun n _ node => if c.isVisible version node then n + 1 else n) 0

/-- Whether no triple is present in a version. -/
def isEmpty (c : Content) (version : Nat) : Bool :=
  c.index.fold (fun b _ node => b && !c.isVisible version node) true

/-- The node before a node in a chain. -/
def previous (c : Content) (k : ChainKind) (node : Nat) : Option Nat :=
  match c.nodes[node]? with
  | some n => (n.link k).filter (· < node)
  | none => none

theorem previous_lt {c : Content} {k : ChainKind} {i j : Nat} (h : c.previous k i = some j) :
    j < i := by
  unfold previous at h
  split at h
  · simpa using Option.filter_eq_some_iff.1 h |>.2
  · cases h

/-- The nodes of a chain from a node on, the latest first, behind those collected before. -/
def walkFrom (c : Content) (k : ChainKind) (node : Nat) (before : Array Nat) : Array Nat :=
  match _h : c.previous k node with
  | some i => c.walkFrom k i (before.push node)
  | none => before.push node
termination_by node
decreasing_by exact previous_lt ‹_›

/-- The nodes of a chain, the latest first, from the node that `start` leads to. -/
def walk (c : Content) (k : ChainKind) (start : Option Nat) : List Nat :=
  match start with
  | some node => if node < c.nodes.size then (c.walkFrom k node #[]).toList else []
  | none => []

end Content

end Rdf
