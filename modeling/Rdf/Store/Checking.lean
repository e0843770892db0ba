import Rdf.Store.Content

/-!
Checking an index: every chain is followed, and the nodes met are looked up and counted.
-/

namespace Rdf

/-- What is wrong with an index. -/
inductive Corruption where
  | notIndexed
  | wrongChain
  | chainLength
  | total
  | reported (message : String)
deriving DecidableEq

/-- Error text. -/
def Corruption.message : Corruption → String
  | .notIndexed => "Triple in previous chain but not in triple set"
  | .wrongChain => "Triple in wrong list"
  | .chainLength => "Too many triples in a chain"
  | .total => "Too many triples in triple_set"
  | .reported message => message

/-- Why an operation of a store failed. -/
inductive StoreError where
  | corruption (cause : Corruption)
  | other (message : String)
deriving DecidableEq

/-- Error text. -/
def StoreError.message : StoreError → String
  | .corruption cause => cause.message
  | .other message => message

namespace Content

/-- Fails unless a condition holds. -/
def require (condition : Bool) (cause : Corruption) : Except Corruption Unit :=
  if condition then .ok () else .error cause

/-- Whether the index leads from the triple of a node to that node. -/
def isIndexed (c : Content) (node : Nat) : Bool :=
  match c.nodes[node]? with
  | some n => c.index[n.triple]? = some node
  | none => false

/-- Whether a node has a term at a position. -/
def hasTerm (c : Content) (position : Position) (t : Term) (node : Nat) : Bool :=
  match c.nodes[node]? with
  | some n => n.triple.termAt position = t
  | none => false

/-- Checks the nodes of the chain of a term one after the other. -/
def checkNodes (c : Content) (position : Position) (t : Term) : List Nat → Except Corruption Unit
  | [] => .ok ()
  | node :: nodes => do
    require (c.hasTerm position t node) .wrongChain
    require (c.isIndexed node) .notIndexed
    c.checkNodes position t nodes

/-- Checks the chain of a term, and gives the number of its nodes. -/
def checkChain (c : Content) (position : Position) (t : Term) (chain : Chain) :
    Except Corruption Nat := do
  let nodes := c.walk (.sharing position) (some chain.last)
  c.checkNodes position t nodes
  require (nodes.length = chain.count) .chainLength
  return nodes.length

/-- Checks chains one after the other, and gives the number of their nodes. -/
def checkChains (c : Content) (position : Position) :
    List (Term × Chain) → (found : Nat) → Except Corruption Nat
  | [], found => .ok found
  | (t, chain) :: chains, found => do
    let count ← c.checkChain position t chain
    c.checkChains position chains (found + count)

/-- Checks all chains of a position: together they hold as many nodes as there are triples. -/
def checkPosition (c : Content) (position : Position) : Except Corruption Unit := do
  let found ← c.checkChains position (c.chains.get position).toList 0
  require (found = c.index.size) .total

/-- Checks the chain of all nodes: it holds as many nodes as there are triples. -/
def checkAll (c : Content) : Except Corruption Unit := do
  let nodes := c.walk .all c.last
  require (nodes.all c.isIndexed) .notIndexed
  require (nodes.length = c.index.size) .total

/-- Checks the whole index. -/
def check (c : Content) : Except Corruption Unit := do
  c.checkAll
  c.checkPosition .subject
  c.checkPosition .predicate
  c.checkPosition .object

end Content

end Rdf
