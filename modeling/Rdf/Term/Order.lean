import Rdf.Term.Literal

/-!
The total order of terms and triples: IRIs, then blank nodes, then literals; within a kind by the
parts from left to right, texts by code point.
-/

namespace Rdf

namespace Iri

/-- Order of IRIs. -/
def compare (a b : Iri) : Ordering := Text.compare a.text b.text

end Iri

namespace BlankNode

/-- Order of blank nodes. -/
def compare (a b : BlankNode) : Ordering :=
  (a.scope.salt.compare b.scope.salt).then (a.reference.compare b.reference)

end BlankNode

namespace Literal

/-- Order of literals: plain ones, then those in a language, then those with a datatype. -/
def compare : Literal → Literal → Ordering
  | .plain a, .plain b => Text.compare a b
  | .plain _, _ => .lt
  | .tagged _ _, .plain _ => .gt
  | .tagged a tag, .tagged b tag' => (Text.compare a b).then (Text.compare tag tag')
  | .tagged _ _, .typed _ _ => .lt
  | .typed a d, .typed b d' => (Text.compare a b).then (d.compare d')
  | .typed _ _, _ => .gt

end Literal

namespace Term

/-- Order of terms. -/
def compare : Term → Term → Ordering
  | .iri a, .iri b => a.compare b
  | .iri _, _ => .lt
  | .blankNode _, .iri _ => .gt
  | .blankNode a, .blankNode b => a.compare b
  | .blankNode _, .literal _ => .lt
  | .literal a, .literal b => a.compare b
  | .literal _, _ => .gt

end Term

namespace Subject

/-- Order of subjects, the same as that of the terms. -/
def compare (a b : Subject) : Ordering := a.toTerm.compare b.toTerm

end Subject

namespace Triple

/-- Order of triples by subject, predicate and object. -/
def compare (a b : Triple) : Ordering :=
  (a.subject.compare b.subject).then
    ((a.predicate.compare b.predicate).then (a.object.compare b.object))

end Triple

end Rdf
