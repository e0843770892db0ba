/-!
The versions in which a triple is present: bounds that alternate between an insertion and a removal.
An odd number of bounds means that the triple is still present. A running transaction records its
changes with its own number as the last bound; its end replaces that bound or drops it.
-/

namespace Rdf

/-- The versions in which a triple is present. Zero, one and two bounds have forms of their own. -/
inductive VersionRange where
  | absent
  | since (start : Nat)
  | between (start stop : Nat)
  | history (bounds : List Nat)
deriving DecidableEq, Inhabited

namespace VersionRange

/-- The bounds, the oldest first. -/
def bounds : VersionRange → List Nat
  | .absent => []
  | .since start => [start]
  | .between start stop => [start, stop]
  | .history bounds => bounds

/-- Range with the given bounds. -/
def ofBounds : List Nat → VersionRange
  | [] => .absent
  | [start] => .since start
  | [start, stop] => .between start stop
  | bounds => .history bounds

@[simp] theorem bounds_ofBounds (bs : List Nat) : (ofBounds bs).bounds = bs := by
  unfold ofBounds
  split <;> rfl

/-- Whether the triple is present after the last change. -/
def isPresent (r : VersionRange) : Bool := r.bounds.length % 2 = 1

/-- The last bound. -/
def last? (r : VersionRange) : Option Nat := r.bounds.getLast?

/-- Whether a version lies between the bounds of a pair, or after a bound without partner. -/
def covers : (bounds : List Nat) → (version : Nat) → Bool
  | [], _ => false
  | [start], version => start ≤ version
  | start :: stop :: bounds, version =>
    (start ≤ version && version < stop) || covers bounds version

/-- Whether the triple is present in a version. -/
def contains (r : VersionRange) (version : Nat) : Bool := covers r.bounds version

/-- The range with one more bound. -/
def push (r : VersionRange) (version : Nat) : VersionRange :=
  match r with
  | .absent => .since version
  | .since start => .between start version
  | .between start stop => .history [start, stop, version]
  | .history bounds => .history (bounds ++ [version])

@[simp] theorem bounds_push (r : VersionRange) (version : Nat) :
    (r.push version).bounds = r.bounds ++ [version] := by
  cases r <;> rfl

/-- The range without its last bound. -/
def pop (r : VersionRange) : VersionRange := ofBounds r.bounds.dropLast

@[simp] theorem bounds_pop (r : VersionRange) : r.pop.bounds = r.bounds.dropLast :=
  bounds_ofBounds _

/-- Changes presence from a version on. A change that takes back one of the same version drops its
bound. -/
def toggle (r : VersionRange) (version : Nat) : VersionRange :=
  if r.last? = some version then r.pop else r.push version

/-- The range after an insertion, if the triple is absent. -/
def add? (r : VersionRange) (version : Nat) : Option VersionRange :=
  if r.isPresent then none else some (r.toggle version)

/-- The range after a removal, if the triple is present. -/
def remove? (r : VersionRange) (version : Nat) : Option VersionRange :=
  if r.isPresent then some (r.toggle version) else none

/-- Replaces the last bound. -/
def setLast (r : VersionRange) (version : Nat) : VersionRange :=
  match r with
  | .absent => .absent
  | .since _ => .since version
  | .between start _ => .between start version
  | .history bounds => .history (bounds.dropLast ++ [version])

/-- The range after the transaction has become a version. -/
def upgrade (r : VersionRange) (transaction version : Nat) : VersionRange :=
  if r.last? = some transaction then r.setLast version else r

/-- The range after the transaction has been taken back. -/
def rollBack (r : VersionRange) (transaction : Nat) : VersionRange :=
  if r.last? = some transaction then r.pop else r

end VersionRange

end Rdf
