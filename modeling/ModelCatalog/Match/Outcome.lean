import ModelCatalog.Match.Failure

/-!
# Outcomes of a match

A match succeeds or fails. Disjunction and negation turn failures into successes, but never a fault of
the registry: that one is passed on whatever stands around it.
-/

namespace ModelCatalog

/-- The outcome of matching a filter with a manifest. -/
abbrev Outcome := Except MatchFailure Unit

namespace Outcome

/-- Where a failure arises: the tags under resolution and the lines of the two nodes. -/
structure Place where
  stack : List String
  filterLine : Nat
  manifestLine : Nat

/-- A failure at a place. -/
def Place.failure (place : Place) (mismatch : Mismatch) : MatchFailure where
  mismatch
  filterLine := place.filterLine
  manifestLine := place.manifestLine
  tagStack := place.stack

/-- Fail at a place. -/
def Place.fail (place : Place) (mismatch : Mismatch) : Outcome := .error (place.failure mismatch)

/-- Fail at a place unless a condition holds. -/
def Place.require (place : Place) (condition : Bool) (mismatch : Mismatch) : Outcome :=
  if condition then .ok () else place.fail mismatch

/-- The first outcome, unless it is a failure of the manifest; then the others decide. -/
def either (first : Outcome) (others : Unit → Outcome) : Outcome :=
  match first with
  | .ok () => .ok ()
  | .error failure => if failure.isRegistryFault then .error failure else others ()

/-- The opposite outcome, except that a fault stays a fault. -/
def negate (outcome : Outcome) (place : Place) : Outcome :=
  match outcome with
  | .ok () => place.fail .negatedMatch
  | .error failure => if failure.isRegistryFault then .error failure else .ok ()

end Outcome

end ModelCatalog
