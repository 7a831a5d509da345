import ChartSchema.DataSource

/-!
# Changes of shape

Charts that change the shape of their source must not be served what was cached for the old
shape. A tracker remembers the shape of the source that was fetched last and counts the changes;
the count goes into the fingerprints of requests.
-/

namespace ChartSchema

/-- The shape that was seen last, and how often it has changed. -/
structure ShapeTracker where
  last : Option String
  changes : Nat

/-- A tracker that has seen nothing. -/
def ShapeTracker.fresh : ShapeTracker := ⟨none, 0⟩

/-- The tracker after a source has been seen. The first source is no change. -/
def ShapeTracker.observe (tracker : ShapeTracker) (source : DataSource) : ShapeTracker :=
  match tracker.last with
  | none => ⟨some source.shape, tracker.changes⟩
  | some last =>
    if last = source.shape then tracker else ⟨some source.shape, tracker.changes + 1⟩

end ChartSchema
