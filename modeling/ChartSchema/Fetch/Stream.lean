import ChartSchema.DataPath
import ChartSchema.Fetch.Http
import ChartSchema.Response
import ChartSchema.Settings.Basic

/-!
# Live streams

A live stream is simulated: each sample is a fixed baseline with every value changed by a random
part of itself. With a field map, the sample is first laid out so that the map finds it where it
looks.
-/

namespace ChartSchema

/-- The labels of the baseline. -/
def baselineLabels : List String :=
  ["Jan", "Feb", "Mar", "Apr", "May", "Jun"]

/-- The name of the series of the baseline. -/
def baselineName : String := "Live"

/-- The values of the baseline. -/
def baselineValues : List Binary64 :=
  [65, 59, 80, 81, 56, 55].map Binary64.ofNat

/-- A value changed by a part of itself and rounded to hundredths. Nothing is changed or rounded
unless the largest part, the jitter, is positive. -/
def perturb (jitter part value : Binary64) : Binary64 :=
  if (Binary64.zero false).less jitter then
    let factor := (Binary64.ofNat 1).add part
    (((value.mul factor).mul (.ofNat 100)).roundHalfAway).div (.ofNat 100)
  else value

/-- A dataset of numbers without any styling. -/
def Dataset.ofNumbers (label : String) (numbers : List Binary64) : Dataset :=
  ⟨none, label, .numbers (numbers.map some), none, none, none, []⟩

/-- A sample, the values of which are changed by the given parts of themselves; values without a
part stay as they are. -/
def streamSample (jitter : Binary64) (parts : List Binary64) : ChartResponse :=
  let values := baselineValues.mapIdx fun position value =>
    perturb jitter (parts.getD position (.zero false)) value
  ⟨baselineLabels, [Dataset.ofNumbers baselineName values], none, none⟩

/-- A payload that a field map turns into the fields of a canonical one: each target's value at
its source. -/
def layOut (canonical : Json) (table : FieldMap) : Json :=
  table.foldl (fun payload (target, source) => copyField canonical payload source target)
    (.object [])

/-- A payload reshaped by a field map; no map and an empty one change nothing. -/
def applyFieldMap (table : Option FieldMap) (payload : Json) : Json :=
  match table with
  | some (entry :: entries) => FieldMap.apply (entry :: entries) payload
  | _ => payload

/-- The payload of a sample for a field map. -/
def streamPayload (table : Option FieldMap) (sample : ChartResponse) : Json :=
  match table with
  | some (entry :: entries) =>
    FieldMap.apply (entry :: entries) (layOut sample.toJson (entry :: entries))
  | _ => sample.toJson

end ChartSchema
