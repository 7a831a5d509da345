import ChartSchema.Value

/-!
# Theme variables

Named values that take the place of `$name` references. Names are kept without the `$`, and every
operation takes a name in either form.
-/

namespace ChartSchema

/-- Theme variables by name, the names without their `$`. -/
abbrev Variables := Fields Value

namespace Variables

/-- The name without a `$` in front. -/
def bareName (name : String) : String :=
  match name.toList with
  | '$' :: rest => String.ofList rest
  | _ => name

def set (name : String) (value : Value) (theme : Variables) : Variables :=
  Fields.insert (bareName name) value theme

def get? (name : String) (theme : Variables) : Option Value :=
  Fields.get? (bareName name) theme

def contains (name : String) (theme : Variables) : Bool :=
  (get? name theme).isSome

def remove (name : String) (theme : Variables) : Variables :=
  Fields.erase (bareName name) theme

/-- The variables with those of another set put in, in place of variables of the same name. -/
def extend (theme others : Variables) : Variables :=
  others.foldl (fun all (name, value) => Fields.insert name value all) theme

/-- The stock palette. -/
def palette : Variables :=
  Fields.ofList [("primary", .string "#3b82f6"), ("secondary", .string "#8b5cf6"),
    ("background", .string "#ffffff"), ("text", .string "#1f2937"),
    ("success", .string "#10b981"), ("error", .string "#ef4444"),
    ("warning", .string "#f59e0b")]

end Variables

end ChartSchema
