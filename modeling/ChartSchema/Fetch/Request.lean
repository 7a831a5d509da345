import ChartSchema.Digest.Fingerprint
import ChartSchema.Fetch.Http

/-!
# Plain requests

How a request source becomes a request. Placeholders in its address stand for props: `{name}` and
`${name}` are replaced by the prop of that name, blanks around the name aside, and stay as they
are where there is no such prop. What is put in is not looked at again.
-/

namespace ChartSchema

/-! ### Placeholders -/

/-- The text before a placeholder, without the `$` that belongs to the placeholder. -/
def withoutDollar (before : List Char) : List Char :=
  if before.getLast? = some '$' then before.dropLast else before

/-- Replaces the placeholders of a text by props. -/
def fillPlaceholders (props : Fields Json) (text : List Char) : List Char :=
  match _ : text.dropWhile (· ≠ '\x7b') with
  | [] => text
  | _ :: inner =>
    match _ : inner.dropWhile (· ≠ '\x7d') with
    | [] => text
    | _ :: rest =>
      let before := text.takeWhile (· ≠ '\x7b')
      let name := inner.takeWhile (· ≠ '\x7d')
      let prop := if name = [] then none else Fields.get? (String.ofList (trimBlanks name)) props
      match prop with
      | some value => withoutDollar before ++ value.display.toList ++ fillPlaceholders props rest
      | none => before ++ '\x7b' :: (name ++ '\x7d' :: fillPlaceholders props rest)
termination_by text.length
decreasing_by all_goals
  have houter := (text.dropWhile_sublist (· ≠ '\x7b')).length_le
  have hinner := (inner.dropWhile_sublist (· ≠ '\x7d')).length_le
  simp_all only [List.length_cons]
  omega

/-- The address with its placeholders filled in; props that are no object fill nothing. -/
def fillUrl (props : Option Json) (url : String) : String :=
  match props.bind Json.fields? with
  | some fields => String.ofList (fillPlaceholders fields url.toList)
  | none => url

/-! ### Requests -/

/-- Parameters as texts, those that are `null` left out. -/
def queryPairs (params : Fields Json) : List (String × String) :=
  (params.filter fun (_, value) => !value.isNull).map fun (name, value) => (name, value.display)

/-- The request for a source at an address. -/
def RequestSource.toRequest (source : RequestSource) (url : String) : HttpRequest :=
  ⟨source.verb, url, source.headers, queryPairs source.params, source.body⟩

/-- The fingerprint of a source at an address. -/
def RequestSource.fingerprint (source : RequestSource) (url : String) (cacheBust : Nat) :
    String :=
  ChartSchema.fingerprint ⟨source.verb, url, source.params, source.body, cacheBust⟩

end ChartSchema
