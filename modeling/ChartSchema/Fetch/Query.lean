import ChartSchema.Fetch.Http

/-!
# Queries

A query is posted as an object with its text and its variables; props override variables of the
same name. The endpoint answers with an object whose field `data` is the payload, or with a list
of errors.
-/

namespace ChartSchema

/-- The body that is posted for a query. -/
def QuerySource.body (source : QuerySource) (props : Option Json) : Json :=
  let bindings := ((props.bind Json.fields?).getD []).foldl
    (fun bindings (name, value) => Fields.insert name value bindings) source.bindings
  .object [("query", .string source.query), ("variables", .object bindings)]

/-- The request for a query. Its own headers override the content type. -/
def QuerySource.toRequest (source : QuerySource) (props : Option Json) : HttpRequest :=
  let headers := source.headers.foldl
    (fun headers (name, value) => Fields.insert name value headers)
    [("Content-Type", "application/json")]
  ⟨"POST", source.url, headers, [], some (source.body props)⟩

/-- The message of a reported error: its field `message` if that is a string, and JSON text
otherwise. -/
def queryErrorMessage (error : Json) : String :=
  ((error.get? "message").bind Json.string?).getD error.toText

/-- The payload in the body of an answer. Reported errors make it fail; an object in the field
`data` is taken out. -/
def unwrapAnswer (body : Json) : FetchResult :=
  match (body.get? "errors").bind Json.items? with
  | some (error :: errors) =>
    .error (.query (", ".intercalate ((error :: errors).map queryErrorMessage)))
  | _ =>
    match body.get? "data" with
    | some (.object fields) => .ok (.object fields)
    | _ => .ok body

/-- The payload of a response to a query. Where the status says failure, errors that the body
reports count instead. -/
def decodeAnswer (url : String) (response : HttpResponse) : FetchResult :=
  match response.decode url with
  | .ok body => unwrapAnswer body
  | .error (.status url code) =>
    match (Json.ofText? response.body).map unwrapAnswer with
    | some (.error reported) => .error reported
    | _ => .error (.status url code)
  | .error error => .error error

end ChartSchema
