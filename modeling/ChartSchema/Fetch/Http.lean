import ChartSchema.DataSource
import ChartSchema.Json.Reader

/-!
# Requests and responses

What is sent over the network and what comes back. A response is of use if its status says
success, its content type says JSON, and its body is JSON, checked in this order.
-/

namespace ChartSchema

/-- Why no data were fetched. -/
inductive FetchError where
  | network (url message : String)
  | status (url : String) (code : Nat)
  | contentType (found : String)
  | decode
  /-- The endpoint of a query reports errors. -/
  | query (messages : String)
  | cancelled
  | timeout (milliseconds : Nat)
  | invalidSource (fault : SourceFault)

namespace FetchError

def message : FetchError → String
  | .network url message => "Network request to " ++ url ++ " failed: " ++ message
  | .status url code => "Request to " ++ url ++ " failed with status " ++ toString code
  | .contentType found => "Expected JSON response but got content type '" ++ found ++ "'"
  | .decode => "Failed to decode JSON response"
  | .query messages => "Query returned errors: " ++ messages
  | .cancelled => "Request cancelled"
  | .timeout milliseconds => "Request timed out after " ++ toString milliseconds ++ "ms"
  | .invalidSource fault => "Invalid data source: " ++ fault.message

/-- Whether sending the request again may help. -/
def isRetryable : FetchError → Bool
  | .cancelled => false
  | .invalidSource _ => false
  | _ => true

end FetchError

/-- The outcome of a fetch: a payload or an error. -/
abbrev FetchResult := Except FetchError Json

/-- A request as it is sent. -/
structure HttpRequest where
  method : String
  url : String
  headers : Fields String
  query : List (String × String)
  body : Option Json

/-- A response as it arrives. -/
structure HttpResponse where
  status : Nat
  contentType : Option String
  body : String

/-- A successful response with a JSON body. -/
def HttpResponse.ofJson (body : Json) : HttpResponse :=
  ⟨200, some "application/json", body.toText⟩

/-- Whether the status says success. -/
def HttpResponse.isSuccess (response : HttpResponse) : Bool :=
  decide (200 ≤ response.status ∧ response.status < 300)

/-- Whether a content type, without its parameters, is one of JSON. -/
def isJsonContentType (contentType : String) : Bool :=
  let essence :=
    (trimBlanks (contentType.toList.takeWhile (· ≠ ';'))).map Char.toLower
  decide (essence = "application/json".toList) || "+json".toList.isSuffixOf essence

/-- The payload of a response from an address. -/
def HttpResponse.decode (response : HttpResponse) (url : String) : FetchResult :=
  let contentType := response.contentType.getD ""
  if !response.isSuccess then .error (.status url response.status)
  else if !isJsonContentType contentType then .error (.contentType contentType)
  else match Json.ofText? response.body with
    | some payload => .ok payload
    | none => .error .decode

end ChartSchema
