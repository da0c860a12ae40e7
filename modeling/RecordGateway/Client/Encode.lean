import RecordGateway.Http.Form
import RecordGateway.Http.Message

/-! # Sending requests

A request is sent in URL parameters, which leave out what is not there, or as a JSON body with all
three members.
-/

namespace RecordGateway

inductive Transport where
  | get
  | post
  deriving Repr, DecidableEq

namespace Request

/-- The URL parameters of a request: the query text, the variables if there are any, and the
operation name if there is one. -/
def toParams (names : Config.Graphql) (q : Request) : Params :=
  (names.queryParam, q.query) ::
    (if q.variableValues.isEmpty then []
    else [(variablesField, (Json.object q.variableValues).render)]) ++
    (match q.operationName with
    | some n => [(operationNameField, n)]
    | none => [])

/-- The JSON body of a request. -/
def toBody (names : Config.Graphql) (q : Request) : Json :=
  .object (Json.Object.ofList
    [(names.bodyField, .string q.query),
      (operationNameField, match q.operationName with
        | some n => .string n
        | none => .null),
      (variablesField, .object q.variableValues)])

end Request

/-- A message to a gateway, as it arrives there. -/
structure ClientMessage where
  method : Method
  target : String
  contentType : Option String := none
  body : String := ""
  deriving Repr

/-- A target with further parameters. -/
def withParams (u : Uri) (ps : Params) : String :=
  u.path ++ "?" ++ (if u.query = "" then "" else u.query ++ "&") ++ Form.render ps

/-- The message that sends a request to a gateway with the default names. -/
def ClientMessage.ofRequest (u : Uri) (t : Transport) (q : Request) : ClientMessage :=
  match t with
  | .get => { method := .get, target := withParams u (q.toParams {}) }
  | .post =>
    { method := .post
      target := u.path ++ (if u.query = "" then "" else "?" ++ u.query)
      contentType := some "application/json"
      body := (q.toBody {}).render }

end RecordGateway
