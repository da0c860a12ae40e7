import RecordGateway.Config.Basic
import RecordGateway.Execution

/-! # Request payloads

A request travels in URL parameters or in a JSON body. The names of the parameter and of the member
with the query text are configured; the operation name and the variables have fixed names.

Members of a body are taken out one after the other, so that a configured name which is one of the
fixed ones leaves nothing for the latter. Parameters are only looked at.
-/

namespace RecordGateway

inductive PayloadError where
  /-- Not a JSON text. -/
  | malformed
  | notAnObject
  | wrongType (field : String)
  deriving Repr, DecidableEq

def PayloadError.message : PayloadError → String
  | .malformed => "body is not valid JSON"
  | .notAnObject => "body must be a JSON object"
  | .wrongType f => "field " ++ f ++ " has the wrong type"

/-- URL parameters; of several with one name the last counts. -/
abbrev Params := List (String × String)

def Params.get? (ps : Params) (name : String) : Option String := List.lookup name ps.reverse

/-- A parameter with a text; an empty one is as good as none. -/
def Params.nonempty? (ps : Params) (name : String) : Option String :=
  (ps.get? name).filter (· != "")

namespace Request

def operationNameField : String := "operationName"

def variablesField : String := "variables"

/-- The variables that a JSON value gives. -/
def variablesOf : Json → Except PayloadError Json.Object
  | .null => .ok []
  | .object o => .ok o
  | _ => .error (.wrongType variablesField)

/-- The variables that a JSON text gives. -/
def variablesOfText (text : String) : Except PayloadError Json.Object :=
  match Json.parse text with
  | .ok v => variablesOf v
  | .error _ => .error .malformed

/-- A text that may be missing or null. -/
def textOf (field : String) : Option Json → Except PayloadError (Option String)
  | none => .ok none
  | some .null => .ok none
  | some (.string s) => .ok (some s)
  | some _ => .error (.wrongType field)

/-- The request in URL parameters. -/
def ofParams (names : Config.Graphql) (ps : Params) : Except PayloadError Request := do
  let variableValues ← match ps.nonempty? variablesField with
    | some text => variablesOfText text
    | none => .ok []
  return {
    query := (ps.get? names.queryParam).getD ""
    operationName := ps.nonempty? operationNameField
    variableValues }

/-- The request in the members of a JSON body. -/
def ofMembers (names : Config.Graphql) (o : Json.Object) : Except PayloadError Request := do
  let query ← textOf names.bodyField (o.get? names.bodyField)
  let o := o.erase names.bodyField
  let operationName ← textOf operationNameField (o.get? operationNameField)
  let o := o.erase operationNameField
  let variableValues ← variablesOf ((o.get? variablesField).getD .null)
  return { query := query.getD "", operationName, variableValues }

/-- The request in a JSON body. -/
def ofBody (names : Config.Graphql) (body : List UInt8) : Except PayloadError Request :=
  match Json.parseBytes body with
  | .error _ => .error .malformed
  | .ok (.object o) => ofMembers names o
  | .ok _ => .error .notAnObject

end Request

end RecordGateway
