import RecordGateway.GraphQL.Validation
import RecordGateway.Json.Printer

/-! # Variables of a request

An operation defines variables, a request gives values to them (`Bindings`). Required variables are
looked at before anything else (`Bindings.checkRequired`); the value of a condition or of an id is
looked at where it is needed.
-/

namespace RecordGateway

open GraphQL (Name Value VariableDefinition Directive Argument)

/-! ## Errors -/

/-- Why a request whose document is in order brings no record. -/
inductive ExecutionError where
  | validation (messages : List String)
  /-- No operation can be told to be the one to run. -/
  | operation (message : String)
  | unsupportedOperation (kind : String)
  | multipleRootFields (field : String)
  | missingVariable (name type : String)
  | nullVariable (name type : String)
  | invalidVariable (name value reason : String)
  deriving Repr, DecidableEq

namespace ExecutionError

/-- The wording of an error. -/
def message : ExecutionError → String
  | validation ms => String.intercalate "; " ms
  | operation m => m
  | unsupportedOperation k => k ++ " operations are not supported"
  | multipleRootFields f => "only one " ++ f ++ " selection is supported per request"
  | missingVariable n t =>
    "Variable \"$" ++ n ++ "\" of required type \"" ++ t ++ "\" was not provided."
  | nullVariable n t =>
    "Variable \"$" ++ n ++ "\" of non-null type \"" ++ t ++ "\" must not be null."
  | invalidVariable n v r => "Variable \"$" ++ n ++ "\" got invalid value " ++ v ++ "; " ++ r

/-- The entries of a response for an error. -/
def messages : ExecutionError → List String
  | validation ms => ms
  | e => [e.message]

end ExecutionError

/-- Where a condition is given something that is not a boolean. -/
def notBoolean : String := "Boolean cannot represent a non boolean value"

/-- Where an id is given something that is not a string. -/
def notString : String := "String cannot represent a non string value"

/-! ## Bindings -/

/-- The variables that an operation defines, and the values that a request gives. -/
structure Bindings where
  definitions : List VariableDefinition
  values : Json.Object

namespace Bindings

def value? (b : Bindings) (n : Name) : Option Json := b.values.get? n

def default? (b : Bindings) (n : Name) : Option Value :=
  (b.definitions.find? (·.name == n)).bind (·.default)

/-- What is wrong with a variable whose type excludes null: given as null, or not given at all. -/
def requiredError? (b : Bindings) (d : VariableDefinition) : Option ExecutionError :=
  if d.type.isNonNull then
    match b.value? d.name, d.default with
    | some .null, _ => some (.nullVariable d.name d.type.render)
    | none, none => some (.missingVariable d.name d.type.render)
    | _, _ => none
  else none

/-- Fails for the first required variable that is not given. -/
def checkRequired (b : Bindings) : Except ExecutionError Unit :=
  match b.definitions.findSome? b.requiredError? with
  | some e => .error e
  | none => .ok ()

/-! ## Conditions -/

/-- The value of a condition. -/
def boolean (b : Bindings) : Value → Except ExecutionError Bool
  | .literal _ (.boolean v) => .ok v
  | .variable _ n =>
    match b.value? n with
    | some (.bool v) => .ok v
    | some v => .error (.invalidVariable n v.render notBoolean)
    | none =>
      match b.default? n with
      | some (.literal _ (.boolean v)) => .ok v
      | _ => .error (.missingVariable n "Boolean!")
  | _ => .ok false

/-- What a directive decides on when its condition holds: `@skip` leaves out, `@include` keeps. -/
def skipsWhen? : Name → Option Bool
  | "skip" => some true
  | "include" => some false
  | _ => none

/-- Whether a directive keeps what it stands on. -/
def kept (b : Bindings) (d : Directive) : Except ExecutionError Bool :=
  match skipsWhen? d.name, d.arguments.find? (·.name == "if") with
  | some s, some a =>
    match b.boolean a.value with
    | .ok v => .ok (v != s)
    | .error e => .error e
  | _, _ => .ok true

/-- Whether all directives keep what they stand on. They are asked in order, up to the first that
does not. -/
def included (b : Bindings) : List Directive → Except ExecutionError Bool
  | [] => .ok true
  | d :: ds =>
    match b.kept d with
    | .ok true => included b ds
    | r => r

/-! ## Ids -/

/-- The text of a value where a string is expected; null and nothing are the empty text. -/
def text (b : Bindings) : Value → Except ExecutionError String
  | .literal _ (.string s) => .ok s
  | .variable _ n =>
    match b.value? n with
    | some (.string s) => .ok s
    | some .null => .ok ""
    | some v => .error (.invalidVariable n v.render notString)
    | none =>
      match b.default? n with
      | some (.literal _ (.string s)) => .ok s
      | _ => .ok ""
  | _ => .ok ""

/-- The text of an argument, the empty text without it. -/
def argument (b : Bindings) (as : List Argument) (name : Name) : Except ExecutionError String :=
  match as.find? (·.name == name) with
  | some a => b.text a.value
  | none => .ok ""

end Bindings

end RecordGateway
