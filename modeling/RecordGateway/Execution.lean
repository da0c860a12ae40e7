import RecordGateway.Execution.Collect
import RecordGateway.Execution.Envelope
import RecordGateway.Registry

/-! # Executing requests

`Registry.execute` answers a `Request` with an envelope and makes at most one fetch. The first stage
that fails gives the answer: the document is read and checked, the operation is chosen, it must be a
query, its required variables must be given, the root fields are collected and must share one
response key, and the id must be a string. Then the record is fetched with the fields that are
selected directly under the root fields.
-/

namespace RecordGateway

open GraphQL (Document Operation Name)

structure Request where
  query : String
  operationName : Option String := none
  variableValues : Json.Object := []

/-! ## Choosing the operation -/

inductive ChoiceError where
  | unknown (name : String)
  | ambiguous
  deriving Repr, DecidableEq

def ChoiceError.message : ChoiceError → String
  | .unknown n => "No operation named '" ++ n ++ "'"
  | .ambiguous => "Ambiguous request: multiple operations but no specified `operationName`"

/-- The operation with the given name, or the only one. -/
def GraphQL.Document.choose (d : Document) : Option String → Except ChoiceError Operation
  | some n =>
    match d.named.find? (·.nameIs n) with
    | some o => .ok o
    | none => .error (.unknown n)
  | none =>
    match d.operations with
    | [o] => .ok o
    | _ => .error .ambiguous

/-! ## Planning -/

/-- The fetch for some root fields; nothing without any. -/
def fetchOf? (root : RootDescriptor) (b : Bindings) :
    List RootField → Except ExecutionError (Option Fetch)
  | [] => .ok none
  | first :: rest =>
    if rest.any (·.key != first.key) then .error (.multipleRootFields root.field)
    else
      match b.argument first.head.arguments root.argument with
      | .error e => .error e
      | .ok id =>
        .ok (some ⟨id, (first :: rest).flatMap fun f => GraphQL.Selection.fieldNames f.body⟩)

/-- The fetch that an operation asks for, if any. -/
def plan (root : RootDescriptor) (d : Document) (o : Operation) (values : Json.Object) :
    Except ExecutionError (Option Fetch) :=
  if o.kind ≠ .query then .error (.unsupportedOperation o.kind.title)
  else
    let b : Bindings := ⟨o.variableDefinitions, values⟩
    match b.checkRequired with
    | .error e => .error e
    | .ok _ =>
      match collect b root.field d o.selections with
      | .error e => .error e
      | .ok fs => fetchOf? root b fs

/-- The fetch that a request for a document asks for, if any. -/
def planDocument (root : RootDescriptor) (d : Document) (operationName : Option String)
    (values : Json.Object) : Except ExecutionError (Option Fetch) :=
  match d.choose operationName with
  | .error e => .error (.operation e.message)
  | .ok o => plan root d o values

/-! ## Executing -/

/-- An answer, and the fetches that were made for it. -/
structure Execution where
  envelope : Envelope
  calls : List Fetch
  deriving Repr

/-- Carries out a plan. -/
def carryOut (source : DataSource) : Except ExecutionError (Option Fetch) → Execution
  | .error e => ⟨.reject e.messages, []⟩
  | .ok none => ⟨.empty, []⟩
  | .ok (some f) => ⟨.ofAnswer (source f), [f]⟩

/-- Answers a request for a document that has been checked. -/
def executeDocument (root : RootDescriptor) (source : DataSource) (d : Document)
    (operationName : Option String) (values : Json.Object) : Execution :=
  carryOut source (planDocument root d operationName values)

/-- Answers a request. -/
def Registry.execute (r : Registry) (source : DataSource) (q : Request) : Execution :=
  match Document.read r.schema q.query with
  | .error e => carryOut source (.error (.validation e.messages))
  | .ok d => executeDocument r.root source d q.operationName q.variableValues

end RecordGateway
