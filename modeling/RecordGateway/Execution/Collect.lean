import RecordGateway.Execution.Variables

/-! # The root fields of an operation

`collect` gathers the occurrences of the query field that an operation includes, in the order of the
document and through its fragments. A fragment that is spread twice counts twice. Conditions are
looked at on the way: on the occurrences themselves and on the fragments around them.
-/

namespace RecordGateway

open GraphQL (Name Field Selection Document)

/-- An occurrence of the query field, with the selections on its value. -/
structure RootField where
  head : Field
  body : List Selection

namespace RootField

def key (f : RootField) : Name := f.head.responseKey

end RootField

/-- The names of the fields written directly in a selection set. -/
def GraphQL.Selection.fieldNames (ss : List Selection) : List Name :=
  ss.filterMap fun
    | .field f _ => some f.name
    | _ => none

section

variable (b : Bindings) (rootField : Name)

mutual

/-- The occurrences in a selection, where `enter` gives those in a fragment. -/
def collectFrom (enter : Name → Except ExecutionError (List RootField)) :
    Selection → Except ExecutionError (List RootField)
  | .field f body =>
    if f.name = rootField then
      match b.included f.directives with
      | .ok true => .ok [⟨f, body⟩]
      | .ok false => .ok []
      | .error e => .error e
    else .ok []
  | .inline _ _ ds body =>
    match b.included ds with
    | .ok true => collectAllFrom enter body
    | .ok false => .ok []
    | .error e => .error e
  | .spread _ n ds =>
    match b.included ds with
    | .ok true => enter n
    | .ok false => .ok []
    | .error e => .error e

def collectAllFrom (enter : Name → Except ExecutionError (List RootField)) :
    List Selection → Except ExecutionError (List RootField)
  | [] => .ok []
  | x :: xs =>
    match collectFrom enter x with
    | .error e => .error e
    | .ok fs =>
      match collectAllFrom enter xs with
      | .error e => .error e
      | .ok gs => .ok (fs ++ gs)

end

/-- The occurrences in selections, through fragments nested up to `room` deep. -/
def collectWithin (d : Document) : (room : Nat) → List Selection →
    Except ExecutionError (List RootField)
  | 0, ss => collectAllFrom b rootField (fun _ => .ok []) ss
  | room + 1, ss =>
    collectAllFrom b rootField
      (fun n =>
        match d.fragment? n with
        | some f => collectWithin d room f.selections
        | none => .ok [])
      ss

/-- The included occurrences of the query field. No way through fragments that do not contain
themselves is longer than the number of fragments. -/
def collect (d : Document) (ss : List Selection) : Except ExecutionError (List RootField) :=
  collectWithin b rootField d d.fragments.length ss

end

end RecordGateway
