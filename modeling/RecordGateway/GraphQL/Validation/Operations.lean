import RecordGateway.GraphQL.Validation.Fragments

/-! # Operations and their variables

What is wrong with an operation by itself: its directives, the definitions and the use of its
variables, its selections and those of the fragments that it reaches (`Operation.faults`). The rules
of subscriptions are in `Operation.subscriptionFaults`.
-/

namespace RecordGateway.GraphQL

/-! ## Variables -/

namespace VariableDefinition

/-- What is wrong with the type and the default of a variable. A default is a constant, so no
variables are in sight. -/
def typeFaults (s : Schema) (v : VariableDefinition) : List Diagnostic :=
  match s.type? v.type.innermost with
  | none => [⟨v.place, .unknownType v.type.innermost⟩]
  | some shape =>
    if shape.isInput then
      match v.default with
      | some d => d.misfits s [] v.type
      | none => []
    else [⟨v.place, .notInputType v.name v.type⟩]

/-- What is wrong with the definitions of variables, after those with the names in `seen`. -/
def faults (s : Schema) (seen : List Name) : List VariableDefinition → List Diagnostic
  | [] => []
  | v :: vs =>
    Directive.misfits s [] "VARIABLE_DEFINITION" [] v.directives ++ v.typeFaults s ++
      (if seen.contains v.name then [⟨v.place, .repeatedVariable v.name⟩] else []) ++
      faults s (v.name :: seen) vs

/-- The variables that are not among the used ones; of several with one name, the last. -/
def unused (used : List Name) : List VariableDefinition → List Diagnostic
  | [] => []
  | v :: vs =>
    (if used.contains v.name || vs.any (·.name == v.name) then []
      else [⟨v.place, .unusedVariable v.name⟩]) ++ unused used vs

end VariableDefinition

namespace Operation

/-- The variables that occur in an operation or in a fragment that it uses. -/
def variablesUsed (d : Document) (o : Operation) : List Name :=
  Directive.variableNames o.directives ++ Selection.variableNamesAll o.selections ++
    (d.used o.selections).flatMap fun f => Selection.variableNamesAll f.selections

/-- The type that the operation selects on. -/
def root (s : Schema) (o : Operation) : Name := (s.root? o.kind).getD ""

/-- The location of directives on an operation. -/
def location (o : Operation) : String :=
  match o.kind with
  | .query => "QUERY"
  | .mutation => "MUTATION"
  | .subscription => "SUBSCRIPTION"

/-- What is wrong with an operation and with the fragments that it reaches. -/
def faults (s : Schema) (d : Document) (o : Operation) : List Diagnostic :=
  Directive.misfits s o.variableDefinitions o.location [] o.directives ++
    VariableDefinition.faults s [] o.variableDefinitions ++
    VariableDefinition.unused (o.variablesUsed d) o.variableDefinitions ++
    Selection.faultsAll s d o.variableDefinitions (o.root s) o.selections ++
    (d.checked s o.selections).flatMap (Fragment.faults s d o.variableDefinitions)

/-! ## Subscriptions -/

end Operation

namespace Selection

mutual

/-- A selection and those inside it that select on the same value. -/
def outer : Selection → List Selection
  | .inline i c ds body => .inline i c ds body :: outerAll body
  | .field f body => [.field f body]
  | .spread i n ds => [.spread i n ds]

def outerAll : List Selection → List Selection
  | [] => []
  | x :: xs => outer x ++ outerAll xs

end

def spreadName? : Selection → Option Name
  | .spread _ n _ => some n
  | _ => none

def field? : Selection → Option Field
  | .field f _ => some f
  | _ => none

end Selection

namespace Operation

/-- The selections on the root value of an operation, in the fragments that it reaches too. -/
def rootSelections (d : Document) (o : Operation) : List Selection :=
  let inside (n : Name) : List Selection :=
    ((d.fragment? n).map fun f => Selection.outerAll f.selections).getD []
  let own := Selection.outerAll o.selections
  let ns := reach (fun n => (inside n).filterMap Selection.spreadName?) d.room
    (own.filterMap Selection.spreadName?)
  own ++ ns.flatMap inside

/-- What is wrong with a subscription: it selects one field, not an introspection field, without
conditions. -/
def subscriptionFaults (d : Document) (o : Operation) : List Diagnostic :=
  if o.kind = .subscription then
    let n := o.name.map (·.1)
    let ss := o.rootSelections d
    let fs := ss.filterMap Selection.field?
    (ss.filterMap fun x =>
        (x.directives.find? fun e => e.name == "skip" || e.name == "include").map fun e =>
          ⟨e.place, .subscriptionConditional n⟩) ++
      (fs.filter fun f => ["__type", "__schema", "__typename"].contains f.name).map
        (fun f => ⟨f.place, .subscriptionIntrospects n⟩) ++
      (if fs.length > 1 then [⟨o.place, .subscriptionNotSingle n⟩] else [])
  else []

end Operation

end RecordGateway.GraphQL
