import RecordGateway.GraphQL.Schema
import RecordGateway.GraphQL.Diagnostic

/-! # Executable documents

A `Document` holds the operations and fragments that a list of definitions provides under a schema.
`Document.ofDefinitions` builds it; what does not fit the schema is left out and reported, so that
later rules see only fields that exist.

* `Selection.resolve` keeps the selections that fit the type they are made on,
  `Selection.misfits` reports the others.
* A name belongs to the first operation or fragment that has it. An operation without a name must be
  the only one.
-/

namespace RecordGateway.GraphQL

structure Document where
  anonymous : Option Operation := none
  /-- The operations with names, in the order of their definitions. -/
  named : List Operation := []
  fragments : List Fragment := []
  deriving Repr

namespace Operation

def nameIs (n : Name) (o : Operation) : Bool := o.name.any (·.1 == n)

end Operation

namespace Document

/-- All the operations, the one without a name first. -/
def operations (d : Document) : List Operation := d.anonymous.toList ++ d.named

def fragment? (d : Document) (n : Name) : Option Fragment := d.fragments.find? (·.name == n)

end Document

/-! ## Selections that fit -/

/-- The name of the type of a field's value. -/
def Schema.fieldTypeName? (s : Schema) (parent field : Name) : Option Name :=
  (s.field? parent field).map (·.type.innermost)

/-- What is wrong with selecting a field on a type: it does not exist there, or it has selections on
a value without parts. -/
def Field.misfit? (s : Schema) (parent : Name) (f : Field) (body : List Selection) :
    Option Diagnostic :=
  match s.fieldTypeName? parent f.name with
  | none => some ⟨f.namePlace, .unknownField f.name parent⟩
  | some t =>
    if !body.isEmpty && s.isLeaf t then some ⟨f.place, .selectionOnLeaf f.responseKey t⟩ else none

/-- What is wrong with a type condition: no such type. -/
def TypeCondition.misfit? (s : Schema) (c : TypeCondition) : Option Diagnostic :=
  if (s.type? c.name).isSome then none else some ⟨c.place, .unknownType c.name⟩

/-- The type that an inline fragment selects on. -/
def conditionName (parent : Name) : Option TypeCondition → Name
  | some c => c.name
  | none => parent

namespace Selection

mutual

/-- The selection as far as it fits the type `parent`. -/
def resolve (s : Schema) (parent : Name) : Selection → Option Selection
  | .field f body =>
    match f.misfit? s parent body with
    | some _ => none
    | none => some (.field f (resolveAll s ((s.fieldTypeName? parent f.name).getD "") body))
  | .inline i c ds body =>
    match c.bind (·.misfit? s) with
    | some _ => none
    | none => some (.inline i c ds (resolveAll s (conditionName parent c) body))
  | .spread i n ds => some (.spread i n ds)

def resolveAll (s : Schema) (parent : Name) : List Selection → List Selection
  | [] => []
  | x :: xs => (resolve s parent x).toList ++ resolveAll s parent xs

end

mutual

/-- What `resolve` leaves out, and why. -/
def misfits (s : Schema) (parent : Name) : Selection → List Diagnostic
  | .field f body =>
    match f.misfit? s parent body with
    | some d => [d]
    | none => misfitsAll s ((s.fieldTypeName? parent f.name).getD "") body
  | .inline _ c _ body =>
    match c.bind (·.misfit? s) with
    | some d => [d]
    | none => misfitsAll s (conditionName parent c) body
  | .spread .. => []

def misfitsAll (s : Schema) (parent : Name) : List Selection → List Diagnostic
  | [] => []
  | x :: xs => misfits s parent x ++ misfitsAll s parent xs

end

end Selection

/-! ## Building a document -/

namespace Document

/-- A document under construction. -/
structure Draft where
  document : Document := {}
  /-- Whether a second operation without a name has been met. -/
  anonymousRepeated : Bool := false
  problems : List Diagnostic := []
  deriving Repr

namespace Draft

def report (d : Draft) (ds : List Diagnostic) : Draft := { d with problems := d.problems ++ ds }

/-- The operation as far as it fits the schema, if the schema has a root type for it. -/
def resolveOperation (s : Schema) (o : Operation) : Option (Operation × List Diagnostic) :=
  (s.root? o.kind).map fun root =>
    ({ o with selections := Selection.resolveAll s root o.selections },
      Selection.misfitsAll s root o.selections)

def addNamed (s : Schema) (d : Draft) (o : Operation) (n : Name) (i : Nat) : Draft :=
  let d := match d.document.anonymous with
    | some a => d.report [⟨a.place, .anonymousNotAlone⟩]
    | none => d
  if d.document.named.any (·.nameIs n) then d.report [⟨i, .operationRedefined n⟩]
  else
    match resolveOperation s o with
    | none => d.report [⟨o.place, .noRootType o.kind⟩]
    | some (o, ds) =>
      { d.report ds with document := { d.document with named := d.document.named ++ [o] } }

def addAnonymous (s : Schema) (d : Draft) (o : Operation) : Draft :=
  match d.document.anonymous with
  | some a =>
    let first := if d.anonymousRepeated then [] else [⟨a.place, .anonymousNotAlone⟩]
    { d.report (first ++ [⟨o.place, .anonymousNotAlone⟩]) with anonymousRepeated := true }
  | none =>
    if !d.document.named.isEmpty then d.report [⟨o.place, .anonymousNotAlone⟩]
    else
      match resolveOperation s o with
      | none => d.report [⟨o.place, .noRootType o.kind⟩]
      | some (o, ds) => { d.report ds with document := { d.document with anonymous := some o } }

def addFragment (s : Schema) (d : Draft) (f : Fragment) : Draft :=
  if d.document.fragments.any (·.name == f.name) then
    d.report [⟨f.namePlace, .fragmentRedefined f.name⟩]
  else
    match f.condition.misfit? s with
    | some p => d.report [p]
    | none =>
      let t := f.condition.name
      let f' := { f with selections := Selection.resolveAll s t f.selections }
      { d.report (Selection.misfitsAll s t f.selections) with
        document := { d.document with fragments := d.document.fragments ++ [f'] } }

def add (s : Schema) (d : Draft) : Definition → Draft
  | .operation o =>
    match o.name with
    | some (n, i) => d.addNamed s o n i
    | none => d.addAnonymous s o
  | .fragment f => d.addFragment s f
  | .system i _ (.schema _) => d.report [⟨i, .notExecutable none⟩]
  | .system i _ (.type n _ _) => d.report [⟨i, .notExecutable (some n)⟩]
  | .system i _ (.directive n _ _ _) => d.report [⟨i, .notExecutable (some n)⟩]

end Draft

/-- The document that definitions provide under a schema, and what had to be left out. -/
def ofDefinitions (s : Schema) (ds : List Definition) : Document × List Diagnostic :=
  let d := ds.foldl (Draft.add s) {}
  (d.document, d.problems)

end Document

end RecordGateway.GraphQL
