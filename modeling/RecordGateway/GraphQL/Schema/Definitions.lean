import RecordGateway.GraphQL.Schema.Builtin

/-! # Schemas from their definitions

`Schema.ofDefinitions` gathers the type system definitions of a document into a schema and lists
what is wrong with them. The list is empty for a schema that documents can be checked against.

* A type, a field or a root type counts where it is defined first; a second definition is a problem
  and otherwise ignored.
* The problems are listed in the order of the places that they point at.
-/

namespace RecordGateway.GraphQL

/-! ## Problems -/

inductive SchemaProblem where
  | typeRedefined (name : Name)
  | fieldRedefined (field : Name) (kind : String) (type : Name)
  | reservedName (what : String) (name : Name)
  | rootNotObject (name : Name)
  | rootShared (name : Name)
  | rootMissing
  | schemaRedefined
  | unknownType (name : Name)
  | extendsUnknown (name : Name)
  | notExecutableHere (what : String)
  deriving Repr, DecidableEq

/-- The wording of a problem. -/
def SchemaProblem.message : SchemaProblem → String
  | .typeRedefined n => "the type `" ++ n ++ "` is defined multiple times in the schema"
  | .fieldRedefined f kind t =>
    "duplicate definitions for the `" ++ f ++ "` field of " ++ kind ++ " type `" ++ t ++ "`"
  | .reservedName what n =>
    what ++ " cannot be named `" ++ n ++ "` as names starting with two underscores are reserved"
  | .rootNotObject n => "`" ++ n ++ "` field must return an object type"
  | .rootShared n =>
    "the same type `" ++ n ++ "` must not be used for multiple root operation types"
  | .rootMissing => "missing query root operation type in schema definition"
  | .schemaRedefined => "must not have multiple `schema` definitions"
  | .unknownType n => "cannot find type `" ++ n ++ "` in this document"
  | .extendsUnknown n => "type extension for undefined type `" ++ n ++ "`"
  | .notExecutableHere what => "a schema document must not contain " ++ what

/-- A problem and the place it points at. -/
structure SchemaDiagnostic where
  place : Nat
  problem : SchemaProblem
  deriving Repr, DecidableEq

/-! ## Gathering types -/

namespace Schema

/-- A type under construction, with the place of its name. -/
structure Draft where
  name : Name
  place : Nat
  body : TypeBody

/-- The types so far, in the order of their definitions, and the problems met on the way. -/
structure Drafts where
  types : List Draft := []
  roots : RootTypes := []
  directives : List DirectiveType := []
  schemaDefined : Bool := false
  problems : List SchemaDiagnostic := []

/-- Keeps the first of the fields with one name, and tells of the others. -/
def dedupFields (kind : String) (type : Name) (kept : List FieldDefinition) :
    List FieldDefinition → List FieldDefinition × List SchemaDiagnostic
  | [] => (kept, [])
  | f :: fs =>
    if kept.any (·.name == f.name) then
      let (ks, ds) := dedupFields kind type kept fs
      (ks, ⟨f.place, .fieldRedefined f.name kind type⟩ :: ds)
    else dedupFields kind type (kept ++ [f]) fs

/-- A definition's body added to what a type already has. -/
def mergeBody (type : Name) (old new : TypeBody) : TypeBody × List SchemaDiagnostic :=
  match old, new with
  | .object is fs, .object js gs =>
    let (fs, ds) := dedupFields "object" type fs gs
    (.object (is ++ js) fs, ds)
  | .interface is fs, .interface js gs =>
    let (fs, ds) := dedupFields "interface" type fs gs
    (.interface (is ++ js) fs, ds)
  | .union ms, .union ns => (.union (ms ++ ns), [])
  | .enum vs, .enum ws => (.enum (vs ++ ws), [])
  | .inputObject fs, .inputObject gs => (.inputObject (fs ++ gs), [])
  | old, _ => (old, [])

/-- The same kind of type with nothing in it. -/
def emptyBody : TypeBody → TypeBody
  | .scalar => .scalar
  | .object .. => .object [] []
  | .interface .. => .interface [] []
  | .union _ => .union []
  | .enum _ => .enum []
  | .inputObject _ => .inputObject []

def directiveType (n : Name) (as : List InputDefinition) (r : Bool) (ls : List String) :
    DirectiveType :=
  ⟨n, as.map fun a => ⟨a.name, a.type, a.default.isSome⟩, r, ls⟩

/-- Adds a definition to the drafts. -/
def Drafts.add (d : Drafts) : Definition → Drafts
  | .operation o =>
    { d with problems := d.problems ++ [⟨o.place, .notExecutableHere "an operation"⟩] }
  | .fragment f =>
    { d with problems := d.problems ++ [⟨f.place, .notExecutableHere "a fragment"⟩] }
  | .system place extension def_ =>
    match def_ with
    | .schema rs =>
      if d.schemaDefined && !extension then
        { d with problems := d.problems ++ [⟨place, .schemaRedefined⟩] }
      else { d with roots := d.roots ++ rs, schemaDefined := true }
    | .directive n as r ls => { d with directives := d.directives ++ [directiveType n as r ls] }
    | .type n i body =>
      match d.types.find? (·.name == n), extension with
      | none, false =>
        if Builtin.reserved n then
          { d with problems := d.problems ++ [⟨i, .typeRedefined n⟩] }
        else
          let (body, ps) := mergeBody n (emptyBody body) body
          { d with types := d.types ++ [⟨n, i, body⟩], problems := d.problems ++ ps }
      | some _, false => { d with problems := d.problems ++ [⟨i, .typeRedefined n⟩] }
      | none, true => { d with problems := d.problems ++ [⟨i, .extendsUnknown n⟩] }
      | some old, true =>
        let (body, ps) := mergeBody n old.body body
        { d with
          types := d.types.map fun t => if t.name == n then ⟨n, old.place, body⟩ else t
          problems := d.problems ++ ps }

/-! ## From drafts to types -/

def argumentType (a : InputDefinition) : ArgumentType := ⟨a.name, a.type, a.default.isSome⟩

def fieldType (f : FieldDefinition) : FieldType := ⟨f.name, f.arguments.map argumentType, f.type⟩

def shape : TypeBody → TypeShape
  | .scalar => .scalar false
  | .object is fs => .object is (fs.map fieldType)
  | .interface _ fs => .interface (fs.map fieldType)
  | .union ms => .union ms
  | .enum vs => .enum vs
  | .inputObject fs => .inputObject (fs.map argumentType)

/-- The types that a definition refers to, each with the place of the reference's owner. -/
def references : TypeBody → List (Name × Nat)
  | .object _ fs | .interface _ fs =>
    fs.flatMap fun f =>
      f.arguments.map (fun a => (a.type.innermost, a.place)) ++ [(f.type.innermost, f.place)]
  | .inputObject fs => fs.map fun f => (f.type.innermost, f.place)
  | _ => []

def isReservedName (n : Name) : Bool := ['_', '_'].isPrefixOf n.toList

/-- The names in a definition that start with two underscores. -/
def reservedNames (t : Draft) : List SchemaDiagnostic :=
  let kind := match t.body with
    | .scalar => "a scalar type"
    | .object .. => "an object type"
    | .interface .. => "an interface type"
    | .union _ => "a union type"
    | .enum _ => "an enum type"
    | .inputObject _ => "an input object type"
  let own := if isReservedName t.name then [⟨t.place, .reservedName kind t.name⟩] else []
  let fields := match t.body with
    | .object _ fs | .interface _ fs =>
      fs.flatMap fun f =>
        (if isReservedName f.name then [⟨f.place, .reservedName "a field" f.name⟩] else []) ++
          f.arguments.filterMap fun a =>
            if isReservedName a.name then some ⟨a.place, .reservedName "an argument" a.name⟩
            else none
    | .inputObject fs =>
      fs.filterMap fun f =>
        if isReservedName f.name then some ⟨f.place, .reservedName "an input field" f.name⟩
        else none
    | _ => []
  own ++ fields

/-- What is wrong with the root types: each is an object type, and no two are the same. -/
def rootProblems (s : Schema) (seen : List Name) : RootTypes → List SchemaDiagnostic
  | [] => []
  | (_, n, i) :: rs =>
    (match s.type? n with
      | some (.object ..) => []
      | some _ => [⟨i, .rootNotObject n⟩]
      | none => [⟨i, .unknownType n⟩]) ++
    (if seen.contains n then [⟨i, .rootShared n⟩] else []) ++
    rootProblems s (n :: seen) rs

/-- The name of the root type for a kind, the first one given. -/
def rootFor (kind : OperationKind) (rs : RootTypes) : Option Name :=
  (rs.find? (·.1 == kind)).map (·.2.1)

/-- The schema that definitions describe, and what is wrong with it. -/
def ofDefinitions (ds : List Definition) : Schema × List SchemaDiagnostic :=
  let drafts := ds.foldl Drafts.add {}
  let refs := drafts.types.flatMap fun t => references t.body
  let s : Schema := {
    types := Builtin.types (refs.map (·.1)) ++ drafts.types.map fun t => (t.name, shape t.body)
    directives := Builtin.directives ++ drafts.directives
    query := rootFor .query drafts.roots
    mutation := rootFor .mutation drafts.roots
    subscription := rootFor .subscription drafts.roots }
  let unknown := refs.filterMap fun (n, i) =>
    if (s.type? n).isNone then some ⟨i, .unknownType n⟩ else none
  let missing := if s.query.isNone then [⟨0, .rootMissing⟩] else []
  let problems := drafts.problems ++ missing ++ rootProblems s [] drafts.roots ++
    drafts.types.flatMap reservedNames ++ unknown
  (s, problems.mergeSort fun a b => a.place ≤ b.place)

end Schema

end RecordGateway.GraphQL
