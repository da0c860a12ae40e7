import RecordGateway.GraphQL.Parser
import RecordGateway.GraphQL.Schema.Definitions

/-! # The registry

The gateway exposes one type of record and one query field that fetches it. Descriptors say how they
are called; `Registry.ofDescriptors` renders them as schema definitions and compiles those.

A registry fails to build for the first of these reasons: the entity has no fields, it has a field
twice, the query field returns something else, or the rendered definitions are no valid schema.
-/

namespace RecordGateway

open GraphQL (Schema)

/-- The kind of a field or argument. -/
inductive ScalarKind where
  | string
  deriving Repr, DecidableEq

/-- The name of the kind in a schema. -/
def ScalarKind.name : ScalarKind → String
  | .string => "String"

structure FieldDescriptor where
  name : String
  kind : ScalarKind := .string
  deriving Repr, DecidableEq

/-- The records that can be asked for. -/
structure EntityDescriptor where
  name : String
  fields : List FieldDescriptor
  deriving Repr, DecidableEq

namespace EntityDescriptor

def field? (e : EntityDescriptor) (name : String) : Option FieldDescriptor :=
  e.fields.find? (·.name == name)

def fieldNames (e : EntityDescriptor) : List String := e.fields.map (·.name)

end EntityDescriptor

/-- The query field: where it is, its one argument, and the type that it returns. -/
structure RootDescriptor where
  typeName : String
  field : String
  argument : String
  argumentKind : ScalarKind := .string
  returns : String
  deriving Repr, DecidableEq

/-- `type Data` with an id, a name and a description. -/
def dataEntity : EntityDescriptor :=
  ⟨"Data", [⟨"id", .string⟩, ⟨"name", .string⟩, ⟨"description", .string⟩]⟩

/-- `getData(id: String): Data` on `RootQuery`. -/
def getData : RootDescriptor := ⟨"RootQuery", "getData", "id", .string, "Data"⟩

/-! ## Errors -/

inductive RegistryError where
  | emptyEntity (entity : String)
  | duplicateField (entity field : String)
  | unresolvedType (field type : String)
  | invalid (messages : List String)
  deriving Repr, DecidableEq

/-- The wording of an error. -/
def RegistryError.message : RegistryError → String
  | .emptyEntity e => "type " ++ e ++ " declares no fields"
  | .duplicateField e f => "type " ++ e ++ " declares field " ++ f ++ " more than once"
  | .unresolvedType f t => "field " ++ f ++ " returns unknown type " ++ t
  | .invalid ms => "schema failed validation: " ++ String.intercalate "; " ms

/-! ## Building -/

structure Registry where
  entity : EntityDescriptor
  root : RootDescriptor
  /-- The definitions that the schema was compiled from. -/
  sdl : String
  schema : Schema
  deriving Repr

namespace Registry

/-- The first of some names that occurred before. -/
def firstRepeated (seen : List String) : List String → Option String
  | [] => none
  | n :: ns => if seen.contains n then some n else firstRepeated (n :: seen) ns

/-- What is wrong with descriptors by themselves. -/
def descriptorError? (e : EntityDescriptor) (r : RootDescriptor) : Option RegistryError :=
  if e.fields.isEmpty then some (.emptyEntity e.name)
  else
    match firstRepeated [] e.fieldNames with
    | some f => some (.duplicateField e.name f)
    | none => if r.returns ≠ e.name then some (.unresolvedType r.field r.returns) else none

def renderField (f : FieldDescriptor) : String := "  " ++ f.name ++ ": " ++ f.kind.name ++ "\n"

/-- The definitions that descriptors stand for. Names are put in as they are. -/
def render (e : EntityDescriptor) (r : RootDescriptor) : String :=
  "schema \x7b query: " ++ r.typeName ++ " \x7d\n\n" ++
    "type " ++ r.typeName ++ " \x7b\n  " ++ r.field ++ "(" ++ r.argument ++ ": " ++
    r.argumentKind.name ++ "): " ++ r.returns ++ "\n\x7d\n\n" ++
    "type " ++ e.name ++ " \x7b\n" ++ String.join (e.fields.map renderField) ++ "\x7d\n"

/-- The schema that definitions write, or what is wrong with them. -/
def compile (sdl : String) : Except (List String) Schema :=
  match GraphQL.parseDefinitions sdl with
  | .error e => .error [e.message]
  | .ok ds =>
    match Schema.ofDefinitions ds with
    | (s, []) => .ok s
    | (_, ps) => .error (ps.map (·.problem.message))

/-- The registry for an entity and a query field. -/
def ofDescriptors (e : EntityDescriptor) (r : RootDescriptor) : Except RegistryError Registry :=
  match descriptorError? e r with
  | some err => .error err
  | none =>
    match compile (render e r) with
    | .ok s => .ok ⟨e, r, render e r, s⟩
    | .error ms => .error (.invalid ms)

/-- The registry of the gateway. -/
def builtin : Except RegistryError Registry := ofDescriptors dataEntity getData

end Registry

end RecordGateway
