import RecordGateway.GraphQL.Document

/-! # Schemas

A `Schema` is what documents are checked against: named types, directives, and the type that each
kind of operation starts from. Every object type has the field `__typename`; the query root has
`__schema` and `__type` besides (`Schema.field?`).
-/

namespace RecordGateway.GraphQL

/-! ## Types -/

/-- An argument, or a field of an input object. Of a default only its presence matters here. -/
structure ArgumentType where
  name : Name
  type : TypeRef
  hasDefault : Bool := false
  deriving Repr, DecidableEq

/-- An argument that excludes null and has no default must be given. -/
def ArgumentType.isRequired (a : ArgumentType) : Bool :=
  a.type.isNonNull && !a.hasDefault

structure FieldType where
  name : Name
  arguments : List ArgumentType := []
  type : TypeRef
  deriving Repr, DecidableEq

inductive TypeShape where
  /-- A scalar; the values of a scalar that is not built in are not checked. -/
  | scalar (builtin : Bool)
  | object (interfaces : List Name) (fields : List FieldType)
  | interface (fields : List FieldType)
  | union (members : List Name)
  | enum (values : List Name)
  | inputObject (fields : List ArgumentType)
  deriving Repr, DecidableEq

namespace TypeShape

/-- Types with fields, or with members that have them. -/
def isComposite : TypeShape → Bool
  | object .. | interface .. | union .. => true
  | _ => false

/-- Types whose values have no selections. -/
def isLeaf : TypeShape → Bool
  | scalar .. | enum .. => true
  | _ => false

/-- Types that a variable or an argument can have. -/
def isInput : TypeShape → Bool
  | scalar .. | enum .. | inputObject .. => true
  | _ => false

def fields : TypeShape → List FieldType
  | object _ fs => fs
  | interface fs => fs
  | _ => []

end TypeShape

/-! ## Directives -/

structure DirectiveType where
  name : Name
  arguments : List ArgumentType := []
  repeatable : Bool := false
  /-- The locations where it is allowed, as they are spelled in a definition. -/
  locations : List String
  deriving Repr, DecidableEq

/-! ## Schemas -/

structure Schema where
  types : List (Name × TypeShape)
  directives : List DirectiveType
  query : Option Name
  mutation : Option Name := none
  subscription : Option Name := none
  deriving Repr, DecidableEq

namespace Schema

def type? (s : Schema) (n : Name) : Option TypeShape := s.types.lookup n

def directive? (s : Schema) (n : Name) : Option DirectiveType :=
  s.directives.find? (·.name == n)

/-- The type that operations of a kind start from. -/
def root? (s : Schema) : OperationKind → Option Name
  | .query => s.query
  | .mutation => s.mutation
  | .subscription => s.subscription

def typenameField : FieldType := ⟨"__typename", [], .named "String" true⟩

/-- The fields that only the query root has without declaring them. -/
def introspectionFields : List FieldType :=
  [⟨"__schema", [], .named "__Schema" true⟩,
    ⟨"__type", [⟨"name", .named "String" true, false⟩], .named "__Type" false⟩]

/-- The field of a type with a name, whether declared or not. -/
def field? (s : Schema) (parent name : Name) : Option FieldType :=
  match s.type? parent with
  | none => none
  | some shape =>
    match shape.fields.find? (·.name == name) with
    | some f => some f
    | none =>
      if shape.isComposite && name == "__typename" then some typenameField
      else if s.query == some parent then introspectionFields.find? (·.name == name)
      else none

def isLeaf (s : Schema) (n : Name) : Bool := (s.type? n).any TypeShape.isLeaf

def isComposite (s : Schema) (n : Name) : Bool := (s.type? n).any TypeShape.isComposite

/-- The object types that a value of a composite type can have. -/
def possibleTypes (s : Schema) (n : Name) : List Name :=
  match s.type? n with
  | some (.object ..) => [n]
  | some (.interface ..) =>
    s.types.filterMap fun
      | (m, .object is _) => if is.contains n then some m else none
      | _ => none
  | some (.union ms) => ms
  | _ => []

/-- Whether some value of the type `parent` can have the type `condition`. -/
def overlap (s : Schema) (parent condition : Name) : Bool :=
  parent == condition ||
    (s.possibleTypes parent).any (s.possibleTypes condition).contains

end Schema

end RecordGateway.GraphQL
