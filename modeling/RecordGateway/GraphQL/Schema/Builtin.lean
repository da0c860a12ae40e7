import RecordGateway.GraphQL.Schema

/-! # What every schema has

The scalars, the types that describe a schema to its clients, and the directives that a schema holds
without declaring them. `Builtin.reserved` says which type names a schema may not define again.
-/

namespace RecordGateway.GraphQL.Builtin

/-- The scalars that are always there. -/
def scalars : List Name := ["String", "Boolean"]

/-- The scalars that are there when some definition refers to them. -/
def occasionalScalars : List Name := ["Int", "Float", "ID"]

def opt (n : Name) : TypeRef := .named n false

def req (n : Name) : TypeRef := .named n true

/-- A list whose items exclude null. -/
def listOf (n : Name) : TypeRef := .list (req n) false

/-- The argument by which a client asks for deprecated items too. -/
def includeDeprecated : List ArgumentType := [⟨"includeDeprecated", opt "Boolean", true⟩]

/-- The types of the answers to questions about the schema. -/
def introspectionTypes : List (Name × TypeShape) :=
  [("__Schema", .object []
      [⟨"description", [], opt "String"⟩, ⟨"types", [], .list (req "__Type") true⟩,
        ⟨"queryType", [], req "__Type"⟩, ⟨"mutationType", [], opt "__Type"⟩,
        ⟨"subscriptionType", [], opt "__Type"⟩,
        ⟨"directives", [], .list (req "__Directive") true⟩]),
    ("__Type", .object []
      [⟨"kind", [], req "__TypeKind"⟩, ⟨"name", [], opt "String"⟩,
        ⟨"description", [], opt "String"⟩, ⟨"fields", includeDeprecated, listOf "__Field"⟩,
        ⟨"interfaces", [], listOf "__Type"⟩, ⟨"possibleTypes", [], listOf "__Type"⟩,
        ⟨"enumValues", includeDeprecated, listOf "__EnumValue"⟩,
        ⟨"inputFields", includeDeprecated, listOf "__InputValue"⟩, ⟨"ofType", [], opt "__Type"⟩,
        ⟨"specifiedByURL", [], opt "String"⟩]),
    ("__TypeKind", .enum
      ["SCALAR", "OBJECT", "INTERFACE", "UNION", "ENUM", "INPUT_OBJECT", "LIST", "NON_NULL"]),
    ("__Field", .object []
      [⟨"name", [], req "String"⟩, ⟨"description", [], opt "String"⟩,
        ⟨"args", includeDeprecated, .list (req "__InputValue") true⟩, ⟨"type", [], req "__Type"⟩,
        ⟨"isDeprecated", [], req "Boolean"⟩, ⟨"deprecationReason", [], opt "String"⟩]),
    ("__InputValue", .object []
      [⟨"name", [], req "String"⟩, ⟨"description", [], opt "String"⟩, ⟨"type", [], req "__Type"⟩,
        ⟨"defaultValue", [], opt "String"⟩, ⟨"isDeprecated", [], req "Boolean"⟩,
        ⟨"deprecationReason", [], opt "String"⟩]),
    ("__EnumValue", .object []
      [⟨"name", [], req "String"⟩, ⟨"description", [], opt "String"⟩,
        ⟨"isDeprecated", [], req "Boolean"⟩, ⟨"deprecationReason", [], opt "String"⟩]),
    ("__Directive", .object []
      [⟨"name", [], req "String"⟩, ⟨"description", [], opt "String"⟩,
        ⟨"locations", [], .list (req "__DirectiveLocation") true⟩,
        ⟨"args", includeDeprecated, .list (req "__InputValue") true⟩,
        ⟨"isRepeatable", [], req "Boolean"⟩]),
    ("__DirectiveLocation", .enum
      ["QUERY", "MUTATION", "SUBSCRIPTION", "FIELD", "FRAGMENT_DEFINITION", "FRAGMENT_SPREAD",
        "INLINE_FRAGMENT", "VARIABLE_DEFINITION", "SCHEMA", "SCALAR", "OBJECT",
        "FIELD_DEFINITION", "ARGUMENT_DEFINITION", "INTERFACE", "UNION", "ENUM", "ENUM_VALUE",
        "INPUT_OBJECT", "INPUT_FIELD_DEFINITION"])]

/-- The condition of `@skip` and `@include`. -/
def condition : List ArgumentType := [⟨"if", req "Boolean", false⟩]

def directives : List DirectiveType :=
  [⟨"skip", condition, false, ["FIELD", "FRAGMENT_SPREAD", "INLINE_FRAGMENT"]⟩,
    ⟨"include", condition, false, ["FIELD", "FRAGMENT_SPREAD", "INLINE_FRAGMENT"]⟩,
    ⟨"deprecated", [⟨"reason", opt "String", true⟩], false,
      ["FIELD_DEFINITION", "ARGUMENT_DEFINITION", "INPUT_FIELD_DEFINITION", "ENUM_VALUE"]⟩,
    ⟨"specifiedBy", [⟨"url", req "String", false⟩], false, ["SCALAR"]⟩]

/-- The types of a schema that mentions the type names in `used`, before any of its own. -/
def types (used : List Name) : List (Name × TypeShape) :=
  (scalars ++ occasionalScalars.filter used.contains).map (·, .scalar true) ++ introspectionTypes

/-- Whether a type name is taken before a schema defines anything. -/
def reserved (n : Name) : Bool :=
  scalars.contains n || occasionalScalars.contains n || (introspectionTypes.lookup n).isSome

end RecordGateway.GraphQL.Builtin
