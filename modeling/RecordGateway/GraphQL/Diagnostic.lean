import RecordGateway.GraphQL.Document

/-! # What can be wrong with a document

A `Diagnostic` is a `Problem` and the place of the construct that it points at. The wording of every
problem is in `Problem.message`.
-/

namespace RecordGateway.GraphQL

/-! ## Values as text -/

namespace Value

/-- A control character as `\u` and four digits. -/
def controlEscape (n : Nat) : String :=
  "\\u00" ++ String.ofList [Nat.digitChar (n / 16) |>.toUpper, Nat.digitChar (n % 16) |>.toUpper]

def escapeChar (c : Char) : String :=
  if c = '"' then "\\\""
  else if c = '\\' then "\\\\"
  else if c = '\n' then "\\n"
  else if c = '\r' then "\\r"
  else if c = '\x08' then "\\b"
  else if c = '\x0c' then "\\f"
  else if c < ' ' ∧ c ≠ '\t' then controlEscape c.toNat
  else c.toString

def renderString (s : String) : String :=
  "\"" ++ String.join (s.toList.map escapeChar) ++ "\""

def renderLiteral : Literal → String
  | .int t => t
  | .float t => t
  | .string s => renderString s
  | .boolean b => if b then "true" else "false"
  | .null => "null"
  | .enum n => n

/-- Two blanks for each level. -/
def margin (level : Nat) : String := String.ofList (List.replicate (2 * level) ' ')

mutual

/-- A value as text, at a level of indentation. Lists and objects take a line for each part. -/
def render (level : Nat) : Value → String
  | .literal _ l => renderLiteral l
  | .variable _ n => "$" ++ n
  | .list _ [] => "[]"
  | .list _ (v :: vs) => "[\n" ++ renderItems (level + 1) (v :: vs) ++ margin level ++ "]"
  | .object _ [] => "\x7b\x7d"
  | .object _ (f :: fs) =>
    "\x7b\n" ++ renderFields (level + 1) (f :: fs) ++ margin level ++ "\x7d"

def renderItems (level : Nat) : List Value → String
  | [] => ""
  | v :: vs => margin level ++ render level v ++ ",\n" ++ renderItems level vs

def renderFields (level : Nat) : List (Name × Value) → String
  | [] => ""
  | (n, v) :: fs => margin level ++ n ++ ": " ++ render level v ++ ",\n" ++ renderFields level fs

end

end Value

/-! ## Problems -/

inductive Problem where
  | anonymousNotAlone
  | operationRedefined (name : Name)
  | fragmentRedefined (name : Name)
  | noRootType (kind : OperationKind)
  /-- A definition that is not an operation or fragment; the schema definition has no name. -/
  | notExecutable (name : Option Name)
  | unknownType (name : Name)
  | unknownField (field type : Name)
  | selectionOnLeaf (key type : Name)
  | selectionMissing (field parent : Name)
  | unknownDirective (name : Name)
  | repeatedDirective (name : Name)
  | misplacedDirective (name : Name) (location : String)
  | directiveArgumentMissing (directive argument : Name) (type : TypeRef)
  | repeatedArgument (name : Name)
  | unknownArgument (argument : Name) (owner : String)
  | fieldArgumentMissing (field argument : Name) (type : TypeRef)
  | repeatedVariable (name : Name)
  | unusedVariable (name : Name)
  | undefinedVariable (name : Name)
  | notInputType (name : Name) (type : TypeRef)
  | variableMisused (name : Name) (type expected : TypeRef)
  | valueMisfit (type : Name) (value : Value)
  | unknownEnumValue (value type : Name)
  | unknownInputField (field type : Name)
  | inputFieldMissing (type field : Name) (expected : TypeRef)
  | inlineOnLeaf (type : Name)
  | fragmentOnLeaf (fragment type : Name)
  | inlineNeverApplies (parent type : Name)
  | spreadNeverApplies (fragment parent type : Name)
  | unknownFragment (name : Name)
  | fragmentCycle (name : Name) (via : List Name)
  | fragmentsTooDeep (name : Name)
  | unusedFragment (name : Name)
  | repeatedLabel
  | subscriptionIntrospects (name : Option Name)
  | subscriptionConditional (name : Option Name)
  | subscriptionNotSingle (name : Option Name)
  | conflictingTypes (key : Name) (first second : TypeRef)
  | conflictingFields (key first second : Name)
  | conflictingArguments (field : Name)
  | fieldsTooDeep
  deriving Repr

namespace Problem

def quote (s : String) : String := "\"" ++ s ++ "\""

/-- A variable as it is written, in quotes. -/
def quoteVariable (n : Name) : String := quote ("$" ++ n)

def quoteDirective (n : Name) : String := quote ("@" ++ n)

def required (what : String) (type : TypeRef) : String :=
  what ++ " of type " ++ quote type.render ++ " is required, but it was not provided."

def neverApplies (what : String) (parent type : Name) : String :=
  what ++ " cannot be spread here as objects of type " ++ quote parent ++
    " can never be of type " ++ quote type ++ "."

def conflict (name reason : String) : String :=
  "Fields " ++ quote name ++ " conflict because " ++ reason ++
    ". Use different aliases on the fields to fetch both if this was intentional."

def subscription (name : Option Name) (rest : String) : String :=
  (match name with
    | some n => "Subscription " ++ quote n
    | none => "Anonymous Subscription") ++ " " ++ rest

/-- The wording of a problem. -/
def message : Problem → String
  | anonymousNotAlone => "This anonymous operation must be the only defined operation."
  | operationRedefined n => "There can be only one operation named " ++ quote n ++ "."
  | fragmentRedefined n => "There can be only one fragment named " ++ quote n ++ "."
  | noRootType k => "The schema has no " ++ quote k.keyword ++ " root type defined"
  | notExecutable (some n) => "The " ++ quote n ++ " definition is not executable."
  | notExecutable none => "The schema definition is not executable."
  | unknownType n => "Unknown type " ++ quote n ++ "."
  | unknownField f t => "Cannot query field " ++ quote f ++ " on type " ++ quote t ++ "."
  | selectionOnLeaf k t =>
    "Field " ++ quote k ++ " must not have a selection since type " ++ quote t ++
      " has no subfields"
  | selectionMissing f t =>
    "Field " ++ quote f ++ " of type " ++ quote t ++
      " must have a selection of subfields. Did you mean " ++ quote (f ++ " \x7b ... \x7d") ++ "?"
  | unknownDirective d => "Unknown directive " ++ quoteDirective d ++ "."
  | repeatedDirective d =>
    "The directive " ++ quoteDirective d ++ " can only be used once at this location."
  | misplacedDirective d l => "Directive " ++ quoteDirective d ++ " may not be used on " ++ l ++ "."
  | directiveArgumentMissing d a t =>
    required ("Directive " ++ quoteDirective d ++ " argument " ++ quote a) t
  | repeatedArgument a => "There can be only one argument named " ++ quote a ++ "."
  | unknownArgument a owner =>
    "Unknown argument " ++ quote a ++ " on field " ++ quote owner ++ "."
  | fieldArgumentMissing f a t => required ("Field " ++ quote f ++ " argument " ++ quote a) t
  | repeatedVariable v => "There can be only one variable named " ++ quoteVariable v ++ "."
  | unusedVariable v => "Variable " ++ quoteVariable v ++ " is never used."
  | undefinedVariable v => "Variable " ++ quoteVariable v ++ " is not defined."
  | notInputType v t =>
    "Variable " ++ quoteVariable v ++ " cannot be non-input type " ++ quote t.render ++ "."
  | variableMisused v t u =>
    "Variable " ++ quoteVariable v ++ " of type " ++ quote t.render ++
      " used in position expecting type " ++ quote u.render ++ "."
  | valueMisfit t v => t ++ " cannot represent value: " ++ v.render 0
  | unknownEnumValue v t => "Value " ++ quote v ++ " does not exist in " ++ quote t ++ " enum."
  | unknownInputField f t => "Field " ++ quote f ++ " is not defined by type " ++ quote t ++ "."
  | inputFieldMissing t f u =>
    "Field " ++ quote (t ++ "." ++ f) ++ " of required type " ++ quote u.render ++
      " was not provided."
  | inlineOnLeaf t => "Fragment cannot condition on non composite type " ++ quote t ++ "."
  | fragmentOnLeaf f t =>
    "Fragment " ++ quote f ++ " cannot condition on non composite type " ++ quote t ++ "."
  | inlineNeverApplies p t => neverApplies "Fragment" p t
  | spreadNeverApplies f p t => neverApplies ("Fragment " ++ quote f) p t
  | unknownFragment f => "Unknown fragment " ++ quote f ++ "."
  | fragmentCycle f via =>
    "Cannot spread fragment " ++ quote f ++ " within itself via " ++
      String.intercalate ", " (via.map quote)
  | fragmentsTooDeep f => "`" ++ f ++ "` contains too much nesting"
  | unusedFragment f => "Fragment " ++ quote f ++ " is never used."
  | repeatedLabel =>
    "Value for arguments \"defer(label:)\" and \"stream(label:)\" must be unique across all " ++
      "Defer/Stream directive usages."
  | subscriptionIntrospects n =>
    subscription n "must not select an introspection top level field."
  | subscriptionConditional n =>
    subscription n "can not specify @skip or @include on root fields."
  | subscriptionNotSingle n => subscription n "must select only one top level field."
  | conflictingTypes k t u =>
    conflict k ("they return conflicting types \"" ++ t.render ++ " and " ++ quote u.render)
  | conflictingFields k f g =>
    conflict k (quote f ++ " and " ++ quote g ++ " are different fields")
  | conflictingArguments f => conflict f "they have differing arguments"
  | fieldsTooDeep => "too much recursion"

end Problem

/-! ## Diagnostics -/

/-- A problem and the place that it points at. -/
structure Diagnostic where
  place : Nat
  problem : Problem
  deriving Repr

namespace Diagnostic

/-- Diagnostics in the order of their places; those of one place keep their order. -/
def sort (ds : List Diagnostic) : List Diagnostic := ds.mergeSort fun a b => a.place ≤ b.place

end Diagnostic

end RecordGateway.GraphQL
