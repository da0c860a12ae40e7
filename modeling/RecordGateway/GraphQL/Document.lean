/-! # GraphQL documents

What a document says, with the place of every construct that a diagnostic can point at. A place is
the number of tokens before the construct (`Lexeme.place`), so places order the constructs as they
are written.

A document is a list of `Definition`s. Operations and fragments can be executed; the other
definitions describe a type system and are `SystemDefinition`s.
-/

namespace RecordGateway.GraphQL

abbrev Name := String

/-! ## Types -/

/-- A reference to a type: a name or a list, each of which may exclude null. -/
inductive TypeRef where
  | named (name : Name) (nonNull : Bool)
  | list (item : TypeRef) (nonNull : Bool)
  deriving Repr, DecidableEq

namespace TypeRef

/-- The name inside all the lists. -/
def innermost : TypeRef → Name
  | named n _ => n
  | list t _ => innermost t

def isNonNull : TypeRef → Bool
  | named _ b => b
  | list _ b => b

def isList : TypeRef → Bool
  | named .. => false
  | list .. => true

/-- The same type with null. -/
def nullable : TypeRef → TypeRef
  | named n _ => named n false
  | list t _ => list t false

/-- The type of the items of a list; of another type, the type itself. -/
def item : TypeRef → TypeRef
  | list t _ => t
  | t => t

/-- The type as it is written. -/
def render : TypeRef → String
  | named n b => n ++ (if b then "!" else "")
  | list t b => "[" ++ render t ++ "]" ++ (if b then "!" else "")

/-- Whether every value of `source` is one of `target`: the lists nest alike, the names agree, and
`source` excludes null wherever `target` does. -/
def assignable : (source target : TypeRef) → Bool
  | named n b, named m c => n == m && (b || !c)
  | list t b, list u c => assignable t u && (b || !c)
  | _, _ => false

end TypeRef

/-! ## Values -/

/-- A value without parts. Numbers are kept as written. -/
inductive Literal where
  | int (text : String)
  | float (text : String)
  | string (value : String)
  | boolean (value : Bool)
  | null
  | enum (name : Name)
  deriving Repr, DecidableEq

inductive Value where
  | literal (place : Nat) (l : Literal)
  | variable (place : Nat) (name : Name)
  | list (place : Nat) (items : List Value)
  | object (place : Nat) (fields : List (Name × Value))
  deriving Repr

namespace Value

def place : Value → Nat
  | .literal p _ => p
  | .variable p _ => p
  | .list p _ => p
  | .object p _ => p

def isNull : Value → Bool
  | .literal _ .null => true
  | _ => false

mutual

/-- The variables that occur in a value, in order. -/
def variableNames : Value → List Name
  | .literal .. => []
  | .variable _ n => [n]
  | .list _ vs => listVariables vs
  | .object _ fs => fieldVariables fs

def listVariables : List Value → List Name
  | [] => []
  | v :: vs => variableNames v ++ listVariables vs

def fieldVariables : List (Name × Value) → List Name
  | [] => []
  | (_, v) :: fs => variableNames v ++ fieldVariables fs

end

mutual

/-- Whether two values are written alike, wherever they stand. -/
def same : Value → Value → Bool
  | .literal _ l, .literal _ m => l == m
  | .variable _ n, .variable _ m => n == m
  | .list _ vs, .list _ ws => sameItems vs ws
  | .object _ fs, .object _ gs => sameFields fs gs
  | _, _ => false

def sameItems : List Value → List Value → Bool
  | [], [] => true
  | v :: vs, w :: ws => same v w && sameItems vs ws
  | _, _ => false

def sameFields : List (Name × Value) → List (Name × Value) → Bool
  | [], [] => true
  | (n, v) :: fs, (m, w) :: gs => n == m && same v w && sameFields fs gs
  | _, _ => false

end

mutual

/-- Whether two values count as equal when fields are merged: objects agree in any order, and lists
are compared only as far as both go. -/
def agrees : Value → Value → Bool
  | .literal _ l, .literal _ m => l == m
  | .variable _ n, .variable _ m => n == m
  | .list _ vs, .list _ ws => agreesItems vs ws
  | .object _ fs, .object _ gs => fs.length == gs.length && agreesFields fs gs
  | _, _ => false

def agreesItems : List Value → List Value → Bool
  | v :: vs, w :: ws => agrees v w && agreesItems vs ws
  | _, _ => true

def agreesFields : List (Name × Value) → List (Name × Value) → Bool
  | [], _ => true
  | (n, v) :: fs, gs =>
    (match gs.find? (·.1 == n) with
      | some (_, w) => agrees v w
      | none => false) && agreesFields fs gs

end

end Value

/-! ## Selections -/

structure Argument where
  place : Nat
  name : Name
  value : Value
  deriving Repr

structure Directive where
  place : Nat
  name : Name
  arguments : List Argument
  deriving Repr

/-- A field without the selections on its value. -/
structure Field where
  place : Nat
  aliasName : Option Name
  namePlace : Nat
  name : Name
  arguments : List Argument
  directives : List Directive
  deriving Repr

/-- The name of a field in the response. -/
def Field.responseKey (f : Field) : Name := f.aliasName.getD f.name

/-- The type that a fragment is for. -/
structure TypeCondition where
  place : Nat
  name : Name
  deriving Repr

/-- One item of a selection set. A field without a selection set has an empty `body`. -/
inductive Selection where
  | field (head : Field) (body : List Selection)
  | inline (place : Nat) (condition : Option TypeCondition) (directives : List Directive)
      (body : List Selection)
  | spread (place : Nat) (fragment : Name) (directives : List Directive)
  deriving Repr

namespace Selection

def directives : Selection → List Directive
  | field f _ => f.directives
  | inline _ _ ds _ => ds
  | spread _ _ ds => ds

def body : Selection → List Selection
  | field _ b => b
  | inline _ _ _ b => b
  | spread .. => []

end Selection

/-! ## Operations and fragments -/

inductive OperationKind where
  | query | mutation | subscription
  deriving Repr, DecidableEq

namespace OperationKind

/-- The keyword of the kind. -/
def keyword : OperationKind → String
  | query => "query"
  | mutation => "mutation"
  | subscription => "subscription"

/-- The kind as a word in a sentence. -/
def title : OperationKind → String
  | query => "Query"
  | mutation => "Mutation"
  | subscription => "Subscription"

def ofKeyword? : String → Option OperationKind
  | "query" => some query
  | "mutation" => some mutation
  | "subscription" => some subscription
  | _ => none

end OperationKind

structure VariableDefinition where
  place : Nat
  name : Name
  type : TypeRef
  default : Option Value
  directives : List Directive
  deriving Repr

structure Operation where
  place : Nat
  kind : OperationKind
  /-- The name and its place. -/
  name : Option (Name × Nat)
  variableDefinitions : List VariableDefinition
  directives : List Directive
  selections : List Selection
  deriving Repr

structure Fragment where
  place : Nat
  namePlace : Nat
  name : Name
  condition : TypeCondition
  directives : List Directive
  selections : List Selection
  deriving Repr

/-! ## Type systems -/

/-- An argument of a field or directive, or a field of an input object. -/
structure InputDefinition where
  place : Nat
  name : Name
  type : TypeRef
  default : Option Value
  directives : List Directive
  deriving Repr

structure FieldDefinition where
  place : Nat
  name : Name
  arguments : List InputDefinition
  type : TypeRef
  directives : List Directive
  deriving Repr

/-- The members of a type, by its kind. -/
inductive TypeBody where
  | scalar
  | object (interfaces : List Name) (fields : List FieldDefinition)
  | interface (interfaces : List Name) (fields : List FieldDefinition)
  | union (members : List Name)
  | enum (values : List Name)
  | inputObject (fields : List InputDefinition)
  deriving Repr

/-- The operation kinds that a schema offers, each with its root type and the place of the entry. -/
abbrev RootTypes := List (OperationKind × Name × Nat)

inductive SystemDefinition where
  | schema (roots : RootTypes)
  | type (name : Name) (namePlace : Nat) (body : TypeBody)
  | directive (name : Name) (arguments : List InputDefinition) (repeatable : Bool)
      (locations : List String)
  deriving Repr

inductive Definition where
  | operation (o : Operation)
  | fragment (f : Fragment)
  /-- A type system definition, or an extension of one. -/
  | system (place : Nat) (extension : Bool) (d : SystemDefinition)
  deriving Repr

end RecordGateway.GraphQL
