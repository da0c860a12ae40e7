import RecordGateway.GraphQL.Schema
import RecordGateway.GraphQL.Diagnostic

/-! # Values in their positions

Which values an argument, a default or a directive's argument may have: `Value.misfits` checks a
value against a type, `Argument.misuse?` a variable that stands for a whole argument.
-/

namespace RecordGateway.GraphQL

/-- The first of the variables defined with a name. -/
def findVariable (vars : List VariableDefinition) (n : Name) : Option VariableDefinition :=
  vars.find? (·.name == n)

/-! ## Values -/

namespace Value

/-- A value that does not fit its type at all. -/
def misfit (t : TypeRef) (v : Value) : List Diagnostic :=
  [⟨v.place, .valueMisfit t.innermost v⟩]

/-- What is wrong with a value without parts where a type of the given shape is expected. -/
def literalMisfits (t : TypeRef) (shape : TypeShape) (i : Nat) (l : Literal) : List Diagnostic :=
  let v : Value := .literal i l
  match l, shape with
  | .null, _ => if t.isNonNull then misfit t v else []
  | _, .scalar false => []
  | .string _, .scalar true =>
    if t.innermost == "String" || t.innermost == "ID" then [] else misfit t v
  | .boolean _, .scalar true => if t.innermost == "Boolean" then [] else misfit t v
  | .int _, .scalar true =>
    if t.innermost == "Int" || t.innermost == "Float" || t.innermost == "ID" then []
    else misfit t v
  | .float _, .scalar true => if t.innermost == "Float" then [] else misfit t v
  | .enum n, .enum ns =>
    if ns.contains n then [] else [⟨i, .unknownEnumValue n t.innermost⟩]
  | _, _ => misfit t v

/-- What is wrong with a variable as a part of a value: its innermost type must be the expected
one. -/
def variableMisfits (vars : List VariableDefinition) (t : TypeRef) (shape : TypeShape) (i : Nat)
    (n : Name) : List Diagnostic :=
  if shape.isInput then
    match findVariable vars n with
    | none => [⟨i, .undefinedVariable n⟩]
    | some d => if d.type.innermost == t.innermost then [] else misfit t (.variable i n)
  else misfit t (.variable i n)

/-- The fields that an object value of the given shape must have and does not, or has as null. -/
def missingFields (t : TypeRef) (expected : List ArgumentType) (i : Nat)
    (fields : List (Name × Value)) : List Diagnostic :=
  (expected.filter fun a =>
      a.isRequired &&
        (match fields.find? (·.1 == a.name) with
          | some (_, v) => v.isNull
          | none => true)).map
    fun a => ⟨i, .inputFieldMissing t.innermost a.name a.type⟩

mutual

/-- What is wrong with a value where a type is expected. A value that is not a list fits a list type
if it fits the type of the items. -/
def misfits (s : Schema) (vars : List VariableDefinition) (t : TypeRef) :
    Value → List Diagnostic
  | .literal i l =>
    match s.type? t.innermost with
    | none => []
    | some shape => literalMisfits t shape i l
  | .variable i n =>
    match s.type? t.innermost with
    | none => []
    | some shape => variableMisfits vars t shape i n
  | .list i vs =>
    match s.type? t.innermost with
    | none => []
    | some shape =>
      if t.isList || shape == .scalar false then itemMisfits s vars t.item vs
      else misfit t (.list i vs)
  | .object i fs =>
    match s.type? t.innermost with
    | none => []
    | some (.scalar false) => []
    | some (.inputObject expected) =>
      missingFields t expected i fs ++ fieldMisfits s vars t.innermost expected fs
    | some _ => misfit t (.object i fs)

def itemMisfits (s : Schema) (vars : List VariableDefinition) (t : TypeRef) :
    List Value → List Diagnostic
  | [] => []
  | v :: vs => misfits s vars t v ++ itemMisfits s vars t vs

def fieldMisfits (s : Schema) (vars : List VariableDefinition) (type : Name)
    (expected : List ArgumentType) : List (Name × Value) → List Diagnostic
  | [] => []
  | (n, v) :: fs =>
    (match expected.find? (·.name == n) with
      | some a => misfits s vars a.type v
      | none => [⟨v.place, .unknownInputField n type⟩]) ++ fieldMisfits s vars type expected fs

end

end Value

/-! ## Arguments -/

/-- Whether a variable may stand where a type is expected. One that may be null may stand where null
is excluded if either side has a default. -/
def VariableDefinition.usable (d : VariableDefinition) (expected : ArgumentType) : Bool :=
  if expected.type.isNonNull && !d.type.isNonNull then
    (d.default.isSome || expected.hasDefault) && d.type.assignable expected.type.nullable
  else d.type.assignable expected.type

namespace Argument

/-- What is wrong with a variable that is the whole argument. -/
def misuse? (vars : List VariableDefinition) (expected : ArgumentType) (a : Argument) :
    Option Diagnostic :=
  match a.value with
  | .variable _ n =>
    match findVariable vars n with
    | some d =>
      if d.usable expected then none
      else some ⟨a.place, .variableMisused n d.type expected.type⟩
    | none => none
  | _ => none

/-- What is wrong with an argument of something that takes the arguments `expected`. -/
def misfits (s : Schema) (vars : List VariableDefinition) (expected : List ArgumentType)
    (owner : String) (a : Argument) : List Diagnostic :=
  match expected.find? (·.name == a.name) with
  | none => [⟨a.place, .unknownArgument a.name owner⟩]
  | some e =>
    match a.misuse? vars e with
    | some d => [d]
    | none => a.value.misfits s vars e.type

/-- The later ones of arguments with one name. -/
def repeated (seen : List Name) : List Argument → List Diagnostic
  | [] => []
  | a :: as =>
    (if seen.contains a.name then [⟨a.place, .repeatedArgument a.name⟩] else []) ++
      repeated (a.name :: seen) as

/-- The required arguments that are not given, or given as null. -/
def missing (expected : List ArgumentType) (as : List Argument) : List ArgumentType :=
  expected.filter fun e =>
    e.isRequired &&
      (match as.find? (·.name == e.name) with
        | some a => a.value.isNull
        | none => true)

end Argument

end RecordGateway.GraphQL
