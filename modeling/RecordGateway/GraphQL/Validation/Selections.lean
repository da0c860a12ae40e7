import RecordGateway.GraphQL.Executable
import RecordGateway.GraphQL.Validation.Values

/-! # Directives and selections

What is wrong with the directives on a construct (`Directive.misfits`), and with the fields, inline
fragments and spreads of a selection set (`Selection.faults`). A spread is checked where it stands;
the inside of its fragment is a matter of the fragment.
-/

namespace RecordGateway.GraphQL

/-! ## Directives -/

namespace Directive

/-- What is wrong with the use of a known directive. -/
def useMisfits (s : Schema) (vars : List VariableDefinition) (location : String) (repeated : Bool)
    (t : DirectiveType) (d : Directive) : List Diagnostic :=
  (if repeated && !t.repeatable then [⟨d.place, .repeatedDirective d.name⟩] else []) ++
    (if t.locations.contains location then []
    else [⟨d.place, .misplacedDirective d.name location⟩]) ++
    d.arguments.flatMap (Argument.misfits s vars t.arguments ("@" ++ d.name)) ++
    (Argument.missing t.arguments d.arguments).map fun e =>
      ⟨d.place, .directiveArgumentMissing d.name e.name e.type⟩

/-- What is wrong with the directives at a location, after those with the names in `seen`. -/
def misfits (s : Schema) (vars : List VariableDefinition) (location : String) (seen : List Name) :
    List Directive → List Diagnostic
  | [] => []
  | d :: ds =>
    Argument.repeated [] d.arguments ++
      (match s.directive? d.name with
        | some t => d.useMisfits s vars location (seen.contains d.name) t
        | none => [⟨d.place, .unknownDirective d.name⟩]) ++
      misfits s vars location (d.name :: seen) ds

/-- The variables in the arguments of directives. -/
def variableNames (ds : List Directive) : List Name :=
  ds.flatMap fun d => d.arguments.flatMap (·.value.variableNames)

end Directive

/-! ## Fields and fragments -/

namespace Field

/-- What is wrong with the arguments of a field of a known type. -/
def argumentMisfits (s : Schema) (vars : List VariableDefinition) (parent : Name) (t : FieldType)
    (f : Field) : List Diagnostic :=
  f.arguments.flatMap (Argument.misfits s vars t.arguments (parent ++ "." ++ f.name)) ++
    (Argument.missing t.arguments f.arguments).map fun e =>
      ⟨f.place, .fieldArgumentMissing f.name e.name e.type⟩

/-- What is wrong with a field, the selections on its value apart. -/
def faults (s : Schema) (vars : List VariableDefinition) (parent : Name) (f : Field)
    (body : List Selection) : List Diagnostic :=
  Directive.misfits s vars "FIELD" [] f.directives ++ Argument.repeated [] f.arguments ++
    (match s.field? parent f.name with
      | none => []
      | some t =>
        f.argumentMisfits s vars parent t ++
          (if body.isEmpty && s.isComposite t.type.innermost then
            [⟨f.place, .selectionMissing f.name parent⟩]
          else []))

end Field

/-- Whether the type condition of an inline fragment names a type with fields. -/
def conditionComposite (s : Schema) (c : Option TypeCondition) : Bool :=
  match c with
  | some c => s.isComposite c.name
  | none => true

namespace Selection

/-- What is wrong with the type condition of an inline fragment. -/
def conditionFaults (s : Schema) (parent : Name) (i : Nat) : Option TypeCondition → List Diagnostic
  | none => []
  | some c =>
    if !s.isComposite c.name then [⟨i, .inlineOnLeaf c.name⟩]
    else if !s.overlap parent c.name then [⟨i, .inlineNeverApplies parent c.name⟩]
    else []

/-- What is wrong with a spread of a fragment. -/
def spreadFaults (s : Schema) (d : Document) (parent : Name) (i : Nat) (n : Name) :
    List Diagnostic :=
  match d.fragment? n with
  | none => [⟨i, .unknownFragment n⟩]
  | some f =>
    if s.overlap parent f.condition.name then []
    else [⟨i, .spreadNeverApplies n parent f.condition.name⟩]

mutual

/-- What is wrong with a selection on the type `parent`, and inside it. -/
def faults (s : Schema) (d : Document) (vars : List VariableDefinition) (parent : Name) :
    Selection → List Diagnostic
  | .field f body =>
    f.faults s vars parent body ++
      faultsAll s d vars ((s.fieldTypeName? parent f.name).getD "") body
  | .inline i c ds body =>
    Directive.misfits s vars "INLINE_FRAGMENT" [] ds ++ conditionFaults s parent i c ++
      (if conditionComposite s c then faultsAll s d vars (conditionName parent c) body else [])
  | .spread i n ds =>
    Directive.misfits s vars "FRAGMENT_SPREAD" [] ds ++ spreadFaults s d parent i n

def faultsAll (s : Schema) (d : Document) (vars : List VariableDefinition) (parent : Name) :
    List Selection → List Diagnostic
  | [] => []
  | x :: xs => faults s d vars parent x ++ faultsAll s d vars parent xs

end

/-! ## What selections mention -/

mutual

/-- The fragments spread in a selection, at any depth, in order. -/
def spreads : Selection → List Name
  | .field _ body => spreadsAll body
  | .inline _ _ _ body => spreadsAll body
  | .spread _ n _ => [n]

def spreadsAll : List Selection → List Name
  | [] => []
  | x :: xs => spreads x ++ spreadsAll xs

end

mutual

/-- The fragments whose spreads `faults` comes to; it stays out of inline fragments for a type
without fields. -/
def checkedSpreads (s : Schema) : Selection → List Name
  | .field _ body => checkedSpreadsAll s body
  | .inline _ c _ body => if conditionComposite s c then checkedSpreadsAll s body else []
  | .spread _ n _ => [n]

def checkedSpreadsAll (s : Schema) : List Selection → List Name
  | [] => []
  | x :: xs => checkedSpreads s x ++ checkedSpreadsAll s xs

end

mutual

/-- The variables in the arguments and directives of a selection, at any depth. -/
def variableNames : Selection → List Name
  | .field f body =>
    Directive.variableNames f.directives ++ f.arguments.flatMap (·.value.variableNames) ++
      variableNamesAll body
  | .inline _ _ ds body => Directive.variableNames ds ++ variableNamesAll body
  | .spread _ _ ds => Directive.variableNames ds

def variableNamesAll : List Selection → List Name
  | [] => []
  | x :: xs => variableNames x ++ variableNamesAll xs

end

end Selection

end RecordGateway.GraphQL
