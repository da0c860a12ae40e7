import RecordGateway.GraphQL.Validation.Operations
import RecordGateway.GraphQL.Validation.Merging
import RecordGateway.GraphQL.Parser

/-! # Validation

`Document.check` lists everything that is wrong with the definitions of a document under a schema.
An empty list means that the document can be executed.

The rules are asked one after the other: what fits the schema at all, each operation by itself,
fragments that no operation uses, labels, subscriptions and the merging of fields. The list is in
the order of the places that the diagnostics point at.
-/

namespace RecordGateway.GraphQL

/-! ## Labels -/

namespace Selection

/-- The literal labels of `@defer` in a list of directives. -/
def deferLabels (ds : List Directive) : List (String × Nat) :=
  (ds.filter (·.name == "defer")).filterMap fun d =>
    match d.arguments.find? (·.name == "label") with
    | some ⟨_, _, .literal i (.string l)⟩ => some (l, i)
    | _ => none

mutual

/-- The literal labels of `@defer` in a selection, with their places. -/
def labels : Selection → List (String × Nat)
  | .field f body => deferLabels f.directives ++ labelsAll body
  | .inline _ _ ds body => deferLabels ds ++ labelsAll body
  | .spread _ _ ds => deferLabels ds

def labelsAll : List Selection → List (String × Nat)
  | [] => []
  | x :: xs => labels x ++ labelsAll xs

end

end Selection

/-- The labels that repeat an earlier one. -/
def repeatedLabels (seen : List String) : List (String × Nat) → List Diagnostic
  | [] => []
  | (l, i) :: rest =>
    (if seen.contains l then [⟨i, .repeatedLabel⟩] else []) ++ repeatedLabels (l :: seen) rest

namespace Document

/-- What is wrong with the labels of a document. -/
def labelFaults (d : Document) : List Diagnostic :=
  repeatedLabels [] ((d.operations.flatMap fun o => Selection.labelsAll o.selections) ++
    d.fragments.flatMap fun f => Selection.labelsAll f.selections)

/-! ## Fragments without a use -/

def unusedFragments (d : Document) : List Diagnostic :=
  let used := (d.operations.flatMap fun o => d.used o.selections).map (·.name)
  (d.fragments.filter fun f => !used.contains f.name).map fun f => ⟨f.place, .unusedFragment f.name⟩

/-! ## All the rules -/

/-- What is wrong with a document all of whose fields fit the schema. -/
def faults (s : Schema) (d : Document) : List Diagnostic :=
  d.operations.flatMap (Operation.faults s d) ++ d.unusedFragments ++ d.labelFaults ++
    (d.operations.zip (Merging.conflicts s d [] [] d.operations)).flatMap fun (o, conflicts) =>
      o.subscriptionFaults d ++ conflicts

/-- The document that definitions provide, and all that is wrong with it. -/
def check (s : Schema) (ds : List Definition) : Document × List Diagnostic :=
  let (d, problems) := ofDefinitions s ds
  (d, Diagnostic.sort (problems ++ d.faults s))

end Document

/-! ## From text -/

/-- Why a text is not a document that can be executed. -/
inductive Refusal where
  | unreadable (e : SyntaxError)
  | faulty (ds : List Diagnostic)
  deriving Repr

/-- The messages of a refusal, in order. -/
def Refusal.messages : Refusal → List String
  | .unreadable e => [e.message]
  | .faulty ds => ds.map (·.problem.message)

/-- The document that a text writes, if it is one and nothing is wrong with it. -/
def Document.read (s : Schema) (text : String) : Except Refusal Document :=
  match parseDefinitions text with
  | .error e => .error (.unreadable e)
  | .ok ds =>
    match Document.check s ds with
    | (d, []) => .ok d
    | (_, ps) => .error (.faulty ps)

end RecordGateway.GraphQL
