import RecordGateway.GraphQL.Validation.Selections

/-! # Fragments that reach each other

Fragments form a graph whose arrows are the spreads. `reach` follows it from the spreads of an
operation; `Trail` looks for the way on which a fragment comes back to itself.
-/

namespace RecordGateway.GraphQL

/-! ## Reach -/

section

variable (next : Name → List Name)

/-- Adds a name and all that it leads to, in the order of first visits. `room` bounds the length of
a way; each step of a way is to a new name, so the number of names is enough. -/
def visit : (room : Nat) → (seen : List Name) → Name → List Name
  | 0, seen, _ => seen
  | room + 1, seen, n =>
    if seen.contains n then seen else (next n).foldl (visit room) (seen ++ [n])

end

/-- All that some names lead to, themselves included. -/
def reach (next : Name → List Name) (room : Nat) (from_ : List Name) : List Name :=
  from_.foldl (visit next room) []

namespace Document

/-- A number of steps that no way through different fragments exceeds; one step more can lead to a
name without a fragment. -/
def room (d : Document) : Nat := d.fragments.length + 1

/-- The fragments that a fragment spreads. -/
def spreadsOf (d : Document) (n : Name) : List Name :=
  match d.fragment? n with
  | some f => Selection.spreadsAll f.selections
  | none => []

/-- The fragments that selections use, directly or through other fragments. -/
def used (d : Document) (ss : List Selection) : List Fragment :=
  (reach d.spreadsOf d.room (Selection.spreadsAll ss)).filterMap d.fragment?

end Document

/-! ## Cycles -/

/-- What the search for a way back finds. -/
inductive Trail where
  | clear
  /-- The way back, from its last spread to its first. -/
  | back (via : List Name)
  | tooLong
  deriving Repr, DecidableEq

namespace Trail

/-- The first result that is not `clear`. -/
def first (search : Name → Trail) : List Name → Trail
  | [] => clear
  | n :: ns =>
    match search n with
    | clear => first search ns
    | t => t

/-- The same way, found through a spread of `n`. -/
def through (n : Name) : Trail → Trail
  | back via => back (via ++ [n])
  | t => t

/-- Follows the spread of `n`, on a way from the fragment `root` through those in `path`, with room
for so many more. -/
def follow (d : Document) (root : Name) : (room : Nat) → (path : List Name) → (n : Name) → Trail
  | room, path, n =>
    if n = root then back [n]
    else if path.contains n then clear
    else
      match d.fragment? n with
      | none => clear
      | some f =>
        match room with
        | 0 => tooLong
        | room + 1 =>
          (first (follow d root room (n :: path)) (Selection.spreadsAll f.selections)).through n

/-- How many fragments a way may pass through, the first included. -/
def limit : Nat := 100

/-- Looks for a way from a fragment back to itself. -/
def of (d : Document) (f : Fragment) : Trail :=
  first (follow d f.name (limit - 1) [f.name]) (Selection.spreadsAll f.selections)

end Trail

namespace Fragment

/-- What is wrong with a fragment as a whole. -/
def faultsOfShape (s : Schema) (d : Document) (f : Fragment) : List Diagnostic :=
  (if s.isComposite f.condition.name then []
    else [⟨f.place, .fragmentOnLeaf f.name f.condition.name⟩]) ++
    (match Trail.of d f with
      | .clear => []
      | .back via => [⟨f.place, .fragmentCycle f.name via⟩]
      | .tooLong => [⟨f.place, .fragmentsTooDeep f.name⟩])

/-- What is wrong with a fragment in an operation with the given variables. The inside of a fragment
that is wrong as a whole is not looked at. -/
def faults (s : Schema) (d : Document) (vars : List VariableDefinition) (f : Fragment) :
    List Diagnostic :=
  Directive.misfits s vars "FRAGMENT_DEFINITION" [] f.directives ++
    (match f.faultsOfShape s d with
      | [] => Selection.faultsAll s d vars f.condition.name f.selections
      | ds => ds)

end Fragment

namespace Document

/-- The fragments whose spreads inside a fragment are looked at. -/
def checkedSpreadsOf (s : Schema) (d : Document) (n : Name) : List Name :=
  match d.fragment? n with
  | some f =>
    if (f.faultsOfShape s d).isEmpty then Selection.checkedSpreadsAll s f.selections else []
  | none => []

/-- The fragments that are looked at in an operation with the given selections. -/
def checked (s : Schema) (d : Document) (ss : List Selection) : List Fragment :=
  (reach (d.checkedSpreadsOf s) d.room (Selection.checkedSpreadsAll s ss)).filterMap d.fragment?

end Document

end RecordGateway.GraphQL
