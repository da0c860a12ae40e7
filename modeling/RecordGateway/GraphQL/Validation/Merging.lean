import RecordGateway.GraphQL.Validation.Fragments

/-! # Fields that share a response key

Fields with one response key are merged in the response, so they must agree. A set of occurrences of
fields is expanded from selection sets through their fragments (`expand`); within a set, the later
occurrences of a key are compared with the first.

* `shapeConflicts`: the types of the values must have one shape, whatever the parent types.
* `fieldConflicts`: under one parent type the field and its arguments must be the same.
* Both are asked of a set and of the sets below it, which union the selections on the values of
  merged fields (`Survey`). A set that has been looked at is not looked at again, and sets may lie
  `depthLimit` levels below the one at the top of an operation.
-/

namespace RecordGateway.GraphQL.Merging

/-! ## Occurrences -/

/-- A field with the type that it is selected on. -/
structure Occurrence where
  parent : Name
  field : Field
  body : List Selection
  deriving Repr

namespace Occurrence

def key (o : Occurrence) : Name := o.field.responseKey

/-- The declared type of the field. -/
def type? (s : Schema) (o : Occurrence) : Option TypeRef :=
  (s.field? o.parent o.field.name).map (·.type)

/-- The name of the type that the body selects on. -/
def bodyType (s : Schema) (o : Occurrence) : Name :=
  (s.fieldTypeName? o.parent o.field.name).getD ""

end Occurrence

/-- A selection set waiting to be expanded, with the type that it selects on. -/
abbrev Pending := Name × List Selection

/-- One selection set taken apart: its own fields, then the sets inside its inline fragments and
first spreads, and the names of the fragments spread so far. -/
def split (d : Document) (parent : Name) (seen : List Name) :
    List Selection → List Occurrence × List Pending × List Name
  | [] => ([], [], seen)
  | .field f body :: rest =>
    let (os, ps, seen) := split d parent seen rest
    (⟨parent, f, body⟩ :: os, ps, seen)
  | .inline _ c _ body :: rest =>
    let (os, ps, seen) := split d parent seen rest
    (os, (conditionName parent c, body) :: ps, seen)
  | .spread _ n _ :: rest =>
    if seen.contains n then split d parent seen rest
    else
      let (os, ps, seen) := split d parent (seen ++ [n]) rest
      match d.fragment? n with
      | some f => (os, (f.condition.name, f.selections) :: ps, seen)
      | none => (os, ps, seen)

mutual

/-- How many selection sets lie in a selection without a field in between. -/
def setsIn : Selection → Nat
  | .inline _ _ _ body => 1 + setsInAll body
  | .field .. => 0
  | .spread .. => 0

def setsInAll : List Selection → Nat
  | [] => 0
  | x :: xs => setsIn x + setsInAll xs

end

/-- How many selection sets there are, and in them without a field in between. -/
def countSets (sets : List (List Selection)) : Nat :=
  sets.foldl (fun n ss => n + 1 + setsInAll ss) 0

/-- How many sets the expansion of some sets can come to at most. -/
def expansionBound (d : Document) (ps : List Pending) : Nat :=
  countSets (ps.map (·.2)) + countSets (d.fragments.map (·.selections))

/-- The occurrences in the sets of a queue: the fields of a set come in order, and the sets inside
it wait at the end of the queue. -/
def expandQueue (d : Document) : (bound : Nat) → (seen : List Name) → List Pending →
    List Occurrence
  | bound + 1, seen, (parent, ss) :: queue =>
    let (os, ps, seen) := split d parent seen ss
    os ++ expandQueue d bound seen (queue ++ ps)
  | _, _, _ => []

/-- The occurrences of fields in some selection sets and the fragments that they use. -/
def expand (d : Document) (ps : List Pending) : List Occurrence :=
  expandQueue d (expansionBound d ps) [] ps

/-! ## Groups -/

/-- The parts of a list whose elements have one key, in the order of first elements. -/
def groupBy {α : Type} (key : α → Name) (as : List α) : List (List α) :=
  ((as.map key).eraseDups).map fun k => as.filter (key · == k)

/-- The occurrences that can be of one object type: those on each object type, with the ones on
interfaces and unions added to all. -/
def byParent (s : Schema) (os : List Occurrence) : List (List Occurrence) :=
  let isObject (o : Occurrence) : Bool :=
    match s.type? o.parent with
    | some (.object ..) => true
    | _ => false
  let abstract_ := os.filter (!isObject ·)
  match groupBy Occurrence.parent (os.filter isObject) with
  | [] => [abstract_]
  | groups => groups.map (· ++ abstract_)

/-- The selections on the values of merged fields, as one set of occurrences; nothing if there are
none. -/
def below (s : Schema) (d : Document) (group : List Occurrence) : Option (List Occurrence) :=
  match group.filter (!·.body.isEmpty) with
  | [] => none
  | os => some (expand d (os.map fun o => (o.bodyType s, o.body)))

/-! ## Conflicts -/

/-- Two types down to where they stop being lists alike; nothing if they do not. -/
def stripLists : TypeRef → TypeRef → Option ((Name × Bool) × (Name × Bool))
  | .named n b, .named m c => some ((n, b), (m, c))
  | .list t b, .list u c => if b == c then stripLists t u else none
  | _, _ => none

/-- Whether values of the two types have one shape in a response. -/
def sameShape (s : Schema) (t u : TypeRef) : Bool :=
  match stripLists t u with
  | none => false
  | some ((n, b), (m, c)) =>
    b == c &&
      (match s.type? n, s.type? m with
        | some x, some y =>
          if x.isLeaf && y.isLeaf then n == m else x.isComposite && y.isComposite
        | _, _ => true)

/-- The conflict of types between the first of two occurrences of a key and the second. -/
def shapeConflict? (s : Schema) (first second : Occurrence) : Option Diagnostic :=
  match first.type? s, second.type? s with
  | some t, some u =>
    if sameShape s t u then none
    else some ⟨second.field.place, .conflictingTypes first.key t u⟩
  | _, _ => none

/-- Whether every argument of the one field is given alike to the other. -/
def argumentsWithin (as bs : List Argument) : Bool :=
  as.all fun a =>
    match bs.find? (·.name == a.name) with
    | some b => b.value.agrees a.value
    | none => false

def sameArguments (as bs : List Argument) : Bool :=
  argumentsWithin as bs && bs.all fun b => as.any (·.name == b.name)

/-- The conflict between the first of two occurrences of a key on one type and the second. -/
def fieldConflict? (first second : Occurrence) : Option Diagnostic :=
  if first.field.name != second.field.name then
    some ⟨second.field.place, .conflictingFields first.key first.field.name second.field.name⟩
  else if !sameArguments first.field.arguments second.field.arguments then
    some ⟨second.field.place, .conflictingArguments first.field.name⟩
  else none

/-- The conflicts of the later elements of a group with the first. -/
def conflictsWith (conflict? : Occurrence → Occurrence → Option Diagnostic) :
    List Occurrence → List Diagnostic
  | [] => []
  | first :: rest => rest.filterMap (conflict? first)

def shapeGroups (os : List Occurrence) : List (List Occurrence) := groupBy Occurrence.key os

def fieldGroups (s : Schema) (os : List Occurrence) : List (List Occurrence) :=
  (shapeGroups os).flatMap (byParent s)

def shapeConflicts (s : Schema) (os : List Occurrence) : List Diagnostic :=
  (shapeGroups os).flatMap (conflictsWith (shapeConflict? s))

def fieldConflicts (s : Schema) (os : List Occurrence) : List Diagnostic :=
  (fieldGroups s os).flatMap (conflictsWith fieldConflict?)

/-! ## Sets that have been looked at -/

def sameArgumentTexts (as bs : List Argument) : Bool :=
  as.length == bs.length &&
    (as.zip bs).all fun (a, b) => a.name == b.name && a.value.same b.value

def sameDirectives (ds es : List Directive) : Bool :=
  ds.length == es.length &&
    (ds.zip es).all fun (d, e) => d.name == e.name && sameArgumentTexts d.arguments e.arguments

def sameField (f g : Field) : Bool :=
  f.aliasName == g.aliasName && f.name == g.name && sameArgumentTexts f.arguments g.arguments &&
    sameDirectives f.directives g.directives

mutual

/-- Whether two selections are written alike, wherever they stand. -/
def sameSelection : Selection → Selection → Bool
  | .field f b, .field g c => sameField f g && sameSelections b c
  | .inline _ c ds b, .inline _ e es b' =>
    c.map (·.name) == e.map (·.name) && sameDirectives ds es && sameSelections b b'
  | .spread _ n ds, .spread _ m es => n == m && sameDirectives ds es
  | _, _ => false

def sameSelections : List Selection → List Selection → Bool
  | [], [] => true
  | x :: xs, y :: ys => sameSelection x y && sameSelections xs ys
  | _, _ => false

end

def sameOccurrence (o p : Occurrence) : Bool :=
  o.parent == p.parent && sameField o.field p.field && sameSelections o.body p.body

/-- Whether two sets are written alike. -/
def sameSet (os ps : List Occurrence) : Bool :=
  os.length == ps.length && (os.zip ps).all fun (o, p) => sameOccurrence o p

/-- The sets looked at so far, and whether some lay too deep. -/
structure Survey where
  sets : List (List Occurrence) := []
  tooDeep : Bool := false

/-- How many levels of fields there may be below the fields at the top. -/
def depthLimit : Nat := 128

/-- Adds a set and those below it to a survey, in order. -/
def Survey.explore (children : List Occurrence → List (List Occurrence)) :
    (room : Nat) → Survey → List Occurrence → Survey
  | 0, v, _ => { v with tooDeep := true }
  | room + 1, v, os =>
    if v.sets.any (sameSet os) then v
    else (children os).foldl (explore children room) { v with sets := v.sets ++ [os] }

def shapeChildren (s : Schema) (d : Document) (os : List Occurrence) : List (List Occurrence) :=
  (shapeGroups os).filterMap (below s d)

def fieldChildren (s : Schema) (d : Document) (os : List Occurrence) : List (List Occurrence) :=
  (fieldGroups s os).filterMap (below s d)

/-! ## Operations -/

/-- The occurrences of fields at the top of an operation. -/
def topLevel (s : Schema) (d : Document) (o : Operation) : List Occurrence :=
  expand d [((s.root? o.kind).getD "", o.selections)]

/-- The sets that a survey adds for a further top-level set, and whether one lay too deep. -/
def newSets (children : List Occurrence → List (List Occurrence)) (known : List (List Occurrence))
    (os : List Occurrence) : List (List Occurrence) × Bool :=
  let v := Survey.explore children (depthLimit + 1) ⟨known, false⟩ os
  (v.sets.drop known.length, v.tooDeep)

/-- The conflicts in each of some operations, given the sets that earlier operations have shown. -/
def conflicts (s : Schema) (d : Document) (shapesKnown fieldsKnown : List (List Occurrence)) :
    List Operation → List (List Diagnostic)
  | [] => []
  | o :: rest =>
    let top := topLevel s d o
    let (shapes, tooDeep) := newSets (shapeChildren s d) shapesKnown top
    let (fields, tooDeep') := newSets (fieldChildren s d) fieldsKnown top
    (shapes.flatMap (shapeConflicts s) ++ fields.flatMap (fieldConflicts s) ++
        (if tooDeep || tooDeep' then [⟨o.place, .fieldsTooDeep⟩] else [])) ::
      conflicts s d (shapesKnown ++ shapes) (fieldsKnown ++ fields) rest

end RecordGateway.GraphQL.Merging
