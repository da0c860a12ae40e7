import Mathlib.Data.List.Forall2
import RecordGateway.GraphQL.Document

/-!
# Literals in the place of variables

`Definition.fill` puts literals in the place of variables and drops the definitions of variables,
and `Definition.unplaced` forgets where things stand. Both are cases of `subst`.

One construct fills another if it says the same, wherever it stands, once literals are in the place
of variables (`Fills`). Of selections this is an inductive relation with one constructor a kind of
selection (`Selection.FillsAll`), which `Selection.fillsAll_iff` compares with `subst`.
-/

namespace RecordGateway.GraphQL

/-- The literals that variables stand for. -/
abbrev Literals := Name → Option Literal

/-- No variable stands for a literal. -/
def noLiterals : Literals := fun _ => none

/-- Moves all places to one. -/
def nowhere : Nat → Nat := fun _ => 0

/-! ## Related lists -/

section
variable {α β γ : Type} {R : α → β → Prop} {as : List α} {bs : List β}

theorem map_eq_map_iff {f : α → γ} {g : β → γ} :
    as.map f = bs.map g ↔ List.Forall₂ (fun a b => f a = g b) as bs := by
  rw [← List.forall₂_eq_eq_eq, List.forall₂_map_left_iff, List.forall₂_map_right_iff]

theorem exists_mem_of_forall₂ (h : List.Forall₂ R as bs) {a : α} (ha : a ∈ as) :
    ∃ b ∈ bs, R a b := by
  induction h with
  | nil => cases ha
  | cons hab _ ih =>
    rcases List.mem_cons.1 ha with rfl | ha
    · exact ⟨_, List.mem_cons_self, hab⟩
    · obtain ⟨b, hb, h⟩ := ih ha
      exact ⟨b, List.mem_cons_of_mem _ hb, h⟩

theorem forall₂_trans {S : β → γ → Prop} {T : α → γ → Prop} {cs : List γ}
    (h : List.Forall₂ R as bs) (h' : List.Forall₂ S bs cs)
    (hRS : ∀ a b c, R a b → S b c → T a c) : List.Forall₂ T as cs := by
  induction h generalizing cs with
  | nil =>
    cases h'
    exact .nil
  | cons hab _ ih =>
    cases h' with
    | cons hbc h' => exact .cons (hRS _ _ _ hab hbc) (ih h')

variable {p : α → Bool} {q : β → Bool}

/-- Related lists, searched by tests that agree, give related elements, or none. -/
theorem find?_rel (h : List.Forall₂ R as bs) (hpq : ∀ a b, R a b → p a = q b) :
    Option.Rel R (as.find? p) (bs.find? q) := by
  induction h with
  | nil => exact .none
  | @cons a b as bs hab _ ih =>
    by_cases hq : q b = true
    · rw [List.find?_cons_of_pos hq, List.find?_cons_of_pos ((hpq a b hab).trans hq)]
      exact .some hab
    · rw [List.find?_cons_of_neg hq, List.find?_cons_of_neg (by rwa [hpq a b hab])]
      exact ih

/-- Related lists, filtered by tests that agree, stay related. -/
theorem filter_rel (h : List.Forall₂ R as bs) (hpq : ∀ a b, R a b → p a = q b) :
    List.Forall₂ R (as.filter p) (bs.filter q) :=
  List.rel_filter (fun a b hab => iff_of_eq (congrArg (· = true) (hpq a b hab))) h

end

/-! ## Substitution -/

namespace Value

mutual

/-- The value with literals for the variables that stand for some, and moved. -/
def subst (lits : Literals) (move : Nat → Nat) : Value → Value
  | .literal i l => .literal (move i) l
  | .variable i n =>
    match lits n with
    | some l => .literal (move i) l
    | none => .variable (move i) n
  | .list i vs => .list (move i) (substItems lits move vs)
  | .object i fs => .object (move i) (substFields lits move fs)

def substItems (lits : Literals) (move : Nat → Nat) : List Value → List Value
  | [] => []
  | v :: vs => subst lits move v :: substItems lits move vs

def substFields (lits : Literals) (move : Nat → Nat) :
    List (Name × Value) → List (Name × Value)
  | [] => []
  | (n, v) :: fs => (n, subst lits move v) :: substFields lits move fs

end

end Value

def Argument.subst (lits : Literals) (move : Nat → Nat) (a : Argument) : Argument :=
  ⟨move a.place, a.name, a.value.subst lits move⟩

def Directive.subst (lits : Literals) (move : Nat → Nat) (d : Directive) : Directive :=
  ⟨move d.place, d.name, d.arguments.map (Argument.subst lits move)⟩

def Field.subst (lits : Literals) (move : Nat → Nat) (f : Field) : Field where
  place := move f.place
  aliasName := f.aliasName
  namePlace := move f.namePlace
  name := f.name
  arguments := f.arguments.map (Argument.subst lits move)
  directives := f.directives.map (Directive.subst lits move)

def TypeCondition.move (move : Nat → Nat) (c : TypeCondition) : TypeCondition :=
  ⟨move c.place, c.name⟩

namespace Selection

mutual

/-- The selection with literals for the variables that stand for some, and moved. -/
def subst (lits : Literals) (move : Nat → Nat) : Selection → Selection
  | .field f body => .field (f.subst lits move) (substAll lits move body)
  | .inline i c ds body =>
    .inline (move i) (c.map (·.move move)) (ds.map (Directive.subst lits move))
      (substAll lits move body)
  | .spread i n ds => .spread (move i) n (ds.map (Directive.subst lits move))

def substAll (lits : Literals) (move : Nat → Nat) : List Selection → List Selection
  | [] => []
  | x :: xs => subst lits move x :: substAll lits move xs

end

end Selection

namespace Definition

/-- The definition with literals for variables. An operation has no variables any more. -/
def fill (lits : Literals) : Definition → Definition
  | .operation o => .operation { o with
      variableDefinitions := []
      directives := o.directives.map (Directive.subst lits id)
      selections := Selection.substAll lits id o.selections }
  | .fragment f => .fragment { f with
      directives := f.directives.map (Directive.subst lits id)
      selections := Selection.substAll lits id f.selections }
  | .system i x d => .system i x d

/-- A definition of a variable without its places. -/
def unplacedVariable (v : VariableDefinition) : VariableDefinition where
  place := 0
  name := v.name
  type := v.type
  default := v.default.map (Value.subst noLiterals nowhere)
  directives := v.directives.map (Directive.subst noLiterals nowhere)

/-- The definition without the places of its constructs, if it can be executed. -/
def unplaced : Definition → Definition
  | .operation o => .operation {
      place := 0
      kind := o.kind
      name := o.name.map fun n => (n.1, 0)
      variableDefinitions := o.variableDefinitions.map unplacedVariable
      directives := o.directives.map (Directive.subst noLiterals nowhere)
      selections := Selection.substAll noLiterals nowhere o.selections }
  | .fragment f => .fragment {
      place := 0
      namePlace := 0
      name := f.name
      condition := f.condition.move nowhere
      directives := f.directives.map (Directive.subst noLiterals nowhere)
      selections := Selection.substAll noLiterals nowhere f.selections }
  | .system i x d => .system i x d

end Definition

/-! ## Substitution after substitution -/

/-- The literals of the first, and those of the second for other variables. -/
def Literals.or (lits lits' : Literals) : Literals := fun n => (lits n).or (lits' n)

@[simp]
theorem Literals.or_noLiterals (lits : Literals) : lits.or noLiterals = lits := by
  funext n
  simp [Literals.or, noLiterals]

@[simp]
theorem Literals.noLiterals_or (lits : Literals) : Literals.or noLiterals lits = lits := by
  funext n
  simp [Literals.or, noLiterals]

section
variable (lits lits' : Literals) (move move' : Nat → Nat)

namespace Value

mutual

theorem subst_subst : ∀ v : Value,
    (v.subst lits move).subst lits' move' = v.subst (lits.or lits') (move' ∘ move)
  | .literal i l => by simp [subst]
  | .variable i n => by
    cases h : lits n <;> cases h' : lits' n <;> simp [subst, Literals.or, h, h']
  | .list i vs => by simp [subst, substItems_substItems vs]
  | .object i fs => by simp [subst, substFields_substFields fs]

theorem substItems_substItems : ∀ vs : List Value,
    substItems lits' move' (substItems lits move vs) = substItems (lits.or lits') (move' ∘ move) vs
  | [] => by simp [substItems]
  | v :: vs => by simp [substItems, subst_subst v, substItems_substItems vs]

theorem substFields_substFields : ∀ fs : List (Name × Value),
    substFields lits' move' (substFields lits move fs) =
      substFields (lits.or lits') (move' ∘ move) fs
  | [] => by simp [substFields]
  | (n, v) :: fs => by simp [substFields, subst_subst v, substFields_substFields fs]

end

end Value

theorem Argument.subst_comp :
    Argument.subst lits' move' ∘ Argument.subst lits move =
      Argument.subst (lits.or lits') (move' ∘ move) := by
  funext a
  simp [Argument.subst, Value.subst_subst]

theorem Directive.subst_comp :
    Directive.subst lits' move' ∘ Directive.subst lits move =
      Directive.subst (lits.or lits') (move' ∘ move) := by
  funext d
  simp [Directive.subst, Argument.subst_comp]

theorem Field.subst_subst (f : Field) :
    (f.subst lits move).subst lits' move' = f.subst (lits.or lits') (move' ∘ move) := by
  simp [Field.subst, Argument.subst_comp, Directive.subst_comp]

theorem TypeCondition.move_comp :
    TypeCondition.move move' ∘ TypeCondition.move move = TypeCondition.move (move' ∘ move) := rfl

namespace Selection

mutual

theorem subst_subst : ∀ x : Selection,
    (x.subst lits move).subst lits' move' = x.subst (lits.or lits') (move' ∘ move)
  | .field f body => by simp [subst, Field.subst_subst, substAll_substAll body]
  | .inline i c ds body => by
    simp [subst, Directive.subst_comp, TypeCondition.move_comp, substAll_substAll body]
  | .spread i n ds => by simp [subst, Directive.subst_comp]

theorem substAll_substAll : ∀ ss : List Selection,
    substAll lits' move' (substAll lits move ss) = substAll (lits.or lits') (move' ∘ move) ss
  | [] => by simp [substAll]
  | x :: xs => by simp [substAll, subst_subst x, substAll_substAll xs]

end

end Selection

end

/-! ## Filling -/

section
variable (lits : Literals)

/-- The second value is the first with literals for variables, wherever both stand. -/
def Value.Fills (v v' : Value) : Prop := v.subst lits nowhere = v'.subst noLiterals nowhere

def Argument.Fills (a a' : Argument) : Prop := a.subst lits nowhere = a'.subst noLiterals nowhere

def Directive.Fills (d d' : Directive) : Prop := d.subst lits nowhere = d'.subst noLiterals nowhere

def Field.Fills (f f' : Field) : Prop := f.subst lits nowhere = f'.subst noLiterals nowhere

/-- The second selections are the first with literals for variables, wherever both stand. -/
inductive Selection.FillsAll : (ss ss' : List Selection) → Prop
  | nil : FillsAll [] []
  | field {f f' : Field} {body body' ss ss' : List Selection} (hf : f.Fills lits f')
    (hb : FillsAll body body') (hs : FillsAll ss ss') :
    FillsAll (.field f body :: ss) (.field f' body' :: ss')
  | inline {i i' : Nat} {c c' : Option TypeCondition} {ds ds' : List Directive}
    {body body' ss ss' : List Selection} (hc : c.map (·.name) = c'.map (·.name))
    (hd : List.Forall₂ (Directive.Fills lits) ds ds') (hb : FillsAll body body')
    (hs : FillsAll ss ss') : FillsAll (.inline i c ds body :: ss) (.inline i' c' ds' body' :: ss')
  | spread {i i' : Nat} {n : Name} {ds ds' : List Directive} {ss ss' : List Selection}
    (hd : List.Forall₂ (Directive.Fills lits) ds ds') (hs : FillsAll ss ss') :
    FillsAll (.spread i n ds :: ss) (.spread i' n ds' :: ss')

end

section
variable {lits : Literals}

theorem Argument.fills_iff {a a' : Argument} :
    a.Fills lits a' ↔ a.name = a'.name ∧ a.value.Fills lits a'.value := by
  simp [Argument.Fills, Argument.subst, Value.Fills, nowhere]

theorem Directive.fills_iff {d d' : Directive} :
    d.Fills lits d' ↔
      d.name = d'.name ∧ List.Forall₂ (Argument.Fills lits) d.arguments d'.arguments := by
  simp only [Directive.Fills, Directive.subst, Directive.mk.injEq, nowhere, true_and,
    map_eq_map_iff]
  rfl

theorem Field.fills_iff {f f' : Field} :
    f.Fills lits f' ↔ f.aliasName = f'.aliasName ∧ f.name = f'.name ∧
      List.Forall₂ (Argument.Fills lits) f.arguments f'.arguments ∧
        List.Forall₂ (Directive.Fills lits) f.directives f'.directives := by
  simp only [Field.Fills, Field.subst, Field.mk.injEq, nowhere, true_and, map_eq_map_iff]
  rfl

namespace Selection

theorem condition_eq_iff {c c' : Option TypeCondition} :
    c.map (TypeCondition.move nowhere) = c'.map (TypeCondition.move nowhere) ↔
      c.map (·.name) = c'.map (·.name) := by
  cases c <;> cases c' <;> simp [TypeCondition.move, nowhere]

theorem substAll_eq_of_fillsAll {ss ss' : List Selection} (h : FillsAll lits ss ss') :
    substAll lits nowhere ss = substAll noLiterals nowhere ss' := by
  induction h with
  | nil => simp [substAll]
  | @field f f' _ _ _ _ hf _ _ ihb ih =>
    have hf : f.subst lits nowhere = f'.subst noLiterals nowhere := hf
    simp only [substAll, subst, hf, ihb, ih]
  | inline hc hd _ _ ihb ih =>
    simp only [substAll, subst, ihb, ih, condition_eq_iff.2 hc, nowhere]
    rw [map_eq_map_iff.2 hd]
  | spread hd _ ih =>
    simp only [substAll, subst, ih, nowhere]
    rw [map_eq_map_iff.2 hd]

theorem fillsAll_of_substAll_eq : ∀ {ss ss' : List Selection},
    substAll lits nowhere ss = substAll noLiterals nowhere ss' → FillsAll lits ss ss'
  | [], [], _ => .nil
  | [], _ :: _, h => by simp [substAll] at h
  | _ :: _, [], h => by simp [substAll] at h
  | .field f body :: ss, y :: ss', h => by
    cases y <;> simp only [substAll, subst, List.cons.injEq, Selection.field.injEq, reduceCtorEq,
      false_and] at h
    exact .field h.1.1 (fillsAll_of_substAll_eq h.1.2) (fillsAll_of_substAll_eq h.2)
  | .inline i c ds body :: ss, y :: ss', h => by
    cases y <;> simp only [substAll, subst, List.cons.injEq, Selection.inline.injEq, reduceCtorEq,
      false_and] at h
    obtain ⟨⟨-, hc, hd, hb⟩, hs⟩ := h
    exact .inline (condition_eq_iff.1 hc) (map_eq_map_iff.1 hd) (fillsAll_of_substAll_eq hb)
      (fillsAll_of_substAll_eq hs)
  | .spread i n ds :: ss, y :: ss', h => by
    cases y <;> simp only [substAll, subst, List.cons.injEq, Selection.spread.injEq, reduceCtorEq,
      false_and] at h
    obtain ⟨⟨-, rfl, hd⟩, hs⟩ := h
    exact .spread (map_eq_map_iff.1 hd) (fillsAll_of_substAll_eq hs)

/-- Selections fill others just if both come to the same. -/
theorem fillsAll_iff {ss ss' : List Selection} :
    FillsAll lits ss ss' ↔ substAll lits nowhere ss = substAll noLiterals nowhere ss' :=
  ⟨substAll_eq_of_fillsAll, fillsAll_of_substAll_eq⟩

end Selection

end

end RecordGateway.GraphQL
