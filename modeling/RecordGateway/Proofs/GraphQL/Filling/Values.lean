import RecordGateway.GraphQL.Validation.Selections
import RecordGateway.Proofs.GraphQL.Filling.Basic

/-!
# Filled values in their positions

Where a value fits with its variables, it fits with literals of the types of the variables in their
place (`Value.misfits_of_fills`); and so do arguments and directives (`Argument.misfits_of_fills`,
`Directive.misfits_of_fills`).
-/

namespace RecordGateway.GraphQL

/-- The scalars of strings and booleans are in a schema. -/
structure Schema.HasScalars (s : Schema) : Prop where
  string : s.type? "String" = some (.scalar true)
  boolean : s.type? "Boolean" = some (.scalar true)

/-- The literal is a string or a boolean where the type is for these. -/
inductive Literal.OfType : Literal → TypeRef → Prop
  | string (t : String) (nonNull : Bool) : OfType (.string t) (.named "String" nonNull)
  | boolean (b : Bool) (nonNull : Bool) : OfType (.boolean b) (.named "Boolean" nonNull)

/-- There is a literal of its type for each variable, and none is null. -/
structure Literals.Cover (lits : Literals) (vars : List VariableDefinition) : Prop where
  typed : ∀ v ∈ vars, ∃ l, lits v.name = some l ∧ l.OfType v.type
  notNull : ∀ n, lits n ≠ some .null

/-- Two variables are defined alike, wherever the definitions stand. -/
structure VariableDefinition.Alike (v v' : VariableDefinition) : Prop where
  name : v.name = v'.name
  type : v.type = v'.type
  default : Option.Rel (Value.Fills noLiterals) v.default v'.default
  directives : List.Forall₂ (Directive.Fills noLiterals) v.directives v'.directives

/-- Where there were the variables `vars`, some have literals of their types and the others are
among `vars'`. -/
structure Literals.Serves (lits : Literals) (vars vars' : List VariableDefinition) : Prop where
  typed : ∀ v ∈ vars, ∀ l, lits v.name = some l → l.OfType v.type
  kept : ∀ n, lits n = none →
    Option.Rel VariableDefinition.Alike (findVariable vars n) (findVariable vars' n)
  notNull : ∀ n, lits n ≠ some .null

/-- Where there is a literal for each variable, none are left. -/
theorem Literals.Cover.serves {lits : Literals} {vars : List VariableDefinition}
    (h : lits.Cover vars) : lits.Serves vars [] where
  typed v hv l hl := by
    obtain ⟨m, hm, hty⟩ := h.typed v hv
    cases hl.symm.trans hm
    exact hty
  kept n hn := by
    cases hv : findVariable vars n with
    | none => exact .none
    | some v =>
      obtain ⟨l, hl, -⟩ := h.typed v (List.mem_of_find?_eq_some hv)
      have hname : v.name = n := by simpa using List.find?_some hv
      cases (hname ▸ hl).symm.trans hn
  notNull := h.notNull

/-- Where no literal stands for a variable, variables that are defined alike serve as well. -/
theorem serves_of_alike {vars vars' : List VariableDefinition}
    (h : List.Forall₂ VariableDefinition.Alike vars vars') : noLiterals.Serves vars vars' where
  typed _ _ _ hl := nomatch hl
  kept n _ := find?_rel h fun v v' hv => by rw [hv.name]
  notNull _ hl := nomatch hl

/-! ## Values -/

namespace Value

variable {lits : Literals} {s : Schema} {vars vars' : List VariableDefinition}

theorem isNull_subst (h : ∀ n, lits n ≠ some .null) (move : Nat → Nat) (v : Value) :
    (v.subst lits move).isNull = v.isNull := by
  match v with
  | .variable i n =>
    cases hn : lits n with
    | none => simp [subst, hn, isNull]
    | some l =>
      have hl : l ≠ .null := fun hl => h n (hl ▸ hn)
      simp [subst, hn, isNull, hl]
  | .literal i l => cases l <;> simp [subst, isNull]
  | .list i vs => simp [subst, isNull]
  | .object i fs => simp [subst, isNull]

theorem isNull_of_fills (h : ∀ n, lits n ≠ some .null) {v v' : Value} (hv : v.Fills lits v') :
    v'.isNull = v.isNull := by
  rw [← isNull_subst h nowhere v, hv, isNull_subst (by simp [noLiterals])]

theorem find?_substFields (n : Name) (move : Nat → Nat) (fs : List (Name × Value)) :
    (substFields lits move fs).find? (·.1 == n) =
      (fs.find? (·.1 == n)).map fun f => (f.1, f.2.subst lits move) := by
  induction fs with
  | nil => simp [substFields]
  | cons f fs ih =>
    by_cases h : f.1 = n
    · simp [substFields, h]
    · simp [substFields, beq_false_of_ne h, ih]

/-- A field is there and is null in both of two objects or in none. -/
theorem find?_isNull_of_fills (h : ∀ n, lits n ≠ some .null) {fs fs' : List (Name × Value)}
    (hf : substFields lits nowhere fs = substFields noLiterals nowhere fs') (n : Name) :
    (fs'.find? (·.1 == n)).map (·.2.isNull) = (fs.find? (·.1 == n)).map (·.2.isNull) := by
  have hfind := congrArg (fun fs => (fs.find? (·.1 == n)).map (·.2.isNull)) hf
  have hnull : ∀ n, noLiterals n ≠ some .null := by simp [noLiterals]
  simpa [find?_substFields, Function.comp_def, isNull_subst h, isNull_subst hnull] using hfind.symm

/-- A variable that fits a type as a part of a value is defined with a type of the same name. -/
theorem findVariable_of_variableMisfits {t : TypeRef} {shape : TypeShape} {i : Nat} {n : Name}
    (h : variableMisfits vars t shape i n = []) :
    shape.isInput = true ∧ ∃ v, findVariable vars n = some v ∧ v.type.innermost = t.innermost := by
  unfold variableMisfits at h
  split at h
  · rename_i hshape
    split at h
    · cases h
    · rename_i v hv
      split at h
      · rename_i htype
        exact ⟨hshape, v, hv, by simpa using htype⟩
      · simp [misfit] at h
  · simp [misfit] at h

/-- The literal for a variable that fits a type as a part of a value fits too. -/
theorem literalMisfits_of_variableMisfits (hs : s.HasScalars) (hc : lits.Serves vars vars')
    {t : TypeRef} {shape : TypeShape} (ht : s.type? t.innermost = some shape) {i : Nat} {n : Name}
    (h : variableMisfits vars t shape i n = []) {l : Literal} (hl : lits n = some l) (j : Nat) :
    literalMisfits t shape j l = [] := by
  obtain ⟨-, v, hv, htype⟩ := findVariable_of_variableMisfits h
  have hname : v.name = n := by simpa using List.find?_some hv
  have hty := hc.typed v (List.mem_of_find?_eq_some hv) l (hname ▸ hl)
  cases hvt : v.type with
  | list u b =>
    rw [hvt] at hty
    cases hty
  | named m b =>
    rw [hvt] at hty htype
    cases hty with
    | string text =>
      rw [← htype, TypeRef.innermost, hs.string] at ht
      cases ht
      simp [literalMisfits, ← htype, TypeRef.innermost]
    | boolean b =>
      rw [← htype, TypeRef.innermost, hs.boolean] at ht
      cases ht
      simp [literalMisfits, ← htype, TypeRef.innermost]

/-- A variable that is kept fits where it did. -/
theorem variableMisfits_of_serves (hc : lits.Serves vars vars') {t : TypeRef} {shape : TypeShape}
    {i : Nat} {n : Name} (h : variableMisfits vars t shape i n = []) (hn : lits n = none)
    (j : Nat) : variableMisfits vars' t shape j n = [] := by
  obtain ⟨hshape, v, hv, htype⟩ := findVariable_of_variableMisfits h
  have hkept := hc.kept n hn
  rw [hv] at hkept
  cases hv' : findVariable vars' n with
  | none =>
    rw [hv'] at hkept
    cases hkept
  | some v' =>
    rw [hv'] at hkept
    cases hkept with
    | some halike => simp [variableMisfits, hshape, hv', ← halike.type, htype]

theorem missingFields_of_fills (h : ∀ n, lits n ≠ some .null) {fs fs' : List (Name × Value)}
    (hf : substFields lits nowhere fs = substFields noLiterals nowhere fs') {t : TypeRef}
    {expected : List ArgumentType} {i : Nat} (hm : missingFields t expected i fs = []) (j : Nat) :
    missingFields t expected j fs' = [] := by
  simp only [missingFields, List.map_eq_nil_iff, List.filter_eq_nil_iff] at hm ⊢
  intro a ha
  have hnull := find?_isNull_of_fills h hf a.name
  have := hm a ha
  cases hfs : fs.find? (·.1 == a.name) <;> cases hfs' : fs'.find? (·.1 == a.name) <;>
    simp_all

/-- Whether a literal fits does not depend on where it stands. -/
theorem literalMisfits_moved {t : TypeRef} {shape : TypeShape} {i : Nat} {l : Literal}
    (h : literalMisfits t shape i l = []) (j : Nat) : literalMisfits t shape j l = [] := by
  unfold literalMisfits at h ⊢
  simp only [misfit] at h ⊢
  split <;> simp_all

/-! ### The values that fill another -/

theorem fills_literal {i : Nat} {l : Literal} {v' : Value} (h : Fills lits (.literal i l) v') :
    ∃ j, v' = .literal j l := by
  cases v' <;> simp_all [Fills, subst, noLiterals]

theorem fills_variable {i : Nat} {n : Name} {l : Literal} (hl : lits n = some l) {v' : Value}
    (h : Fills lits (.variable i n) v') : ∃ j, v' = .literal j l := by
  cases v' <;> simp_all [Fills, subst, noLiterals]

theorem fills_unfilled {i : Nat} {n : Name} (hn : lits n = none) {v' : Value}
    (h : Fills lits (.variable i n) v') : ∃ j, v' = .variable j n := by
  cases v' <;> simp_all [Fills, subst, noLiterals]

theorem fills_list {i : Nat} {vs : List Value} {v' : Value} (h : Fills lits (.list i vs) v') :
    ∃ j ws, v' = .list j ws ∧ substItems lits nowhere vs = substItems noLiterals nowhere ws := by
  cases v' <;> simp_all [Fills, subst, noLiterals]

theorem fills_object {i : Nat} {fs : List (Name × Value)} {v' : Value}
    (h : Fills lits (.object i fs) v') : ∃ j gs, v' = .object j gs ∧
      substFields lits nowhere fs = substFields noLiterals nowhere gs := by
  cases v' <;> simp_all [Fills, subst, noLiterals]

mutual

/-- A value that fits with its variables fits with literals in their place. -/
theorem misfits_of_fills (hs : s.HasScalars) (hc : lits.Serves vars vars') :
    ∀ {t : TypeRef} {v v' : Value}, v.Fills lits v' → v.misfits s vars t = [] →
      v'.misfits s vars' t = []
  | t, .literal i l, v', h, hv => by
    obtain ⟨j, rfl⟩ := fills_literal h
    simp only [misfits] at hv ⊢
    split
    · rfl
    · rename_i ht
      rw [ht] at hv
      exact literalMisfits_moved hv j
  | t, .variable i n, v', h, hv => by
    cases ht : s.type? t.innermost with
    | none => cases v' <;> simp [misfits, ht]
    | some shape =>
      simp only [misfits, ht] at hv
      cases hl : lits n with
      | none =>
        obtain ⟨j, rfl⟩ := fills_unfilled hl h
        simp only [misfits, ht, variableMisfits_of_serves hc hv hl j]
      | some l =>
        obtain ⟨j, rfl⟩ := fills_variable hl h
        simp only [misfits, ht, literalMisfits_of_variableMisfits hs hc ht hv hl j]
  | t, .list i vs, v', h, hv => by
    obtain ⟨j, ws, rfl, hws⟩ := fills_list h
    simp only [misfits] at hv ⊢
    split
    · rfl
    · rename_i ht
      rw [ht] at hv
      simp only at hv
      split at hv
      · rename_i hl
        rw [if_pos hl]
        exact itemMisfits_of_fills hs hc hws hv
      · cases hv
  | t, .object i fs, v', h, hv => by
    obtain ⟨j, gs, rfl, hgs⟩ := fills_object h
    simp only [misfits] at hv ⊢
    split
    · rfl
    · rfl
    · rename_i ht
      simp only [ht, List.append_eq_nil_iff] at hv
      rw [missingFields_of_fills hc.notNull hgs hv.1, fieldMisfits_of_fills hs hc hgs hv.2]
      rfl
    · simp_all [misfit]

theorem itemMisfits_of_fills (hs : s.HasScalars) (hc : lits.Serves vars vars') {t : TypeRef} :
    ∀ {vs ws : List Value}, substItems lits nowhere vs = substItems noLiterals nowhere ws →
      itemMisfits s vars t vs = [] → itemMisfits s vars' t ws = []
  | [], ws, h, _ => by
    cases ws with
    | nil => simp [itemMisfits]
    | cons w ws => simp [substItems] at h
  | v :: vs, ws, h, hv => by
    cases ws with
    | nil => simp [substItems] at h
    | cons w ws =>
      simp only [substItems, List.cons.injEq] at h
      simp only [itemMisfits, List.append_eq_nil_iff] at hv ⊢
      exact ⟨misfits_of_fills hs hc h.1 hv.1, itemMisfits_of_fills hs hc h.2 hv.2⟩

theorem fieldMisfits_of_fills (hs : s.HasScalars) (hc : lits.Serves vars vars') {type : Name}
    {expected : List ArgumentType} : ∀ {fs gs : List (Name × Value)},
      substFields lits nowhere fs = substFields noLiterals nowhere gs →
        fieldMisfits s vars type expected fs = [] → fieldMisfits s vars' type expected gs = []
  | [], gs, h, _ => by
    cases gs with
    | nil => simp [fieldMisfits]
    | cons g gs => simp [substFields] at h
  | (n, v) :: fs, gs, h, hv => by
    cases gs with
    | nil => simp [substFields] at h
    | cons g gs =>
      obtain ⟨m, w⟩ := g
      simp only [substFields, List.cons.injEq, Prod.mk.injEq] at h
      obtain ⟨⟨rfl, hw⟩, hgs⟩ := h
      simp only [fieldMisfits, List.append_eq_nil_iff] at hv ⊢
      refine ⟨?_, fieldMisfits_of_fills hs hc hgs hv.2⟩
      have hone := hv.1
      split at hone
      · exact misfits_of_fills hs hc hw hone
      · cases hone

end

end Value

/-! ## Arguments and directives -/

section
variable {lits : Literals} {s : Schema} {vars vars' : List VariableDefinition}

theorem VariableDefinition.Alike.usable {v v' : VariableDefinition} (h : v.Alike v')
    (expected : ArgumentType) : v'.usable expected = v.usable expected := by
  have hdefault : v'.default.isSome = v.default.isSome := by
    have hrel := h.default
    generalize v.default = x at hrel ⊢
    generalize v'.default = y at hrel ⊢
    cases hrel <;> rfl
  simp only [VariableDefinition.usable, ← h.type, hdefault]

namespace Argument

/-- A variable that may stand as an argument may do so where it is kept, and so may its literal. -/
theorem misuse?_of_fills (hc : lits.Serves vars vars') {a a' : Argument} (h : a.Fills lits a')
    {e : ArgumentType} (ha : a.misuse? vars e = none) : a'.misuse? vars' e = none := by
  obtain ⟨-, hvalue⟩ := fills_iff.1 h
  match hv : a.value with
  | .literal i l =>
    obtain ⟨j, hv'⟩ := Value.fills_literal (hv ▸ hvalue)
    simp only [misuse?, hv']
  | .variable i n =>
    cases hl : lits n with
    | some l =>
      obtain ⟨j, hv'⟩ := Value.fills_variable hl (hv ▸ hvalue)
      simp only [misuse?, hv']
    | none =>
      obtain ⟨j, hv'⟩ := Value.fills_unfilled hl (hv ▸ hvalue)
      have hkept := hc.kept n hl
      simp only [misuse?, hv] at ha
      simp only [misuse?, hv']
      generalize findVariable vars n = x at hkept ha
      generalize findVariable vars' n = y at hkept ⊢
      cases hkept with
      | none => rfl
      | some halike =>
        simp only [ite_eq_left_iff, reduceCtorEq, imp_false, not_not] at ha
        simp only [halike.usable, ha, if_true]
  | .list i vs =>
    obtain ⟨j, ws, hv', -⟩ := Value.fills_list (hv ▸ hvalue)
    simp only [misuse?, hv']
  | .object i fs =>
    obtain ⟨j, gs, hv', -⟩ := Value.fills_object (hv ▸ hvalue)
    simp only [misuse?, hv']

theorem misfits_of_fills (hs : s.HasScalars) (hc : lits.Serves vars vars') {a a' : Argument}
    (h : a.Fills lits a') {expected : List ArgumentType} {owner : String}
    (ha : a.misfits s vars expected owner = []) : a'.misfits s vars' expected owner = [] := by
  obtain ⟨hname, hvalue⟩ := fills_iff.1 h
  unfold misfits at ha ⊢
  rw [← hname]
  cases he : expected.find? (·.name == a.name) with
  | none => simp [he] at ha
  | some e =>
    simp only [he] at ha
    split at ha
    · cases ha
    · rename_i hmisuse
      simp only [misuse?_of_fills hc h hmisuse]
      exact Value.misfits_of_fills hs hc hvalue ha

theorem flatMap_misfits_of_fills (hs : s.HasScalars) (hc : lits.Serves vars vars')
    {as as' : List Argument} (h : List.Forall₂ (Fills lits) as as')
    {expected : List ArgumentType} {owner : String}
    (ha : as.flatMap (misfits s vars expected owner) = []) :
    as'.flatMap (misfits s vars' expected owner) = [] := by
  induction h with
  | nil => rfl
  | cons hab _ ih =>
    simp only [List.flatMap_cons, List.append_eq_nil_iff] at ha ⊢
    exact ⟨misfits_of_fills hs hc hab ha.1, ih ha.2⟩

theorem repeated_of_fills {as as' : List Argument} (h : List.Forall₂ (Fills lits) as as') :
    ∀ {seen : List Name}, repeated seen as = [] → repeated seen as' = [] := by
  induction h with
  | nil => exact fun h => h
  | cons hab _ ih =>
    intro seen ha
    simp only [repeated, List.append_eq_nil_iff, (fills_iff.1 hab).1] at ha ⊢
    exact ⟨by simpa using ha.1, ih ha.2⟩

theorem find?_of_fills {as as' : List Argument} (h : List.Forall₂ (Fills lits) as as')
    (n : Name) : Option.Rel (Fills lits) (as.find? (·.name == n)) (as'.find? (·.name == n)) :=
  find?_rel h fun a a' ha => by rw [(fills_iff.1 ha).1]

/-- The same arguments are missing. -/
theorem missing_of_fills (hnull : ∀ n, lits n ≠ some .null) {as as' : List Argument}
    (h : List.Forall₂ (Fills lits) as as') (expected : List ArgumentType) :
    missing expected as' = missing expected as := by
  unfold missing
  congr 1
  funext e
  congr 1
  have hfind := find?_of_fills h e.name
  generalize as.find? (·.name == e.name) = x at hfind ⊢
  generalize as'.find? (·.name == e.name) = y at hfind ⊢
  cases hfind with
  | none => rfl
  | some ha => exact Value.isNull_of_fills hnull (fills_iff.1 ha).2

end Argument

namespace Directive

theorem useMisfits_of_fills (hs : s.HasScalars) (hc : lits.Serves vars vars') {d d' : Directive}
    (h : d.Fills lits d') {location : String} {repeated : Bool} {t : DirectiveType}
    (hd : d.useMisfits s vars location repeated t = []) :
    d'.useMisfits s vars' location repeated t = [] := by
  obtain ⟨hname, has⟩ := fills_iff.1 h
  simp only [useMisfits, List.append_eq_nil_iff, List.map_eq_nil_iff] at hd ⊢
  obtain ⟨⟨⟨hrep, hloc⟩, hargs⟩, hmissing⟩ := hd
  refine ⟨⟨⟨by simpa using hrep, by simpa using hloc⟩, ?_⟩, ?_⟩
  · rw [← hname]
    exact Argument.flatMap_misfits_of_fills hs hc has hargs
  · rw [Argument.missing_of_fills hc.notNull has, hmissing]

/-- Directives that are right with variables are right with literals in their place. -/
theorem misfits_of_fills (hs : s.HasScalars) (hc : lits.Serves vars vars') {ds ds' : List Directive}
    (h : List.Forall₂ (Fills lits) ds ds') {location : String} : ∀ {seen : List Name},
      misfits s vars location seen ds = [] → misfits s vars' location seen ds' = [] := by
  induction h with
  | nil => exact fun h => h
  | @cons d d' ds ds' hdd _ ih =>
    intro seen hd
    obtain ⟨hname, has⟩ := fills_iff.1 hdd
    simp only [misfits, List.append_eq_nil_iff] at hd ⊢
    obtain ⟨⟨hrep, huse⟩, hrest⟩ := hd
    refine ⟨⟨Argument.repeated_of_fills has hrep, ?_⟩, hname ▸ ih hrest⟩
    rw [← hname]
    cases ht : s.directive? d.name with
    | none => simp [ht] at huse
    | some t =>
      rw [ht] at huse
      exact useMisfits_of_fills hs hc hdd huse

end Directive

end

end RecordGateway.GraphQL
