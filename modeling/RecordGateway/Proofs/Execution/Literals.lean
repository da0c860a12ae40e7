import RecordGateway.Proofs.Execution.Call
import RecordGateway.Proofs.GraphQL.Filling.Document

/-!
# Literals for the variables of a request

A request that gives each variable a value of its type can write the values into its document in the
place of the variables: the document is accepted, and the request is answered alike
(`execute_filled`).

With such values no condition is undecided. So conditions decide alike (`included_of_fills`), the
same root fields are collected (`collect_of_fills`), and they have the same id (`text_of_fills`).
-/

namespace RecordGateway

open GraphQL

/-! ## The literals of a request -/

/-- The literals of the strings and booleans that a request gives to variables. -/
def Request.literals (q : Request) : Literals := fun n =>
  match q.variableValues.get? n with
  | some (.string t) => some (.string t)
  | some (.bool x) => some (.boolean x)
  | _ => none

/-- Whether a value is a string where the type is for strings, or a boolean where it is for
booleans. -/
def Json.isOfType (type : TypeRef) : Json → Bool
  | .string _ => type.nullable == .named "String" false
  | .bool _ => type.nullable == .named "Boolean" false
  | _ => false

/-- The request gives each variable that an operation defines a value of its type. -/
def Request.Gives (q : Request) (o : Operation) : Prop :=
  ∀ v ∈ o.variableDefinitions, ∃ j, q.variableValues.get? v.name = some j ∧ j.isOfType v.type

theorem exists_named_of_nullable {type : TypeRef} {n : Name}
    (h : (type.nullable == .named n false) = true) : ∃ nonNull, type = .named n nonNull := by
  cases type with
  | named m b =>
    simp only [TypeRef.nullable, beq_iff_eq, TypeRef.named.injEq, and_true] at h
    exact ⟨b, by rw [h]⟩
  | list t b => simp [TypeRef.nullable] at h

theorem Json.isOfType_cases {type : TypeRef} {j : Json} (h : j.isOfType type = true) :
    (∃ t nonNull, j = .string t ∧ type = .named "String" nonNull) ∨
      ∃ x nonNull, j = .bool x ∧ type = .named "Boolean" nonNull := by
  cases j with
  | string t =>
    obtain ⟨nonNull, ht⟩ := exists_named_of_nullable h
    exact .inl ⟨t, nonNull, rfl, ht⟩
  | bool x =>
    obtain ⟨nonNull, ht⟩ := exists_named_of_nullable h
    exact .inr ⟨x, nonNull, rfl, ht⟩
  | _ => cases h

namespace Request.Gives

variable {q : Request} {o : Operation}

theorem cover (h : q.Gives o) : q.literals.Cover o.variableDefinitions where
  typed v hv := by
    obtain ⟨j, hj, hty⟩ := h v hv
    obtain ⟨t, b, rfl, ht⟩ | ⟨x, b, rfl, ht⟩ := Json.isOfType_cases hty
    · exact ⟨.string t, by simp [literals, hj], ht ▸ .string t b⟩
    · exact ⟨.boolean x, by simp [literals, hj], ht ▸ .boolean x b⟩
  notNull n := by
    unfold literals
    split <;> simp

/-- The value of a variable that is defined. -/
theorem of_findVariable (h : q.Gives o) {n : Name} {v : VariableDefinition}
    (hv : findVariable o.variableDefinitions n = some v) :
    ∃ j, q.variableValues.get? n = some j ∧ j.isOfType v.type := by
  have hn : v.name = n := by simpa using List.find?_some hv
  exact hn ▸ h v (List.mem_of_find?_eq_some hv)

theorem string (h : q.Gives o) {n : Name} {v : VariableDefinition} {nonNull : Bool}
    (hv : findVariable o.variableDefinitions n = some v)
    (ht : v.type = .named "String" nonNull) : ∃ t, (q.bindings o).value? n = some (.string t) ∧
      q.literals n = some (.string t) := by
  obtain ⟨j, hj, hty⟩ := h.of_findVariable hv
  obtain ⟨t, -, rfl, -⟩ | ⟨x, b, rfl, ht'⟩ := Json.isOfType_cases hty
  · exact ⟨t, hj, by simp [literals, hj]⟩
  · simp [ht] at ht'

theorem bool (h : q.Gives o) {n : Name} {v : VariableDefinition} {nonNull : Bool}
    (hv : findVariable o.variableDefinitions n = some v)
    (ht : v.type = .named "Boolean" nonNull) : ∃ x, (q.bindings o).value? n = some (.bool x) ∧
      q.literals n = some (.boolean x) := by
  obtain ⟨j, hj, hty⟩ := h.of_findVariable hv
  obtain ⟨t, b, rfl, ht'⟩ | ⟨x, -, rfl, -⟩ := Json.isOfType_cases hty
  · simp [ht] at ht'
  · exact ⟨x, hj, by simp [literals, hj]⟩

/-- No required variable is missing. -/
theorem checkRequired_eq (h : q.Gives o) : (q.bindings o).checkRequired = .ok () := by
  have hnone : o.variableDefinitions.findSome? (q.bindings o).requiredError? = none := by
    refine List.findSome?_eq_none_iff.2 fun v hv => ?_
    obtain ⟨j, hj, hty⟩ := h v hv
    have hvalue : (q.bindings o).value? v.name = some j := hj
    unfold Bindings.requiredError?
    split
    · obtain ⟨t, -, rfl, -⟩ | ⟨x, -, rfl, -⟩ := Json.isOfType_cases hty
      · rw [hvalue]
      · rw [hvalue]
    · rfl
  simp only [Request.bindings] at hnone ⊢
  simp only [Bindings.checkRequired, hnone]

end Request.Gives

/-! ## Conditions and ids -/

/-- No variables. -/
def Bindings.none : Bindings := ⟨[], []⟩

section
variable {b : Bindings} {lits : Literals}

namespace Bindings

/-- A condition that is no variable, or one with a boolean, decides as its literal does. -/
theorem boolean_of_fills {v v' : Value} (h : v.Fills lits v')
    (hv : ∀ i n, v = .variable i n →
      ∃ x, b.value? n = some (.bool x) ∧ lits n = some (.boolean x)) :
    ∃ x, b.boolean v = .ok x ∧ none.boolean v' = .ok x := by
  match v with
  | .variable i n =>
    obtain ⟨x, hx, hl⟩ := hv i n rfl
    obtain ⟨j, rfl⟩ := Value.fills_variable hl h
    exact ⟨x, by simp [boolean, hx], rfl⟩
  | .literal i l =>
    obtain ⟨j, rfl⟩ := Value.fills_literal h
    cases l with
    | boolean x => exact ⟨x, rfl, rfl⟩
    | _ => exact ⟨false, rfl, rfl⟩
  | .list i vs =>
    obtain ⟨j, ws, rfl, -⟩ := Value.fills_list h
    exact ⟨false, rfl, rfl⟩
  | .object i fs =>
    obtain ⟨j, gs, rfl, -⟩ := Value.fills_object h
    exact ⟨false, rfl, rfl⟩

/-- A value that is no variable, or one with a string, has the text that its literal has. -/
theorem text_of_fills {v v' : Value} (h : v.Fills lits v')
    (hv : ∀ i n, v = .variable i n →
      ∃ t, b.value? n = some (.string t) ∧ lits n = some (.string t)) :
    b.text v = none.text v' := by
  match v with
  | .variable i n =>
    obtain ⟨t, ht, hl⟩ := hv i n rfl
    obtain ⟨j, rfl⟩ := Value.fills_variable hl h
    simp [text, ht]
  | .literal i l =>
    obtain ⟨j, rfl⟩ := Value.fills_literal h
    cases l <;> rfl
  | .list i vs =>
    obtain ⟨j, ws, rfl, -⟩ := Value.fills_list h
    rfl
  | .object i fs =>
    obtain ⟨j, gs, rfl, -⟩ := Value.fills_object h
    rfl

end Bindings

/-! ### Conditions in their positions -/

variable {e : EntityDescriptor} {r : RootDescriptor} {vars : List VariableDefinition}

/-- If the condition of a directive is a variable, it is one for booleans. -/
def GraphQL.Directive.ConditionFits (vars : List VariableDefinition) (g : Directive) : Prop :=
  ∀ a i n, (Bindings.skipsWhen? g.name).isSome → g.arguments.find? (·.name == "if") = some a →
    a.value = .variable i n → ∃ v nonNull, findVariable vars n = some v ∧
      v.type = .named "Boolean" nonNull

/-- The argument of a condition is one for a boolean, where a directive without misfits stands. -/
theorem condition_of_misfits {location : String} {ds : List Directive} :
    ∀ {seen : List Name},
      Directive.misfits (Registry.plainSchema e r) vars location seen ds = [] →
        ∀ g ∈ ds, (Bindings.skipsWhen? g.name).isSome → ∀ a,
          g.arguments.find? (·.name == "if") = some a →
            a.misuse? vars ⟨"if", .named "Boolean" true, false⟩ = none ∧
              a.value.misfits (Registry.plainSchema e r) vars (.named "Boolean" true) = [] := by
  induction ds with
  | nil => exact fun _ g hg => absurd hg List.not_mem_nil
  | cons d ds ih =>
    intro seen h g hg hskips a hfind
    simp only [Directive.misfits, List.append_eq_nil_iff] at h
    obtain ⟨⟨-, huse⟩, hrest⟩ := h
    rcases List.mem_cons.1 hg with rfl | hg
    · have hdirective : ∃ t, (Registry.plainSchema e r).directive? g.name = some t ∧
          t.arguments = Builtin.condition := by
        unfold Bindings.skipsWhen? at hskips
        split at hskips
        · rename_i hname
          exact ⟨_, by rw [hname]; rfl, rfl⟩
        · rename_i hname
          exact ⟨_, by rw [hname]; rfl, rfl⟩
        · cases hskips
      obtain ⟨t, ht, harguments⟩ := hdirective
      simp only [ht, Directive.useMisfits, harguments, List.append_eq_nil_iff,
        List.flatMap_eq_nil_iff] at huse
      have hname : a.name = "if" := by simpa using List.find?_some hfind
      have hmisfits := huse.1.2 a (List.mem_of_find?_eq_some hfind)
      simp only [Argument.misfits, Builtin.condition, Builtin.req, hname,
        List.find?_cons_of_pos, beq_self_eq_true] at hmisfits
      split at hmisfits
      · cases hmisfits
      · rename_i hmisuse
        exact ⟨hmisuse, hmisfits⟩
    · exact ih hrest g hg hskips a hfind

/-- Where a boolean is expected, there is one, or null if that is not excluded, or a variable that
is defined. -/
theorem boolean_of_misfits {nonNull : Bool} {v : Value}
    (h : v.misfits (Registry.plainSchema e r) vars (.named "Boolean" nonNull) = []) :
    (∃ i x, v = .literal i (.boolean x)) ∨ (∃ i, v = .literal i .null ∧ nonNull = false) ∨
      ∃ i n d, v = .variable i n ∧ findVariable vars n = some d := by
  have hbool : (Registry.plainSchema e r).type? "Boolean" = some (.scalar true) := rfl
  obtain ⟨i, l, rfl, hl⟩ | hv := Value.literal_or_variable hbool h
  · cases l with
    | boolean x => exact .inl ⟨i, x, rfl⟩
    | null =>
      refine .inr (.inl ⟨i, rfl, ?_⟩)
      cases nonNull with
      | false => rfl
      | true => simp [Value.literalMisfits, TypeRef.isNonNull, Value.misfit] at hl
    | _ => simp [Value.literalMisfits, TypeRef.innermost, Value.misfit] at hl
  · exact .inr (.inr hv)

/-- A condition is a boolean, or a variable that may stand for one. -/
theorem condition_shape {location : String} {ds : List Directive} {seen : List Name}
    (h : Directive.misfits (Registry.plainSchema e r) vars location seen ds = [])
    {g : Directive} (hg : g ∈ ds) (hskips : (Bindings.skipsWhen? g.name).isSome) {a : Argument}
    (ha : g.arguments.find? (·.name == "if") = some a) :
    (∃ i x, a.value = .literal i (.boolean x)) ∨
      ∃ i n v, a.value = .variable i n ∧ findVariable vars n = some v ∧
        v.usable ⟨"if", .named "Boolean" true, false⟩ = true := by
  obtain ⟨hmisuse, hmisfits⟩ := condition_of_misfits h g hg hskips a ha
  obtain hval | ⟨-, -, hnull⟩ | ⟨i, n, v, hval, hvar⟩ := boolean_of_misfits hmisfits
  · exact .inl hval
  · cases hnull
  · exact .inr ⟨i, n, v, hval, hvar, by simpa [Argument.misuse?, hval, hvar] using hmisuse⟩

theorem conditionFits_of_misfits {location : String} {ds : List Directive} {seen : List Name}
    (h : Directive.misfits (Registry.plainSchema e r) vars location seen ds = []) :
    ∀ g ∈ ds, g.ConditionFits vars := by
  intro g hg a i n hskips hfind hval
  obtain ⟨j, x, hlit⟩ | ⟨j, m, v, hvariable, hvar, husable⟩ := condition_shape h hg hskips hfind
  · rw [hlit] at hval
    cases hval
  · rw [hvariable] at hval
    cases hval
    obtain ⟨nonNull, ht⟩ := type_of_usable rfl husable
    exact ⟨v, nonNull, hvar, ht⟩

end

/-! ## Root fields -/

section
variable {lits : Literals}

/-- The second root field is the first with literals for variables. -/
structure RootField.Fills (lits : Literals) (f f' : RootField) : Prop where
  head : f.head.Fills lits f'.head
  body : Selection.FillsAll lits f.body f'.body

/-- Both find something, and what they find is filled. -/
def FindsFilled (lits : Literals) (x x' : Except ExecutionError (List RootField)) : Prop :=
  ∃ fs fs', x = .ok fs ∧ x' = .ok fs' ∧ List.Forall₂ (RootField.Fills lits) fs fs'

theorem FindsFilled.nil : FindsFilled lits (.ok []) (.ok []) := ⟨[], [], rfl, rfl, .nil⟩

section
variable {b : Bindings} {rootField : Name}
  {enter enter' : Name → Except ExecutionError (List RootField)}

theorem FindsFilled.cons {x x' : Selection} {ss ss' : List Selection}
    (hx : FindsFilled lits (collectFrom b rootField enter x)
      (collectFrom .none rootField enter' x'))
    (hss : FindsFilled lits (collectAllFrom b rootField enter ss)
      (collectAllFrom .none rootField enter' ss')) :
    FindsFilled lits (collectAllFrom b rootField enter (x :: ss))
      (collectAllFrom .none rootField enter' (x' :: ss')) := by
  obtain ⟨fs, fs', hfs, hfs', hff⟩ := hx
  obtain ⟨gs, gs', hgs, hgs', hgg⟩ := hss
  exact ⟨fs ++ gs, fs' ++ gs', by simp only [collectAllFrom, hfs, hgs],
    by simp only [collectAllFrom, hfs', hgs'], List.rel_append hff hgg⟩

end

end

section
variable {e : EntityDescriptor} {r : RootDescriptor} {q : Request} {o : Operation}
  {d d' : Document}

theorem kept_of_fills (hq : q.Gives o) {g g' : Directive} (h : g.Fills q.literals g')
    (hg : g.ConditionFits o.variableDefinitions) :
    ∃ k, (q.bindings o).kept g = .ok k ∧ Bindings.none.kept g' = .ok k := by
  obtain ⟨hname, hargs⟩ := Directive.fills_iff.1 h
  have hfind := Argument.find?_of_fills hargs "if"
  simp only [Bindings.kept, ← hname]
  cases hs : Bindings.skipsWhen? g.name with
  | none => exact ⟨true, rfl, rfl⟩
  | some s =>
    have hfits := fun a i n => hg a i n (by rw [hs, Option.isSome_some])
    generalize g.arguments.find? (·.name == "if") = x at hfind hfits ⊢
    generalize g'.arguments.find? (·.name == "if") = y at hfind ⊢
    cases hfind with
    | none => exact ⟨true, rfl, rfl⟩
    | some ha =>
      obtain ⟨k, hk, hk'⟩ := Bindings.boolean_of_fills (Argument.fills_iff.1 ha).2
        fun i n hval => by
          obtain ⟨v, nonNull, hv, ht⟩ := hfits _ i n rfl hval
          exact hq.bool hv ht
      exact ⟨k != s, by simp only [hk], by simp only [hk']⟩

/-- Where values of their types are given, conditions can be told, and literals decide alike. -/
theorem included_of_fills (hq : q.Gives o) {location : String} {gs gs' : List Directive}
    (h : List.Forall₂ (Directive.Fills q.literals) gs gs') {seen : List Name}
    (hgs : Directive.misfits (Registry.plainSchema e r) o.variableDefinitions location seen gs =
      []) :
    ∃ k, (q.bindings o).included gs = .ok k ∧ Bindings.none.included gs' = .ok k := by
  have hconditions := conditionFits_of_misfits hgs
  clear hgs
  induction h with
  | nil => exact ⟨true, rfl, rfl⟩
  | cons hgg _ ih =>
    obtain ⟨hg, hrest⟩ := List.forall_mem_cons.1 hconditions
    obtain ⟨k, hk, hk'⟩ := kept_of_fills hq hgg hg
    cases k with
    | true => simpa only [Bindings.included, hk, hk'] using ih hrest
    | false => exact ⟨false, by simp only [Bindings.included, hk],
        by simp only [Bindings.included, hk']⟩

/-- Filled selections are walked through alike. -/
theorem collectAllFrom_of_fills (hq : q.Gives o) {rootField : Name}
    {enter enter' : Name → Except ExecutionError (List RootField)}
    (henter : ∀ n, FindsFilled q.literals (enter n) (enter' n)) {ss ss' : List Selection}
    (h : Selection.FillsAll q.literals ss ss') : ∀ {parent : Name},
      Selection.faultsAll (Registry.plainSchema e r) d o.variableDefinitions parent ss = [] →
        FindsFilled q.literals (collectAllFrom (q.bindings o) rootField enter ss)
          (collectAllFrom .none rootField enter' ss') := by
  induction h with
  | nil => exact fun _ => .nil
  | @field f f' body body' ss ss' hf hb _ _ ih =>
    intro parent hfaults
    simp only [Selection.faultsAll, Selection.faults, Field.faults,
      List.append_eq_nil_iff] at hfaults
    obtain ⟨⟨⟨⟨hds, -⟩, -⟩, -⟩, hrest⟩ := hfaults
    refine .cons ?_ (ih hrest)
    obtain ⟨-, hname, -, hdirectives⟩ := Field.fills_iff.1 hf
    obtain ⟨k, hk, hk'⟩ := included_of_fills hq hdirectives hds
    simp only [collectFrom, ← hname]
    split
    · rw [hk, hk']
      cases k with
      | true => exact ⟨[⟨f, body⟩], [⟨f', body'⟩], rfl, rfl, .cons ⟨hf, hb⟩ .nil⟩
      | false => exact .nil
    · exact .nil
  | inline _ hd _ _ ihb ih =>
    intro parent hfaults
    simp only [Selection.faultsAll, Selection.faults, List.append_eq_nil_iff] at hfaults
    obtain ⟨⟨⟨hds, hcondition⟩, hbody⟩, hrest⟩ := hfaults
    rw [if_pos (Selection.conditionComposite_of_faults hcondition)] at hbody
    refine .cons ?_ (ih hrest)
    obtain ⟨k, hk, hk'⟩ := included_of_fills hq hd hds
    simp only [collectFrom, hk, hk']
    cases k with
    | true => exact ihb hbody
    | false => exact .nil
  | @spread _ _ n _ _ _ _ hd _ ih =>
    intro parent hfaults
    simp only [Selection.faultsAll, Selection.faults, List.append_eq_nil_iff] at hfaults
    obtain ⟨⟨hds, -⟩, hrest⟩ := hfaults
    refine .cons ?_ (ih hrest)
    obtain ⟨k, hk, hk'⟩ := included_of_fills hq hd hds
    simp only [collectFrom, hk, hk']
    cases k with
    | true => exact henter n
    | false => exact .nil

theorem collectWithin_of_fills (hq : q.Gives o) {rootField : Name}
    (h : List.Forall₂ (Fragment.Fills q.literals) d.fragments d'.fragments)
    (hfragments : ∀ f ∈ d.fragments, Selection.faultsAll (Registry.plainSchema e r) d
      o.variableDefinitions f.condition.name f.selections = []) (room : Nat) :
    ∀ {ss ss' : List Selection}, Selection.FillsAll q.literals ss ss' → ∀ {parent : Name},
      Selection.faultsAll (Registry.plainSchema e r) d o.variableDefinitions parent ss = [] →
        FindsFilled q.literals (collectWithin (q.bindings o) rootField d room ss)
          (collectWithin .none rootField d' room ss') := by
  induction room with
  | zero => exact fun hss _ hfaults => collectAllFrom_of_fills hq (fun _ => .nil) hss hfaults
  | succ room ih =>
    intro ss ss' hss parent hfaults
    refine collectAllFrom_of_fills hq (fun n => ?_) hss hfaults
    obtain ⟨hn, hn'⟩ | ⟨f, f', hf, hf', hff⟩ := Document.fragment?_cases h n
    · rw [hn, hn']
      exact .nil
    · rw [hf, hf']
      exact ih hff.selections (hfragments f (Document.fragment?_some hf).1)

/-- The same root fields are collected, with literals. -/
theorem collect_of_fills (hq : q.Gives o)
    (hd : Document.Accepted (Registry.plainSchema e r) d) (ho : d.operations = [o])
    (h : d.Fills q.literals d') {o' : Operation} (hoo : o.Fills q.literals o') (rootField : Name) :
    FindsFilled q.literals (collect (q.bindings o) rootField d o.selections)
      (collect .none rootField d' o'.selections) := by
  have hfaults := hd.operation_faults (ho ▸ List.mem_singleton_self o)
  simp only [Operation.faults, List.append_eq_nil_iff] at hfaults
  rw [collect, collect, ← h.fragments.length_eq]
  exact collectWithin_of_fills hq h.fragments (hd.faultsAll_fragments ho) _ hoo.selections
    hfaults.1.2

end

/-! ## Plans -/

section
variable {lits : Literals} {b : Bindings}

theorem choose_of_fills {d d' : Document} (h : d.Fills lits d') {o o' : Operation}
    (ho : d.operations = [o]) (ho' : d'.operations = [o']) (name : Option String) :
    (∃ e, d.choose name = .error e ∧ d'.choose name = .error e) ∨
      d.choose name = .ok o ∧ d'.choose name = .ok o' := by
  cases name with
  | none => exact .inr ⟨by simp only [Document.choose, ho], by simp only [Document.choose, ho']⟩
  | some n =>
    have hrel := find?_rel h.named (p := (·.nameIs n)) (q := (·.nameIs n))
      fun _ _ hoo => (Document.nameIs_of_fills hoo n).symm
    have honly : ∀ {d : Document} {o p : Operation}, d.operations = [o] →
        d.named.find? (·.nameIs n) = some p → p = o := fun {d o p} ho hp =>
      List.mem_singleton.1 (ho ▸ List.mem_append_right _ (List.mem_of_find?_eq_some hp))
    simp only [Document.choose]
    cases hp : d.named.find? (·.nameIs n) with
    | none =>
      rw [hp] at hrel
      cases hp' : d'.named.find? (·.nameIs n) with
      | none => exact .inl ⟨_, rfl, rfl⟩
      | some p' =>
        rw [hp'] at hrel
        cases hrel
    | some p =>
      rw [hp] at hrel
      cases hp' : d'.named.find? (·.nameIs n) with
      | none =>
        rw [hp'] at hrel
        cases hrel
      | some p' => exact .inr ⟨by rw [honly ho hp], by rw [honly ho' hp']⟩

theorem fieldNames_of_fills {ss ss' : List Selection} (h : Selection.FillsAll lits ss ss') :
    Selection.fieldNames ss = Selection.fieldNames ss' := by
  induction h with
  | nil => rfl
  | field hf _ _ _ ih =>
    simp only [Selection.fieldNames, List.filterMap_cons] at ih ⊢
    rw [ih, (Field.fills_iff.1 hf).2.1]
  | inline _ _ _ _ _ ih => simpa only [Selection.fieldNames, List.filterMap_cons] using ih
  | spread _ _ ih => simpa only [Selection.fieldNames, List.filterMap_cons] using ih

/-- Arguments that are no variables, or ones with strings, have the texts that their literals
have. -/
theorem argument_of_fills {as as' : List Argument} (h : List.Forall₂ (Argument.Fills lits) as as')
    {name : Name} (has : ∀ a, as.find? (·.name == name) = some a → ∀ i n, a.value = .variable i n →
      ∃ t, b.value? n = some (.string t) ∧ lits n = some (.string t)) :
    b.argument as name = Bindings.none.argument as' name := by
  have hfind := Argument.find?_of_fills h name
  unfold Bindings.argument
  generalize as.find? (·.name == name) = x at hfind has ⊢
  generalize as'.find? (·.name == name) = y at hfind ⊢
  cases hfind with
  | none => rfl
  | some ha => exact Bindings.text_of_fills (Argument.fills_iff.1 ha).2 (has _ rfl)

/-- Filled root fields have the same fetch, if they have the same ids. -/
theorem fetchOf?_of_fills (root : RootDescriptor) {b' : Bindings} {fs fs' : List RootField}
    (h : List.Forall₂ (RootField.Fills lits) fs fs')
    (hids : ∀ f ∈ fs, ∀ as', List.Forall₂ (Argument.Fills lits) f.head.arguments as' →
      b.argument f.head.arguments root.argument = b'.argument as' root.argument) :
    fetchOf? root b fs = fetchOf? root b' fs' := by
  have hkey : ∀ f f' : RootField, f.Fills lits f' → f.key = f'.key := by
    intro f f' hf
    obtain ⟨halias, hname, -⟩ := Field.fills_iff.1 hf.head
    rw [RootField.key, RootField.key, Field.responseKey, Field.responseKey, halias, hname]
  have hpaths : (fs.flatMap fun f => Selection.fieldNames f.body) =
      fs'.flatMap fun f => Selection.fieldNames f.body := by
    rw [List.flatMap_def, List.flatMap_def]
    exact congrArg List.flatten (map_eq_map_iff.2 (h.imp fun _ _ hf => fieldNames_of_fills hf.body))
  cases h with
  | nil => rfl
  | @cons f f' rest rest' hf hrest =>
    have hany : rest.any (·.key != f.key) = rest'.any (·.key != f'.key) := by
      have hkeys : rest.map (·.key) = rest'.map (·.key) := map_eq_map_iff.2 (hrest.imp hkey)
      have := congrArg (List.any · (· != f.key)) hkeys
      simpa [List.any_map, Function.comp_def, hkey f f' hf] using this
    have hid := hids f List.mem_cons_self _ (Field.fills_iff.1 hf.head).2.2.1
    simp only [fetchOf?, hany, hid, hpaths]

end

section
variable {e : EntityDescriptor} {r : RootDescriptor} {reg : Registry} {q : Request}
  {d d' : Document} {o : Operation}

/-- The root fields that are collected have ids that are strings, or variables with strings. -/
theorem argument_of_collect (hc : reg.Compiled e r) (hq : q.Gives o)
    (hd : Document.Accepted (Registry.plainSchema e r) d) (ho : o ∈ d.operations)
    (hk : o.kind = .query) {fs : List RootField}
    (hfs : collect (q.bindings o) r.field d o.selections = .ok fs) {f : RootField} (hf : f ∈ fs)
    {as' : List Argument}
    (has : List.Forall₂ (Argument.Fills q.literals) f.head.arguments as') :
    (q.bindings o).argument f.head.arguments r.argument =
      Bindings.none.argument as' r.argument := by
  obtain ⟨reached, hv⟩ := Operation.vetted_of_accepted hd ho
  obtain ⟨ts, hts, hcollect⟩ := exists_collect_eq_survey hv
  rw [hcollect] at hfs
  rw [(Bindings.survey_ok hfs).2] at hf
  obtain ⟨hname, p, w⟩ := walk_of_mem_roots hts hf
  obtain ⟨hargs, -⟩ := rootField_sound hc hk hv w hname
  refine argument_of_fills has fun a hfind i n hval => ?_
  obtain ⟨j, t, hlit⟩ | ⟨j, hlit⟩ | ⟨j, m, v, nonNull, hvar, hdef, ht⟩ :=
    value_of_argumentMisfits hargs hfind
  · rw [hlit] at hval
    cases hval
  · rw [hlit] at hval
    cases hval
  · rw [hvar] at hval
    cases hval
    exact hq.string hdef ht

/-- The same is planned for the document with literals. -/
theorem planDocument_of_fills (hc : reg.Compiled e r) (hq : q.Gives o)
    (hd : Document.Accepted (Registry.plainSchema e r) d) (ho : d.operations = [o])
    (hk : o.kind = .query) (h : d.Fills q.literals d') (name : Option String) :
    planDocument r d name q.variableValues = planDocument r d' name [] := by
  obtain ⟨o', hoo, ho'⟩ := Document.operations_of_fills h ho
  obtain ⟨err, herr, herr'⟩ | ⟨hchoose, hchoose'⟩ := choose_of_fills h ho ho' name
  · simp only [planDocument, herr, herr']
  obtain ⟨fs, fs', hfs, hfs', hff⟩ := collect_of_fills hq hd ho h hoo r.field
  have hfetch := fetchOf?_of_fills r hff fun f hf _ has =>
    argument_of_collect hc hq hd (ho ▸ List.mem_singleton_self o) hk hfs hf has
  have hplan : plan r d o q.variableValues = fetchOf? r (q.bindings o) fs := by
    have hrequired := hq.checkRequired_eq
    simp only [Request.bindings] at hrequired hfs ⊢
    simp [plan, hk, hrequired, hfs]
  have hplan' : plan r d' o' [] = fetchOf? r .none fs' := by
    have hrequired : Bindings.none.checkRequired = .ok () := rfl
    simp only [Bindings.none] at hrequired hfs' ⊢
    simp [plan, ← hoo.kind, hk, hoo.variableDefinitions, hrequired, hfs']
  simp only [planDocument, hchoose, hchoose', hplan, hplan', hfetch]

/-- A request for a document with a single query, whose variables are given values of their types,
is answered as its document with literals is. -/
theorem executeDocument_of_fills (hc : reg.Compiled e r) (source : DataSource)
    (hd : Document.read reg.schema q.query = .ok d) (ho : d.operations = [o])
    (hk : o.kind = .query) (hq : q.Gives o) (h : d.Fills q.literals d') :
    executeDocument reg.root source d' q.operationName [] = reg.execute source q := by
  have hacc := hc.schema ▸ Document.accepted_of_read hd
  rw [execute_of_read hd]
  simp only [executeDocument, hc.root, planDocument_of_fills hc hq hacc ho hk h]

end

/-! ## Requests -/

theorem Definition.forall₂_fill (lits : Literals) (ds : List Definition) :
    List.Forall₂ (Definition.Fills lits) ds (ds.map (Definition.fill lits)) :=
  List.forall₂_map_right_iff.2 (List.forall₂_same.2 fun _ _ => Definition.fills_of_unplaced rfl)

/-- Variables mean the same as literals: with the values of its variables in their place, and no
variables, the document of a request is accepted, and the request is answered alike. So is every
request with a text that writes the document with literals, wherever things stand in it. -/
theorem execute_filled {e : EntityDescriptor} {r : RootDescriptor} {reg : Registry}
    (hp : PlainNames e r) (hreg : Registry.ofDescriptors e r = .ok reg) (source : DataSource)
    {q : Request} {ds : List Definition} {d : Document} {o : Operation}
    (hds : parseDefinitions q.query = .ok ds) (hd : Document.read reg.schema q.query = .ok d)
    (ho : d.operations = [o]) (hk : o.kind = .query) (hq : q.Gives o) :
    (∃ d', Document.check reg.schema (ds.map (Definition.fill q.literals)) = (d', []) ∧
      executeDocument reg.root source d' q.operationName [] = reg.execute source q) ∧
    ∀ (q' : Request) (ds' : List Definition), q'.operationName = q.operationName →
      q'.variableValues = [] → parseDefinitions q'.query = .ok ds' →
      ds'.map Definition.unplaced = (ds.map (Definition.fill q.literals)).map Definition.unplaced →
        (∃ d', Document.read reg.schema q'.query = .ok d') ∧
          reg.execute source q' = reg.execute source q := by
  have hc := Registry.compiled_of_ofDescriptors hp hreg
  have hacc := Document.accepted_of_read hd
  have hfrom : Document.ofDefinitions reg.schema ds = (d, []) := by
    obtain ⟨xs, hxs, hfrom, -⟩ := Document.read_ok hd
    cases hds.symm.trans hxs
    exact hfrom
  have hscalars : reg.schema.HasScalars := hc.schema ▸ ⟨rfl, rfl⟩
  have hdefer : reg.schema.directive? "defer" = none := hc.schema ▸ rfl
  have hcheck : ∀ {ds'}, List.Forall₂ (Definition.Fills q.literals) ds ds' →
      ∃ d', Document.check reg.schema ds' = (d', []) ∧ d.Fills q.literals d' :=
    Document.check_of_fills hscalars hdefer hacc hfrom ho hk hq.cover
  refine ⟨?_, fun q' ds' hname hvalues hds' hsame => ?_⟩
  · obtain ⟨d', hd', hfills⟩ := hcheck (Definition.forall₂_fill q.literals ds)
    exact ⟨d', hd', executeDocument_of_fills hc source hd ho hk hq hfills⟩
  · have hfills : List.Forall₂ (Definition.Fills q.literals) ds ds' := by
      rw [List.map_map] at hsame
      exact (map_eq_map_iff.1 hsame.symm).imp fun _ _ => Definition.fills_of_unplaced
    obtain ⟨d', hd', hfills⟩ := hcheck hfills
    have hread : Document.read reg.schema q'.query = .ok d' := Document.read_of_check hds' hd'
    refine ⟨⟨d', hread⟩, ?_⟩
    rw [← executeDocument_of_fills hc source hd ho hk hq hfills]
    rw [execute_of_read hread, hname, hvalues]

/-- A request with variables for an id and a condition, used in a fragment too. -/
def withVariables : Request where
  query := "query($id: String!, $no: Boolean = true) " ++
    "\x7b getData(id: $id) \x7b name \x7d ...F \x7d " ++
    "fragment F on RootQuery \x7b getData(id: $id) @skip(if: $no) \x7b id \x7d \x7d"
  variableValues := [("id", .string "7"), ("no", .bool false)]

/-- The same request with the values as literals. -/
def withLiterals : Request where
  query := "query \x7b getData(id: \"7\") \x7b name \x7d ...F \x7d " ++
    "fragment F on RootQuery \x7b getData(id: \"7\") @skip(if: false) \x7b id \x7d \x7d"

theorem execute_filled_withLiterals : ∃ reg ds d o,
    Registry.ofDescriptors dataEntity getData = .ok reg ∧
      parseDefinitions withVariables.query = .ok ds ∧
      Document.read reg.schema withVariables.query = .ok d ∧ d.operations = [o] ∧
      o.kind = .query ∧ withVariables.Gives o ∧
      (∃ d', Document.check reg.schema (ds.map (Definition.fill withVariables.literals)) =
          (d', []) ∧
        executeDocument reg.root widget d' none [] = reg.execute widget withVariables) ∧
      reg.execute widget withLiterals = reg.execute widget withVariables ∧
      (reg.execute widget withVariables).calls = [⟨"7", ["name", "id"]⟩] := by
  obtain ⟨reg, hreg, hc⟩ := Registry.exists_compiled_builtin
  obtain ⟨d, hd, htest⟩ := Registry.exists_ok_of_test
    (Document.readBytes (Registry.plainSchema dataEntity getData) withVariables.query)
    (fun d => d.operations.length == 1 &&
      (d.operations.all fun o => o.kind == .query && o.variableDefinitions.all fun v =>
        (withVariables.variableValues.get? v.name).any (·.isOfType v.type)) &&
      (executeDocument getData widget d none withVariables.variableValues).calls ==
        [⟨"7", ["name", "id"]⟩]) (by decide +kernel)
  simp only [Bool.and_eq_true, beq_iff_eq, List.all_eq_true, Option.any_eq_true] at htest
  obtain ⟨⟨hone, hgives⟩, hcalls⟩ := htest
  obtain ⟨o, ho⟩ := List.length_eq_one_iff.1 hone
  obtain ⟨hk, hq⟩ : o.kind = .query ∧ withVariables.Gives o :=
    hgives o (ho ▸ List.mem_singleton_self o)
  rw [Document.readBytes_eq, ← hc.schema] at hd
  obtain ⟨ds, hds, -⟩ := Document.read_ok hd
  -- the definitions of both texts are alike once literals are in the place of variables
  obtain ⟨ds', hds', halike⟩ := Registry.exists_ok_of_test (parseBytes withLiterals.query)
    (fun ds' => (parseBytes withVariables.query).toOption.any fun ds =>
      Definition.sameAll (ds.map (Definition.fill withVariables.literals)) ds') (by decide +kernel)
  rw [parseBytes_eq] at hds'
  rw [parseBytes_eq, hds] at halike
  have hsame := Definition.map_unplaced_of_sameAll halike
  obtain ⟨hcheck, htexts⟩ :=
    execute_filled Registry.plainNames_builtin hreg widget hds hd ho hk hq
  refine ⟨reg, ds, d, o, hreg, hds, hd, ho, hk, hq, hcheck,
    (htexts withLiterals ds' rfl rfl hds' hsame.symm).2, ?_⟩
  rw [execute_of_read hd, hc.root]
  exact hcalls

end RecordGateway
