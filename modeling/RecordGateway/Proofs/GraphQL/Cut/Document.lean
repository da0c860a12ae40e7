import RecordGateway.Proofs.GraphQL.Cut.Merging

/-!
# Checking a document that is cut down

Definitions that are written alike, wherever they stand, provide documents that are written alike
(`Definition.alike_of_unplaced`): they fill each other where no literals are in the place of
variables.

In a document that is written like one cut down to an operation, no rule finds a fault but, perhaps,
the merging of fields: the sets that it looks at may lie too deep. That can only be where fields
nest deeper than surveys go (`Document.check_cut`).
-/

namespace RecordGateway.GraphQL

variable {s : Schema} {d d' : Document}

/-! ## Definitions that are written alike -/

/-- The second operation is written like the first, wherever both stand. -/
abbrev Operation.Alike : Operation → Operation → Prop :=
  Operation.FillsWith noLiterals (List.Forall₂ VariableDefinition.Alike)

/-- The second definition is written like the first, wherever both stand. -/
abbrev Definition.Alike : Definition → Definition → Prop :=
  Definition.FillsWith noLiterals (List.Forall₂ VariableDefinition.Alike)

/-- The second document is written like the first, wherever things stand. -/
abbrev Document.Alike : Document → Document → Prop :=
  Document.FillsWith noLiterals (List.Forall₂ VariableDefinition.Alike)

theorem VariableDefinition.alike_of_unplaced {v v' : VariableDefinition}
    (h : Definition.unplacedVariable v = Definition.unplacedVariable v') : v.Alike v' := by
  simp only [Definition.unplacedVariable, VariableDefinition.mk.injEq, true_and] at h
  obtain ⟨hname, htype, hdefault, hds⟩ := h
  refine ⟨hname, htype, ?_, map_eq_map_iff.1 hds⟩
  generalize v.default = x at hdefault ⊢
  generalize v'.default = y at hdefault ⊢
  cases x with
  | none =>
    cases y with
    | none => exact .none
    | some y => cases hdefault
  | some x =>
    cases y with
    | none => cases hdefault
    | some y => exact .some (Option.some.inj hdefault)

/-- Definitions that come to the same without their places are written alike. -/
theorem Definition.alike_of_unplaced : ∀ {x x' : Definition}, x.unplaced = x'.unplaced → x.Alike x'
  | .operation o, .operation o', h => by
    simp only [unplaced, Definition.operation.injEq, Operation.mk.injEq, true_and] at h
    obtain ⟨hkind, hname, hvars, hds, hss⟩ := h
    refine .operation ⟨hkind, ?_, (map_eq_map_iff.1 hvars).imp fun _ _ =>
      VariableDefinition.alike_of_unplaced, map_eq_map_iff.1 hds, Selection.fillsAll_iff.2 hss⟩
    simpa [Function.comp_def] using congrArg (Option.map (·.1)) hname
  | .fragment f, .fragment f', h => by
    simp only [unplaced, Definition.fragment.injEq, Fragment.mk.injEq, TypeCondition.move,
      TypeCondition.mk.injEq, true_and] at h
    obtain ⟨hname, ⟨-, hcondition⟩, hds, hss⟩ := h
    exact .fragment ⟨hname, hcondition, map_eq_map_iff.1 hds, Selection.fillsAll_iff.2 hss⟩
  | .system i x d, .system j y e, h => by
    cases h
    exact .system i x d
  | .operation _, .fragment _, h | .operation _, .system .., h | .fragment _, .operation _, h
  | .fragment _, .system .., h | .system .., .operation _, h | .system .., .fragment _, h => by
    cases h

/-! ## Variables -/

namespace Value

mutual

theorem variableNames_unplaced : ∀ v : Value,
    (v.subst noLiterals nowhere).variableNames = v.variableNames
  | .literal .. | .variable .. => rfl
  | .list _ vs => by simp only [subst, variableNames, listVariables_unplaced vs]
  | .object _ fs => by simp only [subst, variableNames, fieldVariables_unplaced fs]

theorem listVariables_unplaced : ∀ vs : List Value,
    listVariables (substItems noLiterals nowhere vs) = listVariables vs
  | [] => rfl
  | v :: vs => by
    simp only [substItems, listVariables, variableNames_unplaced v, listVariables_unplaced vs]

theorem fieldVariables_unplaced : ∀ fs : List (Name × Value),
    fieldVariables (substFields noLiterals nowhere fs) = fieldVariables fs
  | [] => rfl
  | (_, v) :: fs => by
    simp only [substFields, fieldVariables, variableNames_unplaced v, fieldVariables_unplaced fs]

end

/-- Values that are written alike have the same variables. -/
theorem variableNames_of_fills {v v' : Value} (h : v.Fills noLiterals v') :
    v'.variableNames = v.variableNames := by
  rw [← variableNames_unplaced v, h, variableNames_unplaced]

end Value

theorem Argument.variableNames_of_fills {as as' : List Argument}
    (h : List.Forall₂ (Argument.Fills noLiterals) as as') :
    as'.flatMap (·.value.variableNames) = as.flatMap (·.value.variableNames) := by
  induction h with
  | nil => rfl
  | cons ha _ ih =>
    simp only [List.flatMap_cons, ih, Value.variableNames_of_fills (Argument.fills_iff.1 ha).2]

theorem Directive.variableNames_of_fills {ds ds' : List Directive}
    (h : List.Forall₂ (Directive.Fills noLiterals) ds ds') :
    variableNames ds' = variableNames ds := by
  unfold variableNames
  induction h with
  | nil => rfl
  | cons hd _ ih =>
    simp only [List.flatMap_cons, ih, Argument.variableNames_of_fills (Directive.fills_iff.1 hd).2]

theorem Selection.variableNamesAll_of_fills {ss ss' : List Selection}
    (h : FillsAll noLiterals ss ss') : variableNamesAll ss' = variableNamesAll ss := by
  induction h with
  | nil => rfl
  | field hf _ _ ihb ih =>
    obtain ⟨-, -, has, hds⟩ := Field.fills_iff.1 hf
    simp only [variableNamesAll, variableNames, Argument.variableNames_of_fills has,
      Directive.variableNames_of_fills hds, ihb, ih]
  | inline _ hd _ _ ihb ih =>
    simp only [variableNamesAll, variableNames, Directive.variableNames_of_fills hd, ihb, ih]
  | spread hd _ ih =>
    simp only [variableNamesAll, variableNames, Directive.variableNames_of_fills hd, ih]

/-- Operations that are written alike use the same variables. -/
theorem Operation.variablesUsed_of_alike
    (h : List.Forall₂ (Fragment.Fills noLiterals) d.fragments d'.fragments) {o o' : Operation}
    (ho : o.Alike o') : o'.variablesUsed d' = o.variablesUsed d := by
  have hused : (d'.used o'.selections).flatMap (fun f => Selection.variableNamesAll f.selections) =
      (d.used o.selections).flatMap fun f => Selection.variableNamesAll f.selections := by
    unfold Document.used
    rw [Document.spreadsOf_of_fills h, Document.room_of_fills h,
      Selection.spreadsAll_of_fills ho.selections]
    generalize reach d.spreadsOf d.room (Selection.spreadsAll o.selections) = ns
    induction ns with
    | nil => rfl
    | cons n ns ih =>
      obtain ⟨hn, hn'⟩ | ⟨f, f', hf, hf', hff⟩ := Document.fragment?_cases h n
      · rwa [List.filterMap_cons_none hn, List.filterMap_cons_none hn']
      · rw [List.filterMap_cons_some hf, List.filterMap_cons_some hf', List.flatMap_cons,
          List.flatMap_cons, ih, Selection.variableNamesAll_of_fills hff.selections]
  rw [variablesUsed, variablesUsed, hused, Directive.variableNames_of_fills ho.directives,
    Selection.variableNamesAll_of_fills ho.selections]

namespace VariableDefinition

variable {vs vs' : List VariableDefinition}

theorem typeFaults_of_alike (hs : s.HasScalars) {v v' : VariableDefinition} (h : v.Alike v')
    (hv : v.typeFaults s = []) : v'.typeFaults s = [] := by
  unfold typeFaults at hv ⊢
  rw [← h.type]
  cases ht : s.type? v.type.innermost with
  | none => simp [ht] at hv
  | some shape =>
    simp only [ht] at hv ⊢
    split at hv
    · rename_i hinput
      rw [if_pos hinput]
      have hdefault := h.default
      generalize v.default = x at hv hdefault
      generalize v'.default = y at hdefault ⊢
      cases hdefault with
      | none => rfl
      | some hx => exact Value.misfits_of_fills hs (serves_of_alike .nil) hx hv
    · cases hv

/-- Definitions of variables that are written alike are right alike. -/
theorem faults_of_alike (hs : s.HasScalars) (h : List.Forall₂ Alike vs vs') :
    ∀ {seen : List Name}, faults s seen vs = [] → faults s seen vs' = [] := by
  induction h with
  | nil => exact fun h => h
  | @cons v v' vs vs' hv _ ih =>
    intro seen hfaults
    simp only [faults, List.append_eq_nil_iff] at hfaults ⊢
    obtain ⟨⟨⟨hds, htype⟩, hrepeated⟩, hrest⟩ := hfaults
    rw [← hv.name]
    refine ⟨⟨⟨Directive.misfits_of_fills hs (serves_of_alike .nil) hv.directives hds,
      typeFaults_of_alike hs hv htype⟩, ?_⟩, ih hrest⟩
    simpa using hrepeated

theorem unused_of_alike {used : List Name} (h : List.Forall₂ Alike vs vs') :
    unused used vs = [] → unused used vs' = [] := by
  induction h with
  | nil => exact fun h => h
  | @cons v v' vs vs' hv hvs ih =>
    intro hunused
    have hany : vs'.any (·.name == v.name) = vs.any (·.name == v.name) := by
      have hnames : vs.map (·.name) = vs'.map (·.name) :=
        map_eq_map_iff.2 (hvs.imp fun _ _ h => h.name)
      have := congrArg (List.any · (· == v.name)) hnames
      simpa [List.any_map, Function.comp_def] using this.symm
    simp only [unused, List.append_eq_nil_iff] at hunused ⊢
    refine ⟨?_, ih hunused.2⟩
    rw [← hv.name, hany]
    simpa using hunused.1

end VariableDefinition

/-! ## The rules -/

/-- An operation that is written like one without faults has none. -/
theorem Operation.faults_of_alike (hs : s.HasScalars)
    (h : List.Forall₂ (Fragment.Fills noLiterals) d.fragments d'.fragments) {o o' : Operation}
    (ho : o.Alike o') (hfaults : o.faults s d = []) : o'.faults s d' = [] := by
  have hall := hfaults
  simp only [faults, List.append_eq_nil_iff] at hall
  obtain ⟨⟨⟨⟨-, hdefinitions⟩, hunused⟩, -⟩, -⟩ := hall
  refine faults_of_fills hs h (serves_of_alike ho.variableDefinitions) ho
    (VariableDefinition.faults_of_alike hs ho.variableDefinitions hdefinitions) ?_ hfaults
  rw [variablesUsed_of_alike h ho]
  exact VariableDefinition.unused_of_alike ho.variableDefinitions hunused

/-! ## The whole document -/

namespace Document

/-- A document that is written like `d` cut down to `o`, with `o'` as its operation. -/
structure CutTo (d : Document) (o : Operation) (d' : Document) (o' : Operation) : Prop where
  alike : (d.only o d).Alike d'
  named : d'.named = [o']
  operations : d'.operations = [o']
  operation : o.Alike o'

section
variable {ds ds' : List Definition} {o : Operation}

/-- Definitions that are written like those that are kept provide a document that is written like
the one that is cut down. -/
theorem exists_cutTo (hds : ofDefinitions s ds = (d, [])) (ho : o ∈ d.named) {n : Name}
    (hn : o.nameIs n = true) (halike : List.Forall₂ Definition.Alike (d.cut o ds) ds') :
    ∃ d' o', ofDefinitions s ds' = (d', []) ∧ d.CutTo o d' o' := by
  obtain ⟨d', hd', hfills⟩ := ofDefinitions_of_fills halike (ofDefinitions_cut hds)
  obtain ⟨hnamed, hops⟩ := operations_only hds ho hn
  obtain ⟨o', hoo, hops'⟩ := operations_of_fills hfills hops
  have hnamed' : d'.named = [o'] := by
    -- the one operation is not the anonymous one, since the other document has none
    have hlength := hfills.named.length_eq
    rw [hnamed, List.length_singleton] at hlength
    obtain ⟨p, hp⟩ := List.length_eq_one_iff.1 hlength.symm
    have hmem : p ∈ d'.operations := List.mem_append_right _ (hp ▸ List.mem_singleton_self p)
    rw [hops', List.mem_singleton] at hmem
    rw [hp, hmem]
  exact ⟨d', o', hd', hfills, hnamed', hops', hoo⟩

/-- What is wrong with a document that is cut down to a query: at most fields that lie too deep. -/
theorem CutTo.faults_eq {d' : Document} {o' : Operation} (h : d.CutTo o d' o')
    (hs : s.HasScalars) (hdefer : s.directive? "defer" = none) (hd : Accepted s d)
    (ho : o ∈ d.operations) (hops : (d.only o d).operations = [o]) (hkind : o.kind = .query) :
    d'.faults s = [] ∨ d'.faults s = [⟨o'.place, .fieldsTooDeep⟩] ∧
      ¬ Merging.Nested d (Merging.depthLimit + 1) o.selections := by
  have hop : o'.faults s d' = [] :=
    Operation.faults_of_alike hs h.alike.fragments h.operation (Operation.faults_only hd ho)
  have hfragments : ∀ f' ∈ d'.fragments,
      Selection.faultsAll s d' o'.variableDefinitions f'.condition.name f'.selections = [] := by
    intro f' hf'
    obtain ⟨f, hf, hff⟩ := exists_mem_of_forall₂ h.alike.fragments.flip hf'
    have hff : f.Fills noLiterals f' := hff
    rw [← hff.condition]
    exact Selection.faultsAll_of_fills hs (serves_of_alike h.operation.variableDefinitions)
      h.alike.fragments hff.selections (faultsAll_only hd ho hf)
  have hfaults : ∀ {ps}, Merging.conflicts s d' [] [] [o'] = [ps] → d'.faults s = ps :=
    faults_eq_conflicts hdefer h.operations (h.operation.kind ▸ hkind) hop
      (unusedFragments_of_fills h.alike (unusedFragments_only hd hops)) hfragments
  obtain hnone | ⟨hdeep, hnot⟩ := Merging.conflicts_of_agrees (agrees_only d o)
    h.alike.fragments hd ho (d.usedNames_spec o.selections).1 h.operation
  · exact .inl (hfaults hnone)
  · exact .inr ⟨hfaults hdeep, hnot⟩

/-- Definitions that are written like an operation of an accepted document, a query, and the
fragments that it uses, are accepted as far as fields do not lie too deep. -/
theorem check_cut (hs : s.HasScalars) (hdefer : s.directive? "defer" = none) (hd : Accepted s d)
    (hds : ofDefinitions s ds = (d, [])) (ho : o ∈ d.named) {n : Name} (hn : o.nameIs n = true)
    (hkind : o.kind = .query) (halike : List.Forall₂ Definition.Alike (d.cut o ds) ds') :
    ∃ d' o', d.CutTo o d' o' ∧ (check s ds' = (d', []) ∨
      check s ds' = (d', [⟨o'.place, .fieldsTooDeep⟩]) ∧
        ¬ Merging.Nested d (Merging.depthLimit + 1) o.selections) := by
  obtain ⟨d', o', hd', hcut⟩ := exists_cutTo hds ho hn halike
  refine ⟨d', o', hcut, ?_⟩
  have hmem : o ∈ d.operations := List.mem_append_right _ ho
  rw [check, hd']
  obtain hnone | ⟨hdeep, hnot⟩ :=
    hcut.faults_eq hs hdefer hd hmem (operations_only hds ho hn).2 hkind
  · exact .inl (by simp [hnone, Diagnostic.sort])
  · exact .inr ⟨by simp [hdeep, Diagnostic.sort], hnot⟩

end

end Document

end RecordGateway.GraphQL
