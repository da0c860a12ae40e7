import RecordGateway.Proofs.Execution.Call
import RecordGateway.Proofs.Execution.RecordQuery
import RecordGateway.Proofs.GraphQL.Filling.Document

/-!
# Queries that get through

A query for declared fields of one record passes every rule, however many fields it names and
however often (`RecordQuery.check_operation`): its fields repeat, but those of one key are the same
field without arguments, and there is nothing below them. It is answered with one fetch, for the id
that it writes or that its variable gives and for the fields in their order
(`execute_recordQuery`).
-/

namespace RecordGateway

open GraphQL

/-! ## Surveys of two sets -/

namespace GraphQL.Merging

theorem conflictsWith_eq_nil {conflict? : Occurrence → Occurrence → Option Diagnostic}
    {g : List Occurrence} (h : ∀ o ∈ g, ∀ p ∈ g, conflict? o p = none) :
    conflictsWith conflict? g = [] := by
  cases g with
  | nil => rfl
  | cons o g =>
    exact List.filterMap_eq_nil_iff.2 fun p hp => h o List.mem_cons_self p
      (List.mem_cons_of_mem _ hp)

/-- The members of a group have one key. -/
theorem key_eq_of_mem_shapeGroups {os g : List Occurrence} (hg : g ∈ shapeGroups os)
    {o p : Occurrence} (ho : o ∈ g) (hp : p ∈ g) : o.key = p.key := by
  obtain ⟨k, -, rfl⟩ := List.mem_map.1 hg
  have hkey : ∀ {x : Occurrence}, x ∈ os.filter (Occurrence.key · == k) → x.key = k := fun hx => by
    simpa using (List.mem_filter.1 hx).2
  exact (hkey ho).trans (hkey hp).symm

theorem key_eq_of_mem_fieldGroups {s : Schema} {os g : List Occurrence}
    (hg : g ∈ fieldGroups s os) {o p : Occurrence} (ho : o ∈ g) (hp : p ∈ g) : o.key = p.key := by
  obtain ⟨g', hg', hg⟩ := List.mem_flatMap.1 hg
  exact key_eq_of_mem_shapeGroups hg' (subset_of_mem_byParent hg ho) (subset_of_mem_byParent hg hp)

/-- Where one set lies below a set and nothing below that one, a survey ends with the two. -/
theorem newSets_of_two (children : List Occurrence → List (List Occurrence))
    {x y : List Occurrence} (hx : children x = [y]) (hy : children y = []) :
    (newSets children [] x).2 = false ∧ ∀ z ∈ (newSets children [] x).1, z = x ∨ z = y := by
  have hexplore : ∀ room, 0 < room →
      Survey.explore children (room + 1) ⟨[], false⟩ x = ⟨[x], false⟩ ∨
        Survey.explore children (room + 1) ⟨[], false⟩ x = ⟨[x, y], false⟩ := by
    intro room hroom
    obtain ⟨room, rfl⟩ := Nat.exists_eq_add_of_le' hroom
    by_cases hsame : sameSet y x = true
    · left
      simp [Survey.explore, hx, hsame]
    · right
      simp [Survey.explore, hx, hy, hsame]
  show (Survey.explore children (depthLimit + 1) ⟨[], false⟩ x).tooDeep = false ∧
    ∀ z ∈ (Survey.explore children (depthLimit + 1) ⟨[], false⟩ x).sets, z = x ∨ z = y
  rcases hexplore depthLimit (by decide) with h | h <;> rw [h] <;> simp

end GraphQL.Merging

namespace RecordQuery

variable {e : EntityDescriptor} {r : RootDescriptor} {reg : Registry}

/-! ## The fields of the record -/

/-- A declared field is there, and a string or null. -/
theorem field?_of_mem (h : reg.Compiled e r) {n : Name} (hn : n ∈ e.fieldNames) :
    (Registry.plainSchema e r).field? e.name n = some ⟨n, [], .named "String" false⟩ := by
  obtain ⟨f, hf, rfl⟩ := List.mem_map.1 hn
  have hsome : ((e.fields.map fun f => (⟨f.name, [], .named f.kind.name false⟩ : FieldType)).find?
      (·.name == f.name)).isSome = true :=
    List.find?_isSome.2 ⟨_, List.mem_map_of_mem hf, by simp⟩
  obtain ⟨t, ht⟩ := Option.isSome_iff_exists.1 hsome
  have hname : t.name = f.name := by simpa using List.find?_some ht
  obtain ⟨g, -, rfl⟩ := List.mem_map.1 (List.mem_of_find?_eq_some ht)
  have hkind : g.kind.name = "String" := rfl
  simp only [Schema.field?, h.free.type?_entity, Registry.entityShape, TypeShape.fields]
  rw [ht]
  simp only [hkind, ← hname]

theorem fieldNames_leaves : ∀ (fs : List Name) (k : Nat), Selection.fieldNames (leaves k fs) = fs
  | [], _ => rfl
  | f :: fs, k => congrArg (f :: ·) (fieldNames_leaves fs (k + 1))

/-- The fields of a record are taken apart as what they are. -/
theorem split_leaves (d : Document) (p : Name) (seen : List Name) : ∀ (fs : List Name) (k : Nat),
    (Merging.split d p seen (leaves k fs)).2.1 = [] ∧
      ∀ x ∈ (Merging.split d p seen (leaves k fs)).1,
        ∃ i, ∃ f ∈ fs, x = ⟨p, ⟨i, none, i, f, [], []⟩, []⟩
  | [], _ => ⟨rfl, fun _ hx => nomatch hx⟩
  | f :: fs, k => by
    obtain ⟨hps, hos⟩ := split_leaves d p seen fs (k + 1)
    refine ⟨hps, List.forall_mem_cons.2 ⟨⟨k, f, List.mem_cons_self, rfl⟩, fun x hx => ?_⟩⟩
    obtain ⟨i, g, hg, rfl⟩ := hos x hx
    exact ⟨i, g, List.mem_cons_of_mem _ hg, rfl⟩

theorem mem_expand_leaves {d : Document} {p : Name} {fs : List Name} {k : Nat}
    {x : Merging.Occurrence} (hx : x ∈ Merging.expand d [(p, leaves k fs)]) :
    ∃ i, ∃ f ∈ fs, x = ⟨p, ⟨i, none, i, f, [], []⟩, []⟩ := by
  obtain ⟨hps, hos⟩ := split_leaves d p [] fs k
  rw [Merging.expand] at hx
  cases hb : Merging.expansionBound d [(p, leaves k fs)] with
  | zero =>
    rw [hb] at hx
    cases hx
  | succ bound =>
    rw [hb] at hx
    simp only [Merging.expandQueue, hps, List.nil_append, List.mem_append] at hx
    rcases hx with hx | hx
    · exact hos x hx
    · cases bound <;> cases hx

/-! ## The rules -/

section
variable (hc : reg.Compiled e r)
include hc

theorem fieldTypeName?_root :
    (Registry.plainSchema e r).fieldTypeName? r.typeName r.field = some e.name := by
  simp [Schema.fieldTypeName?, hc.field?_root, TypeRef.innermost]

theorem misfitsAll_leaves : ∀ {fs : List Name}, (∀ f ∈ fs, f ∈ e.fieldNames) → ∀ k : Nat,
    Selection.misfitsAll (Registry.plainSchema e r) e.name (leaves k fs) = []
  | [], _, _ => rfl
  | f :: fs, hfs, k => by
    obtain ⟨hf, hfs⟩ := List.forall_mem_cons.1 hfs
    have hfit : Field.misfit? (Registry.plainSchema e r) e.name ⟨k, none, k, f, [], []⟩ [] =
        none := by
      simp [Field.misfit?, Schema.fieldTypeName?, field?_of_mem hc hf]
    simp only [leaves, Selection.misfitsAll, Selection.misfits, hfit, misfitsAll_leaves hfs,
      List.append_nil]

theorem faultsAll_leaves (d : Document) (vars : List VariableDefinition) : ∀ {fs : List Name},
    (∀ f ∈ fs, f ∈ e.fieldNames) → ∀ k : Nat,
      Selection.faultsAll (Registry.plainSchema e r) d vars e.name (leaves k fs) = []
  | [], _, _ => rfl
  | f :: fs, hfs, k => by
    obtain ⟨hf, hfs⟩ := List.forall_mem_cons.1 hfs
    have hleaf : (Registry.plainSchema e r).isComposite "String" = false := by
      simp [Schema.isComposite, Registry.type?_string, TypeShape.isComposite]
    simp only [leaves, Selection.faultsAll, Selection.faults, Field.faults, field?_of_mem hc hf,
      Field.argumentMisfits, Argument.missing, Argument.repeated, Directive.misfits,
      TypeRef.innermost, hleaf, faultsAll_leaves d vars hfs]
    rfl

end

/-- The fields of a record mention no fragments, no variables and no labels. -/
theorem mentions_leaves (s : Schema) : ∀ (fs : List Name) (k : Nat),
    Selection.spreadsAll (leaves k fs) = [] ∧ Selection.checkedSpreadsAll s (leaves k fs) = [] ∧
      Selection.variableNamesAll (leaves k fs) = [] ∧ Selection.labelsAll (leaves k fs) = []
  | [], _ => ⟨rfl, rfl, rfl, rfl⟩
  | _ :: fs, k => mentions_leaves s fs (k + 1)

/-- What the rules ask of the id of a query and of its variables. -/
structure IdFits (e : EntityDescriptor) (r : RootDescriptor) (vars : List VariableDefinition)
    (v : Value) : Prop where
  definitions : VariableDefinition.faults (Registry.plainSchema e r) [] vars = []
  used : VariableDefinition.unused v.variableNames vars = []
  misfits : v.misfits (Registry.plainSchema e r) vars (.named "String" false) = []
  misuse : ∀ i, Argument.misuse? vars ⟨r.argument, .named "String" false, false⟩
    ⟨i, r.argument, v⟩ = none

section
variable (hc : reg.Compiled e r) {fs : List Name} (hne : fs ≠ [])
  (hfs : ∀ f ∈ fs, f ∈ e.fieldNames) (k j : Nat) {vars : List VariableDefinition} {v : Value}
include hc hne hfs

omit hc hfs in
theorem isEmpty_leaves (k : Nat) : (leaves k fs).isEmpty = false := by
  obtain ⟨f, fs, rfl⟩ := List.exists_cons_of_ne_nil hne
  rfl

omit hne in
theorem misfitsAll_selections : Selection.misfitsAll (Registry.plainSchema e r) r.typeName
    (selections r k j v fs) = [] := by
  have hfit : Field.misfit? (Registry.plainSchema e r) r.typeName
      ⟨k + 1, none, k + 1, r.field, [⟨k + 3, r.argument, v⟩], []⟩ (leaves j fs) = none := by
    simp [Field.misfit?, Schema.fieldTypeName?, hc.field?_root, TypeRef.innermost, Schema.isLeaf,
      hc.free.type?_entity, Registry.entityShape, TypeShape.isLeaf]
  simp only [selections, Selection.misfitsAll, Selection.misfits, hfit, fieldTypeName?_root hc,
    Option.getD_some, misfitsAll_leaves hc hfs, List.append_nil]

theorem operation_faults (hv : IdFits e r vars v) (d : Document) :
    (operation r k j vars v fs).faults (Registry.plainSchema e r) d = [] := by
  obtain ⟨hspreads, hchecked, hnames, -⟩ := mentions_leaves (Registry.plainSchema e r) fs j
  have hroot : (operation r k j vars v fs).root (Registry.plainSchema e r) = r.typeName := rfl
  have hargs : Field.argumentMisfits (Registry.plainSchema e r) vars r.typeName
      (rootFieldType e r) ⟨k + 1, none, k + 1, r.field, [⟨k + 3, r.argument, v⟩], []⟩ = [] := by
    simp [Field.argumentMisfits, rootFieldType, Argument.misfits, hv.misuse, hv.misfits,
      Argument.missing, ArgumentType.isRequired, TypeRef.isNonNull]
  have hfield : (Registry.plainSchema e r).field? r.typeName r.field =
    some (rootFieldType e r) := hc.field?_root
  have hvariables : (operation r k j vars v fs).variablesUsed d = v.variableNames := by
    simp [Operation.variablesUsed, operation, selections, Selection.variableNamesAll,
      Selection.variableNames, Directive.variableNames, hnames, Document.used,
      Selection.spreadsAll, Selection.spreads, hspreads, reach]
  have hreached : d.checked (Registry.plainSchema e r) (operation r k j vars v fs).selections =
      [] := by
    simp [Document.checked, operation, selections, Selection.checkedSpreadsAll,
      Selection.checkedSpreads, hchecked, reach]
  have hselections : Selection.faultsAll (Registry.plainSchema e r) d vars r.typeName
      (selections r k j v fs) = [] := by
    simp [selections, Selection.faultsAll, Selection.faults, Field.faults, hfield, hargs,
      fieldTypeName?_root hc, Directive.misfits, Argument.repeated, isEmpty_leaves hne,
      faultsAll_leaves hc d vars hfs]
  rw [Operation.faults, hvariables, hreached, hroot]
  simp only [operation, hselections, hv.definitions, hv.used, Directive.misfits]
  rfl

/-! ### Merging -/

omit hne in
/-- Fields of a record under one key do not conflict. -/
theorem conflicts_leaves {d : Document} {i : Nat} {os : List Merging.Occurrence}
    (hos : os = Merging.expand d [(e.name, leaves i fs)]) :
    Merging.shapeConflicts (Registry.plainSchema e r) os = [] ∧
      Merging.fieldConflicts (Registry.plainSchema e r) os = [] := by
  have hmem : ∀ x ∈ os, ∃ i, ∃ f ∈ fs, x = ⟨e.name, ⟨i, none, i, f, [], []⟩, []⟩ := fun x hx =>
    mem_expand_leaves (hos ▸ hx)
  refine ⟨List.flatMap_eq_nil_iff.2 fun g hg => Merging.conflictsWith_eq_nil fun x hx y hy => ?_,
    List.flatMap_eq_nil_iff.2 fun g hg => Merging.conflictsWith_eq_nil fun x hx y hy => ?_⟩
  · obtain ⟨i, f, hf, rfl⟩ := hmem x (Merging.subset_of_mem_groupBy hg hx)
    obtain ⟨i', f', hf', rfl⟩ := hmem y (Merging.subset_of_mem_groupBy hg hy)
    simp [Merging.shapeConflict?, Merging.Occurrence.type?, field?_of_mem hc (hfs f hf),
      field?_of_mem hc (hfs f' hf'), Merging.sameShape, Merging.stripLists,
      Registry.type?_string, TypeShape.isLeaf]
  · have hkey := Merging.key_eq_of_mem_fieldGroups hg hx hy
    obtain ⟨i, f, -, rfl⟩ := hmem x (Merging.subset_of_mem_fieldGroups hg hx)
    obtain ⟨i', f', -, rfl⟩ := hmem y (Merging.subset_of_mem_fieldGroups hg hy)
    obtain rfl : f = f' := hkey
    simp [Merging.fieldConflict?, Merging.sameArguments, Merging.argumentsWithin]

/-- The only occurrence at the top of a query. -/
def rootOccurrence (r : RootDescriptor) (k j : Nat) (v : Value) (fs : List Name) :
    Merging.Occurrence :=
  ⟨r.typeName, ⟨k + 1, none, k + 1, r.field, [⟨k + 3, r.argument, v⟩], []⟩, leaves j fs⟩

omit hc hne hfs in
theorem topLevel_operation (d : Document) :
    Merging.topLevel (Registry.plainSchema e r) d (operation r k j vars v fs) =
      [rootOccurrence r k j v fs] := by
  have hone : ∀ bound, Merging.expandQueue d (bound + 1) [] [(r.typeName, selections r k j v fs)] =
      [rootOccurrence r k j v fs] := by
    intro bound
    cases bound <;> rfl
  have hroot : ((Registry.plainSchema e r).root? .query).getD "" = r.typeName := rfl
  have hbound : Merging.expansionBound d [(r.typeName, selections r k j v fs)] =
      Merging.countSets (d.fragments.map (·.selections)) + 1 := by
    simp [Merging.expansionBound, Merging.countSets, selections, Merging.setsInAll, Merging.setsIn,
      Nat.add_comm]
  show Merging.expand d [(((Registry.plainSchema e r).root? .query).getD "", _)] = _
  rw [hroot, Merging.expand, operation, hbound, hone]

omit hne hfs in
theorem groups_root (fs : List Name) (k j : Nat) (v : Value) :
    Merging.shapeGroups [rootOccurrence r k j v fs] =
      [[rootOccurrence r k j v fs]] ∧
    Merging.fieldGroups (Registry.plainSchema e r) [rootOccurrence r k j v fs] =
      [[rootOccurrence r k j v fs]] := by
  have hone : ∀ key : Merging.Occurrence → Name,
      Merging.groupBy key [rootOccurrence r k j v fs] = [[rootOccurrence r k j v fs]] := by
    intro key
    simp [Merging.groupBy, List.eraseDups_cons]
  refine ⟨hone _, ?_⟩
  have htype : (Registry.plainSchema e r).type? (rootOccurrence r k j v fs).parent =
      some (Registry.rootShape r) := hc.free.type?_typeName
  simp only [Merging.fieldGroups, Merging.shapeGroups, hone, List.flatMap_cons, List.flatMap_nil,
    Merging.byParent, htype, Registry.rootShape, List.filter_cons, List.filter_nil, if_true,
    Bool.not_true, Bool.false_eq_true, if_false, List.map_cons, List.map_nil, List.append_nil]

omit hfs in
/-- Below the root field of a query lie the fields of the record. -/
theorem below_root (d : Document) :
    Merging.below (Registry.plainSchema e r) d [rootOccurrence r k j v fs] =
      some (Merging.expand d [(e.name, leaves j fs)]) := by
  have htype : (rootOccurrence r k j v fs).bodyType (Registry.plainSchema e r) = e.name := by
    simp [Merging.Occurrence.bodyType, rootOccurrence, fieldTypeName?_root hc]
  have hbody : (rootOccurrence r k j v fs).body = leaves j fs := rfl
  simp only [Merging.below, List.filter_cons, List.filter_nil, hbody, isEmpty_leaves hne,
    Bool.not_false, if_true, List.map_cons, List.map_nil, htype]

omit hc hne hfs in
/-- Nothing lies below fields of a record. -/
theorem children_leaves {groups : List Merging.Occurrence → List (List Merging.Occurrence)}
    (hsub : ∀ os, ∀ g ∈ groups os, g ⊆ os) (s : Schema) (d d' : Document) (p : Name) :
    (groups (Merging.expand d [(p, leaves j fs)])).filterMap (Merging.below s d') = [] := by
  refine List.filterMap_eq_nil_iff.2 fun g hg => ?_
  have hnone : g.filter (!·.body.isEmpty) = [] := by
    refine List.filter_eq_nil_iff.2 fun x hx => ?_
    obtain ⟨i, f, -, rfl⟩ := mem_expand_leaves (hsub _ g hg hx)
    simp
  simp only [Merging.below, hnone]

omit hfs in
/-- A survey of a query sees the root field and the fields of the record, and nothing deeper. -/
theorem newSets_root {groups : List Merging.Occurrence → List (List Merging.Occurrence)}
    (hsub : ∀ os, ∀ g ∈ groups os, g ⊆ os)
    (hgroups : groups [rootOccurrence r k j v fs] = [[rootOccurrence r k j v fs]])
    (d : Document) {sets : List (List Merging.Occurrence)} {deep : Bool}
    (h : Merging.newSets
      (fun os => (groups os).filterMap (Merging.below (Registry.plainSchema e r) d)) []
      [rootOccurrence r k j v fs] = (sets, deep)) :
    deep = false ∧ ∀ os ∈ sets, os = [rootOccurrence r k j v fs] ∨
      os = Merging.expand d [(e.name, leaves j fs)] := by
  have hbelow : (groups [rootOccurrence r k j v fs]).filterMap
      (Merging.below (Registry.plainSchema e r) d) =
        [Merging.expand d [(e.name, leaves j fs)]] := by
    simp only [hgroups, List.filterMap_cons, List.filterMap_nil, below_root hc hne]
  have htwo := Merging.newSets_of_two
    (fun os => (groups os).filterMap (Merging.below (Registry.plainSchema e r) d)) hbelow
    (children_leaves j hsub _ d d _)
  rwa [h] at htwo

/-- The fields of a query can be merged. -/
theorem conflicts_operation (d : Document) :
    Merging.conflicts (Registry.plainSchema e r) d [] [] [operation r k j vars v fs] = [[]] := by
  obtain ⟨hshapes, hfields⟩ := groups_root hc fs k j v
  obtain ⟨hrecordShapes, hrecordFields⟩ :=
    conflicts_leaves hc hfs (d := d) (i := j) rfl
  simp only [Merging.conflicts, topLevel_operation]
  cases hns : Merging.newSets (Merging.shapeChildren (Registry.plainSchema e r) d) []
    [rootOccurrence r k j v fs] with
  | mk shapes deep =>
  cases hnf : Merging.newSets (Merging.fieldChildren (Registry.plainSchema e r) d) []
    [rootOccurrence r k j v fs] with
  | mk fields deep' =>
  obtain ⟨rfl, hshapeSets⟩ := newSets_root hc hne k j
    (fun _ _ => Merging.subset_of_mem_groupBy) hshapes d hns
  obtain ⟨rfl, hfieldSets⟩ := newSets_root hc hne k j
    (fun _ _ => Merging.subset_of_mem_fieldGroups) hfields d hnf
  have hnoShapes : shapes.flatMap (Merging.shapeConflicts (Registry.plainSchema e r)) = [] := by
    refine List.flatMap_eq_nil_iff.2 fun os hos => ?_
    rcases hshapeSets os hos with rfl | rfl
    · simp only [Merging.shapeConflicts, hshapes]
      rfl
    · exact hrecordShapes
  have hnoFields : fields.flatMap (Merging.fieldConflicts (Registry.plainSchema e r)) = [] := by
    refine List.flatMap_eq_nil_iff.2 fun os hos => ?_
    rcases hfieldSets os hos with rfl | rfl
    · simp only [Merging.fieldConflicts, hfields]
      rfl
    · exact hrecordFields
  simp only [hnoShapes, hnoFields]
  rfl

/-! ### The document -/

/-- The document with one operation that has no name. -/
def document (o : Operation) : Document := { anonymous := some o }

/-- A query is accepted as it is. -/
theorem check_operation (hv : IdFits e r vars v) :
    Document.check (Registry.plainSchema e r) [.operation (operation r k j vars v fs)] =
      (document (operation r k j vars v fs), []) := by
  have htakes : Document.Takes (Registry.plainSchema e r) {}
      (.operation (operation r k j vars v fs)) (document (operation r k j vars v fs)) :=
    .anonymous rfl rfl rfl rfl (misfitsAll_selections hc hfs k j)
  obtain ⟨hdocument, hproblems⟩ := Document.Draft.add_of_takes (d := {}) rfl htakes
  have hfaults : (document (operation r k j vars v fs)).faults (Registry.plainSchema e r) = [] := by
    obtain ⟨-, -, -, hlabels⟩ := mentions_leaves (Registry.plainSchema e r) fs j
    have hlabels : Selection.labelsAll (selections r k j v fs) = [] := by
      simp only [selections, Selection.labelsAll, Selection.labels, hlabels]
      rfl
    have hoperations : (document (operation r k j vars v fs)).operations =
      [operation r k j vars v fs] := rfl
    have hselections : (operation r k j vars v fs).selections = selections r k j v fs := rfl
    simp only [Document.faults, hoperations, List.append_nil, List.flatMap_cons, List.flatMap_nil,
      operation_faults hc hne hfs k j hv, Document.labelFaults, hselections, hlabels,
      conflicts_operation hc hne hfs]
    rfl
  simp [Document.check, Document.ofDefinitions, hdocument, hproblems, hfaults, Diagnostic.sort]

/-! ## Execution -/

omit hc hne hfs in
/-- A query fetches its record, if no variable is required and its id has a text. -/
theorem planDocument_operation {values : Json.Object} {id : String}
    (hrequired : ∀ d ∈ vars, d.type.isNonNull = false)
    (hid : Bindings.text ⟨vars, values⟩ v = .ok id) :
    planDocument r (document (operation r k j vars v fs)) none values = .ok (some ⟨id, fs⟩) := by
  have hcheck : Bindings.checkRequired ⟨vars, values⟩ = .ok () := by
    have hnone : vars.findSome? (Bindings.requiredError? ⟨vars, values⟩) = none :=
      List.findSome?_eq_none_iff.2 fun d hd => by
        simp only [Bindings.requiredError?, hrequired d hd, Bool.false_eq_true, if_false]
    simp only [Bindings.checkRequired, hnone]
  have hcollect : collect ⟨vars, values⟩ r.field (document (operation r k j vars v fs))
      (operation r k j vars v fs).selections =
        .ok [⟨⟨k + 1, none, k + 1, r.field, [⟨k + 3, r.argument, v⟩], []⟩, leaves j fs⟩] := by
    simp [collect, document, collectWithin, collectAllFrom, operation, selections, collectFrom,
      Bindings.included]
  have hargument : Bindings.argument ⟨vars, values⟩ [⟨k + 3, r.argument, v⟩] r.argument =
      .ok id := by
    simp [Bindings.argument, hid]
  have hchoose : (document (operation r k j vars v fs)).choose none =
    .ok (operation r k j vars v fs) := rfl
  have hkind : (operation r k j vars v fs).kind = .query := rfl
  have hdefinitions : (operation r k j vars v fs).variableDefinitions = vars := rfl
  simp only [planDocument, hchoose, plan, hkind, ne_eq, not_true, if_false, hdefinitions, hcheck,
    hcollect, fetchOf?, List.any_nil, Bool.false_eq_true, hargument, List.flatMap_cons,
    List.flatMap_nil, fieldNames_leaves, List.append_nil]

/-- A text that reads as a query is accepted and brings its record. -/
theorem execute_of_parseDefinitions (hv : IdFits e r vars v) {text : String}
    (hparse : parseDefinitions text = .ok [.operation (operation r k j vars v fs)])
    {values : Json.Object} {id : String} (hrequired : ∀ d ∈ vars, d.type.isNonNull = false)
    (hid : Bindings.text ⟨vars, values⟩ v = .ok id) (source : DataSource) :
    (∃ d, Document.read reg.schema text = .ok d) ∧
      reg.execute source ⟨text, none, values⟩ = ⟨.ofAnswer (source ⟨id, fs⟩), [⟨id, fs⟩]⟩ := by
  have hread : Document.read reg.schema text = .ok (document (operation r k j vars v fs)) := by
    simp only [Document.read, hparse, hc.schema, check_operation hc hne hfs k j hv]
  refine ⟨⟨_, hread⟩, ?_⟩
  simp only [Registry.execute, hread, executeDocument, hc.root,
    planDocument_operation k j hrequired hid]
  rfl

end

/-! ## Ids -/

/-- A string fits as an id. -/
theorem idFits_literal (e : EntityDescriptor) (r : RootDescriptor) (i : Nat) (s : String) :
    IdFits e r [] (.literal i (.string s)) where
  definitions := rfl
  used := rfl
  misfits := by
    simp [Value.misfits, TypeRef.innermost, Registry.type?_string, Value.literalMisfits]
  misuse _ := rfl

/-- A variable for strings fits as an id. -/
theorem idFits_variable (e : EntityDescriptor) (r : RootDescriptor) (i j : Nat) (n : Name) :
    IdFits e r [⟨j, n, .named "String" false, none, []⟩] (.variable i n) where
  definitions := by
    simp [VariableDefinition.faults, VariableDefinition.typeFaults, TypeRef.innermost,
      Registry.type?_string, TypeShape.isInput, Directive.misfits]
  used := by simp [VariableDefinition.unused, Value.variableNames]
  misfits := by
    simp [Value.misfits, TypeRef.innermost, Registry.type?_string, Value.variableMisfits,
      TypeShape.isInput, findVariable]
  misuse _ := by
    simp [Argument.misuse?, findVariable, VariableDefinition.usable, TypeRef.isNonNull,
      TypeRef.assignable]

end RecordQuery

/-! ## Queries for one record -/

/-- Under the schema of the gateway, a query for any fields of one record is accepted, and answered
with one fetch of the record for these fields in their order. The id may be any string, written as
in JSON or otherwise, and it may be the value of a variable. -/
theorem execute_recordQuery {reg : Registry} (hreg : Registry.builtin = .ok reg)
    (source : DataSource) (s : String) {fs : List Name} (hne : fs ≠ [])
    (hfs : ∀ f ∈ fs, f ∈ ["id", "name", "description"]) :
    Quoted.Spells (Quoted.spelling s).toList s.toList ∧
      (∀ w : String, Quoted.Spells w.toList s.toList →
        ∀ q : Request, q.query = recordQuery getData ("\"" ++ w ++ "\"") fs →
          q.operationName = none → (∃ d, Document.read reg.schema q.query = .ok d) ∧
            reg.execute source q = ⟨.ofAnswer (source ⟨s, fs⟩), [⟨s, fs⟩]⟩) ∧
      ∀ q : Request, q.query = "query($v: String) " ++ recordQuery getData "$v" fs →
        q.operationName = none → q.variableValues.get? "v" = some (.string s) →
          (∃ d, Document.read reg.schema q.query = .ok d) ∧
            reg.execute source q = ⟨.ofAnswer (source ⟨s, fs⟩), [⟨s, fs⟩]⟩ := by
  have hc := Registry.compiled_of_ofDescriptors Registry.plainNames_builtin hreg
  have hplain : ∀ f ∈ fs, isPlainName f = true := by
    have hall : ∀ f ∈ ["id", "name", "description"], isPlainName f = true := by decide
    exact fun f hf => hall f (hfs f hf)
  refine ⟨Quoted.spells_spelling s, ?_, ?_⟩
  · rintro w hw ⟨_, _, values⟩ rfl rfl
    exact RecordQuery.execute_of_parseDefinitions hc hne hfs 0 8 (RecordQuery.idFits_literal ..)
      (RecordQuery.parseDefinitions_literal Registry.plainNames_builtin hplain hne hw)
      (fun _ h => nomatch h) rfl source
  · rintro ⟨_, _, values⟩ rfl rfl hv
    have hid : Bindings.text ⟨[⟨2, "v", .named "String" false, none, []⟩], values⟩
        (.variable 12 "v") = .ok s := by
      have hvalue : Bindings.value? ⟨[⟨2, "v", .named "String" false, none, []⟩], values⟩ "v" =
        some (.string s) := hv
      simp only [Bindings.text, hvalue]
    exact RecordQuery.execute_of_parseDefinitions hc hne hfs 7 16 (RecordQuery.idFits_variable ..)
      (RecordQuery.parseDefinitions_variable Registry.plainNames_builtin hplain hne)
      (List.forall_mem_singleton.2 rfl) hid source

/-- A string with a quote, a backslash and control characters. -/
def escaped : String := "\"\\\n\x01é"

theorem execute_recordQuery_escaped : ∃ reg, Registry.builtin = .ok reg ∧
    ["name", "id", "name"] ≠ [] ∧
      (∀ f ∈ ["name", "id", "name"], f ∈ ["id", "name", "description"]) ∧
      Quoted.spelling escaped = "\\\"\\\\\\n\\u0001é" ∧
      Quoted.Spells (Quoted.spelling escaped).toList escaped.toList ∧
      reg.execute widget ⟨recordQuery getData ("\"" ++ Quoted.spelling escaped ++ "\"")
          ["name", "id", "name"], none, []⟩ =
        ⟨.ofAnswer (widget ⟨escaped, ["name", "id", "name"]⟩),
          [⟨escaped, ["name", "id", "name"]⟩]⟩ ∧
      reg.execute widget ⟨"query($v: String) " ++ recordQuery getData "$v" ["name", "id", "name"],
          none, [("v", .string escaped)]⟩ =
        ⟨.ofAnswer (widget ⟨escaped, ["name", "id", "name"]⟩),
          [⟨escaped, ["name", "id", "name"]⟩]⟩ := by
  obtain ⟨reg, hreg⟩ := Registry.exists_builtin
  have hfs : ∀ f ∈ ["name", "id", "name"], f ∈ ["id", "name", "description"] := by decide
  obtain ⟨hspells, hliteral, hvariable⟩ :=
    execute_recordQuery hreg widget escaped (List.cons_ne_nil _ _) hfs
  exact ⟨reg, hreg, List.cons_ne_nil _ _, hfs, by decide +kernel, hspells,
    (hliteral _ hspells ⟨_, _, _⟩ rfl rfl).2, (hvariable ⟨_, _, _⟩ rfl rfl rfl).2⟩

end RecordGateway
