import RecordGateway.Proofs.Execution.Literals

/-!
# Declared variables

The walk through an operation asks for the values of variables that it comes across, perhaps in
fragments that other operations share. All of them are declared by the operation that is run: an
accepted document has no condition (`conditionFits_of_walk`) and no id (`argument_of_agree`) that
goes by another variable. So requests whose values agree on the declared variables are answered
alike, whatever else they give (`execute_eq_of_agree`).
-/

namespace RecordGateway

open GraphQL

namespace Bindings

/-- Both bind the same definitions, and give each defined variable the same value or none. -/
structure Agree (b b' : Bindings) : Prop where
  definitions : b.definitions = b'.definitions
  values : ∀ v ∈ b.definitions, b.value? v.name = b'.value? v.name

namespace Agree

variable {b b' : Bindings} (h : b.Agree b')
include h

theorem default?_eq (n : Name) : b.default? n = b'.default? n := by
  simp only [default?, h.definitions]

theorem value?_eq {n : Name} {v : VariableDefinition}
    (hv : findVariable b.definitions n = some v) : b.value? n = b'.value? n := by
  have hn : v.name = n := by simpa using List.find?_some hv
  exact hn ▸ h.values v (List.mem_of_find?_eq_some hv)

theorem checkRequired_eq : b.checkRequired = b'.checkRequired := by
  have herror : ∀ v ∈ b.definitions, b.requiredError? v = b'.requiredError? v := fun v hv => by
    simp only [requiredError?, h.values v hv]
  have hfirst : b.definitions.findSome? b.requiredError? =
      b'.definitions.findSome? b'.requiredError? := by
    rw [← h.definitions]
    generalize b.definitions = vs at herror
    induction vs with
    | nil => rfl
    | cons v vs ih =>
      obtain ⟨hv, hvs⟩ := List.forall_mem_cons.1 herror
      rw [List.findSome?_cons, List.findSome?_cons, hv, ih hvs]
  simp only [checkRequired, hfirst]

/-! ## Conditions -/

/-- A directive whose condition is no variable, or a defined one, decides alike. -/
theorem kept_eq {g : Directive} (hg : g.ConditionFits b.definitions) : b.kept g = b'.kept g := by
  unfold kept
  cases hs : skipsWhen? g.name with
  | none => rfl
  | some s =>
    cases ha : g.arguments.find? (·.name == "if") with
    | none => rfl
    | some a =>
      have hvalue : b.boolean a.value = b'.boolean a.value := by
        match hval : a.value with
        | .variable i n =>
          obtain ⟨v, -, hv, -⟩ := hg a i n (by rw [hs, Option.isSome_some]) ha hval
          simp only [boolean, h.value?_eq hv, h.default?_eq n]
        | .literal _ l => cases l <;> rfl
        | .list .. | .object .. => rfl
      simp only [hvalue]

theorem included_eq {gs : List Directive} (hgs : ∀ g ∈ gs, g.ConditionFits b.definitions) :
    b.included gs = b'.included gs := by
  induction gs with
  | nil => rfl
  | cons g gs ih =>
    obtain ⟨hg, hrest⟩ := List.forall_mem_cons.1 hgs
    simp only [included, h.kept_eq hg, ih hrest]

theorem survey_eq {ts : List Station}
    (hts : ∀ t ∈ ts, ∀ g ∈ t.guards, g.ConditionFits b.definitions) :
    b.survey ts = b'.survey ts := by
  induction ts with
  | nil => rfl
  | cons t ts ih =>
    obtain ⟨ht, hrest⟩ := List.forall_mem_cons.1 hts
    simp only [survey, h.included_eq ht, ih hrest]

/-! ## Ids -/

/-- An argument that is no variable, or a defined one, has the same text. -/
theorem argument_eq {as : List Argument} {name : Name}
    (has : ∀ a i n, as.find? (·.name == name) = some a → a.value = .variable i n →
      ∃ v, findVariable b.definitions n = some v) :
    b.argument as name = b'.argument as name := by
  unfold argument
  cases ha : as.find? (·.name == name) with
  | none => rfl
  | some a =>
    show b.text a.value = b'.text a.value
    match hval : a.value with
    | .variable i n =>
      obtain ⟨v, hv⟩ := has a i n ha hval
      simp only [text, h.value?_eq hv, h.default?_eq n]
    | .literal _ l => cases l <;> rfl
    | .list .. | .object .. => rfl

end Agree

end Bindings

/-! ## Plans -/

section
variable {e : EntityDescriptor} {r : RootDescriptor} {reg : Registry} {d : Document} {o : Operation}
  {reached : List Name}

/-- The directives on a sound selection fit their place. -/
theorem misfits_of_sound {s : Schema} {vars : List VariableDefinition} {p : Name} {x : Selection}
    (h : Selection.Sound s d vars reached p [x]) :
    ∃ location, Directive.misfits s vars location [] x.directives = [] := by
  have hfaults := h.faults_eq
  cases x with
  | field f body =>
    simp only [Selection.faults, Field.faults, List.append_eq_nil_iff] at hfaults
    exact ⟨_, hfaults.1.1.1⟩
  | inline i c ds body =>
    simp only [Selection.faults, List.append_eq_nil_iff] at hfaults
    exact ⟨_, hfaults.1.1⟩
  | spread i n ds =>
    simp only [Selection.faults, List.append_eq_nil_iff] at hfaults
    exact ⟨_, hfaults.1⟩

/-- The conditions on a sound selection go by defined variables. -/
theorem conditionFits_of_sound {vars : List VariableDefinition} {p : Name} {x : Selection}
    (h : Selection.Sound (Registry.plainSchema e r) d vars reached p [x]) :
    ∀ g ∈ x.directives, g.ConditionFits vars := by
  obtain ⟨location, hmisfits⟩ := misfits_of_sound h
  exact conditionFits_of_misfits hmisfits

/-- The conditions that are asked on the walk through an operation go by its variables. -/
theorem conditionFits_of_walk (hv : o.Vetted (Registry.plainSchema e r) d reached)
    {ts : List Selection} (hts : Expands d o.selections ts) {rootField : Name} {t : Station}
    (ht : t ∈ stations rootField [] ts) :
    ∀ g ∈ t.guards, g.ConditionFits o.variableDefinitions := by
  intro g hg
  have hwithin := within_of_mem_stations hts (o.root (Registry.plainSchema e r)) ht
  rcases hwithin.guards g hg with hg | ⟨p, x, w, hx⟩
  · cases hg
  · exact conditionFits_of_sound (hv.walk_top w) g hx

/-- The root fields that are collected have ids that are literals, or variables of the operation. -/
theorem argument_of_agree (hc : reg.Compiled e r) (hk : o.kind = .query)
    (hv : o.Vetted (Registry.plainSchema e r) d reached) {b b' : Bindings} (h : b.Agree b')
    (hb : b.definitions = o.variableDefinitions) {ts : List Selection}
    (hts : Expands d o.selections ts) {f : RootField}
    (hf : f ∈ b.roots (stations r.field [] ts)) :
    b.argument f.head.arguments r.argument = b'.argument f.head.arguments r.argument := by
  obtain ⟨hname, p, w⟩ := walk_of_mem_roots hts hf
  obtain ⟨hargs, -⟩ := rootField_sound hc hk hv w hname
  refine h.argument_eq fun a i n ha hval => ?_
  obtain ⟨j, t, hlit⟩ | ⟨j, hlit⟩ | ⟨j, m, v, -, hvar, hdef, -⟩ := value_of_argumentMisfits hargs ha
  · rw [hlit] at hval
    cases hval
  · rw [hlit] at hval
    cases hval
  · rw [hvar] at hval
    cases hval
    exact ⟨v, hb ▸ hdef⟩

/-- An operation has the same plan for values that agree on its variables. -/
theorem plan_eq_of_agree (hc : reg.Compiled e r)
    (hd : Document.Accepted (Registry.plainSchema e r) d) (ho : o ∈ d.operations)
    {values values' : Json.Object}
    (h : Bindings.Agree ⟨o.variableDefinitions, values⟩ ⟨o.variableDefinitions, values'⟩) :
    plan r d o values = plan r d o values' := by
  by_cases hk : o.kind = .query
  swap
  · rw [plan, plan, if_pos hk, if_pos hk]
  obtain ⟨reached, hv⟩ := Operation.vetted_of_accepted hd ho
  obtain ⟨ts, hts, hcollect⟩ := exists_collect_eq_survey hv
  have hsurvey : Bindings.survey _ (stations r.field [] ts) = Bindings.survey _ _ :=
    h.survey_eq fun _ => conditionFits_of_walk hv hts
  simp only [plan, h.checkRequired_eq, hcollect, ← hsurvey]
  cases hs : Bindings.survey ⟨o.variableDefinitions, values⟩ (stations r.field [] ts) with
  | error err => rfl
  | ok fs =>
    cases fs with
    | nil => rfl
    | cons f fs =>
      have hf := (Bindings.survey_ok hs).2 ▸ List.mem_cons_self
      simp only [fetchOf?, argument_of_agree hc hk hv h rfl hts hf]

end

/-- Only the variables that the chosen operation declares matter: a request with other values that
agree on them is answered alike, with the same calls. -/
theorem execute_eq_of_agree {e : EntityDescriptor} {r : RootDescriptor} {reg : Registry}
    (hp : PlainNames e r) (hreg : Registry.ofDescriptors e r = .ok reg) (source : DataSource)
    (q : Request) (values : Json.Object)
    (h : ∀ d o, Document.read reg.schema q.query = .ok d → d.choose q.operationName = .ok o →
      ∀ v ∈ o.variableDefinitions, q.variableValues.get? v.name = values.get? v.name) :
    reg.execute source { q with variableValues := values } = reg.execute source q := by
  have hc := Registry.compiled_of_ofDescriptors hp hreg
  unfold Registry.execute
  cases hd : Document.read reg.schema q.query with
  | error err => rfl
  | ok d =>
    simp only [executeDocument, planDocument]
    cases ho : d.choose q.operationName with
    | error err => rfl
    | ok o =>
      have hagree : Bindings.Agree ⟨o.variableDefinitions, q.variableValues⟩
          ⟨o.variableDefinitions, values⟩ := ⟨rfl, h d o hd ho⟩
      have hacc := hc.schema ▸ Document.accepted_of_read hd
      simp only [hc.root, plan_eq_of_agree hc hacc (Document.picks_of_choose ho).mem hagree]

/-- Two operations with a fragment in common, the first of which is run. -/
def firstOfTwo : Request where
  query := "query A($id: String = \"7\", $on: Boolean!) \x7b ...F @include(if: $on) \x7d " ++
    "query B($id: String, $no: Boolean!) \x7b ...F getData(id: $id) @skip(if: $no) " ++
    "\x7b name \x7d \x7d fragment F on RootQuery \x7b getData(id: $id) \x7b id \x7d \x7d"
  operationName := some "A"
  variableValues := [("on", .bool true)]

/-- The variable of the second operation is given too, and not as the boolean that it asks for. -/
def firstOfTwoValues : Json.Object :=
  [("no", .array [.null]), ("on", .bool true)]

theorem execute_eq_of_agree_firstOfTwo : ∃ reg d o,
    Registry.ofDescriptors dataEntity getData = .ok reg ∧
      Document.read reg.schema firstOfTwo.query = .ok d ∧ d.choose (some "A") = .ok o ∧
      (∀ v ∈ o.variableDefinitions,
        firstOfTwo.variableValues.get? v.name = firstOfTwoValues.get? v.name) ∧
      reg.execute widget { firstOfTwo with variableValues := firstOfTwoValues } =
        reg.execute widget firstOfTwo ∧
      (reg.execute widget firstOfTwo).calls = [⟨"7", ["id"]⟩] := by
  obtain ⟨reg, hreg, hc⟩ := Registry.exists_compiled_builtin
  obtain ⟨d, o, hd, ho, htest⟩ := hc.exists_chosen firstOfTwo
    (fun d o => d.operations.length == 2 && o.variableDefinitions.all (·.name != "no"))
    (by decide +kernel)
  simp only [Bool.and_eq_true, List.all_eq_true, bne_iff_ne] at htest
  have hagree : ∀ v ∈ o.variableDefinitions,
      firstOfTwo.variableValues.get? v.name = firstOfTwoValues.get? v.name := by
    intro v hv
    rw [firstOfTwoValues, Json.Object.get?_cons, if_neg (htest.2 v hv)]
    rfl
  refine ⟨reg, d, o, hreg, hd, ho, hagree, ?_, ?_⟩
  · refine execute_eq_of_agree Registry.plainNames_builtin hreg widget firstOfTwo _ ?_
    intro d' o' hd' ho'
    obtain rfl := Except.ok.inj (hd.symm.trans hd')
    obtain rfl := Except.ok.inj (ho.symm.trans ho')
    exact hagree
  · rw [execute_eq hc]
    decide +kernel

end RecordGateway
