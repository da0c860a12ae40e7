import RecordGateway.Proofs.Execution.Settled
import RecordGateway.Proofs.Registry

/-!
# The call of a request

For plain names the call of a request is determined by the expanded root selection set and the
values of its variables (`call_determined`): the mask puts together what is selected right under the
root fields that no condition excludes, and the id comes from the argument of the first of them
(`IdFrom`). What gets into the mask are names of fields of the entity, and `__typename`
(`path_declared`).
-/

namespace RecordGateway

open GraphQL

/-! ## Values in their positions -/

/-- Where a value of a builtin scalar type is expected, there is a literal of it, or a variable that
is defined. -/
theorem GraphQL.Value.literal_or_variable {s : Schema} {vars : List VariableDefinition} {m : Name}
    {nonNull : Bool} (hm : s.type? m = some (.scalar true)) : ∀ {v : Value},
      v.misfits s vars (.named m nonNull) = [] →
        (∃ i l, v = .literal i l ∧
          literalMisfits (.named m nonNull) (.scalar true) i l = []) ∨
        ∃ i n d, v = .variable i n ∧ findVariable vars n = some d
  | .literal i l, h => by
    simp only [misfits, TypeRef.innermost, hm] at h
    exact .inl ⟨i, l, rfl, h⟩
  | .variable i n, h => by
    simp only [misfits, TypeRef.innermost, hm] at h
    cases hd : findVariable vars n with
    | none => simp [variableMisfits, TypeShape.isInput, hd] at h
    | some d => exact .inr ⟨i, n, d, rfl, hd⟩
  | .list i vs, h => by
    simp [misfits, TypeRef.innermost, hm, TypeRef.isList, misfit] at h
  | .object i fs, h => by
    simp [misfits, TypeRef.innermost, hm, misfit] at h

section
variable {e : EntityDescriptor} {r : RootDescriptor}

/-- Where a string or null is expected, there is one, or a variable that is defined. -/
theorem value_of_misfits {vars : List VariableDefinition} {nonNull : Bool} {v : Value}
    (h : v.misfits (Registry.plainSchema e r) vars (.named "String" nonNull) = []) :
    (∃ i t, v = .literal i (.string t)) ∨ (∃ i, v = .literal i .null) ∨
      ∃ i n d, v = .variable i n ∧ findVariable vars n = some d := by
  obtain ⟨i, l, rfl, hl⟩ | hv := Value.literal_or_variable Registry.type?_string h
  · cases l with
    | string t => exact .inl ⟨i, t, rfl⟩
    | null => exact .inr (.inl ⟨i, rfl⟩)
    | _ => simp [Value.literalMisfits, TypeRef.innermost, Value.misfit] at hl
  · exact .inr (.inr hv)

theorem typeFaults_of_faults {s : Schema} : ∀ {vs : List VariableDefinition} {seen : List Name},
    VariableDefinition.faults s seen vs = [] → ∀ v ∈ vs, v.typeFaults s = []
  | [], _, _, v, hv => by cases hv
  | w :: vs, seen, h, v, hv => by
    simp only [VariableDefinition.faults, List.append_eq_nil_iff] at h
    obtain ⟨⟨⟨-, hw⟩, -⟩, hvs⟩ := h
    rcases List.mem_cons.1 hv with rfl | hv
    · exact hw
    · exact typeFaults_of_faults hvs v hv

/-- The default of a variable for strings is a string or null. -/
theorem default_of_typeFaults {v : VariableDefinition} {nonNull : Bool}
    (ht : v.type = .named "String" nonNull)
    (h : v.typeFaults (Registry.plainSchema e r) = []) :
    v.default = none ∨ (∃ i t, v.default = some (.literal i (.string t))) ∨
      ∃ i, v.default = some (.literal i .null) := by
  cases hd : v.default with
  | none => exact .inl rfl
  | some d =>
    have hm : d.misfits (Registry.plainSchema e r) [] (.named "String" nonNull) = [] := by
      simpa [VariableDefinition.typeFaults, ht, TypeRef.innermost, Registry.type?_string,
        TypeShape.isInput, hd] using h
    obtain ⟨i, t, rfl⟩ | ⟨i, rfl⟩ | ⟨i, n, d, -, hn⟩ := value_of_misfits hm
    · exact .inr (.inl ⟨i, t, rfl⟩)
    · exact .inr (.inr ⟨i, rfl⟩)
    · cases hn

/-- A variable that may stand where a value of a named type is expected has that type. -/
theorem type_of_usable {v : VariableDefinition} {expected : ArgumentType} {m : Name} {b : Bool}
    (he : expected.type = .named m b) (h : v.usable expected = true) :
    ∃ nonNull, v.type = .named m nonNull := by
  have ha : ∃ c, v.type.assignable (.named m c) = true := by
    unfold VariableDefinition.usable at h
    rw [he] at h
    split at h
    · exact ⟨false, (Bool.and_eq_true_iff.1 h).2⟩
    · exact ⟨b, h⟩
  obtain ⟨c, ha⟩ := ha
  cases ht : v.type with
  | named n nonNull =>
    rw [ht] at ha
    simp only [TypeRef.assignable, Bool.and_eq_true, beq_iff_eq] at ha
    exact ⟨nonNull, by rw [ha.1]⟩
  | list t b =>
    rw [ht] at ha
    cases ha

end

/-! ## Ids -/

/-- Where the id comes from: the argument is a string, or null, or a variable that the request gives
as a string or as null, or that has a default or none; or there is no argument. -/
inductive IdFrom (b : Bindings) (argument : Name) (as : List Argument) : String → Prop
  | literal {a : Argument} {i : Nat} {t : String} (ha : as.find? (·.name == argument) = some a)
    (hv : a.value = .literal i (.string t)) : IdFrom b argument as t
  | null {a : Argument} {i : Nat} (ha : as.find? (·.name == argument) = some a)
    (hv : a.value = .literal i .null) : IdFrom b argument as ""
  | given {a : Argument} {i : Nat} {n : Name} {t : String}
    (ha : as.find? (·.name == argument) = some a) (hv : a.value = .variable i n)
    (hb : b.value? n = some (.string t)) : IdFrom b argument as t
  | givenNull {a : Argument} {i : Nat} {n : Name} (ha : as.find? (·.name == argument) = some a)
    (hv : a.value = .variable i n) (hb : b.value? n = some .null) : IdFrom b argument as ""
  | default {a : Argument} {i j : Nat} {n : Name} {t : String}
    (ha : as.find? (·.name == argument) = some a) (hv : a.value = .variable i n)
    (hb : b.value? n = none) (hd : b.default? n = some (.literal j (.string t))) :
    IdFrom b argument as t
  | noDefault {a : Argument} {i : Nat} {n : Name} (ha : as.find? (·.name == argument) = some a)
    (hv : a.value = .variable i n) (hb : b.value? n = none)
    (hd : b.default? n = none ∨ ∃ j, b.default? n = some (.literal j .null)) :
    IdFrom b argument as ""
  | absent (ha : as.find? (·.name == argument) = none) : IdFrom b argument as ""

theorem IdFrom.argument_eq {b : Bindings} {argument : Name} {as : List Argument} {t : String}
    (h : IdFrom b argument as t) : b.argument as argument = .ok t := by
  cases h with
  | literal ha hv => simp [Bindings.argument, ha, hv, Bindings.text]
  | null ha hv => simp [Bindings.argument, ha, hv, Bindings.text]
  | given ha hv hb => simp [Bindings.argument, ha, hv, Bindings.text, hb]
  | givenNull ha hv hb => simp [Bindings.argument, ha, hv, Bindings.text, hb]
  | default ha hv hb hd => simp [Bindings.argument, ha, hv, Bindings.text, hb, hd]
  | noDefault ha hv hb hd =>
    rcases hd with hd | ⟨j, hd⟩ <;> simp [Bindings.argument, ha, hv, Bindings.text, hb, hd]
  | absent ha => simp [Bindings.argument, ha]

/-- Where the text of a value comes from that stands where a string or null is expected: a literal,
or a variable that the request gives, or that has a string or null as its default, or none. -/
inductive TextFrom (b : Bindings) : Value → Prop
  | literal {i : Nat} {t : String} : TextFrom b (.literal i (.string t))
  | null {i : Nat} : TextFrom b (.literal i .null)
  | given {i : Nat} {n : Name} {j : Json} (hb : b.value? n = some j) : TextFrom b (.variable i n)
  | default {i j : Nat} {n : Name} {t : String} (hb : b.value? n = none)
    (hd : b.default? n = some (.literal j (.string t))) : TextFrom b (.variable i n)
  | noDefault {i : Nat} {n : Name} (hb : b.value? n = none)
    (hd : b.default? n = none ∨ ∃ j, b.default? n = some (.literal j .null)) :
    TextFrom b (.variable i n)

/-- If there is a text, the id comes from where it does. -/
theorem TextFrom.idFrom {b : Bindings} {argument : Name} {as : List Argument} {a : Argument}
    {id : String} (h : TextFrom b a.value) (ha : as.find? (·.name == argument) = some a)
    (hid : b.text a.value = .ok id) : IdFrom b argument as id := by
  generalize hv : a.value = v at h hid
  cases h with
  | literal =>
    cases hid
    exact .literal ha hv
  | null =>
    cases hid
    exact .null ha hv
  | @given i n j hb =>
    simp only [Bindings.text, hb] at hid
    cases j with
    | string t =>
      cases hid
      exact .given ha hv hb
    | null =>
      cases hid
      exact .givenNull ha hv hb
    | _ => cases hid
  | default hb hd =>
    simp only [Bindings.text, hb, hd] at hid
    cases hid
    exact .default ha hv hb hd
  | noDefault hb hd =>
    have hempty : "" = id := by
      rcases hd with hd | ⟨j, hd⟩ <;> simpa [Bindings.text, hb, hd] using hid
    exact hempty ▸ .noDefault ha hv hb hd

/-! ## Root fields -/

section
variable {e : EntityDescriptor} {r : RootDescriptor} {reg : Registry} {d : Document} {o : Operation}
  {reached : List Name}

/-- The type of the query field. -/
def rootFieldType (e : EntityDescriptor) (r : RootDescriptor) : FieldType :=
  ⟨r.field, [⟨r.argument, .named "String" false, false⟩], .named e.name false⟩

/-- What one comes to from a query is selected on the root type. -/
theorem type_of_walk (hk : o.kind = .query)
    (hv : o.Vetted (Registry.plainSchema e r) d reached) {p : Name} {x : Selection}
    (w : Walk d (o.root (Registry.plainSchema e r)) o.selections p x) : p = r.typeName := by
  have hroot : o.root (Registry.plainSchema e r) = r.typeName := by
    rw [Operation.root, hk]
    rfl
  exact (hv.walk_type (fun _ _ => Registry.eq_of_overlap) w hv.top).trans hroot

/-- The arguments of a root field that one comes to fit, and the selections on its value are sound
on the entity. -/
theorem rootField_sound (hc : reg.Compiled e r) (hk : o.kind = .query)
    (hv : o.Vetted (Registry.plainSchema e r) d reached) {p : Name} {f : Field}
    {body : List Selection}
    (w : Walk d (o.root (Registry.plainSchema e r)) o.selections p (.field f body))
    (hf : f.name = r.field) :
    f.argumentMisfits (Registry.plainSchema e r) o.variableDefinitions p (rootFieldType e r) = [] ∧
      Selection.Sound (Registry.plainSchema e r) d o.variableDefinitions reached e.name body := by
  obtain rfl := type_of_walk hk hv w
  have hs := hv.walk_top w
  have hft : (Registry.plainSchema e r).field? r.typeName f.name = some (rootFieldType e r) := by
    rw [hf]
    exact hc.field?_root
  obtain ⟨t, ht, hbody⟩ := hs.field
  have ht : e.name = t := by
    simpa [Schema.fieldTypeName?, hft, rootFieldType, TypeRef.innermost] using ht
  refine ⟨?_, ht ▸ hbody⟩
  have hfaults := hs.faults_eq
  simp only [Selection.faults, Field.faults, hft, List.append_eq_nil_iff] at hfaults
  exact hfaults.1.2.1

/-- What is selected right under a root field is declared, or `__typename`. -/
theorem fieldNames_of_sound (hc : reg.Compiled e r) {vars : List VariableDefinition} :
    ∀ {body : List Selection},
      Selection.Sound (Registry.plainSchema e r) d vars reached e.name body →
        ∀ n ∈ Selection.fieldNames body, n ∈ e.fieldNames ∨ n = "__typename" := by
  intro body h n hn
  obtain ⟨x, hx, hxn⟩ := List.mem_filterMap.1 hn
  cases x with
  | field g inner =>
    cases hxn
    obtain ⟨t, ht, -⟩ := (h.of_mem hx).field
    obtain ⟨ft, hft, -⟩ := Option.map_eq_some_iff.1 ht
    exact hc.field?_entity hft
  | _ => cases hxn

/-- The definitions of the variables of an accepted document are in order. -/
theorem typeFaults_of_accepted {s : Schema} (ha : d.Accepted s) (ho : o ∈ d.operations)
    {n : Name} {v : VariableDefinition} (hv : findVariable o.variableDefinitions n = some v) :
    v.typeFaults s = [] := by
  have hfaults := ha.operation_faults ho
  simp only [Operation.faults, List.append_eq_nil_iff] at hfaults
  obtain ⟨⟨⟨⟨-, hvars⟩, -⟩, -⟩, -⟩ := hfaults
  exact typeFaults_of_faults hvars v (List.mem_of_find?_eq_some hv)

theorem Bindings.default?_of_findVariable {b : Bindings} {n : Name} {v : VariableDefinition}
    (hv : findVariable b.definitions n = some v) : b.default? n = v.default := by
  simp only [findVariable] at hv
  simp [Bindings.default?, hv]

/-- A variable for strings is given, or has a string or null as its default, or none. -/
theorem textFrom_of_variable (ha : Document.Accepted (Registry.plainSchema e r) d)
    (ho : o ∈ d.operations) {values : Json.Object} {i : Nat} {n : Name} {v : VariableDefinition}
    {nonNull : Bool} (hv : findVariable o.variableDefinitions n = some v)
    (ht : v.type = .named "String" nonNull) :
    TextFrom ⟨o.variableDefinitions, values⟩ (.variable i n) := by
  have hdefault : Bindings.default? ⟨o.variableDefinitions, values⟩ n = v.default :=
    Bindings.default?_of_findVariable hv
  cases hb : Bindings.value? ⟨o.variableDefinitions, values⟩ n with
  | some j => exact .given hb
  | none =>
    obtain hd | ⟨j, t, hd⟩ | ⟨j, hd⟩ :=
      default_of_typeFaults ht (typeFaults_of_accepted ha ho hv)
    · exact .noDefault hb (.inl (hdefault.trans hd))
    · exact .default hb (hdefault.trans hd)
    · exact .noDefault hb (.inr ⟨j, hdefault.trans hd⟩)

/-- The argument of a root field is a string, or null, or a variable for strings. -/
theorem value_of_argumentMisfits {vars : List VariableDefinition} {p : Name} {f : Field}
    (hargs : f.argumentMisfits (Registry.plainSchema e r) vars p (rootFieldType e r) = [])
    {a : Argument} (hfind : f.arguments.find? (·.name == r.argument) = some a) :
    (∃ i t, a.value = .literal i (.string t)) ∨ (∃ i, a.value = .literal i .null) ∨
      ∃ i n v nonNull, a.value = .variable i n ∧ findVariable vars n = some v ∧
        v.type = .named "String" nonNull := by
  have hname : a.name = r.argument := by simpa using List.find?_some hfind
  have hmisfits := List.flatMap_eq_nil_iff.1 (List.append_eq_nil_iff.1 hargs).1 a
    (List.mem_of_find?_eq_some hfind)
  simp only [Argument.misfits, rootFieldType, hname, List.find?_cons_of_pos, beq_self_eq_true]
    at hmisfits
  cases hmis : a.misuse? vars ⟨r.argument, .named "String" false, false⟩ with
  | some x => simp [hmis] at hmisfits
  | none =>
    rw [hmis] at hmisfits
    obtain hval | hval | ⟨i, n, v, hval, hvar⟩ := value_of_misfits hmisfits
    · exact .inl hval
    · exact .inr (.inl hval)
    · have husable : v.usable ⟨r.argument, .named "String" false, false⟩ = true := by
        simpa [Argument.misuse?, hval, hvar] using hmis
      obtain ⟨nonNull, ht⟩ := type_of_usable rfl husable
      exact .inr (.inr ⟨i, n, v, nonNull, hval, hvar, ht⟩)

/-- The text of the argument of a root field comes from where it should. -/
theorem textFrom_of_walk (hc : reg.Compiled e r) (hk : o.kind = .query)
    (ha : Document.Accepted (Registry.plainSchema e r) d) (ho : o ∈ d.operations)
    (hv : o.Vetted (Registry.plainSchema e r) d reached) {p : Name} {f : Field}
    {body : List Selection}
    (w : Walk d (o.root (Registry.plainSchema e r)) o.selections p (.field f body))
    (hf : f.name = r.field) {values : Json.Object} {a : Argument}
    (hfind : f.arguments.find? (·.name == r.argument) = some a) :
    TextFrom ⟨o.variableDefinitions, values⟩ a.value := by
  obtain ⟨i, t, hval⟩ | ⟨i, hval⟩ | ⟨i, n, v, nonNull, hval, hvar, ht⟩ :=
    value_of_argumentMisfits (rootField_sound hc hk hv w hf).1 hfind
  · exact hval ▸ .literal
  · exact hval ▸ .null
  · exact hval ▸ textFrom_of_variable ha ho hvar ht

/-- The id of a root field comes from where it should. -/
theorem idFrom_of_argument (hc : reg.Compiled e r) (hk : o.kind = .query)
    (ha : Document.Accepted (Registry.plainSchema e r) d) (ho : o ∈ d.operations)
    (hv : o.Vetted (Registry.plainSchema e r) d reached) {p : Name} {f : Field}
    {body : List Selection}
    (w : Walk d (o.root (Registry.plainSchema e r)) o.selections p (.field f body))
    (hf : f.name = r.field) {values : Json.Object} {id : String}
    (hid : Bindings.argument ⟨o.variableDefinitions, values⟩ f.arguments r.argument = .ok id) :
    IdFrom ⟨o.variableDefinitions, values⟩ r.argument f.arguments id := by
  cases hfind : f.arguments.find? (·.name == r.argument) with
  | none =>
    simp only [Bindings.argument, hfind, Except.ok.injEq] at hid
    exact hid ▸ .absent hfind
  | some a =>
    simp only [Bindings.argument, hfind] at hid
    exact (textFrom_of_walk hc hk ha ho hv w hf hfind).idFrom hfind hid

/-- Every root field that is found was come to. -/
theorem walk_of_mem_roots {b : Bindings} {ss ts : List Selection} (h : Expands d ss ts)
    {rootField parent : Name} {f : RootField} (hf : f ∈ b.roots (stations rootField [] ts)) :
    f.head.name = rootField ∧ ∃ p, Walk d parent ss p (.field f.head f.body) := by
  obtain ⟨t, ht, hfield⟩ := List.mem_filterMap.1 hf
  split at hfield
  · cases hfield
  · exact (within_of_mem_stations h parent ht).field f hfield

end

/-! ## The call -/

/-- The call is the one for the root fields `f` and `fs`: in the one expansion of the selections,
they are those that no directive on them or around them excludes. Where all conditions can be told,
the order of directives does not matter. -/
structure Request.Determines (q : Request) (r : RootDescriptor) (d : Document) (o : Operation)
    (ts : List Selection) (f : RootField) (fs : List RootField) (call : Fetch) : Prop where
  expansion : ∀ us, Expands d o.selections us ↔ us = ts
  roots : (q.bindings o).roots (stations r.field [] ts) = f :: fs
  paths : call.paths = (f :: fs).flatMap fun f => Selection.fieldNames f.body
  id : ∀ t, IdFrom (q.bindings o) r.argument f.head.arguments t ↔ t = call.id
  order : ∀ gs hs : List Directive, gs.Perm hs → (∀ g ∈ gs, ∃ k, (q.bindings o).kept g = .ok k) →
    (q.bindings o).included gs = (q.bindings o).included hs

/-- The call of a request with plain names is determined. -/
theorem call_determined {e : EntityDescriptor} {r : RootDescriptor} {reg : Registry}
    (hp : PlainNames e r) (hreg : Registry.ofDescriptors e r = .ok reg) {source : DataSource}
    {q : Request} {d : Document} {o : Operation} (hd : Document.read reg.schema q.query = .ok d)
    (ho : d.choose q.operationName = .ok o) (hcalls : (reg.execute source q).calls ≠ []) :
    ∃ ts f fs call, q.Determines r d o ts f fs call ∧ (reg.execute source q).calls = [call] := by
  have hc := Registry.compiled_of_ofDescriptors hp hreg
  obtain ⟨d', o', ts, f, fs, call, hf, -, hcall, hlist⟩ := finds_of_calls hcalls
  obtain rfl : d = d' := Except.ok.inj (hd.symm.trans hf.read)
  obtain rfl : o = o' := Except.ok.inj (ho.symm.trans hf.chosen)
  have hacc := hc.schema ▸ Document.accepted_of_read hf.read
  have hmem := hf.picks.mem
  obtain ⟨reached, hv⟩ := Operation.vetted_of_accepted hacc hmem
  have hroots := hf.roots
  rw [hc.root] at hroots
  refine ⟨ts, f, fs, call, ⟨fun us => ⟨fun h => h.det hf.expands, fun h => h ▸ hf.expands⟩,
    hroots.symm, hcall.paths, fun t => ⟨fun ht => ?_, fun ht => ?_⟩,
    fun _ _ => Bindings.included_perm⟩, hlist⟩
  · have hid := hcall.id f rfl
    rw [hc.root] at hid
    exact Except.ok.inj (ht.argument_eq.symm.trans hid)
  · have hid := hcall.id f rfl
    rw [hc.root] at hid
    obtain ⟨hn, p, w⟩ := walk_of_mem_roots hf.expands (hroots ▸ List.mem_cons_self)
    exact ht ▸ idFrom_of_argument hc hf.query hacc hmem hv w hn hid

/-- Answers a request as the registry for some names does, by the bytes of its text. -/
def executeBytes (e : EntityDescriptor) (r : RootDescriptor) (source : DataSource) (q : Request) :
    Execution :=
  match Document.readBytes (Registry.plainSchema e r) q.query with
  | .error err => carryOut source (.error (.validation err.messages))
  | .ok d => executeDocument r source d q.operationName q.variableValues

/-- The text that a registry was compiled from has no part in what it answers. -/
theorem execute_eq {e : EntityDescriptor} {r : RootDescriptor} {reg : Registry}
    (h : reg.Compiled e r) (source : DataSource) (q : Request) :
    reg.execute source q = executeBytes e r source q := by
  unfold executeBytes
  rw [Document.readBytes_eq, ← h.schema, ← h.root]
  rfl

/-- A request whose document is in order is answered by it. -/
theorem execute_of_read {reg : Registry} {source : DataSource} {text : String} {d : Document}
    (h : Document.read reg.schema text = .ok d) (name : Option String) (values : Json.Object) :
    reg.execute source ⟨text, name, values⟩ = executeDocument reg.root source d name values := by
  rw [Registry.execute, h]

/-- A test of the document that a request is read as, and of the operation that it chooses. -/
theorem Registry.Compiled.exists_chosen {e : EntityDescriptor} {r : RootDescriptor}
    {reg : Registry} (h : reg.Compiled e r) (q : Request) (test : Document → Operation → Bool)
    (ht : (Document.readBytes (Registry.plainSchema e r) q.query).toOption.any
      (fun d => (d.choose q.operationName).toOption.any (test d)) = true) :
    ∃ d o, Document.read reg.schema q.query = .ok d ∧ d.choose q.operationName = .ok o ∧
      test d o = true := by
  rw [Document.readBytes_eq] at ht
  obtain ⟨d, hd, ht⟩ := Registry.exists_ok_of_test _ _ ht
  obtain ⟨o, ho, ht⟩ := Registry.exists_ok_of_test _ _ ht
  exact ⟨d, o, h.schema ▸ hd, ho, ht⟩

/-- A fragment that is spread twice, once where it is skipped. -/
def skippedOnce : Request where
  query := "query($id: String = \"7\", $no: Boolean!) \x7b getData(id: $id) \x7b name \x7d " ++
    "...F @skip(if: $no) ...F \x7d " ++
    "fragment F on RootQuery \x7b getData(id: $id) \x7b id name \x7d \x7d"
  variableValues := [("no", .bool true)]

def widget : DataSource := fun f => .ok ⟨f.id, "Widget", ""⟩

theorem call_determined_skippedOnce : ∃ reg d o,
    Registry.ofDescriptors dataEntity getData = .ok reg ∧
      Document.read reg.schema skippedOnce.query = .ok d ∧ d.choose none = .ok o ∧
      (reg.execute widget skippedOnce).calls = [⟨"7", ["name", "id", "name"]⟩] ∧
      ∃ ts f fs call, skippedOnce.Determines getData d o ts f fs call ∧
        (reg.execute widget skippedOnce).calls = [call] := by
  obtain ⟨reg, hreg, hc⟩ := Registry.exists_compiled_builtin
  obtain ⟨d, o, hd, ho, -⟩ := hc.exists_chosen skippedOnce (fun _ _ => true) (by decide +kernel)
  have hcalls : (reg.execute widget skippedOnce).calls = [⟨"7", ["name", "id", "name"]⟩] := by
    rw [execute_eq hc]
    decide +kernel
  exact ⟨reg, d, o, hreg, hd, ho, hcalls, call_determined Registry.plainNames_builtin hreg hd ho
    (hcalls ▸ List.cons_ne_nil _ _)⟩

/-- Only names of the entity's fields and `__typename` get into the mask of a call. -/
theorem path_declared {e : EntityDescriptor} {r : RootDescriptor} {reg : Registry}
    (hp : PlainNames e r) (hreg : Registry.ofDescriptors e r = .ok reg) {source : DataSource}
    {q : Request} {call : Fetch} (hcall : call ∈ (reg.execute source q).calls) {path : String}
    (hpath : path ∈ call.paths) : path ∈ e.fieldNames ∨ path = "__typename" := by
  have hc := Registry.compiled_of_ofDescriptors hp hreg
  obtain ⟨d, o, ts, f, fs, call', hf, -, hcall', hlist⟩ := finds_of_calls (List.ne_nil_of_mem hcall)
  obtain rfl : call = call' := by simpa [hlist] using hcall
  have hacc := hc.schema ▸ Document.accepted_of_read hf.read
  obtain ⟨reached, hv⟩ := Operation.vetted_of_accepted hacc hf.picks.mem
  rw [hcall'.paths] at hpath
  obtain ⟨g, hg, hpath⟩ := List.mem_flatMap.1 hpath
  have hroots := hf.roots
  rw [hc.root] at hroots
  obtain ⟨hn, p, w⟩ := walk_of_mem_roots hf.expands (hroots ▸ hg)
  exact fieldNames_of_sound hc (rootField_sound hc hf.query hv w hn).2 path hpath

/-- The field that every object type has is not declared, and goes into the mask. -/
def typenameOnly : Request where
  query := "\x7b getData(id: \"1\") \x7b __typename id \x7d \x7d"

theorem calls_typenameOnly {reg : Registry} (hc : reg.Compiled dataEntity getData) :
    (reg.execute widget typenameOnly).calls = [⟨"1", ["__typename", "id"]⟩] := by
  rw [execute_eq hc]
  decide +kernel

theorem path_declared_typenameOnly : ∃ reg call path,
    Registry.ofDescriptors dataEntity getData = .ok reg ∧
      call ∈ (reg.execute widget typenameOnly).calls ∧ path ∈ call.paths ∧
      (path ∈ dataEntity.fieldNames ∨ path = "__typename") := by
  obtain ⟨reg, hreg⟩ := Registry.exists_builtin
  have hc := Registry.compiled_of_ofDescriptors Registry.plainNames_builtin hreg
  have hcall : ⟨"1", ["__typename", "id"]⟩ ∈ (reg.execute widget typenameOnly).calls := by
    rw [calls_typenameOnly hc]
    exact List.mem_singleton_self _
  have hpath : "id" ∈ ["__typename", "id"] := by decide
  exact ⟨reg, _, "id", hreg, hcall, hpath,
    path_declared Registry.plainNames_builtin hreg hcall hpath⟩

/-- It is not so that only declared names get into a mask. -/
theorem not_path_mem_fieldNames : ¬ ∀ (e : EntityDescriptor) (r : RootDescriptor) (reg : Registry),
    PlainNames e r → Registry.ofDescriptors e r = .ok reg → ∀ (source : DataSource) (q : Request),
      ∀ call ∈ (reg.execute source q).calls, ∀ path ∈ call.paths, path ∈ e.fieldNames := by
  intro h
  obtain ⟨reg, hreg⟩ := Registry.exists_builtin
  have hc := Registry.compiled_of_ofDescriptors Registry.plainNames_builtin hreg
  have hcall : ⟨"1", ["__typename", "id"]⟩ ∈ (reg.execute widget typenameOnly).calls := by
    rw [calls_typenameOnly hc]
    exact List.mem_singleton_self _
  have := h dataEntity getData reg Registry.plainNames_builtin hreg widget typenameOnly _ hcall
    "__typename" (by decide)
  exact absurd this (by decide)

end RecordGateway
