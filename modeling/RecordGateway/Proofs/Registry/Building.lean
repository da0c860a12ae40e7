import RecordGateway.Proofs.Registry

/-!
# Which descriptors build

A registry is built from any descriptors, whatever their names, or one of three errors names what is
wrong with them (`Registry.builds`). Names may be words that mean something elsewhere in a document,
such as `type` or `query`: the definitions are read back from the text that has been written.

What is left to show for the definitions is that nothing is wrong with them (`problems_of_free`).
-/

namespace RecordGateway.Registry

open GraphQL

/-! ## Descriptors by themselves -/

/-- The first name that occurred before is found. -/
theorem firstRepeated_append {n : String} : ∀ {before after seen : List String}, before.Nodup →
    (∀ m ∈ before, m ∉ seen) → n ∈ before ∨ n ∈ seen →
      firstRepeated seen (before ++ n :: after) = some n
  | [], after, seen, _, _, hn => by
    have hseen : n ∈ seen := hn.resolve_left List.not_mem_nil
    simp [firstRepeated, hseen]
  | m :: before, after, seen, hnodup, hnew, hn => by
    obtain ⟨hm, hnodup⟩ := List.nodup_cons.1 hnodup
    obtain ⟨hmseen, hnew⟩ := List.forall_mem_cons.1 hnew
    have hrest : firstRepeated (m :: seen) (before ++ n :: after) = some n := by
      refine firstRepeated_append hnodup (fun k hk => ?_) ?_
      · exact List.not_mem_cons_of_ne_of_not_mem (fun he => hm (he ▸ hk)) (hnew k hk)
      · rcases hn with hn | hn
        · rcases List.mem_cons.1 hn with rfl | hn
          · exact .inr List.mem_cons_self
          · exact .inl hn
        · exact .inr (List.mem_cons_of_mem _ hn)
    simpa [firstRepeated, hmseen] using hrest

/-! ## The definitions -/

/-- No name starts with two underscores. -/
structure OwnNames (e : EntityDescriptor) (r : RootDescriptor) : Prop where
  entity : Schema.isReservedName e.name = false
  fields : ∀ f ∈ e.fields, Schema.isReservedName f.name = false
  typeName : Schema.isReservedName r.typeName = false
  field : Schema.isReservedName r.field = false
  argument : Schema.isReservedName r.argument = false

section
variable {e : EntityDescriptor} {r : RootDescriptor}

theorem mem_fieldDefinitions {fs : List FieldDescriptor} {k : Nat} {f : FieldDefinition}
    (h : f ∈ fieldDefinitions k fs) : ∃ x ∈ fs, f.name = x.name ∧ f.arguments = [] := by
  induction fs generalizing k with
  | nil => cases h
  | cons x fs ih =>
    rcases List.mem_cons.1 h with rfl | h
    · exact ⟨x, List.mem_cons_self, rfl, rfl⟩
    · obtain ⟨y, hy, hf⟩ := ih h
      exact ⟨y, List.mem_cons_of_mem _ hy, hf⟩

open Schema in
theorem reservedNames_plainDrafts (h : OwnNames e r) :
    (plainDrafts e r).types.flatMap reservedNames = [] := by
  have hroot : reservedNames ⟨r.typeName, 7, .object [] [⟨9, r.field,
      [⟨11, r.argument, .named r.argumentKind.name false, none, []⟩],
      .named r.returns false, []⟩]⟩ = [] := by
    simp [reservedNames, h.typeName, h.field, h.argument]
  have hentity : reservedNames ⟨e.name, 19, .object [] (fieldDefinitions 21 e.fields)⟩ = [] := by
    simp only [reservedNames, h.entity, Bool.false_eq_true, ↓reduceIte, List.nil_append,
      List.flatMap_eq_nil_iff]
    intro f hf
    obtain ⟨x, hx, hname, harguments⟩ := mem_fieldDefinitions hf
    simp [hname, harguments, h.fields x hx]
  simp [plainDrafts, hroot, hentity]

open Schema in
/-- Nothing is wrong with definitions if nothing is wrong with what they come to, part by part. -/
theorem problems_eq_nil {ds : List Definition} {drafts : Drafts} {s : Schema}
    (hd : ds.foldl Drafts.add {} = drafts) (hs : (ofDefinitions ds).1 = s)
    (hp : drafts.problems = []) (hq : s.query.isSome)
    (hroots : rootProblems s [] drafts.roots = [])
    (hnames : drafts.types.flatMap reservedNames = [])
    (hrefs : ∀ p ∈ drafts.types.flatMap fun t => references t.body, (s.type? p.1).isSome) :
    (ofDefinitions ds).2 = [] := by
  subst hd hs
  simp only [ofDefinitions] at hq hroots hrefs ⊢
  have hquery : ¬ (rootFor .query (ds.foldl Drafts.add {}).roots).isNone = true := by
    rwa [Bool.not_eq_true, Option.isNone_eq_false_iff]
  rw [hp, hroots, hnames, if_neg hquery, List.filterMap_eq_nil_iff.2 fun p hp => if_neg (by
    rw [Bool.not_eq_true, Option.isNone_eq_false_iff]
    exact hrefs p hp)]
  exact List.mergeSort_nil

open Schema in
/-- Nothing is wrong with the definitions of a registry under free names of its own. -/
theorem problems_of_free (hr : r.returns = e.name) (hn : e.fieldNames.Nodup) (h : FreeNames e r)
    (ho : OwnNames e r) : (ofDefinitions (definitions e r)).2 = [] := by
  refine problems_eq_nil (drafts_of_free hn h) (schema_of_free hr hn h) rfl rfl ?_
    (reservedNames_plainDrafts ho) fun p hp => ?_
  · simp [plainDrafts, rootProblems, h.type?_typeName, rootShape]
  · rcases references_plainDrafts hr hp with hp | hp
    · simp [hp, h.type?_entity]
    · simp [hp, type?_string]

end

/-! ## What is built -/

/-- The registry has a schema with two types of its own, compiled from the text of the descriptors:
the query type with the one field, whose argument is a string and which returns the entity, and the
entity with the fields of its descriptor, in their order. -/
structure Declares (e : EntityDescriptor) (r : RootDescriptor) (reg : Registry) : Prop where
  entity : reg.entity = e
  root : reg.root = r
  sdl : reg.sdl = render e r
  compiled : compile reg.sdl = .ok reg.schema
  query : reg.schema.query = some r.typeName
  mutation : reg.schema.mutation = none
  subscription : reg.schema.subscription = none
  types : reg.schema.types =
    Builtin.types [] ++ [(r.typeName, rootShape r), (e.name, entityShape e)]
  directives : reg.schema.directives = Builtin.directives
  queryType : reg.schema.type? r.typeName = some (.object []
    [⟨r.field, [⟨r.argument, .named "String" false, false⟩], .named e.name false⟩])
  entityType : reg.schema.type? e.name = some (.object []
    (e.fieldNames.map fun n => ⟨n, [], .named "String" false⟩))
  /-- A name is found in the entity if and only if it is declared. -/
  finds : ∀ n, (reg.entity.field? n).isSome ↔ n ∈ e.fieldNames

/-- What is built from two descriptors. -/
structure Builds (e : EntityDescriptor) (r : RootDescriptor) : Prop where
  empty : e.fields = [] → ofDescriptors e r = .error (.emptyEntity e.name)
  /-- The earliest field that has the name of one before it is named. -/
  repeated : ∀ before f after, e.fieldNames = before ++ f :: after → before.Nodup → f ∈ before →
    ofDescriptors e r = .error (.duplicateField e.name f)
  unresolved : e.fields ≠ [] → e.fieldNames.Nodup → r.returns ≠ e.name →
    ofDescriptors e r = .error (.unresolvedType r.field r.returns)
  declares : e.fields ≠ [] → e.fieldNames.Nodup → r.returns = e.name → PlainNames e r →
    OwnNames e r → FreeNames e r → ∃ reg, ofDescriptors e r = .ok reg ∧ Declares e r reg

section
variable {e : EntityDescriptor} {r : RootDescriptor} {reg : Registry}

theorem isSome_field? (e : EntityDescriptor) (n : String) :
    (e.field? n).isSome ↔ n ∈ e.fieldNames := by
  simp [EntityDescriptor.field?, EntityDescriptor.fieldNames, List.find?_isSome]

theorem compile_of_ofDescriptors (h : ofDescriptors e r = .ok reg) :
    reg.sdl = render e r ∧ compile reg.sdl = .ok reg.schema := by
  unfold ofDescriptors at h
  split at h
  · cases h
  · split at h
    · cases h
      exact ⟨rfl, ‹_›⟩
    · cases h

theorem declares_of_ofDescriptors (hp : PlainNames e r) (h : ofDescriptors e r = .ok reg) :
    Declares e r reg := by
  have hc := compiled_of_ofDescriptors hp h
  obtain ⟨hsdl, hcompile⟩ := compile_of_ofDescriptors h
  exact {
    entity := hc.entity
    root := hc.root
    sdl := hsdl
    compiled := hcompile
    query := hc.schema ▸ rfl
    mutation := hc.schema ▸ rfl
    subscription := hc.schema ▸ rfl
    types := hc.schema ▸ rfl
    directives := hc.schema ▸ rfl
    queryType := by
      have hk : r.argumentKind.name = "String" := rfl
      rw [hc.schema, hc.free.type?_typeName, rootShape, hk, hc.returns]
    entityType := by
      rw [hc.schema, hc.free.type?_entity, entityShape, EntityDescriptor.fieldNames, List.map_map]
      rfl
    finds := hc.entity ▸ isSome_field? e }

end

/-- Every pair of descriptors builds a registry or names what is wrong. -/
theorem builds (e : EntityDescriptor) (r : RootDescriptor) : Builds e r where
  empty h := by simp [ofDescriptors, descriptorError?, h]
  repeated before f after heq hnodup hf := by
    have hne : e.fields ≠ [] := fun hnil => by
      simp [EntityDescriptor.fieldNames, hnil] at heq
    have hrep : firstRepeated [] e.fieldNames = some f := by
      rw [heq]
      exact firstRepeated_append hnodup (by simp) (.inl hf)
    simp [ofDescriptors, descriptorError?, hne, hrep]
  unresolved hne hn hr := by
    have hrep : firstRepeated [] e.fieldNames = none := firstRepeated_eq_none.2 ⟨hn, by simp⟩
    simp [ofDescriptors, descriptorError?, hne, hrep, hr]
  declares hne hn hr hp ho hfree := by
    obtain ⟨reg, hreg⟩ := exists_ofDescriptors hp (descriptorError?_eq_none.2 ⟨hne, hn, hr⟩)
      (problems_of_free hr hn hfree ho)
    exact ⟨reg, hreg, declares_of_ofDescriptors hp hreg⟩

/-- An entity whose names are words of definitions and of documents. -/
def wordEntity : EntityDescriptor :=
  ⟨"type", [⟨"query", .string⟩, ⟨"on", .string⟩, ⟨"true", .string⟩]⟩

/-- A query field with such names. -/
def wordRoot : RootDescriptor := ⟨"schema", "fragment", "null", .string, "type"⟩

theorem builds_words : ∃ reg, ofDescriptors wordEntity wordRoot = .ok reg ∧
    Declares wordEntity wordRoot reg :=
  (builds wordEntity wordRoot).declares (by decide) (by decide) rfl
    ⟨by decide, by decide, by decide, by decide, by decide⟩
    ⟨by decide, by decide, by decide, by decide, by decide⟩
    ⟨by decide, by decide, by decide⟩

end RecordGateway.Registry
