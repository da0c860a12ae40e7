import RecordGateway.Registry
import RecordGateway.Proofs.GraphQL.Lexing
import RecordGateway.Proofs.GraphQL.Parsing

/-!
# Registries with plain names

Names are put into the definitions of a registry as they are. For plain names (`PlainNames`) the
definitions read as the three that are meant (`parseDefinitions_render`).
-/

namespace RecordGateway

open GraphQL

/-- All the names of the descriptors are names that GraphQL has. -/
structure PlainNames (e : EntityDescriptor) (r : RootDescriptor) : Prop where
  entity : isPlainName e.name = true
  fields : ∀ f ∈ e.fields, isPlainName f.name = true
  typeName : isPlainName r.typeName = true
  field : isPlainName r.field = true
  argument : isPlainName r.argument = true

namespace Registry

/-! ## The text -/

def fieldPieces (f : FieldDescriptor) : List Piece :=
  [.mark ' ', .mark ' ', .name f.name, .mark ':', .mark ' ', .name f.kind.name, .mark '\n']

/-- The definitions of a registry, cut into names and marks. -/
def pieces (e : EntityDescriptor) (r : RootDescriptor) : List Piece :=
  [.name "schema", .mark ' ', .mark '\x7b', .mark ' ', .name "query", .mark ':', .mark ' ',
    .name r.typeName, .mark ' ', .mark '\x7d', .mark '\n', .mark '\n',
    .name "type", .mark ' ', .name r.typeName, .mark ' ', .mark '\x7b', .mark '\n', .mark ' ',
    .mark ' ', .name r.field, .mark '(', .name r.argument, .mark ':', .mark ' ',
    .name r.argumentKind.name, .mark ')', .mark ':', .mark ' ', .name r.returns, .mark '\n',
    .mark '\x7d', .mark '\n', .mark '\n',
    .name "type", .mark ' ', .name e.name, .mark ' ', .mark '\x7b', .mark '\n'] ++
    (e.fields.flatMap fieldPieces ++ [.mark '\x7d', .mark '\n'])

theorem toList_renderField (f : FieldDescriptor) :
    (renderField f).toList = (fieldPieces f).flatMap Piece.chars := by
  simp only [renderField, String.toList_append, fieldPieces, Piece.chars, List.flatMap_cons,
    List.flatMap_nil]
  simp

theorem toList_render (e : EntityDescriptor) (r : RootDescriptor) :
    (render e r).toList = (pieces e r).flatMap Piece.chars := by
  have hfields : (e.fields.map renderField).flatMap String.toList =
      (e.fields.flatMap fieldPieces).flatMap Piece.chars := by
    rw [List.flatMap_map, List.flatMap_assoc]
    exact congrArg (e.fields.flatMap ·) (funext toList_renderField)
  unfold render
  simp only [String.toList_append, String.toList_join, hfields, pieces, List.flatMap_append,
    List.flatMap_cons, List.flatMap_nil, Piece.chars]
  -- letters of the words between names
  simp only [String.reduceToList, List.append_assoc, List.cons_append, List.nil_append,
    List.append_nil]

theorem isPlainName_kind (k : ScalarKind) : isPlainName k.name = true := by
  cases k
  decide

theorem fine_fieldPieces : ∀ {fs : List FieldDescriptor} {ps : List Piece},
    (∀ f ∈ fs, isPlainName f.name = true) → Piece.Fine ps →
      Piece.Fine (fs.flatMap fieldPieces ++ ps)
  | [], _, _, hps => hps
  | f :: fs, ps, hf, hps => by
    obtain ⟨hn, hfs⟩ := List.forall_mem_cons.1 hf
    have ih := fine_fieldPieces hfs hps
    have hmark : isMark ' ' = true ∧ isMark ':' = true ∧ isMark '\n' = true := by decide
    simp only [List.flatMap_cons, fieldPieces, List.cons_append, List.nil_append, Piece.Fine, hmark,
      hn, isPlainName_kind, ih, and_self]

theorem fine_pieces {e : EntityDescriptor} {r : RootDescriptor} (h : PlainNames e r)
    (hr : r.returns = e.name) : Piece.Fine (pieces e r) := by
  have hend : Piece.Fine [.mark '\x7d', .mark '\n'] := by
    simp only [Piece.Fine]
    decide
  have hfields := fine_fieldPieces h.fields hend
  have hword : isPlainName "schema" = true ∧ isPlainName "query" = true ∧
      isPlainName "type" = true := by decide
  have hmark : isMark ' ' = true ∧ isMark ':' = true ∧ isMark '\n' = true ∧ isMark '\x7b' = true ∧
      isMark '\x7d' = true ∧ isMark '(' = true ∧ isMark ')' = true := by decide
  simp only [pieces, List.cons_append, List.nil_append, Piece.Fine, hr, h.entity, h.typeName,
    h.field, h.argument, hword, hmark, isPlainName_kind, hfields, and_self]

def fieldTokens (f : FieldDescriptor) : List Token :=
  [.name f.name, .punctuator .colon, .name f.kind.name]

/-- The tokens of the definitions of a registry. -/
def tokens (e : EntityDescriptor) (r : RootDescriptor) : List Token :=
  [.name "schema", .punctuator .braceL, .name "query", .punctuator .colon, .name r.typeName,
    .punctuator .braceR, .name "type", .name r.typeName, .punctuator .braceL, .name r.field,
    .punctuator .parenL, .name r.argument, .punctuator .colon, .name r.argumentKind.name,
    .punctuator .parenR, .punctuator .colon, .name r.returns, .punctuator .braceR,
    .name "type", .name e.name, .punctuator .braceL] ++
    (e.fields.flatMap fieldTokens ++ [.punctuator .braceR])

theorem tokens_pieces (e : EntityDescriptor) (r : RootDescriptor) :
    (pieces e r).filterMap Piece.token? = tokens e r := by
  have hfields : (e.fields.flatMap fieldPieces).filterMap Piece.token? =
      e.fields.flatMap fieldTokens := by
    rw [List.filterMap_flatMap]
    rfl
  rw [pieces, List.filterMap_append, List.filterMap_append, hfields]
  rfl

/-! ## The definitions -/

/-- The definitions of the fields of an entity, the first one at the place `k`. -/
def fieldDefinitions (k : Nat) : List FieldDescriptor → List FieldDefinition
  | [] => []
  | f :: fs => ⟨k, f.name, [], .named f.kind.name false, []⟩ :: fieldDefinitions (k + 3) fs

/-- The definitions that a registry is meant to have. -/
def definitions (e : EntityDescriptor) (r : RootDescriptor) : List Definition :=
  [.system 0 false (.schema [(.query, r.typeName, 2)]),
    .system 6 false (.type r.typeName 7 (.object []
      [⟨9, r.field, [⟨11, r.argument, .named r.argumentKind.name false, none, []⟩],
        .named r.returns false, []⟩])),
    .system 18 false (.type e.name 19 (.object [] (fieldDefinitions 21 e.fields)))]

open Parser in
theorem manyUpTo_fields : ∀ (fs : List FieldDescriptor) (k bound : Nat), fs.length ≤ bound →
    manyUpTo startsDescribed fieldDefinition bound
      (placed k (fs.flatMap fieldTokens ++ [.punctuator .braceR])) =
      .ok (fieldDefinitions k fs, [⟨.punctuator .braceR, k + 3 * fs.length⟩])
  | [], k, bound, _ => manyUpTo_stop rfl bound k []
  | [f], k, bound + 1, _ => manyUpTo_step rfl rfl (manyUpTo_stop rfl _ _ [])
  | f :: g :: fs, k, bound + 1, h => by
    have ih := manyUpTo_fields (g :: fs) (k + 3) bound (by simpa using h)
    have hstep : fieldDefinition (placed k ((f :: g :: fs).flatMap fieldTokens ++
        [.punctuator .braceR])) = .ok (⟨k, f.name, [], .named f.kind.name false, []⟩,
          placed (k + 3) ((g :: fs).flatMap fieldTokens ++ [.punctuator .braceR])) := rfl
    have hk : k + 3 * (f :: g :: fs).length = k + 3 + 3 * (g :: fs).length := by
      simp only [List.length_cons]
      omega
    rw [hk]
    exact manyUpTo_step rfl hstep ih

/-- The lexemes of the entity, whose definition comes last. -/
def entityLexemes (e : EntityDescriptor) : List Lexeme :=
  placed 18 ([.name "type", .name e.name, .punctuator .braceL] ++
    (e.fields.flatMap fieldTokens ++ [.punctuator .braceR]))

open Parser in
theorem definition_entity {e : EntityDescriptor} (hne : e.fields ≠ []) :
    definition (entityLexemes e) =
      .ok (.system 18 false (.type e.name 19 (.object [] (fieldDefinitions 21 e.fields))), []) := by
  have hlen : e.fields.length ≤
      (placed 21 (e.fields.flatMap fieldTokens ++ [.punctuator .braceR])).length := by
    rw [placed_eq_map]
    simp only [List.length_map, List.length_zipIdx, List.length_append, List.length_flatMap,
      fieldTokens, List.length_cons, List.length_nil, List.map_const', List.sum_replicate_nat]
    omega
  have hmany := manyUpTo_fields e.fields 21 _ hlen
  obtain ⟨f, fs, hfs⟩ := List.exists_cons_of_ne_nil hne
  have hcons : fieldDefinitions 21 e.fields =
      ⟨21, f.name, [], .named f.kind.name false, []⟩ :: fieldDefinitions 24 fs := by
    rw [hfs]
    rfl
  rw [hcons] at hmany ⊢
  exact definition_type (block_ok hmany)

open Parser in
theorem manyUpTo_definitions {e : EntityDescriptor} (r : RootDescriptor) (hne : e.fields ≠ [])
    (bound : Nat) : manyUpTo (fun _ => true) definition (bound + 3) (placed 0 (tokens e r)) =
      .ok (definitions e r, []) := by
  have hentity : manyUpTo (fun _ => true) definition (bound + 1) (entityLexemes e) = .ok
      ([.system 18 false (.type e.name 19 (.object [] (fieldDefinitions 21 e.fields)))], []) :=
    manyUpTo_step rfl (definition_entity hne) (manyUpTo_nil bound)
  exact manyUpTo_step rfl rfl (manyUpTo_step rfl rfl hentity)

open Parser in
/-- With plain names, the definitions read as what is meant. -/
theorem parseDefinitions_render {e : EntityDescriptor} {r : RootDescriptor} (h : PlainNames e r)
    (hr : r.returns = e.name) (hne : e.fields ≠ []) :
    parseDefinitions (render e r) = .ok (definitions e r) := by
  have hlex := lexemes_pieces (toList_render e r) (fine_pieces h hr)
  rw [tokens_pieces] at hlex
  have hmany : many (fun _ => true) definition (placed 0 (tokens e r)) =
      .ok (definitions e r, []) := manyUpTo_definitions r hne _
  have hread : Parser.definitions (placed 0 (tokens e r)) = .ok (definitions e r, []) := by
    show (many (fun _ => true) definition >>= _) _ = _
    rw [bind_of_ok hmany]
    rfl
  unfold parseDefinitions
  rw [hlex]
  show (Parser.definitions (placed 0 (tokens e r)) >>= _) = _
  rw [hread]
  rfl

/-! ## The schema -/

/-- The type that the query field is on. -/
def rootShape (r : RootDescriptor) : TypeShape :=
  .object [] [⟨r.field, [⟨r.argument, .named r.argumentKind.name false, false⟩],
    .named r.returns false⟩]

def entityShape (e : EntityDescriptor) : TypeShape :=
  .object [] (e.fields.map fun f => ⟨f.name, [], .named f.kind.name false⟩)

/-- The schema that a registry is meant to have. -/
def plainSchema (e : EntityDescriptor) (r : RootDescriptor) : Schema where
  types := Builtin.types [] ++ [(r.typeName, rootShape r), (e.name, entityShape e)]
  directives := Builtin.directives
  query := some r.typeName

theorem firstRepeated_eq_none : ∀ {ns seen : List String}, firstRepeated seen ns = none ↔
    ns.Nodup ∧ ∀ n ∈ ns, n ∉ seen
  | [], _ => by simp [firstRepeated]
  | n :: ns, seen => by
    unfold firstRepeated
    by_cases hn : n ∈ seen
    · simp [hn]
    · simp only [List.contains_eq_mem, hn, decide_false, Bool.false_eq_true, ↓reduceIte,
        firstRepeated_eq_none, List.nodup_cons, List.mem_cons]
      constructor
      · rintro ⟨hnd, hns⟩
        refine ⟨⟨fun hm => hns n hm (.inl rfl), hnd⟩, ?_⟩
        rintro m (rfl | hm)
        · exact hn
        · exact fun hs => hns m hm (.inr hs)
      · rintro ⟨⟨hnot, hnd⟩, hns⟩
        refine ⟨hnd, fun m hm => ?_⟩
        rintro (rfl | hs)
        · exact hnot hm
        · exact hns m (.inr hm) hs

open Schema in
theorem dedupFields_of_nodup (kind : String) (type : Name) :
    ∀ (fs kept : List FieldDefinition), ((kept ++ fs).map (·.name)).Nodup →
      dedupFields kind type kept fs = (kept ++ fs, [])
  | [], kept, _ => by simp [dedupFields]
  | f :: fs, kept, h => by
    have hf : kept.any (·.name == f.name) = false := by
      simp only [List.map_append, List.map_cons, List.nodup_append] at h
      simp only [List.any_eq_false, beq_iff_eq]
      exact fun g hg he => h.2.2 g.name (List.mem_map_of_mem hg) f.name List.mem_cons_self he
    have ih := dedupFields_of_nodup kind type fs (kept ++ [f]) (by simpa using h)
    unfold dedupFields
    simpa [hf] using ih

theorem map_name_fieldDefinitions : ∀ (fs : List FieldDescriptor) (k : Nat),
    (fieldDefinitions k fs).map (·.name) = fs.map (·.name)
  | [], _ => rfl
  | f :: fs, k => by simp [fieldDefinitions, map_name_fieldDefinitions fs]

open Schema in
theorem map_fieldType_fieldDefinitions : ∀ (fs : List FieldDescriptor) (k : Nat),
    (fieldDefinitions k fs).map fieldType = fs.map fun f => ⟨f.name, [], .named f.kind.name false⟩
  | [], _ => rfl
  | f :: fs, k => by simp [fieldDefinitions, fieldType, map_fieldType_fieldDefinitions fs]

open Schema in
/-- An object type under a name that is free is one more type. -/
theorem add_free {d : Drafts} {n : Name} {i j : Nat} {fs : List FieldDefinition}
    (hn : (fs.map (·.name)).Nodup) (hr : Builtin.reserved n = false)
    (hf : ∀ t ∈ d.types, t.name ≠ n) :
    d.add (.system i false (.type n j (.object [] fs))) =
      { d with types := d.types ++ [⟨n, j, .object [] fs⟩] } := by
  have hdedup := dedupFields_of_nodup "object" n fs [] hn
  have hnone : d.types.find? (·.name == n) = none :=
    List.find?_eq_none.2 fun t ht => by simpa using hf t ht
  simp [Drafts.add, hnone, hr, mergeBody, emptyBody, hdedup]

open Schema in
/-- An object type without problems has a name that is free. -/
theorem free_of_add {d : Drafts} {n : Name} {i j : Nat} {fs : List FieldDefinition}
    (hp : (d.add (.system i false (.type n j (.object [] fs)))).problems = []) :
    (Builtin.reserved n = false ∧ ∀ t ∈ d.types, t.name ≠ n) ∧ d.problems = [] := by
  simp only [Drafts.add] at hp
  cases hf : d.types.find? (·.name == n) with
  | some t => simp [hf] at hp
  | none =>
    simp only [hf] at hp
    cases hr : Builtin.reserved n with
    | true => simp [hr] at hp
    | false =>
      simp only [hr, Bool.false_eq_true, ↓reduceIte, List.append_eq_nil_iff] at hp
      exact ⟨⟨rfl, fun t ht => by simpa using List.find?_eq_none.1 hf t ht⟩, hp.1⟩

/-- What the definitions of a registry come to. -/
def plainDrafts (e : EntityDescriptor) (r : RootDescriptor) : Schema.Drafts where
  types := [⟨r.typeName, 7, .object [] [⟨9, r.field,
      [⟨11, r.argument, .named r.argumentKind.name false, none, []⟩],
      .named r.returns false, []⟩]⟩,
    ⟨e.name, 19, .object [] (fieldDefinitions 21 e.fields)⟩]
  roots := [(.query, r.typeName, 2)]
  schemaDefined := true

/-- The type names of a registry are two, and none that every schema has. -/
structure FreeNames (e : EntityDescriptor) (r : RootDescriptor) : Prop where
  typeName : Builtin.reserved r.typeName = false
  entity : Builtin.reserved e.name = false
  distinct : r.typeName ≠ e.name

open Schema in
theorem drafts_of_free {e : EntityDescriptor} {r : RootDescriptor} (hn : e.fieldNames.Nodup)
    (h : FreeNames e r) : (definitions e r).foldl Drafts.add {} = plainDrafts e r := by
  have hnames : ((fieldDefinitions 21 e.fields).map (·.name)).Nodup := by
    rwa [map_name_fieldDefinitions]
  simp only [definitions, List.foldl_cons, List.foldl_nil]
  rw [add_free (by simp) h.typeName (by simp [Drafts.add]),
    add_free hnames h.entity (by simpa [Drafts.add] using h.distinct)]
  rfl

open Schema in
/-- The types of a registry without problems are under free names. -/
theorem free_of_problems {e : EntityDescriptor} {r : RootDescriptor}
    (hp : ((definitions e r).foldl Drafts.add {}).problems = []) : FreeNames e r := by
  simp only [definitions, List.foldl_cons, List.foldl_nil] at hp
  obtain ⟨⟨hfree, hdistinct⟩, hp⟩ := free_of_add hp
  obtain ⟨⟨hfree', hnone⟩, -⟩ := free_of_add hp
  rw [add_free (by simp) hfree' hnone] at hdistinct
  exact ⟨hfree', hfree, by simpa [Drafts.add] using hdistinct⟩

/-- Scalars that are there on demand are not there for a registry. -/
theorem types_of_used {used : List Name} {n : Name} (hn : Builtin.reserved n = false)
    (hu : ∀ m ∈ used, m = n ∨ m = "String") : Builtin.types used = Builtin.types [] := by
  have hnone : Builtin.occasionalScalars.filter used.contains = [] := by
    refine List.filter_eq_nil_iff.2 fun m hm => ?_
    simp only [List.contains_eq_mem, decide_eq_true_eq]
    intro hmu
    rcases hu m hmu with rfl | rfl
    · simp [Builtin.reserved, hm] at hn
    · exact absurd hm (by decide)
  simp [Builtin.types, hnone]

open Schema in
theorem references_fieldDefinitions : ∀ (fs : List FieldDescriptor) (k : Nat),
    ∀ p ∈ references (.object [] (fieldDefinitions k fs)), p.1 = "String"
  | [], _, p, hp => by cases hp
  | f :: fs, k, p, hp => by
    simp only [references, fieldDefinitions, List.flatMap_cons, List.map_nil, List.nil_append,
      List.cons_append, List.mem_cons] at hp
    rcases hp with rfl | hp
    · exact rfl
    · exact references_fieldDefinitions fs (k + 3) p hp

open Schema in
/-- The definitions mention the entity and the type of strings. -/
theorem references_plainDrafts {e : EntityDescriptor} {r : RootDescriptor} (hr : r.returns = e.name)
    {p : Name × Nat} (hp : p ∈ (plainDrafts e r).types.flatMap fun t => references t.body) :
    p.1 = e.name ∨ p.1 = "String" := by
  simp only [plainDrafts, List.flatMap_cons, List.flatMap_nil, List.append_nil,
    List.mem_append] at hp
  rcases hp with hp | hp
  · simp only [references, List.flatMap_cons, List.flatMap_nil, List.map_cons, List.map_nil,
      List.append_nil, List.cons_append, List.nil_append, List.mem_cons, List.not_mem_nil,
      or_false] at hp
    rcases hp with rfl | rfl
    · exact .inr rfl
    · exact .inl hr
  · exact .inr (references_fieldDefinitions e.fields 21 p hp)

open Schema in
/-- Under free names, the definitions of a registry give the schema that is meant. -/
theorem schema_of_free {e : EntityDescriptor} {r : RootDescriptor} (hr : r.returns = e.name)
    (hn : e.fieldNames.Nodup) (h : FreeNames e r) :
    (ofDefinitions (definitions e r)).1 = plainSchema e r := by
  have hused : Builtin.types (((plainDrafts e r).types.flatMap fun t => references t.body).map
      Prod.fst) = Builtin.types [] := by
    refine types_of_used h.entity fun m hm => ?_
    obtain ⟨p, hp, rfl⟩ := List.mem_map.1 hm
    exact references_plainDrafts hr hp
  have hfields := map_fieldType_fieldDefinitions e.fields 21
  unfold ofDefinitions
  rw [drafts_of_free hn h]
  simp only [plainSchema, entityShape, ← hfields, hused]
  rfl

open Schema in
theorem free_of_ofDefinitions {e : EntityDescriptor} {r : RootDescriptor}
    (hp : (ofDefinitions (definitions e r)).2 = []) : FreeNames e r := by
  simp only [ofDefinitions] at hp
  have := (hp ▸ List.mergeSort_perm _ _ : [].Perm _).symm.eq_nil
  simp only [List.append_eq_nil_iff] at this
  exact free_of_problems this.1.1.1.1

/-- What is known of a registry that has been built for plain names. -/
structure Compiled (e : EntityDescriptor) (r : RootDescriptor) (reg : Registry) : Prop where
  entity : reg.entity = e
  root : reg.root = r
  schema : reg.schema = plainSchema e r
  returns : r.returns = e.name
  free : FreeNames e r

theorem descriptorError?_eq_none {e : EntityDescriptor} {r : RootDescriptor} :
    descriptorError? e r = none ↔ e.fields ≠ [] ∧ e.fieldNames.Nodup ∧ r.returns = e.name := by
  unfold descriptorError?
  by_cases hne : e.fields = []
  · simp [hne]
  simp only [List.isEmpty_iff, hne, ↓reduceIte, ne_eq, not_false_eq_true, true_and]
  cases hrep : firstRepeated [] e.fieldNames with
  | some f =>
    have hnot : ¬ e.fieldNames.Nodup := fun hn => by
      rw [firstRepeated_eq_none.2 ⟨hn, by simp⟩] at hrep
      cases hrep
    simp [hnot]
  | none => simp [(firstRepeated_eq_none.1 hrep).1]

theorem compiled_of_ofDescriptors {e : EntityDescriptor} {r : RootDescriptor} {reg : Registry}
    (h : PlainNames e r) (hreg : ofDescriptors e r = .ok reg) : Compiled e r reg := by
  unfold ofDescriptors at hreg
  split at hreg
  · cases hreg
  rename_i hd
  obtain ⟨hne, hn, hr⟩ := descriptorError?_eq_none.1 hd
  split at hreg
  · rename_i s hs
    cases hreg
    unfold compile at hs
    rw [parseDefinitions_render h hr hne] at hs
    simp only at hs
    split at hs
    · rename_i s' hof
      cases hs
      have hfree := free_of_ofDefinitions (congrArg Prod.snd hof)
      have hschema := schema_of_free hr hn hfree
      rw [hof] at hschema
      exact ⟨rfl, rfl, hschema, hr, hfree⟩
    · cases hs
  · cases hreg

/-- Descriptors with plain names give a registry if nothing is wrong with them or with the
definitions that they stand for. -/
theorem exists_ofDescriptors {e : EntityDescriptor} {r : RootDescriptor} (h : PlainNames e r)
    (herror : descriptorError? e r = none)
    (hproblems : (Schema.ofDefinitions (definitions e r)).2 = []) :
    ∃ reg, ofDescriptors e r = .ok reg := by
  obtain ⟨hne, -, hr⟩ := descriptorError?_eq_none.1 herror
  obtain ⟨s, hs⟩ : ∃ s, Schema.ofDefinitions (definitions e r) = (s, []) :=
    ⟨_, Prod.ext rfl hproblems⟩
  have hcompile : compile (render e r) = .ok s := by
    simp only [compile, parseDefinitions_render h hr hne, hs]
  exact ⟨⟨e, r, render e r, s⟩, by simp only [ofDescriptors, herror, hcompile]⟩

/-! ## What the schema says -/

theorem lookup_types_nil {n : Name} (h : Builtin.reserved n = false) :
    (Builtin.types []).lookup n = none := by
  simp only [Builtin.reserved, Builtin.scalars, Bool.or_eq_false_iff, List.contains_eq_mem,
    List.mem_cons, List.not_mem_nil, or_false, decide_eq_false_iff_not, not_or,
    Option.isSome_eq_false_iff, Option.isNone_iff_eq_none] at h
  obtain ⟨⟨⟨hs, hb⟩, -⟩, hi⟩ := h
  have hocc : Builtin.occasionalScalars.filter (fun n => List.contains [] n) = [] := by decide
  simp [Builtin.types, Builtin.scalars, List.lookup_append, List.lookup_cons, hi,
    beq_false_of_ne hs, beq_false_of_ne hb]

namespace FreeNames

variable {e : EntityDescriptor} {r : RootDescriptor} (h : FreeNames e r)
include h

theorem type?_typeName : (plainSchema e r).type? r.typeName = some (rootShape r) := by
  simp [Schema.type?, plainSchema, List.lookup_append, lookup_types_nil h.typeName]

theorem type?_entity : (plainSchema e r).type? e.name = some (entityShape e) := by
  simp [Schema.type?, plainSchema, List.lookup_append, List.lookup_cons,
    lookup_types_nil h.entity, beq_false_of_ne (Ne.symm h.distinct)]

end FreeNames

section
variable {e : EntityDescriptor} {r : RootDescriptor}

theorem type?_string : (plainSchema e r).type? "String" = some (.scalar true) := rfl

/-- Whether a shape is that of a scalar that is checked, an enum or an object type. -/
def isConcrete : TypeShape → Bool
  | .scalar b => b
  | .enum _ | .object .. => true
  | _ => false

/-- There are no interfaces and no unions. -/
theorem isConcrete_of_type? {n : Name} {shape : TypeShape}
    (h : (plainSchema e r).type? n = some shape) : isConcrete shape = true := by
  have hbuiltin : (Builtin.types []).all (isConcrete ·.2) = true := by decide
  obtain ⟨l₁, l₂, hl, -⟩ := List.lookup_eq_some_iff.1 h
  have hmem : (n, shape) ∈ (plainSchema e r).types := by
    rw [hl]
    exact List.mem_append_right _ List.mem_cons_self
  rcases List.mem_append.1 hmem with hm | hm
  · exact List.all_eq_true.1 hbuiltin _ hm
  · simp only [List.mem_cons, Prod.mk.injEq, List.not_mem_nil, or_false] at hm
    rcases hm with ⟨-, rfl⟩ | ⟨-, rfl⟩ <;> rfl

theorem eq_of_mem_possibleTypes {n m : Name} (h : m ∈ (plainSchema e r).possibleTypes n) :
    m = n := by
  unfold Schema.possibleTypes at h
  split at h
  · exact List.mem_singleton.1 h
  · exact absurd (isConcrete_of_type? ‹_›) (by simp [isConcrete])
  · exact absurd (isConcrete_of_type? ‹_›) (by simp [isConcrete])
  · cases h

/-- No value has two types. -/
theorem eq_of_overlap {n m : Name} (h : (plainSchema e r).overlap n m = true) : n = m := by
  unfold Schema.overlap at h
  rcases Bool.or_eq_true_iff.1 h with h | h
  · exact beq_iff_eq.1 h
  · obtain ⟨k, hk, hm⟩ := List.any_eq_true.1 h
    exact (eq_of_mem_possibleTypes hk).symm.trans (eq_of_mem_possibleTypes (by simpa using hm))

end

namespace Compiled

variable {e : EntityDescriptor} {r : RootDescriptor} {reg : Registry}

/-- The query field has one argument, a string or null. -/
theorem field?_root (h : Compiled e r reg) : (plainSchema e r).field? r.typeName r.field =
    some ⟨r.field, [⟨r.argument, .named "String" false, false⟩], .named e.name false⟩ := by
  have hk : r.argumentKind.name = "String" := rfl
  simp [Schema.field?, h.free.type?_typeName, rootShape, TypeShape.fields, hk, h.returns]

/-- A field of the entity is declared, or the one that every object type has. -/
theorem field?_entity (h : Compiled e r reg) {n : Name} {f : FieldType}
    (hf : (plainSchema e r).field? e.name n = some f) : n ∈ e.fieldNames ∨ n = "__typename" := by
  simp only [Schema.field?, h.free.type?_entity, entityShape, TypeShape.fields] at hf
  split at hf
  · rename_i g hg
    left
    have hname := List.find?_some hg
    obtain ⟨x, hx, rfl⟩ := List.mem_map.1 (List.mem_of_find?_eq_some hg)
    simp only [beq_iff_eq] at hname
    exact hname ▸ List.mem_map_of_mem hx
  · split at hf
    · rename_i hn
      right
      simpa [TypeShape.isComposite] using hn
    · have hq : ((plainSchema e r).query == some e.name) = false := by
        simpa [plainSchema] using h.free.distinct
      rw [hq] at hf
      cases hf

end Compiled

/-! ## The registry of the gateway -/

/-- A test of what a computation gives, where it gives something. -/
theorem exists_ok_of_test {ε α : Type} (x : Except ε α) (test : α → Bool)
    (h : x.toOption.any test = true) : ∃ a, x = .ok a ∧ test a = true := by
  cases x with
  | error e => cases h
  | ok a => exact ⟨a, rfl, h⟩

theorem plainNames_builtin : PlainNames dataEntity getData :=
  ⟨by decide, by decide, by decide, by decide, by decide⟩

theorem exists_builtin : ∃ reg, ofDescriptors dataEntity getData = .ok reg :=
  exists_ofDescriptors plainNames_builtin (by decide) (by decide +kernel)

theorem exists_compiled_builtin :
    ∃ reg, ofDescriptors dataEntity getData = .ok reg ∧ reg.Compiled dataEntity getData := by
  obtain ⟨reg, hreg⟩ := exists_builtin
  exact ⟨reg, hreg, compiled_of_ofDescriptors plainNames_builtin hreg⟩

end Registry

end RecordGateway
