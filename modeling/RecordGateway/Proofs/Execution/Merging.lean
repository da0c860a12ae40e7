import RecordGateway.Proofs.Execution.Call
import RecordGateway.Proofs.GraphQL.Merging

/-!
# Root fields under one key

The id of a call is taken from the first of its root fields. Root fields under one response key
resolve their ids alike (`argument_eq_of_key`): all of them are in the set at the top of the
operation, which has been looked at for conflicts, and arguments that agree resolve alike whatever
the values of the variables.
-/

namespace RecordGateway

open GraphQL GraphQL.Merging

namespace Bindings

variable {b : Bindings}

/-! ## Arguments that agree -/

/-- The literals or the variables are the same, or the values are both lists or both objects. -/
def SameForm : Value → Value → Prop
  | .literal _ l, .literal _ m => l = m
  | .variable _ n, .variable _ m => n = m
  | .list .., .list .. => True
  | .object .., .object .. => True
  | _, _ => False

theorem sameForm_of_agrees {v w : Value} (h : v.agrees w = true) : SameForm v w := by
  cases v <;> cases w <;> simp_all [Value.agrees, SameForm]

theorem sameForm_of_same {v w : Value} (h : v.same w = true) : SameForm v w := by
  cases v <;> cases w <;> simp_all [Value.same, SameForm]

/-- The text of a value depends on its form only. -/
theorem text_of_sameForm {v w : Value} (h : SameForm v w) : b.text v = b.text w := by
  cases v <;> cases w <;> simp only [SameForm] at h
  case literal.literal i l j m =>
    subst h
    cases l <;> rfl
  case variable.variable =>
    subst h
    rfl
  all_goals rfl

theorem argument_of_sameArguments {as bs : List Argument} (h : sameArguments as bs = true)
    (name : Name) : b.argument as name = b.argument bs name := by
  obtain ⟨hab, hba⟩ := Bool.and_eq_true_iff.1 h
  unfold argument
  cases ha : as.find? (·.name == name) with
  | none =>
    cases hb : bs.find? (·.name == name) with
    | none => rfl
    | some y =>
      -- what the second field has, the first has too
      obtain ⟨x, hx, hxy⟩ := List.any_eq_true.1
        (List.all_eq_true.1 hba y (List.mem_of_find?_eq_some hb))
      have hy : y.name = name := by simpa using List.find?_some hb
      exact absurd (List.find?_eq_none.1 ha x hx) (by simpa [hy] using hxy)
  | some x =>
    have hx : x.name = name := by simpa using List.find?_some ha
    have hagrees := List.all_eq_true.1 hab x (List.mem_of_find?_eq_some ha)
    rw [hx] at hagrees
    cases hb : bs.find? (·.name == name) with
    | none => simp [hb] at hagrees
    | some y => exact (text_of_sameForm (sameForm_of_agrees (by simpa [hb] using hagrees))).symm

theorem argument_of_sameArgumentTexts (name : Name) : ∀ {as bs : List Argument},
    sameArgumentTexts as bs = true → b.argument as name = b.argument bs name
  | [], [], _ => rfl
  | [], _ :: _, h => by simp [sameArgumentTexts] at h
  | _ :: _, [], h => by simp [sameArgumentTexts] at h
  | x :: as, y :: bs, h => by
    simp only [sameArgumentTexts, List.length_cons, List.zip_cons_cons, List.all_cons,
      Bool.and_eq_true, beq_iff_eq, Nat.add_right_cancel_iff] at h
    obtain ⟨hlen, ⟨hn, hv⟩, hrest⟩ := h
    have ih := @argument_of_sameArgumentTexts name as bs (by simp [sameArgumentTexts, hlen, hrest])
    unfold argument at ih ⊢
    simp only [List.find?_cons, hn]
    by_cases hy : y.name = name
    · simpa only [beq_iff_eq.2 hy] using text_of_sameForm (sameForm_of_same hv)
    · simpa only [beq_false_of_ne hy] using ih

/-! ## Occurrences under one key -/

/-- In a set without conflicts, occurrences on one object type under one key resolve alike. -/
theorem argument_of_fieldConflicts {s : Schema} {os : List Occurrence}
    (h : fieldConflicts s os = []) {x y : Occurrence} (hx : x ∈ os) (hy : y ∈ os)
    (hk : x.key = y.key) (hp : x.parent = y.parent) {is : List Name} {fs : List FieldType}
    (ht : s.type? x.parent = some (.object is fs)) (name : Name) :
    b.argument x.field.arguments name = b.argument y.field.arguments name := by
  obtain ⟨z, hzx, hzy⟩ := exists_agreeing h hx hy hk hp ht
  have third : ∀ {o : Occurrence},
      o = z ∨ sameArguments z.field.arguments o.field.arguments = true →
        b.argument z.field.arguments name = b.argument o.field.arguments name := by
    rintro o (rfl | hsame)
    · rfl
    · exact argument_of_sameArguments hsame name
  exact (third hzx).symm.trans (third hzy)

theorem alike_of_sameOccurrence (b : Bindings) {x y : Occurrence} (h : sameOccurrence x y = true)
    (name : Name) : x.parent = y.parent ∧ x.key = y.key ∧
      b.argument x.field.arguments name = b.argument y.field.arguments name := by
  simp only [sameOccurrence, sameField, Bool.and_eq_true, beq_iff_eq] at h
  obtain ⟨⟨hparent, ⟨⟨halias, hname⟩, hargs⟩, -⟩, -⟩ := h
  exact ⟨hparent, by simp [Occurrence.key, Field.responseKey, halias, hname],
    argument_of_sameArgumentTexts name hargs⟩

theorem exists_same_of_sameSet {os ps : List Occurrence} (h : sameSet os ps = true)
    {x : Occurrence} (hx : x ∈ os) : ∃ y ∈ ps, sameOccurrence x y = true := by
  simp only [sameSet, Bool.and_eq_true, beq_iff_eq, List.all_eq_true] at h
  obtain ⟨hlen, hall⟩ := h
  have hfst : (os.zip ps).map Prod.fst = os := List.map_fst_zip (Nat.le_of_eq hlen)
  rw [← hfst] at hx
  obtain ⟨⟨x', y⟩, hmem, rfl⟩ := List.mem_map.1 hx
  exact ⟨y, (List.of_mem_zip hmem).2, hall _ hmem⟩

/-- The same in a set that is written like a set without conflicts. -/
theorem argument_of_sameSet {s : Schema} {os K : List Occurrence} (h : fieldConflicts s K = [])
    (hs : sameSet os K = true) {x y : Occurrence} (hx : x ∈ os) (hy : y ∈ os)
    (hk : x.key = y.key) (hp : x.parent = y.parent) {is : List Name} {fs : List FieldType}
    (ht : s.type? x.parent = some (.object is fs)) (name : Name) :
    b.argument x.field.arguments name = b.argument y.field.arguments name := by
  obtain ⟨x', hx', hxx⟩ := exists_same_of_sameSet hs hx
  obtain ⟨y', hy', hyy⟩ := exists_same_of_sameSet hs hy
  obtain ⟨hxp, hxk, hxa⟩ := alike_of_sameOccurrence b hxx name
  obtain ⟨hyp, hyk, hya⟩ := alike_of_sameOccurrence b hyy name
  have hk' : x'.key = y'.key := hxk.symm.trans (hk.trans hyk)
  have hp' : x'.parent = y'.parent := hxp.symm.trans (hp.trans hyp)
  calc b.argument x.field.arguments name = b.argument x'.field.arguments name := hxa
    _ = b.argument y'.field.arguments name :=
      argument_of_fieldConflicts h hx' hy' hk' hp' (hxp ▸ ht) name
    _ = b.argument y.field.arguments name := hya.symm

end Bindings

/-! ## Root fields -/

/-- Root fields that are collected under one response key resolve their ids alike, to the same text
or the same error. -/
theorem argument_eq_of_key {e : EntityDescriptor} {r : RootDescriptor} {reg : Registry}
    (hp : PlainNames e r) (hreg : Registry.ofDescriptors e r = .ok reg) {text : String}
    {d : Document} (hd : Document.read reg.schema text = .ok d) {name : Option String}
    {o : Operation} (ho : d.choose name = .ok o) (hk : o.kind = .query) {values : Json.Object}
    {fs : List RootField}
    (hfs : collect ⟨o.variableDefinitions, values⟩ r.field d o.selections = .ok fs)
    {f g : RootField} (hf : f ∈ fs) (hg : g ∈ fs) (hkey : f.key = g.key) :
    Bindings.argument ⟨o.variableDefinitions, values⟩ f.head.arguments r.argument =
      Bindings.argument ⟨o.variableDefinitions, values⟩ g.head.arguments r.argument := by
  have hc := Registry.compiled_of_ofDescriptors hp hreg
  have hacc := hc.schema ▸ Document.accepted_of_read hd
  have hmem := (Document.picks_of_choose ho).mem
  obtain ⟨reached, hv⟩ := Operation.vetted_of_accepted hacc hmem
  obtain ⟨ts, hts, hcollect⟩ := exists_collect_eq_survey hv
  rw [hcollect] at hfs
  obtain ⟨-, rfl⟩ := Bindings.survey_ok hfs
  have htop : ∀ f ∈ Bindings.roots ⟨o.variableDefinitions, values⟩ (stations r.field [] ts),
      ⟨r.typeName, f.head, f.body⟩ ∈ topLevel (Registry.plainSchema e r) d o := by
    intro f hf
    obtain ⟨-, p, w⟩ := walk_of_mem_roots hts hf
    obtain rfl := type_of_walk hk hv w
    exact mem_expand w
  have hx := htop f hf
  have hy := htop g hg
  obtain ⟨K, hK, hsame⟩ := exists_checked_set hacc hmem
  rcases hsame with rfl | hsame
  · exact Bindings.argument_of_fieldConflicts hK hx hy hkey rfl hc.free.type?_typeName r.argument
  · exact Bindings.argument_of_sameSet hK hsame hx hy hkey rfl hc.free.type?_typeName r.argument

/-- A root field under one alias, once in the operation and once in a fragment. -/
def underOneAlias : Request where
  query := "query($id: String) \x7b a: getData(id: $id) \x7b id \x7d ...F \x7d " ++
    "fragment F on RootQuery \x7b a: getData(id: $id) \x7b name \x7d \x7d"
  variableValues := [("id", .string "7")]

theorem argument_eq_underOneAlias : ∃ reg d o f g,
    Registry.ofDescriptors dataEntity getData = .ok reg ∧
      Document.read reg.schema underOneAlias.query = .ok d ∧ d.choose none = .ok o ∧
      o.kind = .query ∧ collect (underOneAlias.bindings o) "getData" d o.selections = .ok [f, g] ∧
      f.key = g.key ∧
      (underOneAlias.bindings o).argument f.head.arguments "id" =
        (underOneAlias.bindings o).argument g.head.arguments "id" := by
  obtain ⟨reg, hreg, hc⟩ := Registry.exists_compiled_builtin
  obtain ⟨d, o, hd, ho, hfs⟩ := hc.exists_chosen underOneAlias
    (fun d o => o.kind == .query &&
      (collect (underOneAlias.bindings o) "getData" d o.selections).toOption.any fun fs =>
        fs.map RootField.key == ["a", "a"]) (by decide +kernel)
  obtain ⟨hk, hfs⟩ := Bool.and_eq_true_iff.1 hfs
  have hk : o.kind = .query := by simpa using hk
  obtain ⟨fs, hfs, hkeys⟩ := Registry.exists_ok_of_test
    (collect (underOneAlias.bindings o) "getData" d o.selections) _ hfs
  obtain ⟨f, g, rfl, hf, hg⟩ : ∃ f g, fs = [f, g] ∧ f.key = "a" ∧ g.key = "a" := by
    simpa [List.map_eq_cons_iff] using hkeys
  have hkey : f.key = g.key := hf.trans hg.symm
  exact ⟨reg, d, o, f, g, hreg, hd, ho, hk, hfs, hkey,
    argument_eq_of_key Registry.plainNames_builtin hreg hd ho hk hfs List.mem_cons_self
      (List.mem_cons_of_mem _ (List.mem_singleton_self g)) hkey⟩

end RecordGateway
