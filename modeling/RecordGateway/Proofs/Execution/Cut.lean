import RecordGateway.Proofs.Execution.Alike
import RecordGateway.Proofs.GraphQL.Cut.Depth

/-!
# Other operations of a document

An operation can be taken out of its document, with the fragments that it uses. What is left is
accepted and answers as the operation does in the whole document, whatever values variables are
given (`execute_cut`), with one exception: fields that are nested deeper than the merging of fields
looks. In the whole document they may go unnoticed, where an operation before shows the same fields
nested less deep.
-/

namespace RecordGateway

open GraphQL

section
variable {e : EntityDescriptor} {r : RootDescriptor} {reg : Registry} {d d' : Document}
  {o o' : Operation} {ds ds' : List Definition}

/-- There are no operations but queries. -/
theorem kind_of_accepted (hd : Document.Accepted (Registry.plainSchema e r) d)
    (ho : o ∈ d.operations) : o.kind = .query := by
  have hroot := hd.root o ho
  cases hk : o.kind with
  | query => rfl
  | mutation | subscription =>
    rw [hk] at hroot
    cases hroot

/-- An operation that is chosen by its name is one of those with names. -/
theorem GraphQL.Document.named_of_choose {n : String} (h : d.choose (some n) = .ok o) :
    o ∈ d.named ∧ o.nameIs n = true := by
  simp only [choose] at h
  split at h
  · rename_i hfind
    cases h
    exact ⟨List.mem_of_find?_eq_some hfind, List.find?_some hfind⟩
  · cases h

/-- The name of the operation, or no name, chooses the operation that is left. -/
theorem choose_cut (h : d.CutTo o d' o') {n : String} (hn : o.nameIs n = true)
    {name : Option String} (hname : name = some n ∨ name = none) : d'.choose name = .ok o' := by
  rcases hname with rfl | rfl
  · have hfind : d'.named.find? (·.nameIs n) = some o' := by
      rw [h.named, List.find?_cons_of_pos ((Document.nameIs_of_fills h.operation n).trans hn)]
    simp only [Document.choose, hfind]
  · simp only [Document.choose, h.operations]

/-- The walks through an operation and through what is left of its document fail with the same
error, or find root fields that are written alike. -/
theorem collect_cut {s s' : Schema} {reached reached' : List Name} (hv : o.Vetted s d reached)
    (hv' : o'.Vetted s' d' reached') (h : d.CutTo o d' o') {b b' : Bindings} (hb : b.Alike b')
    (rootField : Name) :
    (∃ err, collect b rootField d o.selections = .error err ∧
      collect b' rootField d' o'.selections = .error err) ∨
      FindsFilled noLiterals (collect b rootField d o.selections)
        (collect b' rootField d' o'.selections) := by
  obtain ⟨ts, hts, hcollect⟩ := exists_collect_eq_survey hv
  obtain ⟨ts', hts', hcollect'⟩ := exists_collect_eq_survey hv'
  have honly : Expands (d.only o d) o.selections ts :=
    hts.of_agrees (Document.agrees_only d o) (d.usedNames_spec o.selections).1
  obtain ⟨us, hus, hfills⟩ := honly.of_fills h.alike.fragments h.operation.selections
  obtain rfl := hus.det hts'
  rw [hcollect, hcollect']
  exact hb.survey_eq (stations_of_fills hfills .nil)

theorem plan_cut {s s' : Schema} {reached reached' : List Name} (hv : o.Vetted s d reached)
    (hv' : o'.Vetted s' d' reached') (h : d.CutTo o d' o') (values : Json.Object) :
    plan r d' o' values = plan r d o values := by
  have hb : Bindings.Alike ⟨o.variableDefinitions, values⟩ ⟨o'.variableDefinitions, values⟩ :=
    ⟨h.operation.variableDefinitions, rfl⟩
  simp only [plan, h.operation.kind, hb.checkRequired_eq]
  obtain ⟨err, herr, herr'⟩ | ⟨fs, fs', hfs, hfs', hff⟩ := collect_cut hv hv' h hb r.field
  · simp only [herr, herr']
  · have hfetch := fetchOf?_of_fills r hff fun f _ _ has => hb.argument_eq has r.argument
    simp only [hfs, hfs', hfetch]

/-- The operation that is left is answered as it is in the whole document. -/
theorem executeDocument_cut (hd : Document.Accepted (Registry.plainSchema e r) d)
    (hd' : Document.Accepted (Registry.plainSchema e r) d') (h : d.CutTo o d' o') {n : String}
    (ho : d.choose (some n) = .ok o) (root : RootDescriptor) (source : DataSource)
    (values : Json.Object) {name : Option String} (hname : name = some n ∨ name = none) :
    executeDocument root source d' name values =
      executeDocument root source d (some n) values := by
  obtain ⟨reached, hv⟩ := Operation.vetted_of_accepted hd (Document.picks_of_choose ho).mem
  obtain ⟨reached', hv'⟩ := Operation.vetted_of_accepted hd'
    (h.operations ▸ List.mem_singleton_self o')
  have hchoose := choose_cut h (Document.named_of_choose ho).2 hname
  simp only [executeDocument, planDocument, hchoose, ho, plan_cut hv hv' h]

end

/-- Other operations do not matter: an operation and the fragments that it uses, wherever things
stand in the text that writes them, are accepted by themselves. With the name of the operation or
with none they are answered as the whole document is with the name, whatever the values of
variables. Only fields that are nested too deep may stand in the way. -/
theorem execute_cut {e : EntityDescriptor} {r : RootDescriptor} {reg : Registry}
    (hp : PlainNames e r) (hreg : Registry.ofDescriptors e r = .ok reg) (source : DataSource)
    {text : String} {ds : List Definition} {d : Document} {n : String} {o : Operation}
    (hds : parseDefinitions text = .ok ds) (hd : Document.read reg.schema text = .ok d)
    (ho : d.choose (some n) = .ok o) {ds' : List Definition}
    (hcut : ds'.map Definition.unplaced = (d.cut o ds).map Definition.unplaced) :
    (∃ d', Document.check reg.schema ds' = (d', []) ∧
      (∀ values name, name = some n ∨ name = none →
        executeDocument reg.root source d' name values =
          reg.execute source ⟨text, some n, values⟩) ∧
      ∀ text', parseDefinitions text' = .ok ds' → ∀ values name, name = some n ∨ name = none →
        reg.execute source ⟨text', name, values⟩ = reg.execute source ⟨text, some n, values⟩) ∨
    ¬ Merging.Nested d (Merging.depthLimit + 1) o.selections ∧
      ∃ d' i, Document.check reg.schema ds' = (d', [⟨i, .fieldsTooDeep⟩]) := by
  have hc := Registry.compiled_of_ofDescriptors hp hreg
  have hacc := Document.accepted_of_read hd
  have hfrom : Document.ofDefinitions reg.schema ds = (d, []) := by
    obtain ⟨xs, hxs, hfrom, -⟩ := Document.read_ok hd
    cases hds.symm.trans hxs
    exact hfrom
  have hscalars : reg.schema.HasScalars := hc.schema ▸ ⟨rfl, rfl⟩
  have hdefer : reg.schema.directive? "defer" = none := hc.schema ▸ rfl
  obtain ⟨hmem, hn⟩ := Document.named_of_choose ho
  have hkind : o.kind = .query :=
    kind_of_accepted (hc.schema ▸ hacc) (Document.picks_of_choose ho).mem
  have halike : List.Forall₂ Definition.Alike (d.cut o ds) ds' :=
    (map_eq_map_iff.1 hcut.symm).imp fun _ _ => Definition.alike_of_unplaced
  obtain ⟨d', o', h, hcheck | ⟨hdeep, hnested⟩⟩ :=
    Document.check_cut hscalars hdefer hacc hfrom hmem hn hkind halike
  · have hacc' := Document.accepted_of_check hcheck (h.operations ▸ List.cons_ne_nil o' [])
    have hexecute : ∀ values name, name = some n ∨ name = none →
        executeDocument reg.root source d' name values =
          reg.execute source ⟨text, some n, values⟩ := fun values name hname => by
      rw [hc.schema] at hacc hacc'
      rw [execute_of_read hd, executeDocument_cut hacc hacc' h ho reg.root source values hname]
    refine .inl ⟨d', hcheck, hexecute, fun text' hds' values name hname => ?_⟩
    rw [← hexecute values name hname, execute_of_read (Document.read_of_check hds' hcheck)]
  · exact .inr ⟨hnested, d', o'.place, hdeep⟩

/-- Two operations that share a fragment and use another one each; the second has variables. -/
def sharedFragment : String :=
  "query A \x7b getData(id: \"1\") \x7b ...H \x7d ...G \x7d " ++
    "query B($id: String = \"7\", $on: Boolean!) \x7b ...F @include(if: $on) \x7d " ++
    "fragment F on RootQuery \x7b getData(id: $id) \x7b ...H name \x7d \x7d " ++
    "fragment G on RootQuery \x7b __typename \x7d fragment H on Data \x7b id \x7d"

/-- The second operation by itself. -/
def withoutFirst : String :=
  "query B($id: String = \"7\", $on: Boolean!) \x7b ...F @include(if: $on) \x7d " ++
    "fragment F on RootQuery \x7b getData(id: $id) \x7b ...H name \x7d \x7d " ++
    "fragment H on Data \x7b id \x7d"

theorem execute_cut_sharedFragment : ∃ reg ds d o ds',
    Registry.ofDescriptors dataEntity getData = .ok reg ∧
      parseDefinitions sharedFragment = .ok ds ∧
      Document.read reg.schema sharedFragment = .ok d ∧ d.choose (some "B") = .ok o ∧
      parseDefinitions withoutFirst = .ok ds' ∧
      ds'.map Definition.unplaced = (d.cut o ds).map Definition.unplaced ∧
      (∀ values name, name = some "B" ∨ name = none →
        reg.execute widget ⟨withoutFirst, name, values⟩ =
          reg.execute widget ⟨sharedFragment, some "B", values⟩) ∧
      (reg.execute widget ⟨withoutFirst, none, [("on", .bool true)]⟩).calls =
        [⟨"7", ["name"]⟩] := by
  obtain ⟨reg, hreg, hc⟩ := Registry.exists_compiled_builtin
  obtain ⟨ds, hds, htest⟩ := Registry.exists_ok_of_test (parseBytes sharedFragment)
    (fun ds =>
      let s := Registry.plainSchema dataEntity getData
      let d := (Document.check s ds).1
      (Document.check s ds).2.isEmpty && (d.choose (some "B")).toOption.any fun o =>
        (parseBytes withoutFirst).toOption.any fun ds' =>
          Definition.sameAll ds' (d.cut o ds) && (Document.check s ds').2.isEmpty &&
            (executeDocument getData widget (Document.check s ds').1 none
              [("on", .bool true)]).calls == [⟨"7", ["name"]⟩])
    (by decide +kernel)
  rw [parseBytes_eq] at hds
  simp only [Bool.and_eq_true, List.isEmpty_iff, ← hc.schema] at htest
  obtain ⟨hproblems, htest⟩ := htest
  obtain ⟨d, hd⟩ : ∃ d, Document.check reg.schema ds = (d, []) := ⟨_, Prod.ext rfl hproblems⟩
  rw [hd] at htest
  obtain ⟨o, ho, htest⟩ := Registry.exists_ok_of_test _ _ htest
  obtain ⟨ds', hds', htest⟩ := Registry.exists_ok_of_test _ _ htest
  rw [parseBytes_eq] at hds'
  simp only [Bool.and_eq_true, List.isEmpty_iff, beq_iff_eq] at htest
  obtain ⟨⟨hsame, hproblems'⟩, hcalls⟩ := htest
  have hcut := Definition.map_unplaced_of_sameAll hsame
  have hread := Document.read_of_check hds hd
  refine ⟨reg, ds, d, o, ds', hreg, hds, hread, ho, hds', hcut, ?_⟩
  obtain ⟨d', hcheck, -, htexts⟩ | ⟨-, d', i, hcheck⟩ :=
    execute_cut Registry.plainNames_builtin hreg widget hds hread ho hcut
  · refine ⟨htexts withoutFirst hds', ?_⟩
    rw [hcheck] at hcalls
    rw [execute_of_read (Document.read_of_check hds' hcheck), hc.root]
    exact hcalls
  · rw [hcheck] at hproblems'
    cases hproblems'

/-- A selection within so many types. -/
def withinTypes (n : Nat) (inner : String) : String :=
  String.join (List.replicate n "ofType \x7b ") ++ inner ++ String.join (List.replicate n " \x7d")

/-- Two operations that share a fragment, which the second nests deeper than fields may be. -/
def nestedTwice : String :=
  "query A \x7b __type(name: \"x\") \x7b ...F \x7d \x7d query N \x7b __type(name: \"x\") \x7b " ++
    withinTypes (Merging.depthLimit - 2) "...F" ++ " \x7d getData(id: \"1\") \x7b id \x7d \x7d " ++
    "fragment F on __Type \x7b " ++ withinTypes 4 "name" ++ " \x7d"

/-- The second operation is accepted in its document, and not by itself. -/
theorem not_cut_accepted : ¬ ∀ (e : EntityDescriptor) (r : RootDescriptor) (reg : Registry),
    PlainNames e r → Registry.ofDescriptors e r = .ok reg →
      ∀ (text : String) (ds : List Definition) (d : Document) (n : String) (o : Operation),
        parseDefinitions text = .ok ds → Document.read reg.schema text = .ok d →
          d.choose (some n) = .ok o → ∃ d', Document.check reg.schema (d.cut o ds) = (d', []) := by
  intro hall
  obtain ⟨reg, hreg, hc⟩ := Registry.exists_compiled_builtin
  obtain ⟨ds, hds, htest⟩ := Registry.exists_ok_of_test (parseBytes nestedTwice)
    (fun ds =>
      let s := Registry.plainSchema dataEntity getData
      let d := (Document.ofDefinitions s ds).1
      (Document.ofDefinitions s ds).2.isEmpty && (d.otherFaults s).isEmpty &&
        Merging.allSettled s d [] [] d.operations &&
        (d.choose (some "N")).toOption.any fun o =>
          Merging.lineOf (Merging.shapeChildren s (d.only o d)) (Merging.depthLimit + 3)
            (Merging.topLevel s (d.only o d) o))
    (by decide +kernel)
  rw [parseBytes_eq] at hds
  simp only [Bool.and_eq_true, List.isEmpty_iff, ← hc.schema] at htest
  obtain ⟨⟨⟨hproblems, hothers⟩, hsettled⟩, htest⟩ := htest
  obtain ⟨d, hd⟩ : ∃ d, Document.ofDefinitions reg.schema ds = (d, []) :=
    ⟨_, Prod.ext rfl hproblems⟩
  rw [hd] at hothers hsettled htest
  obtain ⟨o, ho, hline⟩ := Registry.exists_ok_of_test _ _ htest
  have hread : Document.read reg.schema nestedTwice = .ok d :=
    Document.read_of_check hds (Document.check_of_allSettled hd hothers hsettled)
  obtain ⟨d', hcut⟩ := hall dataEntity getData reg Registry.plainNames_builtin hreg nestedTwice ds d
    "N" o hds hread ho
  obtain ⟨hmem, hn⟩ := Document.named_of_choose ho
  exact Document.check_ne_of_lineOf (Document.ofDefinitions_cut hd)
    (Document.operations_only hd hmem hn).2 hline (by omega) d' hcut

end RecordGateway
