import Mathlib.Data.List.Nodup
import RecordGateway.Proofs.GraphQL.Filling.Values
import RecordGateway.Proofs.GraphQL.Sound

/-!
# The rules for a filled document

A document without faults has none after literals have been put in the place of its variables
(`Operation.faults_of_fills`, `Document.unusedFragments_of_fills`, `Selection.labelsAll_eq_nil`).
What the rules follow, the spreads, stays as it is; so the same fragments are reached, and no way
comes back. The merging of fields is a matter of its own.
-/

namespace RecordGateway.GraphQL

/-! ## Documents -/

section
variable (lits : Literals)

/-- The second fragment is the first with literals for variables, wherever both stand. -/
structure Fragment.Fills (f f' : Fragment) : Prop where
  name : f.name = f'.name
  condition : f.condition.name = f'.condition.name
  directives : List.Forall₂ (Directive.Fills lits) f.directives f'.directives
  selections : Selection.FillsAll lits f.selections f'.selections

/-- The second operation is the first with literals for variables, wherever both stand; `V` relates
the variables. -/
structure Operation.FillsWith (V : List VariableDefinition → List VariableDefinition → Prop)
    (o o' : Operation) : Prop where
  kind : o.kind = o'.kind
  name : o.name.map (·.1) = o'.name.map (·.1)
  variableDefinitions : V o.variableDefinitions o'.variableDefinitions
  directives : List.Forall₂ (Directive.Fills lits) o.directives o'.directives
  selections : Selection.FillsAll lits o.selections o'.selections

/-- The second document is the first with literals for variables; `V` relates the variables of
operations. -/
structure Document.FillsWith (V : List VariableDefinition → List VariableDefinition → Prop)
    (d d' : Document) : Prop where
  anonymous : Option.Rel (Operation.FillsWith lits V) d.anonymous d'.anonymous
  named : List.Forall₂ (Operation.FillsWith lits V) d.named d'.named
  fragments : List.Forall₂ (Fragment.Fills lits) d.fragments d'.fragments

/-- There are no variables any more. -/
abbrev NoVariables (_ vars' : List VariableDefinition) : Prop := vars' = []

/-- The second operation is the first with literals for variables and without variables. -/
abbrev Operation.Fills : Operation → Operation → Prop := Operation.FillsWith lits NoVariables

/-- The second document is the first with literals for variables and without variables. -/
abbrev Document.Fills : Document → Document → Prop := Document.FillsWith lits NoVariables

end

theorem Fragment.Fills.refl (f : Fragment) : f.Fills noLiterals f :=
  ⟨rfl, rfl, List.forall₂_same.2 fun _ _ => rfl, Selection.fillsAll_iff.2 rfl⟩

section
variable {lits : Literals} {s : Schema} {d d' : Document} {vars vars' : List VariableDefinition}
  {V : List VariableDefinition → List VariableDefinition → Prop}

/-! ## What does not change -/

namespace Selection

variable {ss ss' : List Selection}

theorem isEmpty_of_fills (h : FillsAll lits ss ss') : ss'.isEmpty = ss.isEmpty := by
  cases h <;> rfl

theorem spreadsAll_of_fills (h : FillsAll lits ss ss') : spreadsAll ss' = spreadsAll ss := by
  induction h with
  | nil => rfl
  | field _ _ _ ihb ih => simp only [spreadsAll, spreads, ihb, ih]
  | inline _ _ _ _ ihb ih => simp only [spreadsAll, spreads, ihb, ih]
  | spread _ _ ih => simp only [spreadsAll, spreads, ih]

theorem conditionName_of_map_eq {c c' : Option TypeCondition} (parent : Name)
    (h : c.map (·.name) = c'.map (·.name)) : conditionName parent c' = conditionName parent c := by
  cases c <;> cases c' <;> simp_all [conditionName]

theorem conditionComposite_of_map_eq {c c' : Option TypeCondition}
    (h : c.map (·.name) = c'.map (·.name)) : conditionComposite s c' = conditionComposite s c := by
  cases c <;> cases c' <;> simp_all [conditionComposite]

theorem checkedSpreadsAll_of_fills (h : FillsAll lits ss ss') :
    checkedSpreadsAll s ss' = checkedSpreadsAll s ss := by
  induction h with
  | nil => rfl
  | field _ _ _ ihb ih => simp only [checkedSpreadsAll, checkedSpreads, ihb, ih]
  | inline hc _ _ _ ihb ih =>
    simp only [checkedSpreadsAll, checkedSpreads, conditionComposite_of_map_eq hc, ihb, ih]
  | spread _ _ ih => simp only [checkedSpreadsAll, checkedSpreads, ih]

end Selection

section
variable (h : List.Forall₂ (Fragment.Fills lits) d.fragments d'.fragments)
include h

theorem Document.fragment?_of_fills (n : Name) :
    Option.Rel (Fragment.Fills lits) (d.fragment? n) (d'.fragment? n) :=
  find?_rel h fun f f' hf => by rw [hf.name]

theorem Document.room_of_fills : d'.room = d.room := by
  rw [room, room, h.length_eq]

/-- Of a fragment there is none in both documents, or one in each, the second with literals. -/
theorem Document.fragment?_cases (n : Name) :
    (d.fragment? n = none ∧ d'.fragment? n = none) ∨
      ∃ f f', d.fragment? n = some f ∧ d'.fragment? n = some f' ∧ f.Fills lits f' := by
  have hrel := fragment?_of_fills h n
  generalize d.fragment? n = x at hrel ⊢
  generalize d'.fragment? n = y at hrel ⊢
  cases hrel with
  | none => exact .inl ⟨rfl, rfl⟩
  | some hf => exact .inr ⟨_, _, rfl, rfl, hf⟩

theorem Document.spreadsOf_of_fills : d'.spreadsOf = d.spreadsOf := by
  funext n
  unfold spreadsOf
  obtain ⟨hn, hn'⟩ | ⟨f, f', hf, hf', hff⟩ := fragment?_cases h n
  · rw [hn, hn']
  · rw [hf, hf']
    exact Selection.spreadsAll_of_fills hff.selections

namespace Trail

theorem follow_of_fills (root : Name) (room : Nat) : ∀ (path : List Name) (n : Name),
    follow d' root room path n = follow d root room path n := by
  induction room with
  | zero =>
    intro path n
    unfold follow
    obtain ⟨hn, hn'⟩ | ⟨f, f', hf, hf', hff⟩ := Document.fragment?_cases h n
    · rw [hn, hn']
    · rw [hf, hf']
  | succ room ih =>
    intro path n
    unfold follow
    obtain ⟨hn, hn'⟩ | ⟨f, f', hf, hf', hff⟩ := Document.fragment?_cases h n
    · rw [hn, hn']
    · rw [hf, hf']
      simp only [Selection.spreadsAll_of_fills hff.selections, funext (ih (n :: path))]

theorem of_of_fills {f f' : Fragment} (hf : f.Fills lits f') : of d' f' = of d f := by
  rw [of, of, ← hf.name, Selection.spreadsAll_of_fills hf.selections,
    funext (follow_of_fills h f.name _ _)]

end Trail

theorem Fragment.faultsOfShape_of_fills {f f' : Fragment} (hf : f.Fills lits f') :
    (f'.faultsOfShape s d').isEmpty = (f.faultsOfShape s d).isEmpty := by
  simp only [faultsOfShape, Trail.of_of_fills h hf, ← hf.condition]
  cases Trail.of d f <;> by_cases hc : s.isComposite f.condition.name = true <;> simp [hc]

theorem Document.checkedSpreadsOf_of_fills : d'.checkedSpreadsOf s = d.checkedSpreadsOf s := by
  funext n
  unfold checkedSpreadsOf
  obtain ⟨hn, hn'⟩ | ⟨f, f', hf, hf', hff⟩ := fragment?_cases h n
  · rw [hn, hn']
  · rw [hf, hf']
    simp only [Fragment.faultsOfShape_of_fills h hff,
      Selection.checkedSpreadsAll_of_fills hff.selections]

end

/-! ## Selections -/

section
variable (hs : s.HasScalars) (hc : lits.Serves vars vars')
  (h : List.Forall₂ (Fragment.Fills lits) d.fragments d'.fragments)
include hs hc

theorem Field.faults_of_fills {f f' : Field} (hf : f.Fills lits f') {parent : Name}
    {body body' : List Selection} (hb : body'.isEmpty = body.isEmpty)
    (hfaults : f.faults s vars parent body = []) : f'.faults s vars' parent body' = [] := by
  obtain ⟨-, hname, has, hds⟩ := Field.fills_iff.1 hf
  simp only [faults, List.append_eq_nil_iff] at hfaults ⊢
  obtain ⟨⟨hdirectives, hrepeated⟩, hrest⟩ := hfaults
  refine ⟨⟨Directive.misfits_of_fills hs hc hds hdirectives,
    Argument.repeated_of_fills has hrepeated⟩, ?_⟩
  rw [← hname]
  cases ht : s.field? parent f.name with
  | none => rfl
  | some t =>
    simp only [ht, argumentMisfits, List.append_eq_nil_iff, List.map_eq_nil_iff] at hrest ⊢
    obtain ⟨⟨hargs, hmissing⟩, hselection⟩ := hrest
    refine ⟨⟨?_, ?_⟩, ?_⟩
    · rw [← hname]
      exact Argument.flatMap_misfits_of_fills hs hc has hargs
    · rw [Argument.missing_of_fills hc.notNull has, hmissing]
    · rw [hb]
      simpa using hselection

namespace Selection

omit hs hc in
theorem conditionFaults_of_fills {c c' : Option TypeCondition}
    (hcc : c.map (·.name) = c'.map (·.name)) {parent : Name} {i : Nat}
    (hf : conditionFaults s parent i c = []) (j : Nat) : conditionFaults s parent j c' = [] := by
  match c, c' with
  | none, none => rfl
  | none, some c' => cases hcc
  | some c, none => cases hcc
  | some c, some c' =>
    simp only [Option.map_some, Option.some.injEq] at hcc
    by_cases hcomp : s.isComposite c'.name = true <;>
      by_cases hover : s.overlap parent c'.name = true <;> simp_all [conditionFaults]

omit hs hc in
include h in
theorem spreadFaults_of_fills {parent n : Name} {i : Nat} (hf : spreadFaults s d parent i n = [])
    (j : Nat) : spreadFaults s d' parent j n = [] := by
  unfold spreadFaults at hf ⊢
  obtain ⟨hn, hn'⟩ | ⟨f, f', hn, hn', hff⟩ := Document.fragment?_cases h n
  · simp [hn] at hf
  · by_cases hover : s.overlap parent f.condition.name = true <;>
      simp_all [hff.condition ▸ hover]

include h in
/-- Selections that are right with variables are right with literals in their place. -/
theorem faultsAll_of_fills {ss ss' : List Selection} (hss : FillsAll lits ss ss') :
    ∀ {parent : Name}, faultsAll s d vars parent ss = [] →
      faultsAll s d' vars' parent ss' = [] := by
  induction hss with
  | nil => exact fun h => h
  | field hf hb _ ihb ih =>
    intro parent hfaults
    simp only [faultsAll, faults, List.append_eq_nil_iff] at hfaults ⊢
    obtain ⟨⟨hfield, hbody⟩, hrest⟩ := hfaults
    rw [(Field.fills_iff.1 hf).2.1] at hbody
    exact ⟨⟨Field.faults_of_fills hs hc hf (isEmpty_of_fills hb) hfield, ihb hbody⟩, ih hrest⟩
  | inline hcc hd _ _ ihb ih =>
    intro parent hfaults
    simp only [faultsAll, faults, List.append_eq_nil_iff] at hfaults ⊢
    obtain ⟨⟨⟨hdirectives, hcondition⟩, hbody⟩, hrest⟩ := hfaults
    refine ⟨⟨⟨Directive.misfits_of_fills hs hc hd hdirectives,
      conditionFaults_of_fills hcc hcondition _⟩, ?_⟩, ih hrest⟩
    rw [conditionComposite_of_map_eq hcc, conditionName_of_map_eq parent hcc]
    split
    · rename_i hcomp
      rw [if_pos hcomp] at hbody
      exact ihb hbody
    · rfl
  | spread hd _ ih =>
    intro parent hfaults
    simp only [faultsAll, faults, List.append_eq_nil_iff] at hfaults ⊢
    obtain ⟨⟨hdirectives, hspread⟩, hrest⟩ := hfaults
    exact ⟨⟨Directive.misfits_of_fills hs hc hd hdirectives, spreadFaults_of_fills h hspread _⟩,
      ih hrest⟩

end Selection

/-! ## Fragments and operations -/

include h in
theorem Fragment.faults_of_fills {f f' : Fragment} (hf : f.Fills lits f')
    (hfaults : f.faults s d vars = []) : f'.faults s d' vars' = [] := by
  obtain ⟨hshape, hin⟩ := faults_eq_nil hfaults
  have hshape' : f'.faultsOfShape s d' = [] := by
    have := faultsOfShape_of_fills (s := s) h hf
    rwa [hshape, List.isEmpty_nil, List.isEmpty_iff] at this
  simp only [faults, List.append_eq_nil_iff] at hfaults ⊢
  refine ⟨Directive.misfits_of_fills hs hc hf.directives hfaults.1, ?_⟩
  rw [hshape', ← hf.condition]
  exact Selection.faultsAll_of_fills hs hc h hf.selections hin

omit hc in
include h in
/-- An operation that is right with variables is right with literals in their place, if what is left
of the variables is. -/
theorem Operation.faults_of_fills {o o' : Operation}
    (hc : lits.Serves o.variableDefinitions o'.variableDefinitions) (ho : o.FillsWith lits V o')
    (hdefinitions : VariableDefinition.faults s [] o'.variableDefinitions = [])
    (hused : VariableDefinition.unused (o'.variablesUsed d') o'.variableDefinitions = [])
    (hfaults : o.faults s d = []) : o'.faults s d' = [] := by
  simp only [faults, List.append_eq_nil_iff, List.flatMap_eq_nil_iff] at hfaults
  obtain ⟨⟨⟨⟨hdirectives, -⟩, -⟩, hselections⟩, hchecked⟩ := hfaults
  have hlocation : o'.location = o.location := by rw [location, location, ho.kind]
  have hroot : o'.root s = o.root s := by rw [root, root, ho.kind]
  simp only [faults, hlocation, hroot, hdefinitions, hused, List.append_nil,
    List.append_eq_nil_iff, List.flatMap_eq_nil_iff]
  refine ⟨⟨Directive.misfits_of_fills hs hc ho.directives hdirectives,
    Selection.faultsAll_of_fills hs hc h ho.selections hselections⟩, fun f' hf' => ?_⟩
  obtain ⟨n, hn, hf'⟩ := List.mem_filterMap.1 hf'
  rw [Document.checkedSpreadsOf_of_fills h, Document.room_of_fills h,
    Selection.checkedSpreadsAll_of_fills ho.selections] at hn
  obtain ⟨-, hnone⟩ | ⟨f, g, hf, hg, hff⟩ := Document.fragment?_cases h n
  · rw [hnone] at hf'
    cases hf'
  · cases hg.symm.trans hf'
    exact Fragment.faults_of_fills hs hc h hff (hchecked f (List.mem_filterMap.2 ⟨n, hn, hf⟩))

end

/-! ## The rules for the whole document -/

/-- What some names lead to stays within a set that the steps do not leave. -/
theorem foldl_visit_subset {next : Name → List Name} {S : List Name}
    (hnext : ∀ n ∈ S, next n ⊆ S) (room : Nat) : ∀ {ns seen : List Name}, ns ⊆ S → seen ⊆ S →
      ns.foldl (visit next room) seen ⊆ S := by
  induction room with
  | zero =>
    intro ns
    induction ns with
    | nil => exact fun _ h => h
    | cons n ns ih => exact fun hns hseen => ih (List.cons_subset.1 hns).2 hseen
  | succ room ihroom =>
    intro ns
    induction ns with
    | nil => exact fun _ h => h
    | cons n ns ih =>
      intro seen hns hseen
      obtain ⟨hn, hns⟩ := List.cons_subset.1 hns
      refine ih hns ?_
      unfold visit
      split
      · exact hseen
      · exact ihroom (hnext n hn)
          (List.append_subset.2 ⟨hseen, List.cons_subset.2 ⟨hn, List.nil_subset _⟩⟩)

namespace Document

/-- In an accepted document with one operation no fragment is wrong inside. -/
theorem Accepted.faultsAll_fragments {o : Operation} (h : Accepted s d) (ho : d.operations = [o]) :
    ∀ f ∈ d.fragments,
      Selection.faultsAll s d o.variableDefinitions f.condition.name f.selections = [] := by
  intro f hf
  obtain ⟨reached, hv⟩ := Operation.vetted_of_accepted h (ho ▸ List.mem_singleton_self o)
  -- the operation uses the fragment, and it uses nothing that is not reached
  have hunused : d.unusedFragments = [] := by
    have := h.faults
    simp only [Document.faults, List.append_eq_nil_iff] at this
    exact this.1.1.2
  simp only [unusedFragments, ho, List.flatMap_cons, List.flatMap_nil, List.append_nil,
    List.map_eq_nil_iff, List.filter_eq_nil_iff] at hunused
  have hmem : f.name ∈ (d.used o.selections).map (·.name) := by simpa using hunused f hf
  obtain ⟨g, hg, hname⟩ := List.mem_map.1 hmem
  obtain ⟨n, hn, hgn⟩ := List.mem_filterMap.1 hg
  have hnext : ∀ n ∈ reached, d.spreadsOf n ⊆ reached := by
    intro n hn
    unfold spreadsOf
    split
    · rename_i k hk
      exact (hv.fragments n hn k hk).2.spreads
    · exact List.nil_subset _
  have hreached := foldl_visit_subset hnext d.room hv.top.spreads (List.nil_subset _) hn
  have hsame : g = f := by
    have hnodup := h.fragmentNames
    exact List.inj_on_of_nodup_map hnodup (fragment?_some hgn).1 hf hname
  exact hsame ▸ (hv.fragments n hreached g hgn).2.faults

theorem FillsWith.operations (h : d.FillsWith lits V d') :
    List.Forall₂ (Operation.FillsWith lits V) d.operations d'.operations := by
  refine List.rel_append ?_ h.named
  have ha := h.anonymous
  generalize d.anonymous = a at ha ⊢
  generalize d'.anonymous = a' at ha ⊢
  cases ha with
  | none => exact .nil
  | some ho => exact .cons ho .nil

theorem used_of_fills (h : List.Forall₂ (Fragment.Fills lits) d.fragments d'.fragments)
    {ss ss' : List Selection} (hss : Selection.FillsAll lits ss ss') :
    (d'.used ss').map (·.name) = (d.used ss).map (·.name) := by
  have hname : ∀ n, (d'.fragment? n).map (·.name) = (d.fragment? n).map (·.name) := by
    intro n
    obtain ⟨hn, hn'⟩ | ⟨f, f', hf, hf', hff⟩ := fragment?_cases h n
    · rw [hn, hn']
    · rw [hf, hf', Option.map_some, Option.map_some, hff.name]
  simp only [used, List.map_filterMap, hname, spreadsOf_of_fills h, room_of_fills h,
    Selection.spreadsAll_of_fills hss]

theorem map_name_of_fills (h : List.Forall₂ (Fragment.Fills lits) d.fragments d'.fragments) :
    d'.fragments.map (·.name) = d.fragments.map (·.name) :=
  (map_eq_map_iff.2 (h.imp fun _ _ hf => hf.name)).symm

theorem unusedFragments_eq_nil_iff : d.unusedFragments = [] ↔
    ∀ n ∈ d.fragments.map (·.name),
      n ∈ d.operations.flatMap fun o => (d.used o.selections).map (·.name) := by
  simp only [unusedFragments, List.map_flatMap, List.map_eq_nil_iff, List.filter_eq_nil_iff,
    List.forall_mem_map, Bool.not_eq_true', Bool.not_eq_false, List.contains_iff_mem]

/-- The fragments that are used are used in the filled document. -/
theorem unusedFragments_of_fills (h : d.FillsWith lits V d') (hd : d.unusedFragments = []) :
    d'.unusedFragments = [] := by
  rw [unusedFragments_eq_nil_iff] at hd ⊢
  have hused : (d'.operations.flatMap fun o => (d'.used o.selections).map (·.name)) =
      d.operations.flatMap fun o => (d.used o.selections).map (·.name) := by
    have hops := h.operations
    generalize d.operations = os at hops ⊢
    generalize d'.operations = os' at hops ⊢
    induction hops with
    | nil => rfl
    | cons ho _ ih => simp only [List.flatMap_cons, ih, used_of_fills h.fragments ho.selections]
  rwa [map_name_of_fills h.fragments, hused]

end Document

/-! ## Labels -/

theorem Selection.deferLabels_eq_nil (hdefer : s.directive? "defer" = none) {location : String}
    {ds : List Directive} : ∀ {seen : List Name},
      Directive.misfits s vars location seen ds = [] → deferLabels ds = [] := by
  induction ds with
  | nil => exact fun _ => rfl
  | cons d ds ih =>
    intro seen h
    simp only [Directive.misfits, List.append_eq_nil_iff] at h
    have hne : d.name ≠ "defer" := by
      intro hd
      simp [hd, hdefer] at h
    have hrest : deferLabels ds = [] := ih h.2
    simpa [deferLabels, hne] using hrest

namespace Selection

mutual

/-- Where the schema does not know the directive for them, there are no labels. -/
theorem labels_eq_nil (hdefer : s.directive? "defer" = none) : ∀ {parent : Name} {x : Selection},
    faults s d vars parent x = [] → labels x = []
  | parent, .field f body, h => by
    simp only [faults, Field.faults, List.append_eq_nil_iff] at h
    simp only [labels, deferLabels_eq_nil hdefer h.1.1.1, labelsAll_eq_nil hdefer h.2,
      List.append_nil]
  | parent, .inline i c ds body, h => by
    simp only [faults, List.append_eq_nil_iff] at h
    obtain ⟨⟨hds, hc⟩, hb⟩ := h
    rw [if_pos (conditionComposite_of_faults hc)] at hb
    simp only [labels, deferLabels_eq_nil hdefer hds, labelsAll_eq_nil hdefer hb, List.append_nil]
  | parent, .spread i n ds, h => by
    simp only [faults, List.append_eq_nil_iff] at h
    simp only [labels, deferLabels_eq_nil hdefer h.1]

theorem labelsAll_eq_nil (hdefer : s.directive? "defer" = none) :
    ∀ {parent : Name} {ss : List Selection}, faultsAll s d vars parent ss = [] →
      labelsAll ss = []
  | _, [], _ => rfl
  | parent, x :: xs, h => by
    simp only [faultsAll, List.append_eq_nil_iff] at h
    simp only [labelsAll, labels_eq_nil hdefer h.1, labelsAll_eq_nil hdefer h.2, List.append_nil]

end

end Selection

end

end RecordGateway.GraphQL
