import RecordGateway.Proofs.GraphQL.Filling.Merging

/-!
# Filled documents

Definitions that fill others provide the filled document (`ofDefinitions_of_fills`), and if the
original document is accepted, no rule finds a fault in the filled one (`faults_of_fills`). So the
filled definitions are accepted (`check_of_fills`).

Definitions fill others just as far as `unplaced` tells (`Definition.fills_of_unplaced`), and that
can be computed (`Definition.unplaced_eq_of_same`).
-/

namespace RecordGateway.GraphQL

variable {lits : Literals} {s : Schema}
  {V : List VariableDefinition → List VariableDefinition → Prop}

/-! ## Definitions -/

/-- The second definition is the first with literals for variables, wherever both stand; `V` relates
the variables of operations. -/
inductive Definition.FillsWith (lits : Literals)
    (V : List VariableDefinition → List VariableDefinition → Prop) : (x x' : Definition) → Prop
  | operation {o o' : Operation} (h : o.FillsWith lits V o') :
    FillsWith lits V (.operation o) (.operation o')
  | fragment {f f' : Fragment} (h : f.Fills lits f') :
    FillsWith lits V (.fragment f) (.fragment f')
  | system (i : Nat) (x : Bool) (d : SystemDefinition) :
    FillsWith lits V (.system i x d) (.system i x d)

/-- The second definition is the first with literals for variables and without variables. -/
abbrev Definition.Fills (lits : Literals) : Definition → Definition → Prop :=
  Definition.FillsWith lits NoVariables

/-- What is written like a filled definition fills the original one. -/
theorem Definition.fills_of_unplaced : ∀ {x x' : Definition},
    (x.fill lits).unplaced = x'.unplaced → x.Fills lits x'
  | .operation o, .operation o', h => by
    simp only [fill, unplaced, Definition.operation.injEq, Operation.mk.injEq, List.map_nil,
      List.map_map, Directive.subst_comp, Selection.substAll_substAll, Literals.or_noLiterals,
      nowhere_comp, true_and] at h
    obtain ⟨hkind, hname, hvars, hds, hss⟩ := h
    refine .operation ⟨hkind, ?_, List.map_eq_nil_iff.1 hvars.symm, map_eq_map_iff.1 hds,
      Selection.fillsAll_iff.2 hss⟩
    simpa [Function.comp_def] using congrArg (Option.map (·.1)) hname
  | .fragment f, .fragment f', h => by
    simp only [fill, unplaced, Definition.fragment.injEq, Fragment.mk.injEq, List.map_map,
      Directive.subst_comp, Selection.substAll_substAll, Literals.or_noLiterals, nowhere_comp,
      TypeCondition.move, TypeCondition.mk.injEq, true_and] at h
    obtain ⟨hname, ⟨-, hcondition⟩, hds, hss⟩ := h
    exact .fragment ⟨hname, hcondition, map_eq_map_iff.1 hds, Selection.fillsAll_iff.2 hss⟩
  | .system i x d, .system j y e, h => by
    cases h
    exact .system i x d
  | .operation _, .fragment _, h | .operation _, .system .., h | .fragment _, .operation _, h
  | .fragment _, .system .., h | .system .., .operation _, h | .system .., .fragment _, h => by
    cases h

/-- Whether two variables are defined alike, wherever the definitions stand. -/
def VariableDefinition.same (v w : VariableDefinition) : Bool :=
  v.name == w.name && v.type == w.type && Merging.sameDirectives v.directives w.directives &&
    match v.default, w.default with
    | none, none => true
    | some x, some y => x.same y
    | _, _ => false

theorem Definition.unplacedVariable_eq_of_same {v w : VariableDefinition} (h : v.same w = true) :
    unplacedVariable v = unplacedVariable w := by
  simp only [VariableDefinition.same, Bool.and_eq_true, beq_iff_eq,
    Merging.sameDirectives_iff] at h
  obtain ⟨⟨⟨hname, htype⟩, hds⟩, hdefault⟩ := h
  have hmoved : v.default.map (Value.subst noLiterals nowhere) =
      w.default.map (Value.subst noLiterals nowhere) := by
    generalize v.default = x at hdefault ⊢
    generalize w.default = y at hdefault ⊢
    cases x with
    | none =>
      cases y with
      | none => rfl
      | some y => cases hdefault
    | some x =>
      cases y with
      | none => cases hdefault
      | some y => exact congrArg some (Value.same_iff.1 hdefault)
  simp only [unplacedVariable, hname, htype, hmoved, map_eq_map_iff.2 hds]

/-- Whether two definitions are written alike, wherever their constructs stand. -/
def Definition.same : Definition → Definition → Bool
  | .operation o, .operation p =>
    o.kind == p.kind && o.name.map (·.1) == p.name.map (·.1) &&
      o.variableDefinitions.length == p.variableDefinitions.length &&
      ((o.variableDefinitions.zip p.variableDefinitions).all fun (v, w) => v.same w) &&
      Merging.sameDirectives o.directives p.directives &&
      Merging.sameSelections o.selections p.selections
  | .fragment f, .fragment g =>
    f.name == g.name && f.condition.name == g.condition.name &&
      Merging.sameDirectives f.directives g.directives &&
      Merging.sameSelections f.selections g.selections
  | _, _ => false

theorem Definition.unplaced_eq_of_same : ∀ {x y : Definition}, x.same y = true →
    x.unplaced = y.unplaced
  | .operation o, .operation p, h => by
    simp only [same, Bool.and_eq_true, beq_iff_eq, Merging.sameDirectives_iff,
      Merging.sameSelections_iff, Selection.fillsAll_iff] at h
    obtain ⟨⟨⟨⟨⟨hkind, hname⟩, hlength⟩, hvars⟩, hds⟩, hss⟩ := h
    have hplace : o.name.map (fun n => (n.1, 0)) = p.name.map (fun n => (n.1, 0)) := by
      simpa [Function.comp_def] using congrArg (Option.map (·, 0)) hname
    have hvars : o.variableDefinitions.map unplacedVariable =
        p.variableDefinitions.map unplacedVariable := by
      refine Merging.map_eq_map_of_all_zip (f := unplacedVariable) unplacedVariable_eq_of_same ?_
      simp only [hlength, hvars, beq_self_eq_true, Bool.and_self]
    simp only [unplaced, hkind, hplace, hvars, hss, map_eq_map_iff.2 hds]
  | .fragment f, .fragment g, h => by
    simp only [same, Bool.and_eq_true, beq_iff_eq, Merging.sameDirectives_iff,
      Merging.sameSelections_iff, Selection.fillsAll_iff] at h
    obtain ⟨⟨⟨hname, hcondition⟩, hds⟩, hss⟩ := h
    simp only [unplaced, hname, TypeCondition.move, hcondition, hss, map_eq_map_iff.2 hds]
    rfl
  | .operation _, .fragment _, h | .operation _, .system .., h | .fragment _, .operation _, h
  | .fragment _, .system .., h | .system .., _, h => by simp [same] at h

/-- Definitions are the same one by one, wherever things stand. -/
def Definition.sameAll (xs ys : List Definition) : Bool :=
  xs.length == ys.length && (xs.zip ys).all fun p => p.1.same p.2

theorem Definition.map_unplaced_of_sameAll {xs ys : List Definition} (h : sameAll xs ys = true) :
    xs.map unplaced = ys.map unplaced :=
  Merging.map_eq_map_of_all_zip (f := unplaced) unplaced_eq_of_same h

/-! ## Selections that fit -/

namespace Selection

mutual

theorem resolve_eq_self : ∀ {parent : Name} {x : Selection}, misfits s parent x = [] →
    resolve s parent x = some x
  | parent, .field f body, h => by
    simp only [misfits, resolve] at h ⊢
    split at h
    · cases h
    · simp only [resolveAll_eq_self h]
  | parent, .inline i c ds body, h => by
    simp only [misfits, resolve] at h ⊢
    split at h
    · cases h
    · simp only [resolveAll_eq_self h]
  | parent, .spread i n ds, _ => by simp only [resolve]

/-- Where everything fits, nothing is left out. -/
theorem resolveAll_eq_self : ∀ {parent : Name} {ss : List Selection},
    misfitsAll s parent ss = [] → resolveAll s parent ss = ss
  | _, [], _ => by simp only [resolveAll]
  | parent, x :: xs, h => by
    simp only [misfitsAll, List.append_eq_nil_iff] at h
    simp only [resolveAll, resolve_eq_self h.1, resolveAll_eq_self h.2, Option.toList_some,
      List.singleton_append]

end

/-- Filled selections fit where the original ones do. -/
theorem misfitsAll_of_fills {ss ss' : List Selection} (hss : FillsAll lits ss ss') :
    ∀ {parent : Name}, misfitsAll s parent ss = [] → misfitsAll s parent ss' = [] := by
  induction hss with
  | nil => exact fun h => h
  | @field f f' body body' _ _ hf hb _ ihb ih =>
    intro parent h
    obtain ⟨halias, hname, -⟩ := Field.fills_iff.1 hf
    simp only [misfitsAll, misfits, List.append_eq_nil_iff] at h ⊢
    refine ⟨?_, ih h.2⟩
    have hfit : f.misfit? s parent body = none := by
      have := h.1
      split at this
      · cases this
      · assumption
    have hfit' : f'.misfit? s parent body' = none := by
      unfold Field.misfit? at hfit ⊢
      rw [← hname, isEmpty_of_fills hb]
      split at hfit
      · cases hfit
      · split at hfit
        · cases hfit
        · simp_all
    have hbody := h.1
    rw [hfit] at hbody
    rw [hfit', ← hname]
    exact ihb hbody
  | @inline i i' c c' ds ds' body body' _ _ hc _ _ _ ihb ih =>
    intro parent h
    simp only [misfitsAll, misfits, List.append_eq_nil_iff] at h ⊢
    refine ⟨?_, ih h.2⟩
    have hbody := h.1
    cases hfit : c.bind (·.misfit? s) with
    | some p => simp [hfit] at hbody
    | none =>
      have hfit' : c'.bind (·.misfit? s) = none := by
        match c, c' with
        | none, none => rfl
        | none, some c' => cases hc
        | some c, none => cases hc
        | some c, some c' =>
          simp only [Option.map_some, Option.some.injEq] at hc
          simpa [TypeCondition.misfit?, hc] using hfit
      rw [hfit] at hbody
      rw [hfit', conditionName_of_map_eq parent hc]
      exact ihb hbody
  | spread _ _ ih =>
    intro parent h
    simp only [misfitsAll, misfits, List.nil_append] at h ⊢
    exact ih h

end Selection

/-! ## Building a document -/

namespace Document

/-- A definition goes into a document as it is, without a problem. -/
inductive Takes (s : Schema) (d : Document) : Definition → Document → Prop
  | named {o : Operation} {n : Name} {i : Nat} {root : Name} (hname : o.name = some (n, i))
    (ha : d.anonymous = none) (hn : d.named.any (·.nameIs n) = false)
    (hr : s.root? o.kind = some root) (hm : Selection.misfitsAll s root o.selections = []) :
    Takes s d (.operation o) { d with named := d.named ++ [o] }
  | anonymous {o : Operation} {root : Name} (hname : o.name = none) (ha : d.anonymous = none)
    (hn : d.named = []) (hr : s.root? o.kind = some root)
    (hm : Selection.misfitsAll s root o.selections = []) :
    Takes s d (.operation o) { d with anonymous := some o }
  | fragment {f : Fragment} (hn : d.fragments.any (·.name == f.name) = false)
    (hc : f.condition.misfit? s = none)
    (hm : Selection.misfitsAll s f.condition.name f.selections = []) :
    Takes s d (.fragment f) { d with fragments := d.fragments ++ [f] }

namespace Draft

theorem resolveOperation_of_misfits {o : Operation} {root : Name} (hr : s.root? o.kind = some root)
    (hm : Selection.misfitsAll s root o.selections = []) :
    resolveOperation s o = some (o, []) := by
  simp only [resolveOperation, hr, Option.map_some, hm, Selection.resolveAll_eq_self hm]

theorem resolveOperation_ok {o o' : Operation} (h : resolveOperation s o = some (o', [])) :
    o' = o ∧ ∃ root, s.root? o.kind = some root ∧
      Selection.misfitsAll s root o.selections = [] := by
  simp only [resolveOperation, Option.map_eq_some_iff, Prod.mk.injEq] at h
  obtain ⟨root, hr, rfl, hm⟩ := h
  exact ⟨by rw [Selection.resolveAll_eq_self hm], root, hr, hm⟩

/-- An operation that is resolved without a problem is there as it is. -/
theorem resolved_of_problems {d : Draft} {o o' : Operation} {ps : List Diagnostic}
    (ho : resolveOperation s o = some (o', ps)) (h : (d.report ps).problems = []) :
    d.problems = [] ∧ o' = o ∧ ∃ root, s.root? o.kind = some root ∧
      Selection.misfitsAll s root o.selections = [] := by
  obtain ⟨hp, rfl⟩ : d.problems = [] ∧ ps = [] := by simpa [report] using h
  exact ⟨hp, resolveOperation_ok ho⟩

theorem takes_of_addAnonymous {d : Draft} {o : Operation} (hname : o.name = none)
    (h : (d.addAnonymous s o).problems = []) :
    d.problems = [] ∧ Takes s d.document (.operation o) (d.addAnonymous s o).document := by
  unfold addAnonymous at h ⊢
  cases ha : d.document.anonymous with
  | some a => simp [ha, report] at h
  | none =>
    simp only [ha] at h ⊢
    split at h
    · simp [report] at h
    rename_i hn
    cases ho : resolveOperation s o with
    | none => simp [ho, report] at h
    | some p =>
      obtain ⟨o', ps⟩ := p
      simp only [ho] at h
      obtain ⟨hp, rfl, root, hr, hm⟩ := resolved_of_problems (d := d) ho h
      simp only [if_neg hn, report]
      exact ⟨hp, .anonymous hname ha (by simpa using hn) hr hm⟩

theorem takes_of_addNamed {d : Draft} {o : Operation} {n : Name} {i : Nat}
    (hname : o.name = some (n, i)) (h : (d.addNamed s o n i).problems = []) :
    d.problems = [] ∧ Takes s d.document (.operation o) (d.addNamed s o n i).document := by
  unfold addNamed at h ⊢
  cases ha : d.document.anonymous with
  | some a =>
    simp only [ha] at h
    split at h
    · simp [report] at h
    · split at h <;> simp [report] at h
  | none =>
    simp only [ha] at h ⊢
    split at h
    · simp [report] at h
    rename_i hn
    cases ho : resolveOperation s o with
    | none => simp [ho, report] at h
    | some p =>
      obtain ⟨o', ps⟩ := p
      simp only [ho] at h
      obtain ⟨hp, rfl, root, hr, hm⟩ := resolved_of_problems (d := d) ho h
      have htakes := Takes.named hname ha (by simpa using hn) hr hm
      rw [ha] at htakes
      simp only [if_neg hn, report]
      exact ⟨hp, htakes⟩

theorem takes_of_addFragment {d : Draft} {f : Fragment} (h : (d.addFragment s f).problems = []) :
    d.problems = [] ∧ Takes s d.document (.fragment f) (d.addFragment s f).document := by
  unfold addFragment at h ⊢
  split at h
  · simp [report] at h
  rename_i hn
  cases hc : f.condition.misfit? s with
  | some p => simp [hc, report] at h
  | none =>
    simp only [hc, report, List.append_eq_nil_iff] at h
    simp only [if_neg hn, report, Selection.resolveAll_eq_self h.2]
    exact ⟨h.1, .fragment (by simpa using hn) hc h.2⟩

/-- Where no problem comes up, a definition is taken. -/
theorem takes_of_add {d : Draft} {x : Definition} (h : (d.add s x).problems = []) :
    d.problems = [] ∧ Takes s d.document x (d.add s x).document := by
  unfold add at h ⊢
  split at h
  · rename_i o
    cases hname : o.name with
    | none =>
      simp only [hname] at h ⊢
      exact takes_of_addAnonymous hname h
    | some p =>
      simp only [hname] at h ⊢
      exact takes_of_addNamed hname h
  · exact takes_of_addFragment h
  all_goals simp [report] at h

/-- What is taken comes up with no problem. -/
theorem add_of_takes {d : Draft} {d₁ : Document} {x : Definition} (hp : d.problems = [])
    (h : Takes s d.document x d₁) :
    (d.add s x).document = d₁ ∧ (d.add s x).problems = [] := by
  cases h with
  | named hname ha hn hr hm =>
    simp [add, hname, addNamed, ha, hn, resolveOperation_of_misfits hr hm, report, hp]
  | anonymous hname ha hn hr hm =>
    simp [add, hname, addAnonymous, ha, hn, resolveOperation_of_misfits hr hm, report, hp]
  | fragment hn hc hm =>
    simp [add, addFragment, hn, hc, report, hp, hm, Selection.resolveAll_eq_self hm]

theorem problems_of_foldl_add : ∀ {xs : List Definition} {d : Draft},
    (xs.foldl (add s) d).problems = [] → d.problems = []
  | [], _, h => h
  | _ :: _, _, h => (takes_of_add (problems_of_foldl_add h)).1

end Draft

section
variable {d d₁ d' : Document}

theorem any_name_of_fills {fs fs' : List Fragment} (h : List.Forall₂ (Fragment.Fills lits) fs fs')
    (n : Name) : fs'.any (·.name == n) = fs.any (·.name == n) := by
  induction h with
  | nil => rfl
  | cons hf _ ih => rw [List.any_cons, List.any_cons, ih, hf.name]

theorem nameIs_of_fills {o o' : Operation} (h : o.FillsWith lits V o') (n : Name) :
    o'.nameIs n = o.nameIs n := by
  have hname : ∀ o : Operation, o.nameIs n = (o.name.map (·.1)).any (· == n) := fun o => by
    simp [Operation.nameIs, Option.any_map]
  rw [hname o, hname o', h.name]

theorem any_nameIs_of_fills {os os' : List Operation}
    (h : List.Forall₂ (Operation.FillsWith lits V) os os') (n : Name) :
    os'.any (·.nameIs n) = os.any (·.nameIs n) := by
  induction h with
  | nil => rfl
  | cons ho _ ih => rw [List.any_cons, List.any_cons, ih, nameIs_of_fills ho]

/-- A filled document takes a filled definition. -/
theorem Takes.of_fills {x x' : Definition} (h : Takes s d x d₁) (hd : d.FillsWith lits V d')
    (hx : x.FillsWith lits V x') : ∃ d₁', Takes s d' x' d₁' ∧ d₁.FillsWith lits V d₁' := by
  have hanonymous : d.anonymous = none → d'.anonymous = none := by
    intro ha
    have hrel := hd.anonymous
    rw [ha] at hrel
    generalize d'.anonymous = a at hrel ⊢
    cases hrel
    rfl
  cases h with
  | @named o n i root hname ha hn hr hm =>
    cases hx with
    | @operation _ o' ho =>
      have hsame := ho.name
      rw [hname] at hsame
      obtain ⟨⟨m, j⟩, hname', rfl⟩ := Option.map_eq_some_iff.1 hsame.symm
      refine ⟨_, .named hname' (hanonymous ha) ?_ (ho.kind ▸ hr)
        (Selection.misfitsAll_of_fills ho.selections hm), hd.anonymous,
        List.rel_append hd.named (.cons ho .nil), hd.fragments⟩
      rw [any_nameIs_of_fills hd.named]
      exact hn
  | @anonymous o root hname ha hn hr hm =>
    cases hx with
    | @operation _ o' ho =>
      have hname' : o'.name = none := by
        have := ho.name
        rwa [hname, Option.map_none, eq_comm, Option.map_eq_none_iff] at this
      have hnamed := hd.named
      rw [hn, List.forall₂_nil_left_iff] at hnamed
      exact ⟨_, .anonymous hname' (hanonymous ha) hnamed (ho.kind ▸ hr)
        (Selection.misfitsAll_of_fills ho.selections hm), .some ho, hd.named, hd.fragments⟩
  | @fragment f hn hc hm =>
    cases hx with
    | @fragment _ f' hf =>
      refine ⟨_, .fragment ?_ ?_ ?_, hd.anonymous, hd.named,
        List.rel_append hd.fragments (.cons hf .nil)⟩
      · rw [any_name_of_fills hd.fragments, ← hf.name]
        exact hn
      · simpa [TypeCondition.misfit?, hf.condition] using hc
      · rw [← hf.condition]
        exact Selection.misfitsAll_of_fills hf.selections hm

end

theorem foldl_add_of_fills {xs xs' : List Definition}
    (h : List.Forall₂ (Definition.FillsWith lits V) xs xs') : ∀ {d d' : Draft},
      d.document.FillsWith lits V d'.document → d'.problems = [] →
        (xs.foldl (Draft.add s) d).problems = [] →
          (xs.foldl (Draft.add s) d).document.FillsWith lits V
            (xs'.foldl (Draft.add s) d').document ∧
            (xs'.foldl (Draft.add s) d').problems = [] := by
  induction h with
  | nil => exact fun hd hp _ => ⟨hd, hp⟩
  | @cons x x' xs xs' hx _ ih =>
    intro d d' hd hp' hp
    obtain ⟨-, htakes⟩ := Draft.takes_of_add (Draft.problems_of_foldl_add hp)
    obtain ⟨d₁', htakes', hfills⟩ := htakes.of_fills hd hx
    obtain ⟨hdoc, hproblems⟩ := Draft.add_of_takes hp' htakes'
    exact ih (hdoc ▸ hfills) hproblems hp

/-- Filled definitions provide the filled document. -/
theorem ofDefinitions_of_fills {d : Document} {xs xs' : List Definition}
    (h : List.Forall₂ (Definition.FillsWith lits V) xs xs')
    (hd : ofDefinitions s xs = (d, [])) :
    ∃ d', ofDefinitions s xs' = (d', []) ∧ d.FillsWith lits V d' := by
  simp only [ofDefinitions, Prod.mk.injEq] at hd
  obtain ⟨rfl, hp⟩ := hd
  have hempty : FillsWith lits V ({} : Draft).document ({} : Draft).document :=
    ⟨.none, .nil, .nil⟩
  obtain ⟨hfills, hp'⟩ := foldl_add_of_fills h hempty rfl hp
  exact ⟨_, Prod.ext rfl hp', hfills⟩

/-! ## Documents without faults -/

theorem operations_of_fills {d d' : Document} (h : d.FillsWith lits V d') {o : Operation}
    (ho : d.operations = [o]) : ∃ o', o.FillsWith lits V o' ∧ d'.operations = [o'] := by
  have hops := h.operations
  rw [ho] at hops
  obtain ⟨o', rest, hoo, hrest, heq⟩ := List.forall₂_cons_left_iff.1 hops
  cases hrest
  exact ⟨o', hoo, heq⟩

/-- What is wrong with a document with a single query, all of whose selections are right and used:
fields that cannot be merged. -/
theorem faults_eq_conflicts {d : Document} (hdefer : s.directive? "defer" = none) {o : Operation}
    (ho : d.operations = [o]) (hkind : o.kind = .query) (hop : o.faults s d = [])
    (hunused : d.unusedFragments = [])
    (hfragments : ∀ f ∈ d.fragments,
      Selection.faultsAll s d o.variableDefinitions f.condition.name f.selections = [])
    {ps : List Diagnostic} (hps : Merging.conflicts s d [] [] [o] = [ps]) : d.faults s = ps := by
  -- labels stand in selections that are without faults
  have hlabels : d.labelFaults = [] := by
    have hown : Selection.labelsAll o.selections = [] := by
      simp only [Operation.faults, List.append_eq_nil_iff] at hop
      exact Selection.labelsAll_eq_nil hdefer hop.1.2
    have hrest : d.fragments.flatMap (fun f => Selection.labelsAll f.selections) = [] :=
      List.flatMap_eq_nil_iff.2 fun f hf => Selection.labelsAll_eq_nil hdefer (hfragments f hf)
    simp only [labelFaults, ho, List.flatMap_cons, List.flatMap_nil, hown, hrest, List.append_nil]
    rfl
  simp [Document.faults, ho, hop, hunused, hlabels, hps, Operation.subscriptionFaults, hkind]

/-- In a document that fills an accepted one with a single operation no rule finds a fault. -/
theorem faults_of_fills {d d' : Document} (hs : s.HasScalars)
    (hdefer : s.directive? "defer" = none) (hd : Accepted s d) {o : Operation}
    (ho : d.operations = [o]) (hkind : o.kind = .query) (hc : lits.Cover o.variableDefinitions)
    (h : d.Fills lits d') : d'.faults s = [] := by
  have hfaults := hd.faults
  simp only [Document.faults, ho, List.append_eq_nil_iff, List.flatMap_cons, List.flatMap_nil,
    List.append_nil] at hfaults
  obtain ⟨⟨⟨hop, hunused⟩, -⟩, hmerge⟩ := hfaults
  obtain ⟨o', hoo, ho'⟩ := operations_of_fills h ho
  have hvars' : o'.variableDefinitions = [] := hoo.variableDefinitions
  have hserves : lits.Serves o.variableDefinitions o'.variableDefinitions := by
    rw [hvars']
    exact hc.serves
  obtain ⟨reached, hv⟩ := Operation.vetted_of_accepted hd (ho ▸ List.mem_singleton_self o)
  refine faults_eq_conflicts hdefer ho' (hoo.kind ▸ hkind) ?_
    (unusedFragments_of_fills h hunused) (fun f' hf' => ?_) ?_
  · exact Operation.faults_of_fills hs h.fragments hserves hoo (by rw [hvars']; rfl)
      (by rw [hvars']; rfl) hop
  · obtain ⟨f, hf, hff⟩ := exists_mem_of_forall₂ h.fragments.flip hf'
    have hff : f.Fills lits f' := hff
    rw [← hff.condition]
    exact Selection.faultsAll_of_fills hs hserves h.fragments hff.selections
      (hd.faultsAll_fragments ho f hf)
  · refine Merging.conflicts_of_fills h.fragments hoo hv.bounded ?_
    obtain ⟨c, hcs⟩ := List.length_eq_one_iff.1 (Merging.length_conflicts s d [o] [] [])
    rw [hcs] at hmerge ⊢
    simp only [List.zip_cons_cons, List.zip_nil_right, List.flatMap_cons, List.flatMap_nil,
      List.append_nil, List.append_eq_nil_iff] at hmerge
    rw [hmerge.2]

/-- Definitions that fill those of an accepted document with a single query are accepted. -/
theorem check_of_fills {d : Document} {xs xs' : List Definition} (hs : s.HasScalars)
    (hdefer : s.directive? "defer" = none) (hd : Accepted s d)
    (hxs : ofDefinitions s xs = (d, [])) {o : Operation} (ho : d.operations = [o])
    (hkind : o.kind = .query) (hc : lits.Cover o.variableDefinitions)
    (h : List.Forall₂ (Definition.Fills lits) xs xs') :
    ∃ d', check s xs' = (d', []) ∧ d.Fills lits d' := by
  obtain ⟨d', hd', hfills⟩ := ofDefinitions_of_fills h hxs
  refine ⟨d', ?_, hfills⟩
  rw [check, hd']
  simp [faults_of_fills hs hdefer hd ho hkind hc hfills, Diagnostic.sort]

end Document

end RecordGateway.GraphQL
