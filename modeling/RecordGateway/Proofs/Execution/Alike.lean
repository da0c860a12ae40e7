import RecordGateway.Proofs.Execution.Literals
import RecordGateway.Proofs.GraphQL.Cut.Document

/-!
# Executing what is written alike

Where documents agree on what selections spread, or are written alike, the selections are expanded
alike (`Expands.of_agrees`, `Expands.of_fills`), and the same conditions are asked in the same order
(`stations_of_fills`). Variables that are defined alike and have the same values decide them alike
(`Bindings.Alike`). So the walks find root fields that are written alike, or fail with the same
error (`Bindings.Alike.survey_eq`).
-/

namespace RecordGateway.GraphQL.Expands

variable {d d' : Document} {ss ts : List Selection}

/-- Selections have the same expansion in documents that agree on what they spread. -/
theorem of_agrees {ns : List Name} (h : d.Agrees d' ns) (hts : Expands d ss ts) :
    Selection.spreadsAll ss ⊆ ns → Expands d' ss ts := by
  induction hts with
  | nil => exact fun _ => .nil
  | field _ ih => exact fun hss => .field (ih (List.append_subset.1 hss).2)
  | inline _ _ ihb ih =>
    intro hss
    obtain ⟨hbody, hss⟩ := List.append_subset.1 hss
    exact .inline (ihb hbody) (ih hss)
  | @spread _ n _ f _ _ _ hf _ _ ihb ih =>
    intro hss
    obtain ⟨hn, hss⟩ := List.append_subset.1 hss
    have hn : n ∈ ns := hn (List.mem_singleton_self n)
    exact .spread ((h.fragment? n hn).trans hf) (ihb (h.closed n hn f hf)) (ih hss)

/-- Filled selections have a filled expansion. -/
theorem of_fills {lits : Literals}
    (h : List.Forall₂ (Fragment.Fills lits) d.fragments d'.fragments) (hts : Expands d ss ts) :
    ∀ {ss' : List Selection}, Selection.FillsAll lits ss ss' →
      ∃ ts', Expands d' ss' ts' ∧ Selection.FillsAll lits ts ts' := by
  induction hts with
  | nil =>
    intro ss' hss
    cases hss
    exact ⟨[], .nil, .nil⟩
  | field _ ih =>
    intro ss' hss
    cases hss with
    | field hf hb hs =>
      obtain ⟨ts', hts', hfills⟩ := ih hs
      exact ⟨_, .field hts', .field hf hb hfills⟩
  | inline _ _ ihb ih =>
    intro ss' hss
    cases hss with
    | inline hc hd hb hs =>
      obtain ⟨inside', hinside, hfillsInside⟩ := ihb hb
      obtain ⟨ts', hts', hfills⟩ := ih hs
      exact ⟨_, .inline hinside hts', .inline hc hd hfillsInside hfills⟩
  | @spread _ n _ f _ _ _ hf _ _ ihb ih =>
    intro ss' hss
    cases hss with
    | spread hd hs =>
      obtain ⟨hn, -⟩ | ⟨g, f', hg, hf', hff⟩ := Document.fragment?_cases h n
      · cases hn.symm.trans hf
      obtain rfl := Option.some.inj (hf.symm.trans hg)
      obtain ⟨inside', hinside, hfillsInside⟩ := ihb hff.selections
      obtain ⟨ts', hts', hfills⟩ := ih hs
      exact ⟨_, .spread hf' hinside hts',
        .inline (congrArg some hff.condition) hd hfillsInside hfills⟩

end RecordGateway.GraphQL.Expands

namespace RecordGateway.GraphQL

/-- Two values are the same literal, the same variable, both lists or both objects. -/
inductive Value.SameForm : (v v' : Value) → Prop
  | ofLiteral (i j : Nat) (l : Literal) : SameForm (.literal i l) (.literal j l)
  | ofVariable (i j : Nat) (n : Name) : SameForm (.variable i n) (.variable j n)
  | ofList (i j : Nat) (vs ws : List Value) : SameForm (.list i vs) (.list j ws)
  | ofObject (i j : Nat) (fs gs : List (Name × Value)) : SameForm (.object i fs) (.object j gs)

theorem Value.sameForm_of_fills : ∀ {v v' : Value}, v.Fills noLiterals v' → v.SameForm v'
  | .literal i l, _, h => by
    obtain ⟨j, rfl⟩ := fills_literal h
    exact .ofLiteral i j l
  | .variable i n, _, h => by
    obtain ⟨j, rfl⟩ := fills_unfilled rfl h
    exact .ofVariable i j n
  | .list i vs, _, h => by
    obtain ⟨j, ws, rfl, -⟩ := fills_list h
    exact .ofList i j vs ws
  | .object i fs, _, h => by
    obtain ⟨j, gs, rfl, -⟩ := fills_object h
    exact .ofObject i j fs gs

end RecordGateway.GraphQL

namespace RecordGateway

open GraphQL

/-! ## Stations -/

/-- The second station is the first with literals for variables. -/
structure Station.Fills (lits : Literals) (t t' : Station) : Prop where
  guards : List.Forall₂ (Directive.Fills lits) t.guards t'.guards
  field : Option.Rel (RootField.Fills lits) t.field? t'.field?

/-- In filled selections there are filled stations. -/
theorem stations_of_fills {lits : Literals} {rootField : Name} {ts ts' : List Selection}
    (h : Selection.FillsAll lits ts ts') : ∀ {around around' : List Directive},
      List.Forall₂ (Directive.Fills lits) around around' →
        List.Forall₂ (Station.Fills lits) (stations rootField around ts)
          (stations rootField around' ts') := by
  induction h with
  | nil => exact fun _ => .nil
  | field hf hb _ _ ih =>
    intro around around' ha
    obtain ⟨-, hname, -, hds⟩ := Field.fills_iff.1 hf
    refine List.rel_append ?_ (ih ha)
    simp only [stationsIn, ← hname]
    split
    · exact .cons ⟨List.rel_append ha hds, .some ⟨hf, hb⟩⟩ .nil
    · exact .nil
  | inline _ hd _ _ ihb ih =>
    intro around around' ha
    have hguards := List.rel_append ha hd
    exact List.rel_append (.cons ⟨hguards, .none⟩ (ihb hguards)) (ih ha)
  | spread _ _ ih => exact fun ha => ih ha

/-! ## Bindings -/

namespace Bindings

/-- The variables are defined alike and have the same values. -/
structure Alike (b b' : Bindings) : Prop where
  definitions : List.Forall₂ VariableDefinition.Alike b.definitions b'.definitions
  values : b.values = b'.values

namespace Alike

variable {b b' : Bindings} (h : b.Alike b')
include h

theorem value?_eq (n : Name) : b.value? n = b'.value? n := by rw [value?, value?, h.values]

/-- Defaults have the same form. -/
theorem default?_rel (n : Name) : Option.Rel Value.SameForm (b.default? n) (b'.default? n) := by
  have hfind := find?_rel h.definitions (p := (·.name == n)) (q := (·.name == n))
    fun v v' hv => by rw [hv.name]
  unfold default?
  generalize b.definitions.find? (·.name == n) = x at hfind ⊢
  generalize b'.definitions.find? (·.name == n) = y at hfind ⊢
  cases hfind with
  | none => exact .none
  | @some v v' hv =>
    have hdefault := hv.default
    simp only [Option.bind_some]
    generalize v.default = x at hdefault ⊢
    generalize v'.default = y at hdefault ⊢
    cases hdefault with
    | none => exact .none
    | some hw => exact .some (Value.sameForm_of_fills hw)

theorem requiredError?_eq {v v' : VariableDefinition} (hv : v.Alike v') :
    b.requiredError? v = b'.requiredError? v' := by
  unfold requiredError?
  rw [← hv.type, ← hv.name, h.value?_eq]
  have hdefault := hv.default
  generalize v.default = x at hdefault ⊢
  generalize v'.default = y at hdefault ⊢
  cases hdefault with
  | none => rfl
  | some =>
    cases b'.value? v.name with
    | none => rfl
    | some j => cases j <;> rfl

theorem checkRequired_eq : b.checkRequired = b'.checkRequired := by
  have hfirst : b.definitions.findSome? b.requiredError? =
      b'.definitions.findSome? b'.requiredError? := by
    have hvars := h.definitions
    generalize b.definitions = vs at hvars ⊢
    generalize b'.definitions = vs' at hvars ⊢
    induction hvars with
    | nil => rfl
    | cons hv _ ih => rw [List.findSome?_cons, List.findSome?_cons, h.requiredError?_eq hv, ih]
  simp only [checkRequired, hfirst]

/-! ### Conditions -/

theorem boolean_eq {v v' : Value} (hv : v.Fills noLiterals v') : b.boolean v = b'.boolean v' := by
  cases Value.sameForm_of_fills hv with
  | ofLiteral i j l => cases l <;> rfl
  | ofVariable i j n =>
    simp only [boolean, h.value?_eq]
    have hdefault := h.default?_rel n
    generalize b.default? n = x at hdefault ⊢
    generalize b'.default? n = y at hdefault ⊢
    cases hdefault with
    | none => rfl
    | some hw =>
      cases hw with
      | ofLiteral i j l => cases l <;> rfl
      | _ => rfl
  | _ => rfl

theorem kept_eq {g g' : Directive} (hg : g.Fills noLiterals g') : b.kept g = b'.kept g' := by
  obtain ⟨hname, hargs⟩ := Directive.fills_iff.1 hg
  have hfind := Argument.find?_of_fills hargs "if"
  simp only [kept, ← hname]
  cases skipsWhen? g.name with
  | none => rfl
  | some s =>
    generalize g.arguments.find? (·.name == "if") = x at hfind ⊢
    generalize g'.arguments.find? (·.name == "if") = y at hfind ⊢
    cases hfind with
    | none => rfl
    | some ha => simp only [h.boolean_eq (Argument.fills_iff.1 ha).2]

theorem included_eq {gs gs' : List Directive}
    (hgs : List.Forall₂ (Directive.Fills noLiterals) gs gs') :
    b.included gs = b'.included gs' := by
  induction hgs with
  | nil => rfl
  | cons hg _ ih => simp only [included, h.kept_eq hg, ih]

/-- The walks fail with the same error, or find root fields that are written alike. -/
theorem survey_eq {ts ts' : List Station}
    (hts : List.Forall₂ (Station.Fills noLiterals) ts ts') :
    (∃ e, b.survey ts = .error e ∧ b'.survey ts' = .error e) ∨
      FindsFilled noLiterals (b.survey ts) (b'.survey ts') := by
  induction hts with
  | nil => exact .inr .nil
  | @cons t t' ts ts' ht _ ih =>
    simp only [survey, ← h.included_eq ht.guards]
    cases b.included t.guards with
    | error e => exact .inl ⟨e, rfl, rfl⟩
    | ok k =>
      obtain ⟨e, he, he'⟩ | ⟨fs, fs', hfs, hfs', hff⟩ := ih
      · exact .inl ⟨e, by rw [he], by rw [he']⟩
      · rw [hfs, hfs']
        refine .inr ⟨_, _, rfl, rfl, List.rel_append ?_ hff⟩
        cases k with
        | false => exact .nil
        | true =>
          have hfield := ht.field
          generalize t.field? = x at hfield ⊢
          generalize t'.field? = y at hfield ⊢
          cases hfield with
          | none => exact .nil
          | some hf => exact .cons hf .nil

/-! ### Ids -/

theorem text_eq {v v' : Value} (hv : v.Fills noLiterals v') : b.text v = b'.text v' := by
  cases Value.sameForm_of_fills hv with
  | ofLiteral i j l => cases l <;> rfl
  | ofVariable i j n =>
    simp only [text, h.value?_eq]
    have hdefault := h.default?_rel n
    generalize b.default? n = x at hdefault ⊢
    generalize b'.default? n = y at hdefault ⊢
    cases hdefault with
    | none => rfl
    | some hw =>
      cases hw with
      | ofLiteral i j l => cases l <;> rfl
      | _ => rfl
  | _ => rfl

theorem argument_eq {as as' : List Argument}
    (has : List.Forall₂ (Argument.Fills noLiterals) as as') (name : Name) :
    b.argument as name = b'.argument as' name := by
  have hfind := Argument.find?_of_fills has name
  unfold argument
  generalize as.find? (·.name == name) = x at hfind ⊢
  generalize as'.find? (·.name == name) = y at hfind ⊢
  cases hfind with
  | none => rfl
  | some ha => exact h.text_eq (Argument.fills_iff.1 ha).2

end Alike

end Bindings

end RecordGateway
