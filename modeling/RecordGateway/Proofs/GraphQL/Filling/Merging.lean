import RecordGateway.Proofs.GraphQL.Filling.Alike
import RecordGateway.Proofs.GraphQL.Filling.Rules
import RecordGateway.Proofs.GraphQL.Filling.Survey

/-!
# The merging of fields in a filled document

Filled sets are expanded, grouped and compared as the original ones are, so a filled set has no
conflict that the original one does not have (`shapeConflicts_of_fills`, `fieldConflicts_of_fills`).
The surveys of an operation and of the filled one need not meet as many sets, but the second stays
within the first (`mirrors`). So there are no conflicts in the filled operation
(`conflicts_of_fills`).

For the second survey to stay within the first, fields may not nest without end (`Nested`).
-/

namespace RecordGateway.GraphQL.Merging

variable {lits : Literals} {s : Schema} {d d' : Document}

/-! ## Expansions -/

/-- The second set to be expanded is the first with literals for variables. -/
def PendingFills (lits : Literals) (p p' : Pending) : Prop :=
  p.1 = p'.1 ∧ Selection.FillsAll lits p.2 p'.2

theorem setsInAll_of_fills {ss ss' : List Selection} (h : Selection.FillsAll lits ss ss') :
    setsInAll ss' = setsInAll ss := by
  induction h with
  | nil => rfl
  | field _ _ _ _ ih => simp only [setsInAll, setsIn, ih]
  | inline _ _ _ _ ihb ih => simp only [setsInAll, setsIn, ihb, ih]
  | spread _ _ ih => simp only [setsInAll, setsIn, ih]

theorem countSets_of_fills {sets sets' : List (List Selection)}
    (h : List.Forall₂ (Selection.FillsAll lits) sets sets') : countSets sets' = countSets sets := by
  induction h with
  | nil => rfl
  | cons hss _ ih => rw [countSets_cons, countSets_cons, setsInAll_of_fills hss, ih]

section
variable (h : List.Forall₂ (Fragment.Fills lits) d.fragments d'.fragments)
include h

theorem expansionBound_of_fills {ps ps' : List Pending}
    (hps : List.Forall₂ (PendingFills lits) ps ps') :
    expansionBound d' ps' = expansionBound d ps := by
  have hown : List.Forall₂ (Selection.FillsAll lits) (ps.map (·.2)) (ps'.map (·.2)) :=
    List.rel_map (fun _ _ hp => hp.2) hps
  have hfragments : List.Forall₂ (Selection.FillsAll lits) (d.fragments.map (·.selections))
      (d'.fragments.map (·.selections)) := List.rel_map (fun _ _ hf => hf.selections) h
  rw [expansionBound, expansionBound, countSets_of_fills hown, countSets_of_fills hfragments]

/-- Filled sets are taken apart alike. -/
theorem split_of_fills {ss ss' : List Selection} (hss : Selection.FillsAll lits ss ss') :
    ∀ (parent : Name) (seen : List Name),
      SetFills lits (split d parent seen ss).1 (split d' parent seen ss').1 ∧
        List.Forall₂ (PendingFills lits) (split d parent seen ss).2.1
          (split d' parent seen ss').2.1 ∧
        (split d' parent seen ss').2.2 = (split d parent seen ss).2.2 := by
  induction hss with
  | nil => exact fun _ _ => ⟨.nil, .nil, rfl⟩
  | field hf hb _ _ ih =>
    intro parent seen
    obtain ⟨hos, hps, hseen⟩ := ih parent seen
    exact ⟨.cons ⟨rfl, hf, hb⟩ hos, hps, hseen⟩
  | inline hc _ hb _ _ ih =>
    intro parent seen
    obtain ⟨hos, hps, hseen⟩ := ih parent seen
    exact ⟨hos, .cons ⟨(Selection.conditionName_of_map_eq parent hc).symm, hb⟩ hps, hseen⟩
  | @spread i i' n ds ds' ss ss' _ _ ih =>
    intro parent seen
    unfold split
    split
    · exact ih parent seen
    · obtain ⟨hos, hps, hseen⟩ := ih parent (seen ++ [n])
      obtain ⟨hn, hn'⟩ | ⟨f, f', hf, hf', hff⟩ := Document.fragment?_cases h n
      · simp only [hn, hn']
        exact ⟨hos, hps, hseen⟩
      · simp only [hf, hf']
        exact ⟨hos, .cons ⟨hff.condition, hff.selections⟩ hps, hseen⟩

theorem expandQueue_of_fills : ∀ (bound : Nat) (seen : List Name) {ps ps' : List Pending},
    List.Forall₂ (PendingFills lits) ps ps' →
      SetFills lits (expandQueue d bound seen ps) (expandQueue d' bound seen ps')
  | 0, _, _, _, _ => .nil
  | _ + 1, _, _, _, .nil => .nil
  | bound + 1, seen, (parent, ss) :: ps, (parent', ss') :: ps', .cons hp hps => by
    obtain ⟨rfl, hss⟩ : parent = parent' ∧ Selection.FillsAll lits ss ss' := hp
    obtain ⟨hos, hnew, hseen⟩ := split_of_fills h hss parent seen
    simp only [expandQueue, hseen]
    exact List.rel_append hos (expandQueue_of_fills bound _ (List.rel_append hps hnew))

theorem expand_of_fills {ps ps' : List Pending} (hps : List.Forall₂ (PendingFills lits) ps ps') :
    SetFills lits (expand d ps) (expand d' ps') := by
  rw [expand, expand, expansionBound_of_fills h hps]
  exact expandQueue_of_fills h _ _ hps

end

/-! ## Groups -/

/-- Lists of related elements with the same keys have related parts. -/
theorem groupBy_rel {α β : Type} {R : α → β → Prop} {key : α → Name} {key' : β → Name}
    (hkey : ∀ a b, R a b → key a = key' b) {as : List α} {bs : List β}
    (h : List.Forall₂ R as bs) :
    List.Forall₂ (List.Forall₂ R) (groupBy key as) (groupBy key' bs) := by
  have hkeys : as.map key = bs.map key' := map_eq_map_iff.2 (h.imp hkey)
  rw [groupBy, groupBy, hkeys, List.forall₂_map_left_iff, List.forall₂_map_right_iff,
    List.forall₂_same]
  intro k _
  exact filter_rel h fun a b hab => by rw [hkey a b hab]

theorem Occurrence.Fills.key {o o' : Occurrence} (h : o.Fills lits o') : o.key = o'.key := by
  obtain ⟨halias, hname, -⟩ := Field.fills_iff.1 h.field
  rw [Occurrence.key, Occurrence.key, Field.responseKey, Field.responseKey, halias, hname]

theorem Occurrence.Fills.name {o o' : Occurrence} (h : o.Fills lits o') :
    o.field.name = o'.field.name :=
  (Field.fills_iff.1 h.field).2.1

section
variable {os os' : List Occurrence}

theorem byParent_of_fills (s : Schema) (h : SetFills lits os os') :
    List.Forall₂ (SetFills lits) (byParent s os) (byParent s os') := by
  unfold byParent
  extract_lets isObject others others'
  have hobject : ∀ o o', Occurrence.Fills lits o o' → isObject o = isObject o' :=
    fun o o' ho => by simp only [isObject, ho.parent]
  have hothers : SetFills lits others others' :=
    filter_rel h fun o o' ho => by rw [hobject o o' ho]
  have hgroups : List.Forall₂ (SetFills lits)
      (groupBy Occurrence.parent (os.filter isObject))
      (groupBy Occurrence.parent (os'.filter isObject)) :=
    groupBy_rel (fun _ _ ho => ho.parent) (filter_rel h hobject)
  generalize groupBy Occurrence.parent (os.filter isObject) = gs at hgroups ⊢
  generalize groupBy Occurrence.parent (os'.filter isObject) = gs' at hgroups ⊢
  cases hgroups with
  | nil => exact .cons hothers .nil
  | cons hg hgs =>
    simp only [List.forall₂_map_left_iff, List.forall₂_map_right_iff]
    exact (List.Forall₂.cons hg hgs).imp fun _ _ hg => List.rel_append hg hothers

theorem shapeGroups_of_fills (h : SetFills lits os os') :
    List.Forall₂ (SetFills lits) (shapeGroups os) (shapeGroups os') :=
  groupBy_rel (fun _ _ ho => ho.key) h

theorem fieldGroups_of_fills (s : Schema) (h : SetFills lits os os') :
    List.Forall₂ (SetFills lits) (fieldGroups s os) (fieldGroups s os') :=
  List.rel_flatMap (shapeGroups_of_fills h) fun _ _ hg => byParent_of_fills s hg

/-- The sets below groups are filled alike, and there is one below both or none. -/
theorem below_of_fills (h : List.Forall₂ (Fragment.Fills lits) d.fragments d'.fragments)
    (s : Schema) (hos : SetFills lits os os') :
    Option.Rel (SetFills lits) (below s d os) (below s d' os') := by
  have hbodies : SetFills lits (os.filter (!·.body.isEmpty)) (os'.filter (!·.body.isEmpty)) :=
    filter_rel hos fun o o' ho => by rw [Selection.isEmpty_of_fills ho.body]
  have hpending : List.Forall₂ (PendingFills lits)
      ((os.filter (!·.body.isEmpty)).map fun o => (o.bodyType s, o.body))
      ((os'.filter (!·.body.isEmpty)).map fun o => (o.bodyType s, o.body)) :=
    List.rel_map (fun o o' ho =>
      ⟨by rw [Occurrence.bodyType, Occurrence.bodyType, ho.parent, ho.name], ho.body⟩) hbodies
  unfold below
  generalize os.filter (!·.body.isEmpty) = bs at hbodies hpending ⊢
  generalize os'.filter (!·.body.isEmpty) = bs' at hbodies hpending ⊢
  cases hbodies with
  | nil => exact .none
  | cons => exact .some (expand_of_fills h hpending)

end

/-! ## Conflicts -/

theorem Occurrence.Fills.type? {o o' : Occurrence} (h : o.Fills lits o') (s : Schema) :
    o'.type? s = o.type? s := by
  rw [Occurrence.type?, Occurrence.type?, h.parent, h.name]

theorem shapeConflict?_of_fills {o p o' p' : Occurrence} (ho : o.Fills lits o')
    (hp : p.Fills lits p') (h : shapeConflict? s o p = none) : shapeConflict? s o' p' = none := by
  unfold shapeConflict? at h ⊢
  rw [ho.type?, hp.type?]
  split
  · rename_i ht hu
    simp only [ht, hu, ite_eq_left_iff, reduceCtorEq, imp_false, not_not] at h
    rw [if_pos h]
  · rfl

/-- Arguments that agree still do with literals for their variables. -/
theorem argumentsWithin_of_fills {as bs as' bs' : List Argument}
    (ha : List.Forall₂ (Argument.Fills lits) as as')
    (hb : List.Forall₂ (Argument.Fills lits) bs bs') (h : argumentsWithin as bs = true) :
    argumentsWithin as' bs' = true := by
  induction ha with
  | nil => rfl
  | @cons a a' _ _ haa _ ih =>
    simp only [argumentsWithin, List.all_cons, Bool.and_eq_true] at h ih ⊢
    refine ⟨?_, ih h.2⟩
    have hone := h.1
    obtain ⟨hname, hvalue⟩ := Argument.fills_iff.1 haa
    have hfind := Argument.find?_of_fills hb a.name
    rw [← hname]
    generalize bs.find? (·.name == a.name) = x at hfind hone
    generalize bs'.find? (·.name == a.name) = y at hfind ⊢
    cases hfind with
    | none => exact hone
    | some hbb => exact Value.agrees_of_fills (Argument.fills_iff.1 hbb).2 hvalue hone

theorem sameArguments_of_fills {as bs as' bs' : List Argument}
    (ha : List.Forall₂ (Argument.Fills lits) as as')
    (hb : List.Forall₂ (Argument.Fills lits) bs bs') (h : sameArguments as bs = true) :
    sameArguments as' bs' = true := by
  simp only [sameArguments, Bool.and_eq_true, List.all_eq_true, List.any_eq_true,
    beq_iff_eq] at h ⊢
  refine ⟨argumentsWithin_of_fills ha hb h.1, fun b' hb' => ?_⟩
  obtain ⟨b, hbs, hbb⟩ := exists_mem_of_forall₂ hb.flip hb'
  obtain ⟨a, has, hname⟩ := h.2 b hbs
  obtain ⟨a', has', haa⟩ := exists_mem_of_forall₂ ha has
  exact ⟨a', has', by rw [← (Argument.fills_iff.1 haa).1, hname, (Argument.fills_iff.1 hbb).1]⟩

theorem fieldConflict?_of_fills {o p o' p' : Occurrence} (ho : o.Fills lits o')
    (hp : p.Fills lits p') (h : fieldConflict? o p = none) : fieldConflict? o' p' = none := by
  unfold fieldConflict? at h ⊢
  rw [← ho.name, ← hp.name]
  split at h
  · cases h
  rename_i hname
  split at h
  · cases h
  rename_i hargs
  have hargs' := sameArguments_of_fills (Field.fills_iff.1 ho.field).2.2.1
    (Field.fills_iff.1 hp.field).2.2.1 (by simpa using hargs)
  rw [if_neg hname, if_neg (by simp [hargs'])]

/-- Where two occurrences have no conflict, nor do the filled ones, there are none in groups. -/
theorem conflicts_groups_of_fills {conflict? : Occurrence → Occurrence → Option Diagnostic}
    (hc : ∀ {o p o' p' : Occurrence}, o.Fills lits o' → p.Fills lits p' →
      conflict? o p = none → conflict? o' p' = none)
    {groups groups' : List (List Occurrence)} (h : List.Forall₂ (SetFills lits) groups groups')
    (hnone : groups.flatMap (conflictsWith conflict?) = []) :
    groups'.flatMap (conflictsWith conflict?) = [] := by
  rw [List.flatMap_eq_nil_iff] at hnone ⊢
  intro g' hg'
  obtain ⟨g, hg, hgg⟩ := exists_mem_of_forall₂ h.flip hg'
  have hg := hnone g hg
  cases hgg with
  | nil => rfl
  | cons ho hrest =>
    simp only [conflictsWith, List.filterMap_eq_nil_iff] at hg ⊢
    intro p' hp'
    obtain ⟨p, hp, hpp⟩ := exists_mem_of_forall₂ (List.Forall₂.flip hrest) hp'
    exact hc ho hpp (hg p hp)

section
variable {os os' : List Occurrence}

theorem shapeConflicts_of_fills (h : SetFills lits os os') (hnone : shapeConflicts s os = []) :
    shapeConflicts s os' = [] :=
  conflicts_groups_of_fills shapeConflict?_of_fills (shapeGroups_of_fills h) hnone

theorem fieldConflicts_of_fills (h : SetFills lits os os') (hnone : fieldConflicts s os = []) :
    fieldConflicts s os' = [] :=
  conflicts_groups_of_fills fieldConflict?_of_fills (fieldGroups_of_fills s h) hnone

end

/-! ## Nesting -/

/-- Fields nest at most `k` levels deep in selections and in the fragments that they spread. -/
inductive Nested (d : Document) : (k : Nat) → List Selection → Prop
  | nil {k : Nat} : Nested d k []
  | field {k : Nat} {f : Field} {body ss : List Selection} (hb : Nested d k body)
    (hs : Nested d (k + 1) ss) : Nested d (k + 1) (.field f body :: ss)
  | inline {k i : Nat} {c : Option TypeCondition} {ds : List Directive}
    {body ss : List Selection} (hb : Nested d (k + 1) body) (hs : Nested d (k + 1) ss) :
    Nested d (k + 1) (.inline i c ds body :: ss)
  | spread {k i : Nat} {n : Name} {ds : List Directive} {ss : List Selection}
    (hf : ∀ f, d.fragment? n = some f → Nested d (k + 1) f.selections)
    (hs : Nested d (k + 1) ss) : Nested d (k + 1) (.spread i n ds :: ss)

namespace Nested

variable {k : Nat} {ss : List Selection}

theorem succ (h : Nested d k ss) : Nested d (k + 1) ss := by
  induction h with
  | nil => exact .nil
  | field _ _ ihb ih => exact .field ihb ih
  | inline _ _ ihb ih => exact .inline ihb ih
  | spread _ _ ihf ih => exact .spread ihf ih

theorem mono (h : Nested d k ss) {m : Nat} (hkm : k ≤ m) : Nested d m ss := by
  induction hkm with
  | refl => exact h
  | step _ ih => exact ih.succ

/-- Where something is selected, there is a level. -/
theorem pos (h : Nested d k ss) (hne : ss ≠ []) : 0 < k := by
  cases h with
  | nil => exact absurd rfl hne
  | _ => exact Nat.succ_pos _

/-- Filled selections nest as the original ones do. -/
theorem of_fills (hd : List.Forall₂ (Fragment.Fills lits) d.fragments d'.fragments)
    (h : Nested d k ss) : ∀ {ss' : List Selection}, Selection.FillsAll lits ss ss' →
      Nested d' k ss' := by
  induction h with
  | nil =>
    intro ss' hss
    cases hss
    exact .nil
  | field _ _ ihb ih =>
    intro ss' hss
    cases hss with
    | field _ hb hs => exact .field (ihb hb) (ih hs)
  | inline _ _ ihb ih =>
    intro ss' hss
    cases hss with
    | inline _ _ hb hs => exact .inline (ihb hb) (ih hs)
  | @spread k i n ds ss _ _ ihf ih =>
    intro ss' hss
    cases hss with
    | spread _ hs =>
      refine .spread (fun f' hf' => ?_) (ih hs)
      obtain ⟨-, hn'⟩ | ⟨f, g, hf, hg, hff⟩ := Document.fragment?_cases hd n
      · rw [hn'] at hf'
        cases hf'
      · cases hg.symm.trans hf'
        exact ihf f hf hff.selections

theorem split (h : Nested d k ss) (parent : Name) : ∀ seen : List Name,
    (∀ o ∈ (split d parent seen ss).1, ∃ j, k = j + 1 ∧ Nested d j o.body) ∧
      ∀ p ∈ (Merging.split d parent seen ss).2.1, Nested d k p.2 := by
  induction h with
  | nil =>
    exact fun _ => ⟨fun _ h => absurd h List.not_mem_nil, fun _ h => absurd h List.not_mem_nil⟩
  | field hb _ _ ih =>
    intro seen
    exact ⟨List.forall_mem_cons.2 ⟨⟨_, rfl, hb⟩, (ih seen).1⟩, (ih seen).2⟩
  | inline hb _ _ ih =>
    intro seen
    exact ⟨(ih seen).1, List.forall_mem_cons.2 ⟨hb, (ih seen).2⟩⟩
  | @spread k i n ds ss hf _ _ ih =>
    intro seen
    unfold Merging.split
    split
    · exact ih seen
    · obtain ⟨hos, hps⟩ := ih (seen ++ [n])
      cases hn : d.fragment? n with
      | none => exact ⟨hos, hps⟩
      | some f => exact ⟨hos, List.forall_mem_cons.2 ⟨hf f hn, hps⟩⟩

/-- The bodies in an expansion nest one level less. -/
theorem expandQueue : ∀ (bound : Nat) (seen : List Name) (ps : List Pending),
    (∀ p ∈ ps, Nested d k p.2) →
      ∀ o ∈ expandQueue d bound seen ps, ∃ j, k = j + 1 ∧ Nested d j o.body
  | 0, _, _, _, _, ho => absurd ho List.not_mem_nil
  | _ + 1, _, [], _, _, ho => absurd ho List.not_mem_nil
  | bound + 1, seen, (parent, ss) :: ps, h, o, ho => by
    obtain ⟨hp, hps⟩ := List.forall_mem_cons.1 h
    obtain ⟨hos, hnew⟩ := hp.split parent seen
    rcases List.mem_append.1 ho with ho | ho
    · exact hos o ho
    · refine expandQueue bound _ _ (fun p hp => ?_) o ho
      rcases List.mem_append.1 hp with hp | hp
      · exact hps p hp
      · exact hnew p hp

end Nested

/-- Where ways of spreads are bounded, fields do not nest without end. -/
theorem exists_nested : ∀ (room : Nat) (ss : List Selection), d.Bounded room ss →
    ∃ k, Nested d k ss
  | _, [], _ => ⟨0, .nil⟩
  | room, .field f body :: ss, h => by
    obtain ⟨k, hb⟩ := exists_nested room body h.body
    obtain ⟨m, hs⟩ := exists_nested room ss h.tail
    exact ⟨max k m + 1, .field (hb.mono (le_max_left ..)) (hs.mono (by omega))⟩
  | room, .inline i c ds body :: ss, h => by
    obtain ⟨k, hb⟩ := exists_nested room body h.inside
    obtain ⟨m, hs⟩ := exists_nested room ss h.tail
    exact ⟨max k m + 1, .inline (hb.mono (by omega)) (hs.mono (by omega))⟩
  | room, .spread i n ds :: ss, h => by
    obtain ⟨r, f, hroom, hf, hr⟩ := h.spread
    obtain ⟨k, hb⟩ := exists_nested r f.selections hr
    obtain ⟨m, hs⟩ := exists_nested room ss h.tail
    refine ⟨max k m + 1, .spread (fun g hg => ?_) (hs.mono (by omega))⟩
    cases hf.symm.trans hg
    exact hb.mono (by omega)
termination_by room ss => (room, sizeOf ss)

/-- Fields nest less than `n` levels deep in the bodies of a set. -/
def Shallow (d : Document) (n : Nat) (os : List Occurrence) : Prop :=
  ∀ o ∈ os, o.body = [] ∨ ∃ k < n, Nested d k o.body

/-! ## Surveys -/

section
variable {groups : List Occurrence → List (List Occurrence)}

/-- The sets below a set are less deep, and where there is one, there is a level for it. -/
theorem shallow_below (hsub : ∀ os, ∀ g ∈ groups os, g ⊆ os) {n : Nat} {os : List Occurrence}
    (h : Shallow d n os) :
    ∀ c ∈ (groups os).filterMap (below s d), ∃ m, 0 < m ∧ m < n ∧ Shallow d m c := by
  intro c hc
  obtain ⟨g, hg, hbelow⟩ := List.mem_filterMap.1 hc
  unfold below at hbelow
  split at hbelow
  · cases hbelow
  rename_i bodies hne
  cases hbelow
  have hnested : ∀ o ∈ g.filter (!·.body.isEmpty), ∃ k, 0 < k ∧ k < n ∧ Nested d k o.body := by
    intro o ho
    obtain ⟨hog, hbody⟩ := List.mem_filter.1 ho
    have hbody : o.body ≠ [] := by simpa using hbody
    obtain ⟨k, hk, hn⟩ := (h o (hsub os g hg hog)).resolve_left hbody
    exact ⟨k, hn.pos hbody, hk, hn⟩
  -- there is a body that nests, so there is a level
  obtain ⟨o, ho⟩ := List.exists_mem_of_ne_nil _ hne
  obtain ⟨k, hpos, hk, -⟩ := hnested o ho
  refine ⟨n - 1, by omega, by omega, fun o ho => .inr ?_⟩
  obtain ⟨j, hj, hbody⟩ := Nested.expandQueue (k := n - 1) _ _ _ (fun p hp => by
    obtain ⟨q, hq, rfl⟩ := List.mem_map.1 hp
    obtain ⟨k, -, hk, hbody⟩ := hnested q hq
    exact hbody.mono (by omega)) o ho
  exact ⟨j, by omega, hbody⟩

/-- The surveys of filled sets mirror those of the original ones. -/
theorem mirrors (h : List.Forall₂ (Fragment.Fills lits) d.fragments d'.fragments)
    (hgroups : ∀ {os os'}, SetFills lits os os' →
      List.Forall₂ (SetFills lits) (groups os) (groups os'))
    (hsub : ∀ os, ∀ g ∈ groups os, g ⊆ os) :
    Mirrors (SetFills lits) (fun os => (groups os).filterMap (below s d))
      (fun os => (groups os).filterMap (below s d')) (Shallow d') where
  children hx := List.rel_filterMap (fun _ _ hg => below_of_fills h s hg) (hgroups hx)
  left hx hsame := (sameSet_iff.1 hsame).of_same hx
  right hx hsame := hx.trans_same (sameSet_iff.1 hsame)
  same hx hx' := sameSet_iff.2 (hx.same hx')
  depth_succ h o ho := (h o ho).imp_right fun ⟨k, hk, hn⟩ => ⟨k, by omega, hn⟩
  depth_same := by
    intro n x' y' h hsame p hp
    obtain ⟨o, ho, hop⟩ := exists_mem_of_forall₂ (List.Forall₂.flip (sameSet_iff.1 hsame)) hp
    have hop : Occurrence.Fills noLiterals o p := hop
    refine (h o ho).imp (fun hb => ?_) fun ⟨k, hk, hn⟩ => ⟨k, hk, hn.of_fills ?_ hop.body⟩
    · rw [← List.isEmpty_iff, Selection.isEmpty_of_fills hop.body, hb, List.isEmpty_nil]
    · exact List.forall₂_same.2 fun f _ => .refl f
  depth_child h c hc := by
    obtain ⟨m, -, hm, hs⟩ := shallow_below hsub h c hc
    exact ⟨m, hm, hs⟩

end

theorem subset_of_mem_groupBy {α : Type} {key : α → Name} {as g : List α}
    (hg : g ∈ groupBy key as) : g ⊆ as := by
  obtain ⟨k, -, rfl⟩ := List.mem_map.1 hg
  exact List.filter_sublist.subset

theorem subset_of_mem_byParent {os g : List Occurrence} (hg : g ∈ byParent s os) : g ⊆ os := by
  unfold byParent at hg
  extract_lets isObject others at hg
  have hgroups : ∀ g' ∈ groupBy Occurrence.parent (os.filter isObject), g' ⊆ os := fun g' hg' =>
    List.Subset.trans (subset_of_mem_groupBy hg') (List.filter_sublist.subset)
  split at hg
  · rw [List.mem_singleton.1 hg]
    exact List.filter_sublist.subset
  · obtain ⟨g', hg', rfl⟩ := List.mem_map.1 hg
    exact List.append_subset.2 ⟨hgroups g' hg', List.filter_sublist.subset⟩

theorem subset_of_mem_fieldGroups {os g : List Occurrence} (hg : g ∈ fieldGroups s os) :
    g ⊆ os := by
  obtain ⟨g', hg', hg⟩ := List.mem_flatMap.1 hg
  exact List.Subset.trans (subset_of_mem_byParent hg) (subset_of_mem_groupBy hg')

theorem mirrors_shapes (h : List.Forall₂ (Fragment.Fills lits) d.fragments d'.fragments) :
    Mirrors (SetFills lits) (shapeChildren s d) (shapeChildren s d') (Shallow d') :=
  mirrors h shapeGroups_of_fills fun _ _ => subset_of_mem_groupBy

theorem mirrors_fields (h : List.Forall₂ (Fragment.Fills lits) d.fragments d'.fragments) :
    Mirrors (SetFills lits) (fieldChildren s d) (fieldChildren s d') (Shallow d') :=
  mirrors h (fieldGroups_of_fills s) fun _ _ => subset_of_mem_fieldGroups

/-! ## Operations -/

variable {V : List VariableDefinition → List VariableDefinition → Prop}

theorem topLevel_of_fills (h : List.Forall₂ (Fragment.Fills lits) d.fragments d'.fragments)
    {o o' : Operation} (ho : o.FillsWith lits V o') :
    SetFills lits (topLevel s d o) (topLevel s d' o') := by
  rw [topLevel, topLevel, ho.kind]
  exact expand_of_fills h (.cons ⟨rfl, ho.selections⟩ .nil)

theorem shallow_topLevel {k : Nat} {o : Operation} (h : Nested d k o.selections) :
    Shallow d k (topLevel s d o) := by
  intro x hx
  obtain ⟨j, rfl, hj⟩ := Nested.expandQueue _ _ _ (List.forall_mem_singleton.2 h) x hx
  exact .inr ⟨j, Nat.lt_succ_self j, hj⟩

/-- Where fields can be merged in an operation, they can be in the filled one. -/
theorem conflicts_of_fills (h : List.Forall₂ (Fragment.Fills lits) d.fragments d'.fragments)
    {o o' : Operation} (ho : o.FillsWith lits V o') {room : Nat}
    (hroom : d.Bounded room o.selections) (hnone : conflicts s d [] [] [o] = [[]]) :
    conflicts s d' [] [] [o'] = [[]] := by
  simp only [conflicts, List.cons.injEq, and_true, List.append_eq_nil_iff,
    List.flatMap_eq_nil_iff, ite_eq_right_iff, reduceCtorEq, imp_false, Bool.not_eq_true,
    Bool.or_eq_false_iff] at hnone ⊢
  obtain ⟨⟨hshapes, hfields⟩, hdeepShapes, hdeepFields⟩ := hnone
  obtain ⟨k, hk⟩ := exists_nested room _ hroom
  have htop : SetFills lits (topLevel s d o) (topLevel s d' o') := topLevel_of_fills h ho
  have hshallow : Shallow d' k (topLevel s d' o') := shallow_topLevel (hk.of_fills h ho.selections)
  obtain ⟨hdeepShapes', hshapes'⟩ :=
    (mirrors_shapes h).newSets_follows htop hshallow hdeepShapes
  obtain ⟨hdeepFields', hfields'⟩ :=
    (mirrors_fields h).newSets_follows htop hshallow hdeepFields
  refine ⟨⟨fun x' hx' => ?_, fun x' hx' => ?_⟩, hdeepShapes', hdeepFields'⟩
  · obtain ⟨x, hx, hxx⟩ := hshapes' x' hx'
    exact shapeConflicts_of_fills hxx (hshapes x hx)
  · obtain ⟨x, hx, hxx⟩ := hfields' x' hx'
    exact fieldConflicts_of_fills hxx (hfields x hx)

end RecordGateway.GraphQL.Merging
