import RecordGateway.Proofs.GraphQL.Cut.Basic

/-!
# The merging of fields in a document that is cut down

An operation is expanded alike in documents that agree on what it uses (`expand_of_agrees`). But the
survey of its sets need not come to the same: in the whole document it leaves out what the
operations before have shown, and the sets there may lie too deep for a survey of their own.

* A survey that does not get too deep shows, with a set, sets that are written like those below it
  (`extends_explore`). So what the survey of some operations shows is closed (`Cleared`).
* Starting from a set that is written like one in a closed list, a survey shows no others
  (`Shows.explore`).

So no set in the document that is cut down has conflicts, wherever it stands; at most they lie too
deep, and not even that where fields nest no deeper than surveys go (`conflicts_of_agrees`).
-/

namespace RecordGateway.GraphQL.Merging

variable {s : Schema} {d d' : Document} {ns : List Name}

/-! ## Expansions -/

/-- The bodies of a set spread fragments with the names `ns` only. -/
def SpreadsWithin (ns : List Name) (os : List Occurrence) : Prop :=
  ∀ x ∈ os, Selection.spreadsAll x.body ⊆ ns

section
variable (h : d.Agrees d' ns)
include h

theorem split_of_agrees (parent : Name) : ∀ (ss : List Selection) (seen : List Name),
    Selection.spreadsAll ss ⊆ ns → split d' parent seen ss = split d parent seen ss ∧
      SpreadsWithin ns (split d parent seen ss).1 ∧
        ∀ p ∈ (split d parent seen ss).2.1, Selection.spreadsAll p.2 ⊆ ns
  | [], _, _ => ⟨rfl, fun _ hx => (nomatch hx), fun _ hp => (nomatch hp)⟩
  | .field f body :: ss, seen, hss => by
    obtain ⟨hbody, hss⟩ := List.append_subset.1 hss
    obtain ⟨heq, hos, hps⟩ := split_of_agrees parent ss seen hss
    exact ⟨by simp only [split, heq], List.forall_mem_cons.2 ⟨hbody, hos⟩, hps⟩
  | .inline i c ds body :: ss, seen, hss => by
    obtain ⟨hbody, hss⟩ := List.append_subset.1 hss
    obtain ⟨heq, hos, hps⟩ := split_of_agrees parent ss seen hss
    exact ⟨by simp only [split, heq], hos, List.forall_mem_cons.2 ⟨hbody, hps⟩⟩
  | .spread i n ds :: ss, seen, hss => by
    obtain ⟨hn, hss⟩ := List.append_subset.1 hss
    have hn : n ∈ ns := hn (List.mem_singleton_self n)
    unfold split
    rw [h.fragment? n hn]
    split
    · exact split_of_agrees parent ss seen hss
    · obtain ⟨heq, hos, hps⟩ := split_of_agrees parent ss (seen ++ [n]) hss
      rw [heq]
      cases hf : d.fragment? n with
      | none => exact ⟨rfl, hos, hps⟩
      | some f => exact ⟨rfl, hos, List.forall_mem_cons.2 ⟨h.closed n hn f hf, hps⟩⟩

/-- With room for all that is counted in either document, the same occurrences are found. -/
theorem expandQueue_of_agrees : ∀ (bound bound' : Nat) (seen : List Name) (queue : List Pending),
    queueWeight queue + unseenWeight d.fragments seen ≤ bound →
      queueWeight queue + unseenWeight d'.fragments seen ≤ bound' →
        (∀ p ∈ queue, Selection.spreadsAll p.2 ⊆ ns) →
          expandQueue d' bound' seen queue = expandQueue d bound seen queue ∧
            SpreadsWithin ns (expandQueue d bound seen queue)
  | bound, bound', seen, [], _, _, _ => by
    cases bound <;> cases bound' <;> exact ⟨rfl, fun _ hx => (nomatch hx)⟩
  | bound, bound', seen, (parent, ss) :: queue, hw, hw', hqueue => by
    have hpos : 0 < queueWeight ((parent, ss) :: queue) := by
      simp only [queueWeight, List.map_cons, countSets_cons]
      omega
    obtain ⟨bound, rfl⟩ : ∃ b, bound = b + 1 := ⟨bound - 1, by omega⟩
    obtain ⟨bound', rfl⟩ : ∃ b, bound' = b + 1 := ⟨bound' - 1, by omega⟩
    obtain ⟨hss, hqueue⟩ := List.forall_mem_cons.1 hqueue
    obtain ⟨heq, hos, hps⟩ := split_of_agrees h parent ss seen hss
    obtain ⟨hrest, hwithin⟩ := expandQueue_of_agrees bound bound' _ _ (queueWeight_split hw)
      (heq ▸ queueWeight_split hw') (List.forall_mem_append.2 ⟨hqueue, hps⟩)
    exact ⟨by simp only [expandQueue, heq, hrest], List.forall_mem_append.2 ⟨hos, hwithin⟩⟩

theorem expand_of_agrees {ps : List Pending} (hps : ∀ p ∈ ps, Selection.spreadsAll p.2 ⊆ ns) :
    expand d' ps = expand d ps ∧ SpreadsWithin ns (expand d ps) :=
  expandQueue_of_agrees h _ _ [] ps (Nat.le_of_eq (expansionBound_eq d ps).symm)
    (Nat.le_of_eq (expansionBound_eq d' ps).symm) hps

theorem below_of_agrees (s : Schema) {g : List Occurrence} (hg : SpreadsWithin ns g) :
    below s d' g = below s d g ∧ ∀ c, below s d g = some c → SpreadsWithin ns c := by
  have hps : ∀ p ∈ (g.filter (!·.body.isEmpty)).map fun x => (x.bodyType s, x.body),
      Selection.spreadsAll p.2 ⊆ ns := fun p hp => by
    obtain ⟨x, hx, rfl⟩ := List.mem_map.1 hp
    exact hg x (List.mem_of_mem_filter hx)
  obtain ⟨heq, hwithin⟩ := expand_of_agrees h hps
  unfold below
  split
  · exact ⟨rfl, fun _ hc => (nomatch hc)⟩
  · rename_i os hne
    exact ⟨by rw [heq], fun c hc => Option.some.inj hc ▸ hwithin⟩

/-- The sets below a set are the same in both documents. -/
theorem children_of_agrees (s : Schema) {groups : List Occurrence → List (List Occurrence)}
    (hsub : ∀ os, ∀ g ∈ groups os, g ⊆ os) {os : List Occurrence} (hos : SpreadsWithin ns os) :
    (groups os).filterMap (below s d') = (groups os).filterMap (below s d) ∧
      ∀ c ∈ (groups os).filterMap (below s d), SpreadsWithin ns c := by
  have hgroups : ∀ g ∈ groups os, SpreadsWithin ns g := fun g hg x hx =>
    hos x (hsub os g hg hx)
  refine ⟨List.filterMap_congr fun g hg => (below_of_agrees h s (hgroups g hg)).1, fun c hc => ?_⟩
  obtain ⟨g, hg, hgc⟩ := List.mem_filterMap.1 hc
  exact (below_of_agrees h s (hgroups g hg)).2 c hgc

theorem topLevel_of_agrees (s : Schema) {o : Operation}
    (ho : Selection.spreadsAll o.selections ⊆ ns) :
    topLevel s d' o = topLevel s d o ∧ SpreadsWithin ns (topLevel s d o) :=
  expand_of_agrees h (List.forall_mem_singleton.2 ho)

/-- Fields nest alike in both documents. -/
theorem Nested.of_agrees {k : Nat} {ss : List Selection} (hn : Nested d k ss) :
    Selection.spreadsAll ss ⊆ ns → Nested d' k ss := by
  induction hn with
  | nil => exact fun _ => .nil
  | field _ _ ihb ih =>
    intro hss
    obtain ⟨hbody, hss⟩ := List.append_subset.1 hss
    exact .field (ihb hbody) (ih hss)
  | inline _ _ ihb ih =>
    intro hss
    obtain ⟨hbody, hss⟩ := List.append_subset.1 hss
    exact .inline (ihb hbody) (ih hss)
  | @spread k i n ds ss _ _ ihf ih =>
    intro hss
    obtain ⟨hn, hss⟩ := List.append_subset.1 hss
    have hn : n ∈ ns := hn (List.mem_singleton_self n)
    refine .spread (fun f hf => ?_) (ih hss)
    rw [h.fragment? n hn] at hf
    exact ihf f hf (h.closed n hn f hf)

end

/-! ## Surveys -/

theorem SetFills.refl (os : List Occurrence) : SetFills noLiterals os os :=
  List.forall₂_same.2 fun _ _ => ⟨rfl, rfl, Selection.fillsAll_iff.2 rfl⟩

section
variable {children : List Occurrence → List (List Occurrence)}

/-- A survey that does not get too deep has shown the set that it started from, and with a set that
is new all that lies below it. -/
theorem extends_explore : ∀ (room : Nat) (v : Survey) (x : List Occurrence),
    (Survey.explore children room v x).tooDeep = false →
      Extends children v (Survey.explore children room v x) ∧
        ∃ z ∈ (Survey.explore children room v x).sets, sameSet x z = true
  | 0, _, _, hdeep => by cases hdeep
  | room + 1, v, x, hdeep => by
    by_cases hknown : v.sets.any (sameSet x) = true
    · obtain ⟨z, hz, hsame⟩ := List.any_eq_true.1 hknown
      simp only [Survey.explore, hknown, if_true]
      exact ⟨.refl v, z, hz, hsame⟩
    · simp only [Survey.explore, hknown, if_false, Bool.false_eq_true] at hdeep ⊢
      have hfold : ∀ (ys : List (List Occurrence)) (u : Survey),
          (ys.foldl (Survey.explore children room) u).tooDeep = false →
            Extends children u (ys.foldl (Survey.explore children room) u) ∧
              ∀ y ∈ ys, ∃ z ∈ (ys.foldl (Survey.explore children room) u).sets,
                sameSet y z = true := by
        intro ys
        induction ys with
        | nil => exact fun u _ => ⟨.refl u, fun _ hy => absurd hy List.not_mem_nil⟩
        | cons y ys ih =>
          intro u hdeep
          rw [List.foldl_cons] at hdeep ⊢
          obtain ⟨hone, z, hz, hsame⟩ := extends_explore room u y
            (tooDeep_foldl_explore (tooDeep_explore room) hdeep)
          obtain ⟨hrest, hall⟩ := ih _ hdeep
          exact ⟨hone.trans hrest, List.forall_mem_cons.2 ⟨⟨z, hrest.subset hz, hsame⟩, hall⟩⟩
      obtain ⟨hext, hall⟩ := hfold (children x) _ hdeep
      have hx := hext.subset (List.mem_append_right v.sets (List.mem_singleton_self x))
      refine ⟨⟨fun y hy => hext.subset (List.mem_append_left _ hy), fun y hy hold => ?_⟩, x, hx,
        sameSet_iff.2 (.refl x)⟩
      by_cases hyx : y = x
      · exact hyx ▸ hall
      · exact hext.known y hy (by simp [hold, hyx])

/-- A list of sets with all that lies below them has no set with conflicts. -/
structure Cleared (children : List Occurrence → List (List Occurrence))
    (conflicts : List Occurrence → List Diagnostic) (known : List (List Occurrence)) : Prop where
  closed : ∀ x ∈ known, ChildrenKnown children known x
  clear : ∀ x ∈ known, conflicts x = []

variable {conflicts : List Occurrence → List Diagnostic} {known : List (List Occurrence)}

theorem Cleared.nil (children : List Occurrence → List (List Occurrence))
    (conflicts : List Occurrence → List Diagnostic) : Cleared children conflicts [] :=
  ⟨fun _ hx => absurd hx List.not_mem_nil, fun _ hx => absurd hx List.not_mem_nil⟩

/-- What is known stays cleared with what a survey without conflicts adds. -/
theorem Cleared.append_newSets (h : Cleared children conflicts known) {x : List Occurrence}
    (hdeep : (newSets children known x).2 = false)
    (hclear : ∀ y ∈ (newSets children known x).1, conflicts y = []) :
    Cleared children conflicts (known ++ (newSets children known x).1) ∧
      ∃ z ∈ known ++ (newSets children known x).1, sameSet x z = true := by
  obtain ⟨rest, hrest⟩ := @explore_grows children (depthLimit + 1) ⟨known, false⟩ x
  have hsets : known ++ (newSets children known x).1 =
      (Survey.explore children (depthLimit + 1) ⟨known, false⟩ x).sets := by
    show known ++ (Survey.explore children _ ⟨known, false⟩ x).sets.drop known.length = _
    rw [← hrest, List.drop_left]
  obtain ⟨hext, hx⟩ := extends_explore (depthLimit + 1) ⟨known, false⟩ x hdeep
  rw [← hsets] at hx
  refine ⟨⟨fun y hy => ?_, List.forall_mem_append.2 ⟨h.clear, hclear⟩⟩, hx⟩
  rw [hsets] at hy ⊢
  by_cases hold : y ∈ known
  · exact (h.closed y hold).mono hext.subset
  · exact hext.known y hy hold

/-- Sets are related with sets that say the same, and so are those below them. -/
structure Shows (R : List Occurrence → List Occurrence → Prop)
    (children children' : List Occurrence → List (List Occurrence)) : Prop where
  children : ∀ {x x'}, R x x' → List.Forall₂ R (children x) (children' x')
  left : ∀ {x y x'}, R y x' → sameSet y x = true → R x x'

/-- A survey that starts from a set that is related to one of a closed list shows only such sets. -/
theorem Shows.explore {R : List Occurrence → List Occurrence → Prop}
    {children' : List Occurrence → List (List Occurrence)} (h : Shows R children children')
    (hclosed : ∀ x ∈ known, ChildrenKnown children known x) : ∀ (room : Nat) (v : Survey)
      (x' : List Occurrence), (∀ y' ∈ v.sets, ∃ y ∈ known, R y y') → (∃ x ∈ known, R x x') →
        ∀ y' ∈ (Survey.explore children' room v x').sets, ∃ y ∈ known, R y y'
  | 0, _, _, hv, _ => hv
  | room + 1, v, x', hv, hx => by
    unfold Survey.explore
    split
    · exact hv
    obtain ⟨x, hxk, hxx⟩ := hx
    refine List.foldlRecOn (motive := fun u : Survey => ∀ y' ∈ u.sets, ∃ y ∈ known, R y y')
      (children' x') _ ?_ fun u hu y' hy' => Shows.explore h hclosed room u y' hu ?_
    · exact List.forall_mem_append.2 ⟨hv, List.forall_mem_singleton.2 ⟨x, hxk, hxx⟩⟩
    · obtain ⟨y, hy, hyy⟩ := exists_mem_of_forall₂ (h.children hxx).flip hy'
      have hyy : R y y' := hyy
      obtain ⟨z, hz, hsame⟩ := hclosed x hxk y hy
      exact ⟨z, hz, h.left hyy hsame⟩

/-- A survey that starts from a set with enough room for the levels below it does not get too
deep. -/
theorem tooDeep_explore_eq_false {depth : Nat → List Occurrence → Prop}
    (hdepth : ∀ {n x}, depth n x → ∀ c ∈ children x, ∃ m, 0 < m ∧ m < n ∧ depth m c) :
    ∀ (room n : Nat) (v : Survey) (x : List Occurrence), v.tooDeep = false → depth n x →
      0 < n → n ≤ room → (Survey.explore children room v x).tooDeep = false
  | 0, n, _, _, _, _, hpos, hn => by omega
  | room + 1, n, v, x, hv, hx, _, hn => by
    unfold Survey.explore
    split
    · exact hv
    refine List.foldlRecOn (motive := fun u : Survey => u.tooDeep = false) (children x) _ hv
      fun u hu c hc => ?_
    obtain ⟨m, hpos, hm, hdepthc⟩ := hdepth hx c hc
    exact tooDeep_explore_eq_false hdepth room m u c hu hdepthc hpos (by omega)

end

/-! ## Conflicts -/

/-- Where no rule finds a fault, there are no conflicts. -/
theorem conflicts_of_faults (h : d.faults s = []) :
    ∀ ps ∈ conflicts s d [] [] d.operations, ps = [] := by
  simp only [Document.faults, List.append_eq_nil_iff, List.flatMap_eq_nil_iff] at h
  intro ps hps
  rw [← List.map_snd_zip (Nat.le_of_eq (length_conflicts s d d.operations [] []))] at hps
  obtain ⟨p, hp, rfl⟩ := List.mem_map.1 hps
  exact (h.2 p hp).2

/-- The sets that a list of operations shows are cleared if nothing conflicts in them, and each
operation has a set at its top that is written like one of them. -/
theorem exists_cleared : ∀ {os : List Operation} {shapesKnown fieldsKnown : List (List Occurrence)},
    Cleared (shapeChildren s d) (shapeConflicts s) shapesKnown →
      Cleared (fieldChildren s d) (fieldConflicts s) fieldsKnown →
        (∀ ps ∈ conflicts s d shapesKnown fieldsKnown os, ps = []) → ∀ o ∈ os,
          (∃ known, Cleared (shapeChildren s d) (shapeConflicts s) known ∧
              ∃ z ∈ known, sameSet (topLevel s d o) z = true) ∧
            ∃ known, Cleared (fieldChildren s d) (fieldConflicts s) known ∧
              ∃ z ∈ known, sameSet (topLevel s d o) z = true
  | p :: os, shapesKnown, fieldsKnown, hshapes, hfields, hnone, o, ho => by
    simp only [conflicts, List.forall_mem_cons, List.append_eq_nil_iff, List.flatMap_eq_nil_iff,
      ite_eq_right_iff, reduceCtorEq, imp_false, Bool.not_eq_true, Bool.or_eq_false_iff] at hnone
    obtain ⟨⟨⟨hs, hf⟩, hdeepShapes, hdeepFields⟩, hrest⟩ := hnone
    obtain ⟨hshapes', htopShapes⟩ := hshapes.append_newSets hdeepShapes hs
    obtain ⟨hfields', htopFields⟩ := hfields.append_newSets hdeepFields hf
    rcases List.mem_cons.1 ho with rfl | ho
    · exact ⟨⟨_, hshapes', htopShapes⟩, _, hfields', htopFields⟩
    · exact exists_cleared hshapes' hfields' hrest o ho

/-- The second set says what the first does, which spreads fragments with the names `ns` only. -/
def SameWithin (ns : List Name) (os os' : List Occurrence) : Prop :=
  SpreadsWithin ns os ∧ SetFills noLiterals os os'

theorem SpreadsWithin.of_fills {lits : Literals} {os os' : List Occurrence}
    (h : SetFills lits os os') (hos : SpreadsWithin ns os) : SpreadsWithin ns os' := by
  intro x' hx'
  obtain ⟨x, hx, hxx⟩ := exists_mem_of_forall₂ (List.Forall₂.flip h) hx'
  have hxx : Occurrence.Fills lits x x' := hxx
  rw [Selection.spreadsAll_of_fills hxx.body]
  exact hos x hx

section
variable {d'' : Document} (h : d.Agrees d' ns)
  (hfills : List.Forall₂ (Fragment.Fills noLiterals) d'.fragments d''.fragments)
include h hfills

theorem shows {groups : List Occurrence → List (List Occurrence)}
    (hgroups : ∀ {os os'}, SetFills noLiterals os os' →
      List.Forall₂ (SetFills noLiterals) (groups os) (groups os'))
    (hsub : ∀ os, ∀ g ∈ groups os, g ⊆ os) :
    Shows (SameWithin ns) (fun os => (groups os).filterMap (below s d))
      (fun os => (groups os).filterMap (below s d'')) where
  children hx := by
    obtain ⟨heq, hwithin⟩ := children_of_agrees h s hsub hx.1
    refine (List.forall₂_and_left _ _).2 ⟨hwithin, heq ▸ ?_⟩
    exact List.rel_filterMap (fun _ _ hg => below_of_fills hfills s hg) (hgroups hx.2)
  left hy hsame := by
    have hsame := sameSet_iff.1 hsame
    exact ⟨hy.1.of_fills hsame, hsame.same hy.2⟩

/-- Where an operation starts from a set that is written like a cleared one, no set of the document
that is cut down has conflicts. -/
theorem newSets_clear {groups : List Occurrence → List (List Occurrence)}
    (hgroups : ∀ {os os'}, SetFills noLiterals os os' →
      List.Forall₂ (SetFills noLiterals) (groups os) (groups os'))
    (hsub : ∀ os, ∀ g ∈ groups os, g ⊆ os) {conflicts : List Occurrence → List Diagnostic}
    (hconflicts : ∀ {os os'}, SetFills noLiterals os os' → conflicts os = [] → conflicts os' = [])
    {known : List (List Occurrence)}
    (hknown : Cleared (fun os => (groups os).filterMap (below s d)) conflicts known)
    {x x' z : List Occurrence} (hx : SameWithin ns x x') (hz : z ∈ known)
    (hsame : sameSet x z = true) :
    ((newSets (fun os => (groups os).filterMap (below s d'')) [] x').1).flatMap conflicts = [] := by
  have hshows := shows (s := s) h hfills hgroups hsub
  refine List.flatMap_eq_nil_iff.2 fun y' hy' => ?_
  obtain ⟨y, hy, -, hyy⟩ := hshows.explore hknown.closed (depthLimit + 1) ⟨[], false⟩ x'
    (fun _ hm => (nomatch hm)) ⟨z, hz, hshows.left hx hsame⟩ y' hy'
  exact hconflicts hyy (hknown.clear y hy)

omit h hfills in
theorem newSets_notDeep {groups : List Occurrence → List (List Occurrence)}
    (hsub : ∀ os, ∀ g ∈ groups os, g ⊆ os) {x' : List Occurrence}
    (hx : Shallow d'' (depthLimit + 1) x') :
    (newSets (fun os => (groups os).filterMap (below s d'')) [] x').2 = false :=
  tooDeep_explore_eq_false (shallow_below hsub) _ _ _ _ rfl hx (Nat.succ_pos depthLimit)
    (Nat.le_refl _)

/-- In a document that agrees with an accepted one on what an operation uses, wherever things stand
in it, fields of the operation can be merged as far as surveys go. -/
theorem conflicts_of_agrees (hd : d.Accepted s) {o o' : Operation} (ho : o ∈ d.operations)
    (hns : Selection.spreadsAll o.selections ⊆ ns)
    {V : List VariableDefinition → List VariableDefinition → Prop}
    (hoo : o.FillsWith noLiterals V o') :
    conflicts s d'' [] [] [o'] = [[]] ∨
      conflicts s d'' [] [] [o'] = [[⟨o'.place, .fieldsTooDeep⟩]] ∧
        ¬ Nested d (depthLimit + 1) o.selections := by
  obtain ⟨⟨shapes, hshapes, z, hz, hsame⟩, fields, hfields, w, hw, hsame'⟩ :=
    exists_cleared (.nil _ _) (.nil _ _) (conflicts_of_faults hd.faults) o ho
  obtain ⟨htop, hwithin⟩ := topLevel_of_agrees h s hns
  have hx : SameWithin ns (topLevel s d o) (topLevel s d'' o') :=
    ⟨hwithin, htop ▸ topLevel_of_fills hfills hoo⟩
  have hclearShapes : ((newSets (shapeChildren s d'') [] (topLevel s d'' o')).1).flatMap
      (shapeConflicts s) = [] := newSets_clear h hfills shapeGroups_of_fills
    (fun _ _ => subset_of_mem_groupBy) shapeConflicts_of_fills hshapes hx hz hsame
  have hclearFields : ((newSets (fieldChildren s d'') [] (topLevel s d'' o')).1).flatMap
      (fieldConflicts s) = [] := newSets_clear h hfills (fieldGroups_of_fills s)
    (fun _ _ => subset_of_mem_fieldGroups) fieldConflicts_of_fills hfields hx hw hsame'
  have hdeep : Nested d (depthLimit + 1) o.selections →
      (newSets (shapeChildren s d'') [] (topLevel s d'' o')).2 = false ∧
        (newSets (fieldChildren s d'') [] (topLevel s d'' o')).2 = false := fun hn => by
    have hdepth : Shallow d'' (depthLimit + 1) (topLevel s d'' o') :=
      shallow_topLevel ((hn.of_agrees h hns).of_fills hfills hoo.selections)
    exact ⟨newSets_notDeep (fun _ _ => subset_of_mem_groupBy) hdepth,
      newSets_notDeep (fun _ _ => subset_of_mem_fieldGroups) hdepth⟩
  simp only [conflicts]
  rw [hclearShapes, hclearFields]
  split
  · rename_i htoo
    refine .inr ⟨rfl, fun hn => ?_⟩
    obtain ⟨hs, hf⟩ := hdeep hn
    rw [hs, hf] at htoo
    exact absurd htoo (by decide)
  · exact .inl rfl

end

end RecordGateway.GraphQL.Merging
