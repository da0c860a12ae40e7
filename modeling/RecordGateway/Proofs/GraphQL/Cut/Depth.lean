import RecordGateway.Proofs.GraphQL.Cut.Merging

/-!
# Sets that lie too deep

Two tests of a set tell how a survey goes that starts from it, without running it.

* `lineOf`: from the set on, so many sets come first below one another. A survey goes down this line
  before anything else, and none of its sets is written like one above. So where it is longer than
  the survey may go, the survey gets too deep (`tooDeep_of_lineOf`).
* `settled`: as far down as sets are not known, nothing conflicts and nothing lies too deep. Then
  the survey finds nothing wrong (`InOrder.explore`), though the sets that are known may go on
  below.
-/

namespace RecordGateway.GraphQL.Merging

section
variable {children : List Occurrence → List (List Occurrence)}

/-! ## Lines -/

/-- From a set on, `n` sets come first below one another. -/
def lineOf (children : List Occurrence → List (List Occurrence)) : Nat → List Occurrence → Bool
  | 0, x => (children x).isEmpty
  | n + 1, x => (children x).head?.any (lineOf children n)

theorem lineOf_succ {n : Nat} {x : List Occurrence} (h : lineOf children (n + 1) x = true) :
    ∃ c cs, children x = c :: cs ∧ lineOf children n c = true := by
  cases hc : children x with
  | nil => simp [lineOf, hc] at h
  | cons c cs => exact ⟨c, cs, rfl, by simpa [lineOf, hc] using h⟩

theorem lineOf_inj : ∀ {n m : Nat} {x : List Occurrence}, lineOf children n x = true →
    lineOf children m x = true → n = m
  | 0, 0, _, _, _ => rfl
  | 0, m + 1, x, h, h' => by
    obtain ⟨c, cs, hc, -⟩ := lineOf_succ h'
    simp [lineOf, hc] at h
  | n + 1, 0, x, h, h' => by
    obtain ⟨c, cs, hc, -⟩ := lineOf_succ h
    simp [lineOf, hc] at h'
  | n + 1, m + 1, x, h, h' => by
    obtain ⟨c, cs, hc, hn⟩ := lineOf_succ h
    obtain ⟨c', cs', hc', hm⟩ := lineOf_succ h'
    obtain ⟨rfl, -⟩ := List.cons.inj (hc.symm.trans hc')
    rw [lineOf_inj hn hm]

section
variable (hsame : ∀ {x y}, sameSet x y = true →
  List.Forall₂ (fun a b => sameSet a b = true) (children x) (children y))
include hsame

theorem lineOf_same : ∀ {n : Nat} {x y : List Occurrence}, sameSet x y = true →
    lineOf children n y = lineOf children n x
  | n, x, y, h => by
    have hchildren := hsame h
    cases n with
    | zero =>
      unfold lineOf
      generalize children x = xs at hchildren ⊢
      generalize children y = ys at hchildren ⊢
      cases hchildren <;> rfl
    | succ n =>
      unfold lineOf
      generalize children x = xs at hchildren ⊢
      generalize children y = ys at hchildren ⊢
      cases hchildren with
      | nil => rfl
      | cons hab _ => exact lineOf_same hab

/-- A survey that starts from a longer line than it has room for gets too deep. -/
theorem tooDeep_of_lineOf : ∀ (room n : Nat) (v : Survey) (x : List Occurrence),
    lineOf children n x = true → room ≤ n →
      (∀ z ∈ v.sets, ∃ m, n < m ∧ lineOf children m z = true) →
        (Survey.explore children room v x).tooDeep = true
  | 0, _, _, _, _, _, _ => rfl
  | room + 1, 0, _, _, _, hroom, _ => absurd hroom (by omega)
  | room + 1, n + 1, v, x, hx, hroom, hv => by
    -- what is known has a longer line, so it is not written like this set
    have hunknown : ¬ v.sets.any (sameSet x) = true := by
      intro hany
      obtain ⟨z, hz, hxz⟩ := List.any_eq_true.1 hany
      obtain ⟨m, hm, hline⟩ := hv z hz
      have := lineOf_inj hx ((lineOf_same hsame hxz).symm.trans hline)
      omega
    obtain ⟨c, cs, hc, hline⟩ := lineOf_succ hx
    rw [Survey.explore, if_neg hunknown, hc, List.foldl_cons]
    have hfirst := tooDeep_of_lineOf room n { v with sets := v.sets ++ [x] } c hline (by omega) (by
      refine List.forall_mem_append.2
        ⟨fun z hz => ?_, List.forall_mem_singleton.2 ⟨n + 1, by omega, hx⟩⟩
      obtain ⟨m, hm, hline⟩ := hv z hz
      exact ⟨m, by omega, hline⟩)
    by_contra hdeep
    rw [Bool.not_eq_true] at hdeep
    rw [tooDeep_foldl_explore (tooDeep_explore room) hdeep] at hfirst
    cases hfirst

end

/-! ## Settled sets -/

variable {conflicts : List Occurrence → List Diagnostic} {known : List (List Occurrence)}

/-- Through `n` levels from a set on, down to sets that are known, there are no conflicts, and there
are no further levels. -/
def settled (children : List Occurrence → List (List Occurrence))
    (conflicts : List Occurrence → List Diagnostic) (known : List (List Occurrence)) :
    Nat → List Occurrence → Bool
  | 0, _ => false
  | n + 1, x => known.any (sameSet x) ||
    (conflicts x).isEmpty && (children x).all (settled children conflicts known n)

/-- A survey that has found nothing wrong, and shows what is known. -/
structure InOrder (conflicts : List Occurrence → List Diagnostic)
    (known : List (List Occurrence)) (v : Survey) : Prop where
  subset : known ⊆ v.sets
  notDeep : v.tooDeep = false
  clear : ∀ x ∈ v.sets, conflicts x = []

theorem InOrder.explore : ∀ {room : Nat} {v : Survey} {x : List Occurrence},
    InOrder conflicts known v → settled children conflicts known room x = true →
      InOrder conflicts known (Survey.explore children room v x)
  | 0, _, _, _, hx => by cases hx
  | room + 1, v, x, h, hx => by
    unfold Survey.explore
    split
    · exact h
    rename_i hunknown
    have hnew : ¬ known.any (sameSet x) = true := by
      intro hany
      obtain ⟨z, hz, hxz⟩ := List.any_eq_true.1 hany
      exact hunknown (List.any_eq_true.2 ⟨z, h.subset hz, hxz⟩)
    simp only [settled, hnew, Bool.false_or, Bool.and_eq_true, List.isEmpty_iff,
      List.all_eq_true] at hx
    obtain ⟨hclear, hbelow⟩ := hx
    have hstart : InOrder conflicts known { v with sets := v.sets ++ [x] } :=
      ⟨List.subset_append_of_subset_left _ h.subset, h.notDeep,
        List.forall_mem_append.2 ⟨h.clear, List.forall_mem_singleton.2 hclear⟩⟩
    exact List.foldlRecOn (motive := InOrder conflicts known) (children x) _ hstart
      fun u hu y hy => hu.explore (hbelow y hy)

theorem newSets_of_settled (hknown : ∀ x ∈ known, conflicts x = []) {x : List Occurrence}
    (hx : settled children conflicts known (depthLimit + 1) x = true) :
    (newSets children known x).2 = false ∧
      ∀ y ∈ (newSets children known x).1, conflicts y = [] := by
  have horder := @InOrder.explore children conflicts known (depthLimit + 1) ⟨known, false⟩ x
    ⟨List.Subset.refl _, rfl, hknown⟩ hx
  exact ⟨horder.notDeep, fun y hy => horder.clear y (List.mem_of_mem_drop hy)⟩

end

/-! ## Operations -/

section
variable {s : Schema} {d : Document}

/-- Sets below sets that are written alike are written alike. -/
theorem sameSet_children {x y : List Occurrence} (h : sameSet x y = true) :
    List.Forall₂ (fun a b => sameSet a b = true) (shapeChildren s d x) (shapeChildren s d y) := by
  have hfragments : List.Forall₂ (Fragment.Fills noLiterals) d.fragments d.fragments :=
    List.forall₂_same.2 fun f _ => .refl f
  have hgroups := shapeGroups_of_fills (sameSet_iff.1 h)
  exact (List.rel_filterMap (fun _ _ hg => below_of_fills hfragments s hg) hgroups).imp
    fun _ _ => sameSet_iff.2

/-- By itself an operation with a long line of sets has fields that lie too deep. -/
theorem conflicts_of_lineOf {o : Operation} {n : Nat}
    (h : lineOf (shapeChildren s d) n (topLevel s d o) = true) (hn : depthLimit < n) :
    ∀ ps ∈ conflicts s d [] [] [o], ⟨o.place, .fieldsTooDeep⟩ ∈ ps := by
  have hdeep : (newSets (shapeChildren s d) [] (topLevel s d o)).2 = true :=
    tooDeep_of_lineOf sameSet_children (depthLimit + 1) n ⟨[], false⟩ _ h hn
      fun _ hz => absurd hz List.not_mem_nil
  simp [conflicts, hdeep]

/-- Each operation is settled where the sets of those before it are known. -/
def allSettled (s : Schema) (d : Document) (shapes fields : List (List Occurrence)) :
    List Operation → Bool
  | [] => true
  | o :: os =>
    settled (shapeChildren s d) (shapeConflicts s) shapes (depthLimit + 1) (topLevel s d o) &&
      settled (fieldChildren s d) (fieldConflicts s) fields (depthLimit + 1) (topLevel s d o) &&
      allSettled s d (shapes ++ (newSets (shapeChildren s d) shapes (topLevel s d o)).1)
        (fields ++ (newSets (fieldChildren s d) fields (topLevel s d o)).1) os

theorem conflicts_of_allSettled : ∀ {os : List Operation} {shapes fields : List (List Occurrence)},
    (∀ x ∈ shapes, shapeConflicts s x = []) → (∀ x ∈ fields, fieldConflicts s x = []) →
      allSettled s d shapes fields os = true → ∀ ps ∈ conflicts s d shapes fields os, ps = []
  | [], _, _, _, _, _ => fun _ hps => absurd hps List.not_mem_nil
  | o :: os, shapes, fields, hshapes, hfields, h => by
    simp only [allSettled, Bool.and_eq_true] at h
    obtain ⟨⟨hs, hf⟩, hrest⟩ := h
    obtain ⟨hdeepShapes, hclearShapes⟩ := newSets_of_settled hshapes hs
    obtain ⟨hdeepFields, hclearFields⟩ := newSets_of_settled hfields hf
    simp only [conflicts, List.forall_mem_cons]
    refine ⟨?_, conflicts_of_allSettled (List.forall_mem_append.2 ⟨hshapes, hclearShapes⟩)
      (List.forall_mem_append.2 ⟨hfields, hclearFields⟩) hrest⟩
    simp [hdeepShapes, hdeepFields, List.flatMap_eq_nil_iff.2 hclearShapes,
      List.flatMap_eq_nil_iff.2 hclearFields]

end

end RecordGateway.GraphQL.Merging

namespace RecordGateway.GraphQL.Document

variable {s : Schema} {d : Document} {xs : List Definition}

/-- What the rules but those for the merging of fields find in a document. -/
def otherFaults (s : Schema) (d : Document) : List Diagnostic :=
  d.operations.flatMap (Operation.faults s d) ++ d.unusedFragments ++ d.labelFaults ++
    d.operations.flatMap (Operation.subscriptionFaults d)

/-- Definitions are accepted if all operations are settled and no other rule finds a fault. -/
theorem check_of_allSettled (hd : ofDefinitions s xs = (d, [])) (hothers : d.otherFaults s = [])
    (h : Merging.allSettled s d [] [] d.operations = true) : check s xs = (d, []) := by
  have hconflicts := Merging.conflicts_of_allSettled (fun _ hx => absurd hx List.not_mem_nil)
    (fun _ hx => absurd hx List.not_mem_nil) h
  simp only [otherFaults, List.append_eq_nil_iff] at hothers
  obtain ⟨⟨⟨hoperations, hunused⟩, hlabels⟩, hsubscriptions⟩ := hothers
  have hfaults : d.faults s = [] := by
    rw [faults, hoperations, hunused, hlabels, List.append_nil, List.nil_append]
    refine List.append_eq_nil_iff.2 ⟨rfl, List.flatMap_eq_nil_iff.2 fun p hp => ?_⟩
    obtain ⟨ho, hps⟩ := List.of_mem_zip hp
    exact List.append_eq_nil_iff.2
      ⟨List.flatMap_eq_nil_iff.1 hsubscriptions p.1 ho, hconflicts p.2 hps⟩
  simp [check, hd, hfaults, Diagnostic.sort]

/-- Definitions of a single operation with a long line of sets are not accepted. -/
theorem check_ne_of_lineOf {o : Operation} (hd : ofDefinitions s xs = (d, []))
    (ho : d.operations = [o]) {n : Nat}
    (h : Merging.lineOf (Merging.shapeChildren s d) n (Merging.topLevel s d o) = true)
    (hn : Merging.depthLimit < n) (d' : Document) : check s xs ≠ (d', []) := by
  intro hcheck
  obtain ⟨hd', hfaults⟩ := check_ok hcheck
  obtain rfl : d = d' := congrArg Prod.fst (hd.symm.trans hd')
  have hnone := Merging.conflicts_of_faults hfaults
  rw [ho] at hnone
  obtain ⟨ps, hps⟩ := List.length_eq_one_iff.1 (Merging.length_conflicts s d [o] [] [])
  have hmem := Merging.conflicts_of_lineOf h hn ps (hps ▸ List.mem_singleton_self ps)
  rw [hnone ps (hps ▸ List.mem_singleton_self ps)] at hmem
  cases hmem

end RecordGateway.GraphQL.Document
