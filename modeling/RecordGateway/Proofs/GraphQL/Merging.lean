import RecordGateway.Proofs.GraphQL.Sound

/-!
# Fields under one key

* `mem_expand`: the expansion of a selection set has every field that one comes to from it. There
  is room for the whole queue, since `expansionBound` counts every set that gets into it
  (`expandQueue_closed`).
* `exists_checked_set`: in a document without faults, the set at the top of an operation, or one
  that is written alike, has been looked at and has no conflicts.
-/

namespace RecordGateway.GraphQL.Merging

/-! ## What the queue counts -/

theorem foldl_countSets (sets : List (List Selection)) (k : Nat) :
    sets.foldl (fun n ss => n + 1 + setsInAll ss) k = k + countSets sets := by
  induction sets generalizing k with
  | nil => rfl
  | cons ss sets ih =>
    rw [countSets, List.foldl_cons, List.foldl_cons, ih, ih (0 + 1 + _)]
    omega

@[simp]
theorem countSets_nil : countSets [] = 0 := rfl

@[simp]
theorem countSets_cons (ss : List Selection) (sets : List (List Selection)) :
    countSets (ss :: sets) = 1 + setsInAll ss + countSets sets := by
  have h := foldl_countSets sets (0 + 1 + setsInAll ss)
  rw [countSets, List.foldl_cons]
  omega

@[simp]
theorem countSets_append (sets sets' : List (List Selection)) :
    countSets (sets ++ sets') = countSets sets + countSets sets' := by
  rw [countSets, List.foldl_append]
  exact foldl_countSets sets' (countSets sets)

/-- How many sets the ones in a queue account for. -/
def queueWeight (ps : List Pending) : Nat := countSets (ps.map (·.2))

/-- How many sets the fragments account for that have not been seen. -/
def unseenWeight (fs : List Fragment) (seen : List Name) : Nat :=
  countSets ((fs.filter (·.name ∉ seen)).map (·.selections))

theorem expansionBound_eq (d : Document) (ps : List Pending) :
    expansionBound d ps = queueWeight ps + unseenWeight d.fragments [] := by
  simp [expansionBound, queueWeight, unseenWeight]

theorem unseenWeight_cons (f : Fragment) (fs : List Fragment) (seen : List Name) :
    unseenWeight (f :: fs) seen =
      (if f.name ∈ seen then 0 else 1 + setsInAll f.selections) + unseenWeight fs seen := by
  by_cases hf : f.name ∈ seen <;> simp [unseenWeight, hf]

theorem unseenWeight_concat_le (fs : List Fragment) (seen : List Name) (n : Name) :
    unseenWeight fs (seen ++ [n]) ≤ unseenWeight fs seen := by
  induction fs with
  | nil => exact Nat.le_refl _
  | cons g fs ih =>
    simp only [unseenWeight_cons, List.mem_append]
    by_cases hg : g.name ∈ seen
    · simp only [hg, true_or, ↓reduceIte]
      omega
    · simp only [hg, ↓reduceIte, false_or]
      split <;> omega

/-- A fragment is counted until it is seen. -/
theorem unseenWeight_concat {fs : List Fragment} {seen : List Name} {f : Fragment} (hf : f ∈ fs)
    (hn : f.name ∉ seen) :
    unseenWeight fs (seen ++ [f.name]) + (1 + setsInAll f.selections) ≤ unseenWeight fs seen := by
  induction fs with
  | nil => cases hf
  | cons g fs ih =>
    have hle := unseenWeight_concat_le fs seen f.name
    simp only [unseenWeight_cons, List.mem_append, List.mem_singleton]
    rcases List.mem_cons.1 hf with rfl | hf
    · simp only [hn, or_true, ↓reduceIte]
      omega
    · have ih := ih hf
      by_cases hg : g.name ∈ seen
      · simp only [hg, true_or, ↓reduceIte]
        omega
      · simp only [hg, ↓reduceIte, false_or]
        split <;> omega

/-! ## One set -/

/-- What `split` makes of a set: its fields, the sets in its inline fragments, and the fragments
that it is the first to spread. -/
structure Splits (d : Document) (parent : Name) (seen : List Name) (ss : List Selection)
    (os : List Occurrence) (ps : List Pending) (seen' : List Name) : Prop where
  field : ∀ f body, .field f body ∈ ss → ⟨parent, f, body⟩ ∈ os
  inline : ∀ i c ds body, .inline i c ds body ∈ ss → (conditionName parent c, body) ∈ ps
  spread : ∀ i n ds, .spread i n ds ∈ ss → n ∈ seen'
  grows : seen ⊆ seen'
  fresh : ∀ n ∈ seen', n ∉ seen → ∀ f, d.fragment? n = some f →
    (f.condition.name, f.selections) ∈ ps
  weight_le : queueWeight ps + unseenWeight d.fragments seen' ≤
    setsInAll ss + unseenWeight d.fragments seen

namespace Splits

variable {d : Document} {parent : Name} {seen seen' : List Name} {ss : List Selection}
  {os : List Occurrence} {ps : List Pending}

theorem nil : Splits d parent seen [] [] [] seen :=
  ⟨by simp, by simp, by simp, fun _ h => h, fun _ h h' => absurd h h', by
    simp [queueWeight, setsInAll]⟩

theorem cons_field (h : Splits d parent seen ss os ps seen') (f : Field) (body : List Selection) :
    Splits d parent seen (.field f body :: ss) (⟨parent, f, body⟩ :: os) ps seen' := by
  refine ⟨fun g b hg => ?_, fun i c ds b hg => h.inline i c ds b (by simpa using hg),
    fun i n ds hg => h.spread i n ds (by simpa using hg), h.grows, h.fresh, ?_⟩
  · rcases List.mem_cons.1 hg with hg | hg
    · cases hg
      exact List.mem_cons_self
    · exact List.mem_cons_of_mem _ (h.field g b hg)
  · simpa [setsInAll, setsIn] using h.weight_le

theorem cons_inline (h : Splits d parent seen ss os ps seen') (i : Nat) (c : Option TypeCondition)
    (ds : List Directive) (body : List Selection) :
    Splits d parent seen (.inline i c ds body :: ss) os ((conditionName parent c, body) :: ps)
      seen' := by
  refine ⟨fun g b hg => h.field g b (by simpa using hg), fun j e es b hg => ?_,
    fun j n es hg => h.spread j n es (by simpa using hg), h.grows,
    fun n hn hn' f hf => List.mem_cons_of_mem _ (h.fresh n hn hn' f hf), ?_⟩
  · rcases List.mem_cons.1 hg with hg | hg
    · cases hg
      exact List.mem_cons_self
    · exact List.mem_cons_of_mem _ (h.inline j e es b hg)
  · have hw := h.weight_le
    simp only [queueWeight, List.map_cons, countSets_cons, setsInAll, setsIn] at hw ⊢
    omega

theorem cons_seen {n : Name} (hn : n ∈ seen) (h : Splits d parent seen ss os ps seen') (i : Nat)
    (ds : List Directive) : Splits d parent seen (.spread i n ds :: ss) os ps seen' := by
  refine ⟨fun g b hg => h.field g b (by simpa using hg),
    fun j c es b hg => h.inline j c es b (by simpa using hg), fun j m es hg => ?_, h.grows, h.fresh,
    ?_⟩
  · rcases List.mem_cons.1 hg with hg | hg
    · cases hg
      exact h.grows hn
    · exact h.spread j m es hg
  · simpa [setsInAll, setsIn] using h.weight_le

/-- A spread that is the first of its name. `new` is the set in the fragment, if there is one. -/
theorem cons_new {n : Name} (hn : n ∉ seen) (h : Splits d parent (seen ++ [n]) ss os ps seen')
    (i : Nat) (ds : List Directive) {new : List Pending}
    (hnew : new = ((d.fragment? n).map fun f => (f.condition.name, f.selections)).toList) :
    Splits d parent seen (.spread i n ds :: ss) os (new ++ ps) seen' := by
  refine ⟨fun g b hg => h.field g b (by simpa using hg), fun j c es b hg =>
    List.mem_append_right _ (h.inline j c es b (by simpa using hg)), fun j m es hg => ?_,
    fun m hm => h.grows (List.mem_append_left _ hm), fun m hm hm' f hf => ?_, ?_⟩
  · rcases List.mem_cons.1 hg with hg | hg
    · cases hg
      exact h.grows (by simp)
    · exact h.spread j m es hg
  · by_cases hmn : m = n
    · subst hmn
      exact List.mem_append_left _ (by simp [hnew, hf])
    · exact List.mem_append_right _ (h.fresh m hm (by simp [hm', hmn]) f hf)
  · have hw := h.weight_le
    cases hf : d.fragment? n with
    | none =>
      have hle := unseenWeight_concat_le d.fragments seen n
      simp only [hnew, hf, Option.map_none, Option.toList_none, List.nil_append, setsInAll,
        setsIn] at hw ⊢
      omega
    | some f =>
      obtain ⟨hmem, rfl⟩ := Document.fragment?_some hf
      have hle := unseenWeight_concat hmem hn
      simp only [hnew, hf, Option.map_some, Option.toList_some, List.cons_append, List.nil_append,
        queueWeight, List.map_cons, countSets_cons, setsInAll, setsIn] at hw ⊢
      omega

end Splits

theorem splits_split (d : Document) (parent : Name) : ∀ (ss : List Selection) (seen : List Name),
    Splits d parent seen ss (split d parent seen ss).1 (split d parent seen ss).2.1
      (split d parent seen ss).2.2
  | [], seen => .nil
  | .field f body :: ss, seen => (splits_split d parent ss seen).cons_field f body
  | .inline i c ds body :: ss, seen => (splits_split d parent ss seen).cons_inline i c ds body
  | .spread i n ds :: ss, seen => by
    unfold split
    by_cases hn : n ∈ seen
    · simp only [List.contains_eq_mem, hn, decide_true, ↓reduceIte]
      exact (splits_split d parent ss seen).cons_seen hn i ds
    · have ih := (splits_split d parent ss (seen ++ [n])).cons_new hn i ds rfl
      cases hf : d.fragment? n with
      | none => simpa [hn, hf] using ih
      | some f => simpa [hn, hf] using ih

/-! ## The queue -/

/-- The fields in `sets` are among `os`, and with a set, the sets in its inline fragments and those
in the fragments that it spreads are among `sets`, the fragments in `seen` apart. -/
structure Closed (d : Document) (seen : List Name) (os : List Occurrence) (sets : List Pending) :
    Prop where
  field : ∀ p ∈ sets, ∀ f body, .field f body ∈ p.2 → ⟨p.1, f, body⟩ ∈ os
  inline : ∀ p ∈ sets, ∀ i c ds body, .inline i c ds body ∈ p.2 →
    (conditionName p.1 c, body) ∈ sets
  spread : ∀ p ∈ sets, ∀ i n ds f, .spread i n ds ∈ p.2 → d.fragment? n = some f →
    n ∈ seen ∨ (f.condition.name, f.selections) ∈ sets

/-- Taking one more set off the queue. -/
theorem Closed.cons {d : Document} {parent : Name} {seen seen' : List Name} {ss : List Selection}
    {os os' : List Occurrence} {ps sets : List Pending} (hs : Splits d parent seen ss os ps seen')
    (hps : ps ⊆ sets) (h : Closed d seen' os' sets) :
    Closed d seen (os ++ os') ((parent, ss) :: sets) := by
  -- what has come to be seen is in the queue
  have hseen : ∀ n ∈ seen', ∀ f, d.fragment? n = some f →
      n ∈ seen ∨ (f.condition.name, f.selections) ∈ sets := by
    intro n hn f hf
    by_cases hn' : n ∈ seen
    · exact .inl hn'
    · exact .inr (hps (hs.fresh n hn hn' f hf))
  refine ⟨fun p hp f body hx => ?_, fun p hp i c ds body hx => ?_, fun p hp i n ds f hx hf => ?_⟩
  all_goals rcases List.mem_cons.1 hp with rfl | hp
  · exact List.mem_append_left _ (hs.field f body hx)
  · exact List.mem_append_right _ (h.field p hp f body hx)
  · exact List.mem_cons_of_mem _ (hps (hs.inline i c ds body hx))
  · exact List.mem_cons_of_mem _ (h.inline p hp i c ds body hx)
  · exact (hseen n (hs.spread i n ds hx) f hf).imp_right (List.mem_cons_of_mem _)
  · rcases h.spread p hp i n ds f hx hf with hn | hm
    · exact (hseen n hn f hf).imp_right (List.mem_cons_of_mem _)
    · exact .inr (List.mem_cons_of_mem _ hm)

/-- Taking a set off the queue leaves room for what comes in its place. -/
theorem queueWeight_split {d : Document} {parent : Name} {seen : List Name} {ss : List Selection}
    {queue : List Pending} {bound : Nat}
    (h : queueWeight ((parent, ss) :: queue) + unseenWeight d.fragments seen ≤ bound + 1) :
    queueWeight (queue ++ (split d parent seen ss).2.1) +
      unseenWeight d.fragments (split d parent seen ss).2.2 ≤ bound := by
  have hw := (splits_split d parent ss seen).weight_le
  simp only [queueWeight, List.map_cons, countSets_cons, List.map_append,
    countSets_append] at h hw ⊢
  omega

/-- With room for all that is counted, the queue runs empty. -/
theorem expandQueue_closed (d : Document) : ∀ (bound : Nat) (seen : List Name)
    (queue : List Pending), queueWeight queue + unseenWeight d.fragments seen ≤ bound →
      ∃ sets, queue ⊆ sets ∧ Closed d seen (expandQueue d bound seen queue) sets
  | _, _, [], _ => ⟨[], List.nil_subset _, by simp, by simp, by simp⟩
  | 0, _, (_, ss) :: queue, h => by
    simp only [queueWeight, List.map_cons, countSets_cons] at h
    omega
  | bound + 1, seen, (parent, ss) :: queue, h => by
    have hs := splits_split d parent ss seen
    obtain ⟨sets, hsub, hc⟩ := expandQueue_closed d bound _ _ (queueWeight_split h)
    refine ⟨(parent, ss) :: sets, ?_, hc.cons hs fun p hp => hsub (List.mem_append_right _ hp)⟩
    exact List.cons_subset_cons _ fun p hp => hsub (List.mem_append_left _ hp)

/-- The expansion of a selection set has the fields that one comes to. -/
theorem mem_expand {d : Document} {parent p : Name} {ss : List Selection} {f : Field}
    {body : List Selection} (w : Walk d parent ss p (.field f body)) :
    ⟨p, f, body⟩ ∈ expand d [(parent, ss)] := by
  obtain ⟨sets, hsub, hc⟩ := expandQueue_closed d (expansionBound d [(parent, ss)]) []
    [(parent, ss)] (Nat.le_of_eq (expansionBound_eq d _).symm)
  have hmem : (parent, ss) ∈ sets := hsub (List.mem_singleton_self _)
  show ⟨p, f, body⟩ ∈ expandQueue d (expansionBound d [(parent, ss)]) [] [(parent, ss)]
  generalize expandQueue d (expansionBound d [(parent, ss)]) [] [(parent, ss)] = os at hc
  clear hsub
  generalize hx : Selection.field f body = x at w
  induction w with
  | here h =>
    subst hx
    exact hc.field _ hmem f body h
  | inline h _ ih => exact ih (hc.inline _ hmem _ _ _ _ h) hx
  | spread h hf _ ih =>
    exact ih ((hc.spread _ hmem _ _ _ _ h hf).resolve_left List.not_mem_nil) hx

/-! ## Groups -/

theorem mem_groupBy {α : Type} {key : α → Name} {as : List α} {a : α} (h : a ∈ as) :
    as.filter (key · == key a) ∈ groupBy key as :=
  List.mem_map.2 ⟨key a, List.mem_eraseDups.2 (List.mem_map_of_mem h), rfl⟩

/-- Occurrences on one object type are in one part. -/
theorem exists_byParent {s : Schema} {os : List Occurrence} {x y : Occurrence} (hx : x ∈ os)
    (hy : y ∈ os) (hp : x.parent = y.parent) {is : List Name} {fs : List FieldType}
    (ht : s.type? x.parent = some (.object is fs)) :
    ∃ group ∈ byParent s os, x ∈ group ∧ y ∈ group := by
  have ht' : s.type? y.parent = some (.object is fs) := hp ▸ ht
  unfold byParent
  extract_lets isObject others
  have hxo : x ∈ os.filter isObject := List.mem_filter.2 ⟨hx, by simp [isObject, ht]⟩
  have hyo : y ∈ os.filter isObject := List.mem_filter.2 ⟨hy, by simp [isObject, ht']⟩
  have hmine : (os.filter isObject).filter (Occurrence.parent · == x.parent) ∈
      groupBy Occurrence.parent (os.filter isObject) := mem_groupBy hxo
  split
  · rename_i hnil
    rw [hnil] at hmine
    cases hmine
  · exact ⟨_, List.mem_map_of_mem hmine,
      List.mem_append_left _ (List.mem_filter.2 ⟨hxo, by simp⟩),
      List.mem_append_left _ (List.mem_filter.2 ⟨hyo, by simp [hp]⟩)⟩

/-- Occurrences on one object type under one key are in one group. -/
theorem exists_fieldGroup {s : Schema} {os : List Occurrence} {x y : Occurrence} (hx : x ∈ os)
    (hy : y ∈ os) (hk : x.key = y.key) (hp : x.parent = y.parent) {is : List Name}
    {fs : List FieldType} (ht : s.type? x.parent = some (.object is fs)) :
    ∃ group ∈ fieldGroups s os, x ∈ group ∧ y ∈ group := by
  have hxk : x ∈ os.filter (Occurrence.key · == x.key) := List.mem_filter.2 ⟨hx, by simp⟩
  have hyk : y ∈ os.filter (Occurrence.key · == x.key) := List.mem_filter.2 ⟨hy, by simp [hk]⟩
  obtain ⟨group, hg, h⟩ := exists_byParent hxk hyk hp ht
  exact ⟨group, List.mem_flatMap.2 ⟨_, mem_groupBy hx, hg⟩, h⟩

/-- In a group without conflicts, all agree with the first. -/
theorem agrees_with_first {z : Occurrence} {rest : List Occurrence}
    (h : conflictsWith fieldConflict? (z :: rest) = []) {o : Occurrence} (ho : o ∈ z :: rest) :
    o = z ∨ sameArguments z.field.arguments o.field.arguments = true := by
  rcases List.mem_cons.1 ho with rfl | ho
  · exact .inl rfl
  · right
    have hconflict := List.filterMap_eq_nil_iff.1 h o ho
    unfold fieldConflict? at hconflict
    split at hconflict
    · cases hconflict
    · split at hconflict
      · cases hconflict
      · simpa using ‹¬(!sameArguments _ _) = true›

/-- Without conflicts, occurrences on one object type under one key agree with some third one. -/
theorem exists_agreeing {s : Schema} {os : List Occurrence} (h : fieldConflicts s os = [])
    {x y : Occurrence} (hx : x ∈ os) (hy : y ∈ os) (hk : x.key = y.key)
    (hp : x.parent = y.parent) {is : List Name} {fs : List FieldType}
    (ht : s.type? x.parent = some (.object is fs)) :
    ∃ z : Occurrence, (x = z ∨ sameArguments z.field.arguments x.field.arguments = true) ∧
      (y = z ∨ sameArguments z.field.arguments y.field.arguments = true) := by
  obtain ⟨group, hg, hxg, hyg⟩ := exists_fieldGroup hx hy hk hp ht
  have hnone := List.flatMap_eq_nil_iff.1 h group hg
  cases group with
  | nil => cases hxg
  | cons z rest => exact ⟨z, agrees_with_first hnone hxg, agrees_with_first hnone hyg⟩

/-! ## Sets that have been looked at -/

section
variable {children : List Occurrence → List (List Occurrence)}

theorem foldl_explore_grows {room : Nat}
    (h : ∀ v c, v.sets <+: (Survey.explore children room v c).sets) :
    ∀ (cs : List (List Occurrence)) (v : Survey),
      v.sets <+: (cs.foldl (Survey.explore children room) v).sets
  | [], _ => List.prefix_refl _
  | c :: cs, v => (h v c).trans (foldl_explore_grows h cs _)

/-- Sets that have been looked at stay. -/
theorem explore_grows : ∀ (room : Nat) (v : Survey) (os : List Occurrence),
    v.sets <+: (Survey.explore children room v os).sets
  | 0, _, _ => List.prefix_refl _
  | room + 1, v, os => by
    unfold Survey.explore
    split
    · exact List.prefix_refl _
    · have hfold := foldl_explore_grows (explore_grows room) (children os)
        { v with sets := v.sets ++ [os] }
      exact (List.prefix_append v.sets [os]).trans hfold

/-- A set is new in a survey, unless one that is written alike is known. -/
theorem mem_newSets (known : List (List Occurrence)) (os : List Occurrence) :
    os ∈ (newSets children known os).1 ∨ ∃ K ∈ known, sameSet os K = true := by
  by_cases hk : known.any (sameSet os) = true
  · exact .inr (List.any_eq_true.1 hk)
  · left
    have hprefix : ∀ v c, v.sets <+: (Survey.explore children depthLimit v c).sets :=
      explore_grows _
    obtain ⟨rest, hrest⟩ := foldl_explore_grows hprefix (children os) { sets := known ++ [os] }
    have hexplore : (Survey.explore children (depthLimit + 1) ⟨known, false⟩ os).sets =
        known ++ [os] ++ rest := by
      rw [hrest]
      unfold Survey.explore
      simp only [hk, Bool.false_eq_true, ↓reduceIte]
    have hdrop : (newSets children known os).1 = os :: rest := by
      show (Survey.explore children (depthLimit + 1) ⟨known, false⟩ os).sets.drop known.length = _
      rw [hexplore, List.append_assoc, List.drop_left]
      rfl
    rw [hdrop]
    exact List.mem_cons_self

end

/-- If nothing conflicts in some operations, each of them has at its top a set without conflicts, or
one that is written like such a set. -/
theorem exists_checked_set_of_conflicts {s : Schema} {d : Document} :
    ∀ {os : List Operation} {shapesKnown fieldsKnown : List (List Occurrence)},
      (∀ K ∈ fieldsKnown, fieldConflicts s K = []) →
      (∀ c ∈ conflicts s d shapesKnown fieldsKnown os, c = []) → ∀ o ∈ os,
        ∃ K, fieldConflicts s K = [] ∧ (topLevel s d o = K ∨ sameSet (topLevel s d o) K = true)
  | o :: os, shapesKnown, fieldsKnown, hknown, hc, o', ho' => by
    simp only [conflicts, List.forall_mem_cons, List.append_eq_nil_iff,
      List.flatMap_eq_nil_iff] at hc
    obtain ⟨⟨⟨-, hfields⟩, -⟩, hrest⟩ := hc
    have hknown' : ∀ K ∈ fieldsKnown ++ (newSets (fieldChildren s d) fieldsKnown
        (topLevel s d o)).1, fieldConflicts s K = [] := by
      intro K hK
      rcases List.mem_append.1 hK with hK | hK
      · exact hknown K hK
      · exact hfields K hK
    rcases List.mem_cons.1 ho' with rfl | ho'
    · rcases mem_newSets fieldsKnown (topLevel s d o') with hnew | ⟨K, hK, hsame⟩
      · exact ⟨_, hfields _ hnew, .inl rfl⟩
      · exact ⟨K, hknown K hK, .inr hsame⟩
    · exact exists_checked_set_of_conflicts hknown' hrest o' ho'

theorem length_conflicts (s : Schema) (d : Document) : ∀ (os : List Operation)
    (shapesKnown fieldsKnown : List (List Occurrence)),
      (conflicts s d shapesKnown fieldsKnown os).length = os.length
  | [], _, _ => rfl
  | _ :: os, _, _ => congrArg (· + 1) (length_conflicts s d os _ _)

/-- The set at the top of an operation of an accepted document has no conflicts, or is written like
one that has none. -/
theorem exists_checked_set {s : Schema} {d : Document} (h : d.Accepted s) {o : Operation}
    (ho : o ∈ d.operations) :
    ∃ K, fieldConflicts s K = [] ∧ (topLevel s d o = K ∨ sameSet (topLevel s d o) K = true) := by
  have hsnd : (d.operations.zip (conflicts s d [] [] d.operations)).map Prod.snd =
      conflicts s d [] [] d.operations :=
    List.map_snd_zip (Nat.le_of_eq (length_conflicts s d d.operations [] []))
  have hfaults := h.faults
  simp only [Document.faults, List.append_eq_nil_iff, List.flatMap_eq_nil_iff] at hfaults
  have hnone : ∀ c ∈ conflicts s d [] [] d.operations, c = [] := by
    intro c hc
    rw [← hsnd] at hc
    obtain ⟨p, hp, rfl⟩ := List.mem_map.1 hc
    exact (hfaults.2 p hp).2
  exact exists_checked_set_of_conflicts (fun K hK => absurd hK List.not_mem_nil) hnone o ho

end RecordGateway.GraphQL.Merging
