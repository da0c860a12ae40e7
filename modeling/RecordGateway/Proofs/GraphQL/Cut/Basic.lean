import Mathlib.Data.List.Find
import RecordGateway.Proofs.GraphQL.Filling.Document

/-!
# Documents cut down to one operation

`Document.only d o` has of the operations of `d` those with the name of `o`, and of the fragments
those that `o` uses. It is the document of the definitions that `Document.cut` keeps
(`ofDefinitions_cut`).

Fragments that are used are the same in both documents, and so are those that they use in turn
(`Agrees`). The rules for the operation look at nothing else, so they find no fault in the second
document where they find none in the first (`Operation.faults_only`).
-/

namespace RecordGateway.GraphQL

variable {s : Schema} {d d' : Document} {ns : List Name} {vars : List VariableDefinition}

/-! ## Agreement -/

/-- Two documents have the same fragments with the names `ns`, and these spread no others. -/
structure Document.Agrees (d d' : Document) (ns : List Name) : Prop where
  fragment? : ∀ n ∈ ns, d'.fragment? n = d.fragment? n
  closed : ∀ n ∈ ns, ∀ f, d.fragment? n = some f → Selection.spreadsAll f.selections ⊆ ns

namespace Selection

mutual

theorem faults_of_agrees (h : d.Agrees d' ns) : ∀ (parent : Name) (x : Selection),
    spreads x ⊆ ns → faults s d' vars parent x = faults s d vars parent x
  | parent, .field f body, hx => by
    simp only [faults, faultsAll_of_agrees h _ body hx]
  | parent, .inline i c ds body, hx => by
    simp only [faults, faultsAll_of_agrees h _ body hx]
  | parent, .spread i n ds, hx => by
    simp only [faults, spreadFaults, h.fragment? n (hx (by simp [spreads]))]

/-- Selections have the same faults in documents that agree on what they spread. -/
theorem faultsAll_of_agrees (h : d.Agrees d' ns) : ∀ (parent : Name) (ss : List Selection),
    spreadsAll ss ⊆ ns → faultsAll s d' vars parent ss = faultsAll s d vars parent ss
  | _, [], _ => rfl
  | parent, x :: xs, hss => by
    obtain ⟨hx, hxs⟩ := List.append_subset.1 hss
    simp only [faultsAll, faults_of_agrees h parent x hx, faultsAll_of_agrees h parent xs hxs]

end

end Selection

namespace Trail

theorem first_congr {search search' : Name → Trail} : ∀ {ns : List Name},
    (∀ n ∈ ns, search' n = search n) → first search' ns = first search ns
  | [], _ => rfl
  | n :: ns, h => by
    obtain ⟨hn, hns⟩ := List.forall_mem_cons.1 h
    simp only [first, hn, first_congr hns]

theorem follow_of_agrees (h : d.Agrees d' ns) (root : Name) : ∀ (room : Nat) (path : List Name)
    (n : Name), n ∈ ns → follow d' root room path n = follow d root room path n
  | room, path, n, hn => by
    unfold follow
    rw [h.fragment? n hn]
    cases hf : d.fragment? n with
    | none => rfl
    | some f =>
      cases room with
      | zero => rfl
      | succ room =>
        have hnext : first (follow d' root room (n :: path)) (Selection.spreadsAll f.selections) =
            first (follow d root room (n :: path)) (Selection.spreadsAll f.selections) :=
          first_congr fun m hm => follow_of_agrees h root room _ m (h.closed n hn f hf hm)
        simp only [hnext]

theorem of_of_agrees (h : d.Agrees d' ns) {f : Fragment}
    (hf : Selection.spreadsAll f.selections ⊆ ns) : of d' f = of d f :=
  first_congr fun n hn => follow_of_agrees h f.name _ _ n (hf hn)

end Trail

/-- A fragment has the same faults in documents that agree on what it spreads. -/
theorem Fragment.faults_of_agrees (h : d.Agrees d' ns) {f : Fragment}
    (hf : Selection.spreadsAll f.selections ⊆ ns) : f.faults s d' vars = f.faults s d vars := by
  simp only [faults, faultsOfShape, Trail.of_of_agrees h hf,
    Selection.faultsAll_of_agrees h _ _ hf]

namespace Document

/-! ## What an operation uses -/

/-- The names of the fragments that selections use. -/
def usedNames (d : Document) (ss : List Selection) : List Name :=
  reach d.spreadsOf d.room (Selection.spreadsAll ss)

theorem spreadsOf_eq_nil {n : Name} (hn : n ∉ d.fragments.map (·.name)) : d.spreadsOf n = [] := by
  unfold spreadsOf
  cases hf : d.fragment? n with
  | none => rfl
  | some f =>
    obtain ⟨hmem, rfl⟩ := fragment?_some hf
    exact absurd (List.mem_map_of_mem hmem) hn

theorem usedNames_spec (d : Document) (ss : List Selection) :
    Selection.spreadsAll ss ⊆ d.usedNames ss ∧
      ∀ n ∈ d.usedNames ss, d.spreadsOf n ⊆ d.usedNames ss :=
  reach_spec (fun _ => spreadsOf_eq_nil) (by simp [room]) _

/-- All that is used is in a set that holds what is spread and what that spreads in turn. -/
theorem usedNames_subset {ss : List Selection} (hss : Selection.spreadsAll ss ⊆ ns)
    (hns : ∀ n ∈ ns, d.spreadsOf n ⊆ ns) : d.usedNames ss ⊆ ns :=
  foldl_visit_subset hns d.room hss (List.nil_subset _)

theorem mem_used {ss : List Selection} {f : Fragment} :
    f ∈ d.used ss ↔ ∃ n ∈ d.usedNames ss, d.fragment? n = some f :=
  List.mem_filterMap

/-- Documents that agree on what selections use say of the same fragments that they use them. -/
theorem Agrees.usedNames_subset {ss : List Selection} (h : d.Agrees d' ns)
    (hss : Selection.spreadsAll ss ⊆ ns) : d.usedNames ss ⊆ d'.usedNames ss := by
  obtain ⟨hstart, hclosed⟩ := d'.usedNames_spec ss
  have hspreads : ∀ n ∈ ns, d'.spreadsOf n = d.spreadsOf n := fun n hn => by
    simp only [spreadsOf, h.fragment? n hn]
  have hns : ∀ n ∈ ns, d'.spreadsOf n ⊆ ns := fun n hn => by
    rw [hspreads n hn]
    unfold spreadsOf
    split
    · exact h.closed n hn _ ‹_›
    · exact List.nil_subset _
  -- what the second document says is used lies in `ns`, so both go on from it alike
  have hsub : d'.usedNames ss ⊆ ns := Document.usedNames_subset hss hns
  exact Document.usedNames_subset hstart fun n hn => hspreads n (hsub hn) ▸ hclosed n hn

/-- No fragment that an operation of an accepted document uses has a fault in it. -/
theorem Accepted.fragment_faults (h : Accepted s d) {o : Operation} (ho : o ∈ d.operations)
    {n : Name} (hn : n ∈ d.usedNames o.selections) {f : Fragment} (hf : d.fragment? n = some f) :
    f.faults s d o.variableDefinitions = [] := by
  have hfaults := h.operation_faults ho
  simp only [Operation.faults, List.append_eq_nil_iff, List.flatMap_eq_nil_iff] at hfaults
  obtain ⟨⟨-, htop⟩, hchecked⟩ := hfaults
  obtain ⟨hstart, hclosed⟩ := d.checked_spec s o.selections
  -- a fragment that the rules come to has no faults, so they come to all that it spreads
  have hused : d.usedNames o.selections ⊆
      reach (d.checkedSpreadsOf s) d.room (Selection.checkedSpreadsAll s o.selections) := by
    refine usedNames_subset (Selection.checkedSpreadsAll_eq _ _ htop ▸ hstart) fun m hm => ?_
    unfold spreadsOf
    split
    · rename_i g hg
      obtain ⟨hshape, hin⟩ := Fragment.faults_eq_nil
        (hchecked g (List.mem_filterMap.2 ⟨m, hm, hg⟩))
      rw [← Selection.checkedSpreadsAll_eq _ _ hin]
      simpa [checkedSpreadsOf, hg, hshape] using hclosed m hm
    · exact List.nil_subset _
  exact hchecked f (List.mem_filterMap.2 ⟨n, hused hn, hf⟩)

/-! ## Cutting -/

/-- Whether a definition is the operation `o` or a fragment that it uses. -/
def keeps (d : Document) (o : Operation) : Definition → Bool
  | .operation p => p.name.map (·.1) == o.name.map (·.1)
  | .fragment f => (d.used o.selections).any (·.name == f.name)
  | .system .. => false

/-- The definitions of the operation `o` and of the fragments that it uses. -/
def cut (d : Document) (o : Operation) (xs : List Definition) : List Definition :=
  xs.filter (d.keeps o)

/-- The operations of a document with the name of `o`, and the fragments that `o` uses. -/
def only (d : Document) (o : Operation) (e : Document) : Document where
  anonymous := e.anonymous.filter fun p => d.keeps o (.operation p)
  named := e.named.filter fun p => d.keeps o (.operation p)
  fragments := e.fragments.filter fun f => d.keeps o (.fragment f)

section
variable {e e₁ : Document} {o : Operation}

/-- What is kept of a definition that is taken is taken, and what is not kept leaves no trace. -/
theorem Takes.only {x : Definition} (h : Takes s e x e₁) :
    if d.keeps o x then Takes s (d.only o e) x (d.only o e₁) else d.only o e₁ = d.only o e := by
  have hany : ∀ {α : Type} {p q : α → Bool} {as : List α}, as.any p = false →
      (as.filter q).any p = false := fun {α p q as} h => by
    simp only [List.any_eq_false] at h ⊢
    exact fun a ha => h a (List.mem_of_mem_filter ha)
  cases h with
  | @named p n i root hname ha hn hr hm =>
    have htakes : Takes s (d.only o e) (.operation p)
        { d.only o e with named := (d.only o e).named ++ [p] } :=
      .named hname (by simp [Document.only, ha]) (hany hn) hr hm
    split
    · rename_i hk
      simpa [Document.only, List.filter_append, hk] using htakes
    · rename_i hk
      simp [Document.only, List.filter_append, hk]
  | @anonymous p root hname ha hn hr hm =>
    have htakes : Takes s (d.only o e) (.operation p) { d.only o e with anonymous := some p } :=
      .anonymous hname (by simp [Document.only, ha]) (by simp [Document.only, hn]) hr hm
    split
    · rename_i hk
      simpa [Document.only, hk, Option.filter] using htakes
    · rename_i hk
      simp [Document.only, hk, ha, Option.filter]
  | @fragment f hn hc hm =>
    have htakes : Takes s (d.only o e) (.fragment f)
        { d.only o e with fragments := (d.only o e).fragments ++ [f] } :=
      .fragment (hany hn) hc hm
    split
    · rename_i hk
      simpa [Document.only, List.filter_append, hk] using htakes
    · rename_i hk
      simp [Document.only, List.filter_append, hk]

theorem foldl_add_cut : ∀ (xs : List Definition) (c c' : Draft),
    c'.document = d.only o c.document → c'.problems = [] →
      (xs.foldl (Draft.add s) c).problems = [] →
        ((d.cut o xs).foldl (Draft.add s) c').document =
            d.only o (xs.foldl (Draft.add s) c).document ∧
          ((d.cut o xs).foldl (Draft.add s) c').problems = []
  | [], _, _, hd, hp, _ => ⟨hd, hp⟩
  | x :: xs, c, c', hd, hp, h => by
    obtain ⟨-, htakes⟩ := Draft.takes_of_add (Draft.problems_of_foldl_add h)
    have honly := htakes.only (d := d) (o := o)
    by_cases hk : d.keeps o x = true
    · rw [if_pos hk, ← hd] at honly
      obtain ⟨hdoc, hproblems⟩ := Draft.add_of_takes hp honly
      simpa [cut, hk] using foldl_add_cut xs _ _ hdoc hproblems h
    · rw [if_neg hk, ← hd] at honly
      simpa [cut, hk] using foldl_add_cut xs _ _ honly.symm hp h

/-- The definitions that are kept provide the document that is cut down. -/
theorem ofDefinitions_cut {xs : List Definition} (hd : ofDefinitions s xs = (d, [])) :
    ofDefinitions s (d.cut o xs) = (d.only o d, []) := by
  simp only [ofDefinitions, Prod.mk.injEq] at hd
  obtain ⟨hdoc, hp⟩ := hd
  obtain ⟨hdoc', hp'⟩ := foldl_add_cut (d := d) (o := o) xs {} {} rfl rfl hp
  exact Prod.ext (hdoc'.trans (congrArg _ hdoc)) hp'

/-! ### What is left -/

/-- What every definition that is taken keeps holds of the document in the end. -/
theorem Draft.foldl_add_keeps {P : Document → Prop}
    (hstep : ∀ {e e₁ : Document} {x : Definition}, Takes s e x e₁ → P e → P e₁) :
    ∀ (xs : List Definition) (c : Draft), P c.document → (xs.foldl (add s) c).problems = [] →
      P (xs.foldl (add s) c).document
  | [], _, hc, _ => hc
  | _ :: xs, _, hc, h =>
    foldl_add_keeps hstep xs _ (hstep (takes_of_add (problems_of_foldl_add h)).2 hc) h

/-- Operations have names of their own. -/
theorem nodup_names {xs : List Definition} (hd : ofDefinitions s xs = (d, [])) :
    (d.named.map fun p => p.name.map (·.1)).Nodup := by
  simp only [ofDefinitions, Prod.mk.injEq] at hd
  obtain ⟨rfl, hp⟩ := hd
  refine Draft.foldl_add_keeps
    (P := fun e => (e.named.map fun p => p.name.map (·.1)).Nodup) ?_ xs {} List.nodup_nil hp
  intro e e₁ x htakes he
  cases htakes with
  | @named p n i root hname ha hn hr hm =>
    simp only [List.map_append, List.map_cons, List.map_nil, hname, Option.map_some]
    refine List.nodup_append.2 ⟨he, List.nodup_singleton _, fun m hm' k hk heq => ?_⟩
    obtain ⟨q, hq, rfl⟩ := List.mem_map.1 hm'
    rw [List.mem_singleton.1 hk] at heq
    obtain ⟨⟨n', i'⟩, hname', rfl⟩ := Option.map_eq_some_iff.1 heq
    exact List.any_eq_false.1 hn q hq (by simp [Operation.nameIs, hname'])
  | anonymous => exact he
  | fragment => exact he

theorem filter_key_eq_singleton {α β : Type} [BEq β] [LawfulBEq β] {key : α → β} :
    ∀ {as : List α} {a : α}, (as.map key).Nodup → a ∈ as → as.filter (key · == key a) = [a]
  | b :: as, a, hn, ha => by
    simp only [List.map_cons, List.nodup_cons] at hn
    rcases List.mem_cons.1 ha with rfl | ha
    · have hrest : as.filter (key · == key a) = [] := by
        refine List.filter_eq_nil_iff.2 fun c hc heq => hn.1 ?_
        rw [← beq_iff_eq.1 heq]
        exact List.mem_map_of_mem hc
      simp [hrest]
    · have hne : key b ≠ key a := fun heq => hn.1 (heq ▸ List.mem_map_of_mem ha)
      simp [hne, filter_key_eq_singleton hn.2 ha]

/-- Of the operations the one with the name is left. -/
theorem operations_only {xs : List Definition} (hd : ofDefinitions s xs = (d, []))
    (ho : o ∈ d.named) {n : Name} (hn : o.nameIs n = true) : (d.only o d).named = [o] ∧
      (d.only o d).operations = [o] := by
  have hnamed : (d.only o d).named = [o] := filter_key_eq_singleton (nodup_names hd) ho
  have hanonymous : (d.only o d).anonymous = none := by
    refine Option.filter_eq_none_iff.2 fun p hp hk => ?_
    have hfit := fitting_ofDefinitions s xs
    rw [hd] at hfit
    simp only [keeps, hfit.anonymous p hp, Option.map_none, beq_iff_eq] at hk
    simp [Operation.nameIs, Option.map_eq_none_iff.1 hk.symm] at hn
  exact ⟨hnamed, by rw [operations, hanonymous, hnamed]; rfl⟩

/-- The fragments that are used are left as they are. -/
theorem agrees_only (d : Document) (o : Operation) :
    d.Agrees (d.only o d) (d.usedNames o.selections) where
  fragment? n hn := by
    simp only [fragment?, Document.only, List.find?_filter]
    refine List.find?_congr fun f hf => ?_
    by_cases hname : f.name = n
    · obtain ⟨g, hg⟩ : ∃ g, d.fragment? n = some g := by
        refine Option.isSome_iff_exists.1 (List.find?_isSome.2 ⟨f, hf, by simpa using hname⟩)
      have hkeeps : d.keeps o (.fragment f) = true :=
        List.any_eq_true.2 ⟨g, mem_used.2 ⟨n, hn, hg⟩, by simp [hname, (fragment?_some hg).2]⟩
      simp only [hkeeps, true_and, Bool.decide_eq_true]
    · simp [hname]
  closed n hn f hf := by
    have hclosed := (d.usedNames_spec o.selections).2 n hn
    simpa only [spreadsOf, hf] using hclosed

section
variable (h : Accepted s d) (ho : o ∈ d.operations)
include h

/-- A fragment that is left is used. -/
theorem mem_fragments_only {f : Fragment} (hf : f ∈ (d.only o d).fragments) :
    f.name ∈ d.usedNames o.selections ∧ d.fragment? f.name = some f := by
  obtain ⟨hmem, hk⟩ := List.mem_filter.1 hf
  obtain ⟨g, hg, hname⟩ := List.any_eq_true.1 hk
  obtain ⟨n, hn, hgn⟩ := mem_used.1 hg
  obtain ⟨hgmem, rfl⟩ := fragment?_some hgn
  obtain rfl := List.inj_on_of_nodup_map h.fragmentNames hgmem hmem (beq_iff_eq.1 hname)
  exact ⟨hn, hgn⟩

/-- Every fragment that is left is used. -/
theorem unusedFragments_only (hops : (d.only o d).operations = [o]) :
    (d.only o d).unusedFragments = [] := by
  refine unusedFragments_eq_nil_iff.2 fun n hn => ?_
  obtain ⟨f, hf, rfl⟩ := List.mem_map.1 hn
  obtain ⟨hn, hfn⟩ := mem_fragments_only h hf
  have hagrees := agrees_only d o
  have hused := hagrees.usedNames_subset (d.usedNames_spec o.selections).1 hn
  simp only [hops, List.flatMap_cons, List.flatMap_nil, List.append_nil]
  exact List.mem_map.2 ⟨f, mem_used.2 ⟨f.name, hused, (hagrees.fragment? _ hn).trans hfn⟩, rfl⟩

include ho in
/-- Selections of the operation and of the fragments that it uses have no faults where only these
are left. -/
theorem faultsAll_only {f : Fragment} (hf : f ∈ (d.only o d).fragments) :
    Selection.faultsAll s (d.only o d) o.variableDefinitions f.condition.name f.selections =
      [] := by
  obtain ⟨hn, hfn⟩ := mem_fragments_only h hf
  rw [Selection.faultsAll_of_agrees (agrees_only d o) _ _ ((agrees_only d o).closed _ hn f hfn)]
  exact (Fragment.faults_eq_nil (h.fragment_faults ho hn hfn)).2

end

end

end Document

theorem VariableDefinition.unused_mono {used used' : List Name} (h : used ⊆ used') :
    ∀ {vs : List VariableDefinition}, unused used vs = [] → unused used' vs = []
  | [], _ => rfl
  | v :: vs, hv => by
    simp only [unused, List.append_eq_nil_iff] at hv ⊢
    refine ⟨?_, unused_mono h hv.2⟩
    have hone := hv.1
    by_cases hm : v.name ∈ used
    · simp [h hm]
    · by_cases hrep : vs.any (·.name == v.name) = true
      · simp [hrep]
      · simp [hm, hrep] at hone

/-- An operation of an accepted document has no faults where only it and what it uses are left. -/
theorem Operation.faults_only (h : Document.Accepted s d) {o : Operation} (ho : o ∈ d.operations) :
    o.faults s (d.only o d) = [] := by
  have hagrees := Document.agrees_only d o
  obtain ⟨hstart, -⟩ := d.usedNames_spec o.selections
  have hfaults := h.operation_faults ho
  simp only [faults, List.append_eq_nil_iff, List.flatMap_eq_nil_iff] at hfaults ⊢
  obtain ⟨⟨⟨hdefinitions, hunused⟩, hselections⟩, -⟩ := hfaults
  refine ⟨⟨⟨hdefinitions, VariableDefinition.unused_mono ?_ hunused⟩, ?_⟩, fun f hf => ?_⟩
  · -- what is used is still used
    refine List.append_subset.2 ⟨List.subset_append_left .., fun v hv => ?_⟩
    refine List.mem_append_right _ ?_
    obtain ⟨f, hf, hv⟩ := List.mem_flatMap.1 hv
    obtain ⟨n, hn, hfn⟩ := Document.mem_used.1 hf
    exact List.mem_flatMap.2 ⟨f, Document.mem_used.2 ⟨n, hagrees.usedNames_subset hstart hn,
      (hagrees.fragment? n hn).trans hfn⟩, hv⟩
  · rw [Selection.faultsAll_of_agrees hagrees _ _ hstart]
    exact hselections
  · -- the rules do not come to fragments that are not used
    obtain ⟨n, -, hfn⟩ := List.mem_filterMap.1 hf
    obtain ⟨hmem, rfl⟩ := Document.fragment?_some hfn
    obtain ⟨hn, hfn⟩ := Document.mem_fragments_only h hmem
    rw [Fragment.faults_of_agrees hagrees (hagrees.closed _ hn f hfn)]
    exact h.fragment_faults ho hn hfn

end RecordGateway.GraphQL
