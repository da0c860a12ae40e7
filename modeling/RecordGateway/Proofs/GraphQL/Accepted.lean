import RecordGateway.GraphQL.Validation
import RecordGateway.Proofs.GraphQL.Parsing

/-!
# Documents that are read

`Document.Accepted s d` collects what is known of a document that `Document.read` gives under the
schema `s` (`accepted_of_read`): no rule finds a fault in it, every field in it exists on its type,
fragments have names of their own, and there is an operation.

What does not fit a schema never gets into a document (`Fitting`, kept by every definition),
and every definition leaves a trace in the document or among the problems (`Draft.marked_add`).
-/

namespace RecordGateway.GraphQL

/-! ## Selections that have been resolved -/

namespace Field

/-- A field that fits with some selections fits with fewer, as far as there being any goes. -/
theorem misfit?_of_isEmpty {s : Schema} {parent : Name} {f : Field} {body body' : List Selection}
    (h : f.misfit? s parent body = none) (hb : body.isEmpty → body'.isEmpty) :
    f.misfit? s parent body' = none := by
  unfold misfit? at h ⊢
  split at h
  · cases h
  · by_cases hl : s.isLeaf ‹Name›
    · have : body.isEmpty := by simpa [hl] using h
      simp [hb this]
    · simp [hl]

end Field

namespace Selection

mutual

theorem misfits_resolve (s : Schema) : ∀ (parent : Name) (x : Selection) {y : Selection},
    resolve s parent x = some y → misfits s parent y = []
  | parent, .field f body, y, h => by
    unfold resolve at h
    split at h
    · cases h
    · rename_i hf
      cases h
      have hb : body.isEmpty →
          (resolveAll s ((s.fieldTypeName? parent f.name).getD "") body).isEmpty := fun hb => by
        simp [List.isEmpty_iff.1 hb, resolveAll]
      have hf' := Field.misfit?_of_isEmpty hf hb
      simp only [misfits, hf', misfitsAll_resolveAll s _ body]
  | parent, .inline i c ds body, y, h => by
    unfold resolve at h
    split at h
    · cases h
    · rename_i hc
      cases h
      simp only [misfits, hc, misfitsAll_resolveAll s _ body]
  | parent, .spread i n ds, y, h => by
    cases h
    simp [misfits]

theorem misfitsAll_resolveAll (s : Schema) : ∀ (parent : Name) (ss : List Selection),
    misfitsAll s parent (resolveAll s parent ss) = []
  | parent, [] => by simp [resolveAll, misfitsAll]
  | parent, x :: xs => by
    have hxs := misfitsAll_resolveAll s parent xs
    unfold resolveAll
    cases hx : resolve s parent x with
    | none => simpa using hxs
    | some y => simp [misfitsAll, misfits_resolve s parent x hx, hxs]

end

end Selection

/-! ## Documents under construction -/

namespace Document

/-- What holds of the operations and fragments of a document however far it is built. -/
structure Fitting (s : Schema) (d : Document) : Prop where
  root : ∀ o ∈ d.operations, s.root? o.kind = some (o.root s)
  operations : ∀ o ∈ d.operations, Selection.misfitsAll s (o.root s) o.selections = []
  fragments : ∀ f ∈ d.fragments, Selection.misfitsAll s f.condition.name f.selections = []
  fragmentNames : (d.fragments.map (·.name)).Nodup
  anonymous : ∀ o, d.anonymous = some o → o.name = none

namespace Draft

theorem resolveOperation_some {s : Schema} {o o' : Operation} {ps : List Diagnostic}
    (h : resolveOperation s o = some (o', ps)) :
    o'.name = o.name ∧ s.root? o'.kind = some (o'.root s) ∧
      Selection.misfitsAll s (o'.root s) o'.selections = [] := by
  simp only [resolveOperation, Option.map_eq_some_iff, Prod.mk.injEq] at h
  obtain ⟨root, hr, rfl, -⟩ := h
  simp [Operation.root, hr, Selection.misfitsAll_resolveAll]

/-- What adding an operation does to a document: nothing, with a problem, or the operation is there
as far as it fits. -/
def AddsOperation (s : Schema) (d d' : Draft) (o : Operation) : Prop :=
  (d'.document = d.document ∧ d'.problems ≠ []) ∨
    ∃ o' ps, resolveOperation s o = some (o', ps) ∧
      (d'.document = { d.document with named := d.document.named ++ [o'] } ∨
        o.name = none ∧ d'.document = { d.document with anonymous := some o' })

theorem addNamed_cases (s : Schema) (d : Draft) (o : Operation) (n : Name) (i : Nat) :
    AddsOperation s d (d.addNamed s o n i) o := by
  unfold addNamed
  rcases d.document.anonymous with _ | a <;> dsimp only [report]
  all_goals
    split
    · exact .inl ⟨rfl, by simp⟩
    · cases ho : resolveOperation s o with
      | none => exact .inl ⟨rfl, by simp⟩
      | some p => exact .inr ⟨p.1, p.2, ho, .inl rfl⟩

theorem addAnonymous_cases (s : Schema) (d : Draft) {o : Operation} (hn : o.name = none) :
    AddsOperation s d (d.addAnonymous s o) o := by
  unfold addAnonymous
  rcases d.document.anonymous with _ | a
  · dsimp only [report]
    split
    · exact .inl ⟨rfl, by simp⟩
    · cases ho : resolveOperation s o with
      | none => exact .inl ⟨rfl, by simp⟩
      | some p => exact .inr ⟨p.1, p.2, ho, .inr ⟨hn, rfl⟩⟩
  · exact .inl ⟨rfl, by simp [report]⟩

/-- What adding a fragment does to a document: nothing, with a problem, or the fragment is there as
far as it fits, with a name that is new. -/
def AddsFragment (s : Schema) (d d' : Draft) (f : Fragment) : Prop :=
  (d'.document = d.document ∧ d'.problems ≠ []) ∨
    (∀ g ∈ d.document.fragments, g.name ≠ f.name) ∧
      d'.document = { d.document with
        fragments := d.document.fragments ++
          [{ f with selections := Selection.resolveAll s f.condition.name f.selections }] }

theorem addFragment_cases (s : Schema) (d : Draft) (f : Fragment) :
    AddsFragment s d (d.addFragment s f) f := by
  unfold addFragment
  split
  · exact .inl ⟨rfl, by simp [report]⟩
  · rename_i hn
    split
    · exact .inl ⟨rfl, by simp [report]⟩
    · exact .inr ⟨by simpa using hn, rfl⟩

/-- What adding a definition does. -/
theorem add_cases (s : Schema) (d : Draft) (x : Definition) :
    ((d.add s x).document = d.document ∧ (d.add s x).problems ≠ []) ∨
      (∃ o, AddsOperation s d (d.add s x) o) ∨ ∃ f, AddsFragment s d (d.add s x) f := by
  unfold add
  split
  · rename_i o
    cases hn : o.name with
    | none => exact .inr (.inl ⟨o, addAnonymous_cases s d hn⟩)
    | some p => exact .inr (.inl ⟨o, addNamed_cases s d o p.1 p.2⟩)
  · exact .inr (.inr ⟨_, addFragment_cases s d _⟩)
  all_goals exact .inl ⟨rfl, by simp [report]⟩

/-! ### What every definition keeps -/

theorem fitting_operation {s : Schema} {d d' : Draft} {o : Operation} (h : Fitting s d.document)
    (ha : AddsOperation s d d' o) : Fitting s d'.document := by
  obtain ⟨he, -⟩ | ⟨o', ps, ho, he⟩ := ha
  · rwa [he]
  obtain ⟨hname, hr, hm⟩ := resolveOperation_some ho
  have hmem : ∀ x ∈ d'.document.operations, x ∈ d.document.operations ∨ x = o' := by
    rcases he with he | ⟨-, he⟩ <;> grind [operations]
  have hops : ∀ P : Operation → Prop, (∀ x ∈ d.document.operations, P x) → P o' →
      ∀ x ∈ d'.document.operations, P x := by
    intro P hP ho' x hx
    rcases hmem x hx with hx | rfl
    · exact hP x hx
    · exact ho'
  have hfr : d'.document.fragments = d.document.fragments := by
    rcases he with he | ⟨-, he⟩ <;> rw [he]
  refine ⟨hops _ h.root hr, hops _ h.operations hm, hfr ▸ h.fragments, hfr ▸ h.fragmentNames, ?_⟩
  rcases he with he | ⟨hn, he⟩ <;> rw [he]
  · exact h.anonymous
  · intro x hx
    cases hx
    exact hname.trans hn

theorem fitting_fragment {s : Schema} {d d' : Draft} {f : Fragment} (h : Fitting s d.document)
    (ha : AddsFragment s d d' f) : Fitting s d'.document := by
  obtain ⟨he, -⟩ | ⟨hn, he⟩ := ha
  · rwa [he]
  rw [he]
  refine ⟨h.root, h.operations, fun g hg => ?_, ?_, h.anonymous⟩
  · rcases List.mem_append.1 hg with hg | hg
    · exact h.fragments g hg
    · rw [List.mem_singleton.1 hg]
      exact Selection.misfitsAll_resolveAll s _ _
  · simp only [List.map_append, List.map_cons, List.map_nil, List.nodup_append]
    refine ⟨h.fragmentNames, by simp, fun n hn' m hm he' => ?_⟩
    obtain ⟨g, hg, rfl⟩ := List.mem_map.1 hn'
    exact hn g hg (he'.trans (by simpa using hm))

theorem fitting_add {s : Schema} {d : Draft} (h : Fitting s d.document) (x : Definition) :
    Fitting s (d.add s x).document := by
  obtain ⟨he, -⟩ | ⟨o, ho⟩ | ⟨f, hf⟩ := add_cases s d x
  · rwa [he]
  · exact fitting_operation h ho
  · exact fitting_fragment h hf

theorem fitting_foldl {s : Schema} : ∀ (xs : List Definition) {d : Draft}, Fitting s d.document →
    Fitting s (xs.foldl (add s) d).document
  | [], _, h => h
  | x :: xs, _, h => fitting_foldl xs (fitting_add h x)

/-- Every definition leaves a trace. -/
theorem marked_add (s : Schema) (d : Draft) (x : Definition) :
    (d.add s x).document.operations ≠ [] ∨ (d.add s x).document.fragments ≠ [] ∨
      (d.add s x).problems ≠ [] := by
  obtain ⟨-, hp⟩ | ⟨o, ⟨-, hp⟩ | ⟨o', ps, -, he | ⟨-, he⟩⟩⟩ | ⟨f, ⟨-, hp⟩ | ⟨-, he⟩⟩ :=
    add_cases s d x
  · exact .inr (.inr hp)
  · exact .inr (.inr hp)
  · exact .inl (by simp [he, operations])
  · exact .inl (by simp [he, operations])
  · exact .inr (.inr hp)
  · exact .inr (.inl (by simp [he]))

end Draft

theorem fitting_ofDefinitions (s : Schema) (xs : List Definition) :
    Fitting s (ofDefinitions s xs).1 :=
  Draft.fitting_foldl xs ⟨by simp [operations], by simp [operations], by simp, by simp, by simp⟩

theorem marked_ofDefinitions (s : Schema) {xs : List Definition} (h : xs ≠ []) :
    (ofDefinitions s xs).1.operations ≠ [] ∨ (ofDefinitions s xs).1.fragments ≠ [] ∨
      (ofDefinitions s xs).2 ≠ [] := by
  obtain ⟨ys, y, rfl⟩ := (List.eq_nil_or_concat xs).resolve_left h
  simp only [ofDefinitions, List.concat_eq_append, List.foldl_append, List.foldl_cons,
    List.foldl_nil]
  exact Draft.marked_add s _ y

/-! ## Documents that are read -/

/-- What is known of a document that has been read under a schema. -/
structure Accepted (s : Schema) (d : Document) : Prop extends Fitting s d where
  faults : d.faults s = []
  nonempty : d.operations ≠ []

/-- Definitions that are accepted provide the document with no problem on the way and no fault after
it. -/
theorem check_ok {s : Schema} {xs : List Definition} {d : Document} (h : check s xs = (d, [])) :
    ofDefinitions s xs = (d, []) ∧ d.faults s = [] := by
  simp only [check, Prod.mk.injEq] at h
  obtain ⟨hd, hs⟩ := h
  have hp : (ofDefinitions s xs).2 ++ (ofDefinitions s xs).1.faults s = [] :=
    (hs ▸ List.mergeSort_perm _ _ : [].Perm _).symm.eq_nil
  obtain ⟨hp, hf⟩ := List.append_eq_nil_iff.1 hp
  exact ⟨Prod.ext hd hp, hd ▸ hf⟩

/-- The document of a text is built from its definitions. -/
theorem read_ok {s : Schema} {text : String} {d : Document} (h : read s text = .ok d) :
    ∃ xs, parseDefinitions text = .ok xs ∧ ofDefinitions s xs = (d, []) ∧ d.faults s = [] := by
  unfold read at h
  split at h
  · cases h
  rename_i xs hxs
  split at h
  · rename_i d' hc
    cases h
    exact ⟨xs, hxs, check_ok hc⟩
  · cases h

/-- Reads a text as `read` does, by its bytes where it is of ASCII. -/
def readBytes (s : Schema) (text : String) : Except Refusal Document :=
  match parseBytes text with
  | .error e => .error (.unreadable e)
  | .ok xs =>
    match check s xs with
    | (d, []) => .ok d
    | (_, ps) => .error (.faulty ps)

theorem readBytes_eq (s : Schema) (text : String) : readBytes s text = read s text := by
  unfold readBytes
  rw [parseBytes_eq]
  rfl

theorem read_of_check {s : Schema} {text : String} {xs : List Definition} {d : Document}
    (hxs : parseDefinitions text = .ok xs) (h : check s xs = (d, [])) : read s text = .ok d := by
  simp only [read, hxs, h]

/-- A document without an operation has no fragments that are used. -/
theorem fragments_eq_nil {s : Schema} {d : Document} (hf : d.faults s = [])
    (ho : d.operations = []) : d.fragments = [] := by
  have hu : d.unusedFragments = [] := by
    simp only [faults, List.append_eq_nil_iff] at hf
    exact hf.1.1.2
  simpa [unusedFragments, ho, List.eq_nil_iff_forall_not_mem] using hu

theorem accepted_of_read {s : Schema} {text : String} {d : Document} (h : read s text = .ok d) :
    Accepted s d := by
  obtain ⟨xs, hxs, hd, hf⟩ := read_ok h
  have hfit := fitting_ofDefinitions s xs
  have hmark := marked_ofDefinitions s (parseDefinitions_ne_nil hxs)
  rw [hd] at hfit hmark
  refine ⟨hfit, hf, fun ho => ?_⟩
  simp [ho, fragments_eq_nil hf ho] at hmark

theorem accepted_of_check {s : Schema} {xs : List Definition} {d : Document}
    (h : check s xs = (d, [])) (ho : d.operations ≠ []) : Accepted s d := by
  obtain ⟨hd, hf⟩ := check_ok h
  have hfit := fitting_ofDefinitions s xs
  rw [hd] at hfit
  exact ⟨hfit, hf, ho⟩

end Document

end RecordGateway.GraphQL
