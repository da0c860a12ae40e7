import RecordGateway.Proofs.GraphQL.Accepted
import RecordGateway.Proofs.GraphQL.Reach

/-!
# What acceptance says of the selections of an operation

The rules look at the inside of a fragment once for each operation that reaches it. `Sound` is what
they establish of a selection set in its place; it holds of the selections of an operation of an
accepted document and of all fragments that it reaches (`Vetted`, `vetted_of_accepted`).

* `Walk`: from sound selections one only comes to sound selections (`Vetted.walk`).
* `Bounded`: no way of spreads out of an operation is longer than the number of fragments
  (`Vetted.bounded`), since fragments do not come back to themselves.
-/

namespace RecordGateway.GraphQL

open Document (Accepted)

/-! ## Sound selections -/

/-- No rule finds a fault in the selections `ss` on the type `parent`, every field in them exists,
and the fragments that they spread are among `reached`. -/
structure Selection.Sound (s : Schema) (d : Document) (vars : List VariableDefinition)
    (reached : List Name) (parent : Name) (ss : List Selection) : Prop where
  faults : faultsAll s d vars parent ss = []
  fits : misfitsAll s parent ss = []
  spreads : spreadsAll ss ⊆ reached

namespace Selection

section
variable {s : Schema} {d : Document} {vars : List VariableDefinition}

/-- A type condition without faults names a type with fields. -/
theorem conditionComposite_of_faults {parent : Name} {i : Nat} {c : Option TypeCondition}
    (h : conditionFaults s parent i c = []) : conditionComposite s c = true := by
  cases c with
  | none => rfl
  | some c =>
    by_cases hc : s.isComposite c.name = true
    · exact hc
    · simp [conditionFaults, hc] at h

mutual

/-- Without faults, the rules come to every spread. -/
theorem checkedSpreads_eq : ∀ (parent : Name) (x : Selection), faults s d vars parent x = [] →
    checkedSpreads s x = spreads x
  | parent, .field f body, h => by
    simp only [faults, List.append_eq_nil_iff] at h
    simp only [checkedSpreads, spreads]
    exact checkedSpreadsAll_eq _ body h.2
  | parent, .inline i c ds body, h => by
    simp only [faults, List.append_eq_nil_iff] at h
    obtain ⟨⟨-, hc⟩, hb⟩ := h
    have hcomp := conditionComposite_of_faults hc
    simp only [hcomp, ↓reduceIte] at hb
    simp only [checkedSpreads, spreads, hcomp, ↓reduceIte]
    exact checkedSpreadsAll_eq _ body hb
  | _, .spread _ _ _, _ => by simp [checkedSpreads, spreads]

theorem checkedSpreadsAll_eq : ∀ (parent : Name) (ss : List Selection),
    faultsAll s d vars parent ss = [] → checkedSpreadsAll s ss = spreadsAll ss
  | _, [], _ => by simp [checkedSpreadsAll, spreadsAll]
  | parent, x :: xs, h => by
    simp only [faultsAll, List.append_eq_nil_iff] at h
    simp only [checkedSpreadsAll, spreadsAll, checkedSpreads_eq parent x h.1,
      checkedSpreadsAll_eq parent xs h.2]

end

mutual

/-- Without faults, every spread names a fragment. -/
theorem fragment?_of_mem_spreads : ∀ (parent : Name) (x : Selection),
    faults s d vars parent x = [] → ∀ n ∈ spreads x, (d.fragment? n).isSome
  | parent, .field f body, h, n, hn => by
    simp only [faults, List.append_eq_nil_iff] at h
    exact fragment?_of_mem_spreadsAll _ body h.2 n hn
  | parent, .inline i c ds body, h, n, hn => by
    simp only [faults, List.append_eq_nil_iff] at h
    obtain ⟨⟨-, hc⟩, hb⟩ := h
    simp only [conditionComposite_of_faults hc, ↓reduceIte] at hb
    exact fragment?_of_mem_spreadsAll _ body hb n hn
  | parent, .spread i m ds, h, n, hn => by
    simp only [spreads, List.mem_singleton] at hn
    subst hn
    simp only [faults, spreadFaults, List.append_eq_nil_iff] at h
    cases hf : d.fragment? n with
    | none => simp [hf] at h
    | some f => rfl

theorem fragment?_of_mem_spreadsAll : ∀ (parent : Name) (ss : List Selection),
    faultsAll s d vars parent ss = [] → ∀ n ∈ spreadsAll ss, (d.fragment? n).isSome
  | _, [], _, n, hn => by simp [spreadsAll] at hn
  | parent, x :: xs, h, n, hn => by
    simp only [faultsAll, List.append_eq_nil_iff] at h
    simp only [spreadsAll, List.mem_append] at hn
    rcases hn with hn | hn
    · exact fragment?_of_mem_spreads parent x h.1 n hn
    · exact fragment?_of_mem_spreadsAll parent xs h.2 n hn

end

/-! ### The parts of sound selections -/

variable {reached : List Name} {parent : Name}

namespace Sound

theorem cons {x : Selection} {xs : List Selection} (h : Sound s d vars reached parent (x :: xs)) :
    Sound s d vars reached parent [x] ∧ Sound s d vars reached parent xs := by
  obtain ⟨hf, hm, hs⟩ := h
  simp only [faultsAll, misfitsAll, spreadsAll, List.append_eq_nil_iff,
    List.append_subset] at hf hm hs
  exact ⟨⟨by simpa [faultsAll] using hf.1, by simpa [misfitsAll] using hm.1,
    by simpa [spreadsAll] using hs.1⟩, ⟨hf.2, hm.2, hs.2⟩⟩

theorem of_mem {x : Selection} : ∀ {ss : List Selection}, x ∈ ss →
    Sound s d vars reached parent ss → Sound s d vars reached parent [x]
  | y :: ys, hx, h => by
    rcases List.mem_cons.1 hx with rfl | hx
    · exact h.cons.1
    · exact of_mem hx h.cons.2

theorem faults_eq {x : Selection} (h : Sound s d vars reached parent [x]) :
    Selection.faults s d vars parent x = [] := by
  simpa [faultsAll] using h.faults

/-- A field exists on its type, and its body is sound on the type of its value. -/
theorem field {f : Field} {body : List Selection}
    (h : Sound s d vars reached parent [.field f body]) :
    ∃ t, s.fieldTypeName? parent f.name = some t ∧ Sound s d vars reached t body := by
  obtain ⟨hf, hm, hs⟩ := h
  simp only [faultsAll, Selection.faults, misfitsAll, misfits, spreadsAll, Selection.spreads,
    List.append_nil, List.append_eq_nil_iff] at hf hm hs
  split at hm
  · cases hm
  · rename_i hmis
    unfold Field.misfit? at hmis
    cases ht : s.fieldTypeName? parent f.name with
    | none => simp [ht] at hmis
    | some t =>
      rw [ht] at hf hm
      exact ⟨t, rfl, hf.2, hm, hs⟩

theorem inline {i : Nat} {c : Option TypeCondition} {ds : List Directive} {body : List Selection}
    (h : Sound s d vars reached parent [.inline i c ds body]) :
    Sound s d vars reached (conditionName parent c) body := by
  obtain ⟨hf, hm, hs⟩ := h
  simp only [faultsAll, Selection.faults, misfitsAll, misfits, spreadsAll, Selection.spreads,
    List.append_nil, List.append_eq_nil_iff] at hf hm hs
  obtain ⟨⟨-, hc⟩, hb⟩ := hf
  simp only [conditionComposite_of_faults hc, ↓reduceIte] at hb
  split at hm
  · cases hm
  · exact ⟨hb, hm, hs⟩

/-- An inline fragment is for a type that can be there. -/
theorem inline_overlap {i : Nat} {c : Option TypeCondition} {ds : List Directive}
    {body : List Selection} (h : Sound s d vars reached parent [.inline i c ds body]) :
    s.overlap parent (conditionName parent c) = true := by
  cases c with
  | none => simp [conditionName, Schema.overlap]
  | some c =>
    have hf := h.faults_eq
    simp only [Selection.faults, conditionFaults, List.append_eq_nil_iff] at hf
    by_cases ho : s.overlap parent c.name = true
    · exact ho
    · by_cases hc : s.isComposite c.name = true <;> simp [ho, hc] at hf

/-- A spread is of a fragment that is reached, and for a type that can be there. -/
theorem spread {i : Nat} {n : Name} {ds : List Directive}
    (h : Sound s d vars reached parent [.spread i n ds]) :
    n ∈ reached ∧ ∃ f, d.fragment? n = some f ∧ s.overlap parent f.condition.name = true := by
  obtain ⟨hf, -, hs⟩ := h
  simp only [faultsAll, Selection.faults, spreadFaults, spreadsAll, Selection.spreads,
    List.append_nil, List.append_eq_nil_iff] at hf hs
  refine ⟨hs (by simp), ?_⟩
  cases hfr : d.fragment? n with
  | none => simp [hfr] at hf
  | some f =>
    refine ⟨f, rfl, ?_⟩
    have := hf.2
    simp only [hfr] at this
    by_cases ho : s.overlap parent f.condition.name = true
    · exact ho
    · simp [ho] at this

end Sound

end

end Selection

/-! ## The selections of an operation -/

/-- The selections of an operation are sound, and so are those of the fragments `reached`, which
hold all the fragments that their spreads name. -/
structure Operation.Vetted (s : Schema) (d : Document) (o : Operation) (reached : List Name) :
    Prop where
  top : Selection.Sound s d o.variableDefinitions reached (o.root s) o.selections
  fragments : ∀ n ∈ reached, ∀ f, d.fragment? n = some f →
    f.faultsOfShape s d = [] ∧
      Selection.Sound s d o.variableDefinitions reached f.condition.name f.selections

namespace Document

theorem fragment?_some {d : Document} {n : Name} {f : Fragment} (h : d.fragment? n = some f) :
    f ∈ d.fragments ∧ f.name = n :=
  ⟨List.mem_of_find?_eq_some h, by simpa using List.find?_some h⟩

/-- The rules for an operation of an accepted document find nothing. -/
theorem Accepted.operation_faults {s : Schema} {d : Document} (h : Accepted s d) {o : Operation}
    (ho : o ∈ d.operations) : o.faults s d = [] := by
  have hf := h.faults
  simp only [Document.faults, List.append_eq_nil_iff, List.flatMap_eq_nil_iff] at hf
  exact hf.1.1.1 o ho

end Document

/-- A fragment without faults is right as a whole, and inside. -/
theorem Fragment.faults_eq_nil {s : Schema} {d : Document} {vars : List VariableDefinition}
    {f : Fragment} (h : f.faults s d vars = []) :
    f.faultsOfShape s d = [] ∧ Selection.faultsAll s d vars f.condition.name f.selections = [] := by
  simp only [Fragment.faults, List.append_eq_nil_iff] at h
  cases hs : f.faultsOfShape s d with
  | nil =>
    rw [hs] at h
    exact ⟨rfl, h.2⟩
  | cons x xs => simp [hs] at h

/-- With a fragment that the rules come to, they come to those that it spreads. -/
theorem Document.checked_spec (s : Schema) (d : Document) (ss : List Selection) :
    Selection.checkedSpreadsAll s ss ⊆
        reach (d.checkedSpreadsOf s) d.room (Selection.checkedSpreadsAll s ss) ∧
      ∀ n ∈ reach (d.checkedSpreadsOf s) d.room (Selection.checkedSpreadsAll s ss),
        d.checkedSpreadsOf s n ⊆
          reach (d.checkedSpreadsOf s) d.room (Selection.checkedSpreadsAll s ss) := by
  -- a name without a fragment leads nowhere, so the room of `checked` is enough
  have hall : ∀ n, n ∉ d.fragments.map (·.name) → d.checkedSpreadsOf s n = [] := by
    intro n hn
    unfold Document.checkedSpreadsOf
    cases hfr : d.fragment? n with
    | none => rfl
    | some f =>
      obtain ⟨hmem, rfl⟩ := Document.fragment?_some hfr
      exact absurd (List.mem_map_of_mem hmem) hn
  exact reach_spec hall (by simp [Document.room]) _

namespace Operation

theorem vetted_of_accepted {s : Schema} {d : Document} (h : Accepted s d) {o : Operation}
    (ho : o ∈ d.operations) : ∃ reached, Vetted s d o reached := by
  have hf := h.operation_faults ho
  simp only [Operation.faults, List.append_eq_nil_iff, List.flatMap_eq_nil_iff] at hf
  obtain ⟨⟨-, htop⟩, hchecked⟩ := hf
  obtain ⟨hstart, hclosed⟩ := d.checked_spec s o.selections
  refine ⟨reach (d.checkedSpreadsOf s) d.room (Selection.checkedSpreadsAll s o.selections),
    ⟨htop, h.operations o ho, ?_⟩, fun n hn f hfr => ?_⟩
  · rwa [← Selection.checkedSpreadsAll_eq _ _ htop]
  · obtain ⟨hshape, hin⟩ := Fragment.faults_eq_nil
      (hchecked f (List.mem_filterMap.2 ⟨n, hn, hfr⟩))
    refine ⟨hshape, hin, h.fragments f (Document.fragment?_some hfr).1, ?_⟩
    rw [← Selection.checkedSpreadsAll_eq _ _ hin]
    simpa [Document.checkedSpreadsOf, hfr, hshape] using hclosed n hn

end Operation

/-! ## Walks -/

/-- From the selections `ss` on the type `parent` one comes to the selection `x` on the type `p`,
through fragments but not into the value of a field. -/
inductive Walk (d : Document) : Name → List Selection → Name → Selection → Prop
  | here {parent : Name} {ss : List Selection} {x : Selection} (h : x ∈ ss) :
      Walk d parent ss parent x
  | inline {parent p : Name} {ss body : List Selection} {x : Selection} {i : Nat}
      {c : Option TypeCondition} {ds : List Directive} (h : .inline i c ds body ∈ ss)
      (w : Walk d (conditionName parent c) body p x) : Walk d parent ss p x
  | spread {parent p : Name} {ss : List Selection} {x : Selection} {i : Nat} {n : Name}
      {ds : List Directive} {f : Fragment} (h : .spread i n ds ∈ ss) (hf : d.fragment? n = some f)
      (w : Walk d f.condition.name f.selections p x) : Walk d parent ss p x

theorem Walk.mono {d : Document} {parent p : Name} {ss ss' : List Selection} {x : Selection}
    (hs : ss ⊆ ss') (w : Walk d parent ss p x) : Walk d parent ss' p x := by
  cases w with
  | here h => exact .here (hs h)
  | inline h w => exact .inline (hs h) w
  | spread h hf w => exact .spread (hs h) hf w

/-! ## Ways of spreads -/

/-- No way of spreads out of `ss` passes through more than `room` fragments, and each spread names
one. -/
def Document.Bounded (d : Document) : (room : Nat) → List Selection → Prop
  | 0, ss => Selection.spreadsAll ss = []
  | room + 1, ss => ∀ n ∈ Selection.spreadsAll ss,
    ∃ f, d.fragment? n = some f ∧ d.Bounded room f.selections

namespace Document.Bounded

variable {d : Document} {ss ss' : List Selection}

theorem mono (hs : Selection.spreadsAll ss' ⊆ Selection.spreadsAll ss) :
    ∀ {room : Nat}, d.Bounded room ss → d.Bounded room ss'
  | 0, h => List.subset_nil.1 (h ▸ hs)
  | _ + 1, h => fun n hn => h n (hs hn)

theorem tail {x : Selection} {room : Nat} (h : d.Bounded room (x :: ss)) : d.Bounded room ss :=
  h.mono (by simp [Selection.spreadsAll])

theorem body {f : Field} {body : List Selection} {room : Nat}
    (h : d.Bounded room (.field f body :: ss)) : d.Bounded room body :=
  h.mono (by simp [Selection.spreadsAll, Selection.spreads])

theorem inside {i : Nat} {c : Option TypeCondition} {ds : List Directive} {body : List Selection}
    {room : Nat} (h : d.Bounded room (.inline i c ds body :: ss)) : d.Bounded room body :=
  h.mono (by simp [Selection.spreadsAll, Selection.spreads])

/-- A spread leaves room for one step less. -/
theorem spread {i : Nat} {n : Name} {ds : List Directive} :
    ∀ {room : Nat}, d.Bounded room (.spread i n ds :: ss) →
      ∃ r f, room = r + 1 ∧ d.fragment? n = some f ∧ d.Bounded r f.selections
  | 0, h => by simp [Bounded, Selection.spreadsAll, Selection.spreads] at h
  | r + 1, h => by
    obtain ⟨f, hf, hb⟩ := h n (by simp [Selection.spreadsAll, Selection.spreads])
    exact ⟨r, f, rfl, hf, hb⟩

end Document.Bounded

/-- The selections `ss` are sound and stand at the end of a way through the fragments `path`, the
last of them first. None of these comes back to itself, so they are different. -/
structure Selection.AtEnd (s : Schema) (d : Document) (vars : List VariableDefinition)
    (reached path : List Name) (ss : List Selection) : Prop where
  sound : ∃ parent, Sound s d vars reached parent ss
  nodup : path.Nodup
  found : ∀ n ∈ path, ∃ f, d.fragment? n = some f
  leads : ∀ p ∈ path, ∀ n ∈ spreadsAll ss, d.Leads p n

namespace Selection.AtEnd

variable {s : Schema} {d : Document} {vars : List VariableDefinition} {reached path : List Name}
  {ss : List Selection}

theorem length_le (h : AtEnd s d vars reached path ss) : path.length ≤ d.fragments.length := by
  have hsub : path ⊆ d.fragments.map (·.name) := fun n hn => by
    obtain ⟨f, hf⟩ := h.found n hn
    obtain ⟨hmem, rfl⟩ := Document.fragment?_some hf
    exact List.mem_map_of_mem hmem
  simpa using h.nodup.length_le_of_subset hsub

theorem tail {x : Selection} (h : AtEnd s d vars reached path (x :: ss)) :
    AtEnd s d vars reached path ss := by
  obtain ⟨⟨parent, hss⟩, hnodup, hfound, hleads⟩ := h
  refine ⟨⟨parent, hss.cons.2⟩, hnodup, hfound, fun p hp n hn => hleads p hp n ?_⟩
  simp only [spreadsAll, List.mem_append]
  exact .inr hn

theorem inside {i : Nat} {c : Option TypeCondition} {ds : List Directive} {body : List Selection}
    (h : AtEnd s d vars reached path (.inline i c ds body :: ss)) :
    AtEnd s d vars reached path body := by
  obtain ⟨⟨parent, hss⟩, hnodup, hfound, hleads⟩ := h
  refine ⟨⟨_, hss.cons.1.inline⟩, hnodup, hfound, fun p hp n hn => hleads p hp n ?_⟩
  simp only [spreadsAll, Selection.spreads, List.mem_append]
  exact .inl hn

end Selection.AtEnd

namespace Operation.Vetted

variable {s : Schema} {d : Document} {o : Operation} {reached : List Name}

/-- What one comes to from sound selections is sound. -/
theorem walk (h : o.Vetted s d reached) {parent p : Name} {ss : List Selection} {x : Selection}
    (w : Walk d parent ss p x) :
    Selection.Sound s d o.variableDefinitions reached parent ss →
      Selection.Sound s d o.variableDefinitions reached p [x] := by
  induction w with
  | here hx => exact Selection.Sound.of_mem hx
  | inline hx _ ih => exact fun hss => ih (hss.of_mem hx).inline
  | spread hx hf _ ih => exact fun hss => ih (h.fragments _ (hss.of_mem hx).spread.1 _ hf).2

theorem walk_top (h : o.Vetted s d reached) {p : Name} {x : Selection}
    (w : Walk d (o.root s) o.selections p x) :
    Selection.Sound s d o.variableDefinitions reached p [x] :=
  h.walk w h.top

/-- Where no value has two types, one stays on one type. -/
theorem walk_type (h : o.Vetted s d reached) (hs : ∀ n m, s.overlap n m = true → n = m)
    {parent p : Name} {ss : List Selection} {x : Selection} (w : Walk d parent ss p x) :
    Selection.Sound s d o.variableDefinitions reached parent ss → p = parent := by
  induction w with
  | here _ => exact fun _ => rfl
  | inline hx _ ih =>
    intro hss
    have hx := hss.of_mem hx
    exact (ih hx.inline).trans (hs _ _ hx.inline_overlap).symm
  | spread hx hf _ ih =>
    intro hss
    obtain ⟨hn, f, hf', ho⟩ := (hss.of_mem hx).spread
    obtain rfl := Option.some.inj (hf.symm.trans hf')
    exact (ih (h.fragments _ hn _ hf).2).trans (hs _ _ ho).symm

/-- A fragment that is reached does not come back to itself. -/
theorem not_leads_self (h : o.Vetted s d reached) {n : Name} {f : Fragment} (hn : n ∈ reached)
    (hf : d.fragment? n = some f) : ¬ d.Leads n n := by
  obtain ⟨-, rfl⟩ := Document.fragment?_some hf
  refine Trail.not_leads_self hf ?_
  have hshape := (h.fragments f.name hn f hf).1
  simp only [Fragment.faultsOfShape, List.append_eq_nil_iff] at hshape
  cases ht : Trail.of d f with
  | clear => rfl
  | back via => simp [ht] at hshape
  | tooLong => simp [ht] at hshape

/-- A spread leads on to the end of a longer path. -/
theorem atEnd_spread (h : o.Vetted s d reached) {path : List Name} {ss : List Selection}
    (hend : Selection.AtEnd s d o.variableDefinitions reached path ss) {n : Name}
    (hn : n ∈ Selection.spreadsAll ss) : ∃ f, d.fragment? n = some f ∧
      Selection.AtEnd s d o.variableDefinitions reached (n :: path) f.selections := by
  obtain ⟨⟨parent, hss⟩, hnodup, hfound, hleads⟩ := hend
  obtain ⟨f, hf⟩ := Option.isSome_iff_exists.1
    (Selection.fragment?_of_mem_spreadsAll parent ss hss.faults n hn)
  have hnot : n ∉ path := fun hp => h.not_leads_self (hss.spreads hn) hf (hleads n hp n hn)
  refine ⟨f, hf, ⟨_, (h.fragments n (hss.spreads hn) f hf).2⟩, List.nodup_cons.2 ⟨hnot, hnodup⟩,
    List.forall_mem_cons.2 ⟨⟨f, hf⟩, hfound⟩, fun p hp m hm => ?_⟩
  have hstep : m ∈ d.spreadsOf n := by simpa [Document.spreadsOf, hf] using hm
  rcases List.mem_cons.1 hp with rfl | hp
  · exact .single hstep
  · exact .tail (hleads p hp n hn) hstep

/-- No way of spreads out of selections at the end of a path is longer than the number of fragments
that are not in it. -/
theorem bounded_of_atEnd (h : o.Vetted s d reached) : ∀ (room : Nat) {path : List Name}
    {ss : List Selection}, Selection.AtEnd s d o.variableDefinitions reached path ss →
      room + path.length = d.fragments.length → d.Bounded room ss
  | 0, path, ss, hend, hlen => by
    refine List.eq_nil_iff_forall_not_mem.2 fun n hn => ?_
    -- one more different name than there are fragments
    obtain ⟨f, -, hin⟩ := h.atEnd_spread hend hn
    have := hin.length_le
    simp only [List.length_cons] at this
    omega
  | room + 1, path, ss, hend, hlen => by
    intro n hn
    obtain ⟨f, hf, hin⟩ := h.atEnd_spread hend hn
    exact ⟨f, hf, h.bounded_of_atEnd room hin (by simp only [List.length_cons]; omega)⟩

theorem atEnd_top (h : o.Vetted s d reached) :
    Selection.AtEnd s d o.variableDefinitions reached [] o.selections :=
  ⟨⟨_, h.top⟩, List.nodup_nil, by simp, by simp⟩

/-- No way of spreads out of an operation is longer than the number of fragments. -/
theorem bounded (h : o.Vetted s d reached) : d.Bounded d.fragments.length o.selections :=
  h.bounded_of_atEnd _ h.atEnd_top rfl

end Operation.Vetted

end RecordGateway.GraphQL
