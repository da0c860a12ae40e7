import RecordGateway.Proofs.Execution.Call

/-!
# Which conditions are asked

A condition is asked if it stands on a root field or on a fragment that the walk comes to, and no
directive before it, around it or beside it, leaves that out. A variable that such a condition is
given by must be a boolean: anything else settles the request with an error and without a call
(`rejected_of_isMisgiven`). Other conditions are not looked at, whatever their variables are
(`overlooks_misgiven`).
-/

namespace RecordGateway

open GraphQL

/-! ## Conditions without a boolean -/

namespace Bindings

variable {b : Bindings}

/-- Whether a directive goes by a variable that the request gives a value other than a boolean. -/
def isMisgiven (b : Bindings) (g : Directive) : Bool :=
  (g.name == "skip" || g.name == "include") &&
    match g.arguments.find? (·.name == "if") with
    | some ⟨_, _, .variable _ n⟩ =>
      match b.value? n with
      | some (.bool _) => false
      | some _ => true
      | none => false
    | _ => false

/-- Asking a condition that is given no boolean fails. -/
theorem kept_ne_of_isMisgiven {g : Directive} (h : b.isMisgiven g = true) (k : Bool) :
    b.kept g ≠ .ok k := by
  unfold isMisgiven at h
  rw [Bool.and_eq_true] at h
  obtain ⟨hname, h⟩ := h
  obtain ⟨s, hs⟩ : ∃ s, skipsWhen? g.name = some s := by
    rcases Bool.or_eq_true_iff.1 hname with hn | hn <;> rw [beq_iff_eq.1 hn]
    · exact ⟨true, rfl⟩
    · exact ⟨false, rfl⟩
  split at h
  · rename_i n ha
    split at h
    · cases h
    · rename_i v hv hb
      simp only [kept, hs, ha, boolean, hb]
      cases v <;> simp_all
    · cases h
  · cases h

/-- Where directives decide, one is asked unless some directive before it excludes. -/
theorem kept_of_included {gs post : List Directive} {g : Directive} {k : Bool}
    (hn : ∀ p ∈ gs, b.excludes p = false) (h : b.included (gs ++ g :: post) = .ok k) :
    ∃ l, b.kept g = .ok l := by
  induction gs with
  | nil =>
    simp only [List.nil_append, included] at h
    split at h
    · exact ⟨true, ‹_›⟩
    · exact ⟨k, h⟩
  | cons p gs ih =>
    obtain ⟨hp, hgs⟩ := List.forall_mem_cons.1 hn
    simp only [List.cons_append, included] at h
    split at h
    · exact ih hgs h
    · rename_i hk
      have := excludes_of_kept h
      cases k <;> simp_all

end Bindings

/-! ## What the walk comes to -/

/-- From the selections `ss` one comes to the selection `x` through fragments, with the directives
`gs` on the way, outermost first. -/
inductive Passes (d : Document) : List Selection → List Directive → Selection → Prop
  | here {ss : List Selection} {x : Selection} (h : x ∈ ss) : Passes d ss [] x
  | inline {ss body : List Selection} {gs ds : List Directive} {x : Selection} {i : Nat}
    {c : Option TypeCondition} (h : .inline i c ds body ∈ ss) (w : Passes d body gs x) :
    Passes d ss (ds ++ gs) x
  | spread {ss : List Selection} {gs ds : List Directive} {x : Selection} {i : Nat} {n : Name}
    {f : Fragment} (h : .spread i n ds ∈ ss) (hf : d.fragment? n = some f)
    (w : Passes d f.selections gs x) : Passes d ss (ds ++ gs) x

/-- Whether conditions on a selection are looked at: those on root fields and on fragments are. -/
def GraphQL.Selection.asks (rootField : Name) : Selection → Bool
  | .field f _ => f.name == rootField
  | _ => true

section

variable {d : Document} {rootField : Name} {ss ts : List Selection}

theorem mem_stations {around : List Directive} {y : Selection} {t : Station} (hy : y ∈ ts)
    (ht : t ∈ stationsIn rootField around y) : t ∈ stations rootField around ts := by
  induction ts with
  | nil => cases hy
  | cons z ts ih =>
    rcases List.mem_cons.1 hy with rfl | hy
    · exact List.mem_append_left _ ht
    · exact List.mem_append_right _ (ih hy)

/-- The expansion has something in the place of each selection. -/
theorem GraphQL.Expands.exists_mem {x : Selection} (he : Expands d ss ts) (hx : x ∈ ss) :
    ∃ y ∈ ts, Expands d [x] [y] := by
  induction he with
  | nil => cases hx
  | field _ ih =>
    rcases List.mem_cons.1 hx with rfl | hx
    · exact ⟨_, List.mem_cons_self, .field .nil⟩
    · exact (ih hx).imp fun _ h => h.imp_left (List.mem_cons_of_mem _)
  | inline hb _ _ ih =>
    rcases List.mem_cons.1 hx with rfl | hx
    · exact ⟨_, List.mem_cons_self, .inline hb .nil⟩
    · exact (ih hx).imp fun _ h => h.imp_left (List.mem_cons_of_mem _)
  | spread hf hb _ _ ih =>
    rcases List.mem_cons.1 hx with rfl | hx
    · exact ⟨_, List.mem_cons_self, .spread hf hb .nil⟩
    · exact (ih hx).imp fun _ h => h.imp_left (List.mem_cons_of_mem _)

/-- What is looked at has a station, where all directives on the way are asked before its own. -/
theorem exists_station {gs : List Directive} {x : Selection} (w : Passes d ss gs x)
    (ha : x.asks rootField = true) : ∀ {ts : List Selection} (around : List Directive),
      Expands d ss ts →
        ∃ t ∈ stations rootField around ts, t.guards = around ++ (gs ++ x.directives) := by
  induction w with
  | here hx =>
    intro ts around he
    obtain ⟨y, hy, he⟩ := he.exists_mem hx
    cases he with
    | @field f body =>
      have hn : f.name = rootField := beq_iff_eq.1 ha
      have ht : ⟨around ++ f.directives, some ⟨f, body⟩⟩ ∈
          stationsIn rootField around (.field f body) := by
        rw [stationsIn, if_pos hn]
        exact List.mem_singleton_self _
      exact ⟨_, mem_stations hy ht, rfl⟩
    | inline => exact ⟨_, mem_stations hy List.mem_cons_self, rfl⟩
    | spread => exact ⟨_, mem_stations hy List.mem_cons_self, rfl⟩
  | @inline _ _ _ ds _ _ _ hx _ ih =>
    intro ts around he
    obtain ⟨y, hy, he⟩ := he.exists_mem hx
    cases he with
    | inline hb =>
      obtain ⟨t, ht, hg⟩ := ih ha (around ++ ds) hb
      exact ⟨t, mem_stations hy (List.mem_cons_of_mem _ ht), by simpa using hg⟩
  | @spread _ _ ds _ _ _ _ hx hf _ ih =>
    intro ts around he
    obtain ⟨y, hy, he⟩ := he.exists_mem hx
    cases he with
    | spread hf' hb =>
      obtain rfl := Option.some.inj (hf.symm.trans hf')
      obtain ⟨t, ht, hg⟩ := ih ha (around ++ ds) hb
      exact ⟨t, mem_stations hy (List.mem_cons_of_mem _ ht), by simpa using hg⟩

end

/-! ## Answers -/

/-- A request that finds root fields has asked every condition that is to be asked, and each was
given by a boolean. -/
theorem Request.Finds.not_isMisgiven {r : Registry} {q : Request} {d : Document} {o : Operation}
    {ts : List Selection} {fs : List RootField} (h : q.Finds r d o ts fs)
    {gs pre post : List Directive} {x : Selection} {g : Directive}
    (hx : Passes d o.selections gs x) (ha : x.asks r.root.field = true)
    (hg : x.directives = pre ++ g :: post)
    (hn : ∀ p ∈ gs ++ pre, (q.bindings o).excludes p = false) :
    (q.bindings o).isMisgiven g = false := by
  obtain ⟨t, ht, hguards⟩ := exists_station hx ha [] h.expands
  obtain ⟨k, hk⟩ := h.told t ht
  rw [hguards, hg, List.nil_append, ← List.append_assoc] at hk
  obtain ⟨l, hl⟩ := Bindings.kept_of_included hn hk
  rw [Bool.eq_false_iff]
  exact fun hm => Bindings.kept_ne_of_isMisgiven hm l hl

/-- A condition that is asked and whose variable is given no boolean settles the request: there is
no record, there are errors, and there is no call. -/
theorem rejected_of_isMisgiven {reg : Registry} {source : DataSource} {q : Request} {d : Document}
    {o : Operation} (hd : Document.read reg.schema q.query = .ok d)
    (ho : d.choose q.operationName = .ok o) {gs pre post : List Directive} {x : Selection}
    {g : Directive} (hx : Passes d o.selections gs x) (ha : x.asks reg.root.field = true)
    (hg : x.directives = pre ++ g :: post)
    (hn : ∀ p ∈ gs ++ pre, (q.bindings o).excludes p = false)
    (hm : (q.bindings o).isMisgiven g = true) :
    (reg.execute source q).envelope.data = none ∧
      (reg.execute source q).envelope.errors ≠ [] ∧ (reg.execute source q).calls = [] := by
  have hfinds : ∀ {d' o' ts fs}, ¬ q.Finds reg d' o' ts fs := by
    intro d' o' ts fs hf
    obtain rfl : d' = d := Except.ok.inj (hf.read.symm.trans hd)
    obtain rfl : o' = o := Except.ok.inj (hf.chosen.symm.trans ho)
    exact absurd (hf.not_isMisgiven hx ha hg hn) (by simp [hm])
  have hs := Settled.execute_settled reg source q
  generalize reg.execute source q = e at hs
  cases hs with
  | refused _ he => exact ⟨rfl, he, rfl⟩
  | nothing h | answered h | failed h => exact absurd h hfinds
  | _ => exact ⟨rfl, List.cons_ne_nil _ _, rfl⟩

/-- A condition inside a fragment, beside one that keeps its place. -/
def askedInside : Request where
  query := "query($on: Boolean!) \x7b ... @include(if: true) " ++
    "\x7b getData(id: \"1\") @skip(if: false) @include(if: $on) \x7b id \x7d \x7d \x7d"
  variableValues := [("on", .string "yes")]

/-- Whether the operation starts with an inline fragment whose one root field has two directives, of
which only the second has a condition without a boolean. -/
def isAskedInside (b : Bindings) (o : Operation) : Bool :=
  match o.selections with
  | [.inline _ _ ds [.field f _]] =>
    match f.directives with
    | [p, g] => f.name == "getData" && (ds ++ [p]).all (!b.excludes ·) && b.isMisgiven g
    | _ => false
  | _ => false

theorem rejected_of_isMisgiven_askedInside : ∃ reg,
    Registry.ofDescriptors dataEntity getData = .ok reg ∧
      (reg.execute widget askedInside).envelope.data = none ∧
        (reg.execute widget askedInside).envelope.errors ≠ [] ∧
          (reg.execute widget askedInside).calls = [] := by
  obtain ⟨reg, hreg, hc⟩ := Registry.exists_compiled_builtin
  obtain ⟨d, o, hd, ho, htest⟩ := hc.exists_chosen askedInside
    (fun _ o => isAskedInside (askedInside.bindings o) o) (by decide +kernel)
  unfold isAskedInside at htest
  split at htest
  · rename_i i c ds f body hsel
    split at htest
    · rename_i p g hdir
      simp only [Bool.and_eq_true, List.all_eq_true, Bool.not_eq_true'] at htest
      obtain ⟨⟨hname, hkept⟩, hmis⟩ := htest
      have hx : Passes d o.selections (ds ++ []) (.field f body) := by
        rw [hsel]
        exact .inline List.mem_cons_self (.here List.mem_cons_self)
      have hroot : (Selection.field f body).asks reg.root.field = true := by
        rw [hc.root]
        exact hname
      have hg : (Selection.field f body).directives = [p] ++ g :: [] := hdir
      exact ⟨reg, hreg, rejected_of_isMisgiven hd ho hx hroot hg (by simpa using hkept) hmis⟩
    · cases htest
  · cases htest

/-! ## Conditions that are not asked -/

/-- There is a condition without a boolean among the root selections, and a call all the same. -/
def Request.Overlooks (reg : Registry) (source : DataSource) (q : Request) : Prop :=
  ∃ d o gs x g, Document.read reg.schema q.query = .ok d ∧ d.choose q.operationName = .ok o ∧
    Passes d o.selections gs x ∧ g ∈ x.directives ∧ (q.bindings o).isMisgiven g = true ∧
      (reg.execute source q).calls ≠ []

/-- The selections in inline fragments. -/
def inlined (ss : List Selection) : List Selection :=
  ss.flatMap fun
    | .inline _ _ _ body => body
    | _ => []

theorem exists_passes {d : Document} {ss : List Selection} {x : Selection}
    (h : x ∈ ss ++ inlined ss) : ∃ gs, Passes d ss gs x := by
  rcases List.mem_append.1 h with h | h
  · exact ⟨[], .here h⟩
  · obtain ⟨y, hy, hx⟩ := List.mem_flatMap.1 h
    cases y with
    | inline i c ds body => exact ⟨ds ++ [], .inline hy (.here hx)⟩
    | _ => cases hx

theorem overlooks_of_test {reg : Registry} (hc : reg.Compiled dataEntity getData) {q : Request}
    (ht : (Document.readBytes (Registry.plainSchema dataEntity getData) q.query).toOption.any
      (fun d => (d.choose q.operationName).toOption.any fun o =>
        (o.selections ++ inlined o.selections).any fun x =>
          x.directives.any (q.bindings o).isMisgiven) = true)
    (hcalls : (reg.execute widget q).calls ≠ []) : q.Overlooks reg widget := by
  obtain ⟨d, o, hd, ho, hx⟩ := hc.exists_chosen q (fun _ o => (o.selections ++
    inlined o.selections).any fun x => x.directives.any (q.bindings o).isMisgiven) ht
  obtain ⟨x, hx, hg⟩ := List.any_eq_true.1 hx
  obtain ⟨g, hg, hm⟩ := List.any_eq_true.1 hg
  obtain ⟨gs, w⟩ := exists_passes hx
  exact ⟨d, o, gs, x, g, hd, ho, w, hg, hm, hcalls⟩

/-- A condition on a selection that is no root field. -/
def besideRootField : Request where
  query := "query($on: Boolean!) \x7b __typename @skip(if: $on) " ++
    "getData(id: \"1\") \x7b id \x7d \x7d"
  variableValues := [("on", .string "yes")]

/-- A condition behind one that leaves the same root field out. -/
def behindExcluding : Request where
  query := "query($on: Boolean!) \x7b getData(id: \"1\") \x7b id \x7d " ++
    "getData(id: \"1\") @skip(if: true) @include(if: $on) \x7b id \x7d \x7d"
  variableValues := [("on", .string "yes")]

/-- A condition inside a fragment that is left out. -/
def insideExcluded : Request where
  query := "query($on: Boolean!) \x7b getData(id: \"1\") \x7b id \x7d " ++
    "... @skip(if: true) \x7b getData(id: \"1\") @include(if: $on) \x7b id \x7d \x7d \x7d"
  variableValues := [("on", .string "yes")]

/-- Conditions without a boolean are overlooked in each of the places where none is asked. -/
theorem overlooks_misgiven : ∃ reg, Registry.ofDescriptors dataEntity getData = .ok reg ∧
    besideRootField.Overlooks reg widget ∧ behindExcluding.Overlooks reg widget ∧
      insideExcluded.Overlooks reg widget := by
  obtain ⟨reg, hreg, hc⟩ := Registry.exists_compiled_builtin
  refine ⟨reg, hreg, overlooks_of_test hc (by decide +kernel) ?_,
    overlooks_of_test hc (by decide +kernel) ?_,
    overlooks_of_test hc (by decide +kernel) ?_⟩
  all_goals
    rw [execute_eq hc]
    decide +kernel

end RecordGateway
