import RecordGateway.Execution
import RecordGateway.Proofs.Execution.Conditions

/-!
# What settles a request

`Settled r source q x`: the execution `x` is the one that the first of nine reasons gives for the
request `q`, each with the premises that the earlier ones do not apply. Every request is settled by
one of them (`execute_settled`), also in a session with a source that changes with its calls
(`session_settled`).

The reasons speak of the document and of the values that the request gives. Root fields are those of
the expansion of the operation, found without walking through fragments (`Expands`, `stations`,
`Bindings.roots`).
-/

namespace RecordGateway

open GraphQL

/-! ## Choosing -/

namespace GraphQL.Document

variable {s : Schema} {d : Document}

/-- The name, or its absence where there is one operation only, picks the operation. -/
def Picks (d : Document) : Option String → Operation → Prop
  | some n, o => o ∈ d.operations ∧ o.name.map (·.1) = some n
  | none, o => d.operations = [o]

/-- The name is unknown, or there is none and several operations. -/
def Unpicked (d : Document) : Option String → Prop
  | some n => ∀ o ∈ d.operations, o.name.map (·.1) ≠ some n
  | none => 2 ≤ d.operations.length

theorem Picks.mem {name : Option String} {o : Operation} (h : d.Picks name o) :
    o ∈ d.operations := by
  cases name with
  | none =>
    have h : d.operations = [o] := h
    rw [h]
    exact List.mem_singleton_self o
  | some n => exact h.1

theorem picks_of_choose {name : Option String} {o : Operation} (h : d.choose name = .ok o) :
    d.Picks name o := by
  unfold choose at h
  split at h
  · split at h
    · rename_i n _ _ hf
      cases h
      refine ⟨List.mem_append_right _ (List.mem_of_find?_eq_some hf), ?_⟩
      have hn := List.find?_some hf
      simpa [Operation.nameIs, Option.any_eq_true] using hn
    · cases h
  · split at h
    · cases h
      assumption
    · cases h

theorem unpicked_of_choose (ha : d.Accepted s) {name : Option String} {e : ChoiceError}
    (h : d.choose name = .error e) : d.Unpicked name := by
  unfold choose at h
  split at h
  · rename_i n
    split at h
    · cases h
    · rename_i hf
      intro o ho hn
      rcases List.mem_append.1 ho with ho | ho
      · rw [ha.anonymous o (Option.mem_toList.1 ho)] at hn
        cases hn
      · have := List.find?_eq_none.1 hf o ho
        simp only [Operation.nameIs, Bool.not_eq_true] at this
        cases ho : o.name <;> simp_all
  · split at h
    · cases h
    · rename_i hne
      show 2 ≤ d.operations.length
      match hd : d.operations with
      | [] => exact absurd hd ha.nonempty
      | [o] => exact absurd hd (hne o)
      | _ :: _ :: _ => simp

end GraphQL.Document

/-! ## Variables -/

namespace Bindings

variable {b : Bindings}

/-- A required variable is given as null, or not at all, and `e` names it. -/
inductive Unmet (b : Bindings) (v : VariableDefinition) : ExecutionError → Prop
  | null (hv : v.type.isNonNull) (hb : b.value? v.name = some .null) :
    Unmet b v (.nullVariable v.name v.type.render)
  | missing (hv : v.type.isNonNull) (hb : b.value? v.name = none) (hd : v.default = none) :
    Unmet b v (.missingVariable v.name v.type.render)

theorem Unmet.messages_eq {v : VariableDefinition} {e : ExecutionError} (h : b.Unmet v e) :
    e.messages = [e.message] := by
  cases h <;> rfl

theorem requiredError?_eq_some {v : VariableDefinition} {e : ExecutionError} :
    b.requiredError? v = some e ↔ b.Unmet v e := by
  constructor
  · intro h
    unfold requiredError? at h
    split at h
    · rename_i hv
      split at h
      · cases h
        exact .null hv ‹_›
      · cases h
        exact .missing hv ‹_› ‹_›
      · cases h
    · cases h
  · rintro (⟨hv, hb⟩ | ⟨hv, hb, hd⟩)
    · simp [requiredError?, hv, hb]
    · simp [requiredError?, hv, hb, hd]

theorem checkRequired_error {e : ExecutionError} (h : b.checkRequired = .error e) :
    ∃ before v after, b.definitions = before ++ v :: after ∧
      (∀ w ∈ before, ∀ e', ¬ b.Unmet w e') ∧ b.Unmet v e := by
  unfold checkRequired at h
  split at h
  · cases h
    rename_i hf
    obtain ⟨before, v, after, hd, hv, hb⟩ := List.findSome?_eq_some_iff.1 hf
    refine ⟨before, v, after, hd, fun w hw e' he => ?_, requiredError?_eq_some.1 hv⟩
    have := hb w hw
    rw [requiredError?_eq_some.2 he] at this
    cases this
  · cases h

theorem checkRequired_ok {u : Unit} (h : b.checkRequired = .ok u) :
    ∀ v ∈ b.definitions, ∀ e, ¬ b.Unmet v e := by
  unfold checkRequired at h
  split at h
  · cases h
  · rename_i hf
    intro v hv e he
    have := List.findSome?_eq_none_iff.1 hf v hv
    rw [requiredError?_eq_some.2 he] at this
    cases this

/-- The argument is a variable that the request gives a value which is no string, and not null
either, and `e` says so. -/
inductive NoText (b : Bindings) (as : List Argument) (name : Name) : ExecutionError → Prop
  | mk {a : Argument} {i : Nat} {n : Name} {v : Json} (ha : as.find? (·.name == name) = some a)
    (hv : a.value = .variable i n) (hb : b.value? n = some v) (hn : v ≠ .null)
    (hs : ∀ t, v ≠ .string t) : NoText b as name (.invalidVariable n v.render notString)

theorem NoText.messages_eq {as : List Argument} {name : Name} {e : ExecutionError}
    (h : b.NoText as name e) : e.messages = [e.message] := by
  cases h
  rfl

theorem text_error {v : Value} {e : ExecutionError} (h : b.text v = .error e) :
    ∃ i n j, v = .variable i n ∧ b.value? n = some j ∧ j ≠ .null ∧ (∀ t, j ≠ .string t) ∧
      e = .invalidVariable n j.render notString := by
  unfold text at h
  split at h
  · cases h
  · rename_i i n
    split at h
    · cases h
    · cases h
    · rename_i j hs hn hj
      cases h
      exact ⟨i, n, j, rfl, hj, hn, fun t ht => hs t ht, rfl⟩
    · split at h <;> cases h
  · cases h

theorem noText_of_argument {as : List Argument} {name : Name} {e : ExecutionError}
    (h : b.argument as name = .error e) : b.NoText as name e := by
  unfold argument at h
  split at h
  · rename_i a ha
    obtain ⟨i, n, j, hv, hb, hn, hs, rfl⟩ := text_error h
    exact .mk ha hv hb hn hs
  · cases h

theorem not_noText_of_argument {as : List Argument} {name : Name} {t : String}
    (h : b.argument as name = .ok t) (e : ExecutionError) : ¬ b.NoText as name e := by
  rintro ⟨ha, hv, hb, hn, hs⟩
  simp only [argument, ha, hv, text, hb] at h
  cases h

end Bindings

/-! ## Outcomes -/

/-- The values that a request gives, for the variables of an operation. -/
def Request.bindings (q : Request) (o : Operation) : Bindings :=
  ⟨o.variableDefinitions, q.variableValues⟩

/-- The operation `o` of the document `d` is to be run. -/
structure Request.Runs (r : Registry) (q : Request) (d : Document) (o : Operation) : Prop where
  read : Document.read r.schema q.query = .ok d
  chosen : d.choose q.operationName = .ok o
  picks : d.Picks q.operationName o

/-- The operation to be run is a query with all that it requires, and `ts` are its selections,
expanded. -/
structure Request.Walks (r : Registry) (q : Request) (d : Document) (o : Operation)
    (ts : List Selection) : Prop extends Runs r q d o where
  query : o.kind = .query
  met : ∀ v ∈ o.variableDefinitions, ∀ e, ¬ (q.bindings o).Unmet v e
  expands : Expands d o.selections ts

/-- Besides, the conditions on the walk can be told, and `fs` are the root fields that it finds. -/
structure Request.Finds (r : Registry) (q : Request) (d : Document) (o : Operation)
    (ts : List Selection) (fs : List RootField) : Prop extends Walks r q d o ts where
  told : ∀ t ∈ stations r.root.field [] ts, ∃ k, (q.bindings o).included t.guards = .ok k
  roots : fs = (q.bindings o).roots (stations r.root.field [] ts)

/-- The call for the root fields `fs`: its id is the text of the argument of the first, its mask the
names of the fields right under them. -/
structure Request.Calls (r : Registry) (q : Request) (o : Operation) (fs : List RootField)
    (call : Fetch) : Prop where
  id : ∀ f ∈ fs.head?, (q.bindings o).argument f.head.arguments r.root.argument = .ok call.id
  paths : call.paths = fs.flatMap fun f => Selection.fieldNames f.body

/-- What settles a request, and how. -/
inductive Settled (r : Registry) (source : DataSource) (q : Request) : Execution → Prop
  /-- The text is no document, or none that may be executed. -/
  | refused {e : Refusal} (h : Document.read r.schema q.query = .error e) (he : e.messages ≠ []) :
    Settled r source q ⟨⟨none, e.messages⟩, []⟩
  | unpicked {d : Document} {m : String} (h : Document.read r.schema q.query = .ok d)
    (hp : d.Unpicked q.operationName) : Settled r source q ⟨⟨none, [m]⟩, []⟩
  | unsupported {d : Document} {o : Operation} (h : q.Runs r d o) (hk : o.kind ≠ .query) :
    Settled r source q ⟨⟨none, [o.kind.title ++ " operations are not supported"]⟩, []⟩
  /-- The first required variable that is not given. -/
  | unmet {d : Document} {o : Operation} {before after : List VariableDefinition}
    {v : VariableDefinition} {e : ExecutionError} (h : q.Runs r d o) (hk : o.kind = .query)
    (hv : o.variableDefinitions = before ++ v :: after)
    (hb : ∀ w ∈ before, ∀ e', ¬ (q.bindings o).Unmet w e') (he : (q.bindings o).Unmet v e) :
    Settled r source q ⟨⟨none, [e.message]⟩, []⟩
  /-- The first condition on the walk that is asked and cannot be told. -/
  | undecided {d : Document} {o : Operation} {ts : List Selection} {before after : List Station}
    {t : Station} {pre post : List Directive} {g : Directive} {e : ExecutionError}
    (h : q.Walks r d o ts) (ht : stations r.root.field [] ts = before ++ t :: after)
    (hb : ∀ u ∈ before, ∃ k, (q.bindings o).included u.guards = .ok k)
    (hg : t.guards = pre ++ g :: post) (hp : ∀ x ∈ pre, (q.bindings o).kept x = .ok true)
    (he : (q.bindings o).Undecided g e) : Settled r source q ⟨⟨none, [e.message]⟩, []⟩
  | nothing {d : Document} {o : Operation} {ts : List Selection} (h : q.Finds r d o ts []) :
    Settled r source q ⟨⟨none, []⟩, []⟩
  | severalKeys {d : Document} {o : Operation} {ts : List Selection} {fs : List RootField}
    {f f' : RootField} (h : q.Finds r d o ts fs) (hf : f ∈ fs) (hf' : f' ∈ fs)
    (hk : f.key ≠ f'.key) :
    Settled r source q
      ⟨⟨none, ["only one " ++ r.root.field ++ " selection is supported per request"]⟩, []⟩
  | noText {d : Document} {o : Operation} {ts : List Selection} {f : RootField}
    {fs : List RootField} {e : ExecutionError} (h : q.Finds r d o ts (f :: fs))
    (hk : ∀ f' ∈ fs, f'.key = f.key)
    (he : (q.bindings o).NoText f.head.arguments r.root.argument e) :
    Settled r source q ⟨⟨none, [e.message]⟩, []⟩
  | answered {d : Document} {o : Operation} {ts : List Selection} {f : RootField}
    {fs : List RootField} {call : Fetch} {record : Record} (h : q.Finds r d o ts (f :: fs))
    (hk : ∀ f' ∈ fs, f'.key = f.key)
    (hn : ∀ e, ¬ (q.bindings o).NoText f.head.arguments r.root.argument e)
    (hc : q.Calls r o (f :: fs) call)
    (ha : source call = .ok record) : Settled r source q ⟨⟨some record, []⟩, [call]⟩
  | failed {d : Document} {o : Operation} {ts : List Selection} {f : RootField}
    {fs : List RootField} {call : Fetch} {e : DownstreamError} (h : q.Finds r d o ts (f :: fs))
    (hk : ∀ f' ∈ fs, f'.key = f.key)
    (hn : ∀ e, ¬ (q.bindings o).NoText f.head.arguments r.root.argument e)
    (hc : q.Calls r o (f :: fs) call)
    (ha : source call = .error e) : Settled r source q ⟨⟨none, [e.message]⟩, [call]⟩

namespace Settled

variable {r : Registry} {source : DataSource} {q : Request}

theorem calls_length {x : Execution} (h : Settled r source q x) : x.calls.length ≤ 1 := by
  cases h <;> simp

/-- A request that is refused is told why. -/
theorem messages_ne_nil {s : Schema} {text : String} {e : Refusal}
    (h : Document.read s text = .error e) : e.messages ≠ [] := by
  unfold Document.read at h
  split at h
  · cases h
    exact List.cons_ne_nil _ _
  · split at h
    · cases h
    · rename_i hne _
      cases h
      simpa [Refusal.messages] using hne

/-- An error with one message settles a request as a whole. -/
theorem rejected {e : ExecutionError} (he : e.messages = [e.message])
    (h : Settled r source q ⟨⟨none, [e.message]⟩, []⟩) :
    Settled r source q (carryOut source (.error e)) := by
  show Settled r source q ⟨⟨none, e.messages⟩, []⟩
  rwa [he]

/-- A request that finds root fields is settled by their keys, then by the id, then by the
source. -/
theorem of_finds {d : Document} {o : Operation} {ts : List Selection} {fs : List RootField}
    (h : q.Finds r d o ts fs) :
    Settled r source q (carryOut source (fetchOf? r.root (q.bindings o) fs)) := by
  cases fs with
  | nil => exact .nothing h
  | cons f fs =>
    simp only [fetchOf?]
    split
    · rename_i hany
      obtain ⟨f', hf', hk⟩ := List.any_eq_true.1 hany
      exact .severalKeys h (List.mem_cons_of_mem _ hf') List.mem_cons_self (by simpa using hk)
    · rename_i hany
      have hk : ∀ f' ∈ fs, f'.key = f.key := by simpa using hany
      cases hid : (q.bindings o).argument f.head.arguments r.root.argument with
      | error e =>
        have he := Bindings.noText_of_argument hid
        exact rejected he.messages_eq (.noText h hk he)
      | ok id =>
        have hn := Bindings.not_noText_of_argument hid
        let call : Fetch := ⟨id, (f :: fs).flatMap fun f => Selection.fieldNames f.body⟩
        have hc : q.Calls r o (f :: fs) call := ⟨by simpa using hid, rfl⟩
        simp only [carryOut]
        cases ha : source call with
        | error e => exact .failed h hk hn hc ha
        | ok record => exact .answered h hk hn hc ha

/-- A request whose operation is to be run is settled by its kind, its variables and its
conditions, or finds root fields. -/
theorem of_runs {d : Document} {o : Operation} (h : q.Runs r d o) :
    Settled r source q (carryOut source (plan r.root d o q.variableValues)) := by
  by_cases hk : o.kind = .query
  swap
  · rw [plan, if_pos hk]
    exact .unsupported h hk
  have hb : (⟨o.variableDefinitions, q.variableValues⟩ : Bindings) = q.bindings o := rfl
  simp only [plan, hk, ne_eq, not_true_eq_false, ↓reduceIte, hb]
  cases hreq : (q.bindings o).checkRequired with
  | error e =>
    obtain ⟨before, v, after, hv, hb, he⟩ := Bindings.checkRequired_error hreq
    exact rejected he.messages_eq (.unmet h hk hv hb he)
  | ok _ =>
    have hmet := Bindings.checkRequired_ok hreq
    obtain ⟨reached, hv⟩ := Operation.vetted_of_accepted (Document.accepted_of_read h.read)
      h.picks.mem
    obtain ⟨ts, hts, hcollect⟩ := exists_collect_eq_survey hv
    have hw : q.Walks r d o ts := ⟨h, hk, hmet, hts⟩
    simp only [hcollect]
    cases hs : (q.bindings o).survey (stations r.root.field [] ts) with
    | error e =>
      obtain ⟨before, t, after, ht, hb, he⟩ := Bindings.survey_error hs
      obtain ⟨pre, g, post, hg, hp, he⟩ := Bindings.included_error he
      exact rejected he.messages_eq (.undecided hw ht hb hg hp he)
    | ok fs =>
      obtain ⟨htold, hroots⟩ := Bindings.survey_ok hs
      exact of_finds ⟨hw, htold, hroots⟩

theorem execute_settled (r : Registry) (source : DataSource) (q : Request) :
    Settled r source q (r.execute source q) := by
  unfold Registry.execute
  cases hd : Document.read r.schema q.query with
  | error e => exact .refused hd (messages_ne_nil hd)
  | ok d =>
    show Settled r source q (carryOut source (planDocument r.root d q.operationName _))
    unfold planDocument
    cases ho : d.choose q.operationName with
    | error e => exact .unpicked hd (Document.unpicked_of_choose (Document.accepted_of_read hd) ho)
    | ok o => exact of_runs ⟨hd, ho, Document.picks_of_choose ho⟩

end Settled

/-- A request with a call finds root fields, all under one key, and the call is the one for them. -/
theorem finds_of_calls {r : Registry} {source : DataSource} {q : Request}
    (h : (r.execute source q).calls ≠ []) : ∃ d o ts f fs call, q.Finds r d o ts (f :: fs) ∧
      (∀ f' ∈ fs, f'.key = f.key) ∧ q.Calls r o (f :: fs) call ∧
        (r.execute source q).calls = [call] := by
  have hs := Settled.execute_settled r source q
  generalize r.execute source q = x at h hs
  cases hs with
  | answered hf hk _ hc _ => exact ⟨_, _, _, _, _, _, hf, hk, hc, rfl⟩
  | failed hf hk _ hc _ => exact ⟨_, _, _, _, _, _, hf, hk, hc, rfl⟩
  | _ => exact absurd rfl h

/-! ## Sessions -/

/-- A source with a state, which a call may change. -/
abbrev StatefulSource (σ : Type) := σ → Fetch → Answer × σ

/-- The state after some calls. -/
def StatefulSource.after {σ : Type} (source : StatefulSource σ) (st : σ) (calls : List Fetch) : σ :=
  calls.foldl (fun st f => (source st f).2) st

end RecordGateway
