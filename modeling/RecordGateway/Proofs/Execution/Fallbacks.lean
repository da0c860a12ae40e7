import RecordGateway.Proofs.Execution.Declared

/-!
# Where conditions and ids come from

To ask a condition or to read an id is defined for every value, also for those that no accepted
document has in such a place. What an accepted document does have there is listed by `ConditionFrom`
and `TextFrom`: a literal of the right kind, or a variable that is given or has a fitting default.

One case is left in which a condition has no value although all that is required is given: a
variable that may be null stands for a boolean because it has a default, and the default is null
(`NullDefault`). `plan_foreseen` says that there is no other, and
`plan_foreseen_nullCondition` that there is this one.
-/

namespace RecordGateway

open GraphQL

/-! ## Conditions -/

/-- The variable is not given, and is null by default. -/
structure NullDefault (b : Bindings) (n : Name) : Prop where
  absent : b.value? n = none
  null : ∃ v j, findVariable b.definitions n = some v ∧ v.type = .named "Boolean" false ∧
    v.default = some (.literal j .null)

/-- Where the value of a condition comes from. -/
inductive ConditionFrom (b : Bindings) : Value → Prop
  | literal {i : Nat} {x : Bool} : ConditionFrom b (.literal i (.boolean x))
  | given {i : Nat} {n : Name} {j : Json} (hb : b.value? n = some j) :
    ConditionFrom b (.variable i n)
  | default {i j : Nat} {n : Name} {x : Bool} (hb : b.value? n = none)
    (hd : b.default? n = some (.literal j (.boolean x))) : ConditionFrom b (.variable i n)
  | nullDefault {i : Nat} {n : Name} (h : NullDefault b n) : ConditionFrom b (.variable i n)

/-- Such a condition misses a variable only where it is null by default. -/
theorem ConditionFrom.missing {b : Bindings} {n : Name} {v : Value} {t : String}
    (h : ConditionFrom b v) (hv : b.boolean v = .error (.missingVariable n t)) :
    t = "Boolean!" ∧ NullDefault b n := by
  obtain ⟨i, m, rfl, ⟨j, -, -, he⟩ | ⟨hb, hd, he⟩⟩ := Bindings.boolean_error hv
  · cases he
  · cases he
    refine ⟨rfl, ?_⟩
    cases h with
    | given hg => simp [hb] at hg
    | default _ hx => exact absurd hx (hd _ _)
    | nullDefault h => exact h

/-- What is asked of a selection on the walk: the conditions on it, and its id if it is a root
field. -/
structure Foreseen (b : Bindings) (r : RootDescriptor) (x : Selection) : Prop where
  condition : ∀ g ∈ x.directives, (Bindings.skipsWhen? g.name).isSome → ∀ a,
    g.arguments.find? (·.name == "if") = some a → ConditionFrom b a.value
  id : ∀ f body, x = .field f body → f.name = r.field → ∀ a,
    f.arguments.find? (·.name == r.argument) = some a → TextFrom b a.value

/-! ## Variables for booleans -/

section
variable {e : EntityDescriptor} {r : RootDescriptor} {reg : Registry} {d : Document} {o : Operation}
  {reached : List Name} {values : Json.Object}

/-- The default of a variable for booleans is a boolean, or null if the variable may be null. -/
theorem booleanDefault_of_typeFaults {v : VariableDefinition} {nonNull : Bool} {dv : Value}
    (ht : v.type = .named "Boolean" nonNull) (hd : v.default = some dv)
    (h : v.typeFaults (Registry.plainSchema e r) = []) :
    (∃ j x, dv = .literal j (.boolean x)) ∨ ∃ j, dv = .literal j .null ∧ nonNull = false := by
  have hbool : (Registry.plainSchema e r).type? "Boolean" = some (.scalar true) := rfl
  have hm : dv.misfits (Registry.plainSchema e r) [] (.named "Boolean" nonNull) = [] := by
    simpa [VariableDefinition.typeFaults, ht, TypeRef.innermost, hbool, TypeShape.isInput, hd]
      using h
  obtain hx | hnull | ⟨i, n, v, -, hv⟩ := boolean_of_misfits hm
  · exact .inl hx
  · exact .inr hnull
  · cases hv

/-- A variable that may stand for a boolean excludes null, or has a default. -/
theorem default_isSome_of_usable {v : VariableDefinition} {argument : Name}
    (ht : v.type = .named "Boolean" false)
    (h : v.usable ⟨argument, .named "Boolean" true, false⟩ = true) : v.default.isSome := by
  simp only [VariableDefinition.usable, ht, TypeRef.isNonNull, Bool.not_false, Bool.and_self,
    ↓reduceIte, Bool.or_false, Bool.and_eq_true] at h
  exact h.1

/-- Where all that is required is given, a variable that may stand for a boolean is given or has a
default. -/
theorem conditionFrom_of_usable (ha : Document.Accepted (Registry.plainSchema e r) d)
    (ho : o ∈ d.operations)
    (hreq : Bindings.checkRequired ⟨o.variableDefinitions, values⟩ = .ok ()) {i : Nat} {n : Name}
    {v : VariableDefinition} {argument : Name}
    (hv : findVariable o.variableDefinitions n = some v)
    (husable : v.usable ⟨argument, .named "Boolean" true, false⟩ = true) :
    ConditionFrom ⟨o.variableDefinitions, values⟩ (.variable i n) := by
  obtain ⟨nonNull, ht⟩ := type_of_usable rfl husable
  have hn : v.name = n := by simpa using List.find?_some hv
  cases hb : Bindings.value? ⟨o.variableDefinitions, values⟩ n with
  | some j => exact .given hb
  | none =>
    have hd : v.default.isSome := by
      cases nonNull with
      | false => exact default_isSome_of_usable ht husable
      | true =>
        by_contra hnone
        exact Bindings.checkRequired_ok hreq v (List.mem_of_find?_eq_some hv) _
          (.missing (by simp [ht, TypeRef.isNonNull]) (hn ▸ hb) (by simpa using hnone))
    obtain ⟨dv, hd⟩ := Option.isSome_iff_exists.1 hd
    obtain ⟨j, x, rfl⟩ | ⟨j, rfl, rfl⟩ :=
      booleanDefault_of_typeFaults ht hd (typeFaults_of_accepted ha ho hv)
    · exact .default hb ((Bindings.default?_of_findVariable hv).trans hd)
    · exact .nullDefault ⟨hb, v, j, hv, ht, hd⟩

/-! ## Plans -/

/-- What one comes to from an accepted query has its conditions and its id from where they
should. -/
theorem foreseen_of_walk (hc : reg.Compiled e r) (hk : o.kind = .query)
    (ha : Document.Accepted (Registry.plainSchema e r) d) (ho : o ∈ d.operations)
    (hreq : Bindings.checkRequired ⟨o.variableDefinitions, values⟩ = .ok ())
    (hv : o.Vetted (Registry.plainSchema e r) d reached) {p : Name} {x : Selection}
    (w : Walk d (o.root (Registry.plainSchema e r)) o.selections p x) :
    Foreseen ⟨o.variableDefinitions, values⟩ r x where
  condition g hg hskips a hfind := by
    obtain ⟨location, hmisfits⟩ := misfits_of_sound (hv.walk_top w)
    obtain ⟨i, y, hval⟩ | ⟨i, n, v, hval, hvar, husable⟩ :=
      condition_shape hmisfits hg hskips hfind
    · exact hval ▸ .literal
    · exact hval ▸ conditionFrom_of_usable ha ho hreq hvar husable
  id f body hx hf a hfind := by
    subst hx
    exact textFrom_of_walk hc hk ha ho hv w hf hfind

/-- If all that is required is given, a plan misses a variable only at a condition that it comes
to. -/
theorem exists_condition_of_plan {s : Schema} (hv : o.Vetted s d reached)
    (hreq : Bindings.checkRequired ⟨o.variableDefinitions, values⟩ = .ok ()) {n : Name} {t : String}
    (h : plan r d o values = .error (.missingVariable n t)) :
    ∃ p x, Walk d (o.root s) o.selections p x ∧ ∃ g ∈ x.directives,
      Bindings.Undecided ⟨o.variableDefinitions, values⟩ g (.missingVariable n t) := by
  obtain ⟨ts, hts, hcollect⟩ := exists_collect_eq_survey hv
  simp only [plan, hreq, hcollect] at h
  split at h
  · cases h
  cases hs : Bindings.survey ⟨o.variableDefinitions, values⟩ (stations r.field [] ts) with
  | error err =>
    rw [hs] at h
    cases h
    obtain ⟨before, st, after, hst, -, he⟩ := Bindings.survey_error hs
    obtain ⟨pre, g, post, hg, -, hund⟩ := Bindings.included_error he
    have hwithin := within_of_mem_stations hts (o.root s)
      (hst ▸ List.mem_append_right _ List.mem_cons_self)
    rcases hwithin.guards g (hg ▸ List.mem_append_right _ List.mem_cons_self) with hg | hx
    · cases hg
    · obtain ⟨p, x, w, hx⟩ := hx
      exact ⟨p, x, w, g, hx, hund⟩
  | ok fs =>
    rw [hs] at h
    cases fs with
    | nil => cases h
    | cons f fs =>
      simp only [fetchOf?] at h
      split at h
      · cases h
      · split at h
        · rename_i hid
          cases h
          cases Bindings.noText_of_argument hid
        · cases h

end

/-- Where all that is required is given, the walk through an accepted query asks only for conditions
and ids that are foreseen, and the plan misses a variable only where it is null by default. -/
theorem plan_foreseen {e : EntityDescriptor} {r : RootDescriptor} {reg : Registry}
    (hp : PlainNames e r) (hreg : Registry.ofDescriptors e r = .ok reg) {text : String}
    {d : Document} (hd : Document.read reg.schema text = .ok d) {o : Operation}
    (ho : o ∈ d.operations) (hk : o.kind = .query) {values : Json.Object}
    (hreq : Bindings.checkRequired ⟨o.variableDefinitions, values⟩ = .ok ()) :
    (∀ p x, Walk d (o.root reg.schema) o.selections p x →
      Foreseen ⟨o.variableDefinitions, values⟩ r x) ∧
    ∀ n t, plan r d o values = .error (.missingVariable n t) →
      t = "Boolean!" ∧ NullDefault ⟨o.variableDefinitions, values⟩ n := by
  have hc := Registry.compiled_of_ofDescriptors hp hreg
  have ha := hc.schema ▸ Document.accepted_of_read hd
  obtain ⟨reached, hv⟩ := Operation.vetted_of_accepted ha ho
  rw [hc.schema]
  have hforeseen := fun p x w => foreseen_of_walk (p := p) (x := x) hc hk ha ho hreq hv w
  refine ⟨hforeseen, fun n t h => ?_⟩
  obtain ⟨p, x, w, g, hg, hund⟩ := exists_condition_of_plan hv hreq h
  cases hund with
  | @absent a i n hname hfind hval hb hdefault =>
    have hskips : (Bindings.skipsWhen? g.name).isSome := by
      rcases hname with hname | hname <;> simp [hname, Bindings.skipsWhen?]
    have hcondition := (hforeseen p x w).condition g hg hskips a hfind
    rw [hval] at hcondition
    exact hcondition.missing (by simp only [Bindings.boolean, hb])

/-- A condition that is null by default. -/
def nullCondition : Request where
  query := "query($on: Boolean = null) \x7b getData(id: \"1\") @include(if: $on) \x7b id \x7d \x7d"

/-- Whether a plan fails, and with the error. -/
def failsWith (err : ExecutionError) : Except ExecutionError (Option Fetch) → Bool
  | .error e => e == err
  | .ok _ => false

theorem eq_of_failsWith {err : ExecutionError} {x : Except ExecutionError (Option Fetch)}
    (h : failsWith err x = true) : x = .error err := by
  cases x with
  | error e => rw [eq_of_beq (h : (e == err) = true)]
  | ok _ => cases h

theorem exists_nullCondition : ∃ reg d o, Registry.ofDescriptors dataEntity getData = .ok reg ∧
    Document.read reg.schema nullCondition.query = .ok d ∧ o ∈ d.operations ∧ o.kind = .query ∧
      Bindings.checkRequired ⟨o.variableDefinitions, []⟩ = .ok () ∧
      plan getData d o [] = .error (.missingVariable "on" "Boolean!") := by
  obtain ⟨reg, hreg, hc⟩ := Registry.exists_compiled_builtin
  obtain ⟨d, o, hd, ho, htest⟩ := hc.exists_chosen nullCondition
    (fun d o => decide (o.kind = .query) &&
      (Bindings.checkRequired ⟨o.variableDefinitions, []⟩).toOption.isSome &&
      failsWith (.missingVariable "on" "Boolean!") (plan getData d o [])) (by decide +kernel)
  simp only [Bool.and_eq_true, decide_eq_true_eq] at htest
  obtain ⟨⟨hk, hreq⟩, hplan⟩ := htest
  refine ⟨reg, d, o, hreg, hd, (Document.picks_of_choose ho).mem, hk, ?_, eq_of_failsWith hplan⟩
  cases hcheck : Bindings.checkRequired ⟨o.variableDefinitions, []⟩ with
  | error e => simp [hcheck, Except.toOption] at hreq
  | ok _ => rfl

theorem plan_foreseen_nullCondition : ∃ reg d o,
    Registry.ofDescriptors dataEntity getData = .ok reg ∧
      Document.read reg.schema nullCondition.query = .ok d ∧ o ∈ d.operations ∧ o.kind = .query ∧
      Bindings.checkRequired ⟨o.variableDefinitions, []⟩ = .ok () ∧
      plan getData d o [] = .error (.missingVariable "on" "Boolean!") ∧
      NullDefault ⟨o.variableDefinitions, []⟩ "on" := by
  obtain ⟨reg, d, o, hreg, hd, ho, hk, hreq, hplan⟩ := exists_nullCondition
  have h := plan_foreseen Registry.plainNames_builtin hreg hd ho hk hreq
  exact ⟨reg, d, o, hreg, hd, ho, hk, hreq, hplan, (h.2 _ _ hplan).2⟩

/-- It is not so that a plan misses no variable if all that is required is given. -/
theorem not_plan_ne_missing : ¬ ∀ (e : EntityDescriptor) (r : RootDescriptor) (reg : Registry),
    PlainNames e r → Registry.ofDescriptors e r = .ok reg → ∀ (text : String) (d : Document),
      Document.read reg.schema text = .ok d → ∀ o ∈ d.operations, o.kind = .query →
        ∀ values, Bindings.checkRequired ⟨o.variableDefinitions, values⟩ = .ok () →
          ∀ n t, plan r d o values ≠ .error (.missingVariable n t) := by
  intro h
  obtain ⟨reg, d, o, hreg, hd, ho, hk, hreq, hplan⟩ := exists_nullCondition
  exact h dataEntity getData reg Registry.plainNames_builtin hreg _ d hd o ho hk [] hreq _ _ hplan

end RecordGateway
