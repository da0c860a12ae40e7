import RecordGateway.Config.Problems
import RecordGateway.Proofs.Http.Transport

/-!
# What configured names leave free

A configuration may give the parameter or the member with the query text one of the fixed names,
that of the operation name or that of the variables. Such a name ties two parts of a request
together, and only requests that agree with it can be sent (`Request.carried_iff`). A configuration
may be sound and have such names (`Request.not_carried_of_isSound`).
-/

namespace RecordGateway.Request

/-- A request whose operation name is not empty, whose variables are in order, with integers of 64
bits, and leave room for the level of a body. -/
structure Portable (q : Request) : Prop where
  named : q.operationName ≠ some ""
  canonical : (Json.object q.variableValues).isCanonical = true
  levels : (Json.object q.variableValues).levels ≤ 126

/-! ## What is read -/

theorem bind_eq_ok {x : Except PayloadError α} {f : α → Except PayloadError β} {b : β} :
    (x >>= f) = .ok b ↔ ∃ a, x = .ok a ∧ f a = .ok b := by
  cases x <;> simp [bind, Except.bind]

/-- The variables in a parameter; an empty one gives none. -/
def variablesOfParam (text : Option String) : Except PayloadError Json.Object :=
  match text.filter (· != "") with
  | some t => variablesOfText t
  | none => .ok []

theorem ofParams_eq_ok_iff {names : Config.Graphql} {ps : Params} {q : Request} :
    ofParams names ps = .ok q ↔ q.query = (ps.get? names.queryParam).getD "" ∧
      q.operationName = ps.nonempty? operationNameField ∧
      variablesOfParam (ps.get? variablesField) = .ok q.variableValues := by
  have hread : ofParams names ps = (variablesOfParam (ps.get? variablesField) >>= fun o =>
      .ok ⟨(ps.get? names.queryParam).getD "", ps.nonempty? operationNameField, o⟩) := by
    rw [ofParams, variablesOfParam, Params.nonempty?]
    cases (ps.get? variablesField).filter (· != "") <;> rfl
  obtain ⟨query, operationName, variableValues⟩ := q
  rw [hread, bind_eq_ok]
  simp only [Except.ok.injEq, mk.injEq]
  grind

theorem ofMembers_eq_ok_iff {names : Config.Graphql} {o : Json.Object} {q : Request} :
    ofMembers names o = .ok q ↔
      (∃ t, textOf names.bodyField (o.get? names.bodyField) = .ok t ∧ q.query = t.getD "") ∧
      textOf operationNameField ((o.erase names.bodyField).get? operationNameField) =
        .ok q.operationName ∧
      variablesOf ((((o.erase names.bodyField).erase operationNameField).get?
        variablesField).getD .null) = .ok q.variableValues := by
  obtain ⟨query, operationName, variableValues⟩ := q
  rw [ofMembers]
  simp only [bind_eq_ok, pure, Except.pure, Except.ok.injEq, mk.injEq]
  grind

/-! ## Parameters -/

/-- The parts of a request that share a parameter under these names agree. -/
structure FitsParams (names : Config.Graphql) (q : Request) : Prop where
  operation : names.queryParam = operationNameField →
    q.operationName = (some q.query).filter (· != "")
  values : names.queryParam = variablesField →
    variablesOfParam (some q.query) = .ok q.variableValues

theorem FitsParams.of_ofParams {names : Config.Graphql} {ps : Params} {q : Request}
    (h : ofParams names ps = .ok q) : FitsParams names q := by
  obtain ⟨hquery, hoperation, hvariables⟩ := ofParams_eq_ok_iff.1 h
  constructor
  · intro hn
    rw [hoperation, hquery, hn, Params.nonempty?]
    cases ps.get? operationNameField <;> rfl
  · intro hn
    rw [← hvariables, hquery, hn]
    cases ps.get? variablesField <;> rfl

/-- Parameters for a request, where the query text wins over what shares its name. -/
def paramsUnder (names : Config.Graphql) (q : Request) : Params :=
  [(operationNameField, q.operationName.getD ""),
    (variablesField, (Json.object q.variableValues).render), (names.queryParam, q.query)]

theorem get?_paramsUnder (names : Config.Graphql) (q : Request) (name : String) :
    (paramsUnder names q).get? name =
      ((if name = names.queryParam then some q.query else none).or
        (if name = variablesField then some (Json.object q.variableValues).render else none)).or
        (if name = operationNameField then some (q.operationName.getD "") else none) := by
  show Params.get? ([(operationNameField, _)] ++ ([(variablesField, _)] ++ [(_, _)])) name = _
  simp only [Params.get?_append, Params.get?_singleton]

theorem ofParams_paramsUnder {names : Config.Graphql} {q : Request} (hq : q.Portable)
    (h : FitsParams names q) : ofParams names (paramsUnder names q) = .ok q := by
  have hread : variablesOfText (Json.object q.variableValues).render = .ok q.variableValues := by
    rw [variablesOfText, Json.parse_render hq.canonical (Nat.le_succ_of_le hq.levels)]
    rfl
  refine ofParams_eq_ok_iff.2 ⟨by simp [get?_paramsUnder], ?_, ?_⟩
  · rw [Params.nonempty?, get?_paramsUnder]
    by_cases hn : names.queryParam = operationNameField
    · simpa [hn] using h.operation hn
    · have := hq.named
      cases ho : q.operationName <;>
        simp_all [operation_ne_variables, Ne.symm hn, Option.filter]
  · rw [get?_paramsUnder]
    by_cases hn : names.queryParam = variablesField
    · simpa [hn] using h.values hn
    · simpa [Ne.symm hn, variablesOfParam, Option.filter, render_object_ne_empty] using hread

/-! ## Bodies -/

/-- The parts of a request for which a body under these names has no member are not there. -/
structure FitsBody (names : Config.Graphql) (q : Request) : Prop where
  operation : names.bodyField = operationNameField → q.operationName = none
  values : names.bodyField = variablesField → q.variableValues = []

theorem FitsBody.of_ofMembers {names : Config.Graphql} {o : Json.Object} {q : Request}
    (h : ofMembers names o = .ok q) : FitsBody names q := by
  obtain ⟨-, hoperation, hvariables⟩ := ofMembers_eq_ok_iff.1 h
  constructor
  · intro hn
    simpa [Json.Object.get?_erase, hn, textOf] using hoperation.symm
  · intro hn
    simpa [Json.Object.get?_erase, hn, variablesOf] using hvariables.symm

/-- A body for a request, where the query text wins over what shares its name. -/
def bodyUnder (names : Config.Graphql) (q : Request) : Json :=
  .object (((Json.Object.insert operationNameField
    (match q.operationName with
    | some n => .string n
    | none => .null) []).insert variablesField (.object q.variableValues)).insert
      names.bodyField (.string q.query))

theorem ofBody_bodyUnder {names : Config.Graphql} {q : Request} (hq : q.Portable)
    (h : FitsBody names q) :
    ofBody names (bodyUnder names q).render.toUTF8.toList = .ok q := by
  have hcanonical : (bodyUnder names q).isCanonical = true := by
    refine Json.isCanonical_insert (Json.isCanonical_insert (Json.isCanonical_insert rfl _ ?_) _
      hq.canonical) _ rfl
    cases q.operationName <;> rfl
  have hlevels : (bodyUnder names q).levels ≤ Json.nestingLimit := by
    refine Json.levels_insert_le (Json.levels_insert_le (Json.levels_insert_le ?_ _ ?_) _
      hq.levels) _ ?_
    · decide
    · cases q.operationName <;> exact Nat.zero_le _
    · exact Nat.zero_le _
  have hread := Json.parse_render hcanonical hlevels
  rw [Json.parse] at hread
  rw [ofBody, hread]
  refine ofMembers_eq_ok_iff.2 ⟨⟨some q.query, ?_, rfl⟩, ?_, ?_⟩
  · simp [Json.Object.get?_insert, textOf]
  · by_cases hn : names.bodyField = operationNameField
    · simp [Json.Object.get?_erase, hn, textOf, h.operation hn]
    · cases ho : q.operationName <;>
        simp [Json.Object.get?_erase, Json.Object.get?_insert, Ne.symm hn, operation_ne_variables,
          textOf]
  · by_cases hn : names.bodyField = variablesField
    · simp [Json.Object.get?_erase, hn, variablesOf, h.values hn]
    · simp [Json.Object.get?_erase, Json.Object.get?_insert, Ne.symm hn,
        operation_ne_variables.symm, variablesOf]

/-! ## Both -/

/-- A request that needs all of its three parts. -/
def threeParts : Request where
  query := "query A($id: String) \x7b getData(id: $id) \x7b id \x7d \x7d query B \x7b__typename\x7d"
  operationName := some "A"
  variableValues := [("id", .string "1")]

theorem portable_threeParts : threeParts.Portable := ⟨by decide, by decide, by decide⟩

/-- Names that are none of the fixed ones tie nothing together, and others do. -/
theorem fits_threeParts_iff {names : Config.Graphql} :
    (FitsParams names threeParts ↔
      names.queryParam ≠ operationNameField ∧ names.queryParam ≠ variablesField) ∧
    (FitsBody names threeParts ↔
      names.bodyField ≠ operationNameField ∧ names.bodyField ≠ variablesField) := by
  have hname : threeParts.operationName ≠ (some threeParts.query).filter (· != "") := by decide
  have hread : variablesOfParam (some threeParts.query) ≠ .ok threeParts.variableValues := by
    intro h
    have hfails : (variablesOfParam (some threeParts.query)).toBool = false := by decide +kernel
    rw [h] at hfails
    exact Bool.noConfusion hfails
  refine ⟨⟨fun h => ⟨fun hn => hname (h.operation hn), fun hn => hread (h.values hn)⟩,
    fun h => ⟨fun hn => absurd hn h.1, fun hn => absurd hn h.2⟩⟩,
    ⟨fun h => ⟨fun hn => ?_, fun hn => ?_⟩,
      fun h => ⟨fun hn => absurd hn h.1, fun hn => absurd hn h.2⟩⟩⟩
  · exact Option.some_ne_none _ (h.operation hn)
  · exact List.cons_ne_nil _ _ (h.values hn)

theorem exists_ofParams_iff {names : Config.Graphql} {q : Request} (hq : q.Portable) :
    (∃ ps, ofParams names ps = .ok q) ↔ FitsParams names q :=
  ⟨fun ⟨_, h⟩ => .of_ofParams h, fun h => ⟨_, ofParams_paramsUnder hq h⟩⟩

theorem exists_ofBody_iff {names : Config.Graphql} {q : Request} (hq : q.Portable) :
    (∃ body, ofBody names body = .ok q) ↔ FitsBody names q := by
  refine ⟨fun ⟨body, h⟩ => ?_, fun h => ⟨_, ofBody_bodyUnder hq h⟩⟩
  rw [ofBody] at h
  split at h
  · cases h
  · exact .of_ofMembers h
  · cases h

/-- There are parameters, and there is a body, that read as a request if and only if its parts agree
where the names tie them together. All requests can be sent if and only if the configured names are
none of the fixed ones. -/
theorem carried_iff (names : Config.Graphql) :
    (∀ q, Portable q → ((∃ ps, ofParams names ps = .ok q) ↔ FitsParams names q) ∧
      ((∃ body, ofBody names body = .ok q) ↔ FitsBody names q)) ∧
    ((∀ q, Portable q → ∃ ps, ofParams names ps = .ok q) ↔
      names.queryParam ≠ operationNameField ∧ names.queryParam ≠ variablesField) ∧
    ((∀ q, Portable q → ∃ body, ofBody names body = .ok q) ↔
      names.bodyField ≠ operationNameField ∧ names.bodyField ≠ variablesField) := by
  refine ⟨fun q hq => ⟨exists_ofParams_iff hq, exists_ofBody_iff hq⟩,
    ⟨fun h => ?_, fun h q hq => (exists_ofParams_iff hq).2 ?_⟩,
    ⟨fun h => ?_, fun h q hq => (exists_ofBody_iff hq).2 ?_⟩⟩
  · exact fits_threeParts_iff.1.1
      ((exists_ofParams_iff portable_threeParts).1 (h _ portable_threeParts))
  · exact ⟨fun hn => absurd hn h.1, fun hn => absurd hn h.2⟩
  · exact fits_threeParts_iff.2.1
      ((exists_ofBody_iff portable_threeParts).1 (h _ portable_threeParts))
  · exact ⟨fun hn => absurd hn h.1, fun hn => absurd hn h.2⟩

theorem carried_iff_ownNames : threeParts.Portable ∧
    (∃ ps, ofParams ⟨"/graphql", "q", "gql"⟩ ps = .ok threeParts) ∧
      ∃ body, ofBody ⟨"/graphql", "q", "gql"⟩ body = .ok threeParts := by
  obtain ⟨-, hparams, hbody⟩ := carried_iff ⟨"/graphql", "q", "gql"⟩
  exact ⟨portable_threeParts, hparams.2 (by decide) _ portable_threeParts,
    hbody.2 (by decide) _ portable_threeParts⟩

/-- A configuration that takes the query text from where the other parts are. -/
def crossed : Config where
  graphql := { queryParam := operationNameField, bodyField := variablesField }

/-- A sound configuration for which a request can be sent neither in parameters nor in a body. -/
theorem not_carried_of_isSound : crossed.isSound = true ∧ threeParts.Portable ∧
    (¬ ∃ ps, ofParams crossed.graphql ps = .ok threeParts) ∧
      ¬ ∃ body, ofBody crossed.graphql body = .ok threeParts := by
  refine ⟨by decide +kernel, portable_threeParts, ?_, ?_⟩
  · rw [exists_ofParams_iff portable_threeParts, fits_threeParts_iff.1]
    exact fun h => h.1 rfl
  · rw [exists_ofBody_iff portable_threeParts, fits_threeParts_iff.2]
    exact fun h => h.2 rfl

end RecordGateway.Request
