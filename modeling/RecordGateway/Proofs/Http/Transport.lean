import RecordGateway.Client.Encode
import RecordGateway.Proofs.Json.RoundTrip

/-!
# Both transports carry the request

What the client writes into URL parameters and what it writes into a body is read back as the
request (`Request.ofParams_toParams`, `Request.ofBody_toBody`). The one difference is an operation
name without characters, which is none in parameters (`Request.transports_carry`).
-/

namespace RecordGateway

theorem Params.get?_append (ps qs : Params) (name : String) :
    Params.get? (ps ++ qs) name = (qs.get? name).or (ps.get? name) := by
  rw [Params.get?, List.reverse_append, List.lookup_append]
  rfl

theorem Params.get?_singleton (n v name : String) :
    Params.get? [(n, v)] name = if name = n then some v else none := by
  by_cases h : name = n
  · simp [Params.get?, h]
  · simp [Params.get?, List.lookup_cons, beq_false_of_ne h, h]

namespace Request

theorem operation_ne_variables : operationNameField ≠ variablesField := by decide

/-! ## Parameters -/

theorem toParams_eq (names : Config.Graphql) (q : Request) : q.toParams names =
    [(names.queryParam, q.query)] ++
      (if q.variableValues.isEmpty then []
      else [(variablesField, (Json.object q.variableValues).render)]) ++
      (match q.operationName with
      | some n => [(operationNameField, n)]
      | none => []) := rfl

theorem get?_toParams (names : Config.Graphql) (q : Request) (name : String) :
    (q.toParams names).get? name =
      ((if name = operationNameField then q.operationName else none).or
        (if name = variablesField ∧ ¬ q.variableValues.isEmpty then
          some (Json.object q.variableValues).render else none)).or
        (if name = names.queryParam then some q.query else none) := by
  rw [toParams_eq, Params.get?_append, Params.get?_append, Params.get?_singleton, Option.or_assoc]
  congr 1
  · cases q.operationName with
    | none => simp [Params.get?]
    | some n => simp [Params.get?_singleton]
  · congr 1
    cases q.variableValues with
    | nil => simp [Params.get?]
    | cons m ms => simp [Params.get?_singleton]

theorem render_object_ne_empty (o : Json.Object) : (Json.object o).render ≠ "" := by
  rw [Json.render, ne_eq, String.ofList_eq_empty_iff]
  exact List.cons_ne_nil _ _

/-- Parameters are read back as the request, with no operation name for an empty one. -/
theorem ofParams_toParams {names : Config.Graphql} (hv : names.queryParam ≠ variablesField)
    (ho : names.queryParam ≠ operationNameField) {q : Request}
    (h : (Json.object q.variableValues).isCanonical = true)
    (hl : (Json.object q.variableValues).levels ≤ Json.nestingLimit) :
    ofParams names (q.toParams names) =
      .ok { q with operationName := q.operationName.filter (· != "") } := by
  have hquery : (q.toParams names).get? names.queryParam = some q.query := by
    simp [get?_toParams, hv, ho]
  have hoperation : (q.toParams names).nonempty? operationNameField =
      q.operationName.filter (· != "") := by
    simp [Params.nonempty?, get?_toParams, operation_ne_variables, Ne.symm ho]
  have hvariables : (q.toParams names).nonempty? variablesField =
      if q.variableValues.isEmpty then none else some (Json.object q.variableValues).render := by
    rw [Params.nonempty?, get?_toParams]
    cases q.variableValues with
    | nil => simp [operation_ne_variables.symm, Ne.symm hv]
    | cons m ms => simp [operation_ne_variables.symm, render_object_ne_empty]
  rw [ofParams, hvariables, hoperation, hquery]
  cases hq : q.variableValues with
  | nil => rfl
  | cons m ms =>
    have hread := Json.parse_render h hl
    rw [hq] at hread
    simp only [List.isEmpty_cons, Bool.false_eq_true, ↓reduceIte, variablesOfText, hread,
      variablesOf]
    rfl

/-! ## Bodies -/

/-- The members that are written, with the last put in first. -/
theorem toBody_eq (names : Config.Graphql) (q : Request) : q.toBody names =
    .object (((Json.Object.insert names.bodyField (.string q.query) []).insert operationNameField
      (match q.operationName with
      | some n => .string n
      | none => .null)).insert variablesField (.object q.variableValues)) := rfl

theorem isCanonical_toBody {names : Config.Graphql} {q : Request}
    (h : (Json.object q.variableValues).isCanonical = true) :
    (q.toBody names).isCanonical = true := by
  rw [toBody_eq]
  refine Json.isCanonical_insert (Json.isCanonical_insert (Json.isCanonical_insert rfl _ rfl) _ ?_)
    _ h
  cases q.operationName <;> rfl

theorem levels_toBody_le {names : Config.Graphql} {q : Request} {n : Nat}
    (hl : (Json.object q.variableValues).levels ≤ n) : (q.toBody names).levels ≤ n + 1 := by
  rw [toBody_eq]
  refine Json.levels_insert_le (Json.levels_insert_le (Json.levels_insert_le ?_ _ ?_) _ ?_) _ hl
  · exact Nat.le_add_left 1 n
  · exact Nat.zero_le n
  · cases q.operationName <;> exact Nat.zero_le n

/-- A body is read back as the request. -/
theorem ofBody_toBody {names : Config.Graphql} (hv : names.bodyField ≠ variablesField)
    (ho : names.bodyField ≠ operationNameField) {q : Request}
    (h : (Json.object q.variableValues).isCanonical = true)
    (hl : (Json.object q.variableValues).levels < Json.nestingLimit) :
    ofBody names (q.toBody names).render.toUTF8.toList = .ok q := by
  have hread : Json.parse (q.toBody names).render = .ok (q.toBody names) :=
    Json.parse_render (isCanonical_toBody h) (levels_toBody_le (Nat.le_sub_one_of_lt hl))
  rw [Json.parse] at hread
  rw [ofBody, hread, toBody_eq]
  show ofMembers names _ = _
  simp only [ofMembers, Json.Object.get?_erase, Json.Object.get?_insert, hv, ho,
    Ne.symm hv, Ne.symm ho, operation_ne_variables, operation_ne_variables.symm, ↓reduceIte]
  cases q with
  | mk query operationName variableValues => cases operationName <;> rfl

/-! ## Both ways -/

/-- With the default names a request arrives the same over both transports, but for an empty
operation name, which parameters do not carry. The members of its variables are in order, its
numbers are integers of 64 bits, and the variables leave room for the level of the body. -/
theorem transports_carry {q : Request} (h : (Json.object q.variableValues).isCanonical = true)
    (hl : (Json.object q.variableValues).levels ≤ 126) :
    ofParams {} (q.toParams {}) =
        .ok { q with operationName := q.operationName.filter (· != "") } ∧
      ofBody {} (q.toBody {}).render.toUTF8.toList = .ok q :=
  ⟨ofParams_toParams (by decide) (by decide) h (Nat.le_succ_of_le hl),
    ofBody_toBody (by decide) (by decide) h (Nat.lt_succ_of_le hl)⟩

/-- A request with an empty operation name and variables that nest. -/
def nested : Request where
  query := "query($f: Filter, $max: Int) \x7b getData(id: \"1\") \x7b id \x7d \x7d"
  operationName := some ""
  variableValues :=
    [("f", .object [("", .null), ("ids", .array [.number (.int (-2)), .bool true]),
        ("name", .string "a \"quoted\" \\ name\n\u0001é😀")]),
      ("max", .number (.int 18446744073709551615))]

theorem transports_carry_nested :
    ofParams {} (nested.toParams {}) = .ok { nested with operationName := none } ∧
      ofBody {} (nested.toBody {}).render.toUTF8.toList = .ok nested :=
  transports_carry (q := nested) (by decide) (by decide)

end Request
end RecordGateway
