import RecordGateway.Http.Payload
import RecordGateway.Proofs.Json.RoundTrip

/-!
# What is read of a body

A body may be any text of an object with Unicode strings and numbers in range (`ObjectText`), and
name a member more than once. The parts of a request are read one after the other, and a member that
one part has read is gone for the parts after it (`found`). The request, or the error, depends on
nothing else (`ofBody_eq`), so other members, the order of members and the spelling of the text make
no difference (`reads_three_members`). Only a text that is no such text of an object is malformed,
also where the parts of the request are in order (`ofBody_farText`).
-/

namespace RecordGateway.Request

open JsonSyntax
open Utf8 (encode)

-- What holds of all characters in a list is decided along the list, not over all there are.
attribute [local instance (high)] List.decidableBAll

/-! ## Members in the order of a text -/

/-- Some bytes are the text of an object with these members, in the order of the text. -/
def ObjectText (body : List UInt8) (ms : List (String × Json)) : Prop :=
  ∃ cs ts, body = encode cs ∧ ElementWritten cs (.object ts) ∧
    Json.MembersMean (Json.nestingLimit - 1) ts ms

def lastValue? (name : String) (ms : List (String × Json)) : Option Json := ms.reverse.lookup name

/-- The members that are left when the ones of a name are taken. -/
def without (name : String) (ms : List (String × Json)) : List (String × Json) :=
  ms.filter (·.1 != name)

theorem lastValue?_cons (n : String) (v : Json) (ms : List (String × Json)) (name : String) :
    lastValue? name ((n, v) :: ms) =
      (lastValue? name ms).or (if name = n then some v else none) := by
  rw [lastValue?, List.reverse_cons, List.lookup_append]
  by_cases h : name = n
  · simp [lastValue?, h]
  · simp [lastValue?, List.lookup_cons, beq_false_of_ne h, h]

theorem lastValue?_without (ms : List (String × Json)) (name other : String) :
    lastValue? other (without name ms) = if other = name then none else lastValue? other ms := by
  induction ms with
  | nil => simp [without, lastValue?]
  | cons m ms ih =>
    obtain ⟨n, v⟩ := m
    rw [without] at ih ⊢
    by_cases h : n = name
    · rw [List.filter_cons_of_neg (by simp [h]), ih, lastValue?_cons]
      split <;> simp_all
    · rw [List.filter_cons_of_pos (by simp [h]), lastValue?_cons, ih, lastValue?_cons]
      split <;> simp_all [Ne.symm]

theorem get?_foldl_insert (ms : List (String × Json)) (o : Json.Object) (name : String) :
    Json.Object.get? (ms.foldl (fun o (n, v) => o.insert n v) o) name =
      (lastValue? name ms).or (o.get? name) := by
  induction ms generalizing o with
  | nil => rfl
  | cons m ms ih =>
    obtain ⟨n, v⟩ := m
    rw [List.foldl_cons, ih, Json.Object.get?_insert, lastValue?_cons, Option.or_assoc]
    split <;> rfl

/-- An object has the last of the values that a name is given. -/
theorem get?_ofList (ms : List (String × Json)) (name : String) :
    (Json.Object.ofList ms).get? name = lastValue? name ms := by
  rw [Json.Object.ofList, get?_foldl_insert, Json.Object.get?_nil, Option.or_none]

/-! ## What the parts of a request find -/

/-- The values that are found for the parts of a request. -/
structure Found where
  query : Option Json
  operationName : Option Json
  variableValues : Option Json

/-- The parts are read one after the other, and each takes its members away. -/
def found (names : Config.Graphql) (ms : List (String × Json)) : Found :=
  let afterQuery := without names.bodyField ms
  let afterName := without operationNameField afterQuery
  { query := lastValue? names.bodyField ms
    operationName := lastValue? operationNameField afterQuery
    variableValues := lastValue? variablesField afterName }

/-- Whether a value may stand for a text. -/
def isText : Option Json → Bool
  | none | some .null | some (.string _) => true
  | _ => false

/-- Whether a value may stand for the variables. -/
def isVariables : Option Json → Bool
  | none | some .null | some (.object _) => true
  | _ => false

def string? : Option Json → Option String
  | some (.string s) => some s
  | _ => none

def objectOrEmpty : Option Json → Json.Object
  | some (.object o) => o
  | _ => []

namespace Found

/-- The name of the first part for which something else is found. -/
def offender? (names : Config.Graphql) (f : Found) : Option String :=
  if ¬ isText f.query then some names.bodyField
  else if ¬ isText f.operationName then some operationNameField
  else if ¬ isVariables f.variableValues then some variablesField
  else none

def request (f : Found) : Request where
  query := (string? f.query).getD ""
  operationName := string? f.operationName
  variableValues := objectOrEmpty f.variableValues

/-- The outcome of reading. -/
def outcome (names : Config.Graphql) (f : Found) : Except PayloadError Request :=
  match f.offender? names with
  | some field => .error (.wrongType field)
  | none => .ok f.request

theorem offender?_eq_none_iff {names : Config.Graphql} {f : Found} :
    f.offender? names = none ↔ isText f.query = true ∧ isText f.operationName = true ∧
      isVariables f.variableValues = true := by
  unfold offender?
  split_ifs <;> simp_all

theorem exists_outcome_ok_iff {names : Config.Graphql} {f : Found} :
    (∃ q, f.outcome names = .ok q) ↔ f.offender? names = none := by
  unfold outcome
  split <;> simp [*]

theorem outcome_eq_error_iff {names : Config.Graphql} {f : Found} {e : PayloadError} :
    f.outcome names = .error e ↔
      ∃ field, f.offender? names = some field ∧ e = .wrongType field := by
  unfold outcome
  split <;> simp [*, eq_comm]

end Found

theorem textOf_eq (field : String) (v : Option Json) :
    textOf field v = if isText v then .ok (string? v) else .error (.wrongType field) := by
  rcases v with - | - | - | - | - | - | - <;> rfl

theorem variablesOf_eq (v : Option Json) : variablesOf (v.getD .null) =
    if isVariables v then .ok (objectOrEmpty v) else .error (.wrongType variablesField) := by
  rcases v with - | - | - | - | - | - | - <;> rfl

theorem ofMembers_ofList (names : Config.Graphql) (ms : List (String × Json)) :
    ofMembers names (Json.Object.ofList ms) = (found names ms).outcome names := by
  have hquery : (Json.Object.ofList ms).get? names.bodyField = (found names ms).query :=
    get?_ofList ms _
  have hoperation : ((Json.Object.ofList ms).erase names.bodyField).get? operationNameField =
      (found names ms).operationName := by
    simp only [found, Json.Object.get?_erase, get?_ofList, lastValue?_without]
  have hvariables : (((Json.Object.ofList ms).erase names.bodyField).erase
      operationNameField).get? variablesField = (found names ms).variableValues := by
    simp only [found, Json.Object.get?_erase, get?_ofList, lastValue?_without]
  simp only [ofMembers, hquery, hoperation, hvariables, textOf_eq, variablesOf_eq]
  by_cases hq : isText (found names ms).query = true
  swap
  · simp [Found.outcome, Found.offender?, hq, bind, Except.bind]
  by_cases ho : isText (found names ms).operationName = true
  swap
  · simp [Found.outcome, Found.offender?, hq, ho, bind, Except.bind]
  by_cases hv : isVariables (found names ms).variableValues = true
  swap
  · simp [Found.outcome, Found.offender?, hq, ho, hv, bind, Except.bind]
  simp [Found.outcome, Found.offender?, Found.request, hq, ho, hv, bind, Except.bind, pure,
    Except.pure]

/-- The request in the text of an object is the outcome of what its parts find. -/
theorem ofBody_eq (names : Config.Graphql) {body : List UInt8} {ms : List (String × Json)}
    (h : ObjectText body ms) : ofBody names body = (found names ms).outcome names := by
  obtain ⟨cs, ts, rfl, hcs, hms⟩ := h
  rw [ofBody, (Json.parseBytes_encode_eq_ok_iff hcs).2 (.object hms)]
  exact ofMembers_ofList names ms

theorem ofBody_eq_malformed_iff (names : Config.Graphql) {cs : List Char}
    {ts : List (List StringPart × JsonSyntax)} (hcs : ElementWritten cs (.object ts)) :
    ofBody names (encode cs) = .error .malformed ↔ ¬ ∃ ms, ObjectText (encode cs) ms := by
  constructor
  · rintro h ⟨ms, hms⟩
    rw [ofBody_eq names hms, Found.outcome_eq_error_iff] at h
    obtain ⟨field, -, hfield⟩ := h
    cases hfield
  · intro hnone
    cases hread : Json.parseBytes (encode cs) with
    | error e => rw [ofBody, hread]
    | ok j =>
      refine absurd ?_ hnone
      have hmeans : Json.Means (126 + 1) (.object ts) j :=
        (Json.parseBytes_encode_eq_ok_iff hcs).1 hread
      cases hmeans with
      | object hms => exact ⟨_, cs, ts, rfl, hcs, hms⟩

/-- What is found depends on the last values of three names. -/
theorem found_congr {names : Config.Graphql} {ms ms' : List (String × Json)}
    (h : ∀ n ∈ [names.bodyField, operationNameField, variablesField],
      lastValue? n ms = lastValue? n ms') : found names ms = found names ms' := by
  simp only [found, lastValue?_without, h names.bodyField (by simp), h operationNameField (by simp),
    h variablesField (by simp)]

/-- Texts of objects in which three names have the same last values, or none, read as the same
request or give the same error. There is a request if and only if each of its parts, read one after
the other, finds a value of its type, a null or nothing; otherwise the error names the first part
that does not. Texts that have the form of an object, but a number out of range, half of a surrogate
pair or too many levels, are malformed. -/
theorem reads_three_members (names : Config.Graphql) :
    (∀ body body' ms ms', ObjectText body ms → ObjectText body' ms' →
      (∀ n ∈ [names.bodyField, operationNameField, variablesField],
        lastValue? n ms = lastValue? n ms') → ofBody names body = ofBody names body') ∧
    (∀ body ms, ObjectText body ms →
      ((∃ q, ofBody names body = .ok q) ↔ isText (found names ms).query = true ∧
        isText (found names ms).operationName = true ∧
        isVariables (found names ms).variableValues = true) ∧
      ∀ e, ofBody names body = .error e ↔
        ∃ field, (found names ms).offender? names = some field ∧ e = .wrongType field) ∧
    ∀ cs ts, ElementWritten cs (.object ts) →
      (ofBody names (encode cs) = .error .malformed ↔ ¬ ∃ ms, ObjectText (encode cs) ms) := by
  refine ⟨fun body body' ms ms' h h' hsame => ?_, fun body ms h => ⟨?_, fun e => ?_⟩,
    fun cs ts hcs => ofBody_eq_malformed_iff names hcs⟩
  · rw [ofBody_eq names h, ofBody_eq names h', found_congr hsame]
  · rw [ofBody_eq names h, Found.exists_outcome_ok_iff, Found.offender?_eq_none_iff]
  · rw [ofBody_eq names h, Found.outcome_eq_error_iff]

/-! ### A text in two spellings -/

/-- A member that is both the query text and, for its name, the variables. -/
def plainText : String := "\x7b\"variables\":\"b\"\x7d"

def plainMembers : List (String × Json) := [("variables", .string "b")]

/-- The same text with other members, an escape, spaces, and an earlier value. -/
def otherText : String := " \x7b\"\\u0076ariables\":1, \"x\":[],\n\"variables\":\"b\"\x7d"

def otherMembers : List (String × Json) :=
  [("variables", .number (.int 1)), ("x", .array []), ("variables", .string "b")]

theorem objectText_plainText : ObjectText plainText.toUTF8.toList plainMembers := by
  have hmember := MembersWritten.last (nameWritten_quote "variables") (written_quote "b").element
  refine ⟨_, _, ?_, (Written.object hmember).element,
    .cons (Json.spells_parts _) (.string (Json.spells_parts _)) .nil⟩
  rw [Utf8.toList_toUTF8]
  rfl

theorem objectText_otherText : ObjectText otherText.toUTF8.toList otherMembers := by
  have hdigits : Digits ['1'] := ⟨by decide, by decide⟩
  have hone : Written ['1'] (.number ⟨false, [1], none, none⟩) :=
    .number (.intro hdigits (by decide) .absent .absent)
  have hcode : hexNumber? "0076".toList = some 'v'.toNat := by decide
  have hescaped : NameWritten "\"\\u0076ariables\"".toList (.unit 'v'.toNat :: parts "ariables") :=
    .intro spaces_nil (.unit rfl hcode (stringWritten_escaped "ariables".toList)) spaces_nil
  have hx : NameWritten " \"x\"".toList _ := .intro (show Spaces [' '] by decide)
    (stringWritten_escaped "x".toList) spaces_nil
  have hlast : NameWritten "\n\"variables\"".toList _ := .intro (show Spaces ['\n'] by decide)
    (stringWritten_escaped "variables".toList) spaces_nil
  have hmembers := MembersWritten.more hescaped hone.element
    (.more hx (Written.emptyArray spaces_nil).element
      (.last hlast (written_quote "b").element))
  refine ⟨_, _, ?_, .intro (show Spaces [' '] by decide) (.object hmembers) spaces_nil,
    .cons (.unit 'v' (Json.spells_parts "ariables")) (.number (by decide +kernel))
      (.cons (Json.spells_parts _) (.array .nil)
        (.cons (Json.spells_parts _) (.string (Json.spells_parts _)) .nil))⟩
  rw [Utf8.toList_toUTF8]
  rfl

theorem reads_three_members_respelled :
    ObjectText plainText.toUTF8.toList plainMembers ∧
      ObjectText otherText.toUTF8.toList otherMembers ∧
      (∀ n ∈ [variablesField, operationNameField, variablesField],
        lastValue? n plainMembers = lastValue? n otherMembers) ∧
      ofBody { bodyField := variablesField } plainText.toUTF8.toList =
        ofBody { bodyField := variablesField } otherText.toUTF8.toList ∧
      (∃ q, ofBody { bodyField := variablesField } otherText.toUTF8.toList = .ok q) ∧
      ofBody { bodyField := "x" } otherText.toUTF8.toList = .error (.wrongType "x") := by
  have hsame : ∀ n ∈ [variablesField, operationNameField, variablesField],
      lastValue? n plainMembers = lastValue? n otherMembers := by
    simp only [List.forall_mem_cons]
    exact ⟨rfl, rfl, rfl, List.forall_mem_nil _⟩
  obtain ⟨hequal, hreads, -⟩ := reads_three_members { bodyField := variablesField }
  refine ⟨objectText_plainText, objectText_otherText, hsame,
    hequal _ _ _ _ objectText_plainText objectText_otherText hsame,
    (hreads _ _ objectText_otherText).1.2 (by decide), ?_⟩
  obtain ⟨-, herror⟩ := (reads_three_members { bodyField := "x" }).2.1 _ _ objectText_otherText
  exact (herror _).2 ⟨"x", by decide, rfl⟩

/-! ## Numbers out of range -/

/-- The text of an object with a query text. -/
def nearText : String := "\x7b\"query\":\"\x7b a \x7d\"\x7d"

/-- The same with one member more, a number that is in the range of no double. -/
def farText : String := "\x7b\"query\":\"\x7b a \x7d\",\"x\":1e999\x7d"

def queryMember : List StringPart × JsonSyntax := (parts "query", .string (parts "\x7b a \x7d"))

def farNumber : NumberText := ⟨false, [1], none, some (false, [9, 9, 9])⟩

theorem written_nearText : ElementWritten nearText.toList (.object [queryMember]) :=
  (Written.object
    (.last (nameWritten_quote "query") (written_quote "\x7b a \x7d").element)).element

theorem written_farText :
    ElementWritten farText.toList (.object [queryMember, (parts "x", .number farNumber)]) := by
  have hone : Digits ['1'] := ⟨by decide, by decide⟩
  have hnines : Digits ['9', '9', '9'] := ⟨by decide, by decide⟩
  have hnumber : Written "1e999".toList (.number farNumber) :=
    .number (.intro hone (by decide) .absent (.digits (.inl rfl) .absent hnines))
  exact (Written.object (.more (nameWritten_quote "query") (written_quote "\x7b a \x7d").element
    (.last (nameWritten_quote "x") hnumber.element))).element

/-- A number out of range makes a difference in a member that no part of a request has. -/
theorem ofBody_farText :
    ElementWritten nearText.toList (.object [queryMember]) ∧
      ElementWritten farText.toList (.object [queryMember, (parts "x", .number farNumber)]) ∧
      Json.Spells (parts "x") "x".toList ∧
      "x" ∉ [({} : Config.Graphql).bodyField, operationNameField, variablesField] ∧
      ofBody {} nearText.toUTF8.toList = .ok { query := "\x7b a \x7d" } ∧
      ofBody {} farText.toUTF8.toList = .error .malformed := by
  refine ⟨written_nearText, written_farText, Json.spells_parts "x", by decide, ?_, ?_⟩
  · have hnear : ObjectText nearText.toUTF8.toList [("query", .string "\x7b a \x7d")] :=
      ⟨_, _, Utf8.toList_toUTF8 nearText, written_nearText,
        .cons (Json.spells_parts _) (.string (Json.spells_parts _)) .nil⟩
    rw [ofBody_eq {} hnear]
    rfl
  · have hnone : Json.ofSyntax? Json.nestingLimit
        (.object [queryMember, (parts "x", .number farNumber)]) = none := by
      have hnumber : Json.Number.ofText? farNumber = none := by decide
      simp [queryMember, Json.nestingLimit, Json.ofSyntax?, Json.membersOf?, Json.text?_parts,
        hnumber]
    rw [Utf8.toList_toUTF8, ofBody, Json.parseBytes, written_farText.parse?, Option.bind_some,
      hnone]

end RecordGateway.Request
