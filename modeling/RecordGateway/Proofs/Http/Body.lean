import RecordGateway.Proofs.Http.Serving
import RecordGateway.Proofs.Json.RoundTrip

/-!
# Bodies of answers read back

The text of an envelope reads as a syntax tree (`Envelope.written_chars`) of which both a JSON value
and the envelope itself are made again (`Envelope.ofSyntax?_tree`, `Envelope.json_tree`). So the
body of an answer with the status 200 tells the envelope of its execution (`Envelope.body_tells`).
-/

namespace RecordGateway.Envelope

open JsonSyntax
open Utf8 (encode)

/-! ## The text of an envelope -/

/-- The members of a record, as they are read. -/
def recordTree (r : Record) : List (List StringPart × JsonSyntax) :=
  [(parts "id", .string (parts r.id)), (parts "name", .string (parts r.name)),
    (parts "description", .string (parts r.description))]

def dataTree : Option Record → JsonSyntax
  | none => .null
  | some r => .object (recordTree r)

def errorTrees (errors : List String) : List JsonSyntax := errors.map fun s => .string (parts s)

/-- What the text of an envelope reads as. -/
def tree (e : Envelope) : JsonSyntax :=
  .object [(parts "data", dataTree e.data), (parts "errors", .array (errorTrees e.errors))]

theorem written_dataChars : ∀ d : Option Record, Written (dataChars d) (dataTree d)
  | none => .nullWord
  | some r => .object (.more (nameWritten_quote "id") (written_quote r.id).element
      (.more (nameWritten_quote "name") (written_quote r.name).element
        (.last (nameWritten_quote "description") (written_quote r.description).element)))

theorem itemsWritten_strings (s : String) (ss : List String) :
    ItemsWritten (Json.itemChars ((s :: ss).map .string)) (errorTrees (s :: ss)) := by
  induction ss generalizing s with
  | nil => exact .last (written_quote s).element
  | cons t ss ih => exact .more (written_quote s).element (ih t)

theorem written_errors : ∀ errors : List String,
    Written (Json.chars (.array (errors.map .string))) (.array (errorTrees errors))
  | [] => .emptyArray spaces_nil
  | s :: ss => .array (itemsWritten_strings s ss)

theorem written_chars (e : Envelope) : Written e.chars e.tree := by
  have hmembers := MembersWritten.more (nameWritten_quote "data") (written_dataChars e.data).element
    (.last (nameWritten_quote "errors") (written_errors e.errors).element)
  simpa only [chars, tree, List.append_assoc, List.cons_append] using Written.object hmembers

/-! ## Reading it back -/

theorem members?_cons {known : List String} {n : String} (hn : n ∈ known) (t : JsonSyntax)
    {rest : List (List StringPart × JsonSyntax)} {ms : List (String × JsonSyntax)}
    (h : Envelope.members? known rest = some ms) (hnew : ms.lookup n = none) :
    Envelope.members? known ((parts n, t) :: rest) = some ((n, t) :: ms) := by
  simp [Envelope.members?, Json.text?_parts, h, hn, hnew]

theorem string?_parts (s : String) : Envelope.string? (.string (parts s)) = some s :=
  Json.text?_parts s

theorem parts?_recordTree (r : Record) :
    parts? ["id", "name", "description"] (.object (recordTree r)) =
      some [("id", .string (parts r.id)), ("name", .string (parts r.name)),
        ("description", .string (parts r.description))] :=
  members?_cons (by decide) _ (members?_cons (by decide) _ (members?_cons (by decide) _ rfl rfl)
    rfl) rfl

theorem data?_dataTree : ∀ d : Option Record, data? (dataTree d) = some d
  | none => rfl
  | some r => by
    have hrecord : record? (.object (recordTree r)) = some r := by
      rw [record?, parts?_recordTree]
      simp [List.lookup_cons, string?_parts]
    show (record? (.object (recordTree r))).map some = _
    rw [hrecord]
    rfl

theorem errors?_errorTrees (errors : List String) :
    errors? (.array (errorTrees errors)) = some errors := by
  show (errorTrees errors).mapM Envelope.string? = some errors
  induction errors with
  | nil => rfl
  | cons s ss ih =>
    rw [errorTrees, List.map_cons, List.mapM_cons, string?_parts, ← errorTrees, ih]
    rfl

theorem ofSyntax?_tree (e : Envelope) : ofSyntax? e.tree = some e := by
  have hparts : parts? ["data", "errors"] e.tree =
      some [("data", dataTree e.data), ("errors", .array (errorTrees e.errors))] :=
    members?_cons (by decide) _ (members?_cons (by decide) _ rfl rfl) rfl
  rw [ofSyntax?, hparts]
  simp [List.lookup_cons, data?_dataTree, errors?_errorTrees]

/-! ## As a JSON value -/

def dataJson : Option Record → Json
  | none => .null
  | some r => .object [("description", .string r.description), ("id", .string r.id),
      ("name", .string r.name)]

/-- The value of the text of an envelope; members are in the order of their names. -/
def json (e : Envelope) : Json :=
  .object [("data", dataJson e.data), ("errors", .array (e.errors.map .string))]

theorem membersOf?_cons {room : Nat} {t : JsonSyntax} {j : Json}
    (h : Json.ofSyntax? room t = some j) (o : Json.Object) (n : String)
    (ms : List (List StringPart × JsonSyntax)) :
    Json.membersOf? room o ((parts n, t) :: ms) = Json.membersOf? room (o.insert n j) ms := by
  rw [Json.membersOf?, Json.text?_parts, h]

theorem ofSyntax?_string (room : Nat) (s : String) :
    Json.ofSyntax? room (.string (parts s)) = some (.string s) := by
  rw [Json.ofSyntax?, Json.text?_parts]
  rfl

theorem insert_recordMembers (id name description : Json) :
    ((Json.Object.insert "id" id []).insert "name" name).insert "description" description =
      [("description", description), ("id", id), ("name", name)] := by
  have hname : Json.Object.insert "name" name [("id", id)] = [("id", id), ("name", name)] :=
    Json.insert_eq_append name (List.forall_mem_singleton.2 (by decide : "id" < "name"))
  rw [Json.Object.insert, hname, Json.Object.insert, if_neg (by decide), if_pos (by decide)]

theorem insert_envelopeMembers (data errors : Json) :
    (Json.Object.insert "data" data []).insert "errors" errors =
      [("data", data), ("errors", errors)] :=
  Json.insert_eq_append errors (List.forall_mem_singleton.2 (by decide : "data" < "errors"))

theorem ofSyntax?_dataTree {room : Nat} (hroom : room ≠ 0) :
    ∀ d : Option Record, Json.ofSyntax? room (dataTree d) = some (dataJson d)
  | none => by rw [dataTree, Json.ofSyntax?, dataJson]
  | some r => by
    rw [dataTree, recordTree, Json.ofSyntax?, if_neg hroom,
      membersOf?_cons (ofSyntax?_string _ _), membersOf?_cons (ofSyntax?_string _ _),
      membersOf?_cons (ofSyntax?_string _ _), insert_recordMembers, Json.membersOf?]
    rfl

theorem itemsOf?_errorTrees (room : Nat) (errors : List String) :
    Json.itemsOf? room (errorTrees errors) = some (errors.map .string) := by
  induction errors with
  | nil => rw [errorTrees, List.map_nil, Json.itemsOf?, List.map_nil]
  | cons s ss ih =>
    rw [errorTrees, List.map_cons, Json.itemsOf?, ofSyntax?_string, ← errorTrees, ih]
    rfl

theorem json_tree (e : Envelope) : Json.ofSyntax? Json.nestingLimit e.tree = some e.json := by
  have herrors : Json.ofSyntax? 126 (.array (errorTrees e.errors)) =
      some (.array (e.errors.map .string)) := by
    rw [Json.ofSyntax?, if_neg (by decide), itemsOf?_errorTrees]
    rfl
  rw [tree, Json.nestingLimit, Json.ofSyntax?, if_neg (by decide),
    membersOf?_cons (ofSyntax?_dataTree (by decide) _), membersOf?_cons herrors,
    insert_envelopeMembers, Json.membersOf?]
  rfl

/-! ## Bodies -/

theorem toList_toUTF8_render (e : Envelope) : e.render.toUTF8.toList = encode e.chars := by
  rw [Utf8.toList_toUTF8, render, String.toList_ofList]

/-- The text of an envelope is read back as it. -/
theorem parse_render (e : Envelope) : parse e.render.toUTF8.toList = .ok e := by
  rw [toList_toUTF8_render, parse, e.written_chars.parse?]
  simp [ofSyntax?_tree]

/-- The text of an envelope is a JSON text. -/
theorem json_render (e : Envelope) : Json.parse e.render = .ok e.json := by
  rw [Json.parse, toList_toUTF8_render, Json.parseBytes, e.written_chars.parse?]
  simp [json_tree]

theorem render_injective : Function.Injective render := by
  intro e e' h
  have hread := parse_render e
  rw [h, parse_render e'] at hread
  exact (Except.ok.inj hread).symm

/-- An answer with the status 200 that is not for a head holds the envelope of the execution of
what was asked. -/
theorem body_of_status_ok {g : Gateway} {q : HttpRequest}
    (h : (g.handle q).response.status = 200) (hm : q.method ≠ .head) :
    ∃ u request, Uri.parse? q.target = some u ∧ q.payload g.config u = .ok request ∧
      (g.handle q).response.body = (g.registry.execute g.source request).envelope.render := by
  cases hu : Uri.parse? q.target with
  | none => simp [Gateway.handle, hu, HttpResponse.badRequest] at h
  | some u =>
    by_cases ha : g.route.accepts u.path = true
    swap
    · simp [Gateway.handle, hu, ha, HttpResponse.notFound] at h
    by_cases hqueries : q.method = .get ∨ q.method = .post
    · obtain ⟨x, hx, ⟨-, rfl⟩ | ⟨-, rfl⟩⟩ := Gateway.handle_of_accepts hu hqueries ha
      · simp [hx, HttpResponse.bodyTooLarge] at h
      rw [hx] at h ⊢
      cases hp : q.payload g.config u with
      | error e => simp [hp, Gateway.respond, HttpResponse.invalidPayload] at h
      | ok request => exact ⟨u, request, rfl, hp, rfl⟩
    · cases hmethod : q.method with
      | other n =>
        simp [Gateway.handle, hu, ha, hmethod, Gateway.serve, HttpResponse.methodNotAllowed] at h
      | _ => simp_all

/-- Every envelope is written as a JSON text that is read back as the envelope, and different ones
differently. So the body of an answer with the status 200 tells the envelope of the execution; only
the answer to a head has no body. -/
theorem body_tells :
    (∀ e : Envelope, Json.parse e.render = .ok e.json ∧ parse e.render.toUTF8.toList = .ok e) ∧
      Function.Injective render ∧
      ∀ (g : Gateway) (q : HttpRequest), (g.handle q).response.status = 200 → q.method ≠ .head →
        ∃ u request, Uri.parse? q.target = some u ∧ q.payload g.config u = .ok request ∧
          parse (g.handle q).response.body.toUTF8.toList =
            .ok (g.registry.execute g.source request).envelope := by
  refine ⟨fun e => ⟨e.json_render, e.parse_render⟩, render_injective, fun g q h hm => ?_⟩
  obtain ⟨u, request, hu, hp, hbody⟩ := body_of_status_ok h hm
  exact ⟨u, request, hu, hp, by rw [hbody, parse_render]⟩

theorem body_tells_queryInUrl : ∃ reg g,
    Registry.ofDescriptors dataEntity getData = .ok reg ∧
      Gateway.build? {} reg widget true = some g ∧
      (g.handle Gateway.queryInUrl).response.status = 200 ∧ Gateway.queryInUrl.method ≠ .head ∧
      parse (g.handle Gateway.queryInUrl).response.body.toUTF8.toList =
        .ok { data := some ⟨"1", "Widget", ""⟩ } := by
  obtain ⟨reg, hreg, hc⟩ := Registry.exists_compiled_builtin
  have hrooted : "/graphql".toList.head? = some '/' := by decide
  obtain ⟨route, hroute, ha⟩ := Route.exists_parse?_literal hrooted (by decide)
  let g : Gateway := ⟨{}, route, reg, widget, true⟩
  have hq := Gateway.queries_queryInUrl
  have hstatus : (g.handle Gateway.queryInUrl).response.status = 200 :=
    (Gateway.serves_handle (g := g) hq ((ha _).2 hq.path)).ok.2
      ⟨by simp [HttpRequest.Oversized, Gateway.queryInUrl], _, Gateway.payload_queryInUrl⟩
  refine ⟨reg, g, hreg, by rw [Gateway.build?]; simp [g, hroute], hstatus, by decide, ?_⟩
  obtain ⟨u, request, hu, hp, hbody⟩ := body_tells.2.2 g Gateway.queryInUrl hstatus (by decide)
  obtain rfl := Option.some.inj (hq.target.symm.trans hu)
  obtain rfl := Except.ok.inj (Gateway.payload_queryInUrl.symm.trans hp)
  rw [hbody]
  show Except.ok (reg.execute widget _).envelope = _
  rw [execute_eq hc]
  decide +kernel

end RecordGateway.Envelope
