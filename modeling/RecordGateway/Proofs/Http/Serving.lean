import RecordGateway.Config.Problems
import RecordGateway.Gateway
import RecordGateway.Proofs.Execution.Call
import RecordGateway.Proofs.Http.Route

/-!
# What a gateway answers on its path

The status of an answer depends on the size of the body and on decoding, and not on what becomes of
the query (`Gateway.Serves`). A gateway whose path is literal can be made, and answers so to every
request on its path, whatever the source (`Gateway.exists_serves`).
-/

namespace RecordGateway

/-- The parameters of both say the same under each name. -/
def Params.Same (ps ps' : Params) : Prop := ∀ name, ps.get? name = ps'.get? name

theorem Request.ofParams_congr (names : Config.Graphql) {ps ps' : Params} (h : ps.Same ps') :
    ofParams names ps = ofParams names ps' := by
  simp only [ofParams, Params.nonempty?, h names.queryParam, h operationNameField,
    h variablesField]

theorem Config.rooted_of_isSound {c : Config} (h : c.isSound = true) :
    c.graphql.path.toList.head? = some '/' := by
  simp only [isSound, problems, List.isEmpty_iff, List.append_eq_nil_iff] at h
  have hpath : unlessHolds (isRooted c.graphql.path) (.invalidPath c.graphql.path) = [] := by
    tauto
  simpa [unlessHolds, isRooted] using hpath

namespace HttpRequest

/-- A request on the path of a gateway, with one of the methods that carry queries. -/
structure Queries (q : HttpRequest) (c : Config) (u : Uri) : Prop where
  target : Uri.parse? q.target = some u
  path : u.path = c.graphql.path
  method : q.method = .get ∨ q.method = .post

/-- A body is posted that is longer than the gateway takes. -/
def Oversized (q : HttpRequest) (c : Config) : Prop :=
  q.method = .post ∧ c.limits.maxBodySize.toNat < q.body.length

/-- The payload is read from what is posted, and from the URL if nothing is. -/
def payload (q : HttpRequest) (c : Config) (u : Uri) : Except PayloadError Request :=
  if q.method = .post ∧ q.body ≠ [] then Request.ofBody c.graphql q.body
  else Request.ofParams c.graphql (Form.parse u.query)

end HttpRequest

namespace Gateway

/-- What comes of a request on the path: an answer for a body that is too large, one for a payload
that cannot be decoded, and else the envelope of the execution. -/
structure Serves (c : Config) (r : Registry) (source : DataSource) (q : HttpRequest) (u : Uri)
    (h : Handled) : Prop where
  tooLarge : h.response.status = 413 ↔ q.Oversized c
  invalid : h.response.status = 400 ↔ ¬ q.Oversized c ∧ ∃ e, q.payload c u = .error e
  ok : h.response.status = 200 ↔ ¬ q.Oversized c ∧ ∃ request, q.payload c u = .ok request
  invalidText : h.response.status = 400 → h.response.contentType = some HttpResponse.plainText ∧
    h.response.body = "Invalid request payload"
  envelope : ∀ request, h.response.status = 200 → q.payload c u = .ok request →
    h.response.contentType = some HttpResponse.jsonText ∧
      h.response.body = (r.execute source request).envelope.render ∧
      h.calls = (r.execute source request).calls
  calls : h.calls ≠ [] → h.response.status = 200
  calls_length : h.calls.length ≤ 1

/-- Two requests are answered alike, with the same calls. -/
structure Alike (h h' : Handled) : Prop where
  status : h.response.status = h'.response.status
  contentType : h.response.contentType = h'.response.contentType
  body : h.response.body = h'.response.body
  calls : h.calls = h'.calls

variable {g : Gateway} {q : HttpRequest} {u : Uri}

/-- A get or a post that the route accepts is answered by its size, then by its payload. -/
theorem handle_of_accepts (ht : Uri.parse? q.target = some u)
    (hm : q.method = .get ∨ q.method = .post) (ha : g.route.accepts u.path = true) :
    ∃ h : Handled, g.handle q =
        { h with response := { h.response with requestId := some q.requestId } } ∧
      ((q.Oversized g.config ∧ h = { response := .bodyTooLarge }) ∨
        (¬ q.Oversized g.config ∧ h = g.respond q.method (q.payload g.config u))) := by
  refine ⟨g.serve u q.method q.body, by simp [handle, ht, ha], ?_⟩
  rcases hm with hm | hm
  · right
    simp [HttpRequest.Oversized, HttpRequest.payload, hm, serve, decodeQuery]
  · by_cases hs : g.config.limits.maxBodySize.toNat < q.body.length
    · left
      simp [HttpRequest.Oversized, hm, serve, hs]
    · right
      have hbody : g.decodeBody u q.body = q.payload g.config u := by
        cases hb : q.body <;>
          simp [decodeBody, decodeQuery, HttpRequest.payload, hm, hb]
      simp [HttpRequest.Oversized, hm, serve, hs, hbody]

theorem serves_handle (hq : q.Queries g.config u) (ha : g.route.accepts u.path = true) :
    Serves g.config g.registry g.source q u (g.handle q) := by
  obtain ⟨h, hh, ⟨hs, rfl⟩ | ⟨hs, rfl⟩⟩ := handle_of_accepts hq.target hq.method ha
  · rw [hh]
    constructor <;> simp [HttpResponse.bodyTooLarge, hs]
  · rw [hh]
    cases hp : q.payload g.config u with
    | error e =>
      constructor <;> simp [respond, HttpResponse.invalidPayload, HttpResponse.plainText, hs, hp]
    | ok request =>
      have hlen := (Settled.execute_settled g.registry g.source request).calls_length
      constructor <;> simp [respond, HttpResponse.json, hs, hp, hlen]

/-- A post without a body is answered as the URL alone would be. -/
theorem alike_handle {q' : HttpRequest} {u' : Uri} (hq : q.Queries g.config u)
    (hq' : q'.Queries g.config u') (ha : ∀ v, g.route.accepts v = true ↔ v = g.config.graphql.path)
    (hm : q.method = .get) (hb : q'.body = [])
    (hp : (Form.parse u.query).Same (Form.parse u'.query)) : Alike (g.handle q) (g.handle q') := by
  have hs : ¬ q.Oversized g.config := by simp [HttpRequest.Oversized, hm]
  have hs' : ¬ q'.Oversized g.config := by simp [HttpRequest.Oversized, hb]
  have hpayload : q'.payload g.config u' = q.payload g.config u := by
    simp [HttpRequest.payload, hm, hb, Request.ofParams_congr _ hp]
  obtain ⟨h, hh, ⟨ho, -⟩ | ⟨-, rfl⟩⟩ := handle_of_accepts hq.target hq.method ((ha _).2 hq.path)
  · exact absurd ho hs
  obtain ⟨h', hh', ⟨ho, -⟩ | ⟨-, rfl⟩⟩ :=
    handle_of_accepts hq'.target hq'.method ((ha _).2 hq'.path)
  · exact absurd ho hs'
  rw [hh, hh', hpayload]
  cases q.payload g.config u <;> exact ⟨rfl, rfl, rfl, rfl⟩

/-- A sound configuration whose path is literal makes a gateway, whatever the source. It answers
every request on its path by size and payload, and a post without a body as a get. -/
theorem exists_serves {c : Config} (hc : c.isSound = true)
    (hl : Route.isLiteral c.graphql.path = true) (r : Registry) (source : DataSource)
    (metered : Bool) : ∃ g, build? c r source metered = some g ∧
      (∀ q u, q.Queries c u → Serves c r source q u (g.handle q)) ∧
      ∀ q u q' u', q.Queries c u → q'.Queries c u' → q.method = .get → q'.method = .post →
        q'.body = [] → (Form.parse u.query).Same (Form.parse u'.query) →
          Alike (g.handle q) (g.handle q') := by
  obtain ⟨route, hroute, ha⟩ := Route.exists_parse?_literal (Config.rooted_of_isSound hc) hl
  refine ⟨⟨c, route, r, source, metered⟩, by rw [build?, hroute]; rfl, fun q u hq => ?_,
    fun q u q' u' hq hq' hm _ hb hp => ?_⟩
  · exact serves_handle (g := ⟨c, route, r, source, metered⟩) hq ((ha _).2 hq.path)
  · exact alike_handle (g := ⟨c, route, r, source, metered⟩) hq hq' ha hm hb hp

/-- A post without a body, whose URL holds a query. -/
def queryInUrl : HttpRequest where
  method := .post
  target := "/graphql?query=%7BgetData(id:%221%22)%7Bid%7D%7D"

theorem queries_queryInUrl : queryInUrl.Queries {} ⟨"", "", queryInUrl.target⟩ :=
  ⟨by decide +kernel, by decide +kernel, .inr rfl⟩

theorem payload_queryInUrl : queryInUrl.payload {} ⟨"", "", queryInUrl.target⟩ =
    .ok { query := "\x7bgetData(id:\"1\")\x7bid\x7d\x7d" } := by
  have hparams : Form.parse (Uri.query ⟨"", "", queryInUrl.target⟩) =
      [("query", "\x7bgetData(id:\"1\")\x7bid\x7d\x7d")] := by
    decide +kernel
  rw [HttpRequest.payload, hparams]
  rfl

theorem exists_serves_queryInUrl : ∃ reg g,
    Registry.ofDescriptors dataEntity getData = .ok reg ∧ build? {} reg widget true = some g ∧
      (g.handle queryInUrl).response.status = 200 ∧
        (g.handle queryInUrl).calls = [⟨"1", ["id"]⟩] := by
  obtain ⟨reg, hreg, hc⟩ := Registry.exists_compiled_builtin
  obtain ⟨g, hg, hserves, -⟩ := exists_serves (c := {}) (by decide +kernel) (by decide) reg widget
    true
  have h := hserves queryInUrl _ queries_queryInUrl
  have hstatus : (g.handle queryInUrl).response.status = 200 :=
    h.ok.2 ⟨by simp [HttpRequest.Oversized, queryInUrl], _, payload_queryInUrl⟩
  refine ⟨reg, g, hreg, hg, hstatus, ?_⟩
  rw [(h.envelope _ hstatus payload_queryInUrl).2.2, execute_eq hc]
  decide +kernel

end Gateway
end RecordGateway
