import RecordGateway.Http.Form
import RecordGateway.Http.Message
import RecordGateway.Http.Route
import RecordGateway.Metrics

/-! # The gateway

A `Gateway` answers HTTP requests. On its path it takes queries from the URL (GET, or POST without a
body) or from the body (POST). A request that cannot be decoded is answered with 400 and makes no
fetch; every other one is answered with 200 and an envelope, also when the envelope holds errors.
-/

namespace RecordGateway

structure Gateway where
  config : Config
  route : Route
  registry : Registry
  source : DataSource
  /-- Whether fetches are counted. -/
  metered : Bool

/-- What came of a request: the response, the fetches made for it, and what was counted. -/
structure Handled where
  response : HttpResponse
  calls : List Fetch := []
  events : List MetricEvent := []

namespace Gateway

/-- A gateway for a configuration, if its path can be served. -/
def build? (config : Config) (registry : Registry) (source : DataSource) (metered : Bool) :
    Option Gateway :=
  (Route.parse? config.graphql.path).map fun route => ⟨config, route, registry, source, metered⟩

/-- Counts the outcome of a fetch. -/
def fetchEvent (g : Gateway) (f : Fetch) : MetricEvent :=
  .downstream (match g.source f with
    | .ok _ => true
    | .error _ => false)

/-- Answers a request on the path once its payload is decoded, or not. -/
def respond (g : Gateway) (m : Method) : Except PayloadError Request → Handled
  | .error _ => { response := .invalidPayload, events := [.request m.name 400] }
  | .ok q =>
    let x := g.registry.execute g.source q
    { response := .json x.envelope.render
      calls := x.calls
      events := (if g.metered then x.calls.map g.fetchEvent else []) ++ [.request m.name 200] }

/-- The request in the query of a URL. -/
def decodeQuery (g : Gateway) (u : Uri) : Except PayloadError Request :=
  Request.ofParams g.config.graphql (Form.parse u.query)

/-- The request in a body; an empty body leaves it to the URL. -/
def decodeBody (g : Gateway) (u : Uri) (body : List UInt8) : Except PayloadError Request :=
  if body.isEmpty then g.decodeQuery u else Request.ofBody g.config.graphql body

/-- Answers a request on the path. -/
def serve (g : Gateway) (u : Uri) (m : Method) (body : List UInt8) : Handled :=
  match m with
  | .get => g.respond .get (g.decodeQuery u)
  | .head =>
    let h := g.respond .get (g.decodeQuery u)
    { h with response := h.response.headOnly }
  | .post =>
    if g.config.limits.maxBodySize.toNat < body.length then { response := .bodyTooLarge }
    else g.respond .post (g.decodeBody u body)
  | .other _ => { response := .methodNotAllowed }

/-- Answers a request. -/
def handle (g : Gateway) (q : HttpRequest) : Handled :=
  match Uri.parse? q.target with
  | none => { response := .badRequest }
  | some u =>
    let h := if g.route.accepts u.path then g.serve u q.method q.body else { response := .notFound }
    { h with response := { h.response with requestId := some q.requestId } }

end Gateway

/-! ## Over a network -/

/-- Whether a client and the gateway can reach each other. -/
inductive Link where
  | up
  | down
  deriving Repr, DecidableEq

inductive ConnectionFault where
  | networkUnreachable
  deriving Repr, DecidableEq

/-- Sends a request to a gateway. -/
def Gateway.exchange (g : Gateway) (link : Link) (q : HttpRequest) :
    Except ConnectionFault Handled :=
  match link with
  | .up => .ok (g.handle q)
  | .down => .error .networkUnreachable

end RecordGateway
