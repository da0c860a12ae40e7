import RecordGateway.Downstream.Client
import RecordGateway.Proofs.Downstream.Transparent
import RecordGateway.Proofs.Http.Body
import Mathlib.Algebra.BigOperators.Group.List.Basic
import Mathlib.Algebra.Order.BigOperators.Group.List
import Mathlib.Algebra.Order.Ring.Nat

/-!
# Metrics add up

A gateway handles many requests at once, and each of them makes its entries in the metrics when it
gets to it. `Traffic.Step` takes the requests in hand on by one step at a time, in any order. No
step loses an entry or makes one too many (`Traffic.Balanced.step`), so once nothing is in hand the
metrics say how many answers of each kind there were, and what became of the fetches made for them
(`Traffic.adds_up`).
-/

namespace RecordGateway

/-! ## Requests and what comes of them -/

/-- The envelope that a response with the status 200 holds. -/
def HttpResponse.envelope? (r : HttpResponse) : Option Envelope :=
  if r.status = 200 then (Envelope.parse r.body.toUTF8.toList).toOption else none

/-- A request, with what stands at the endpoint of the record service while it is handled. -/
structure Exchange where
  request : HttpRequest
  peer : Peer

namespace Exchange

def source (x : Exchange) (g : Gateway) : DataSource :=
  RecordClient.fetch ⟨x.peer, g.config.downstream.requestTimeoutMs⟩

/-- The gateway while the request is handled: it fetches over the network and counts. -/
def gateway (x : Exchange) (g : Gateway) : Gateway :=
  { g with source := x.source g, metered := true }

def handled (x : Exchange) (g : Gateway) : Handled := (x.gateway g).handle x.request

/-- The request is a get or a post on the path of the gateway. -/
structure Asks (x : Exchange) (g : Gateway) : Prop where
  method : x.request.method = .get ∨ x.request.method = .post
  path : ∃ u, Uri.parse? x.request.target = some u ∧ g.route.accepts u.path = true

/-- Whether the answer has a status and is for a method. -/
def isAnswered (g : Gateway) (m : Method) (status : Nat) (x : Exchange) : Bool :=
  x.request.method = m ∧ (x.handled g).response.status = status

/-- Whether the answer is an envelope with data. -/
def hasData (g : Gateway) (x : Exchange) : Bool :=
  (x.handled g).response.envelope?.any (·.data.isSome)

/-- The fetches that failed with just the error that the answer tells. -/
def failures (g : Gateway) (x : Exchange) : List Fetch :=
  (x.handled g).calls.filter fun f =>
    match x.source g f with
    | .ok _ => false
    | .error e => (x.handled g).response.envelope? = some (.reject [e.message])

/-- The entries that are made for the request, in order. -/
def samples (g : Gateway) (x : Exchange) : List Sample :=
  (x.handled g).events.flatMap (·.samples)

/-- What may come of a request on the path: it is too large, it cannot be decoded, it is answered
without a fetch, or with one. -/
inductive Came (g : Gateway) (x : Exchange) : Prop
  | tooLarge (hs : (x.handled g).response.status = 413) (hc : (x.handled g).calls = [])
    (he : (x.handled g).events = [])
  | invalid (hs : (x.handled g).response.status = 400) (hc : (x.handled g).calls = [])
    (he : (x.handled g).events = [.request x.request.method.name 400])
  | idle (hs : (x.handled g).response.status = 200) (hc : (x.handled g).calls = [])
    (he : (x.handled g).events = [.request x.request.method.name 200]) (errors : List String)
    (hr : (x.handled g).response.envelope? = some (.reject errors))
  | fetched (hs : (x.handled g).response.status = 200) (f : Fetch)
    (hc : (x.handled g).calls = [f])
    (he : (x.handled g).events =
      [.downstream (x.source g f).isOk, .request x.request.method.name 200])
    (hr : (x.handled g).response.envelope? = some (.ofAnswer (x.source g f)))

variable {g : Gateway} {x : Exchange}

theorem came (hx : x.Asks g) : Came g x := by
  obtain ⟨u, hu, ha⟩ := hx.path
  obtain ⟨h, hh, ⟨-, rfl⟩ | ⟨-, rfl⟩⟩ :=
    Gateway.handle_of_accepts (g := x.gateway g) hu hx.method ha
  all_goals replace hh : x.handled g = _ := hh
  · exact .tooLarge (by rw [hh]; rfl) (by rw [hh]) (by rw [hh])
  cases hp : x.request.payload (x.gateway g).config u with
  | error e =>
    simp only [hp, Gateway.respond] at hh
    exact .invalid (by rw [hh]; rfl) (by rw [hh]) (by rw [hh])
  | ok request =>
    obtain ⟨p, hplan⟩ := (x.gateway g).registry.exists_carryOut request
    simp only [hp, Gateway.respond, hplan] at hh
    have hread : ∀ e : Envelope, (x.handled g).response.body = e.render →
        (x.handled g).response.status = 200 → (x.handled g).response.envelope? = some e := by
      intro e hb hs
      rw [HttpResponse.envelope?, if_pos hs, hb, Envelope.parse_render]
      rfl
    have hstatus : (x.handled g).response.status = 200 := by rw [hh]; rfl
    rcases p with e | _ | f
    · exact .idle hstatus (by rw [hh]; rfl) (by rw [hh]; rfl) e.messages
        (hread _ (by rw [hh]; rfl) hstatus)
    · exact .idle hstatus (by rw [hh]; rfl) (by rw [hh]; rfl) []
        (hread _ (by rw [hh]; rfl) hstatus)
    · refine .fetched hstatus f (by rw [hh]; rfl) ?_ (hread _ (by rw [hh]; rfl) hstatus)
      rw [hh]
      show [(x.gateway g).fetchEvent f, _] = [MetricEvent.downstream (x.source g f).isOk, _]
      rw [Gateway.fetchEvent]
      cases hf : x.source g f <;> simp [gateway, hf, Except.isOk, Except.toBool]

/-! ## Entries for one request -/

theorem countP_samples (g : Gateway) (x : Exchange) (p : Sample → Bool) :
    (x.samples g).countP p = ((x.handled g).events.map fun e => e.samples.countP p).sum := by
  rw [samples, List.countP_flatMap]
  rfl

/-- An event has as many entries in a histogram as in its counter. -/
theorem countP_histogram {counter histogram : String}
    (h : (counter, histogram) ∈
      [("gateway_requests_total", "gateway_request_duration_seconds_count"),
        ("gateway_downstream_calls_total", "gateway_downstream_duration_seconds_count")])
    (labels : List (String × String)) (x : Exchange) :
    (x.samples g).countP (Sample.isOf histogram labels) =
      (x.samples g).countP (Sample.isOf counter labels) := by
  rw [countP_samples, countP_samples]
  refine congrArg List.sum (List.map_congr_left fun e _ => ?_)
  simp only [List.mem_cons, Prod.mk.injEq, List.not_mem_nil, or_false] at h
  rcases h with ⟨rfl, rfl⟩ | ⟨rfl, rfl⟩ <;> cases e <;>
    simp [MetricEvent.samples, List.countP_cons, Sample.isOf, Sample.metric]

/-- The entries for an answer are counted under its method and status. -/
theorem countP_request_requests (method name text : String) (status : Nat) :
    (MetricEvent.request method status).samples.countP
      (Sample.isOf "gateway_requests_total" [("method", name), ("status", text)]) =
        if method = name ∧ toString status = text then 1 else 0 := by
  simp [MetricEvent.samples, List.countP_cons, Sample.isOf, Sample.metric, MetricEvent.labels]

theorem countP_fetch_requests (succeeded : Bool) (labels : List (String × String)) :
    (MetricEvent.downstream succeeded).samples.countP
      (Sample.isOf "gateway_requests_total" labels) = 0 := by
  simp [MetricEvent.samples, Sample.isOf, Sample.metric]

/-- The entries for a fetch are counted under its outcome. -/
theorem countP_fetch_fetches (succeeded : Bool) (text : String) :
    (MetricEvent.downstream succeeded).samples.countP
      (Sample.isOf "gateway_downstream_calls_total" [("outcome", text)]) =
        if (if succeeded then "ok" else "error") = text then 1 else 0 := by
  cases succeeded <;>
    simp [MetricEvent.samples, List.countP_cons, Sample.isOf, Sample.metric, MetricEvent.labels]

theorem countP_request_fetches (method : String) (status : Nat) (labels : List (String × String)) :
    (MetricEvent.request method status).samples.countP
      (Sample.isOf "gateway_downstream_calls_total" labels) = 0 := by
  simp [MetricEvent.samples, Sample.isOf, Sample.metric]

theorem countP_request (hx : x.Asks g) {m : Method} {name : String}
    (hm : (m, name) ∈ [(Method.get, "GET"), (.post, "POST")]) {status : Nat} {text : String}
    (hs : (status, text) ∈ [(200, "200"), (400, "400")]) :
    (x.samples g).countP
      (Sample.isOf "gateway_requests_total" [("method", name), ("status", text)]) =
        (isAnswered g m status x).toNat := by
  simp only [List.mem_cons, Prod.mk.injEq, List.not_mem_nil, or_false] at hm hs
  have hname : x.request.method.name = name ↔ x.request.method = m := by
    rcases hx.method with h | h <;> rcases hm with ⟨rfl, rfl⟩ | ⟨rfl, rfl⟩ <;> simp [h, Method.name]
  have hstatus : (toString 200 = text ↔ 200 = status) ∧ (toString 400 = text ↔ 400 = status) := by
    rcases hs with ⟨rfl, rfl⟩ | ⟨rfl, rfl⟩ <;> decide
  rw [countP_samples]
  cases came hx with
  | tooLarge h _ he => rcases hs with ⟨rfl, -⟩ | ⟨rfl, -⟩ <;> simp [isAnswered, h, he]
  | invalid h _ he | idle h _ he | fetched h _ _ he =>
    simp only [isAnswered, h, he, countP_fetch_requests, countP_request_requests, hname, hstatus,
      List.map_cons, List.map_nil, List.sum_cons, List.sum_nil, Nat.zero_add, Nat.add_zero]
    split <;> simp [*]

theorem countP_succeeded (hx : x.Asks g) :
    (x.samples g).countP (Sample.isOf "gateway_downstream_calls_total" [("outcome", "ok")]) =
      (hasData g x).toNat := by
  rw [countP_samples]
  cases came hx with
  | tooLarge h _ he | invalid h _ he =>
    simp [hasData, HttpResponse.envelope?, h, he, countP_request_fetches]
  | idle _ _ he _ hr => simp [hasData, hr, he, Envelope.reject, countP_request_fetches]
  | fetched _ f _ he hr =>
    cases hf : x.source g f <;>
      simp [hasData, hr, he, hf, countP_request_fetches, countP_fetch_fetches, Envelope.ofAnswer,
        Envelope.reject, Except.isOk, Except.toBool]

theorem countP_failed (hx : x.Asks g) :
    (x.samples g).countP (Sample.isOf "gateway_downstream_calls_total" [("outcome", "error")]) =
      (failures g x).length := by
  rw [countP_samples]
  cases came hx with
  | tooLarge _ hc he | invalid _ hc he | idle _ hc he _ _ =>
    simp [failures, hc, he, countP_request_fetches]
  | fetched _ f hc he hr =>
    cases hf : x.source g f <;>
      simp [failures, hc, hr, he, hf, countP_request_fetches, countP_fetch_fetches,
        Envelope.ofAnswer, Except.isOk, Except.toBool]

/-- Fetches are counted for answers with the status 200 only, and one at most. -/
theorem countP_fetched_le (hx : x.Asks g) :
    (x.samples g).countP (Sample.isOf "gateway_downstream_calls_total" [("outcome", "ok")]) +
        (x.samples g).countP (Sample.isOf "gateway_downstream_calls_total" [("outcome", "error")]) ≤
      (decide ((x.handled g).response.status = 200)).toNat := by
  rw [countP_samples, countP_samples]
  cases came hx with
  | tooLarge _ _ he | invalid _ _ he | idle _ _ he _ _ => simp [he, countP_request_fetches]
  | fetched h f _ he _ =>
    cases ho : (x.source g f).isOk <;>
      simp [he, h, ho, countP_request_fetches, countP_fetch_fetches]

end Exchange

/-! ## Many requests at once -/

/-- The requests in hand, each with the entries that are still to be made for it, the requests that
have been answered, and the metrics. -/
structure Traffic where
  inHand : List (Exchange × List Sample) := []
  answered : List Exchange := []
  metrics : Metrics := []

namespace Traffic

open Exchange

/-- A request comes in, one of those in hand makes its next entry, or one that has made them all is
answered. -/
inductive Step (g : Gateway) : Traffic → Traffic → Prop
  | accept (t : Traffic) (x : Exchange) (hx : x.Asks g) :
    Step g t { t with inHand := (x, x.samples g) :: t.inHand }
  | enter (t : Traffic) (before after : List (Exchange × List Sample)) (x : Exchange) (s : Sample)
    (rest : List Sample) (h : t.inHand = before ++ (x, s :: rest) :: after) :
    Step g t { t with inHand := before ++ (x, rest) :: after, metrics := t.metrics.add s }
  | answer (t : Traffic) (before after : List (Exchange × List Sample)) (x : Exchange)
    (h : t.inHand = before ++ (x, []) :: after) :
    Step g t { t with inHand := before ++ after, answered := x :: t.answered }

/-- The traffic that a gateway may come to. -/
inductive Reached (g : Gateway) : Traffic → Prop
  | start : Reached g {}
  | step {t t' : Traffic} (ht : Reached g t) (h : Step g t t') : Reached g t'

/-- All requests so far. -/
def exchanges (t : Traffic) : List Exchange := t.inHand.map Prod.fst ++ t.answered

/-- The entries that are still to be made. -/
def due (t : Traffic) : List Sample := t.inHand.flatMap Prod.snd

/-- The entries made and those that are due are together the ones for all requests. -/
structure Balanced (g : Gateway) (t : Traffic) : Prop where
  asks : ∀ x ∈ t.exchanges, x.Asks g
  total : ∀ metric labels,
    t.metrics.total metric labels + t.due.countP (Sample.isOf metric labels) =
      (t.exchanges.flatMap (samples g)).countP (Sample.isOf metric labels)

variable {g : Gateway} {t t' : Traffic}

theorem Balanced.asks_answered (ht : Balanced g t) {x : Exchange} (hx : x ∈ t.answered) :
    x.Asks g :=
  ht.asks x (List.mem_append_right _ hx)

theorem Balanced.step (ht : Balanced g t) (h : Step g t t') : Balanced g t' := by
  obtain ⟨hasks, htotal⟩ := ht
  cases h with
  | accept x hx =>
    refine ⟨List.forall_mem_cons.2 ⟨hx, hasks⟩, fun metric labels => ?_⟩
    have := htotal metric labels
    simp only [due, exchanges, List.map_cons, List.cons_append, List.flatMap_cons,
      List.countP_append] at this ⊢
    omega
  | enter before after x s rest h =>
    refine ⟨fun y hy => hasks y ?_, fun metric labels => ?_⟩
    · simpa [exchanges, h] using hy
    · have := htotal metric labels
      simp only [due, exchanges, h, List.map_append, List.map_cons, List.flatMap_append,
        List.flatMap_cons, List.countP_append, List.countP_cons, Metrics.total_add] at this ⊢
      omega
  | answer before after x h =>
    refine ⟨fun y hy => hasks y ?_, fun metric labels => ?_⟩
    · simp only [exchanges, h, List.map_append, List.map_cons, List.mem_append,
        List.mem_cons] at hy ⊢
      tauto
    · have := htotal metric labels
      simp only [due, exchanges, h, List.map_append, List.map_cons, List.flatMap_append,
        List.flatMap_cons, List.countP_append, List.countP_nil] at this ⊢
      omega

theorem balanced (ht : Reached g t) : Balanced g t := by
  induction ht with
  | start => exact ⟨by simp [exchanges], fun _ _ => rfl⟩
  | step _ h ih => exact ih.step h

/-- Once nothing is in hand, there are the entries for what has been answered. -/
theorem total_of_settled (ht : Reached g t) (hd : t.inHand = []) (metric : String)
    (labels : List (String × String)) : t.metrics.total metric labels =
      (t.answered.map fun x => (x.samples g).countP (Sample.isOf metric labels)).sum := by
  have h := (balanced ht).total metric labels
  simp only [due, exchanges, hd, List.flatMap_nil, List.countP_nil, Nat.add_zero, List.map_nil,
    List.nil_append, List.countP_flatMap] at h
  exact h

theorem sum_map_toNat {α : Type} (p : α → Bool) (xs : List α) :
    (xs.map fun x => (p x).toNat).sum = xs.countP p := by
  induction xs with
  | nil => rfl
  | cons x xs ih => cases hp : p x <;> simp [hp, ih, Nat.add_comm]

/-- Where the requests of a kind make one entry each and all others none, there are as many entries
as answers of that kind. -/
theorem total_eq_countP (ht : Reached g t) (hd : t.inHand = []) {metric : String}
    {labels : List (String × String)} {p : Exchange → Bool}
    (hp : ∀ {x : Exchange}, x.Asks g →
      (x.samples g).countP (Sample.isOf metric labels) = (p x).toNat) :
    t.metrics.total metric labels = t.answered.countP p := by
  rw [total_of_settled ht hd, ← sum_map_toNat]
  exact congrArg List.sum (List.map_congr_left fun x hx => hp ((balanced ht).asks_answered hx))

/-- What is reported about the requests that have been answered, by metric and labels. -/
structure AddsUp (g : Gateway) (t : Traffic) : Prop where
  requests : ∀ m name, (m, name) ∈ [(Method.get, "GET"), (.post, "POST")] →
    ∀ status text, (status, text) ∈ [(200, "200"), (400, "400")] →
      t.metrics.total "gateway_requests_total" [("method", name), ("status", text)] =
        t.answered.countP (isAnswered g m status)
  succeeded : t.metrics.total "gateway_downstream_calls_total" [("outcome", "ok")] =
    t.answered.countP (hasData g)
  failed : t.metrics.total "gateway_downstream_calls_total" [("outcome", "error")] =
    (t.answered.flatMap (failures g)).length
  fetched_le : t.metrics.total "gateway_downstream_calls_total" [("outcome", "ok")] +
      t.metrics.total "gateway_downstream_calls_total" [("outcome", "error")] ≤
    t.answered.countP fun x => (x.handled g).response.status = 200
  histograms : ∀ counter histogram, (counter, histogram) ∈
      [("gateway_requests_total", "gateway_request_duration_seconds_count"),
        ("gateway_downstream_calls_total", "gateway_downstream_duration_seconds_count")] →
    ∀ labels, t.metrics.total histogram labels = t.metrics.total counter labels

/-- Whatever the order in which requests come in, make their entries and are answered: once all are
answered, the metrics add up. -/
theorem adds_up (ht : Reached g t) (hd : t.inHand = []) : AddsUp g t := by
  have htotal := total_of_settled ht hd
  have hasks : ∀ x ∈ t.answered, x.Asks g := fun _ => (balanced ht).asks_answered
  constructor
  · intro m name hm status text hs
    exact total_eq_countP ht hd fun hx => countP_request hx hm hs
  · exact total_eq_countP ht hd countP_succeeded
  · rw [htotal, List.length_flatMap]
    exact congrArg List.sum (List.map_congr_left fun x hx => countP_failed (hasks x hx))
  · rw [htotal, htotal, ← List.sum_map_add, ← sum_map_toNat]
    exact List.sum_le_sum fun x hx => countP_fetched_le (hasks x hx)
  · intro counter histogram h labels
    rw [htotal, htotal]
    exact congrArg List.sum (List.map_congr_left fun x _ => countP_histogram h labels x)

/-- A query whose fetch finds no record service. -/
def unserved : Exchange := ⟨Gateway.queryInUrl, .unreachable⟩

/-- A request whose variables are no JSON. -/
def undecodable : Exchange := ⟨{ method := .get, target := "/graphql?variables=%7B" }, .unreachable⟩

/-- The entries for a request that is not too large. -/
theorem samples_of_payload {x : Exchange} (hx : x.Asks g) (hs : ¬ x.request.Oversized g.config)
    {u : Uri} (hu : Uri.parse? x.request.target = some u) : x.samples g =
      ((x.gateway g).respond x.request.method
        (x.request.payload g.config u)).events.flatMap (·.samples) := by
  obtain ⟨u', hu', ha⟩ := hx.path
  obtain rfl := Option.some.inj (hu.symm.trans hu')
  obtain ⟨h, hh, ⟨ho, -⟩ | ⟨-, rfl⟩⟩ :=
    Gateway.handle_of_accepts (g := x.gateway g) hu hx.method ha
  · exact absurd ho hs
  · rw [samples, show x.handled g = _ from hh]
    rfl

theorem adds_up_interleaved : ∃ reg g t, Registry.ofDescriptors dataEntity getData = .ok reg ∧
    Gateway.build? {} reg widget false = some g ∧ Reached g t ∧ t.inHand = [] ∧
      t.answered = [unserved, undecodable] ∧ AddsUp g t ∧
      t.metrics.total "gateway_requests_total" [("method", "GET"), ("status", "400")] = 1 ∧
      t.metrics.total "gateway_downstream_calls_total" [("outcome", "error")] = 1 ∧
      t.metrics = [(⟨.counter, .downstream false⟩, 1), (⟨.counter, .request "GET" 400⟩, 1),
        (⟨.histogram, .downstream false⟩, 1), (⟨.counter, .request "POST" 200⟩, 1),
        (⟨.histogram, .request "GET" 400⟩, 1), (⟨.histogram, .request "POST" 200⟩, 1)] := by
  obtain ⟨reg, hreg, hc⟩ := Registry.exists_compiled_builtin
  have hrooted : "/graphql".toList.head? = some '/' := by decide
  obtain ⟨route, hroute, ha⟩ := Route.exists_parse?_literal hrooted (by decide)
  let g : Gateway := ⟨{}, route, reg, widget, false⟩
  have hx : unserved.Asks g := ⟨.inr rfl, ⟨"", "", unserved.request.target⟩, by decide +kernel,
    (ha _).2 (by decide +kernel)⟩
  have hy : undecodable.Asks g := ⟨.inl rfl, ⟨"", "", undecodable.request.target⟩,
    by decide +kernel, (ha _).2 (by decide +kernel)⟩
  have hxs : unserved.samples g = [⟨.counter, .downstream false⟩, ⟨.histogram, .downstream false⟩,
      ⟨.counter, .request "POST" 200⟩, ⟨.histogram, .request "POST" 200⟩] := by
    have hcalls : (reg.execute (unserved.source g)
        { query := "\x7bgetData(id:\"1\")\x7bid\x7d\x7d" }).calls = [⟨"1", ["id"]⟩] := by
      rw [show unserved.source g = RecordClient.fetch ⟨.unreachable, 10000⟩ from rfl,
        execute_eq hc]
      decide +kernel
    rw [samples_of_payload hx (by simp [HttpRequest.Oversized, unserved, Gateway.queryInUrl])
      Gateway.queries_queryInUrl.target, show unserved.request.payload g.config _ = _ from
        Gateway.payload_queryInUrl]
    simp only [gateway, Gateway.respond, ↓reduceIte]
    rw [hcalls]
    rfl
  have hys : undecodable.samples g = [⟨.counter, .request "GET" 400⟩,
      ⟨.histogram, .request "GET" 400⟩] := by
    rw [samples_of_payload hy (by simp [HttpRequest.Oversized, undecodable])
      (u := ⟨"", "", undecodable.request.target⟩) (by decide +kernel)]
    have hvariables : Request.variablesOfText "\x7b" = .error .malformed := by
      have hfails : (Json.parse "\x7b").toBool = false := by decide +kernel
      rw [Request.variablesOfText]
      cases hread : Json.parse "\x7b" with
      | error e => rfl
      | ok v =>
        rw [hread] at hfails
        exact Bool.noConfusion hfails
    have hpayload : undecodable.request.payload {} ⟨"", "", undecodable.request.target⟩ =
        .error .malformed := by
      rw [HttpRequest.payload, show Form.parse (Uri.query _) = [("variables", "\x7b")] by
        decide +kernel]
      show (Request.variablesOfText "\x7b" >>= _) = _
      rw [hvariables]
      rfl
    rw [show undecodable.request.payload g.config _ = _ from hpayload]
    rfl
  have h₁ := Reached.start.step (.accept (g := g) _ unserved hx)
  rw [hxs] at h₁
  have h₂ := h₁.step (.enter _ [] [] unserved _ _ rfl)
  have h₃ := h₂.step (.accept _ undecodable hy)
  rw [hys] at h₃
  have h₄ := h₃.step (.enter _ [] _ undecodable _ _ rfl)
  have h₅ := h₄.step (.enter _ [_] [] unserved _ _ rfl)
  have h₆ := h₅.step (.enter _ [_] [] unserved _ _ rfl)
  have h₇ := h₆.step (.enter _ [] _ undecodable _ _ rfl)
  have h₈ := h₇.step (.answer _ [] _ undecodable rfl)
  have h₉ := h₈.step (.enter _ [] [] unserved _ _ rfl)
  have h := h₉.step (.answer _ [] [] unserved rfl)
  exact ⟨reg, g, _, hreg, by rw [Gateway.build?]; simp [g, hroute], h, rfl, rfl, adds_up h rfl,
    by decide +kernel, by decide +kernel, rfl⟩

end Traffic
end RecordGateway
