import RecordGateway.Downstream.Client
import RecordGateway.Proofs.Execution.Call
import RecordGateway.Proofs.Wire.RoundTrip

/-!
# A service over the network is a service at hand

A connection carries fetches, records and statuses as they are (`fetch_of_answer`), so a request is
answered over it as by the service itself, with the same fetch arriving there; and a service that
does not answer in time is told as a timeout (`execute_over_connection`).
-/

namespace RecordGateway

/-- The bytes that a message may have. -/
def messageLimit : Nat := 4194304

/-- What a connection carries as it is: a record of not too many bytes, or a status of failure. -/
def Carries : Answer → Prop
  | .ok r => r.encode.length ≤ messageLimit
  | .error (.rpc code _) => code ≠ .ok
  | .error _ => False

instance : DecidablePred Carries
  | .ok r => inferInstanceAs (Decidable (r.encode.length ≤ messageLimit))
  | .error (.rpc code _) => inferInstanceAs (Decidable (code ≠ .ok))
  | .error (.transport _) => instDecidableFalse
  | .error (.timeout _) => instDecidableFalse

theorem countable_of_le_messageLimit {n : Nat} (h : n ≤ messageLimit) : n < UInt64.size :=
  Nat.lt_of_le_of_lt h (by decide)

/-! ## Waiting -/

/-- Rounding up does not move a call over a deadline in whole milliseconds. -/
theorem ticks_le_ticks_iff {d ms : Nat} : ticks d ≤ ticks (ms * 1000000) ↔ d ≤ ms * 1000000 := by
  unfold ticks
  omega

namespace TimedCall

variable {α : Type} {call : TimedCall α} {d ms : Nat}

theorem within_eq_result (hd : call.duration = some d) (hle : d ≤ ms * 1000000) :
    (call.within (ms * 1000000)).result = call.result := by
  simp [within, hd, ticks_le_ticks_iff.2 hle]

theorem within_eq_timeout (h : ∀ d, call.duration = some d → ms * 1000000 < d) :
    (call.within (ms * 1000000)).result = .error (.timeout (ms * 1000000)) := by
  unfold within
  cases hd : call.duration with
  | none => rfl
  | some d =>
    have hlate : ¬ ticks d ≤ ticks (ms * 1000000) := fun hle =>
      Nat.not_le_of_gt (h d hd) (ticks_le_ticks_iff.1 hle)
    simp only [if_neg hlate]

end TimedCall

theorem message_timeout (ms : Nat) : (DownstreamError.timeout (ms * 1000000)).message =
    "downstream call timed out after " ++ toString ms ++ "ms" := by
  have hms : ms * 1000000 / 1000000 = ms := Nat.mul_div_cancel ms (by omega)
  unfold DownstreamError.message
  simp only [hms]

/-! ## Calls over a connection -/

namespace RecordClient

open RemoteService

/-- An answer survives being sent. -/
theorem answerOf_replyOf {a : Answer} (h : Carries a) : answerOf (replyOf a) = a := by
  match a, h with
  | .ok r, h =>
    simp only [replyOf, answerOf, Record.decode?_encode (countable_of_le_messageLimit h)]
  | .error (.rpc code m), h =>
    simp only [replyOf]
    unfold answerOf
    split
    · rename_i heq
      cases heq
    · rename_i heq
      cases heq
      exact absurd rfl h
    · rename_i heq
      cases heq
      rfl

/-- What a connected client is. -/
theorem eq_of_connect {c : Config.Downstream} {remote : RemoteService} {client : RecordClient}
    (h : connect c (.serving remote) = .ok client) :
    client = ⟨.serving remote, c.requestTimeoutMs⟩ := by
  unfold connect at h
  split at h
  · cases h
  · exact (Except.ok.inj h).symm

/-- The service sees the fetch that is made. -/
theorem ofDelayed_encode (s : Service) (delay : Fetch → Nat) {f : Fetch}
    (hf : (FetchMessage.ofFetch f).encode.length ≤ messageLimit) :
    ofDelayed s delay (FetchMessage.ofFetch f).encode =
      (s f).map fun a => (replyOf a, delay f) := by
  simp only [ofDelayed, FetchMessage.decode?_encode_ofFetch (countable_of_le_messageLimit hf)]
  rfl

section
variable {s : Service} {delay : Fetch → Nat} {timeoutMs : UInt64} {f : Fetch}

/-- A fetch over a connection brings what the service answers in time. -/
theorem fetch_of_answer (hf : (FetchMessage.ofFetch f).encode.length ≤ messageLimit) {a : Answer}
    (ha : s f = some a) (hc : Carries a) (hd : delay f ≤ timeoutMs.toNat * 1000000) :
    fetch ⟨.serving (ofDelayed s delay), timeoutMs⟩ f = a := by
  have hcall : call ⟨.serving (ofDelayed s delay), timeoutMs⟩ f = ⟨a, some (delay f)⟩ := by
    simp only [call, ofDelayed_encode s delay hf, ha, Option.map_some, answerOf_replyOf hc]
  rw [fetch, hcall]
  exact TimedCall.within_eq_result rfl hd

/-- A fetch over a connection fails if the service does not answer in time. -/
theorem fetch_of_late (hf : (FetchMessage.ofFetch f).encode.length ≤ messageLimit)
    (h : s f = none ∨ timeoutMs.toNat * 1000000 < delay f) :
    fetch ⟨.serving (ofDelayed s delay), timeoutMs⟩ f =
      .error (.timeout (timeoutMs.toNat * 1000000)) := by
  refine TimedCall.within_eq_timeout fun d hd => ?_
  simp only [call, ofDelayed_encode s delay hf] at hd
  rcases h with h | h
  · simp [h] at hd
  · cases ha : s f with
    | none => simp [ha] at hd
    | some a =>
      simp only [ha, Option.map_some, Option.some.injEq] at hd
      exact hd ▸ h

/-- Fetches arrive as they are made. -/
theorem arrivals_eq {fs : List Fetch}
    (h : ∀ f ∈ fs, (FetchMessage.ofFetch f).encode.length ≤ messageLimit) {remote : RemoteService} :
    arrivals ⟨.serving remote, timeoutMs⟩ fs = fs := by
  have hread : ∀ f ∈ fs, (FetchMessage.decode? (FetchMessage.ofFetch f).encode).map
      FetchMessage.toFetch = some f := fun f hf => by
    rw [FetchMessage.decode?_encode_ofFetch (countable_of_le_messageLimit (h f hf))]
    rfl
  exact (List.filterMap_congr hread).trans List.filterMap_some

end

end RecordClient

/-! ## Requests over a connection -/

/-- A request is planned without its source. -/
theorem Registry.exists_carryOut (r : Registry) (q : Request) :
    ∃ p, ∀ source, r.execute source q = carryOut source p := by
  cases hd : GraphQL.Document.read r.schema q.query with
  | error e =>
    refine ⟨.error (.validation e.messages), fun source => ?_⟩
    rw [Registry.execute, hd]
  | ok d =>
    refine ⟨planDocument r.root d q.operationName q.variableValues, fun source => ?_⟩
    rw [Registry.execute, hd]
    rfl

/-- A request over a connection is answered as by the service itself, which sees at most one fetch
and just the one that is made. If the service is late, the answer is that. -/
theorem execute_over_connection {c : Config.Downstream} {client : RecordClient} {s : Service}
    {delay : Fetch → Nat}
    (hclient : RecordClient.connect c (.serving (.ofDelayed s delay)) = .ok client)
    (r : Registry) (q : Request) (source : DataSource)
    (hfits : ∀ f ∈ (r.execute source q).calls,
      (FetchMessage.ofFetch f).encode.length ≤ messageLimit) :
    ((∀ f ∈ (r.execute source q).calls, s f = some (source f) ∧ Carries (source f) ∧
        delay f ≤ c.requestTimeoutMs.toNat * 1000000) →
      r.execute client.fetch q = r.execute source q) ∧
    (∀ f ∈ (r.execute source q).calls,
      s f = none ∨ c.requestTimeoutMs.toNat * 1000000 < delay f →
        (r.execute client.fetch q).envelope = ⟨none,
          ["downstream call timed out after " ++ toString c.requestTimeoutMs.toNat ++ "ms"]⟩) ∧
    (r.execute source q).calls.length ≤ 1 ∧
    client.arrivals (r.execute client.fetch q).calls = (r.execute source q).calls := by
  obtain ⟨p, hp⟩ := r.exists_carryOut q
  cases RecordClient.eq_of_connect hclient
  simp only [hp] at hfits ⊢
  match p, hfits with
  | .error e, _ => simp [carryOut, RecordClient.arrivals]
  | .ok none, _ => simp [carryOut, RecordClient.arrivals]
  | .ok (some f), hfits =>
    have hf := hfits f (List.mem_singleton_self _)
    refine ⟨fun h => ?_, fun f' hf' h => ?_, Nat.le_refl _, RecordClient.arrivals_eq hfits⟩
    · obtain ⟨ha, hc, hd⟩ := h f (List.mem_singleton_self _)
      simp only [carryOut, RecordClient.fetch_of_answer hf ha hc hd]
    · cases List.mem_singleton.1 hf'
      simp only [carryOut, RecordClient.fetch_of_late hf h, Envelope.ofAnswer, message_timeout]
      rfl

/-- A query for the name of the record with an id. -/
def nameOf (id : String) : Request where
  query := "query($id: String) \x7b getData(id: $id) \x7b name \x7d \x7d"
  variableValues := [("id", .string id)]

/-- A service that has one record only. -/
def singleRecord : DataSource := fun f =>
  if f.id = "1" then .ok ⟨"1", "Widget", ""⟩ else .error (.rpc .notFound "no record")

/-- The delay of a service that is late for one id. -/
def lateForThird (f : Fetch) : Nat := if f.id = "3" then 10000000001 else 10000000000

theorem calls_nameOf {reg : Registry} (hc : reg.Compiled dataEntity getData) {id : String}
    (h : id ∈ ["1", "2", "3"]) :
    (reg.execute singleRecord (nameOf id)).calls = [⟨id, ["name"]⟩] := by
  rw [execute_eq hc]
  simp only [List.mem_cons, List.not_mem_nil, or_false] at h
  rcases h with rfl | rfl | rfl <;> decide +kernel

theorem execute_over_connection_singleRecord : ∃ reg client,
    Registry.ofDescriptors dataEntity getData = .ok reg ∧
      RecordClient.connect {} (.serving (.ofDelayed (some ∘ singleRecord) lateForThird)) =
        .ok client ∧
      (reg.execute client.fetch (nameOf "1")).envelope = ⟨some ⟨"1", "Widget", ""⟩, []⟩ ∧
      (reg.execute client.fetch (nameOf "2")).envelope =
        ⟨none, ["rpc error: code = NotFound desc = no record"]⟩ ∧
      (reg.execute client.fetch (nameOf "3")).envelope =
        ⟨none, ["downstream call timed out after 10000ms"]⟩ ∧
      client.arrivals (reg.execute client.fetch (nameOf "3")).calls = [⟨"3", ["name"]⟩] := by
  obtain ⟨reg, hreg⟩ := Registry.exists_builtin
  have hc := Registry.compiled_of_ofDescriptors Registry.plainNames_builtin hreg
  have hclient : RecordClient.connect {}
      (.serving (.ofDelayed (some ∘ singleRecord) lateForThird)) = .ok ⟨_, _⟩ := rfl
  have fits (id : String) (h : id ∈ ["1", "2", "3"]) :
      ∀ f ∈ (reg.execute singleRecord (nameOf id)).calls,
        (FetchMessage.ofFetch f).encode.length ≤ messageLimit := by
    rw [calls_nameOf hc h]
    simp only [List.mem_cons, List.not_mem_nil, or_false] at h
    rcases h with rfl | rfl | rfl <;> decide +kernel
  obtain ⟨same₁, -⟩ :=
    execute_over_connection hclient reg _ singleRecord (fits "1" (by decide))
  obtain ⟨same₂, -⟩ :=
    execute_over_connection hclient reg _ singleRecord (fits "2" (by decide))
  obtain ⟨-, late₃, -, arrives₃⟩ :=
    execute_over_connection hclient reg _ singleRecord (fits "3" (by decide))
  rw [calls_nameOf hc (by decide)] at same₁ same₂ late₃ arrives₃
  refine ⟨reg, _, hreg, hclient, ?_, ?_, ?_, arrives₃⟩
  · rw [same₁ (by decide +kernel), execute_eq hc]
    decide +kernel
  · rw [same₂ (by decide +kernel), execute_eq hc]
    decide +kernel
  · exact late₃ _ (List.mem_singleton_self _) (.inr (by decide))

end RecordGateway
