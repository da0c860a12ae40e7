import Mathlib.Algebra.Group.Nat.Defs
import Mathlib.Data.List.Nodup
import RecordGateway.Config.Load
import RecordGateway.Startup

/-! # Configurations that may start

Eleven rules hold of a configuration that makes sense. `Config.problems` names each rule that is
broken, once and in the order of the rules, whatever else is broken (`Config.problems_eq`). A
configuration without problems is `Proper`, with the deadlines compared as whole numbers, and a
proper one has no problem but for one number: a deadline of `2 ^ 64 - 1` milliseconds is never
below the milliseconds that 64 bits hold (`Config.accept_eq_ok_iff`). What starts with a proper
configuration reads the same texts again and does not fail on them.
-/

namespace RecordGateway

namespace Config

/-! ## Rules -/

/-- What is asked of a configuration. -/
inductive Rule where
  | bindAddress
  | path
  | queryParam
  | bodyField
  | endpoint
  | connectTimeout
  | requestTimeout
  | requestSecs
  | timeoutOrder
  | maxBodySize
  | metricsAddress
  deriving Repr, DecidableEq

namespace Rule

/-- The rules in the order in which their problems are told. -/
def all : List Rule :=
  [bindAddress, path, queryParam, bodyField, endpoint, connectTimeout, requestTimeout, requestSecs,
    timeoutOrder, maxBodySize, metricsAddress]

theorem mem_all (r : Rule) : r ∈ all := by cases r <;> decide

theorem nodup_all : all.Nodup := by decide

/-- Whether a configuration breaks a rule. Deadlines are compared only if none of them is zero, and
the largest deadline of a call is in order with none of a request. -/
def Broken (c : Config) : Rule → Prop
  | bindAddress => ∀ a, SocketAddress.parse? c.listener.bindAddress ≠ some a
  | path => ∀ rest, c.graphql.path ≠ "/" ++ rest
  | queryParam => c.graphql.queryParam = ""
  | bodyField => c.graphql.bodyField = ""
  | endpoint =>
    ∀ u, Uri.parse? c.downstream.endpoint = some u → u.scheme ≠ "http" ∧ u.scheme ≠ "https"
  | connectTimeout => c.downstream.connectTimeoutMs.toNat = 0
  | requestTimeout => c.downstream.requestTimeoutMs.toNat = 0
  | requestSecs => c.timeouts.requestSecs.toNat = 0
  | timeoutOrder =>
    0 < c.downstream.requestTimeoutMs.toNat ∧ 0 < c.timeouts.requestSecs.toNat ∧
      (1000 * c.timeouts.requestSecs.toNat ≤ c.downstream.requestTimeoutMs.toNat ∨
        c.downstream.requestTimeoutMs.toNat = 2 ^ 64 - 1)
  | maxBodySize => c.limits.maxBodySize.toNat = 0
  | metricsAddress =>
    c.observability.metricsEnabled = true ∧
      ∀ a, SocketAddress.parse? c.observability.metricsAddress ≠ some a

/-- The problem of a configuration that breaks a rule. -/
def problem (c : Config) : Rule → ConfigProblem
  | bindAddress => .invalidAddress "listener.bind_address" c.listener.bindAddress
  | path => .invalidPath c.graphql.path
  | queryParam => .empty "graphql.query_param"
  | bodyField => .empty "graphql.body_field"
  | endpoint => .invalidEndpoint c.downstream.endpoint
  | connectTimeout => .zero "downstream.connect_timeout_ms"
  | requestTimeout => .zero "downstream.request_timeout_ms"
  | requestSecs => .zero "timeouts.request_secs"
  | timeoutOrder => .timeoutOrder c.downstream.requestTimeoutMs c.timeouts.requestSecs
  | maxBodySize => .zero "limits.max_body_size"
  | metricsAddress => .invalidAddress "observability.metrics_address" c.observability.metricsAddress

/-- The check of a rule. -/
def holds (c : Config) : Rule → Bool
  | bindAddress => isSocketAddress c.listener.bindAddress
  | path => isRooted c.graphql.path
  | queryParam => c.graphql.queryParam != ""
  | bodyField => c.graphql.bodyField != ""
  | endpoint => isEndpoint c.downstream.endpoint
  | connectTimeout => c.downstream.connectTimeoutMs != 0
  | requestTimeout => c.downstream.requestTimeoutMs != 0
  | requestSecs => c.timeouts.requestSecs != 0
  | timeoutOrder => c.deadlinesInOrder
  | maxBodySize => c.limits.maxBodySize != 0
  | metricsAddress =>
    !c.observability.metricsEnabled || isSocketAddress c.observability.metricsAddress

/-- No two rules share a problem. -/
theorem problem_injective (c : Config) : Function.Injective (problem c) := by
  intro r r' h
  cases r <;> cases r' <;> simp [problem] at h ⊢

end Rule

theorem problems_eq_flatMap (c : Config) :
    c.problems = Rule.all.flatMap fun r => unlessHolds (r.holds c) (r.problem c) := by
  simp only [problems, Rule.all, List.flatMap_cons, List.flatMap_nil, List.append_nil,
    List.append_assoc, Rule.holds, Rule.problem]

/-! ## What the checks say -/

theorem isSocketAddress_iff (v : String) :
    isSocketAddress v = true ↔ ∃ a, SocketAddress.parse? v = some a :=
  Option.isSome_iff_exists

theorem isRooted_iff (v : String) : isRooted v = true ↔ ∃ rest, v = "/" ++ rest := by
  simp only [isRooted, beq_iff_eq]
  constructor
  · intro h
    obtain ⟨cs, hcs⟩ := List.head?_eq_some_iff.1 h
    exact ⟨String.ofList cs, String.ext_iff.2 (by simpa using hcs)⟩
  · rintro ⟨rest, rfl⟩
    simp

theorem isEndpoint_iff (v : String) :
    isEndpoint v = true ↔
      ∃ u, Uri.parse? v = some u ∧ (u.scheme = "http" ∨ u.scheme = "https") := by
  simp only [isEndpoint, Option.any_eq_true, Uri.isWeb, Bool.or_eq_true, beq_iff_eq]

/-- Seconds that overflow 64 bits count as the most milliseconds there are, which is more than any
deadline of a call but the largest. -/
theorem lt_secondsInMs_iff (ms secs : UInt64) :
    ms.toNat < secondsInMs secs ↔ ms.toNat < 1000 * secs.toNat ∧ ms.toNat ≠ 2 ^ 64 - 1 := by
  have hms : ms.toNat < 2 ^ 64 := ms.toNat_lt
  have hsize : UInt64.size = 2 ^ 64 := rfl
  simp only [secondsInMs, hsize, Nat.lt_min]
  omega

theorem deadlinesInOrder_iff (c : Config) :
    c.deadlinesInOrder = true ↔ ¬ Rule.timeoutOrder.Broken c := by
  simp only [deadlinesInOrder, Bool.or_eq_true, beq_iff_eq, decide_eq_true_eq, lt_secondsInMs_iff,
    Rule.Broken, ← UInt64.toNat_inj, UInt64.toNat_zero]
  omega

/-- A rule holds exactly if it is not broken. -/
theorem Rule.holds_iff (c : Config) (r : Rule) : r.holds c = true ↔ ¬ r.Broken c := by
  cases r with
  | bindAddress => simp [holds, Broken, isSocketAddress_iff]
  | path => simp [holds, Broken, isRooted_iff]
  | queryParam => simp [holds, Broken]
  | bodyField => simp [holds, Broken]
  | endpoint =>
    simp only [holds, Broken, isEndpoint_iff]
    grind
  | connectTimeout => simp [holds, Broken, ← UInt64.toNat_inj]
  | requestTimeout => simp [holds, Broken, ← UInt64.toNat_inj]
  | requestSecs => simp [holds, Broken, ← UInt64.toNat_inj]
  | timeoutOrder => exact deadlinesInOrder_iff c
  | maxBodySize => simp [holds, Broken, ← UInt64.toNat_inj]
  | metricsAddress =>
    simp only [holds, Broken, Bool.or_eq_true, Bool.not_eq_true', isSocketAddress_iff]
    grind

instance (c : Config) (r : Rule) : Decidable (r.Broken c) :=
  decidable_of_iff (¬ r.holds c = true) (by rw [r.holds_iff c, not_not])

/-- The problems of a configuration are those of its broken rules, in the order of the rules. -/
theorem problems_eq (c : Config) :
    c.problems = (Rule.all.filter fun r => r.Broken c).map (Rule.problem c) := by
  rw [problems_eq_flatMap]
  induction Rule.all with
  | nil => rfl
  | cons r rs ih =>
    rw [List.flatMap_cons, ih]
    by_cases h : r.Broken c
    · have : r.holds c = false := by simpa using mt (r.holds_iff c).1 (not_not.2 h)
      simp [unlessHolds, this, h]
    · simp [unlessHolds, (r.holds_iff c).2 h, h]

theorem mem_problems_iff (c : Config) (p : ConfigProblem) :
    p ∈ c.problems ↔ ∃ r : Rule, r.Broken c ∧ r.problem c = p := by
  simp [problems_eq, Rule.mem_all]

theorem nodup_problems (c : Config) : c.problems.Nodup := by
  rw [problems_eq]
  exact List.Nodup.map (Rule.problem_injective c) (Rule.nodup_all.filter _)

theorem problems_eq_nil_iff (c : Config) : c.problems = [] ↔ ∀ r : Rule, ¬ r.Broken c := by
  simp [problems_eq, List.filter_eq_nil_iff, Rule.mem_all]

/-! ## Proper configurations -/

/-- What holds of a configuration that makes sense. -/
structure Proper (c : Config) : Prop where
  callDeadline : 0 < c.downstream.requestTimeoutMs.toNat
  /-- A call ends before the request that makes it. -/
  deadlines : c.downstream.requestTimeoutMs.toNat < 1000 * c.timeouts.requestSecs.toNat
  connectTimeout : 0 < c.downstream.connectTimeoutMs.toNat
  maxBodySize : 0 < c.limits.maxBodySize.toNat
  path : ∃ rest, c.graphql.path = "/" ++ rest
  queryParam : c.graphql.queryParam ≠ ""
  bodyField : c.graphql.bodyField ≠ ""
  bindAddress : ∃ a, SocketAddress.parse? c.listener.bindAddress = some a
  endpoint :
    ∃ u, Uri.parse? c.downstream.endpoint = some u ∧ (u.scheme = "http" ∨ u.scheme = "https")
  metricsAddress : c.observability.metricsEnabled = true →
    ∃ a, SocketAddress.parse? c.observability.metricsAddress = some a

/-- A configuration breaks no rule exactly if it is proper and its deadline of a call is not the
largest number of 64 bits. -/
theorem problems_eq_nil_iff_proper (c : Config) :
    c.problems = [] ↔ c.Proper ∧ c.downstream.requestTimeoutMs.toNat ≠ 2 ^ 64 - 1 := by
  rw [problems_eq_nil_iff]
  constructor
  · intro h
    have hms := h .requestTimeout
    have hsecs := h .requestSecs
    have horder := h .timeoutOrder
    have hconnect := h .connectTimeout
    have hbody := h .maxBodySize
    simp only [Rule.Broken] at hms hsecs horder hconnect hbody
    refine ⟨⟨by omega, by omega, by omega, by omega, ?_, h .queryParam, h .bodyField, ?_, ?_, ?_⟩,
      by omega⟩
    · simpa [Rule.Broken] using h .path
    · simpa [Rule.Broken] using h .bindAddress
    · have := h .endpoint
      simp only [Rule.Broken] at this
      grind
    · have := h .metricsAddress
      simp only [Rule.Broken] at this
      grind
  · rintro ⟨h, hmost⟩ r hr
    cases r with
    | bindAddress => exact h.bindAddress.elim hr
    | path => exact h.path.elim hr
    | queryParam => exact h.queryParam hr
    | bodyField => exact h.bodyField hr
    | endpoint =>
      obtain ⟨u, hu, hscheme⟩ := h.endpoint
      exact hscheme.elim (hr u hu).1 (hr u hu).2
    | connectTimeout => exact Nat.ne_of_gt h.connectTimeout hr
    | requestTimeout => exact Nat.ne_of_gt h.callDeadline hr
    | requestSecs =>
      have := h.deadlines
      simp only [Rule.Broken] at hr
      omega
    | timeoutOrder =>
      have := h.deadlines
      simp only [Rule.Broken] at hr
      omega
    | maxBodySize => exact Nat.ne_of_gt h.maxBodySize hr
    | metricsAddress => exact (h.metricsAddress hr.1).elim hr.2

/-! ## Loading -/

theorem accept_eq_ok {c c' : Config} (h : accept c = .ok c') : c' = c ∧ c.problems = [] := by
  simp only [accept, isSound, List.isEmpty_iff] at h
  split at h
  · next hnil => exact ⟨(Except.ok.inj h).symm, hnil⟩
  · cases h

theorem accept_eq_ok_iff (c : Config) : accept c = .ok c ↔ c.problems = [] := by
  refine ⟨fun h => (accept_eq_ok h).2, fun h => ?_⟩
  simp [accept, isSound, h]

/-- A configuration that a text, a file or the lack of a file gives. -/
inductive Loaded (c : Config) : Prop
  | ofText (text : String) (h : Config.ofText text = .ok c)
  | load (file : File) (h : Config.load file = .ok c)
  | resolve (file : Option File) (h : Config.resolve file = .ok c)

theorem problems_of_ofText {text : String} {c : Config} (h : ofText text = .ok c) :
    c.problems = [] := by
  unfold ofText at h
  split at h
  · obtain ⟨rfl, hnil⟩ := accept_eq_ok h
    exact hnil
  · cases h

theorem problems_of_load {file : File} {c : Config} (h : load file = .ok c) : c.problems = [] := by
  cases file with
  | missing => cases h
  | directory => cases h
  | bytes content =>
    simp only [load] at h
    split at h
    · exact problems_of_ofText h
    · cases h

theorem Loaded.problems {c : Config} (h : Loaded c) : c.problems = [] := by
  cases h with
  | ofText text h => exact problems_of_ofText h
  | load file h => exact problems_of_load h
  | resolve file h =>
    cases file with
    | some file => exact problems_of_load h
    | none =>
      obtain ⟨rfl, hnil⟩ := accept_eq_ok h
      exact hnil

/-! ## Starting -/

variable {c : Config}

/-- With a proper configuration the endpoint is never the reason that there is no client: the
connection is tried, and fails only if nothing answers. -/
theorem Proper.connect (h : c.Proper) (peer : Peer) :
    RecordClient.connect c.downstream peer = .ok ⟨peer, c.downstream.requestTimeoutMs⟩ ∨
      peer = .unreachable ∧ c.downstream.lazyConnect = false := by
  obtain ⟨u, hu, -⟩ := h.endpoint
  cases peer with
  | unreachable => cases hlazy : c.downstream.lazyConnect <;> simp [RecordClient.connect, hu, hlazy]
  | serving s => simp [RecordClient.connect, hu]

/-- With a proper configuration the metrics are served if they are wanted. -/
theorem Proper.metricsOffer (h : c.Proper) :
    if c.observability.metricsEnabled then
      ∃ a, SocketAddress.parse? c.observability.metricsAddress = some a ∧
        Startup.metricsOffer c.observability = .served a
    else Startup.metricsOffer c.observability = .off := by
  cases hon : c.observability.metricsEnabled with
  | false => simp [Startup.metricsOffer, hon]
  | true =>
    obtain ⟨a, ha⟩ := h.metricsAddress hon
    simp [Startup.metricsOffer, hon, ha]

/-- The problems of a configuration are those of its broken rules, each once and in order. A loaded
configuration is proper, so that its endpoint makes a client and its metrics are served if they are
wanted; and a proper one is accepted unless a call may take `2 ^ 64 - 1` milliseconds. -/
theorem problems_exact_and_accept_iff_proper (c : Config) :
    c.problems = (Rule.all.filter fun r => r.Broken c).map (Rule.problem c) ∧
      (∀ p, p ∈ c.problems ↔ ∃ r : Rule, r.Broken c ∧ r.problem c = p) ∧ c.problems.Nodup ∧
      (c.Loaded → c.Proper ∧
        (∀ peer, RecordClient.connect c.downstream peer =
            .ok ⟨peer, c.downstream.requestTimeoutMs⟩ ∨
          peer = .unreachable ∧ c.downstream.lazyConnect = false) ∧
        if c.observability.metricsEnabled then
          ∃ a, SocketAddress.parse? c.observability.metricsAddress = some a ∧
            Startup.metricsOffer c.observability = .served a
        else Startup.metricsOffer c.observability = .off) ∧
      (accept c = .ok c ↔ c.Proper ∧ c.downstream.requestTimeoutMs.toNat ≠ 2 ^ 64 - 1) := by
  refine ⟨problems_eq c, mem_problems_iff c, nodup_problems c, fun hloaded => ?_, ?_⟩
  · have hproper := ((problems_eq_nil_iff_proper c).1 hloaded.problems).1
    exact ⟨hproper, hproper.connect, hproper.metricsOffer⟩
  · rw [accept_eq_ok_iff, problems_eq_nil_iff_proper]

/-- A configuration that changes the deadlines and wants metrics. -/
def metered : Config :=
  { downstream := { requestTimeoutMs := 29999 }
    observability := { metricsEnabled := true } }

theorem ofText_metered :
    ofText "downstream.request_timeout_ms = 29999\nobservability.metrics_enabled = true" =
      .ok metered := by
  decide +kernel

theorem problems_exact_and_accept_iff_proper_metered :
    metered.Loaded ∧ metered.Proper ∧ accept metered = .ok metered ∧
      Startup.metricsOffer metered.observability =
        .served { ip := .v4 [0, 0, 0, 0], port := 9090 } := by
  have hloaded : metered.Loaded := .ofText _ ofText_metered
  obtain ⟨-, -, -, hstart, haccept⟩ := problems_exact_and_accept_iff_proper metered
  obtain ⟨hproper, -, a, ha, hoffer⟩ := hstart hloaded
  have ha' : a = { ip := .v4 [0, 0, 0, 0], port := 9090 } :=
    Option.some.inj (ha.symm.trans (by decide +kernel))
  exact ⟨hloaded, hproper, haccept.2 ⟨hproper, by decide⟩, ha' ▸ hoffer⟩

/-- One problem does not hide another, and an address that nothing is offered at is not looked
at. -/
example :
    problems
      { listener := { bindAddress := "localhost:8080" }
        timeouts := { requestSecs := 10 }
        observability := { metricsAddress := "nowhere" } } =
      [.invalidAddress "listener.bind_address" "localhost:8080", .timeoutOrder 10000 10] := by
  decide +kernel

end Config

end RecordGateway
