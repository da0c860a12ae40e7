import RecordGateway.Address.Socket
import RecordGateway.Address.Uri
import RecordGateway.Config.Basic

/-! # Problems of a configuration

A configuration that can be read may still not make sense. `Config.problems` lists all that is wrong
with one, in a fixed order; a gateway starts only if the list is empty.
-/

namespace RecordGateway

inductive ConfigProblem where
  | invalidAddress (setting value : String)
  | invalidPath (value : String)
  | empty (setting : String)
  | invalidEndpoint (value : String)
  | zero (setting : String)
  /-- The deadline of a call would not end before the deadline of the whole request. -/
  | timeoutOrder (callMs requestSecs : UInt64)
  deriving Repr, DecidableEq

def ConfigProblem.message : ConfigProblem → String
  | .invalidAddress s v => "invalid " ++ s ++ " '" ++ v ++ "': not a socket address"
  | .invalidPath v => "graphql.path '" ++ v ++ "' must start with '/'"
  | .empty s => s ++ " must not be empty"
  | .invalidEndpoint v =>
    "downstream.endpoint '" ++ v ++ "' must be an http:// or https:// URI"
  | .zero s => s ++ " must be greater than zero"
  | .timeoutOrder ms secs =>
    "downstream.request_timeout_ms (" ++ toString ms.toNat ++
      ") must be less than timeouts.request_secs (" ++ toString secs.toNat ++ "s)"

namespace Config

/-- The given problem, unless something holds. -/
def unlessHolds (holds : Bool) (p : ConfigProblem) : List ConfigProblem :=
  if holds then [] else [p]

def isSocketAddress (v : String) : Bool := (SocketAddress.parse? v).isSome

/-- Whether a text starts like a path. -/
def isRooted (v : String) : Bool := v.toList.head? == some '/'

def isEndpoint (v : String) : Bool := (Uri.parse? v).any Uri.isWeb

/-- Milliseconds of so many seconds, at most what 64 bits hold. -/
def secondsInMs (secs : UInt64) : Nat := min (secs.toNat * 1000) (UInt64.size - 1)

/-- Whether the deadline of a call ends before that of the whole request. A deadline of zero is a
problem of its own. -/
def deadlinesInOrder (c : Config) : Bool :=
  c.downstream.requestTimeoutMs == 0 || c.timeouts.requestSecs == 0 ||
    c.downstream.requestTimeoutMs.toNat < secondsInMs c.timeouts.requestSecs

/-- All that is wrong with a configuration. -/
def problems (c : Config) : List ConfigProblem :=
  unlessHolds (isSocketAddress c.listener.bindAddress)
      (.invalidAddress "listener.bind_address" c.listener.bindAddress) ++
    unlessHolds (isRooted c.graphql.path) (.invalidPath c.graphql.path) ++
    unlessHolds (c.graphql.queryParam != "") (.empty "graphql.query_param") ++
    unlessHolds (c.graphql.bodyField != "") (.empty "graphql.body_field") ++
    unlessHolds (isEndpoint c.downstream.endpoint) (.invalidEndpoint c.downstream.endpoint) ++
    unlessHolds (c.downstream.connectTimeoutMs != 0) (.zero "downstream.connect_timeout_ms") ++
    unlessHolds (c.downstream.requestTimeoutMs != 0) (.zero "downstream.request_timeout_ms") ++
    unlessHolds (c.timeouts.requestSecs != 0) (.zero "timeouts.request_secs") ++
    unlessHolds c.deadlinesInOrder
      (.timeoutOrder c.downstream.requestTimeoutMs c.timeouts.requestSecs) ++
    unlessHolds (c.limits.maxBodySize != 0) (.zero "limits.max_body_size") ++
    unlessHolds (!c.observability.metricsEnabled || isSocketAddress c.observability.metricsAddress)
      (.invalidAddress "observability.metrics_address" c.observability.metricsAddress)

/-- Whether a gateway may start with a configuration. -/
def isSound (c : Config) : Bool := c.problems.isEmpty

end Config

end RecordGateway
