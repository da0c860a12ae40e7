/-! # Configuration

The settings of a gateway, by section. The defaults serve `/graphql` on the port 8080 and ask a
record service on the same machine.
-/

namespace RecordGateway

namespace Config

/-- Where the gateway listens. -/
structure Listener where
  bindAddress : String := "0.0.0.0:8080"
  deriving Repr, DecidableEq

/-- Where queries are accepted, and how the query text is called. -/
structure Graphql where
  path : String := "/graphql"
  /-- The URL parameter with the query text. -/
  queryParam : String := "query"
  /-- The member of a JSON body with the query text. -/
  bodyField : String := "query"
  deriving Repr, DecidableEq

/-- The record service. -/
structure Downstream where
  endpoint : String := "http://localhost:50051"
  /-- Connect at the first call and not at the start. -/
  lazyConnect : Bool := true
  connectTimeoutMs : UInt64 := 5000
  requestTimeoutMs : UInt64 := 10000
  deriving Repr, DecidableEq

structure Timeouts where
  requestSecs : UInt64 := 30
  deriving Repr, DecidableEq

structure Limits where
  /-- The largest body, in bytes. -/
  maxBodySize : UInt64 := 2097152
  deriving Repr, DecidableEq

inductive LogFormat where
  | pretty
  | json
  deriving Repr, DecidableEq

structure Observability where
  logLevel : String := "info"
  logFormat : LogFormat := .pretty
  metricsEnabled : Bool := false
  metricsAddress : String := "0.0.0.0:9090"
  deriving Repr, DecidableEq

end Config

structure Config where
  listener : Config.Listener := {}
  graphql : Config.Graphql := {}
  downstream : Config.Downstream := {}
  timeouts : Config.Timeouts := {}
  limits : Config.Limits := {}
  observability : Config.Observability := {}
  deriving Repr, DecidableEq

end RecordGateway
