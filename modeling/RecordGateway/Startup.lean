import RecordGateway.Config.Problems
import RecordGateway.Downstream.Client
import RecordGateway.Gateway

/-! # Starting a gateway

A gateway offers its metrics, connects to the record service, compiles its schema and binds its
address, in this order; the first of the last three steps that fails is told and ends the start.
-/

namespace RecordGateway

/-- Why an address cannot be bound. -/
inductive BindFault where
  /-- The address has no port. -/
  | noPort
  | invalidPort
  | unknownHost
  deriving Repr, DecidableEq

def BindFault.message : BindFault → String
  | .noPort => "invalid socket address"
  | .invalidPort => "invalid port value"
  | .unknownHost =>
    "failed to lookup address information: Temporary failure in name resolution"

inductive StartupError where
  | downstream (e : DownstreamError)
  | schema (e : RegistryError)
  | bind (address : String) (fault : BindFault)
  /-- The path cannot be served. -/
  | route (path : String)

def StartupError.message : StartupError → String
  | .downstream e => "Failed to connect to downstream: " ++ e.message
  | .schema e => "Failed to create GraphQL schema: " ++ e.message
  | .bind a f => "Failed to bind " ++ a ++ ": " ++ f.message
  | .route p => "Invalid route " ++ p

/-- Where the metrics of a gateway are offered. -/
inductive MetricsOffer where
  | off
  | served (address : SocketAddress)
  /-- The address cannot be read. The gateway starts all the same. -/
  | misaddressed (address : String)
  deriving Repr, DecidableEq

namespace Startup

/-- Where the metrics are offered if they are wanted. -/
def metricsOffer (c : Config.Observability) : MetricsOffer :=
  if c.metricsEnabled then
    match SocketAddress.parse? c.metricsAddress with
    | some a => .served a
    | none => .misaddressed c.metricsAddress
  else .off

/-- The address of a host that is known without asking anyone. -/
def hostAddress? (host : List Char) : Option IpAddress :=
  if String.ofList host = "localhost" then some (.v4 [127, 0, 0, 1])
  else (IpAddress.bytes? host).map .v4

/-- A port, perhaps with a plus sign. -/
def hostPort? (ds : List Char) : Option Nat :=
  SocketAddress.port? (match ds with
    | '+' :: ds => ds
    | ds => ds)

/-- The socket address of a text, which may also name a host. -/
def bind (address : String) : Except BindFault SocketAddress :=
  match SocketAddress.parse? address with
  | some a => .ok a
  | none =>
    match SocketAddress.cutAtLast? ':' address.toList with
    | none => .error .noPort
    | some (host, ds) =>
      match hostPort? ds, hostAddress? host with
      | none, _ => .error .invalidPort
      | some _, none => .error .unknownHost
      | some port, some ip => .ok { ip, port }

/-- A gateway and the address that it is bound to. -/
structure Running where
  gateway : Gateway
  address : SocketAddress

/-- Binds a gateway that answers from a source. -/
def withSource (c : Config) (source : DataSource) (metered : Bool) : Except StartupError Running :=
  match Registry.builtin with
  | .error e => .error (.schema e)
  | .ok registry =>
    match bind c.listener.bindAddress with
    | .error f => .error (.bind c.listener.bindAddress f)
    | .ok address =>
      match Gateway.build? c registry source metered with
      | none => .error (.route c.graphql.path)
      | some gateway => .ok ⟨gateway, address⟩

/-- Starts a gateway in front of what stands at the configured endpoint. -/
def start (c : Config) (peer : Peer) : Except StartupError Running :=
  match RecordClient.connect c.downstream peer with
  | .error e => .error (.downstream e)
  | .ok client => withSource c client.fetch true

end Startup

end RecordGateway
