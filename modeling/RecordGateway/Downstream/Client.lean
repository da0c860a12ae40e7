import RecordGateway.Address.Uri
import RecordGateway.Config.Basic
import RecordGateway.Deadline
import RecordGateway.Downstream.Service
import RecordGateway.Wire.Message

/-! # The record service over the network

A `RemoteService` takes the bytes of a fetch and replies after some time with the bytes of a record
or with a status, or keeps silent. A `RecordClient` makes a `DataSource` of whatever stands at the
configured endpoint: it encodes the fetch, decodes the record, and gives up after its deadline.
-/

namespace RecordGateway

/-- What a remote service sends back. -/
inductive Reply where
  | message (bytes : List UInt8)
  | status (code : StatusCode) (message : String)
  deriving Repr

/-- What a remote service does with the bytes of a fetch: its reply, and the nanoseconds until it is
there; `none` is silence. -/
abbrev RemoteService := List UInt8 → Option (Reply × Nat)

/-- What stands at an endpoint. -/
inductive Peer where
  /-- No connection can be opened. -/
  | unreachable
  | serving (s : RemoteService)

namespace RemoteService

/-- The reply that carries an answer; a failure that is no status is told as an internal one. -/
def replyOf : Answer → Reply
  | .ok r => .message r.encode
  | .error (.rpc code m) => .status code m
  | .error e => .status .internal e.message

/-- Offers a service to remote clients, who wait so many nanoseconds for its answers. -/
def ofDelayed (s : Service) (delay : Fetch → Nat) : RemoteService := fun bs =>
  match FetchMessage.decode? bs with
  | some m => (s m.toFetch).map fun a => (replyOf a, delay m.toFetch)
  | none => some (.status .internal "failed to decode Protobuf message", 0)

/-- Offers a service that answers at once. -/
def ofService (s : Service) : RemoteService := ofDelayed s fun _ => 0

end RemoteService

structure RecordClient where
  peer : Peer
  timeoutMs : UInt64

namespace RecordClient

/-- Makes a client of what stands at the configured endpoint. The connection is opened at once
unless the client is lazy. -/
def connect (c : Config.Downstream) (peer : Peer) : Except DownstreamError RecordClient :=
  match Uri.parse? c.endpoint with
  | none => .error (.transport "invalid URI")
  | some _ =>
    match peer with
    | .unreachable =>
      if c.lazyConnect then .ok ⟨peer, c.requestTimeoutMs⟩
      else .error (.transport "transport error")
    | .serving _ => .ok ⟨peer, c.requestTimeoutMs⟩

/-- The answer that a reply carries. A status of success brings no record. -/
def answerOf : Reply → Answer
  | .message bs =>
    match Record.decode? bs with
    | some r => .ok r
    | none => .error (.rpc .internal "failed to decode Protobuf message")
  | .status .ok _ => .error (.rpc .internal "Missing response message.")
  | .status code m => .error (.rpc code m)

/-- The deadline of a call in nanoseconds. -/
def deadline (c : RecordClient) : Nat := c.timeoutMs.toNat * 1000000

/-- The call that a fetch makes. -/
def call (c : RecordClient) (f : Fetch) : TimedCall Record :=
  match c.peer with
  | .unreachable => ⟨.error (.rpc .unavailable "tcp connect error"), some 0⟩
  | .serving s =>
    match s (FetchMessage.ofFetch f).encode with
    | some (reply, delay) => ⟨answerOf reply, some delay⟩
    | none => ⟨.error (.timeout c.deadline), none⟩

def fetch (c : RecordClient) : DataSource := fun f => ((c.call f).within c.deadline).result

/-- Of some fetches those that arrive at the remote service, as it reads them. -/
def arrivals (c : RecordClient) (fs : List Fetch) : List Fetch :=
  match c.peer with
  | .unreachable => []
  | .serving _ =>
    fs.filterMap fun f =>
      (FetchMessage.decode? (FetchMessage.ofFetch f).encode).map FetchMessage.toFetch

end RecordClient

end RecordGateway
