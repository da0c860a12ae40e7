import RecordGateway.Client.Options
import RecordGateway.Gateway
import RecordGateway.Http.Phrase

/-! # Running the client

The client sends one request and reports the response: the value of a success, indented, or the
status and the text of anything else. It fails if its options are wrong, if the variables are no
object, if it cannot connect, or if a success brings no JSON.
-/

namespace RecordGateway

/-- How a run of the client ends. -/
structure ClientOutcome where
  exitCode : Nat
  stdout : String := ""
  stderr : String := ""
  /-- The message that was sent. -/
  sent : Option ClientMessage := none
  deriving Repr

/-- A response as the client sees it. -/
structure ClientReply where
  status : Nat
  body : List UInt8

namespace ClientOptions

def usageFailure : ClientOutcome := { exitCode := 2 }

def failure : ClientOutcome := { exitCode := 1 }

/-- The variables of the request; they must be an object. -/
def variablesObject? (o : ClientOptions) : Option Json.Object :=
  match o.variablesText with
  | none => some []
  | some text =>
    match Json.parse text with
    | .ok (.object vs) => some vs
    | _ => none

/-- The message that the options ask for. -/
def message? (o : ClientOptions) : Option ClientMessage := do
  let variableValues ← o.variablesObject?
  let u ← Uri.parse? o.url
  if u.isWeb then
    some (ClientMessage.ofRequest u o.transport
      { query := o.query, operationName := o.operationName, variableValues })
  else none

end ClientOptions

/-- Whether a status tells of a success. -/
def isSuccess (status : Nat) : Bool := 200 ≤ status && status < 300

/-- Reports a response. -/
def ClientReply.report (r : ClientReply) : ClientOutcome :=
  if isSuccess r.status then
    match Json.parseBytes r.body with
    | .ok v => { exitCode := 0, stdout := v.pretty ++ "\n" }
    | .error _ => ClientOptions.failure
  else
    { exitCode := 0
      stderr := "Error: gateway returned status " ++ toString r.status ++ " " ++
        reasonPhrase r.status ++ "\nResponse: " ++ Utf8.lossy r.body ++ "\n" }

/-- Runs the client against something that replies. -/
def runClient (args : List String) (link : Link) (reply : ClientMessage → ClientReply) :
    ClientOutcome :=
  match ClientOptions.parse? args with
  | none => ClientOptions.usageFailure
  | some o =>
    match o.message?, link with
    | some m, .up => { (reply m).report with sent := some m }
    | _, _ => ClientOptions.failure

end RecordGateway
