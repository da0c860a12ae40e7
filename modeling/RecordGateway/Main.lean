import RecordGateway.Client.Run
import RecordGateway.Config.Load
import RecordGateway.Http.Stream
import RecordGateway.Startup

/-! # Command line

`--config FILE` starts a gateway, which answers the HTTP requests on its standard input; without a
file the default configuration holds. `client` followed by options sends one request to a gateway in
the same process. Neither has a network, so no record service can be reached.
-/

namespace RecordGateway

/-- The file that a command line of the gateway names, if any. -/
def configFile? : List String → Option (Option String)
  | [] => some none
  | ["--config", f] => some (some f)
  | ["-c", f] => some (some f)
  | [w] =>
    let option := "--config=".toList
    if option.isPrefixOf w.toList then some (some (String.ofList (w.toList.drop option.length)))
    else none
  | _ => none

/-- Looks up a configuration file. -/
def readConfigFile (path : String) : IO Config.File := do
  match ← (IO.FS.readBinFile path).toBaseIO with
  | .ok content => return .bytes content.toList
  | .error (.noFileOrDirectory ..) => return .missing
  | .error _ => return .directory

partial def readToEnd (input : IO.FS.Stream) (read : ByteArray) : IO ByteArray := do
  let more ← input.read 65536
  if more.isEmpty then return read else readToEnd input (read ++ more)

/-- Answers the requests on the standard input. -/
def answerAll (g : Gateway) : IO Unit := do
  let bs ← readToEnd (← IO.getStdin) .empty
  let output ← IO.getStdout
  for q in HttpRequest.readAll bs.size bs.toList do
    let fresh := uuidOfBits (← IO.rand 0 (Nat.pow 2 128 - 1))
    output.putStr ((g.handle q).response.render fresh)
    output.flush

def runGateway (file : Option String) : IO UInt32 := do
  match Config.resolve (← file.mapM readConfigFile) with
  | .error e =>
    IO.eprintln e.message
    return 1
  | .ok config =>
    if let .misaddressed _ := Startup.metricsOffer config.observability then
      IO.eprintln "Failed to parse metrics address"
    match Startup.start config .unreachable with
    | .error e =>
      IO.eprintln e.message
      return 1
    | .ok running =>
      answerAll running.gateway
      return 0

/-- The reply of a gateway in the same process. -/
def replyOf (g : Gateway) (m : ClientMessage) : ClientReply :=
  let q : HttpRequest := { method := m.method, target := m.target, body := m.body.toUTF8.toList }
  let r := (g.handle q).response
  ⟨r.status, r.body.toUTF8.toList⟩

def runClientHere (args : List String) : IO UInt32 := do
  match Startup.start {} .unreachable with
  | .error e =>
    IO.eprintln e.message
    return 1
  | .ok running =>
    let o := runClient args .up (replyOf running.gateway)
    IO.print o.stdout
    IO.eprint o.stderr
    return UInt32.ofNat o.exitCode

end RecordGateway

def main (args : List String) : IO UInt32 :=
  match args with
  | "client" :: args => RecordGateway.runClientHere args
  | args =>
    match RecordGateway.configFile? args with
    | some file => RecordGateway.runGateway file
    | none => return 2
