import RecordGateway.Config.Problems
import RecordGateway.Toml.Parser

/-! # Loading configurations

A configuration is a TOML document with a table for each section. All sections and settings may be
left out, and names that are not known do not matter; a setting of the wrong type is an error. A
section may also be an array of its settings in order, and a date stands for a section without
settings.
-/

namespace RecordGateway

/-- Why a configuration file cannot be read as a text. -/
inductive FileFault where
  | notFound
  | isDirectory
  /-- The bytes are not Unicode. -/
  | invalidData
  deriving Repr, DecidableEq

inductive ConfigError where
  | io (fault : FileFault)
  | malformed
  | unsound (problems : List ConfigProblem)
  deriving Repr, DecidableEq

namespace Config

/-! ## Settings of a section -/

/-- The settings of a section, by name or in order. -/
inductive Settings where
  | named (entries : List (String × Toml))
  | ordered (items : List Toml)

def Settings.ofToml? : Toml → Option Settings
  | .table es => some (.named es)
  | .array vs => some (.ordered vs)
  | .datetime _ => some (.named [])
  | _ => none

/-- The setting with a name, which comes at a fixed place in the order. -/
def Settings.get? (s : Settings) (place : Nat) (name : String) : Option Toml :=
  match s with
  | .named es => es.lookup name
  | .ordered vs => vs[place]?

/-- Reads a setting, or gives its default if it is left out. -/
def Settings.read (s : Settings) (place : Nat) (name : String) (reader : Toml → Option α)
    (default : α) : Option α :=
  match s.get? place name with
  | some v => reader v
  | none => some default

/-! ## Kinds of settings -/

def text? : Toml → Option String
  | .string s => some s
  | _ => none

def flag? : Toml → Option Bool
  | .boolean b => some b
  | _ => none

def count? : Toml → Option UInt64
  | .integer n => if 0 ≤ n then some (UInt64.ofNat n.toNat) else none
  | _ => none

def LogFormat.ofName? : String → Option LogFormat
  | "pretty" => some .pretty
  | "json" => some .json
  | _ => none

/-- A format by its name, or as a table with nothing under that name. -/
def logFormat? : Toml → Option LogFormat
  | .string s => LogFormat.ofName? s
  | .table [(name, .table [])] => LogFormat.ofName? name
  | .table [(name, .array [])] => LogFormat.ofName? name
  | _ => none

/-! ## Sections -/

def listener? (s : Settings) : Option Listener := do
  let d : Listener := {}
  return { bindAddress := ← s.read 0 "bind_address" text? d.bindAddress }

def graphql? (s : Settings) : Option Graphql := do
  let d : Graphql := {}
  return {
    path := ← s.read 0 "path" text? d.path
    queryParam := ← s.read 1 "query_param" text? d.queryParam
    bodyField := ← s.read 2 "body_field" text? d.bodyField }

def downstream? (s : Settings) : Option Downstream := do
  let d : Downstream := {}
  return {
    endpoint := ← s.read 0 "endpoint" text? d.endpoint
    lazyConnect := ← s.read 1 "lazy_connect" flag? d.lazyConnect
    connectTimeoutMs := ← s.read 2 "connect_timeout_ms" count? d.connectTimeoutMs
    requestTimeoutMs := ← s.read 3 "request_timeout_ms" count? d.requestTimeoutMs }

def timeouts? (s : Settings) : Option Timeouts := do
  let d : Timeouts := {}
  return { requestSecs := ← s.read 0 "request_secs" count? d.requestSecs }

def limits? (s : Settings) : Option Limits := do
  let d : Limits := {}
  return { maxBodySize := ← s.read 0 "max_body_size" count? d.maxBodySize }

def observability? (s : Settings) : Option Observability := do
  let d : Observability := {}
  return {
    logLevel := ← s.read 0 "log_level" text? d.logLevel
    logFormat := ← s.read 1 "log_format" logFormat? d.logFormat
    metricsEnabled := ← s.read 2 "metrics_enabled" flag? d.metricsEnabled
    metricsAddress := ← s.read 3 "metrics_address" text? d.metricsAddress }

/-- The section with a name, or its default if it is left out. -/
def section? (entries : List (String × Toml)) (name : String) (reader : Settings → Option α)
    (default : α) : Option α :=
  match entries.lookup name with
  | some v => (Settings.ofToml? v).bind reader
  | none => some default

/-- The configuration of the entries of a document. -/
def ofEntries? (es : List (String × Toml)) : Option Config := do
  return {
    listener := ← section? es "listener" listener? {}
    graphql := ← section? es "graphql" graphql? {}
    downstream := ← section? es "downstream" downstream? {}
    timeouts := ← section? es "timeouts" timeouts? {}
    limits := ← section? es "limits" limits? {}
    observability := ← section? es "observability" observability? {} }

/-! ## Files -/

/-- A configuration without problems. -/
def accept (c : Config) : Except ConfigError Config :=
  if c.isSound then .ok c else .error (.unsound c.problems)

/-- The configuration that a document writes. -/
def ofText (text : String) : Except ConfigError Config :=
  match (Toml.parse? text).bind ofEntries? with
  | some c => accept c
  | none => .error .malformed

/-- What is found under the path of a configuration file. -/
inductive File where
  | bytes (content : List UInt8)
  | missing
  | directory

/-- The configuration in a file. -/
def load : File → Except ConfigError Config
  | .missing => .error (.io .notFound)
  | .directory => .error (.io .isDirectory)
  | .bytes content =>
    match String.fromUTF8? ⟨content.toArray⟩ with
    | some text => ofText text
    | none => .error (.io .invalidData)

/-- The configuration in a file, or the default one if no file is given. -/
def resolve : Option File → Except ConfigError Config
  | some f => load f
  | none => accept {}

end Config

/-- The wording of a configuration error; of the first two kinds only the beginning. -/
def ConfigError.message : ConfigError → String
  | .io _ => "IO error"
  | .malformed => "Parse error"
  | .unsound ps => "Validation failed: " ++ ", ".intercalate (ps.map (·.message))

end RecordGateway
