import RecordGateway.Text.Digits

/-! # The log filter

The configured level is a name in any case, or its number. It applies to the gateway itself and to
its HTTP layer; of everything else only errors are logged, and of these two as well if the level is
none.
-/

namespace RecordGateway

inductive LogLevel where
  | off | error | warn | info | debug | trace
  deriving Repr, DecidableEq

namespace LogLevel

def name : LogLevel → String
  | off => "off"
  | error => "error"
  | warn => "warn"
  | info => "info"
  | debug => "debug"
  | trace => "trace"

/-- The levels by number, from the most silent on. -/
def all : List LogLevel := [off, error, warn, info, debug, trace]

/-- A number, perhaps with a plus sign. -/
def number? : List Char → Option Nat
  | '+' :: ds => decimal? ds
  | ds => decimal? ds

/-- The level that a text names; an empty text means everything. -/
def parse? (text : String) : Option LogLevel :=
  if text = "" then some trace
  else
    match number? text.toList with
    | some n => all[n]?
    | none =>
      let lower := String.ofList (text.toList.map Char.toLower)
      all.find? fun l => l.name == lower

end LogLevel

/-- The modules whose messages the configured level applies to. -/
def logTargets : List String := ["graphql_grpc_gateway", "tower_http"]

/-- What is logged: a level for the targets, or errors only. -/
structure LogFilter where
  level : Option LogLevel
  deriving Repr, DecidableEq

namespace LogFilter

def ofLevelText (text : String) : LogFilter := ⟨LogLevel.parse? text⟩

/-- The filter as a list of directives. -/
def render (f : LogFilter) : String :=
  match f.level with
  | some l => ",".intercalate (logTargets.map fun t => t ++ "=" ++ l.name)
  | none => LogLevel.error.name

/-- The most verbose level that can be logged. -/
def maxLevel (f : LogFilter) : LogLevel := f.level.getD .error

end LogFilter

end RecordGateway
