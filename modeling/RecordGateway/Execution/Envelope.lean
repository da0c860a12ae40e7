import RecordGateway.Downstream.Service
import RecordGateway.Json.Decode
import RecordGateway.Json.Printer

/-! # Response envelopes

Every query is answered with an `Envelope`: a record or nothing, and the list of what went wrong.
Its JSON text has the members `data` and `errors`, and those of a record in the order of its fields
(`Envelope.render`). `Envelope.parse` reads such texts, leniently: members that it does not know may
hold anything.
-/

namespace RecordGateway

structure Envelope where
  data : Option Record := none
  errors : List String := []
  deriving Repr, DecidableEq, Inhabited

namespace Envelope

/-- Neither data nor errors. -/
def empty : Envelope := {}

def reject (errors : List String) : Envelope := { errors := errors }

def ofAnswer : Answer → Envelope
  | .ok r => { data := some r }
  | .error e => reject [e.message]

def isSuccess (e : Envelope) : Bool := e.errors.isEmpty

/-! ## Writing -/

/-- The members of a record in order, as JSON. -/
def recordChars (r : Record) : List Char :=
  Json.memberChars [("id", .string r.id), ("name", .string r.name),
    ("description", .string r.description)]

def dataChars : Option Record → List Char
  | none => ['n', 'u', 'l', 'l']
  | some r => '\x7b' :: recordChars r ++ ['\x7d']

/-- The characters of the JSON text of an envelope. -/
def chars (e : Envelope) : List Char :=
  '\x7b' :: Json.quote "data" ++ ':' :: dataChars e.data ++
    ',' :: Json.quote "errors" ++ ':' :: Json.chars (.array (e.errors.map .string)) ++ ['\x7d']

/-- The JSON text of an envelope. -/
def render (e : Envelope) : String := String.ofList e.chars

/-! ## Reading -/

/-- The values of some known members of an object, each at most once; the values of the other
members do not matter. -/
def members? (known : List String) : List (List StringPart × JsonSyntax) →
    Option (List (String × JsonSyntax))
  | [] => some []
  | (ps, v) :: rest => do
    let n ← Json.text? ps
    let ms ← members? known rest
    if !known.contains n then some ms
    else if (ms.lookup n).isSome then none
    else some ((n, v) :: ms)

/-- The parts of a value that is written with named members or by position. -/
def parts? (names : List String) : JsonSyntax → Option (List (String × JsonSyntax))
  | .object ms => members? names ms
  | .array vs => if vs.length = names.length then some (names.zip vs) else none
  | _ => none

def string? : JsonSyntax → Option String
  | .string ps => Json.text? ps
  | _ => none

def record? (v : JsonSyntax) : Option Record := do
  let ps ← parts? ["id", "name", "description"] v
  let id ← (ps.lookup "id").bind string?
  let name ← (ps.lookup "name").bind string?
  let description ← (ps.lookup "description").bind string?
  some ⟨id, name, description⟩

/-- A record, or null for none. -/
def data? : JsonSyntax → Option (Option Record)
  | .null => some none
  | v => (record? v).map some

def errors? : JsonSyntax → Option (List String)
  | .array vs => vs.mapM string?
  | _ => none

/-- The envelope of a syntax tree. Missing data is no data; the errors must be there. -/
def ofSyntax? (v : JsonSyntax) : Option Envelope := do
  let ps ← parts? ["data", "errors"] v
  let data ← match ps.lookup "data" with
    | none => some none
    | some d => data? d
  let errors ← (ps.lookup "errors").bind errors?
  some ⟨data, errors⟩

/-- The envelope that the bytes of a JSON text write. -/
def parse (bs : List UInt8) : Except Json.ReadError Envelope :=
  match (JsonSyntax.parse? bs).bind ofSyntax? with
  | some e => .ok e
  | none => .error .malformed

end Envelope

end RecordGateway
