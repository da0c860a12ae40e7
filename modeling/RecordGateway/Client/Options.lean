import RecordGateway.Client.Encode

/-! # Command-line options of the client

Each option has a long name, two of them also a letter, and a value, which follows as the next word
or after `=`. An option may be given once. The query text is the one word that belongs to no option;
after `--` all words are taken for it.
-/

namespace RecordGateway

inductive ClientOption where
  | url
  | transport
  | variableValues
  | operationName
  deriving Repr, DecidableEq

namespace ClientOption

def ofLong? : String → Option ClientOption
  | "url" => some url
  | "transport" => some transport
  | "variables" => some variableValues
  | "operation-name" => some operationName
  | _ => none

def ofLetter? : Char → Option ClientOption
  | 'u' => some url
  | 't' => some transport
  | _ => none

end ClientOption

/-- What the words of a command line give. -/
structure ClientOptions where
  url : String := "http://localhost:8080/graphql"
  transport : Transport := .post
  variablesText : Option String := none
  operationName : Option String := none
  query : String
  deriving Repr

/-- The options and the other words, in order. -/
structure CommandWords where
  options : List (ClientOption × String) := []
  words : List String := []
  deriving Repr

namespace ClientOptions

/-- What a word of a command line looks like. -/
inductive WordKind where
  | long (name : List Char) (value : Option (List Char))
  | letter (c : Char) (value : Option (List Char))
  | separator
  | plain

/-- A value that is written with or without `=`. -/
def attached : List Char → Option (List Char)
  | [] => none
  | '=' :: cs => some cs
  | cs => some cs

def kindOf (word : String) : WordKind :=
  match word.toList with
  | ['-', '-'] => .separator
  | '-' :: '-' :: cs => .long (cs.takeWhile (· != '=')) (attached (cs.dropWhile (· != '=')))
  | '-' :: c :: cs => .letter c (attached cs)
  | _ => .plain

/-- Takes an option with its value, which may be the next word. -/
def takeValue? (o : ClientOption) (value : Option (List Char)) (rest : List String) :
    Option ((ClientOption × String) × List String) :=
  match value, rest with
  | some v, _ => some ((o, String.ofList v), rest)
  | none, next :: rest =>
    match kindOf next with
    | .plain => some ((o, next), rest)
    | _ => none
  | none, [] => none

/-- Sorts the words of a command line. `fuel` is at least their number. -/
def wordsOf? : (fuel : Nat) → List String → Option CommandWords
  | _, [] => some {}
  | 0, _ => none
  | fuel + 1, w :: ws =>
    let option (o : Option ClientOption) (value : Option (List Char)) : Option CommandWords :=
      match o.bind fun o => takeValue? o value ws with
      | some (pair, rest) =>
        (wordsOf? fuel rest).map fun c => { c with options := pair :: c.options }
      | none => none
    match kindOf w with
    | .separator => some { words := ws }
    | .long name value => option (ClientOption.ofLong? (String.ofList name)) value
    | .letter c value => option (ClientOption.ofLetter? c) value
    | .plain => (wordsOf? fuel ws).map fun c => { c with words := w :: c.words }

def transport? : String → Option Transport
  | "get" => some .get
  | "post" => some .post
  | _ => none

/-- Whether no option is given twice. -/
def eachOnce (options : List (ClientOption × String)) : Bool :=
  options.length == (options.map (·.1)).eraseDups.length

/-- The options that the words of a command line give; nothing if it is not well formed. -/
def parse? (args : List String) : Option ClientOptions := do
  let c ← wordsOf? args.length args
  let query ← match c.words with
    | [query] => some query
    | _ => none
  if !eachOnce c.options then none
  let d : ClientOptions := { query }
  let transport ← match c.options.lookup .transport with
    | some t => transport? t
    | none => some d.transport
  return {
    url := (c.options.lookup .url).getD d.url
    transport
    variablesText := c.options.lookup .variableValues
    operationName := c.options.lookup .operationName
    query }

end ClientOptions

end RecordGateway
