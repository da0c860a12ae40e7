import RecordGateway.GraphQL.Document
import RecordGateway.GraphQL.Token

/-! # Reading GraphQL documents

`Document.parse` reads the definitions of a document from its text.

* A `Parser` takes lexemes off the front of a list. Repetition is `Parser.many`, which goes on while
  the next token can start another item, so an item that goes wrong is an error and never an end.
* Selection sets, list types, list values and object values nest in each other, `nestingLimit` of
  them at most. The limit is what the recursion runs on: a parser for the inside is made from the
  parser with one level less.
* An argument or an object field without a colon is read and dropped.
-/

namespace RecordGateway.GraphQL

/-- Reads a value off the front of the remaining lexemes. -/
abbrev Parser := StateT (List Lexeme) (Except SyntaxError)

namespace Parser

variable {α : Type}

/-! ## Steps and repetition -/

def fail (what : String) : Parser α := throw (.expected what)

/-- The next token, left in place. -/
def peek : Parser (Option Token) := fun ls => .ok (ls.head?.map (·.token), ls)

/-- The place of the next token; at the end of the text, the first place after it does not matter
and is given as zero. -/
def here : Parser Nat := fun ls => .ok ((ls.head?.map (·.place)).getD 0, ls)

def skip : Parser Unit := fun ls => .ok ((), ls.tail)

/-- Takes the punctuator if it is next. -/
def accept (p : Punctuator) : Parser Bool := fun ls =>
  match ls with
  | ⟨.punctuator q, _⟩ :: rest => if p = q then .ok (true, rest) else .ok (false, ls)
  | _ => .ok (false, ls)

def expect (p : Punctuator) (what : String) : Parser Unit := do
  if !(← accept p) then fail what

/-- A name and its place. -/
def name : Parser (Name × Nat) := fun ls =>
  match ls with
  | ⟨.name n, i⟩ :: rest => .ok ((n, i), rest)
  | _ => .error (.expected "a name")

/-- Takes the name `word` if it is next. -/
def acceptWord (word : String) : Parser Bool := fun ls =>
  match ls with
  | ⟨.name n, _⟩ :: rest => if n = word then .ok (true, rest) else .ok (false, ls)
  | _ => .ok (false, ls)

def expectWord (word : String) : Parser Unit := do
  if !(← acceptWord word) then fail word

/-- `many` for at most `bound` items. -/
def manyUpTo (starts : Token → Bool) (item : Parser α) : (bound : Nat) → Parser (List α)
  | 0 => pure []
  | bound + 1 => do
    match ← peek with
    | some t =>
      if starts t then do
        let a ← item
        let as ← manyUpTo starts item bound
        pure (a :: as)
      else pure []
    | none => pure []

/-- Items as long as the next token can start one. -/
def many (starts : Token → Bool) (item : Parser α) : Parser (List α) := do
  manyUpTo starts item (← get).length

/-- One item or more. -/
def many1 (starts : Token → Bool) (item : Parser α) (what : String) : Parser (List α) := do
  match ← many starts item with
  | [] => fail what
  | as => pure as

/-- An item, and more of them after further separators; one separator may stand in front. -/
def separated (separator : Punctuator) (item : Parser α) : Parser (List α) := do
  let _ ← accept separator
  let first ← item
  let rest ← many (· == .punctuator separator) (do skip; item)
  pure (first :: rest)

def isName : Token → Bool
  | .name _ => true
  | _ => false

/-- The parser if the next token is the punctuator, else the default. -/
def when (p : Punctuator) (default : α) (parser : Parser α) : Parser α := do
  if (← peek) == some (.punctuator p) then parser else pure default

/-! ## Types -/

/-- A type, where `inside` reads the type of the items of a list, if one more level is allowed. -/
def typeWith (inside : Option (Parser TypeRef)) : Parser TypeRef := do
  match ← peek with
  | some (.punctuator .bracketL) =>
    match inside with
    | none => throw .nestedTooDeep
    | some inside => do
      skip
      let t ← inside
      expect .bracketR "]"
      pure (.list t (← accept .bang))
  | _ => do
    let (n, _) ← name
    pure (.named n (← accept .bang))

def type : (depth : Nat) → Parser TypeRef
  | 0 => typeWith none
  | depth + 1 => typeWith (some (type depth))

/-! ## Values -/

/-- What a bare name means as a value. -/
def nameValue : Name → Literal
  | "true" => .boolean true
  | "false" => .boolean false
  | "null" => .null
  | n => .enum n

/-- A field of an object value; without a colon it counts for nothing. -/
def objectField (value : Parser Value) : Parser (Option (Name × Value)) := do
  let (n, _) ← name
  if ← accept .colon then do
    let v ← value
    pure (some (n, v))
  else pure none

def closes (p : Punctuator) (t : Token) : Bool := t == .punctuator p

/-- A value, where `inside` reads the parts of a list or object, if one more level is allowed. A
constant has no variables. -/
def valueWith (constant : Bool) (inside : Option (Parser Value)) : Parser Value := do
  let i ← here
  match ← peek with
  | some (.int text) => do skip; pure (.literal i (.int text))
  | some (.float text) => do skip; pure (.literal i (.float text))
  | some (.string s) => do skip; pure (.literal i (.string s))
  | some (.name n) => do skip; pure (.literal i (nameValue n))
  | some (.punctuator .dollar) =>
    if constant then fail "a constant"
    else do
      skip
      let (n, _) ← name
      pure (.variable i n)
  | some (.punctuator .bracketL) =>
    match inside with
    | none => throw .nestedTooDeep
    | some inside => do
      skip
      let vs ← many (fun t => !closes .bracketR t) inside
      expect .bracketR "]"
      pure (.list i vs)
  | some (.punctuator .braceL) =>
    match inside with
    | none => throw .nestedTooDeep
    | some inside => do
      skip
      let fs ← many isName (objectField inside)
      expect .braceR "a closing brace"
      pure (.object i (fs.filterMap id))
  | _ => fail "a value"

def value (constant : Bool) : (depth : Nat) → Parser Value
  | 0 => valueWith constant none
  | depth + 1 => valueWith constant (some (value constant depth))

/-! ## Arguments and directives -/

/-- An argument; without a colon it counts for nothing. -/
def argument (constant : Bool) (depth : Nat) : Parser (Option Argument) := do
  let (n, i) ← name
  if ← accept .colon then do
    let v ← value constant depth
    pure (some ⟨i, n, v⟩)
  else pure none

def arguments (constant : Bool) (depth : Nat) : Parser (List Argument) :=
  when .parenL [] do
    skip
    let as ← many1 isName (argument constant depth) "an argument"
    expect .parenR ")"
    pure (as.filterMap id)

def directive (constant : Bool) (depth : Nat) : Parser Directive := do
  let i ← here
  skip
  let (n, _) ← name
  let as ← arguments constant depth
  pure ⟨i, n, as⟩

def directives (constant : Bool) (depth : Nat) : Parser (List Directive) :=
  many (· == .punctuator .atSign) (directive constant depth)

/-! ## Selections -/

def typeCondition : Parser TypeCondition := do
  expectWord "on"
  let (n, i) ← name
  pure ⟨i, n⟩

/-- A name that is not `on`. -/
def fragmentName : Parser (Name × Nat) := do
  let (n, i) ← name
  if n = "on" then fail "a fragment name" else pure (n, i)

def startsSelection : Token → Bool
  | .name _ => true
  | .punctuator .spread => true
  | _ => false

/-- A field, where `set` reads its selection set. -/
def field (depth : Nat) (set : Parser (List Selection)) : Parser Selection := do
  let (first, i) ← name
  let (aliasName, n, j) ←
    if ← accept .colon then do
      let (n, j) ← name
      pure (some first, n, j)
    else pure (none, first, i)
  let as ← arguments false depth
  let ds ← directives false depth
  let body ← when .braceL [] set
  pure (.field ⟨i, aliasName, j, n, as, ds⟩ body)

/-- A fragment spread or an inline fragment; after the three dots, a name other than `on` is that of
a fragment. -/
def spread (depth : Nat) (set : Parser (List Selection)) : Parser Selection := do
  let i ← here
  skip
  match ← peek with
  | some (.name "on") => do
    let c ← typeCondition
    let ds ← directives false depth
    let body ← set
    pure (.inline i (some c) ds body)
  | some (.name n) => do
    skip
    let ds ← directives false depth
    pure (.spread i n ds)
  | some (.punctuator .atSign) | some (.punctuator .braceL) => do
    let ds ← directives false depth
    let body ← set
    pure (.inline i none ds body)
  | _ => fail "a fragment"

def selection (depth : Nat) (set : Parser (List Selection)) : Parser Selection := do
  match ← peek with
  | some (.punctuator .spread) => spread depth set
  | _ => field depth set

/-- A selection set, which holds at least one selection. -/
def selectionSet : (depth : Nat) → Parser (List Selection)
  | 0 => do
    match ← peek with
    | some (.punctuator .braceL) => throw .nestedTooDeep
    | _ => fail "a selection set"
  | depth + 1 => do
    expect .braceL "a selection set"
    let ss ← many1 startsSelection (selection depth (selectionSet depth)) "a selection"
    expect .braceR "a closing brace"
    pure ss

/-! ## Operations and fragments -/

/-- The levels that selection sets, list types, list values and object values may nest. -/
def nestingLimit : Nat := 500

def defaultValue : Parser (Option Value) :=
  when .equals none do
    skip
    let v ← value true nestingLimit
    pure (some v)

def variableDefinition : Parser VariableDefinition := do
  let i ← here
  expect .dollar "$"
  let (n, _) ← name
  expect .colon ":"
  let t ← type nestingLimit
  let d ← defaultValue
  let ds ← directives true nestingLimit
  pure ⟨i, n, t, d, ds⟩

def variableDefinitions : Parser (List VariableDefinition) :=
  when .parenL [] do
    skip
    let vs ← many1 (· == .punctuator .dollar) variableDefinition "a variable definition"
    expect .parenR ")"
    pure vs

def optionalName : Parser (Option (Name × Nat)) := do
  match ← peek with
  | some (.name _) => do
    let n ← name
    pure (some n)
  | _ => pure none

/-- An operation after its keyword. -/
def operation (i : Nat) (kind : OperationKind) : Parser Operation := do
  let n ← optionalName
  let vs ← variableDefinitions
  let ds ← directives false nestingLimit
  let ss ← selectionSet nestingLimit
  pure ⟨i, kind, n, vs, ds, ss⟩

/-- A fragment after its keyword. -/
def fragment (i : Nat) : Parser Fragment := do
  let (n, j) ← fragmentName
  let c ← typeCondition
  let ds ← directives false nestingLimit
  let ss ← selectionSet nestingLimit
  pure ⟨i, j, n, c, ds, ss⟩

/-! ## Type systems -/

/-- A description, which says nothing to a program. -/
def description : Parser Unit := do
  match ← peek with
  | some (.string _) => skip
  | _ => pure ()

/-- A name, with a description before it or not, can come next. -/
def startsDescribed : Token → Bool
  | .name _ => true
  | .string _ => true
  | _ => false

def inputDefinition : Parser InputDefinition := do
  description
  let (n, i) ← name
  expect .colon ":"
  let t ← type nestingLimit
  let d ← defaultValue
  let ds ← directives true nestingLimit
  pure ⟨i, n, t, d, ds⟩

def argumentDefinitions : Parser (List InputDefinition) :=
  when .parenL [] do
    skip
    let as ← many1 startsDescribed inputDefinition "an argument definition"
    expect .parenR ")"
    pure as

/-- Items between braces, at least one; without the braces, none. -/
def block {α : Type} (item : Parser α) (what : String) : Parser (List α) :=
  when .braceL [] do
    skip
    let as ← many1 startsDescribed item what
    expect .braceR "a closing brace"
    pure as

def fieldDefinition : Parser FieldDefinition := do
  description
  let (n, i) ← name
  let as ← argumentDefinitions
  expect .colon ":"
  let t ← type nestingLimit
  let ds ← directives true nestingLimit
  pure ⟨i, n, as, t, ds⟩

def namedType : Parser Name := do
  let (n, _) ← name
  pure n

def implementedInterfaces : Parser (List Name) := do
  if ← acceptWord "implements" then separated .ampersand namedType else pure []

def unionMembers : Parser (List Name) :=
  when .equals [] do
    skip
    separated .pipe namedType

def enumValue : Parser Name := do
  description
  let (n, _) ← name
  match nameValue n with
  | .enum _ => do
    let _ ← directives true nestingLimit
    pure n
  | _ => fail "an enum value"

def rootType : Parser (OperationKind × Name × Nat) := do
  let (k, i) ← name
  match OperationKind.ofKeyword? k with
  | none => fail "an operation type"
  | some kind => do
    expect .colon ":"
    let n ← namedType
    pure (kind, n, i)

/-- The places in a document where a directive can be allowed. -/
def directiveLocations : List String :=
  ["QUERY", "MUTATION", "SUBSCRIPTION", "FIELD", "FRAGMENT_DEFINITION", "FRAGMENT_SPREAD",
    "INLINE_FRAGMENT", "VARIABLE_DEFINITION", "SCHEMA", "SCALAR", "OBJECT", "FIELD_DEFINITION",
    "ARGUMENT_DEFINITION", "INTERFACE", "UNION", "ENUM", "ENUM_VALUE", "INPUT_OBJECT",
    "INPUT_FIELD_DEFINITION"]

def directiveLocation : Parser String := do
  let (n, _) ← name
  if directiveLocations.contains n then pure n else fail "a directive location"

def directiveDefinition : Parser SystemDefinition := do
  expect .atSign "@"
  let (n, _) ← name
  let as ← argumentDefinitions
  let r ← acceptWord "repeatable"
  expectWord "on"
  let ls ← separated .pipe directiveLocation
  pure (.directive n as r ls)

/-- A type after its keyword, with whether it says anything besides its name. -/
def typeDefinition (keyword : String) : Parser (SystemDefinition × Bool) := do
  let (n, i) ← name
  let is ← if keyword = "type" ∨ keyword = "interface" then implementedInterfaces else pure []
  let ds ← directives true nestingLimit
  let (body, empty) ← (match keyword with
    | "scalar" => pure (.scalar, true)
    | "union" => do
      let ms ← unionMembers
      pure (.union ms, ms.isEmpty)
    | "enum" => do
      let vs ← block enumValue "an enum value"
      pure (.enum vs, vs.isEmpty)
    | "input" => do
      let fs ← block inputDefinition "an input field"
      pure (.inputObject fs, fs.isEmpty)
    | "interface" => do
      let fs ← block fieldDefinition "a field definition"
      pure (.interface is fs, fs.isEmpty)
    | _ => do
      let fs ← block fieldDefinition "a field definition"
      pure (.object is fs, fs.isEmpty) : Parser (TypeBody × Bool))
  pure (.type n i body, !(is.isEmpty && ds.isEmpty && empty))

def typeKeywords : List String := ["scalar", "type", "interface", "union", "enum", "input"]

/-- An extension after its keyword; it must extend by something. -/
def extension : Parser SystemDefinition := do
  let (k, _) ← name
  if k = "schema" then do
    let ds ← directives true nestingLimit
    let rs ← block rootType "a root type"
    if ds.isEmpty && rs.isEmpty then fail "an extension" else pure (.schema rs)
  else if typeKeywords.contains k then do
    let (d, saysMore) ← typeDefinition k
    if saysMore then pure d else fail "an extension"
  else fail "an extension"

/-- A type system definition after its keyword. -/
def systemDefinition (keyword : String) : Parser SystemDefinition := do
  if keyword = "schema" then do
    let _ ← directives true nestingLimit
    let rs ← block rootType "a root type"
    if rs.isEmpty then fail "a root type" else pure (.schema rs)
  else if keyword = "directive" then directiveDefinition
  else if typeKeywords.contains keyword then do
    let (d, _) ← typeDefinition keyword
    pure d
  else fail "a definition"

/-! ## Documents -/

/-- A definition. Only type system definitions can be described. -/
def definition : Parser Definition := do
  let i ← here
  match ← peek with
  | some (.punctuator .braceL) => do
    let ss ← selectionSet nestingLimit
    pure (.operation ⟨i, .query, none, [], [], ss⟩)
  | some (.string _) => do
    skip
    let (k, _) ← name
    let d ← systemDefinition k
    pure (.system i false d)
  | _ => do
    let (k, _) ← name
    match OperationKind.ofKeyword? k with
    | some kind => do
      let o ← operation i kind
      pure (.operation o)
    | none =>
      if k = "fragment" then do
        let f ← fragment i
        pure (.fragment f)
      else if k = "extend" then do
        let d ← extension
        pure (.system i true d)
      else do
        let d ← systemDefinition k
        pure (.system i false d)

def definitions : Parser (List Definition) :=
  many1 (fun _ => true) definition "a definition"

end Parser

/-- The definitions of a document, at least one. -/
def parseDefinitions (text : String) : Except SyntaxError (List Definition) := do
  let ls ← Token.lexemes text
  let (ds, _) ← Parser.definitions ls
  pure ds

end RecordGateway.GraphQL
