import RecordGateway.Toml.Scalar

/-! # Reading TOML documents

A document is a sequence of lines: blank ones, comments, headers that open a table, and pairs that
set a key of the table opened last. `Toml.parse?` gives the entries of the root table, or nothing if
the text is not a document.

Arrays and inline tables may nest `nestingLimit` levels, and a dotted key has at most as many parts.
-/

namespace RecordGateway.Toml

def nestingLimit : Nat := 79

/-- A dotted key: the tables it goes through, and the key in the last of them. -/
structure KeyPath where
  tables : List String
  key : String
  deriving Repr

/-! ## Space between the parts -/

def skipBlanks (cs : List Char) : List Char := cs.dropWhile isBlank

/-- Skips blanks, line ends and comments; a comment must end with its line. -/
def gap? : (inComment : Bool) → List Char → Option (List Char)
  | inComment, [] => if inComment then none else some []
  | inComment, c :: cs =>
    if c = '\n' then gap? false cs
    else if c = '\r' then if cs.head? = some '\n' then gap? inComment cs else none
    else if inComment then if isPlain c then gap? true cs else none
    else if c = '#' then gap? true cs
    else if isBlank c then gap? false cs
    else some (c :: cs)

/-- Skips the rest of a line that may hold blanks and a comment only. -/
def lineEnd? (cs : List Char) : Option (List Char) :=
  let rest := match skipBlanks cs with
    | '#' :: cs => cs.dropWhile isPlain
    | cs => cs
  if rest.isEmpty then some [] else newline? rest

/-! ## Keys -/

def isBareKeyChar (c : Char) : Bool := c.isAlphanum || c == '_' || c == '-'

/-- One part of a key: a bare word or a quoted string on one line. -/
def simpleKey? : List Char → Read String
  | '"' :: cs => basic? cs.length [] cs
  | '\'' :: cs => literal? [] cs
  | cs =>
    let word := cs.takeWhile isBareKeyChar
    if word.isEmpty then none else some (String.ofList word, cs.dropWhile isBareKeyChar)

/-- The parts of a dotted key, with blanks around each. -/
def keyParts? : (fuel : Nat) → List Char → Read (List String)
  | 0, _ => none
  | fuel + 1, cs =>
    match simpleKey? (skipBlanks cs) with
    | none => none
    | some (part, rest) =>
      match skipBlanks rest with
      | '.' :: rest => (keyParts? fuel rest).map fun (parts, rest) => (part :: parts, rest)
      | rest => some ([part], rest)

def keyPath? (cs : List Char) : Read KeyPath :=
  match keyParts? (nestingLimit + 1) cs with
  | some (parts, rest) =>
    match parts.getLast? with
    | some key => if parts.length ≤ nestingLimit then some (⟨parts.dropLast, key⟩, rest) else none
    | none => none
  | none => none

/-! ## Values -/

/-- An array after its bracket or one of its commas, given a reader of values. -/
def array? (value : List Char → Read Toml) : (fuel : Nat) → List Toml → List Char → Read Toml
  | 0, _, _ => none
  | fuel + 1, items, cs =>
    match gap? false cs with
    | none => none
    | some (']' :: rest) => some (.array items.reverse, rest)
    | some cs =>
      match value cs with
      | none => none
      | some (v, rest) =>
        match gap? false rest with
        | some (',' :: rest) => array? value fuel (v :: items) rest
        | some (']' :: rest) => some (.array (v :: items).reverse, rest)
        | _ => none

/-- The pairs of an inline table, given a reader of values. They stand on one line, and no comma
follows the last. -/
def pairs? (value : List Char → Read Toml) :
    (fuel : Nat) → TomlItem.Entries → List Char → Read TomlItem.Entries
  | 0, _, _ => none
  | fuel + 1, es, cs =>
    match keyPath? cs with
    | some (k, '=' :: rest) =>
      match value (skipBlanks rest) with
      | none => none
      | some (v, rest) =>
        match TomlItem.assign k.tables k.key v es with
        | none => none
        | some es =>
          match skipBlanks rest with
          | ',' :: rest => pairs? value fuel es rest
          | '}' :: rest => some (es, rest)
          | _ => none
    | _ => none

def inlineTable? (value : List Char → Read Toml) (cs : List Char) : Read Toml :=
  match skipBlanks cs with
  | '}' :: rest => some (.table [], rest)
  | cs =>
    (pairs? value cs.length [] cs).map fun (es, rest) => (.table (TomlItem.entriesToToml es), rest)

/-- A word, with the value that it stands for. -/
def word? (w : String) (v : Toml) (cs : List Char) : Read Toml :=
  if w.toList.isPrefixOf cs then some (v, cs.drop w.length) else none

/-- A value. Arrays and inline tables nest at most `room` levels. -/
def value? (room : Nat) (cs : List Char) : Read Toml :=
  match cs with
  | [] => none
  | c :: rest =>
    if c = '"' ∨ c = '\'' then (string? cs).map fun (s, rest) => (.string s, rest)
    else if c = '[' then
      match room with
      | 0 => none
      | room + 1 => array? (value? room) (rest.length + 1) [] rest
    else if c = '\x7b' then
      match room with
      | 0 => none
      | room + 1 => inlineTable? (value? room) rest
    else if c = 't' then word? "true" (.boolean true) cs
    else if c = 'f' then word? "false" (.boolean false) cs
    else (datetime? cs).orElse fun _ => (float? cs).orElse fun _ => integer? cs

/-! ## Documents -/

/-- The entries read so far, and the path of the table that the last header has opened. -/
structure Draft where
  entries : TomlItem.Entries
  opened : List String
  deriving Repr

/-- What stands between the brackets of a header. -/
def header? (close : List Char) (cs : List Char) : Read KeyPath :=
  match keyPath? cs with
  | some (k, rest) =>
    if close.isPrefixOf rest then some (k, rest.drop close.length) else none
  | none => none

/-- One line of a document, read into a draft. -/
def line? (d : Draft) (cs : List Char) : Option (Draft × List Char) :=
  match skipBlanks cs with
  | '[' :: '[' :: cs => do
    let (k, rest) ← header? [']', ']'] cs
    let rest ← lineEnd? rest
    let es ← TomlItem.openArrayTable k.tables k.key d.entries
    some (⟨es, k.tables ++ [k.key]⟩, rest)
  | '[' :: cs => do
    let (k, rest) ← header? [']'] cs
    let rest ← lineEnd? rest
    let es ← TomlItem.openTable k.tables k.key d.entries
    some (⟨es, k.tables ++ [k.key]⟩, rest)
  | cs =>
    match lineEnd? cs with
    | some rest => some (d, rest)
    | none =>
      match keyPath? cs with
      | some (k, '=' :: rest) => do
        let (v, rest) ← value? nestingLimit (skipBlanks rest)
        let rest ← lineEnd? rest
        let es ← TomlItem.assignUnder d.opened k.tables k.key v d.entries
        some (⟨es, d.opened⟩, rest)
      | _ => none

def lines? : (fuel : Nat) → Draft → List Char → Option Draft
  | _, d, [] => some d
  | 0, _, _ => none
  | fuel + 1, d, cs =>
    match line? d cs with
    | some (d, rest) => lines? fuel d rest
    | none => none

/-- The entries of the root table of a document. A byte order mark at its start is skipped. -/
def parse? (text : String) : Option (List (String × Toml)) :=
  let cs := match text.toList with
    | '\uFEFF' :: cs => cs
    | cs => cs
  (lines? cs.length ⟨[], []⟩ cs).map fun d => TomlItem.entriesToToml d.entries

end RecordGateway.Toml
