import RecordGateway.Text.CodePoint
import RecordGateway.Text.Digits

/-! # Tokens of a GraphQL document

`Token.lexemes` splits a document into tokens, each with its place. A place is the number of tokens
before it, so of two places the smaller is the one written first.

* `Token.scan` takes the tokens off the front one by one; blanks, commas and comments separate
  them and are dropped.
* String literals are kept by value: `Quoted.scan` reads `"…"` with its escapes, `Block.scan` and
  `Block.dedent` read `"""…"""`.
* Numbers are kept as written, since the only thing ever said about them is their text.
-/

namespace RecordGateway.GraphQL

/-- Why a text is not a GraphQL document. -/
inductive SyntaxError where
  | unexpectedCharacter (c : Char)
  | malformedNumber
  | malformedString
  | expected (what : String)
  | nestedTooDeep
  deriving Repr, DecidableEq

/-- The wording of a syntax error. -/
def SyntaxError.message : SyntaxError → String
  | .unexpectedCharacter c => "syntax error: unexpected character '" ++ c.toString ++ "'"
  | .malformedNumber => "syntax error: malformed number"
  | .malformedString => "syntax error: malformed string"
  | .expected what => "syntax error: expected " ++ what
  | .nestedTooDeep => "parser recursion limit reached"

inductive Punctuator where
  | bang | dollar | ampersand | parenL | parenR | spread | colon | equals | atSign
  | bracketL | bracketR | braceL | pipe | braceR
  deriving Repr, DecidableEq

inductive Token where
  | punctuator (p : Punctuator)
  | name (text : String)
  | int (text : String)
  | float (text : String)
  | string (value : String)
  deriving Repr, DecidableEq

/-- A token and its place. -/
structure Lexeme where
  token : Token
  place : Nat
  deriving Repr, DecidableEq

/-! ## Character classes -/

/-- Letters and the underscore begin a name; the letters are the ASCII ones. -/
def isNameStart (c : Char) : Bool :=
  c.isAlpha || c == '_'

def isNamePart (c : Char) : Bool :=
  c.isAlphanum || c == '_'

def isLineEnd (c : Char) : Bool :=
  c == '\n' || c == '\r'

/-- White space, the comma and the byte order mark separate tokens and mean nothing. -/
def isSeparator (c : Char) : Bool :=
  c == ' ' || c == '\t' || isLineEnd c || c == ',' || c == '\uFEFF'

/-! ## Quoted strings -/

namespace Quoted

/-- The character that a pair of surrogates stands for. -/
def pair? (high low : Nat) : Option Char :=
  if CodePoint.isLowSurrogate low then CodePoint.char? (CodePoint.ofPair high low) else none

/-- The character with a one-letter escape. -/
def simpleEscape? : Char → Option Char
  | '"' => some '"'
  | '\\' => some '\\'
  | '/' => some '/'
  | 'b' => some '\x08'
  | 'f' => some '\x0c'
  | 'n' => some '\n'
  | 'r' => some '\r'
  | 't' => some '\t'
  | _ => none

/-- Reads what follows `\u`: four digits, two escapes that form a surrogate pair, or any number of
digits in braces. -/
def unicodeEscape? : List Char → Option (Char × List Char)
  | '\x7b' :: cs =>
    match cs.dropWhile isHexDigit with
    | '\x7d' :: rest => do
      let n ← hexNumber? (cs.takeWhile isHexDigit)
      let c ← CodePoint.char? n
      some (c, rest)
    | _ => none
  | a :: b :: c :: d :: rest => do
    let n ← hexNumber? [a, b, c, d]
    if CodePoint.isHighSurrogate n then
      match rest with
      | '\\' :: 'u' :: e :: f :: g :: h :: rest => do
        let m ← hexNumber? [e, f, g, h]
        let c ← pair? n m
        some (c, rest)
      | _ => none
    else do
      let c ← CodePoint.char? n
      some (c, rest)
  | _ => none

/-- Reads what follows a backslash. -/
def escape? : List Char → Option (Char × List Char)
  | 'u' :: cs => unicodeEscape? cs
  | c :: cs => (simpleEscape? c).map (·, cs)
  | [] => none

/-- Reads up to the closing quote, with the characters read so far in `acc`, last first. `fuel` is
at least the length of the text. -/
def body (fuel : Nat) (acc : List Char) (cs : List Char) :
    Except SyntaxError (List Char × List Char) :=
  match fuel, cs with
  | fuel + 1, c :: cs =>
    if c = '"' then .ok (acc.reverse, cs)
    else if c = '\\' then
      match escape? cs with
      | some (d, rest) => body fuel (d :: acc) rest
      | none => .error .malformedString
    else if isLineEnd c then .error .malformedString
    else body fuel (c :: acc) cs
  | _, _ => .error .malformedString

/-- Reads a string after its opening quote. A line may not end inside a string, except right after
the opening quote. -/
def scan : List Char → Except SyntaxError (List Char × List Char)
  | [] => .error .malformedString
  | c :: cs => if isLineEnd c then body cs.length [c] cs else body (cs.length + 1) [] (c :: cs)

end Quoted

/-! ## Block strings -/

namespace Block

/-- Reads up to the closing three quotes. A backslash takes up to three quotes after it out of the
count, and only `\"""` loses its backslash. -/
def body (acc : List Char) : List Char → Except SyntaxError (List Char × List Char)
  | '\\' :: '"' :: '"' :: '"' :: cs => body ('"' :: '"' :: '"' :: acc) cs
  | '\\' :: '"' :: '"' :: cs => body ('"' :: '"' :: '\\' :: acc) cs
  | '\\' :: '"' :: cs => body ('"' :: '\\' :: acc) cs
  | '"' :: '"' :: '"' :: cs => .ok (acc.reverse, cs)
  | c :: cs => body (c :: acc) cs
  | [] => .error .malformedString

/-- The lines of a text, which end with CR LF, CR or LF; `line` is the current one, last character
first. -/
def lines (line : List Char) : List Char → List (List Char)
  | '\r' :: '\n' :: cs => line.reverse :: lines [] cs
  | '\n' :: cs => line.reverse :: lines [] cs
  | '\r' :: cs => line.reverse :: lines [] cs
  | c :: cs => lines (c :: line) cs
  | [] => [line.reverse]

def isBlank (c : Char) : Bool := c == ' ' || c == '\t'

def indent (line : List Char) : Nat := (line.takeWhile isBlank).length

/-- The indentation that all lines share, lines of blanks apart. -/
def commonIndent (ls : List (List Char)) : Nat :=
  ((ls.filter (fun l => !l.all isBlank)).map indent).min?.getD 0

/-- Takes the common indentation off every line but the first, then the blank lines off both
ends. -/
def dedent (raw : List Char) : List Char :=
  match lines [] raw with
  | [] => []
  | first :: rest =>
    let ls := first :: rest.map (List.drop (commonIndent rest))
    let ls := ls.dropWhile (List.all · isBlank)
    let ls := (ls.reverse.dropWhile (List.all · isBlank)).reverse
    (ls.intersperse ['\n']).flatten

end Block

/-! ## Numbers -/

namespace Number

/-- Takes a run of digits off the front; there must be at least one. -/
def digits? (cs : List Char) : Option (List Char × List Char) :=
  match cs.takeWhile Char.isDigit with
  | [] => none
  | ds => some (ds, cs.dropWhile Char.isDigit)

/-- The integer part: digits without a leading zero, or zero alone. -/
def integer? (cs : List Char) : Option (List Char × List Char) :=
  match digits? cs with
  | some ('0' :: _ :: _, _) => none
  | r => r

/-- An optional minus sign. -/
def sign : List Char → List Char × List Char
  | '-' :: cs => (['-'], cs)
  | cs => ([], cs)

/-- An optional fraction; a point must be followed by a digit. -/
def fraction? : List Char → Option (List Char × List Char)
  | '.' :: cs => (digits? cs).map fun (ds, rest) => ('.' :: ds, rest)
  | cs => some ([], cs)

/-- An optional exponent; its mark must be followed by a digit, with a sign between if need be. -/
def exponent? : List Char → Option (List Char × List Char)
  | e :: cs =>
    if e = 'e' ∨ e = 'E' then
      match cs with
      | s :: cs' =>
        if s = '+' ∨ s = '-' then (digits? cs').map fun (ds, rest) => (e :: s :: ds, rest)
        else (digits? cs).map fun (ds, rest) => (e :: ds, rest)
      | [] => none
    else some ([], e :: cs)
  | [] => some ([], [])

/-- A number ends where no name and no further point follows. -/
def ends : List Char → Bool
  | [] => true
  | c :: _ => !(isNameStart c || c.isDigit || c == '.')

def scan? (cs : List Char) : Option (Token × List Char) := do
  let (s, cs) := sign cs
  let (i, cs) ← integer? cs
  let (f, cs) ← fraction? cs
  let (e, cs) ← exponent? cs
  if !ends cs then none
  else if f.isEmpty && e.isEmpty then some (.int (String.ofList (s ++ i)), cs)
  else some (.float (String.ofList (s ++ i ++ f ++ e)), cs)

end Number

/-! ## The token stream -/

namespace Token

def punctuator? : Char → Option Punctuator
  | '!' => some .bang
  | '$' => some .dollar
  | '&' => some .ampersand
  | '(' => some .parenL
  | ')' => some .parenR
  | ':' => some .colon
  | '=' => some .equals
  | '@' => some .atSign
  | '[' => some .bracketL
  | ']' => some .bracketR
  | '\x7b' => some .braceL
  | '|' => some .pipe
  | '\x7d' => some .braceR
  | _ => none

/-- Reads a string of either kind after its opening quote. -/
def stringLiteral : List Char → Except SyntaxError (Token × List Char)
  | '"' :: '"' :: cs => do
    let (raw, rest) ← Block.body [] cs
    .ok (.string (String.ofList (Block.dedent raw)), rest)
  | '"' :: cs => .ok (.string "", cs)
  | cs => do
    let (value, rest) ← Quoted.scan cs
    .ok (.string (String.ofList value), rest)

/-- Takes the token that starts with `c` off the front. -/
def next (c : Char) (cs : List Char) : Except SyntaxError (Token × List Char) :=
  if isNameStart c then
    .ok (.name (String.ofList (c :: cs.takeWhile isNamePart)), cs.dropWhile isNamePart)
  else if c = '"' then stringLiteral cs
  else if c.isDigit || c = '-' then
    match Number.scan? (c :: cs) with
    | some r => .ok r
    | none => .error .malformedNumber
  else
    match punctuator? c with
    | some p => .ok (.punctuator p, cs)
    | none =>
      match c, cs with
      | '.', '.' :: '.' :: cs => .ok (.punctuator .spread, cs)
      | _, _ => .error (.unexpectedCharacter c)

/-- The tokens of a text, after the ones in `acc`, last first. `fuel` is at least the length of
the text. -/
def scan (fuel : Nat) (acc : List Token) (cs : List Char) : Except SyntaxError (List Token) :=
  match fuel, cs with
  | _, [] => .ok acc.reverse
  | 0, c :: _ => .error (.unexpectedCharacter c)
  | fuel + 1, c :: cs =>
    if isSeparator c then scan fuel acc cs
    else if c = '#' then scan fuel acc (cs.dropWhile fun d => !isLineEnd d)
    else
      match next c cs with
      | .ok (t, rest) => scan fuel (t :: acc) rest
      | .error e => .error e

/-- The tokens of a document with their places. -/
def lexemes (text : String) : Except SyntaxError (List Lexeme) := do
  let cs := text.toList
  let ts ← scan cs.length [] cs
  .ok (ts.zipIdx.map fun (t, i) => ⟨t, i⟩)

end Token

end RecordGateway.GraphQL
