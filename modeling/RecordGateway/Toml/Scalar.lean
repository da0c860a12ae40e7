import RecordGateway.Decimal.Double
import RecordGateway.Text.CodePoint
import RecordGateway.Text.Digits
import RecordGateway.Toml.Value

/-! # TOML scalars

Strings of four kinds, numbers, truth values and dates, each read off the front of a list of
characters. A reader gives nothing where the text is not of its kind.
-/

namespace RecordGateway.Toml

/-- What a reader found, and the rest of the text. -/
abbrev Read (α : Type) := Option (α × List Char)

/-! ## Character classes -/

def isBlank (c : Char) : Bool := c == ' ' || c == '\t'

/-- Characters of comments and literal strings: no control characters but the tab. -/
def isPlain (c : Char) : Bool := c == '\t' || (c.toNat ≥ 0x20 && c.toNat != 0x7F)

def isOctal (c : Char) : Bool := '0' ≤ c && c ≤ '7'

def isBinary (c : Char) : Bool := c == '0' || c == '1'

/-- The number that digits write to a base. -/
def numberOf (base : Nat) (ds : List Char) : Nat := numberIn base (ds.filterMap hexDigit?)

/-- Takes a line end off the front. -/
def newline? : List Char → Option (List Char)
  | '\n' :: cs => some cs
  | '\r' :: '\n' :: cs => some cs
  | _ => none

/-! ## Strings -/

/-- The character with a number of so many hexadecimal digits. -/
def codePoint? (count : Nat) (cs : List Char) : Read Char :=
  let ds := cs.take count
  if ds.length = count then
    ((hexNumber? ds).bind CodePoint.char?).map fun c => (c, cs.drop count)
  else none

/-- The character that an escape after its backslash stands for. -/
def escape? : List Char → Read Char
  | 'b' :: cs => some ('\x08', cs)
  | 't' :: cs => some ('\t', cs)
  | 'n' :: cs => some ('\n', cs)
  | 'f' :: cs => some ('\x0c', cs)
  | 'r' :: cs => some ('\r', cs)
  | '"' :: cs => some ('"', cs)
  | '\\' :: cs => some ('\\', cs)
  | 'u' :: cs => codePoint? 4 cs
  | 'U' :: cs => codePoint? 8 cs
  | _ => none

/-- A string in double quotes, after the first. `fuel` is at least the length of the text. -/
def basic? (fuel : Nat) (acc : List Char) (cs : List Char) : Read String :=
  match fuel, cs with
  | fuel + 1, c :: cs =>
    if c = '"' then some (String.ofList acc.reverse, cs)
    else if c = '\\' then
      match escape? cs with
      | some (d, rest) => basic? fuel (d :: acc) rest
      | none => none
    else if isPlain c then basic? fuel (c :: acc) cs
    else none
  | _, _ => none

/-- A string in single quotes, after the first. -/
def literal? (acc : List Char) : List Char → Read String
  | [] => none
  | c :: cs =>
    if c = '\'' then some (String.ofList acc.reverse, cs)
    else if isPlain c then literal? (c :: acc) cs
    else none

/-- The rest of a string on several lines once a run of its quotes is met: three or more of them end
it, and up to two of those belong to it. Gives back the number of quotes that belong to it, and the
rest if it ends. -/
def closing (q : Char) (cs : List Char) : Nat × Option (List Char) :=
  let n := (cs.takeWhile (· == q)).length
  if n < 3 then (n, none) else (min n 5 - 3, some (cs.drop (min n 5)))

/-- Skips the line end after a backslash, and the blanks and line ends after it. -/
def continuation? (cs : List Char) : Option (List Char) :=
  (newline? (cs.dropWhile isBlank)).map fun rest =>
    rest.dropWhile fun c => isBlank c || c == '\n' || c == '\r'

/-- Whether a carriage return stands without a line feed after it. -/
def hasBareReturn : List Char → Bool
  | [] => false
  | '\r' :: '\n' :: cs => hasBareReturn cs
  | '\r' :: _ => true
  | _ :: cs => hasBareReturn cs

/-- A string in three double quotes, after the first line end. -/
def multiBasic? (fuel : Nat) (acc : List Char) (cs : List Char) : Read String :=
  match fuel, cs with
  | fuel + 1, c :: cs =>
    if c = '"' then
      match closing '"' (c :: cs) with
      | (n, some rest) => some (String.ofList (List.replicate n '"' ++ acc).reverse, rest)
      | (n, none) => multiBasic? fuel (List.replicate n '"' ++ acc) (cs.drop (n - 1))
    else if c = '\\' then
      match escape? cs with
      | some (d, rest) => multiBasic? fuel (d :: acc) rest
      | none =>
        match continuation? cs with
        | some rest =>
          if hasBareReturn (cs.take (cs.length - rest.length)) then none
          else multiBasic? fuel acc rest
        | none => none
    else
      match newline? (c :: cs) with
      | some rest => multiBasic? fuel ('\n' :: acc) rest
      | none => if isPlain c then multiBasic? fuel (c :: acc) cs else none
  | _, _ => none

/-- A string in three single quotes, after the first line end. -/
def multiLiteral? (fuel : Nat) (acc : List Char) (cs : List Char) : Read String :=
  match fuel, cs with
  | fuel + 1, c :: cs =>
    if c = '\'' then
      match closing '\'' (c :: cs) with
      | (n, some rest) => some (String.ofList (List.replicate n '\'' ++ acc).reverse, rest)
      | (n, none) => multiLiteral? fuel (List.replicate n '\'' ++ acc) (cs.drop (n - 1))
    else
      match newline? (c :: cs) with
      | some rest => multiLiteral? fuel ('\n' :: acc) rest
      | none => if isPlain c then multiLiteral? fuel (c :: acc) cs else none
  | _, _ => none

/-- Drops one line end. -/
def afterNewline (cs : List Char) : List Char := (newline? cs).getD cs

/-- A string of any kind. -/
def string? : List Char → Read String
  | '"' :: '"' :: '"' :: cs => multiBasic? cs.length [] (afterNewline cs)
  | '"' :: cs => basic? cs.length [] cs
  | '\'' :: '\'' :: '\'' :: cs => multiLiteral? cs.length [] (afterNewline cs)
  | '\'' :: cs => literal? [] cs
  | _ => none

/-! ## Numbers -/

/-- The digits after those in `acc`; `due` tells that a digit must come next. -/
def moreDigits (ok : Char → Bool) (acc : List Char) : (due : Bool) → List Char → Read (List Char)
  | due, [] => if due then none else some (acc.reverse, [])
  | due, c :: cs =>
    if ok c then moreDigits ok (c :: acc) false cs
    else if due then none
    else if c = '_' then moreDigits ok acc true cs
    else some (acc.reverse, c :: cs)

/-- Digits with single underscores between them, without the underscores. -/
def digits? (ok : Char → Bool) (cs : List Char) : Read (List Char) := moreDigits ok [] true cs

/-- Whether an integer has 64 bits, the sign among them. -/
def integerInRange (n : Int) : Bool := Int64.minValue.toInt ≤ n && n ≤ Int64.maxValue.toInt

/-- An optional sign. -/
def sign : List Char → List Char × List Char
  | '-' :: cs => (['-'], cs)
  | '+' :: cs => (['+'], cs)
  | cs => ([], cs)

/-- A decimal integer without leading zeros, or zero; with its sign. -/
def decimal? (cs : List Char) : Read (List Char × List Char) :=
  let (s, cs) := sign cs
  match cs with
  | '0' :: rest => some ((s, ['0']), rest)
  | _ => (digits? Char.isDigit cs).map fun (ds, rest) => ((s, ds), rest)

def integer? (cs : List Char) : Read Toml :=
  let prefixed (base : Nat) (ok : Char → Bool) (cs : List Char) : Read Toml :=
    match digits? ok cs with
    | some (ds, rest) =>
      let n : Int := numberOf base ds
      if integerInRange n then some (.integer n, rest) else none
    | none => none
  match cs with
  | '0' :: 'x' :: cs => prefixed 16 isHexDigit cs
  | '0' :: 'o' :: cs => prefixed 8 isOctal cs
  | '0' :: 'b' :: cs => prefixed 2 isBinary cs
  | _ =>
    match decimal? cs with
    | some ((s, ds), rest) =>
      let n : Int := if s == ['-'] then -(numberOf 10 ds : Int) else numberOf 10 ds
      if integerInRange n then some (.integer n, rest) else none
    | none => none

/-- An exponent: a mark, an optional sign and digits. -/
def exponent? : List Char → Read (List Char)
  | c :: cs =>
    if c = 'e' ∨ c = 'E' then
      let (s, cs) := sign cs
      (digits? Char.isDigit cs).map fun (ds, rest) => (s ++ ds, rest)
    else none
  | [] => none

/-- Whether a positive decimal is beyond the doubles: its digits, those of its fraction, and its
exponent. -/
def tooLarge (ds fs es : List Char) : Bool :=
  let n := numberOf 10 (ds ++ fs)
  let (negative, es) := match es with
    | '-' :: es => (true, es)
    | '+' :: es => (false, es)
    | es => (false, es)
  let e : Int := numberOf 10 (es.dropWhile (· == '0'))
  let e := (if negative then -e else e) - fs.length
  if n = 0 then false
  else if e + (ds ++ fs).length > 400 then n ≥ Nat.pow 10 ((400 : Int) - e).toNat || e > 400
  else if e ≥ 0 then (Double.ofRatio (n * Nat.pow 10 e.toNat) 1).isNone
  else false

/-- A float: an integer part and a fraction, an exponent or both, or a special word. -/
def float? (cs : List Char) : Read Toml :=
  let special : Read Toml :=
    let (s, rest) := sign cs
    match rest with
    | 'i' :: 'n' :: 'f' :: rest => some (.float (String.ofList (s ++ ['i', 'n', 'f'])), rest)
    | 'n' :: 'a' :: 'n' :: rest => some (.float (String.ofList (s ++ ['n', 'a', 'n'])), rest)
    | _ => none
  let text (s ds fs es : List Char) : String :=
    String.ofList (s ++ ds ++ (if fs.isEmpty then [] else '.' :: fs) ++
      (if es.isEmpty then [] else 'e' :: es))
  let checked (s ds fs es rest : List Char) : Read Toml :=
    if s != ['-'] && tooLarge ds fs es then none else some (.float (text s ds fs es), rest)
  match decimal? cs with
  | none => special
  | some ((s, ds), '.' :: rest) =>
    match digits? Char.isDigit rest with
    | none => none
    | some (fs, rest) =>
      match exponent? rest with
      | some (es, rest) => checked s ds fs es rest
      | none => checked s ds fs [] rest
  | some ((s, ds), rest) =>
    match exponent? rest with
    | some (es, rest) => checked s ds [] es rest
    | none => none

/-! ## Dates -/

/-- A number of exactly so many digits within bounds. -/
def field? (count low high : Nat) (cs : List Char) : Read Nat :=
  let ds := cs.take count
  let n := numberOf 10 ds
  if ds.length = count && ds.all Char.isDigit && low ≤ n && n ≤ high then some (n, cs.drop count)
  else none

def isLeap (y : Nat) : Bool := y % 4 = 0 && (y % 100 ≠ 0 || y % 400 = 0)

def daysIn (y m : Nat) : Nat :=
  if m = 2 then (if isLeap y then 29 else 28) else if [4, 6, 9, 11].contains m then 30 else 31

/-- Takes a character off the front. -/
def char? (c : Char) : List Char → Option (List Char)
  | d :: cs => if c = d then some cs else none
  | [] => none

/-- A date; gives back the rest. -/
def date? (cs : List Char) : Option (List Char) := do
  let (y, cs) ← field? 4 0 9999 cs
  let cs ← char? '-' cs
  let (m, cs) ← field? 2 1 12 cs
  let cs ← char? '-' cs
  let (_, cs) ← field? 2 1 (daysIn y m) cs
  some cs

/-- A time of the day, perhaps with a fraction of a second. -/
def time? (cs : List Char) : Option (List Char) := do
  let (_, cs) ← field? 2 0 23 cs
  let cs ← char? ':' cs
  let (_, cs) ← field? 2 0 59 cs
  let cs ← char? ':' cs
  let (_, cs) ← field? 2 0 60 cs
  match cs with
  | '.' :: d :: rest => if d.isDigit then some (rest.dropWhile Char.isDigit) else none
  | '.' :: [] => none
  | _ => some cs

/-- An optional offset from universal time. -/
def offset? : List Char → Option (List Char)
  | 'Z' :: cs => some cs
  | 'z' :: cs => some cs
  | c :: cs =>
    if c = '+' ∨ c = '-' then do
      let (_, cs) ← field? 2 0 23 cs
      let cs ← char? ':' cs
      let (_, cs) ← field? 2 0 59 cs
      some cs
    else some (c :: cs)
  | [] => some []

/-- A date, a time, or both with the offset of the time. -/
def datetime? (cs : List Char) : Read Toml :=
  let done (rest : List Char) : Toml × List Char :=
    (.datetime (String.ofList (cs.take (cs.length - rest.length))), rest)
  match date? cs with
  | some rest =>
    match rest with
    | c :: after =>
      if c = 'T' ∨ c = 't' then ((time? after).bind offset?).map done
      else if c = ' ' then
        match time? after with
        | some after => (offset? after).map done
        | none => some (done rest)
      else some (done rest)
    | [] => some (done rest)
  | none => (time? cs).map done

end RecordGateway.Toml
