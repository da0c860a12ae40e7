import RecordGateway.Json.Basic
import RecordGateway.Decimal.Shortest

/-! # Writing JSON values

`Json.render` writes a value without any space, `Json.pretty` with a line for each item. Strings
escape the quote, the backslash and control characters; all else stands for itself. Doubles are
written with the fewest digits that read back, with an exponent outside `1e-5 ≤ |x| < 1e16`.
-/

namespace RecordGateway.Json

/-! ## Strings -/

/-- A lower-case hexadecimal digit. -/
def hexDigit (n : Nat) : Char := Nat.digitChar n

/-- A character as it stands in a string. -/
def escapeChar (c : Char) : List Char :=
  if c = '"' then ['\\', '"']
  else if c = '\\' then ['\\', '\\']
  else if c = '\n' then ['\\', 'n']
  else if c = '\r' then ['\\', 'r']
  else if c = '\t' then ['\\', 't']
  else if c = '\x08' then ['\\', 'b']
  else if c = '\x0c' then ['\\', 'f']
  else if c.toNat < 0x20 then
    ['\\', 'u', '0', '0', hexDigit (c.toNat / 16), hexDigit (c.toNat % 16)]
  else [c]

def quote (s : String) : List Char := '"' :: s.toList.flatMap escapeChar ++ ['"']

/-! ## Numbers -/

/-- A decimal with the point after `k` of its digits, with a digit on either side. -/
def positional (ds : List Char) (k : Int) : List Char :=
  if k ≤ 0 then ['0', '.'] ++ List.replicate (-k).toNat '0' ++ ds
  else if ds.length ≤ k.toNat then ds ++ List.replicate (k.toNat - ds.length) '0' ++ ['.', '0']
  else ds.take k.toNat ++ ['.'] ++ ds.drop k.toNat

/-- A decimal with the point after its first digit and an exponent with a sign. -/
def scientific (ds : List Char) (k : Int) : List Char :=
  let e := k - 1
  ds.take 1 ++ (if ds.length > 1 then '.' :: ds.drop 1 else []) ++ ['e'] ++
    (if e < 0 then ['-'] else ['+']) ++ Nat.toDigits 10 e.natAbs

/-- Decimals with at most sixteen digits before the point and at most four zeros after it are
written without an exponent. -/
def isPositional (k : Int) : Bool := -5 < k && k ≤ 16

def renderDouble (d : Double) : List Char :=
  (if d.negative then ['-'] else []) ++
    (if d.isZero then ['0', '.', '0']
    else
      let (ds, k) := d.digits
      if isPositional k then positional ds k else scientific ds k)

def renderInt (n : Int) : List Char :=
  (if n < 0 then ['-'] else []) ++ Nat.toDigits 10 n.natAbs

def renderNumber : Number → List Char
  | .int n => renderInt n
  | .double d => renderDouble d

/-! ## Compact text -/

mutual

/-- The characters of a value, without any space. -/
def chars : Json → List Char
  | .null => ['n', 'u', 'l', 'l']
  | .bool true => ['t', 'r', 'u', 'e']
  | .bool false => ['f', 'a', 'l', 's', 'e']
  | .number n => renderNumber n
  | .string s => quote s
  | .array vs => '[' :: itemChars vs ++ [']']
  | .object ms => '\x7b' :: memberChars ms ++ ['\x7d']

def itemChars : List Json → List Char
  | [] => []
  | [v] => chars v
  | v :: w :: vs => chars v ++ ',' :: itemChars (w :: vs)

def memberChars : List (String × Json) → List Char
  | [] => []
  | [(n, v)] => quote n ++ ':' :: chars v
  | (n, v) :: m :: ms => quote n ++ ':' :: chars v ++ ',' :: memberChars (m :: ms)

end

/-- The text of a value, without any space. -/
def render (j : Json) : String := String.ofList j.chars

/-! ## Text with lines -/

/-- A line end and two blanks for each level. -/
def newline (level : Nat) : List Char := '\n' :: List.replicate (2 * level) ' '

mutual

/-- The characters of a value at a level of indentation, with a line for each item. -/
def prettyChars (level : Nat) : Json → List Char
  | .null => ['n', 'u', 'l', 'l']
  | .bool true => ['t', 'r', 'u', 'e']
  | .bool false => ['f', 'a', 'l', 's', 'e']
  | .number n => renderNumber n
  | .string s => quote s
  | .array [] => ['[', ']']
  | .array (v :: vs) => '[' :: prettyItems (level + 1) (v :: vs) ++ newline level ++ [']']
  | .object [] => ['\x7b', '\x7d']
  | .object (m :: ms) =>
    '\x7b' :: prettyMembers (level + 1) (m :: ms) ++ newline level ++ ['\x7d']

def prettyItems (level : Nat) : List Json → List Char
  | [] => []
  | [v] => newline level ++ prettyChars level v
  | v :: w :: vs => newline level ++ prettyChars level v ++ ',' :: prettyItems level (w :: vs)

def prettyMembers (level : Nat) : List (String × Json) → List Char
  | [] => []
  | [(n, v)] => newline level ++ quote n ++ [':', ' '] ++ prettyChars level v
  | (n, v) :: m :: ms =>
    newline level ++ quote n ++ [':', ' '] ++ prettyChars level v ++
      ',' :: prettyMembers level (m :: ms)

end

/-- The text of a value with a line for each item, indented by two blanks a level. -/
def pretty (j : Json) : String := String.ofList (j.prettyChars 0)

end RecordGateway.Json
