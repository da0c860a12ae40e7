import RecordGateway.Text.Digits

/-! # The syntax of JSON

`JsonSyntax.parse?` reads the bytes of a JSON text into a tree that keeps strings and numbers as
they are written. Whether a string is proper Unicode and whether a number is in range are questions
for those who need the value (`Json.ofSyntax?`).
-/

namespace RecordGateway

/-- A number as it is written. -/
structure NumberText where
  negative : Bool
  digits : List Nat
  /-- The digits after the point. -/
  fraction : Option (List Nat)
  /-- The sign and the digits of the exponent. -/
  exponent : Option (Bool × List Nat)
  deriving Repr, DecidableEq

/-- A part of a string: a byte that stands for itself, or a `\u` escape. -/
inductive StringPart where
  | byte (b : UInt8)
  | unit (n : Nat)
  deriving Repr, DecidableEq

inductive JsonSyntax where
  | null
  | bool (b : Bool)
  | number (n : NumberText)
  | string (s : List StringPart)
  | array (items : List JsonSyntax)
  | object (members : List (List StringPart × JsonSyntax))
  deriving Repr

namespace JsonSyntax

/-- The byte of an ASCII character. -/
def ascii (c : Char) : UInt8 := c.val.toUInt8

def isSpace (b : UInt8) : Bool :=
  b == ascii ' ' || b == ascii '\t' || b == ascii '\n' || b == ascii '\r'

def skipSpace (bs : List UInt8) : List UInt8 := bs.dropWhile isSpace

/-- Takes the bytes of a word off the front. -/
def word? (w : List Char) (bs : List UInt8) : Option (List UInt8) :=
  match w, bs with
  | [], bs => some bs
  | c :: w, b :: bs => if b == ascii c then word? w bs else none
  | _ :: _, [] => none

/-! ## Numbers -/

def isDigit (b : UInt8) : Bool := ascii '0' ≤ b && b ≤ ascii '9'

def digitValue (b : UInt8) : Nat := b.toNat - (ascii '0').toNat

/-- Takes a run of digits off the front; there must be at least one. -/
def digits? (bs : List UInt8) : Option (List Nat × List UInt8) :=
  match bs.takeWhile isDigit with
  | [] => none
  | ds => some (ds.map digitValue, bs.dropWhile isDigit)

def fraction? (bs : List UInt8) : Option (Option (List Nat) × List UInt8) :=
  match bs with
  | b :: rest =>
    if b == ascii '.' then (digits? rest).map fun (ds, rest) => (some ds, rest)
    else some (none, bs)
  | [] => some (none, bs)

/-- An optional sign; `true` for a minus. -/
def sign (bs : List UInt8) : Bool × List UInt8 :=
  match bs with
  | b :: rest =>
    if b == ascii '-' then (true, rest) else if b == ascii '+' then (false, rest) else (false, bs)
  | [] => (false, bs)

def exponent? (bs : List UInt8) : Option (Option (Bool × List Nat) × List UInt8) :=
  match bs with
  | b :: rest =>
    if b == ascii 'e' || b == ascii 'E' then
      let (s, rest) := sign rest
      (digits? rest).map fun (ds, rest) => (some (s, ds), rest)
    else some (none, bs)
  | [] => some (none, bs)

/-- A number after its minus sign, if it has one. Zero is the only integer part that starts with
zero. -/
def number? (negative : Bool) (bs : List UInt8) : Option (NumberText × List UInt8) := do
  let (ds, bs) ← digits? bs
  if ds.head? == some 0 && ds.length > 1 then none
  let (f, bs) ← fraction? bs
  let (e, bs) ← exponent? bs
  some (⟨negative, ds, f, e⟩, bs)

/-! ## Strings -/

/-- The number of four hexadecimal digits. -/
def hex4? (a b c d : UInt8) : Option Nat := ([a, b, c, d].mapM hexByte?).map (numberIn 16)

/-- What a one-letter escape stands for. -/
def simpleEscape? (b : UInt8) : Option UInt8 :=
  if b == ascii '"' || b == ascii '\\' || b == ascii '/' then some b
  else if b == ascii 'b' then some 8
  else if b == ascii 'f' then some 12
  else if b == ascii 'n' then some 10
  else if b == ascii 'r' then some 13
  else if b == ascii 't' then some 9
  else none

/-- Reads a string after its opening quote; `acc` holds the parts so far, the last one first. -/
def string? (acc : List StringPart) : List UInt8 → Option (List StringPart × List UInt8)
  | [] => none
  | b :: bs =>
    if b == ascii '"' then some (acc.reverse, bs)
    else if b < 0x20 then none
    else if b == ascii '\\' then
      match bs with
      | [] => none
      | e :: bs =>
        if e == ascii 'u' then
          match bs with
          | p :: q :: r :: s :: bs =>
            match hex4? p q r s with
            | some n => string? (.unit n :: acc) bs
            | none => none
          | _ => none
        else
          match simpleEscape? e with
          | some c => string? (.byte c :: acc) bs
          | none => none
    else string? (.byte b :: acc) bs

/-! ## Values -/

mutual

/-- Reads a value; `fuel` is at least the number of bytes. -/
def value? : (fuel : Nat) → List UInt8 → Option (JsonSyntax × List UInt8)
  | 0, _ => none
  | fuel + 1, bs =>
    match skipSpace bs with
    | [] => none
    | b :: bs =>
      if b == ascii '"' then (string? [] bs).map fun (s, rest) => (.string s, rest)
      else if b == ascii '[' then
        match skipSpace bs with
        | [] => none
        | c :: rest =>
          if c == ascii ']' then some (.array [], rest)
          else (items? fuel (c :: rest)).map fun (vs, rest) => (.array vs, rest)
      else if b == ascii '\x7b' then
        match skipSpace bs with
        | [] => none
        | c :: rest =>
          if c == ascii '\x7d' then some (.object [], rest)
          else (members? fuel (c :: rest)).map fun (ms, rest) => (.object ms, rest)
      else if b == ascii '-' then (number? true bs).map fun (n, rest) => (.number n, rest)
      else if isDigit b then (number? false (b :: bs)).map fun (n, rest) => (.number n, rest)
      else if b == ascii 'n' then (word? ['u', 'l', 'l'] bs).map fun rest => (.null, rest)
      else if b == ascii 't' then (word? ['r', 'u', 'e'] bs).map fun rest => (.bool true, rest)
      else if b == ascii 'f' then
        (word? ['a', 'l', 's', 'e'] bs).map fun rest => (.bool false, rest)
      else none

/-- Reads the items of an array, at least one, and the bracket after them. -/
def items? : (fuel : Nat) → List UInt8 → Option (List JsonSyntax × List UInt8)
  | 0, _ => none
  | fuel + 1, bs =>
    match value? fuel bs with
    | none => none
    | some (v, rest) =>
      match skipSpace rest with
      | [] => none
      | c :: rest =>
        if c == ascii ',' then (items? fuel rest).map fun (vs, rest) => (v :: vs, rest)
        else if c == ascii ']' then some ([v], rest)
        else none

/-- Reads the members of an object, at least one, and the brace after them. -/
def members? : (fuel : Nat) → List UInt8 → Option (List (List StringPart × JsonSyntax) × List UInt8)
  | 0, _ => none
  | fuel + 1, bs =>
    match skipSpace bs with
    | [] => none
    | q :: rest =>
      if q == ascii '"' then
        match string? [] rest with
        | none => none
        | some (name, rest) =>
          match skipSpace rest with
          | [] => none
          | c :: rest =>
            if c == ascii ':' then
              match value? fuel rest with
              | none => none
              | some (v, rest) =>
                match skipSpace rest with
                | [] => none
                | c :: rest =>
                  if c == ascii ',' then
                    (members? fuel rest).map fun (ms, rest) => ((name, v) :: ms, rest)
                  else if c == ascii '\x7d' then some ([(name, v)], rest)
                  else none
            else none
      else none

end

/-- The one value of a JSON text, with nothing but space around it. -/
def parse? (bs : List UInt8) : Option JsonSyntax :=
  match value? (2 * bs.length + 1) bs with
  | some (v, rest) => if (skipSpace rest).isEmpty then some v else none
  | none => none

end JsonSyntax

end RecordGateway
