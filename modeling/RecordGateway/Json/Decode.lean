import RecordGateway.Json.Basic
import RecordGateway.Json.Syntax
import RecordGateway.Text.CodePoint

/-! # Reading JSON values

`Json.parse` reads the bytes of a JSON text. Beyond the syntax, strings must be Unicode, numbers
must be in the range of doubles, and arrays and objects may nest `Json.nestingLimit` levels. Of
members with one name the last counts.
-/

namespace RecordGateway.Json

inductive ReadError where
  | malformed
  deriving Repr, DecidableEq

/-! ## Numbers

A number with a point, an exponent or too many digits becomes a double in two roundings: its leading
digits as an integer of 64 bits, then one multiplication with or division by a power of ten. -/

/-- Appends digits to a number as long as it has 64 bits; gives back the number of digits
that no longer fit. -/
def gather (n : Nat) : List Nat → Nat × Nat
  | [] => (n, 0)
  | d :: ds => if 10 * n + d < UInt64.size then gather (10 * n + d) ds else (n, ds.length + 1)

/-- Multiplies a double by a power of ten; a power below the range is applied in steps. -/
def scaleByTen : (steps : Nat) → Double → Int → Option Double
  | 0, f, _ => some f
  | steps + 1, f, e =>
    if e.natAbs ≤ 308 then
      (Double.ofNat (Nat.pow 10 e.natAbs)).bind fun p => if e ≥ 0 then f.times p else f.dividedBy p
    else if f.isZero then some f
    else if e ≥ 0 then none
    else (Double.ofNat (Nat.pow 10 308)).bind fun p =>
      (f.dividedBy p).bind fun f => scaleByTen steps f (e + 308)

/-- All exponents are below this number; larger ones count as without bound. -/
def exponentBound : Nat := 2147483648

/-- The value of the digits of an exponent, unless it is without bound. -/
def exponentValue? (ds : List Nat) : Option Nat :=
  let n := ds.foldl (fun n d => min (10 * n + d) exponentBound) 0
  if n < exponentBound then some n else none

/-- The double with the given leading digits, their place value and exponent, without a sign. -/
def doubleOf? (n : Nat) (place : Int) : Option (Bool × List Nat) → Option Double
  | none => (Double.ofNat n).bind fun f => scaleByTen 4 f place
  | some (negative, ds) =>
    match exponentValue? ds with
    | some e =>
      (Double.ofNat n).bind fun f => scaleByTen 4 f (if negative then place - e else place + e)
    | none => if n != 0 && !negative then none else some .zero

/-- The value of a number, if it is in range. -/
def Number.ofText? (t : NumberText) : Option Number :=
  let (n, lost) := gather 0 t.digits
  match t.fraction, t.exponent with
  | none, none =>
    if lost = 0 ∧ ¬ t.negative then some (.int n)
    else if lost = 0 ∧ 0 < n ∧ Number.fits (-n) then some (.int (-n))
    else (doubleOf? n lost none).map fun d => .double (d.withSign t.negative)
  | fraction, e =>
    let ds := fraction.getD []
    let (m, ignored) := gather n ds
    (doubleOf? m ((lost : Int) - (ds.length - ignored : Nat)) e).map fun d =>
      .double (d.withSign t.negative)

/-! ## Strings -/

/-- The bytes of a code point, unless it is half of a surrogate pair. -/
@[irreducible] def codePointBytes? (n : Nat) : Option (List UInt8) :=
  (CodePoint.char? n).map String.utf8EncodeChar

/-- The bytes that the parts of a string stand for; `acc` holds the ones so far, the last first. -/
def partBytes? (acc : List UInt8) : List StringPart → Option (List UInt8)
  | [] => some acc.reverse
  | .byte b :: ps => partBytes? (b :: acc) ps
  | .unit n :: ps =>
    if CodePoint.isHighSurrogate n then
      match ps with
      | .unit m :: ps =>
        if CodePoint.isLowSurrogate m then
          match codePointBytes? (CodePoint.ofPair n m) with
          | some bs => partBytes? (bs.reverse ++ acc) ps
          | none => none
        else none
      | _ => none
    else
      match codePointBytes? n with
      | some bs => partBytes? (bs.reverse ++ acc) ps
      | none => none

/-- The text that the parts of a string write. -/
def text? (ps : List StringPart) : Option String :=
  (partBytes? [] ps).bind fun bs => String.fromUTF8? bs.toByteArray

/-! ## Values -/

/-- How deep arrays and objects may nest. -/
def nestingLimit : Nat := 127

mutual

/-- The value of a syntax tree, with room for so many levels of arrays and objects. -/
def ofSyntax? (room : Nat) : JsonSyntax → Option Json
  | .null => some .null
  | .bool b => some (.bool b)
  | .number t => (Number.ofText? t).map .number
  | .string ps => (text? ps).map .string
  | .array vs => if room = 0 then none else (itemsOf? (room - 1) vs).map .array
  | .object ms => if room = 0 then none else (membersOf? (room - 1) [] ms).map .object

def itemsOf? (room : Nat) : List JsonSyntax → Option (List Json)
  | [] => some []
  | v :: vs =>
    match ofSyntax? room v with
    | none => none
    | some j => (itemsOf? room vs).map (j :: ·)

def membersOf? (room : Nat) (o : Object) : List (List StringPart × JsonSyntax) → Option Object
  | [] => some o
  | (n, v) :: ms =>
    match text? n, ofSyntax? room v with
    | some n, some j => membersOf? room (o.insert n j) ms
    | _, _ => none

end

/-- The value that the bytes of a JSON text write. -/
def parseBytes (bs : List UInt8) : Except ReadError Json :=
  match (JsonSyntax.parse? bs).bind (ofSyntax? nestingLimit) with
  | some j => .ok j
  | none => .error .malformed

/-- The value that a JSON text writes. -/
def parse (text : String) : Except ReadError Json := parseBytes text.toUTF8.toList

end RecordGateway.Json
