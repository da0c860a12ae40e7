import RecordGateway.Http.Payload
import RecordGateway.Text.Digits
import RecordGateway.Text.Utf8

/-! # Form-encoded parameters

Parameters stand in a URL as names and values with `=` between them and `&` around. A blank is
written as a plus sign, and bytes other than letters, digits and four marks as a percent sign with
two digits. Reading is lenient: a percent sign without two digits stands for itself.
-/

namespace RecordGateway.Form

/-! ## Reading -/

/-- The bytes that percent signs and plus signs stand for. -/
def unescape : List UInt8 → List UInt8
  | [] => []
  | [b] => [if b = 43 then 32 else b]
  | [b, c] => (if b = 43 then 32 else b) :: unescape [c]
  | b :: c :: d :: bs =>
    if b = 37 then
      match hexByte? c, hexByte? d with
      | some h, some l => UInt8.ofNat (16 * h + l) :: unescape bs
      | _, _ => b :: unescape (c :: d :: bs)
    else (if b = 43 then 32 else b) :: unescape (c :: d :: bs)

/-- A name and its value, with the first `=` between them. -/
def pair (bs : List UInt8) : String × String :=
  let name := bs.takeWhile (· != 61)
  (Utf8.lossy (unescape name), Utf8.lossy (unescape (bs.drop (name.length + 1))))

/-- The parameters in some bytes. -/
def decode (bs : List UInt8) : Params := ((bs.splitOn 38).filter (!·.isEmpty)).map pair

/-- The parameters in a query. -/
def parse (query : String) : Params := decode query.toUTF8.toList

/-! ## Writing -/

/-- Whether a byte stands for itself. -/
def isPlain (b : UInt8) : Bool :=
  let n := b.toNat
  (48 ≤ n && n ≤ 57) || (65 ≤ n && n ≤ 90) || (97 ≤ n && n ≤ 122) ||
    [42, 45, 46, 95].contains n

def hexDigit (n : Nat) : Char := (Nat.digitChar n).toUpper

def escapeByte (b : UInt8) : List Char :=
  if isPlain b then [Char.ofNat b.toNat]
  else if b = 32 then ['+']
  else ['%', hexDigit (b.toNat / 16), hexDigit (b.toNat % 16)]

def escape (s : String) : List Char := s.toUTF8.toList.flatMap escapeByte

/-- The text of parameters. -/
def chars : Params → List Char
  | [] => []
  | [(n, v)] => escape n ++ '=' :: escape v
  | (n, v) :: p :: ps => escape n ++ '=' :: escape v ++ '&' :: chars (p :: ps)

def render (ps : Params) : String := String.ofList (chars ps)

end RecordGateway.Form
