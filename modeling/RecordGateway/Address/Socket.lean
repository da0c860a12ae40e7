import RecordGateway.Text.Digits

/-! # Socket addresses

An address of the fourth version is four decimal bytes; one of the sixth is eight groups of up to
four hexadecimal digits, where `::` stands for one or more groups of zeros and the last two groups
may be written as an address of the fourth version. A socket address adds a port, and brackets and
perhaps a scope around the sixth version. Nothing may stand around any of them.
-/

namespace RecordGateway

inductive IpAddress where
  | v4 (bytes : List Nat)
  /-- Eight groups of 16 bits. -/
  | v6 (groups : List Nat)
  deriving Repr, DecidableEq

structure SocketAddress where
  ip : IpAddress
  scope : Nat := 0
  port : Nat
  deriving Repr, DecidableEq

/-! ## Addresses -/

namespace IpAddress

/-- A decimal byte without leading zeros. -/
def byte? (ds : List Char) : Option Nat :=
  if ds.length > 1 && ds.head? = some '0' then none else decimalUpTo? 255 ds

/-- The bytes of an address of the fourth version. -/
def bytes? (cs : List Char) : Option (List Nat) :=
  let parts := cs.splitOn '.'
  if parts.length = 4 then parts.mapM byte? else none

/-- One to four hexadecimal digits. -/
def group? (ds : List Char) : Option Nat :=
  if ds.length > 4 then none else hexNumber? ds

/-- A run of groups with colons between them, perhaps empty. The last part may be four decimal bytes
if `tail` is set, and counts for two groups then. -/
def groups? (tail : Bool) (cs : List Char) : Option (List Nat) :=
  if cs.isEmpty then some []
  else
    let parts := cs.splitOn ':'
    let last := parts.getLastD []
    match if tail then bytes? last else none with
    | some [a, b, c, d] =>
      (parts.dropLast.mapM group?).map fun gs => gs ++ [256 * a + b, 256 * c + d]
    | _ => parts.mapM group?

/-- Splits a text around its first `::`. -/
def cutAtGap? : List Char → Option (List Char × List Char)
  | ':' :: ':' :: cs => some ([], cs)
  | c :: cs => (cutAtGap? cs).map fun (front, back) => (c :: front, back)
  | [] => none

/-- The groups of an address of the sixth version. -/
def expand? (cs : List Char) : Option (List Nat) :=
  match cutAtGap? cs with
  | none => (groups? true cs).bind fun gs => if gs.length = 8 then some gs else none
  | some (front, back) => do
    let front ← groups? false front
    let back ← groups? true back
    if front.length + back.length ≤ 7 then
      some (front ++ List.replicate (8 - front.length - back.length) 0 ++ back)
    else none

/-! ### Writing -/

def renderBytes (bs : List Nat) : String := ".".intercalate (bs.map toString)

def renderGroups (gs : List Nat) : String :=
  ":".intercalate (gs.map fun g => String.ofList (Nat.toDigits 16 g))

/-- The first of the longest runs of zeros: where it starts, and its length. -/
def longestGap (gs : List Nat) : Nat × Nat :=
  (List.range gs.length).foldl
    (fun best i =>
      let n := ((gs.drop i).takeWhile (· == 0)).length
      if n > best.2 then (i, n) else best)
    (0, 0)

/-- The text of an address. Of the sixth version the longest run of two or more zero groups is left
out, and an address that stands for one of the fourth version shows it. -/
def render : IpAddress → String
  | v4 bs => renderBytes bs
  | v6 [0, 0, 0, 0, 0, 0xFFFF, g, h] =>
    "::ffff:" ++ renderBytes [g / 256, g % 256, h / 256, h % 256]
  | v6 gs =>
    let (start, n) := longestGap gs
    if n > 1 then renderGroups (gs.take start) ++ "::" ++ renderGroups (gs.drop (start + n))
    else renderGroups gs

end IpAddress

/-! ## Addresses with ports -/

namespace SocketAddress

def port? (ds : List Char) : Option Nat := decimalUpTo? 65535 ds

/-- The texts before and after the last of a character. -/
def cutAtLast? (c : Char) (cs : List Char) : Option (List Char × List Char) :=
  let back := cs.reverse.takeWhile (· != c)
  if back.length < cs.length then
    some (cs.take (cs.length - back.length - 1), back.reverse)
  else none

/-- An address of the sixth version with an optional scope, which is a decimal number of 32 bits. -/
def scoped? (cs : List Char) : Option (IpAddress × Nat) :=
  match cs.splitOn '%' with
  | [ip] => (IpAddress.expand? ip).map fun gs => (.v6 gs, 0)
  | [ip, scope] => do
    let gs ← IpAddress.expand? ip
    let scope ← decimalUpTo? (UInt32.size - 1) scope
    some (.v6 gs, scope)
  | _ => none

def ofChars? : List Char → Option SocketAddress
  | '[' :: cs => do
    let (inside, outside) ← cutAtLast? ']' cs
    let (ip, scope) ← scoped? inside
    match outside with
    | ':' :: ds => (port? ds).map fun port => { ip, scope, port }
    | _ => none
  | cs => do
    let (ip, ds) ← cutAtLast? ':' cs
    let bytes ← IpAddress.bytes? ip
    let port ← port? ds
    some { ip := .v4 bytes, port }

def parse? (text : String) : Option SocketAddress := ofChars? text.toList

end SocketAddress

end RecordGateway
