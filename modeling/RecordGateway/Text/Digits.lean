/-! # Digits

Numbers that are written with decimal or hexadecimal digits.
-/

namespace RecordGateway

/-- The value of a hexadecimal digit of either case. -/
def hexDigit? (c : Char) : Option Nat :=
  if c.isDigit then some (c.toNat - '0'.toNat)
  else if 'a' ≤ c ∧ c ≤ 'f' then some (c.toNat - 'a'.toNat + 10)
  else if 'A' ≤ c ∧ c ≤ 'F' then some (c.toNat - 'A'.toNat + 10)
  else none

/-- The value of a hexadecimal digit in ASCII. -/
def hexByte? (b : UInt8) : Option Nat := hexDigit? (Char.ofNat b.toNat)

def isHexDigit (c : Char) : Bool := (hexDigit? c).isSome

/-- The number that the values of digits stand for to a base, the first of them weighing most. -/
def numberIn (base : Nat) (ds : List Nat) : Nat := ds.foldl (fun n d => base * n + d) 0

/-- The number that hexadecimal digits write; there must be at least one, and nothing else. -/
def hexNumber? (cs : List Char) : Option Nat :=
  if cs.isEmpty then none else (cs.mapM hexDigit?).map (numberIn 16)

/-- The number that decimal digits write; there must be at least one, and nothing else. -/
def decimal? (cs : List Char) : Option Nat :=
  if cs.isEmpty || !cs.all Char.isDigit then none else (cs.mapM hexDigit?).map (numberIn 10)

/-- A decimal number that is at most `max`. -/
def decimalUpTo? (max : Nat) (cs : List Char) : Option Nat := (decimal? cs).filter (· ≤ max)

end RecordGateway
