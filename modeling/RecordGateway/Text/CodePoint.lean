/-! # Code points

Every character has a number, its code point. Numbers of a certain range belong to no character:
they are the surrogates, and a high one followed by a low one stands for a character beyond 16 bits.
-/

namespace RecordGateway.CodePoint

/-- The character with a code point. -/
def char? (n : Nat) : Option Char :=
  if h : n.isValidChar then some (Char.ofNatAux n h) else none

theorem char?_toNat (c : Char) : char? c.toNat = some c := by
  have hc : c.toNat.isValidChar := c.valid
  rw [char?, dif_pos hc]
  rfl

def isHighSurrogate (n : Nat) : Bool := 0xD800 ≤ n && n < 0xDC00

theorem isHighSurrogate_toNat (c : Char) : isHighSurrogate c.toNat = false := by
  have hc : c.toNat < 0xD800 ∨ 0xDFFF < c.toNat ∧ c.toNat < 0x110000 := c.valid
  simp only [isHighSurrogate, Bool.and_eq_false_iff, decide_eq_false_iff_not]
  omega

def isLowSurrogate (n : Nat) : Bool := 0xDC00 ≤ n && n < 0xE000

/-- The code point that two surrogates stand for, a high one and a low one. -/
def ofPair (high low : Nat) : Nat := 0x10000 + (high - 0xD800) * 0x400 + (low - 0xDC00)

end RecordGateway.CodePoint
