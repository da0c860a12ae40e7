/-! # Reading bytes as text at any cost

Bytes that are no UTF-8 are replaced: each of the longest beginnings of a character that does not go
on as it should, and each byte that begins none, by one replacement character.
-/

namespace RecordGateway.Utf8

def replacement : Char := '\uFFFD'

/-- The bounds of the bytes that must follow a first byte; none if it begins no character. -/
def tails (first : Nat) : List (Nat × Nat) :=
  let any := (0x80, 0xBF)
  if 0xC2 ≤ first && first ≤ 0xDF then [any]
  else if first = 0xE0 then [(0xA0, 0xBF), any]
  else if first = 0xED then [(0x80, 0x9F), any]
  else if 0xE1 ≤ first && first ≤ 0xEF then [any, any]
  else if first = 0xF0 then [(0x90, 0xBF), any, any]
  else if first = 0xF4 then [(0x80, 0x8F), any, any]
  else if 0xF1 ≤ first && first ≤ 0xF3 then [any, any, any]
  else []

/-- The bits of a first byte that belong to the character. -/
def leadBits (first : Nat) : Nat :=
  if first < 0xE0 then first % 32 else if first < 0xF0 then first % 16 else first % 8

/-- Reads a byte where a character begins; `next` goes on with the bits so far and the bytes due. -/
def begin (b : Nat) (next : Nat → List (Nat × Nat) → List Char) : List Char :=
  if b < 0x80 then Char.ofNat b :: next 0 []
  else
    match tails b with
    | [] => replacement :: next 0 []
    | due => next (leadBits b) due

/-- Reads bytes within a character of which some bits are known and some bytes are due. -/
def lossyFrom (bits : Nat) : (due : List (Nat × Nat)) → List UInt8 → List Char
  | due, [] => if due.isEmpty then [] else [replacement]
  | due, b :: bs =>
    match due with
    | [] => begin b.toNat fun bits due => lossyFrom bits due bs
    | (low, high) :: due =>
      if low ≤ b.toNat && b.toNat ≤ high then
        let bits := bits * 64 + b.toNat % 64
        if due.isEmpty then Char.ofNat bits :: lossyFrom 0 [] bs else lossyFrom bits due bs
      else replacement :: begin b.toNat fun bits due => lossyFrom bits due bs

/-- The text of some bytes. -/
def lossy (bs : List UInt8) : String := String.ofList (lossyFrom 0 [] bs)

end RecordGateway.Utf8
