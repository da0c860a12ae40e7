/-! # Numbers on the wire

A number is written in bytes of seven bits each, the lowest first; every byte but the last has its
high bit set. A number has 64 bits and is read from at most ten bytes, however it is padded.
-/

namespace RecordGateway.Wire.Varint

/-- The most bytes of a number. -/
def maxLength : Nat := 10

def encode (n : Nat) : List UInt8 :=
  if n < 128 then [UInt8.ofNat n] else UInt8.ofNat (n % 128 + 128) :: encode (n / 128)
termination_by n
decreasing_by omega

/-- A number of at most `room` bytes in front of some bytes, and what follows it. -/
def read? : (room : Nat) → List UInt8 → Option (Nat × List UInt8)
  | room + 1, b :: bs =>
    if b.toNat < 128 then some (b.toNat, bs)
    else (read? room bs).map fun (n, rest) => (b.toNat - 128 + 128 * n, rest)
  | _, _ => none

/-- The number in front of some bytes, and what follows it. -/
def decode? (bs : List UInt8) : Option (Nat × List UInt8) :=
  match read? maxLength bs with
  | some (n, rest) => if n < UInt64.size then some (n, rest) else none
  | none => none

end RecordGateway.Wire.Varint
