import RecordGateway.Wire.Varint

/-! # Fields on the wire

A message is a sequence of fields, each with a number and a content of one of five shapes. A group
holds fields of its own up to a mark with its number. `Field.encode` writes a field and
`Field.decode?` reads one; groups nest `nestingLimit` levels.
-/

namespace RecordGateway.Wire

inductive Field where
  | varint (number : Nat) (value : Nat)
  | fixed64 (number : Nat) (bytes : List UInt8)
  | bytes (number : Nat) (content : List UInt8)
  | group (number : Nat) (fields : List Field)
  | fixed32 (number : Nat) (bytes : List UInt8)
  deriving Repr, Inhabited

/-- The levels of fields in a message; a nested message has one less than the one around it. -/
def nestingLimit : Nat := 100

namespace Field

def number : Field → Nat
  | varint n _ => n
  | fixed64 n _ => n
  | bytes n _ => n
  | group n _ => n
  | fixed32 n _ => n

/-! ## Writing -/

/-- The number and the shape of a field. -/
def key (number shape : Nat) : List UInt8 := Varint.encode (8 * number + shape)

/-- Bytes with their length in front. -/
def sized (content : List UInt8) : List UInt8 := Varint.encode content.length ++ content

mutual

def encode : Field → List UInt8
  | varint n v => key n 0 ++ Varint.encode v
  | fixed64 n bs => key n 1 ++ bs
  | bytes n bs => key n 2 ++ sized bs
  | group n fs => key n 3 ++ encodeAll fs ++ key n 4
  | fixed32 n bs => key n 5 ++ bs

/-- The bytes of fields one after the other. -/
def encodeAll : List Field → List UInt8
  | [] => []
  | f :: fs => encode f ++ encodeAll fs

end

/-! ## Reading -/

/-- The number and the shape in front of some bytes. The two together have 32 bits, and no field has
the number zero. -/
def key? (bs : List UInt8) : Option ((Nat × Nat) × List UInt8) :=
  match Varint.decode? bs with
  | some (k, rest) => if k < UInt32.size && 8 ≤ k then some ((k / 8, k % 8), rest) else none
  | none => none

/-- The first `n` bytes, and the others. -/
def take? (n : Nat) (bs : List UInt8) : Option (List UInt8 × List UInt8) :=
  if n ≤ bs.length then some (bs.take n, bs.drop n) else none

/-- Bytes with their length in front. -/
def sized? (bs : List UInt8) : Option (List UInt8 × List UInt8) :=
  match Varint.decode? bs with
  | some (n, rest) => take? n rest
  | none => none

/-- The field of a number and a shape, given a reader of the fields of a group. -/
def contentOf? (group : (number : Nat) → List UInt8 → Option (List Field × List UInt8))
    (number shape : Nat) (bs : List UInt8) : Option (Field × List UInt8) :=
  match shape with
  | 0 => (Varint.decode? bs).map fun (v, rest) => (varint number v, rest)
  | 1 => (take? 8 bs).map fun (b, rest) => (fixed64 number b, rest)
  | 2 => (sized? bs).map fun (b, rest) => (bytes number b, rest)
  | 3 => (group number bs).map fun (fs, rest) => (.group number fs, rest)
  | 5 => (take? 4 bs).map fun (b, rest) => (fixed32 number b, rest)
  | _ => none

/-- The fields of a group up to its end. `room` is the number of levels that the fields may take up,
and `fuel` is at least the number of bytes. -/
def groupOf? : (fuel room number : Nat) → List UInt8 → Option (List Field × List UInt8)
  | 0, _, _, _ => none
  | fuel + 1, room, number, bs =>
    match key? bs with
    | none => none
    | some ((n, shape), rest) =>
      if shape = 4 then if n = number then some ([], rest) else none
      else if room = 0 then none
      else
        match contentOf? (groupOf? fuel (room - 1)) n shape rest with
        | none => none
        | some (f, rest) =>
          (groupOf? fuel room number rest).map fun (fs, rest) => (f :: fs, rest)

/-- The field in front of some bytes, and what follows it, with room for so many levels. -/
def decode? (room : Nat) (bs : List UInt8) : Option (Field × List UInt8) :=
  match key? bs with
  | some ((n, shape), rest) =>
    if room = 0 then none else contentOf? (groupOf? rest.length (room - 1)) n shape rest
  | none => none

/-- The fields that make up some bytes. -/
def decodeAll? (room : Nat) : (fuel : Nat) → List UInt8 → Option (List Field)
  | _, [] => some []
  | 0, _ => none
  | fuel + 1, bs =>
    match decode? room bs with
    | some (f, rest) => (decodeAll? room fuel rest).map (f :: ·)
    | none => none

/-- The fields of a message with so many levels. -/
def ofBytes? (room : Nat) (bs : List UInt8) : Option (List Field) := decodeAll? room bs.length bs

end Field

end RecordGateway.Wire
