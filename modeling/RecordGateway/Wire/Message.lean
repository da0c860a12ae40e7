import RecordGateway.Record
import RecordGateway.Wire.Field

/-! # Messages on the wire

A fetch is sent as an id (field 1) and a mask (field 2), which is a message with the paths (field 1
each). A record is sent as its three strings in order. An empty string is left out, but a path is
always written, and so is the mask.

A reader takes the fields in any order. Of a string the last counts, masks add up, and fields with
other numbers are skipped; a field of the wrong shape is an error.
-/

namespace RecordGateway

namespace Wire

def text (s : String) : List UInt8 := s.toUTF8.toList

def text? (bs : List UInt8) : Option String := String.fromUTF8? ⟨bs.toArray⟩

/-- A string field, unless the string is empty. -/
def stringField (number : Nat) (s : String) : List Field :=
  if s = "" then [] else [.bytes number (text s)]

/-- The text of a field that must be a string. -/
def Field.text? : Field → Option String
  | .bytes _ bs => Wire.text? bs
  | _ => none

/-- Reads a message, field by field. -/
def foldFields? (step : α → Field → Option α) (start : α) (room : Nat) (bs : List UInt8) :
    Option α :=
  (Field.ofBytes? room bs).bind fun fs => fs.foldlM step start

end Wire

open Wire

/-! ## Fetches -/

/-- A fetch as it arrives; the mask may be missing. -/
structure FetchMessage where
  id : String := ""
  mask : Option (List String) := none
  deriving Repr, DecidableEq

namespace FetchMessage

def ofFetch (f : Fetch) : FetchMessage := ⟨f.id, some f.paths⟩

/-- The fetch of a message; without a mask nothing is selected. -/
def toFetch (m : FetchMessage) : Fetch := ⟨m.id, m.mask.getD []⟩

def encodeMask (paths : List String) : List UInt8 :=
  Field.encodeAll (paths.map fun p => .bytes 1 (text p))

def fields (m : FetchMessage) : List Field :=
  stringField 1 m.id ++
    (match m.mask with
    | some paths => [.bytes 2 (encodeMask paths)]
    | none => [])

def encode (m : FetchMessage) : List UInt8 := Field.encodeAll m.fields

/-- Adds a field of a mask to the paths. -/
def maskStep? (paths : List String) (f : Field) : Option (List String) :=
  if f.number = 1 then f.text?.map fun p => paths ++ [p] else some paths

/-- Reads a field of a fetch. -/
def step? (m : FetchMessage) (f : Field) : Option FetchMessage :=
  if f.number = 1 then f.text?.map fun id => { m with id }
  else if f.number = 2 then
    match f with
    | .bytes _ bs =>
      (foldFields? maskStep? (m.mask.getD []) (nestingLimit - 1) bs).map fun paths =>
        { m with mask := some paths }
    | _ => none
  else some m

def decode? (bs : List UInt8) : Option FetchMessage := foldFields? step? {} nestingLimit bs

end FetchMessage

/-! ## Records -/

namespace Record

def fields (r : Record) : List Field :=
  stringField 1 r.id ++ stringField 2 r.name ++ stringField 3 r.description

def encode (r : Record) : List UInt8 := Field.encodeAll r.fields

/-- Reads a field of a record. -/
def step? (r : Record) (f : Field) : Option Record :=
  if f.number = 1 then f.text?.map fun id => { r with id }
  else if f.number = 2 then f.text?.map fun name => { r with name }
  else if f.number = 3 then f.text?.map fun description => { r with description }
  else some r

def decode? (bs : List UInt8) : Option Record := foldFields? step? ⟨"", "", ""⟩ nestingLimit bs

end Record

end RecordGateway
