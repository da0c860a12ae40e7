import RecordGateway.Http.Form
import RecordGateway.Http.Message
import RecordGateway.Http.Phrase

/-! # HTTP messages in a stream of bytes

A request is a line with method, target and version, lines with headers, an empty line, and a body.
The body has the length that a header tells, or comes in chunks, each with its length in front and
an empty one at the end. `HttpRequest.read?` takes a request off the front of some bytes, and
`HttpResponse.render` writes a response.
-/

namespace RecordGateway

namespace HttpStream

/-- A line without its end, and what follows it. -/
def line? (bs : List UInt8) : Option (List UInt8 × List UInt8) :=
  let line := bs.takeWhile (· != 10)
  match bs.drop line.length with
  | [] => none
  | _ :: rest => some (if line.getLast? = some 13 then line.dropLast else line, rest)

/-- The lines up to an empty one, and what follows that. `fuel` is at least the number of bytes. -/
def head? : (fuel : Nat) → List UInt8 → Option (List (List UInt8) × List UInt8)
  | 0, _ => none
  | fuel + 1, bs =>
    match line? bs with
    | none => none
    | some ([], rest) => some ([], rest)
    | some (line, rest) => (head? fuel rest).map fun (lines, rest) => (line :: lines, rest)

def isBlank (c : Char) : Bool := c == ' ' || c == '\t'

def trim (cs : List Char) : List Char := ((cs.dropWhile isBlank).reverse.dropWhile isBlank).reverse

/-- A header line as a name and a value. -/
def header (line : List UInt8) : String × String :=
  let cs := (Utf8.lossy line).toList
  let name := cs.takeWhile (· != ':')
  (String.ofList name, String.ofList (trim (cs.drop (name.length + 1))))

/-- The method and the target of a request line. -/
def requestLine? (line : List UInt8) : Option (Method × String) :=
  match (Utf8.lossy line).toList.splitOn ' ' with
  | [m, target, _] => some (.ofName (String.ofList m), String.ofList target)
  | _ => none

/-- A number in hexadecimal digits, up to the first other byte. -/
def chunkLength (line : List UInt8) : Nat :=
  numberIn 16 ((line.takeWhile fun b => (hexByte? b).isSome).filterMap hexByte?)

/-- A body in chunks, and what follows it. -/
def chunked? : (fuel : Nat) → List UInt8 → Option (List UInt8 × List UInt8)
  | 0, _ => none
  | fuel + 1, bs =>
    match line? bs with
    | none => none
    | some (line, rest) =>
      let n := chunkLength line
      if n = 0 then (line? rest).map fun (_, rest) => ([], rest)
      else if rest.length < n then none
      else
        match line? (rest.drop n) with
        | none => none
        | some (_, after) =>
          (chunked? fuel after).map fun (body, after) => (rest.take n ++ body, after)

end HttpStream

open HttpStream

namespace HttpRequest

/-- The request in front of some bytes, and what follows it. -/
def read? (bs : List UInt8) : Option (HttpRequest × List UInt8) :=
  match head? bs.length bs with
  | some (first :: lines, rest) =>
    match requestLine? first with
    | none => none
    | some (method, target) =>
      let q : HttpRequest := { method, target, headers := lines.map header }
      let body :=
        if q.header? "transfer-encoding" = some "chunked" then chunked? rest.length rest
        else
          let n := ((q.header? "content-length").bind fun v => decimal? v.toList).getD 0
          if n ≤ rest.length then some (rest.take n, rest.drop n) else none
      body.map fun (body, rest) => ({ q with body }, rest)
  | _ => none

/-- The requests that make up some bytes, up to the first that is none. -/
def readAll : (fuel : Nat) → List UInt8 → List HttpRequest
  | 0, _ => []
  | fuel + 1, bs =>
    match read? bs with
    | some (q, rest) => q :: readAll fuel rest
    | none => []

end HttpRequest

namespace HttpResponse

def headerLine (name : String) : Option String → String
  | some v => name ++ ": " ++ v ++ "\r\n"
  | none => ""

/-- A response as text; `fresh` is the id of a response that is to have a new one. -/
def render (r : HttpResponse) (fresh : String) : String :=
  "HTTP/1.1 " ++ toString r.status ++ " " ++ reasonPhrase r.status ++ "\r\n" ++
    headerLine "content-type" r.contentType ++ headerLine "allow" r.allow ++
    headerLine "x-request-id" (r.requestId.map fun id => match id with
      | .given text => text
      | .fresh => fresh) ++
    headerLine "content-length" (some (toString r.body.utf8ByteSize)) ++ "\r\n" ++ r.body

end HttpResponse

/-! ## Request ids -/

/-- The random UUID with the given bits: 32 hexadecimal digits in five parts, of which one tells the
version and one the variant. -/
def uuidOfBits (bits : Nat) : String :=
  let digit (i : Nat) : Char :=
    let d := bits >>> (4 * i) % 16
    Nat.digitChar (if i = 12 then 4 else if i = 16 then 8 + d % 4 else d)
  let part (start count : Nat) : List Char := (List.range count).map fun i => digit (start + i)
  String.ofList (part 0 8 ++ '-' :: part 8 4 ++ '-' :: part 12 4 ++ '-' :: part 16 4 ++
    '-' :: part 20 12)

end RecordGateway
