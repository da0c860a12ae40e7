/-! # Endpoint URIs

A URI is an absolute one (a scheme, `://`, an authority and a target), an authority alone, or a
target alone. Neither host nor port of the authority is looked into; the characters of each part are
checked, and so is the shape of the authority: its brackets, colons and percent signs.
-/

namespace RecordGateway

/-- The parts of a URI. A part that is missing is empty. -/
structure Uri where
  scheme : String
  authority : String
  target : String
  deriving Repr, DecidableEq

namespace Uri

/-- The longest URI, in bytes. -/
def maxSize : Nat := 65534

/-- The longest scheme. -/
def maxSchemeLength : Nat := 64

/-! ## Character classes -/

def isAuthorityChar (c : Char) : Bool :=
  c.isAlphanum || "!$&'()*+,-.:;=@_~[]".toList.contains c

def isSchemeChar (c : Char) : Bool := c.isAlphanum || "+-.~".toList.contains c

/-- Characters of a path: all that is printable or not ASCII but a space, a bracket of the angular
kind and a backtick. -/
def isPathChar (c : Char) : Bool :=
  0x21 ≤ c.toNat && !(['#', '<', '>', '?', '\x60'].contains c)

/-- Characters of a query. -/
def isQueryChar (c : Char) : Bool :=
  0x21 ≤ c.toNat && !(['"', '#', '<', '>'].contains c)

/-! ## Parts -/

/-- Whether a character ends the authority. -/
def endsAuthority (c : Char) : Bool := c == '/' || c == '?' || c == '#'

/-- What has been seen of an authority since its last `@`. -/
structure AuthorityScan where
  /-- Colons since the last `@` or `]`. -/
  colons : Nat := 0
  opened : Bool := false
  closed : Bool := false
  /-- A percent sign since the last `@` or `]`. -/
  percent : Bool := false

/-- Reads one character of an authority. Brackets occur once in all of it. -/
def AuthorityScan.step? (s : AuthorityScan) (c : Char) : Option AuthorityScan :=
  if c = ':' then if s.colons ≥ 8 then none else some { s with colons := s.colons + 1 }
  else if c = '[' then if s.percent || s.opened then none else some { s with opened := true }
  else if c = ']' then
    if !s.opened || s.closed then none
    else some { s with closed := true, colons := 0, percent := false }
  else if c = '@' then some { s with colons := 0, percent := false }
  else if c = '%' then some { s with percent := true }
  else if isAuthorityChar c then some s
  else none

/-- Whether a text is an authority, perhaps an empty one. -/
def isAuthority (cs : List Char) : Bool :=
  match cs.foldlM AuthorityScan.step? {} with
  | some s => s.opened == s.closed && s.colons ≤ 1 && !s.percent && cs.getLast? != some '@'
  | none => false

/-- Whether a text is a path with an optional query. A fragment may hold anything. -/
def isTarget (cs : List Char) : Bool :=
  match cs.dropWhile isPathChar with
  | [] => true
  | '#' :: _ => true
  | '?' :: query => ((query.dropWhile isQueryChar).head?.getD '#') == '#'
  | _ => false

/-- A target without its fragment. -/
def withoutFragment (cs : List Char) : List Char := cs.takeWhile (· != '#')

/-- The scheme in front of `://`, and what follows. -/
def cutScheme (cs : List Char) : Option (List Char × List Char) :=
  let scheme := cs.takeWhile isSchemeChar
  match cs.drop scheme.length with
  | ':' :: '/' :: '/' :: rest => some (scheme, rest)
  | _ => none

/-- An absolute URI, after its scheme. -/
def absolute? (scheme : String) (cs : List Char) : Option Uri :=
  let authority := cs.takeWhile (!endsAuthority ·)
  let target := cs.drop authority.length
  if !authority.isEmpty && isAuthority authority && isTarget target then
    some ⟨scheme, String.ofList authority, String.ofList (withoutFragment target)⟩
  else none

def ofChars? (cs : List Char) : Option Uri :=
  match cs with
  | [] => none
  | ['*'] => some ⟨"", "", "*"⟩
  | '/' :: _ =>
    if isTarget cs then some ⟨"", "", String.ofList (withoutFragment cs)⟩ else none
  | _ =>
    match cutScheme cs with
    | some (scheme, rest) =>
      let name := String.ofList (scheme.map Char.toLower)
      if name == "http" || name == "https" then absolute? name rest
      else if scheme.length ≤ maxSchemeLength then absolute? (String.ofList scheme) rest
      else none
    | none =>
      if cs.all (!endsAuthority ·) && isAuthority cs then some ⟨"", String.ofList cs, ""⟩ else none

def parse? (text : String) : Option Uri :=
  if text.utf8ByteSize ≤ maxSize then ofChars? text.toList else none

/-- Whether a URI names a service that can be called. -/
def isWeb (u : Uri) : Bool := u.scheme == "http" || u.scheme == "https"

end Uri

end RecordGateway
