/-! # Routes

A route is a path that may have gaps: `{name}` stands for one or more characters without a slash and
must end its segment, and `{*name}` stands for all the rest, which is not empty. A doubled brace is
a brace. `Route.parse?` refuses texts that do not start with a slash, segments that start with a
colon or an asterisk, and gaps that are not well formed.
-/

namespace RecordGateway

inductive RoutePart where
  | text (chars : List Char)
  /-- Anything up to the next slash. -/
  | segment
  /-- Anything up to the end. -/
  | rest
  deriving Repr, DecidableEq

structure Route where
  parts : List RoutePart
  deriving Repr, DecidableEq

namespace Route

/-! ## Reading -/

/-- A character of a route; an escaped one comes from a doubled brace. -/
structure RouteChar where
  char : Char
  escaped : Bool
  deriving Repr, DecidableEq

/-- The characters of a route, with doubled braces taken together. -/
def unescape : List Char → List RouteChar
  | '\x7b' :: '\x7b' :: cs => ⟨'\x7b', true⟩ :: unescape cs
  | '\x7d' :: '\x7d' :: cs => ⟨'\x7d', true⟩ :: unescape cs
  | c :: cs => ⟨c, false⟩ :: unescape cs
  | [] => []

def isOpen (c : RouteChar) : Bool := c.char == '\x7b' && !c.escaped

def isClose (c : RouteChar) : Bool := c.char == '\x7d' && !c.escaped

/-- What follows a gap after its opening brace, and whether the gap takes all the rest. The first
character of its name may be an asterisk. -/
def gap? : List RouteChar → Option (Bool × List RouteChar)
  | [] => none
  | first :: cs =>
    let takesRest := first.char == '*'
    let name := cs.takeWhile (!isClose ·)
    if first.char = '\x7d' || name.any fun c => c.char == '*' || c.char == '/' then none
    else if takesRest && name.isEmpty then none
    else
      match cs.drop name.length with
      | [] => none
      | _ :: [] => some (takesRest, [])
      | _ :: next :: after =>
        if next.char = '/' && !takesRest then some (false, next :: after) else none

/-- The parts of a route. `fuel` is at least the number of characters. -/
def partsOf? : (fuel : Nat) → List RouteChar → Option (List RoutePart)
  | 0, [] => some []
  | 0, _ => none
  | fuel + 1, cs =>
    let text := cs.takeWhile fun c => !isOpen c && !isClose c
    let front := if text.isEmpty then [] else [.text (text.map (·.char))]
    match cs.drop text.length with
    | [] => some front
    | c :: after =>
      if isOpen c then
        match gap? after with
        | some (takesRest, after) =>
          (partsOf? fuel after).map fun ps => front ++ (if takesRest then .rest else .segment) :: ps
        | none => none
      else none

/-- Whether a segment of a path starts with a colon or an asterisk. -/
def hasMarkedSegment : List Char → Bool
  | '/' :: ':' :: _ => true
  | '/' :: '*' :: _ => true
  | _ :: cs => hasMarkedSegment cs
  | [] => false

def parse? (path : String) : Option Route :=
  let cs := path.toList
  if cs.head? != some '/' || hasMarkedSegment cs then none
  else (partsOf? cs.length (unescape cs)).map fun ps => ⟨ps⟩

/-! ## Matching -/

/-- Whether a path has the form of some parts. -/
def matchesParts : List RoutePart → List Char → Bool
  | [], cs => cs.isEmpty
  | .text t :: ps, cs => t.isPrefixOf cs && matchesParts ps (cs.drop t.length)
  | .segment :: ps, cs =>
    let n := (cs.takeWhile (· != '/')).length
    n != 0 && matchesParts ps (cs.drop n)
  | .rest :: _, cs => !cs.isEmpty

def accepts (r : Route) (path : String) : Bool := matchesParts r.parts path.toList

end Route

end RecordGateway
