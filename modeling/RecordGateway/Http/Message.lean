import RecordGateway.Address.Uri

/-! # HTTP messages

Requests and responses, as far as the gateway looks at them or fills them in.
-/

namespace RecordGateway

inductive Method where
  | get
  | head
  | post
  | other (name : String)
  deriving Repr, DecidableEq

namespace Method

def ofName : String → Method
  | "GET" => get
  | "HEAD" => head
  | "POST" => post
  | n => other n

def name : Method → String
  | get => "GET"
  | head => "HEAD"
  | post => "POST"
  | other n => n

end Method

structure HttpRequest where
  method : Method
  /-- A path with an optional query, or a whole URI. -/
  target : String
  headers : List (String × String) := []
  body : List UInt8 := []
  deriving Repr

/-- The id that a response carries: the one of the request, or a new one. -/
inductive RequestId where
  | given (text : String)
  | fresh
  deriving Repr, DecidableEq

structure HttpResponse where
  status : Nat
  contentType : Option String := none
  /-- The methods that are allowed. -/
  allow : Option String := none
  requestId : Option RequestId := none
  body : String := ""
  deriving Repr, DecidableEq

/-- The path of a URI; without one it is that of the root. -/
def Uri.path (u : Uri) : String :=
  let path := u.target.toList.takeWhile (· != '?')
  if path.isEmpty then "/" else String.ofList path

/-- The query of a URI, without its question mark. -/
def Uri.query (u : Uri) : String :=
  String.ofList ((u.target.toList.dropWhile (· != '?')).drop 1)

namespace HttpRequest

/-- The first header of a name, which stands here in lower case and in a request in any case. -/
def header? (q : HttpRequest) (name : String) : Option String :=
  (q.headers.find? fun (n, _) => String.ofList (n.toList.map Char.toLower) == name).map (·.2)

def requestId (q : HttpRequest) : RequestId :=
  match q.header? "x-request-id" with
  | some id => .given id
  | none => .fresh

end HttpRequest

namespace HttpResponse

def plainText : String := "text/plain; charset=utf-8"

def jsonText : String := "application/json"

/-- A request that is no HTTP. -/
def badRequest : HttpResponse := { status := 400 }

def notFound : HttpResponse := { status := 404 }

def methodNotAllowed : HttpResponse := { status := 405, allow := some "GET,HEAD,POST" }

def bodyTooLarge : HttpResponse :=
  { status := 413, contentType := some plainText,
    body := "Failed to buffer the request body: length limit exceeded" }

def invalidPayload : HttpResponse :=
  { status := 400, contentType := some plainText, body := "Invalid request payload" }

def json (body : String) : HttpResponse := { status := 200, contentType := some jsonText, body }

/-- A response without its body. -/
def headOnly (r : HttpResponse) : HttpResponse := { r with body := "" }

end HttpResponse

end RecordGateway
