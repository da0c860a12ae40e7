/-! # Records and how they are asked for

A `Record` is what the service behind the gateway keeps. A `Fetch` asks for one: by its id, with the
names of the fields that the answer should fill in.
-/

namespace RecordGateway

structure Record where
  id : String
  name : String
  description : String
  deriving Repr, DecidableEq, Inhabited

/-- A request for a record. The paths are the fields asked for, in order, with repetitions. -/
structure Fetch where
  id : String
  paths : List String
  deriving Repr, DecidableEq, Inhabited

/-- A request for some fields of a record; no id is the empty one. -/
def Fetch.ofSelection (id : Option String) (fields : List String) : Fetch := ⟨id.getD "", fields⟩

end RecordGateway
