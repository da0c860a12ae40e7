/-! # Failures of the service behind the gateway

A call fails with a status, on the way there, or by not being answered in time. Statuses have codes
with names (`StatusCode`); a number that is no code counts as `unknown`.
-/

namespace RecordGateway

inductive StatusCode where
  | ok | cancelled | unknown | invalidArgument | deadlineExceeded | notFound | alreadyExists
  | permissionDenied | resourceExhausted | failedPrecondition | aborted | outOfRange
  | unimplemented | internal | unavailable | dataLoss | unauthenticated
  deriving Repr, DecidableEq

namespace StatusCode

/-- The codes in the order of their numbers. -/
def all : List StatusCode :=
  [ok, cancelled, unknown, invalidArgument, deadlineExceeded, notFound, alreadyExists,
    permissionDenied, resourceExhausted, failedPrecondition, aborted, outOfRange, unimplemented,
    internal, unavailable, dataLoss, unauthenticated]

def ofInt (n : Int) : StatusCode :=
  if n < 0 then unknown else all.getD n.toNat unknown

def toNat (c : StatusCode) : Nat := all.idxOf c

def name : StatusCode → String
  | ok => "Ok"
  | cancelled => "Cancelled"
  | unknown => "Unknown"
  | invalidArgument => "InvalidArgument"
  | deadlineExceeded => "DeadlineExceeded"
  | notFound => "NotFound"
  | alreadyExists => "AlreadyExists"
  | permissionDenied => "PermissionDenied"
  | resourceExhausted => "ResourceExhausted"
  | failedPrecondition => "FailedPrecondition"
  | aborted => "Aborted"
  | outOfRange => "OutOfRange"
  | unimplemented => "Unimplemented"
  | internal => "Internal"
  | unavailable => "Unavailable"
  | dataLoss => "DataLoss"
  | unauthenticated => "Unauthenticated"

end StatusCode

/-- Why a call brought no record. -/
inductive DownstreamError where
  | rpc (code : StatusCode) (message : String)
  | transport (message : String)
  /-- No answer within so many nanoseconds. -/
  | timeout (nanoseconds : Nat)
  deriving Repr, DecidableEq

/-- The wording of a failure. A time is told in whole milliseconds, cut off. -/
def DownstreamError.message : DownstreamError → String
  | .rpc code m => "rpc error: code = " ++ code.name ++ " desc = " ++ m
  | .transport m => "transport error: " ++ m
  | .timeout ns => "downstream call timed out after " ++ toString (ns / 1000000) ++ "ms"

end RecordGateway
