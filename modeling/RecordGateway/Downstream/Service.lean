import RecordGateway.Downstream.Error
import RecordGateway.Record

/-! # Services that answer for records

A `DataSource` answers every fetch. A `Service` may also keep silent, which is the business of
whoever calls it. `Shelf` is a service whose records are at hand.
-/

namespace RecordGateway

/-- The outcome of a call. -/
abbrev Answer := Except DownstreamError Record

abbrev DataSource := Fetch → Answer

/-- What a service does with a fetch; `none` is silence. -/
abbrev Service := Fetch → Option Answer

/-- A service with fixed behaviour. -/
inductive Shelf where
  /-- Every id has a record with this name and description. -/
  | echo (name description : String)
  /-- The first record with the id is the answer. -/
  | records (rs : List Record)
  | failing (e : DownstreamError)
  | silent
  deriving Repr

namespace Shelf

/-- A record with only the fields that a mask names. -/
def project (paths : List String) (r : Record) : Record :=
  let keep (path value : String) : String := if paths.contains path then value else ""
  ⟨keep "id" r.id, keep "name" r.name, keep "description" r.description⟩

def service : Shelf → Service
  | echo name description => fun f => some (.ok ⟨f.id, name, description⟩)
  | records rs => fun f =>
    match rs.find? (·.id == f.id) with
    | some r => some (.ok (project f.paths r))
    | none => some (.error (.rpc .notFound "no record"))
  | failing e => fun _ => some (.error e)
  | silent => fun _ => none

end Shelf

/-- A service whose silence is taken for a failure. -/
def Service.orElse (s : Service) (e : DownstreamError) : DataSource := fun f =>
  (s f).getD (.error e)

end RecordGateway
