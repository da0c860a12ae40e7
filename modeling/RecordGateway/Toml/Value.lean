/-! # TOML values

A `Toml` value is what a document means. Floats and dates are kept as they are written.

A document builds its tables piece by piece, from headers and dotted keys, and each table says
whether it may still grow: `TomlItem` keeps that while the document is read, and `TomlItem.toToml`
forgets it.
-/

namespace RecordGateway

inductive Toml where
  | string (s : String)
  | integer (n : Int)
  | float (text : String)
  | boolean (b : Bool)
  | datetime (text : String)
  | array (items : List Toml)
  | table (entries : List (String × Toml))
  deriving Repr, Inhabited

/-- A value under construction. -/
inductive TomlItem where
  | value (v : Toml)
  /-- A table. It is implicit until a header names it; `dotted` tells that dotted keys made it. -/
  | table (implicit dotted : Bool) (entries : List (String × TomlItem))
  /-- The tables of an array, one a header. -/
  | tables (ts : List (List (String × TomlItem)))
  deriving Repr, Inhabited

namespace TomlItem

abbrev Entries := List (String × TomlItem)

mutual

/-- The value that an item stands for. -/
def toToml : TomlItem → Toml
  | .value v => v
  | .table _ _ es => .table (entriesToToml es)
  | .tables ts => .array (tablesToToml ts)

def entriesToToml : List (String × TomlItem) → List (String × Toml)
  | [] => []
  | (k, i) :: es => (k, toToml i) :: entriesToToml es

def tablesToToml : List (List (String × TomlItem)) → List Toml
  | [] => []
  | es :: ts => .table (entriesToToml es) :: tablesToToml ts

end

/-- Replaces the item under a key. -/
def put (k : String) (i : TomlItem) (es : Entries) : Entries :=
  es.map fun (l, j) => if l = k then (l, i) else (l, j)

/-- Changes the table at the end of a path. Tables that are missing on the way are made; of an array
of tables the last one is meant. A path of dotted keys may not go through a table that a header has
named. `f` is also told whether the table comes from dotted keys. -/
def modify (dotted : Bool) (f : Bool → Entries → Option Entries) :
    (path : List String) → (tableDotted : Bool) → Entries → Option Entries
  | [], d, es => f d es
  | k :: ks, _, es =>
    match es.lookup k with
    | none => (modify dotted f ks dotted []).map fun sub => es ++ [(k, .table true dotted sub)]
    | some (.value _) => none
    | some (.table implicit d sub) =>
      if dotted && !implicit then none
      else (modify dotted f ks d sub).map fun sub => put k (.table implicit d sub) es
    | some (.tables ts) =>
      match ts.getLast? with
      | none => none
      | some last =>
        (modify dotted f ks false last).map fun sub => put k (.tables (ts.dropLast ++ [sub])) es

/-- Sets the value of a dotted key, which must be new. -/
def assign (path : List String) (key : String) (v : Toml) (es : Entries) : Option Entries :=
  modify true
    (fun d es =>
      if d == path.isEmpty || (es.lookup key).isSome then none
      else some (es ++ [(key, .value v)]))
    path false es

/-- Opens the table that a header names. It must be new, or made on the way to another table. -/
def openTable (path : List String) (key : String) (es : Entries) : Option Entries :=
  modify false
    (fun _ es =>
      match es.lookup key with
      | none => some (es ++ [(key, .table false false [])])
      | some (.table true false sub) => some (put key (.table false false sub) es)
      | some _ => none)
    path false es

/-- Opens a further table of the array that a header names. -/
def openArrayTable (path : List String) (key : String) (es : Entries) : Option Entries :=
  modify false
    (fun _ es =>
      match es.lookup key with
      | none => some (es ++ [(key, .tables [[]])])
      | some (.tables ts) => some (put key (.tables (ts ++ [[]])) es)
      | some _ => none)
    path false es

/-- Sets the value of a dotted key in the table that the last header has opened. -/
def assignUnder (header : List String) (path : List String) (key : String) (v : Toml)
    (es : Entries) : Option Entries :=
  modify false (fun _ es => assign path key v es) header false es

end TomlItem

end RecordGateway
