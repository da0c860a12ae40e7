import RecordGateway.Decimal.Double

/-! # JSON values

A `Json` value keeps integers of 64 bits apart from doubles. The members of an object are kept in
the order of their names and no name occurs twice: `Json.Object.insert` puts a member where it
belongs. Looking up a member sees the insertions and erasures of its name and no others
(`Json.Object.get?_insert`, `Json.Object.get?_erase`).
-/

namespace RecordGateway

/-- A number: an integer that fits 64 bits, with or without a sign, or a double. -/
inductive Json.Number where
  | int (n : Int)
  | double (d : Double)
  deriving Repr, DecidableEq

inductive Json where
  | null
  | bool (b : Bool)
  | number (n : Json.Number)
  | string (s : String)
  | array (items : List Json)
  | object (members : List (String × Json))
  deriving Repr, BEq, Inhabited

namespace Json

/-- The members of an object, sorted by name. -/
abbrev Object := List (String × Json)

namespace Object

/-- Sets a member; an earlier one of that name is replaced. -/
def insert (name : String) (v : Json) : Object → Object
  | [] => [(name, v)]
  | (n, w) :: rest =>
    if name = n then (name, v) :: rest
    else if name < n then (name, v) :: (n, w) :: rest
    else (n, w) :: insert name v rest

/-- The object with the given members, of several with one name the last. -/
def ofList (ms : List (String × Json)) : Object :=
  ms.foldl (fun o (n, v) => insert n v o) []

def get? (o : Object) (name : String) : Option Json := List.lookup name o

/-- The object without a member. -/
def erase (o : Object) (name : String) : Object := o.filter (·.1 != name)

theorem get?_nil (name : String) : get? [] name = none := rfl

theorem get?_cons (n : String) (v : Json) (o : Object) (name : String) :
    get? ((n, v) :: o) name = if name = n then some v else o.get? name := by
  by_cases h : name = n
  · simp [get?, h]
  · simp [get?, List.lookup_cons, beq_false_of_ne h, h]

theorem get?_insert (o : Object) (name other : String) (v : Json) :
    (o.insert name v).get? other = if other = name then some v else o.get? other := by
  induction o with
  | nil => simp [insert, get?_cons, get?_nil]
  | cons m o ih =>
    obtain ⟨n, w⟩ := m
    unfold insert
    split
    · next h =>
      subst h
      by_cases h : other = name <;> simp [get?_cons, h]
    · split <;> simp only [get?_cons, ih]
      next h _ =>
        by_cases h' : other = n
        · simp [h', Ne.symm h]
        · simp [h']

theorem get?_erase (o : Object) (name other : String) :
    (o.erase name).get? other = if other = name then none else o.get? other := by
  induction o with
  | nil => simp [erase, get?_nil]
  | cons m o ih =>
    obtain ⟨n, w⟩ := m
    unfold erase at ih ⊢
    by_cases h : n = name
    · simp only [h, bne_self_eq_false, Bool.false_eq_true, not_false_eq_true,
        List.filter_cons_of_neg, ih, get?_cons]
      split <;> rfl
    · by_cases h' : other = n
      · subst h'
        simp [get?_cons, h]
      · simp [get?_cons, h, h', ih]

end Object

/-- The integers that a number holds as they are. -/
def Number.fits (n : Int) : Bool := Int64.minValue.toInt ≤ n && n < UInt64.size

end Json

end RecordGateway
