import RecordGateway.Decimal.Double

/-! # The shortest decimal of a double

`Double.digits` gives the fewest decimal digits that read back as a double. For one, two, … digits
it asks whether one of the value's two neighbours with so many digits rounds to the value; the first
number of digits for which one does is the least, since between two neighbours there is no other
decimal of that many digits.
-/

namespace RecordGateway.Double

/-- `10 ^ k` as a fraction. -/
def tenTo (k : Int) : Nat × Nat :=
  if k ≥ 0 then (Nat.pow 10 k.toNat, 1) else (1, Nat.pow 10 (-k).toNat)

/-- The decimal exponent of a positive fraction: the power of ten that its first digit counts. -/
def decimalExponent (num den : Nat) : Int :=
  let estimate : Int := ((num.log2 : Int) - (den.log2 : Int)) * 30103 / 100000
  let atLeast (t : Int) : Bool :=
    let (u, v) := tenTo t
    u * den ≤ num * v
  if atLeast (estimate + 1) then estimate + 1
  else if atLeast estimate then estimate
  else if atLeast (estimate - 1) then estimate - 1
  else estimate - 2

/-- Whether the double below is only half as far as the one above, as it is below a power of two. -/
def gapBelowHalved (d : Double) : Bool :=
  d.significand == leastFull && d.exponent > minExponent

/-- Whether the decimal `n * 10 ^ k` rounds to the double, an end of the interval counting if the
significand is even. -/
def readsBack (d : Double) (n : Nat) (k : Int) : Bool :=
  let (p, q) := tenTo k
  -- All in quarters of the last bit.
  let (u, v) := scale 1 (d.exponent - 2)
  let low := 4 * d.significand - (if d.gapBelowHalved then 1 else 2)
  let high := 4 * d.significand + 2
  let x := n * p * v
  let above := low * u * q
  let below := high * u * q
  if d.significand % 2 = 0 then above ≤ x && x ≤ below else above < x && x < below

/-- The nearer of the two neighbours with `n + 1` or `n` units of `10 ^ k` that read back, the even
one of two equally near. -/
def nearest (num den n : Nat) (k : Int) : Nat :=
  let (u, v) := tenTo k
  -- The value in halves of a unit, against the middle of the two.
  let value := 2 * num * v
  let middle := (2 * n + 1) * u * den
  if value < middle then n else if value > middle then n + 1 else if n % 2 = 0 then n else n + 1

/-- Looks for digits from a number of them on, with as many more tries as `tries`. -/
def digitsFrom (d : Double) (num den : Nat) (top : Int) : (tries count : Nat) → Nat × Int
  | 0, count =>
    let k := top + 1 - count
    let (u, v) := tenTo k
    (num * v / (den * u), k)
  | tries + 1, count =>
    let k := top + 1 - count
    let (u, v) := tenTo k
    let n := num * v / (den * u)
    match d.readsBack n k, d.readsBack (n + 1) k with
    | true, true => (nearest num den n k, k)
    | true, false => (n, k)
    | false, true => (n + 1, k)
    | false, false => digitsFrom d num den top tries (count + 1)

/-- The shortest decimal `n * 10 ^ k` of the magnitude of a double that is not zero. -/
def shortest (d : Double) : Nat × Int :=
  let (num, den) := d.ratio
  digitsFrom d num den (decimalExponent num den) 17 1

/-- Removes the zeros at the end of a decimal. -/
def trim : (bound : Nat) → Nat → Int → Nat × Int
  | bound + 1, n, k => if n % 10 = 0 then trim bound (n / 10) (k + 1) else (n, k)
  | 0, n, k => (n, k)

/-- The digits of the shortest decimal and the number of them before the point, which is negative
for zeros after it. -/
def digits (d : Double) : List Char × Int :=
  let (n, k) := d.shortest
  let (n, k) := trim 20 n k
  let ds := Nat.toDigits 10 n
  (ds, k + ds.length)

end RecordGateway.Double
