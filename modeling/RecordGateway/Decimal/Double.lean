/-! # Doubles

Binary floating-point numbers of 64 bits as exact fractions. A finite `Double` is a significand
below `2 ^ 53` times a power of two, with a sign.

* `Double.ofRatio` rounds a fraction to the nearest double, a tie to the even significand; what is
  too large has no double.
* `Double.times` and `Double.dividedBy` are the products and quotients of magnitudes, rounded so.
-/

namespace RecordGateway

/-- A finite double: `significand * 2 ^ exponent` with a sign. The significand has 53 bits unless
the exponent is the smallest one. -/
structure Double where
  negative : Bool
  significand : Nat
  exponent : Int
  deriving Repr, DecidableEq

namespace Double

def minExponent : Int := -1074

def maxExponent : Int := 971

/-- The least number of 53 bits. -/
def leastFull : Nat := 4503599627370496

def zero : Double := ⟨false, 0, minExponent⟩

/-- `n * 2 ^ e` as a fraction. -/
def scale (n : Nat) (e : Int) : Nat × Nat :=
  if e ≥ 0 then (n * Nat.pow 2 e.toNat, 1) else (n, Nat.pow 2 (-e).toNat)

/-- The magnitude as a fraction. -/
def ratio (d : Double) : Nat × Nat := scale d.significand d.exponent

/-- A fraction rounded to the nearest natural number, a tie to the even one. -/
def roundDiv (num den : Nat) : Nat :=
  let q := num / den
  let r := num % den
  if 2 * r < den then q else if 2 * r > den then q + 1 else if q % 2 = 0 then q else q + 1

/-- The exponent at which a positive fraction has a significand of 53 bits, or the smallest one if
it would lie below. -/
def exponentOf (num den : Nat) : Int :=
  let e : Int := (num.log2 : Int) - (den.log2 : Int) - 52
  let (n, d) := scale den e
  -- With `e` the significand has 52 or 53 bits.
  let e := if num * d < leastFull * n then e - 1 else e
  max e minExponent

/-- The double nearest to a fraction, unless that is beyond the largest one. -/
def ofRatio (num den : Nat) : Option Double :=
  if num = 0 then some zero
  else
    let e := exponentOf num den
    let (n, d) := scale den e
    let m := roundDiv (num * d) n
    let (m, e) := if m = 2 * leastFull then (leastFull, e + 1) else (m, e)
    if e > maxExponent then none else some ⟨false, m, e⟩

def ofNat (n : Nat) : Option Double := ofRatio n 1

def times (a b : Double) : Option Double :=
  let (n, d) := a.ratio
  let (m, c) := b.ratio
  ofRatio (n * m) (d * c)

def dividedBy (a b : Double) : Option Double :=
  let (n, d) := a.ratio
  let (m, c) := b.ratio
  ofRatio (n * c) (d * m)

def isZero (d : Double) : Bool := d.significand == 0

/-- The double with the given sign. -/
def withSign (d : Double) (negative : Bool) : Double := { d with negative := negative }

end Double

end RecordGateway
