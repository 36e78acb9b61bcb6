/-!
# Binary floating-point numbers

A number of 64 bits is a sign, a whole mantissa of at most 53 bits and a power of two. `nearest?` rounds a
quotient of naturals to such a number, a tie to the even mantissa; quotients too large for any number have
none.
-/

namespace Docweave

/-- A floating-point number of 64 bits. A finite number is `mantissa · 2 ^ exponent`, with the exponent as
small as 53 bits of mantissa and the least exponent allow. -/
inductive Binary64
  | finite (negative : Bool) (mantissa : Nat) (exponent : Int)
  | infinite (negative : Bool)
  | nan
deriving DecidableEq, Inhabited

namespace Binary64

/-- The least exponent. -/
def leastExponent : Int := -1074

/-- The largest exponent. -/
def largestExponent : Int := 971

/-- `2 ^ e` as a quotient of naturals. -/
def powerOfTwo (e : Int) : Nat × Nat := (Nat.pow 2 e.toNat, Nat.pow 2 (-e).toNat)

/-- The natural nearest to `num / den`, the even one of two. -/
def roundDiv (num den : Nat) : Nat :=
  let q := num / den
  let r := num % den
  if 2 * r < den then q
  else if 2 * r > den then q + 1
  else if q % 2 = 0 then q else q + 1

/-- `num / den` in units of `2 ^ e`, as a quotient. -/
def inUnits (num den : Nat) (e : Int) : Nat × Nat :=
  let (p, q) := powerOfTwo e
  (num * q, den * p)

/-- The exponent at which `num / den` has a mantissa of 53 bits, or the least one. -/
def exponentOf (num den : Nat) : Int :=
  let guess : Int := (num.log2 : Int) - (den.log2 : Int) - 53
  let (n, d) := inUnits num den guess
  let e := if n / d ≥ Nat.pow 2 53 then guess + 1 else guess
  max e leastExponent

/-- The number nearest to `num / den`. None when it is too large. -/
def nearest? (negative : Bool) (num den : Nat) : Option Binary64 :=
  if num = 0 then some (finite negative 0 leastExponent)
  else
    let e := exponentOf num den
    let (n, d) := inUnits num den e
    let m := roundDiv n d
    let (m, e) := if m = Nat.pow 2 53 then (Nat.pow 2 52, e + 1) else (m, e)
    if e > largestExponent then none else some (finite negative m e)

/-- The number nearest to `digits · 10 ^ exp`. None when it is too large. Exponents far outside the range
are decided by the number of digits alone. -/
def ofDecimal? (negative : Bool) (digits : Nat) (exp : Int) : Option Binary64 :=
  if digits = 0 then some (finite negative 0 leastExponent)
  else
    let size : Int := exp + (Nat.toDigits 10 digits).length
    if size > 310 then none
    else if size < -330 then some (finite negative 0 leastExponent)
    else nearest? negative (digits * Nat.pow 10 exp.toNat) (Nat.pow 10 (-exp).toNat)

/-- The number nearest to an integer. None when it is too large. -/
def ofInt? (i : Int) : Option Binary64 := nearest? (i < 0) i.natAbs 1

end Binary64

end Docweave
