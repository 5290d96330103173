/-!
# Doubles

A double is a NaN, an infinity, or `± mantissa · 2 ^ exponent`.  Finite values are kept in the form
that their 64 bits have: the mantissa is below `2 ^ 53`, and at least `2 ^ 52` unless the
exponent is the least one.  All arithmetic on them is exact arithmetic on `Nat`.
-/

namespace LijsCompiler

/-- A value of the IEEE 754 double format. -/
inductive Binary64 where
  | nan
  | infinite (negative : Bool)
  | finite (negative : Bool) (mantissa : Nat) (exponent : Int)
deriving DecidableEq, Repr, Inhabited

namespace Binary64

/-- The exponent of subnormal values. -/
def leastExponent : Int := -1074

def greatestExponent : Int := 971

def zero (negative : Bool) : Binary64 := .finite negative 0 leastExponent

/-- The double that 64 bits encode: sign, 11 bits of exponent, 52 bits of fraction. -/
def ofBits (bits : Nat) : Binary64 :=
  let negative := bits / Nat.pow 2 63 % 2 == 1
  let field := bits / Nat.pow 2 52 % Nat.pow 2 11
  let fraction := bits % Nat.pow 2 52
  if field == Nat.pow 2 11 - 1 then
    if fraction == 0 then .infinite negative else .nan
  else if field == 0 then
    .finite negative fraction leastExponent
  else
    .finite negative (Nat.pow 2 52 + fraction) (leastExponent + (field - 1 : Nat))

/-- The quotient rounded to the nearest natural number, a half to the even neighbour. -/
def roundDiv (num den : Nat) : Nat :=
  let quotient := num / den
  let twice := 2 * (num % den)
  if twice < den then quotient
  else if den < twice then quotient + 1
  else if quotient % 2 == 0 then quotient
  else quotient + 1

/-- `num / den / 2 ^ exponent` as a quotient of natural numbers. -/
def scaled (num den : Nat) (exponent : Int) : Nat × Nat :=
  (num * Nat.pow 2 (-exponent).toNat, den * Nat.pow 2 exponent.toNat)

/-- The exponent at which `num / den` has a mantissa of 53 bits, or the least exponent. -/
def exponentOf (num den : Nat) : Int :=
  let estimate : Int := (num.log2 : Int) - den.log2 - 52
  let (n, d) := scaled num den estimate
  let exponent := if n < d * Nat.pow 2 52 then estimate - 1 else estimate
  max exponent leastExponent

/-- The double of a rounded mantissa.  One that was rounded up to `2 ^ 53` moves to the next
exponent. -/
def ofRounded (negative : Bool) (rounded : Nat) (exponent : Int) : Binary64 :=
  let (mantissa, exponent) :=
    if rounded == Nat.pow 2 53 then (Nat.pow 2 52, exponent + 1) else (rounded, exponent)
  if greatestExponent < exponent then .infinite negative
  else .finite negative mantissa exponent

/-- The double nearest to the positive quotient `num / den`, a half to the even mantissa. -/
def ofRatio (negative : Bool) (num den : Nat) : Binary64 :=
  let exponent := exponentOf num den
  let (n, d) := scaled num den exponent
  ofRounded negative (roundDiv n d) exponent

def isZero : Binary64 → Bool
  | finite _ mantissa _ => mantissa == 0
  | _ => false

/-- A double times the positive quotient `num / den`, rounded once. -/
def scale (x : Binary64) (num den : Nat) : Binary64 :=
  match x with
  | finite negative mantissa exponent =>
    if mantissa == 0 then x
    else
      ofRatio negative (mantissa * Nat.pow 2 exponent.toNat * num)
        (Nat.pow 2 (-exponent).toNat * den)
  | x => x

/-- The double nearest to `± coefficient · 10 ^ exponent`.  Exponents far outside the range of the
format are settled before a power is taken. -/
def ofDecimal (negative : Bool) (coefficient : Nat) (exponent : Int) : Binary64 :=
  if coefficient == 0 then
    zero negative
  else if 400 < exponent then
    .infinite negative
  else if exponent < -(coefficient.log2 + 400 : Int) then
    zero negative
  else
    ofRatio negative (coefficient * Nat.pow 10 exponent.toNat) (Nat.pow 10 (-exponent).toNat)

def toInt? : Binary64 → Option Int
  | nan | infinite _ => none
  | finite negative mantissa exponent =>
    let signed (n : Nat) : Int := if negative then -(n : Int) else n
    if 0 ≤ exponent then
      some (signed (mantissa * Nat.pow 2 exponent.toNat))
    else
      let unit := Nat.pow 2 (-exponent).toNat
      if mantissa % unit == 0 then some (signed (mantissa / unit)) else none

end Binary64

end LijsCompiler
