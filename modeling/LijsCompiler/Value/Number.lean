import LijsCompiler.Number.Decimal
import LijsCompiler.Value

/-!
# Numbers of JSON text

An integer of 64 bits stays an integer.  Every other number is a double, which is found in rounded
steps: the leading digits that fit into 64 bits give a double, and this is multiplied or divided by
the double nearest to a power of ten.  The result may miss the nearest double in its last place.
-/

namespace LijsCompiler.Value

/-- The greatest number that digits may add up to; later digits only shift the point. -/
def greatestSignificand : Nat := Nat.pow 2 64 - 1

/-- The number `n` continued by digits as long as it fits, and the digits that are left. -/
def absorb (n : Nat) : List Char → Nat × List Char
  | [] => (n, [])
  | c :: rest =>
    let next := 10 * n + Decimal.digitValue c
    if next ≤ greatestSignificand then absorb next rest else (n, c :: rest)

/-- The greatest power of ten that is taken in one step. -/
def greatestPower : Nat := 308

def nearestPower (k : Nat) : Nat :=
  let unit := Nat.pow 2 ((Nat.pow 10 k).log2 - 52)
  Binary64.roundDiv (Nat.pow 10 k) unit * unit

def timesPower? (x : Binary64) (k : Nat) : Option Binary64 :=
  if x.isZero then some x
  else if greatestPower < k then none
  else
    match x.scale (nearestPower k) 1 with
    | .finite negative mantissa exponent => some (.finite negative mantissa exponent)
    | _ => none

/-- A double divided by a power of ten, in several steps if the power is large. -/
def overPower (x : Binary64) (k : Nat) : Binary64 :=
  if k ≤ greatestPower then x.scale 1 (nearestPower k)
  else if x.isZero then x
  else overPower (x.scale 1 (nearestPower greatestPower)) (k - greatestPower)
termination_by k
decreasing_by simp only [greatestPower] at *; omega

def double? (negative : Bool) (whole fraction : List Char) (exponent : Int) : Option Binary64 :=
  let (n, skipped) := absorb 0 whole
  let (n, ignored) := absorb n fraction
  let shift : Int := exponent + skipped.length - (fraction.length - ignored.length)
  let x := Binary64.ofDecimal negative n 0
  if 0 ≤ shift then timesPower? x shift.toNat else some (overPower x (-shift).toNat)

/-- Whether digits are the whole part of a JSON number: no zero leads another digit. -/
def isWholePart : List Char → Bool
  | [] => false
  | ['0'] => true
  | '0' :: _ => false
  | _ => true

/-- The digits after the point, if there is a point, and what follows them.  A point needs a digit. -/
def fractionPart? : List Char → Option (List Char × List Char)
  | '.' :: rest =>
    let fraction := rest.takeWhile Char.isDigit
    if fraction.isEmpty then none else some (fraction, rest.dropWhile Char.isDigit)
  | rest => some ([], rest)

def number? (text : List Char) : Option Value :=
  let (negative, digits) :=
    match text with
    | '-' :: rest => (true, rest)
    | rest => (false, rest)
  let whole := digits.takeWhile Char.isDigit
  let after := digits.dropWhile Char.isDigit
  let n := Decimal.ofDigits whole
  if !isWholePart whole then none
  else if after.isEmpty && !negative && n < Nat.pow 2 64 then some (integer n)
  else if after.isEmpty && negative && 0 < n && n ≤ Nat.pow 2 63 then some (integer (-n))
  else do
    let (fraction, rest) ← fractionPart? after
    let exponent ← Decimal.readExponent rest
    let x ← double? negative whole fraction exponent
    return float x

def isNumberPart (c : Char) : Bool :=
  c.isDigit || c == '-' || c == '+' || c == '.' || c == 'e' || c == 'E'

end LijsCompiler.Value
