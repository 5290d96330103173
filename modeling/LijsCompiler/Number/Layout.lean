import LijsCompiler.Number.Shortest

/-!
# The text of a double

The digits are always the shortest ones; a layout decides how they are set.
-/

namespace LijsCompiler

structure NumberLayout where
  /-- The exponents of the leading digit at which the number is written without an exponent. -/
  positional : Int → Bool
  nan : String
  /-- The text of an infinity, given whether it is negative. -/
  infinity : Bool → String

namespace NumberLayout

/-- Digits `ds` whose first digit stands for `10 ^ exponent`, without an exponent part. -/
def writePositional (ds : List Char) (exponent : Int) : List Char :=
  if exponent < 0 then
    '0' :: '.' :: List.replicate (-exponent - 1).toNat '0' ++ ds
  else
    let whole := exponent.toNat + 1
    let fraction := ds.drop whole
    ds.take whole ++ List.replicate (whole - ds.length) '0' ++
      '.' :: (if fraction.isEmpty then ['0'] else fraction)

/-- Digits `ds` whose first digit stands for `10 ^ exponent`, with a signed exponent part. -/
def writeScientific (ds : List Char) (exponent : Int) : List Char :=
  let fraction := ds.drop 1
  let sign := if exponent < 0 then '-' else '+'
  ds.take 1 ++ (if fraction.isEmpty then [] else '.' :: fraction) ++
    'e' :: sign :: (toString exponent.natAbs).toList

def writePositive (layout : NumberLayout) (mantissa : Nat) (exponent : Int) : List Char :=
  let (c, place) := Shortest.digits mantissa exponent
  let ds := (toString c).toList
  let leading := place + (ds.length - 1 : Nat)
  if layout.positional leading then writePositional ds leading else writeScientific ds leading

def write (layout : NumberLayout) : Binary64 → List Char
  | .nan => layout.nan.toList
  | .infinite negative => (layout.infinity negative).toList
  | .finite negative mantissa exponent =>
    (if negative then ['-'] else []) ++
      if mantissa == 0 then ['0', '.', '0'] else layout.writePositive mantissa exponent

/-- Numbers in data: no exponent from `1e-5` up to `1e16`, and no text for what is not finite. -/
def data : NumberLayout where
  positional exponent := -5 ≤ exponent && exponent < 16
  nan := "null"
  infinity _ := "null"

/-- Numbers in messages about settings text: never an exponent. -/
def plain : NumberLayout where
  positional _ := true
  nan := "NaN"
  infinity negative := if negative then "-inf" else "inf"

end NumberLayout

end LijsCompiler
