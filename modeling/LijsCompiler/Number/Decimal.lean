import LijsCompiler.Number.Binary64
import LijsCompiler.Text

/-!
# Numbers in decimal text

Reading is exact: the digits make one natural number, which is rounded once.
-/

namespace LijsCompiler.Decimal

def digitValue (c : Char) : Nat := c.toNat - '0'.toNat

def ofDigits (digits : List Char) : Nat :=
  digits.foldl (fun n c => 10 * n + digitValue c) 0

def readSign : List Char → Bool × List Char
  | '-' :: rest => (true, rest)
  | '+' :: rest => (false, rest)
  | rest => (false, rest)

/-- The number of an exponent part `e`, sign, digits that ends the text.  No text is the exponent
zero. -/
def readExponent : List Char → Option Int
  | [] => some 0
  | c :: rest =>
    if c == 'e' || c == 'E' then
      let (negative, digits) := readSign rest
      if digits.isEmpty || !digits.all Char.isDigit then none
      else
        let n : Int := ofDigits digits
        some (if negative then -n else n)
    else
      none

/-- The double written by digits with an optional point and an optional exponent.  A digit must
stand on at least one side of the point. -/
def readUnsigned (negative : Bool) (cs : List Char) : Option Binary64 :=
  let whole := cs.takeWhile Char.isDigit
  let (fraction, rest) :=
    match cs.dropWhile Char.isDigit with
    | '.' :: rest => (rest.takeWhile Char.isDigit, rest.dropWhile Char.isDigit)
    | rest => ([], rest)
  if whole.isEmpty && fraction.isEmpty then
    none
  else
    (readExponent rest).map fun exponent =>
      .ofDecimal negative (ofDigits (whole ++ fraction)) (exponent - fraction.length)

/-- The double that a text spells: an optional sign, then a number, `inf`, `infinity` or
`nan`, the words in either case. -/
def read? (cs : List Char) : Option Binary64 :=
  let (negative, rest) := readSign cs
  let word := String.ofList (rest.map Char.toLower)
  if word == "inf" || word == "infinity" then some (.infinite negative)
  else if word == "nan" then some .nan
  else readUnsigned negative rest

/-- The value of a number literal: what stands before a second point counts, and a text that is no
number counts as zero. -/
def literalValue (text : String) : Binary64 :=
  (read? (Text.beforeSecond '.' text.toList)).getD (.zero false)

end LijsCompiler.Decimal
