import LijsCompiler.Number.Decimal
import LijsCompiler.Value.Reader

/-!
# Scalars of TOML

Strings in their four forms, and the words that stand for numbers, truth values, dates and times.  A
reader takes its part from the front of a text and gives back what is left; it has no result if
the text is not TOML.
-/

namespace LijsCompiler.Toml

abbrev Scan (α : Type) := List Char → Option (α × List Char)

def isBlank (c : Char) : Bool := c == ' ' || c == '\t'

def skipBlanks (cs : List Char) : List Char := cs.dropWhile isBlank

/-- Whether a character may stand in a comment or a string: no control but the tab. -/
def isTextChar (c : Char) : Bool := c == '\t' || (0x20 ≤ c.toNat && c.toNat != 0x7F)

def afterLineBreak? : List Char → Option (List Char)
  | '\n' :: rest => some rest
  | '\r' :: '\n' :: rest => some rest
  | _ => none

/-! ## Strings -/

/-- The characters up to an unescaped quote, escapes as they are written. -/
def cutAtQuote : Scan (List Char)
  | [] => none
  | '"' :: rest => some ([], rest)
  | '\\' :: c :: rest => (cutAtQuote rest).map fun (text, after) => ('\\' :: c :: text, after)
  | c :: rest => (cutAtQuote rest).map fun (text, after) => (c :: text, after)

/-- The characters up to three quotes in a row.  Of more than three, up to two belong
to the text.  With `escapes` a backslash takes the next character along. -/
def cutAtTriple (quote : Char) (escapes : Bool) : Scan (List Char)
  | [] => none
  | [_] => none
  | c :: d :: rest =>
    if escapes && c == '\\' then
      (cutAtTriple quote escapes rest).map fun (text, after) => (c :: d :: text, after)
    else if c == quote && d == quote && rest.take 1 == [quote] then
      let extra := min 2 ((rest.drop 1).takeWhile (· == quote)).length
      some (List.replicate extra quote, rest.drop (1 + extra))
    else
      (cutAtTriple quote escapes (d :: rest)).map fun (text, after) => (c :: text, after)

def escaped? : Char → Option Char
  | 'b' => some '\x08'
  | 't' => some '\t'
  | 'n' => some '\n'
  | 'f' => some '\x0c'
  | 'r' => some '\r'
  | '"' => some '"'
  | '\\' => some '\\'
  | _ => none

def ofCode? (digits : List Char) : Option Char := do
  let code ← Value.ofHex? digits
  Value.charOfCode? code

/-- The text that the inside of a string stands for.  In a string of `lines` line breaks are text;
after a backslash at the end of a line, blanks and line breaks are skipped (`skipping`). -/
def decodeText (lines skipping : Bool) : List Char → Option (List Char)
  | [] => some []
  | '\r' :: '\n' :: rest =>
    if !lines then none
    else if skipping then decodeText lines skipping rest
    else (decodeText lines skipping rest).map ('\n' :: ·)
  | '\n' :: rest =>
    if !lines then none
    else if skipping then decodeText lines skipping rest
    else (decodeText lines skipping rest).map ('\n' :: ·)
  | '\\' :: 'u' :: a :: b :: c :: d :: rest => do
    let char ← ofCode? [a, b, c, d]
    (decodeText lines false rest).map (char :: ·)
  | '\\' :: 'U' :: a :: b :: c :: d :: e :: f :: g :: h :: rest => do
    let char ← ofCode? [a, b, c, d, e, f, g, h]
    (decodeText lines false rest).map (char :: ·)
  | '\\' :: c :: rest =>
    match escaped? c with
    | some char => (decodeText lines false rest).map (char :: ·)
    | none =>
      if lines && (afterLineBreak? (skipBlanks (c :: rest))).isSome then
        decodeText lines true (c :: rest)
      else
        none
  | c :: rest =>
    if skipping && isBlank c then decodeText lines skipping rest
    else if c == '\\' || !isTextChar c then none
    else (decodeText lines false rest).map (c :: ·)

def decodeLiteral (lines : Bool) : List Char → Option (List Char)
  | [] => some []
  | '\r' :: '\n' :: rest =>
    if lines then (decodeLiteral lines rest).map ('\n' :: ·) else none
  | c :: rest =>
    if isTextChar c || (lines && c == '\n') then (decodeLiteral lines rest).map (c :: ·)
    else none

def dropFirstBreak (cs : List Char) : List Char := (afterLineBreak? cs).getD cs

def readBasic : Scan String := fun cs => do
  let (raw, rest) ← cutAtQuote cs
  let text ← decodeText false false raw
  return (String.ofList text, rest)

def readLiteral : Scan String := fun cs =>
  match cs.dropWhile (· != '\'') with
  | [] => none
  | _ :: rest => do
    let text ← decodeLiteral false (cs.takeWhile (· != '\''))
    return (String.ofList text, rest)

def readString : Scan String
  | '"' :: '"' :: '"' :: rest => do
    let (raw, after) ← cutAtTriple '"' true (dropFirstBreak rest)
    let text ← decodeText true false raw
    return (String.ofList text, after)
  | '\'' :: '\'' :: '\'' :: rest => do
    let (raw, after) ← cutAtTriple '\'' false (dropFirstBreak rest)
    let text ← decodeLiteral true raw
    return (String.ofList text, after)
  | '"' :: rest => readBasic rest
  | '\'' :: rest => readLiteral rest
  | _ => none

/-! ## Numbers -/

/-- Digits in groups with single underscores between them. -/
def isGrouped (isDigit : Char → Bool) (cs : List Char) : Bool :=
  (cs.splitOn '_').all fun group => !group.isEmpty && group.all isDigit

def ungroup (cs : List Char) : List Char := cs.filter (· != '_')

/-- A whole part: grouped digits without a leading zero. -/
def isWhole (cs : List Char) : Bool :=
  isGrouped Char.isDigit cs && (cs.take 1 != ['0'] || cs.length == 1)

def inRange (n : Int) : Option Value :=
  if Int64.minValue.toInt ≤ n ∧ n ≤ Int64.maxValue.toInt then some (.integer n) else none

def ofBase (base : Nat) (digits : List Char) : Nat :=
  digits.foldl (fun n c => base * n + (Value.hexValue? c).getD 0) 0

def isBaseDigit (base : Nat) (c : Char) : Bool :=
  match Value.hexValue? c with
  | some n => n < base
  | none => false

def readBase (base : Nat) (cs : List Char) : Option Value :=
  if isGrouped (isBaseDigit base) cs then inRange (ofBase base (ungroup cs)) else none

def isExponent (cs : List Char) : Bool := isGrouped Char.isDigit (Decimal.readSign cs).2

def isFraction (cs : List Char) : Bool :=
  let digits := cs.takeWhile fun c => c.isDigit || c == '_'
  isGrouped Char.isDigit digits &&
    match cs.dropWhile fun c => c.isDigit || c == '_' with
    | [] => true
    | c :: rest => (c == 'e' || c == 'E') && isExponent rest

/-- The double of a word of valid form.  A positive one that is too large is refused. -/
def readDouble (word : List Char) : Option Value :=
  match Decimal.read? (ungroup word) with
  | none | some (.infinite false) => none
  | some x => some (.float x)

def readNumber (word : List Char) : Option Value :=
  let (negative, unsigned) := Decimal.readSign word
  let whole := unsigned.takeWhile fun c => c.isDigit || c == '_'
  if !isWhole whole then none
  else
    match unsigned.dropWhile fun c => c.isDigit || c == '_' with
    | [] =>
      let n : Int := Decimal.ofDigits (ungroup whole)
      inRange (if negative then -n else n)
    | c :: rest =>
      if c == '.' && isFraction rest then readDouble word
      else if (c == 'e' || c == 'E') && isExponent rest then readDouble word
      else none

/-! ## Dates and times -/

def twoDigits? (low high : Nat) (a b : Char) : Option Nat :=
  let n := Decimal.ofDigits [a, b]
  if a.isDigit && b.isDigit && low ≤ n && n ≤ high then some n else none

def daysIn (year month : Nat) : Nat :=
  if month == 2 then
    if year % 4 == 0 && (year % 100 != 0 || year % 400 == 0) then 29 else 28
  else if month == 4 || month == 6 || month == 9 || month == 11 then 30
  else 31

def afterDate? : List Char → Option (List Char)
  | y₁ :: y₂ :: y₃ :: y₄ :: '-' :: m₁ :: m₂ :: '-' :: d₁ :: d₂ :: rest => do
    if !([y₁, y₂, y₃, y₄].all Char.isDigit) then failure
    let month ← twoDigits? 1 12 m₁ m₂
    let _ ← twoDigits? 1 (daysIn (Decimal.ofDigits [y₁, y₂, y₃, y₄]) month) d₁ d₂
    return rest
  | _ => none

def afterTime? : List Char → Option (List Char)
  | h₁ :: h₂ :: ':' :: m₁ :: m₂ :: ':' :: s₁ :: s₂ :: rest => do
    let _ ← twoDigits? 0 23 h₁ h₂
    let _ ← twoDigits? 0 59 m₁ m₂
    let _ ← twoDigits? 0 60 s₁ s₂
    match rest with
    | '.' :: fraction =>
      if (fraction.takeWhile Char.isDigit).isEmpty then none
      else some (fraction.dropWhile Char.isDigit)
    | rest => some rest
  | _ => none

/-- Whether a word is an offset from universal time, or nothing. -/
def isOffset : List Char → Bool
  | [] => true
  | ['Z'] | ['z'] => true
  | [sign, h₁, h₂, ':', m₁, m₂] =>
    (sign == '+' || sign == '-') && (twoDigits? 0 23 h₁ h₂).isSome && (twoDigits? 0 59 m₁ m₂).isSome
  | _ => false

def isOffsetTime (word : List Char) : Bool :=
  match afterTime? word with
  | some rest => isOffset rest
  | none => false

/-- A date or a time as data: an object with one private field. -/
def moment (word : List Char) : Value :=
  .object [("$__toml_private_datetime", .string (String.ofList word))]

def isMoment (word : List Char) : Bool :=
  match afterDate? word with
  | some [] => true
  | some (c :: rest) => (c == 'T' || c == 't') && isOffsetTime rest
  | none => afterTime? word == some []

/-! ## Words -/

def isWordChar (c : Char) : Bool :=
  c.isAlphanum || c == '+' || c == '-' || c == '_' || c == '.' || c == ':'

def wordValue? (word : List Char) : Option Value :=
  match word with
  | ['t', 'r', 'u', 'e'] => some (.boolean true)
  | ['f', 'a', 'l', 's', 'e'] => some (.boolean false)
  | ['i', 'n', 'f'] | ['+', 'i', 'n', 'f'] => some (.float (.infinite false))
  | ['-', 'i', 'n', 'f'] => some (.float (.infinite true))
  | ['n', 'a', 'n'] | ['+', 'n', 'a', 'n'] | ['-', 'n', 'a', 'n'] => some (.float .nan)
  | '0' :: 'x' :: digits => readBase 16 digits
  | '0' :: 'o' :: digits => readBase 8 digits
  | '0' :: 'b' :: digits => readBase 2 digits
  | word => if isMoment word then some (moment word) else readNumber word

/-- A value without parts that is no string.  A blank may stand between a date and its time. -/
def readWord : Scan Value := fun cs =>
  let word := cs.takeWhile isWordChar
  let rest := cs.dropWhile isWordChar
  match afterDate? word, rest with
  | some [], ' ' :: c :: after =>
    let time := (c :: after).takeWhile isWordChar
    if c.isDigit then
      if isOffsetTime time then
        some (moment (word ++ ' ' :: time), (c :: after).dropWhile isWordChar)
      else
        none
    else
      some (moment word, rest)
  | _, _ => (wordValue? word).map (·, rest)

def readScalar : Scan Value := fun cs =>
  match cs with
  | '"' :: _ | '\'' :: _ => (readString cs).map fun (text, rest) => (.string text, rest)
  | _ => readWord cs

end LijsCompiler.Toml
