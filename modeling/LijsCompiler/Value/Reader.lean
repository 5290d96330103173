import LijsCompiler.Value.Number

/-!
# Reading JSON text

The text must hold one value and blanks around it.
-/

namespace LijsCompiler.Value

def hexValue? (c : Char) : Option Nat :=
  if c.isDigit then some (c.toNat - '0'.toNat)
  else if 'a' ≤ c && c ≤ 'f' then some (c.toNat - 'a'.toNat + 10)
  else if 'A' ≤ c && c ≤ 'F' then some (c.toNat - 'A'.toNat + 10)
  else none

def ofHex? (digits : List Char) : Option Nat :=
  digits.foldlM (fun n c => (hexValue? c).map (16 * n + ·)) 0

def charOfCode? (code : Nat) : Option Char :=
  if code.isValidChar then some (Char.ofNat code) else none

def unescape? : Char → Option Char
  | '"' => some '"'
  | '\\' => some '\\'
  | '/' => some '/'
  | 'b' => some '\x08'
  | 'f' => some '\x0c'
  | 'n' => some '\n'
  | 'r' => some '\r'
  | 't' => some '\t'
  | _ => none

/-- The characters up to the closing quote, and what follows it.  A character beyond the
basic plane may be written as two escapes. -/
def readQuoted : List Char → Option (List Char × List Char)
  | [] => none
  | '"' :: rest => some ([], rest)
  | '\\' :: 'u' :: a :: b :: c :: d :: '\\' :: 'u' :: e :: f :: g :: h :: rest => do
    let high ← ofHex? [a, b, c, d]
    let low ← ofHex? [e, f, g, h]
    if 0xD800 ≤ high ∧ high < 0xDC00 ∧ 0xDC00 ≤ low ∧ low < 0xE000 then
      let char ← charOfCode? (0x10000 + (high - 0xD800) * 0x400 + (low - 0xDC00))
      let (text, after) ← readQuoted rest
      return (char :: text, after)
    else
      let char ← charOfCode? high
      let (text, after) ← readQuoted ('\\' :: 'u' :: e :: f :: g :: h :: rest)
      return (char :: text, after)
  | '\\' :: 'u' :: a :: b :: c :: d :: rest => do
    let code ← ofHex? [a, b, c, d]
    let char ← charOfCode? code
    let (text, after) ← readQuoted rest
    return (char :: text, after)
  | '\\' :: c :: rest => do
    let char ← unescape? c
    let (text, after) ← readQuoted rest
    return (char :: text, after)
  | c :: rest =>
    if c.toNat < 0x20 then none
    else (readQuoted rest).map fun (text, after) => (c :: text, after)

def skipBlanks (cs : List Char) : List Char :=
  cs.dropWhile fun c => c == ' ' || c == '\t' || c == '\n' || c == '\r'

mutual

/-- Reads one value.  The fuel bounds the number of values and parts read. -/
def readValue : Nat → List Char → Option (Value × List Char)
  | 0, _ => none
  | fuel + 1, text =>
    match skipBlanks text with
    | '"' :: rest => do
      let (chars, after) ← readQuoted rest
      return (string (String.ofList chars), after)
    | '[' :: rest =>
      match skipBlanks rest with
      | ']' :: after => some (array [], after)
      | _ => do
        let (elements, after) ← readElements fuel rest
        return (array elements, after)
    | '\x7b' :: rest =>
      match skipBlanks rest with
      | '\x7d' :: after => some (object [], after)
      | _ => do
        let (fields, after) ← readFields fuel rest
        return (object fields, after)
    | 't' :: 'r' :: 'u' :: 'e' :: rest => some (boolean true, rest)
    | 'f' :: 'a' :: 'l' :: 's' :: 'e' :: rest => some (boolean false, rest)
    | 'n' :: 'u' :: 'l' :: 'l' :: rest => some (null, rest)
    | rest => do
      let value ← number? (rest.takeWhile isNumberPart)
      return (value, rest.dropWhile isNumberPart)

def readElements : Nat → List Char → Option (List Value × List Char)
  | 0, _ => none
  | fuel + 1, text => do
    let (value, rest) ← readValue fuel text
    match skipBlanks rest with
    | ',' :: rest =>
      let (values, after) ← readElements fuel rest
      return (value :: values, after)
    | ']' :: after => return ([value], after)
    | _ => none

def readFields : Nat → List Char → Option (List (String × Value) × List Char)
  | 0, _ => none
  | fuel + 1, text =>
    match skipBlanks text with
    | '"' :: rest => do
      let (name, rest) ← readQuoted rest
      match skipBlanks rest with
      | ':' :: rest =>
        let (value, rest) ← readValue fuel rest
        match skipBlanks rest with
        | ',' :: rest =>
          let (fields, after) ← readFields fuel rest
          return ((String.ofList name, value) :: fields, after)
        | '\x7d' :: after => return ([(String.ofList name, value)], after)
        | _ => none
      | _ => none
    | _ => none

end

def ofJson? (text : String) : Option Value := do
  let chars := text.toList
  let (value, rest) ← readValue (2 * chars.length + 2) chars
  if (skipBlanks rest).isEmpty then some value else none

end LijsCompiler.Value
