import LijsCompiler.Number.Layout
import LijsCompiler.Value

/-!
# JSON text

Values are written without blanks (`compact`) or on lines of their own with two blanks per level
(`pretty`).  Strings escape what JSON requires and nothing else.
-/

namespace LijsCompiler.Value

def hexDigit (n : Nat) : Char :=
  if n < 10 then Char.ofNat ('0'.toNat + n) else Char.ofNat ('a'.toNat + (n - 10))

def escapeChar (c : Char) : List Char :=
  if c == '"' then ['\\', '"']
  else if c == '\\' then ['\\', '\\']
  else if c == '\x08' then ['\\', 'b']
  else if c == '\t' then ['\\', 't']
  else if c == '\n' then ['\\', 'n']
  else if c == '\x0c' then ['\\', 'f']
  else if c == '\r' then ['\\', 'r']
  else if c.toNat < 0x20 then ['\\', 'u', '0', '0', hexDigit (c.toNat / 16), hexDigit (c.toNat % 16)]
  else [c]

def quote (text : String) : List Char := '"' :: text.toList.flatMap escapeChar ++ ['"']

def atom : Value → List Char
  | boolean b => (toString b).toList
  | integer n => (toString n).toList
  | float x => NumberLayout.data.write x
  | string text => quote text
  | _ => "null".toList

mutual

def compact : Value → List Char
  | array [] => ['[', ']']
  | array (value :: values) => '[' :: (compact value ++ compactElements values)
  | object [] => ['\x7b', '\x7d']
  | object ((name, value) :: fields) =>
    '\x7b' :: (quote name ++ ':' :: (compact value ++ compactFields fields))
  | null => atom null
  | boolean b => atom (boolean b)
  | integer n => atom (integer n)
  | float x => atom (float x)
  | string text => atom (string text)

/-- The elements after the first, each after a comma, and the closing bracket. -/
def compactElements : List Value → List Char
  | [] => [']']
  | value :: values => ',' :: (compact value ++ compactElements values)

def compactFields : List (String × Value) → List Char
  | [] => ['\x7d']
  | (name, value) :: fields =>
    ',' :: (quote name ++ ':' :: (compact value ++ compactFields fields))

end

def newLine (level : Nat) : List Char := '\n' :: List.replicate (2 * level) ' '

mutual

def pretty (level : Nat) : Value → List Char
  | array [] => ['[', ']']
  | array (value :: values) =>
    '[' :: (newLine (level + 1) ++ pretty (level + 1) value ++ prettyElements level values)
  | object [] => ['\x7b', '\x7d']
  | object ((name, value) :: fields) =>
    '\x7b' :: (newLine (level + 1) ++ quote name ++ ':' :: ' ' ::
      (pretty (level + 1) value ++ prettyFields level fields))
  | null => atom null
  | boolean b => atom (boolean b)
  | integer n => atom (integer n)
  | float x => atom (float x)
  | string text => atom (string text)

def prettyElements (level : Nat) : List Value → List Char
  | [] => newLine level ++ [']']
  | value :: values =>
    ',' :: (newLine (level + 1) ++ pretty (level + 1) value ++ prettyElements level values)

def prettyFields (level : Nat) : List (String × Value) → List Char
  | [] => newLine level ++ ['\x7d']
  | (name, value) :: fields =>
    ',' :: (newLine (level + 1) ++ quote name ++ ':' :: ' ' ::
      (pretty (level + 1) value ++ prettyFields level fields))

end

def toJson (value : Value) : String := String.ofList value.compact

def toPrettyJson (value : Value) : String := String.ofList (value.pretty 0)

end LijsCompiler.Value
