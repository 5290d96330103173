import LijsCompiler.Toml.Scalar
import LijsCompiler.Toml.Table

/-!
# Reading TOML documents

`read?` gives the data of a document in TOML 1.0, or nothing if the text is no such document.  Values may
be nested in 79 arrays and inline tables, and a dotted key may have 79 parts.
-/

namespace LijsCompiler.Toml

def depthLimit : Nat := 79

/-- The text after blanks, comments and line breaks. -/
def skipLines (inComment : Bool) : List Char → Option (List Char)
  | [] => some []
  | '\n' :: rest => skipLines false rest
  | '\r' :: '\n' :: rest => skipLines false rest
  | c :: rest =>
    if inComment then
      if isTextChar c then skipLines true rest else none
    else if isBlank c then skipLines false rest
    else if c == '#' then skipLines true rest
    else some (c :: rest)

/-- The text after the end of a line, which may hold blanks and a comment. -/
def endLine (inComment : Bool) : List Char → Option (List Char)
  | [] => some []
  | '\n' :: rest => some rest
  | '\r' :: '\n' :: rest => some rest
  | c :: rest =>
    if inComment then
      if isTextChar c then endLine true rest else none
    else if isBlank c then endLine false rest
    else if c == '#' then endLine true rest
    else none

/-! ## Keys -/

def isKeyChar (c : Char) : Bool := c.isAlphanum || c == '_' || c == '-'

def readKeyPart : Scan String
  | '"' :: rest => readBasic rest
  | '\'' :: rest => readLiteral rest
  | cs =>
    let name := cs.takeWhile isKeyChar
    if name.isEmpty then none else some (String.ofList name, cs.dropWhile isKeyChar)

def readKeyParts : Nat → Scan (List String)
  | 0 => fun _ => none
  | limit + 1 => fun cs => do
    let (part, rest) ← readKeyPart (skipBlanks cs)
    match skipBlanks rest with
    | '.' :: rest => do
      let (parts, rest) ← readKeyParts limit rest
      return (part :: parts, rest)
    | rest => return ([part], rest)

def readKey : Scan (List String) := readKeyParts depthLimit

/-! ## Values -/

/-- The elements of an array, up to its closing bracket.  There are at most `limit`. -/
def readElements (value : Scan Value) : Nat → Scan (List Value)
  | 0 => fun _ => none
  | limit + 1 => fun cs => do
    match ← skipLines false cs with
    | ']' :: rest => return ([], rest)
    | cs => do
      let (v, rest) ← value cs
      match ← skipLines false rest with
      | ',' :: rest => do
        let (vs, rest) ← readElements value limit rest
        return (v :: vs, rest)
      | ']' :: rest => return ([v], rest)
      | _ => none

def readPair (value : Scan Value) : Scan (List String × Value) := fun cs => do
  match ← readKey cs with
  | (key, '=' :: rest) => do
    let (v, rest) ← value (skipBlanks rest)
    return ((key, v), rest)
  | _ => none

def readPairs (value : Scan Value) : Nat → Scan (List (List String × Value))
  | 0 => fun _ => none
  | limit + 1 => fun cs => do
    let (pair, rest) ← readPair value cs
    match skipBlanks rest with
    | ',' :: rest => do
      let (pairs, rest) ← readPairs value limit rest
      return (pair :: pairs, rest)
    | '\x7d' :: rest => return ([pair], rest)
    | _ => none

def tableOfPairs (pairs : List (List String × Value)) : Option Table :=
  pairs.foldlM (fun t (key, v) => do
    let name ← key.getLast?
    t.insert key.dropLast name v) .empty

/-- A value inside `limit` more arrays and inline tables at most. -/
def readValue : Nat → Scan Value
  | 0 => fun cs =>
    match cs with
    | '[' :: _ | '\x7b' :: _ => none
    | cs => readScalar cs
  | limit + 1 => fun cs =>
    match cs with
    | '[' :: rest => do
      let (vs, rest) ← readElements (readValue limit) (rest.length + 1) rest
      return (.array vs, rest)
    | '\x7b' :: rest =>
      match skipBlanks rest with
      | '\x7d' :: rest => some (.object [], rest)
      | rest => do
        let (pairs, after) ← readPairs (readValue limit) (rest.length + 1) rest
        let table ← tableOfPairs pairs
        return (table.toValue, after)
    | cs => readScalar cs

/-! ## Documents -/

def readExpression (d : Document) (cs : List Char) : Option (Document × List Char) := do
  match cs with
  | '[' :: '[' :: rest =>
    match ← readKey rest with
    | (path, ']' :: ']' :: rest) => do
      let d ← d.openElement path
      return (d, ← endLine false rest)
    | _ => none
  | '[' :: rest =>
    match ← readKey rest with
    | (path, ']' :: rest) => do
      let d ← d.openTable path
      return (d, ← endLine false rest)
    | _ => none
  | cs => do
    let ((key, v), rest) ← readPair (readValue depthLimit) cs
    let name ← key.getLast?
    let d ← d.insert key.dropLast name v
    return (d, ← endLine false rest)

def readExpressions (d : Document) : Nat → List Char → Option Document
  | 0, _ => none
  | limit + 1, cs => do
    match ← skipLines false cs with
    | [] => return d
    | cs => do
      let (d, rest) ← readExpression d cs
      readExpressions d limit rest

/-- The data of a TOML document.  A byte order mark in front is passed over. -/
def read? (text : String) : Option Value := do
  let chars :=
    match text.toList with
    | '\uFEFF' :: rest => rest
    | chars => chars
  let d ← readExpressions .empty (chars.length + 1) chars
  let root ← d.finish
  return root.toValue

end LijsCompiler.Toml
