/-!
# Names

A name is a text in which dots separate segments: `console.log` is the member `log` of `console`.
Dots may be repeated, lead or trail; only the segments with a character count as members.
-/

namespace LijsCompiler.Name

/-- The texts between the dots, empty ones included. -/
def segments (name : String) : List String :=
  (name.toList.splitOn '.').map String.ofList

/-- The segments that hold a character. -/
def members (name : String) : List String :=
  (segments name).filter (· != "")

/-- The text before the first dot. -/
def root (name : String) : String :=
  String.ofList (name.toList.takeWhile (· != '.'))

/-- The text after the last dot. -/
def tail (name : String) : String :=
  String.ofList (name.toList.reverse.takeWhile (· != '.')).reverse

/-- Whether a name reaches into a member, so that it cannot be declared. -/
def isDotted (name : String) : Bool := name.toList.contains '.'

def startsWithDigit (name : String) : Bool :=
  match name.toList with
  | c :: _ => c.isDigit
  | [] => false

end LijsCompiler.Name
