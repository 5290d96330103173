import LijsCompiler.Name

/-!
# Strategies for temporary names

The compiler makes up names of its own: one index per loop depth, and temporaries, which
are either a stem and a number or a run of random letters and digits.  A stem is checked once, when
it is chosen, so that no numbered name can be mistaken for a loop index.
-/

namespace LijsCompiler

/-- The index variable of a loop inside `depth` other loops. -/
def loopIndex (depth : Nat) : String := "_i" ++ toString depth

def isLoopIndex (name : String) : Bool :=
  match name.toList with
  | '_' :: 'i' :: digits => !digits.isEmpty && digits.all Char.isDigit
  | _ => false

inductive StrategyFault where
  /-- A stem is no identifier. -/
  | invalidStem (text : String)
  /-- Numbered names with the stem would be loop indices. -/
  | loopIndexStem (text : String)
  /-- A length of random names is out of range. -/
  | invalidLength (length : Nat)
deriving DecidableEq, Repr, Inhabited

namespace Stem

def isStemChar (c : Char) : Bool := c.isAlphanum || c == '_' || c == '$'

/-- Whether a text is an identifier that can start a numbered name. -/
def isIdentifier : List Char → Bool
  | [] => false
  | c :: cs => isStemChar c && !c.isDigit && cs.all isStemChar

def fault? (text : String) : Option StrategyFault :=
  if !isIdentifier text.toList then some (.invalidStem text)
  else if isLoopIndex (text ++ "0") then some (.loopIndexStem text)
  else none

end Stem

/-- What numbered names begin with. -/
structure Stem where
  text : String
  valid : Stem.fault? text = none
deriving DecidableEq, Repr

namespace Stem

def ofString (text : String) : Except StrategyFault Stem :=
  match h : fault? text with
  | none => .ok ⟨text, h⟩
  | some fault => .error fault

def standard : Stem := ⟨"_t", by decide⟩

instance : Inhabited Stem := ⟨standard⟩

def numbered (stem : Stem) (n : Nat) : String := stem.text ++ toString n

end Stem

structure NameLength where
  value : Nat
  least_le : 4 ≤ value
  le_greatest : value ≤ 32
deriving DecidableEq, Repr

namespace NameLength

def least : Nat := 4

def greatest : Nat := 32

def ofNat (n : Nat) : Except StrategyFault NameLength :=
  if h : 4 ≤ n ∧ n ≤ 32 then .ok ⟨n, h.1, h.2⟩ else .error (.invalidLength n)

def standard : NameLength := ⟨12, by decide, by decide⟩

instance : Inhabited NameLength := ⟨standard⟩

end NameLength

inductive Strategy where
  /-- A stem and a running number. -/
  | counter (stem : Stem)
  /-- Random letters and digits, reproducible where a seed is given. -/
  | random (length : NameLength) (seed : Option UInt64)
deriving DecidableEq, Repr

namespace Strategy

def standard : Strategy := .counter .standard

instance : Inhabited Strategy := ⟨standard⟩

end Strategy

def StrategyFault.message : StrategyFault → String
  | invalidStem text =>
    "temporary prefix `" ++ text ++ "` must start with a letter, `_` or `$` and contain only " ++
      "letters, digits, `_` or `$`"
  | loopIndexStem text =>
    "temporary prefix `" ++ text ++ "` collides with loop index names (`_i0`, `_i1`, ...)"
  | invalidLength length =>
    "random temporary length " ++ toString length ++ " must be between " ++
      toString NameLength.least ++ " and " ++ toString NameLength.greatest

end LijsCompiler
