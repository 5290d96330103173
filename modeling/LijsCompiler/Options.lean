import LijsCompiler.Temporary.Strategy
import LijsCompiler.Value

/-!
# Options

What a user may choose about the output, and how the choices are written as data.
-/

namespace LijsCompiler

structure Options where
  /-- The function that loads a module. -/
  requireCallee : String := "require"
  /-- The object that exported names are assigned on. -/
  exportsTarget : String := "module.exports"
  /-- The names of temporaries. -/
  temporaries : Strategy := .standard
deriving DecidableEq, Repr, Inhabited

def Strategy.toValue : Strategy → Value
  | counter stem => .object [("strategy", .string "counter"), ("prefix", .string stem.text)]
  | random length seed =>
    .object [("strategy", .string "random"), ("length", .integer length.value),
      ("seed", match seed with
        | some n => .integer n.toNat
        | none => .null)]

def Options.toValue (o : Options) : Value :=
  .object [("require_callee", .string o.requireCallee), ("exports_target", .string o.exportsTarget),
    ("temporaries", o.temporaries.toValue)]

structure Configuration where
  lowering : Options := {}
deriving DecidableEq, Repr, Inhabited

def Configuration.toValue (c : Configuration) : Value :=
  .object [("lowering", c.lowering.toValue)]

end LijsCompiler
