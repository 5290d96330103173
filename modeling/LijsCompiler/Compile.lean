import LijsCompiler.Diagnostic
import LijsCompiler.Lowering.Program
import LijsCompiler.Node.Parser

/-!
# Compilation

From source text to output: tokens, tree, ESTree.
-/

namespace LijsCompiler

inductive CompileError where
  | lex (e : LexError)
  | parse (e : ParseError)
  /-- The draw of a temporary was given up, as its patience had run out. -/
  | noFreshName
deriving DecidableEq, Repr

def CompileError.diagnostic : CompileError → Diagnostic
  | lex e => e.diagnostic
  | parse e => e.diagnostic
  | noFreshName => { code := "lower::no_fresh_name", message := "no free name for a temporary" }

def parseSource (source : String) : Except CompileError (List Node) :=
  match tokenize source with
  | .error e => .error (.lex e)
  | .ok tokens =>
    match parse tokens with
    | .error e => .error (.parse e)
    | .ok program => .ok program

def compileTree (o : Options) (supply : Supply) (program : List Node) :
    Except CompileError Lowered :=
  match Lowering.lowerProgram o supply program with
  | some lowered => .ok lowered
  | none => .error .noFreshName

def compile (c : Configuration) (supply : Supply) (source : String) :
    Except CompileError Lowered := do
  let program ← parseSource source
  compileTree c.lowering supply program

end LijsCompiler
