import LijsCompiler.ESTree.Json
import LijsCompiler.Lowering

/-!
# Whole programs

Before a program is lowered every name it writes is reserved, so that no temporary can stand for it.
-/

namespace LijsCompiler

structure Lowered where
  body : List ESTree
  /-- The declared names, in the order of their declaration. -/
  names : List String
  /-- The temporaries among them, in the order in which they were drawn. -/
  temporaries : List String
  warnings : List Warning
deriving Repr

namespace Lowered

def toJson (l : Lowered) : String := (ESTree.programValue l.body).toJson

def toPrettyJson (l : Lowered) : String := (ESTree.programValue l.body).toPrettyJson

end Lowered

namespace Lowering

/-- The names that no temporary may have: those of the program, the loop element, and the
roots of what the options name. -/
def reservedNames (o : Options) (program : List Node) : List String :=
  (Node.walkAll program).flatMap Node.names ++
    [itemName, Name.root o.requireCallee, Name.root o.exportsTarget]

def initialContext (o : Options) (supply : Supply) (program : List Node) : Context where
  registry := (reservedNames o program).foldl Registry.reserve (.ofStrategy supply o.temporaries)
  hoisted := []
  depth := 0
  warnings := []

/-- Lowers a program.  There is no result only if the draw of a temporary is given up. -/
def lowerProgram (o : Options) (supply : Supply) (program : List Node) : Option Lowered := do
  let (body, c) ←
    (withOwnBuffer (lowerStatements o program)).run (initialContext o supply program)
  return ⟨body, c.registry.introduced, c.registry.drawn, c.warnings⟩

end Lowering

end LijsCompiler
