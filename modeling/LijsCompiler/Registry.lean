import LijsCompiler.Temporary.Keystream
import LijsCompiler.Temporary.Strategy

/-!
# The names of one program

A registry knows the names that must not be used for temporaries, because the program
writes them, and the names that the output declares, in the order of their declaration.  It draws
temporaries that are neither.

A draw looks at one candidate after the other until one is free.  Random candidates may all be taken
for as long as one likes, so every draw has a patience after which it is given up.  The patience is
part of what a run is supplied with, beside the key of its random names.
-/

namespace LijsCompiler

inductive Generator where
  | counter (stem : Stem) (next : Nat)
  | random (length : NameLength) (stream : Keystream)
deriving Repr

namespace Generator

/-- The candidates of a strategy.  A random strategy without a seed uses the key `entropy`. -/
def ofStrategy (entropy : StreamKey) : Strategy → Generator
  | .counter stem => .counter stem 0
  | .random length seed => .random length (.ofKey ((seed.map StreamKey.ofSeed).getD entropy))

/-- The next candidate.  For each of its random characters at most `patience` words are looked
at. -/
def candidate? (patience : Nat) : Generator → Option (String × Generator)
  | counter stem next => some (stem.numbered next, .counter stem (next + 1))
  | random length stream => do
    let (chars, stream) ← stream.drawChars patience length.value
    return (String.ofList chars, .random length stream)

end Generator

/-- What the temporaries of a run are drawn from, besides the strategy. -/
structure Supply where
  /-- The key of a random strategy without a seed. -/
  key : StreamKey
  /-- How many candidates a draw looks at beyond one for each name in the way, and how many words
  for each character of a random candidate. -/
  patience : Nat
deriving Repr

namespace Supply

/-- A key with the usual patience, which no draw uses up in practice. -/
def ofKey (key : StreamKey) : Supply := ⟨key, 1000000000000000000⟩

instance : Coe StreamKey Supply := ⟨ofKey⟩

def ofSeed (seed : UInt64) : Supply := StreamKey.ofSeed seed

end Supply

structure Registry where
  /-- The names that no temporary may have. -/
  reserved : List String
  /-- The declared names, in the order of their declaration. -/
  introduced : List String
  /-- The temporaries among them, in the order in which they were drawn. -/
  drawn : List String
  /-- The candidates for further temporaries. -/
  generator : Generator
  /-- The patience of a draw. -/
  patience : Nat
deriving Repr

namespace Registry

def ofStrategy (supply : Supply) (strategy : Strategy) : Registry :=
  ⟨[], [], [], .ofStrategy supply.key strategy, supply.patience⟩

/-- Keeps a name from being drawn. -/
def reserve (r : Registry) (name : String) : Registry :=
  if name ∈ r.reserved then r else { r with reserved := name :: r.reserved }

def introduce (r : Registry) (name : String) : Registry :=
  if name ∈ r.introduced then r else { r with introduced := r.introduced ++ [name] }

def isTaken (r : Registry) (name : String) : Bool :=
  name ∈ r.reserved || name ∈ r.introduced

/-- Whether a candidate will do: it is an identifier, no loop index, and not taken. -/
def accepts (r : Registry) (name : String) : Bool :=
  !Name.startsWithDigit name && !isLoopIndex name && !r.isTaken name

def draw (r : Registry) (name : String) : Registry :=
  { r.introduce name with drawn := r.drawn ++ [name] }

/-- Draws candidates until one will do and records it.  At most `limit` candidates are drawn. -/
def search (r : Registry) : Nat → Option (String × Registry)
  | 0 => none
  | limit + 1 => do
    let (name, generator) ← r.generator.candidate? r.patience
    let r := { r with generator }
    if r.accepts name then some (name, r.draw name) else search r limit

/-- The number of candidates after which a draw is given up.  It exceeds the number of names in
the way, so a counter never gives up. -/
def searchLimit (r : Registry) : Nat := r.reserved.length + r.introduced.length + r.patience + 1

/-- A new temporary, recorded as declared, unless the patience runs out before one is found. -/
def fresh? (r : Registry) : Option (String × Registry) := r.search r.searchLimit

/-! ## Runs -/

inductive Request where
  | reserve (name : String)
  | introduce (name : String)
  | taken (name : String)
  | fresh
  | names
deriving DecidableEq, Repr

inductive Reply where
  | done
  | verdict (yes : Bool)
  | name (name : String)
  | names (names : List String)
deriving DecidableEq, Repr

/-- Answers one request.  There is no answer if the draw of a temporary is given up. -/
def answer? (r : Registry) : Request → Option (Reply × Registry)
  | .reserve name => some (.done, r.reserve name)
  | .introduce name => some (.verdict (name ∉ r.introduced), r.introduce name)
  | .taken name => some (.verdict (r.isTaken name), r)
  | .fresh => do
    let (name, r) ← r.fresh?
    return (.name name, r)
  | .names => some (.names r.introduced, r)

def run? (r : Registry) : List Request → Option (List Reply × Registry)
  | [] => some ([], r)
  | request :: requests => do
    let (reply, r) ← r.answer? request
    let (replies, r) ← run? r requests
    return (reply :: replies, r)

end Registry

inductive NamesFault where
  | startsWithDigit (name : String)
  | introducedTwice (name : String)
deriving DecidableEq, Repr

def NamesFault.message : NamesFault → String
  | startsWithDigit name => "name `" ++ name ++ "` starts with a digit"
  | introducedTwice name => "name `" ++ name ++ "` is introduced twice"

/-- The first fault in a list of declared names of which `seen` came before. -/
def namesFaultAfter? (seen : List String) : List String → Option NamesFault
  | [] => none
  | name :: names =>
    if Name.startsWithDigit name then some (.startsWithDigit name)
    else if name ∈ seen then some (.introducedTwice name)
    else namesFaultAfter? (name :: seen) names

/-- The first fault in a list of declared names: each must be new and start with no digit. -/
def namesFault? (names : List String) : Option NamesFault := namesFaultAfter? [] names

end LijsCompiler
