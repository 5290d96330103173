import LijsCompiler.Value

/-!
# Tables under construction

A TOML table may be filled from several places of a document, within limits: a table that a
header defined is closed to dotted keys from outside, and the other way round.  A table in progress
therefore remembers how it came to be.
-/

namespace LijsCompiler.Toml

mutual

/-- A table in progress.  It is `implicit` while only its members were named, and `dotted` if a
dotted key made it. -/
inductive Table where
  | mk (implicit dotted : Bool) (entries : List (String × Entry))

inductive Entry where
  | value (v : Value)
  | table (t : Table)
  /-- The tables of an array of tables, in order. -/
  | tables (ts : List Table)

end

namespace Table

def implicit : Table → Bool
  | mk implicit _ _ => implicit

def dotted : Table → Bool
  | mk _ dotted _ => dotted

def entries : Table → List (String × Entry)
  | mk _ _ entries => entries

def empty : Table := mk false false []

def defined (t : Table) : Table := mk false false t.entries

def withEntries (t : Table) (entries : List (String × Entry)) : Table :=
  mk t.implicit t.dotted entries

def find? (t : Table) (key : String) : Option Entry := t.entries.lookup key

def append (t : Table) (key : String) (entry : Entry) : Table :=
  t.withEntries (t.entries ++ [(key, entry)])

def replace (t : Table) (key : String) (entry : Entry) : Table :=
  t.withEntries (t.entries.map fun (k, e) => if k == key then (k, entry) else (k, e))

def erase (t : Table) (key : String) : Table :=
  t.withEntries (t.entries.filter fun (k, _) => k != key)

/-- Works on the table that a path leads to.  Tables that are missing on the way are made; of an
array of tables the last one is entered.  A dotted key does not enter a table with a header. -/
def descend {α : Type} (byDots : Bool) (work : Table → Option (α × Table)) :
    List String → Table → Option (α × Table)
  | [], t => work t
  | key :: path, t =>
    match t.find? key with
    | none => do
      let (a, child) ← descend byDots work path (mk true byDots [])
      return (a, t.append key (.table child))
    | some (.value _) => none
    | some (.table child) =>
      if byDots && !child.implicit then none
      else do
        let (a, child) ← descend byDots work path child
        return (a, t.replace key (.table child))
    | some (.tables ts) =>
      match ts.getLast? with
      | none => none
      | some last => do
        let (a, last) ← descend byDots work path last
        return (a, t.replace key (.tables (ts.dropLast ++ [last])))

/-- Adds a key, perhaps dotted, with its value.  The key must be new, and a dotted key must not add
to a table that dotted keys did not make. -/
def insert (t : Table) (path : List String) (key : String) (v : Value) : Option Table := do
  let add (target : Table) : Option (Unit × Table) :=
    if target.dotted == path.isEmpty then none
    else if (target.find? key).isSome then none
    else some ((), target.append key (.value v))
  let (_, t) ← descend true add path t
  return t

mutual

def toFields : List (String × Entry) → List (String × Value)
  | [] => []
  | (key, entry) :: entries => (key, Entry.toValue entry) :: toFields entries

def Entry.toValue : Entry → Value
  | .value v => v
  | .table (.mk _ _ entries) => .object (toFields entries)
  | .tables ts => .array (toValues ts)

def toValues : List Table → List Value
  | [] => []
  | .mk _ _ entries :: ts => .object (toFields entries) :: toValues ts

end

def toValue (t : Table) : Value := .object (toFields t.entries)

end Table

/-- A document in progress: what is finished, and the table that keys go to now. -/
structure Document where
  root : Table
  current : Table
  /-- The keys of the header of the current table, or none before the first header. -/
  path : List String
  /-- Whether the current table is one of an array of tables. -/
  isElement : Bool

namespace Document

def empty : Document := ⟨.empty, .empty, [], false⟩

/-- The root with the current table in its place. -/
def finish (d : Document) : Option Table :=
  match d.path.getLast? with
  | none => some d.current
  | some key => do
    let place (parent : Table) : Option (Unit × Table) :=
      match d.isElement, parent.find? key with
      | true, none => some ((), parent.append key (.tables [d.current]))
      | true, some (.tables ts) => some ((), parent.replace key (.tables (ts ++ [d.current])))
      | false, none => some ((), parent.append key (.table d.current))
      | false, some (.table t) =>
        if t.implicit then some ((), parent.replace key (.table d.current)) else none
      | _, _ => none
    let (_, root) ← Table.descend false place d.path.dropLast d.root
    return root

def insert (d : Document) (path : List String) (key : String) (v : Value) : Option Document := do
  let current ← d.current.insert path key v
  return { d with current }

/-- Opens the table of a header.  It must be new or implied by the headers of its members; in that
case it is taken out of its parent and goes to the end when it is finished. -/
def openTable (d : Document) (path : List String) : Option Document := do
  let root ← d.finish
  let key ← path.getLast?
  let take (parent : Table) : Option (Table × Table) :=
    match parent.find? key with
    | none => some (.empty, parent)
    | some (.table t) =>
      if t.implicit && !t.dotted then some (t.defined, parent.erase key) else none
    | some _ => none
  let (current, root) ← Table.descend false take path.dropLast root
  return ⟨root, current, path, false⟩

def openElement (d : Document) (path : List String) : Option Document := do
  let root ← d.finish
  let key ← path.getLast?
  let check (parent : Table) : Option (Unit × Table) :=
    match parent.find? key with
    | none => some ((), parent.append key (.tables []))
    | some (.tables _) => some ((), parent)
    | some _ => none
  let (_, root) ← Table.descend false check path.dropLast root
  return ⟨root, .empty, path, true⟩

end Document

end LijsCompiler.Toml
