import LijsCompiler.Number.Binary64

/-!
# Data

The values that JSON and TOML texts stand for.  The fields of an object are kept in the order in
which they are written.
-/

namespace LijsCompiler

inductive Value where
  | null
  | boolean (b : Bool)
  | integer (n : Int)
  | float (x : Binary64)
  | string (text : String)
  | array (elements : List Value)
  | object (fields : List (String × Value))
deriving Repr, Inhabited

namespace Value

def field? (name : String) : Value → Option Value
  | object fields => fields.lookup name
  | _ => none

/-- Puts a field where its name belongs among fields sorted by name.  It replaces one of the same
name. -/
def insertSorted (name : String) (value : Value) :
    List (String × Value) → List (String × Value)
  | [] => [(name, value)]
  | (other, v) :: rest =>
    if name < other then (name, value) :: (other, v) :: rest
    else if name == other then (name, value) :: rest
    else (other, v) :: insertSorted name value rest

/-- The fields sorted by name, the last of each name. -/
def sortFields (fields : List (String × Value)) : List (String × Value) :=
  fields.foldl (fun sorted (name, value) => insertSorted name value sorted) []

mutual

def sorted : Value → Value
  | array elements => array (sortedElements elements)
  | object fields => object (sortFields (sortedFields fields))
  | null => null
  | boolean b => boolean b
  | integer n => integer n
  | float x => float x
  | string text => string text

def sortedElements : List Value → List Value
  | [] => []
  | value :: values => sorted value :: sortedElements values

def sortedFields : List (String × Value) → List (String × Value)
  | [] => []
  | (name, value) :: fields => (name, sorted value) :: sortedFields fields

end

end Value

end LijsCompiler
