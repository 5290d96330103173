import LijsCompiler.Number.Layout
import LijsCompiler.Options
import LijsCompiler.Span
import LijsCompiler.Text.Quoted

/-!
# Options from data

Options may be given as an object with any of their fields, or as a list of their fields in order.
The first fault found is reported; fields are looked at in the order in which they are given.
-/

namespace LijsCompiler

inductive DecodeError where
  | unknownField (name : String) (known : List String)
  | missingField (name : String)
  | unknownVariant (name : String) (known : List String)
  | invalidType (found expected : String)
  | invalidValue (n : Int) (expected : String)
  | invalidLength (length : Nat) (expected : String)
  | invalidStrategy (fault : StrategyFault)
deriving DecidableEq, Repr

namespace DecodeError

def alternatives (words : List String) : String :=
  match words.map fun word => "`" ++ word ++ "`" with
  | [] => "nothing"
  | [a] => a
  | [a, b] => a ++ " or " ++ b
  | quoted => "one of " ++ ", ".intercalate quoted

def message : DecodeError → String
  | unknownField name known =>
    "unknown field `" ++ name ++ "`, expected " ++ alternatives known
  | missingField name => "missing field `" ++ name ++ "`"
  | unknownVariant name known =>
    "unknown variant `" ++ name ++ "`, expected " ++ alternatives known
  | invalidType found expected => "invalid type: " ++ found ++ ", expected " ++ expected
  | invalidValue n expected =>
    "invalid value: integer `" ++ toString n ++ "`, expected " ++ expected
  | invalidLength length expected =>
    "invalid length " ++ toString length ++ ", expected " ++ expected
  | invalidStrategy fault => fault.message

end DecodeError

/-- In what the sources of data differ. -/
structure Dialect where
  /-- The text of a double in a message. -/
  numbers : NumberLayout
  /-- Whether a list of fields may not be longer than the fields. -/
  refusesExcess : Bool

namespace Dialect

def json : Dialect := ⟨.data, true⟩

def toml : Dialect := ⟨.plain, false⟩

variable (d : Dialect)

def describe : Value → String
  | .null => "null"
  | .boolean b => "boolean `" ++ toString b ++ "`"
  | .integer n => "integer `" ++ toString n ++ "`"
  | .float x => "floating point `" ++ String.ofList (d.numbers.write x) ++ "`"
  | .string text => "string " ++ Text.quoted text
  | .array _ => "sequence"
  | .object _ => "map"

def mismatch {α : Type} (found : Value) (expected : String) : Except DecodeError α :=
  .error (.invalidType (d.describe found) expected)

def decodeString : Value → Except DecodeError String
  | .string text => .ok text
  | other => d.mismatch other "a string"

/-- An integer below `2 ^ bits`.  Messages call it by its `type`. -/
def decodeUnsigned (bits : Nat) (type : String) : Value → Except DecodeError Nat
  | .integer n =>
    if 0 ≤ n ∧ n.toNat < Nat.pow 2 bits then .ok n.toNat else .error (.invalidValue n type)
  | other => d.mismatch other type

def decodeStem (value : Value) : Except DecodeError Stem := do
  let text ← d.decodeString value
  (Stem.ofString text).mapError .invalidStrategy

def decodeLength (value : Value) : Except DecodeError NameLength := do
  let n ← d.decodeUnsigned 64 "usize" value
  (NameLength.ofNat n).mapError .invalidStrategy

def decodeSeed : Value → Except DecodeError (Option UInt64)
  | .null => .ok none
  | value => do
    let n ← d.decodeUnsigned 64 "u64" value
    return some n.toUInt64

/-! ## Strategies -/

inductive StrategyTag where
  | counter
  | random

def decodeTag : Value → Except DecodeError StrategyTag
  | .string "counter" => .ok .counter
  | .string "random" => .ok .random
  | .string other => .error (.unknownVariant other ["counter", "random"])
  | other => d.mismatch other "variant identifier"

/-- A strategy with one field of its object taken into account.  Fields of no meaning to it are
passed over. -/
def setStrategyField (strategy : Strategy) (name : String) (value : Value) :
    Except DecodeError Strategy :=
  match strategy, name with
  | .counter _, "prefix" => .counter <$> d.decodeStem value
  | .random _ seed, "length" => (.random · seed) <$> d.decodeLength value
  | .random length _, "seed" => .random length <$> d.decodeSeed value
  | strategy, _ => .ok strategy

def strategyFields : Strategy → List String
  | .counter _ => ["prefix"]
  | .random .. => ["length", "seed"]

def plainStrategy : StrategyTag → Strategy
  | .counter => .counter .standard
  | .random => .random .standard none

def setStrategyFields (strategy : Strategy) (fields : List (String × Value)) :
    Except DecodeError Strategy :=
  fields.foldlM (fun strategy (name, value) => d.setStrategyField strategy name value) strategy

/-- The length that a list of `count` fields must not exceed, in words. -/
def elementsInSequence (count : Nat) : String :=
  toString count ++ (if count == 1 then " element" else " elements") ++ " in sequence"

/-- A strategy: an object with the field `strategy`, or a list that starts with its word. -/
def decodeStrategy : Value → Except DecodeError Strategy
  | .object fields =>
    match fields.lookup "strategy" with
    | none => .error (.missingField "strategy")
    | some tag => do
      let tag ← d.decodeTag tag
      d.setStrategyFields (plainStrategy tag) (fields.filter fun (name, _) => name != "strategy")
  | .array [] => .error (.missingField "strategy")
  | .array (tag :: values) => do
    let tag ← d.decodeTag tag
    let names := strategyFields (plainStrategy tag)
    let strategy ← d.setStrategyFields (plainStrategy tag) (names.zip values)
    if names.length < values.length then
      throw (.invalidLength values.length (elementsInSequence names.length))
    return strategy
  | other => d.mismatch other "internally tagged enum TemporaryNames"

/-! ## Options and configuration -/

def optionFields : List String := ["require_callee", "exports_target", "temporaries"]

def setOption (o : Options) (name : String) (value : Value) : Except DecodeError Options :=
  match name with
  | "require_callee" => do return { o with requireCallee := ← d.decodeString value }
  | "exports_target" => do return { o with exportsTarget := ← d.decodeString value }
  | "temporaries" => do return { o with temporaries := ← d.decodeStrategy value }
  | other => .error (.unknownField other optionFields)

def setOptions (o : Options) (fields : List (String × Value)) : Except DecodeError Options :=
  fields.foldlM (fun o (name, value) => d.setOption o name value) o

/-- Options: an object, or a list of fields in order. -/
def decodeOptions : Value → Except DecodeError Options
  | .object fields => d.setOptions {} fields
  | .array values => do
    let o ← d.setOptions {} (optionFields.zip values)
    if d.refusesExcess ∧ optionFields.length < values.length then
      throw (.invalidLength values.length "fewer elements in array")
    return o
  | other => d.mismatch other "struct LowerOptions"

def setConfiguration (c : Configuration) (name : String) (value : Value) :
    Except DecodeError Configuration :=
  match name with
  | "lowering" => do return { c with lowering := ← d.decodeOptions value }
  | other => .error (.unknownField other ["lowering"])

/-- A configuration: an object with the field `lowering`. -/
def decodeConfiguration : Value → Except DecodeError Configuration
  | .object fields =>
    fields.foldlM (fun c (name, value) => d.setConfiguration c name value) {}
  | other => d.mismatch other "struct Config"

end Dialect

/-- The options that a JSON value stands for.  Fields are looked at in the order of their names. -/
def Options.ofJson (value : Value) : Except DecodeError Options :=
  Dialect.json.decodeOptions value.sorted

def Strategy.ofJson (value : Value) : Except DecodeError Strategy :=
  Dialect.json.decodeStrategy value.sorted

/-! ## Spans -/

/-- The span that a JSON value stands for: an object with both ends, or a list of the two. -/
def Span.ofJson (value : Value) : Except DecodeError Span :=
  let offset (value : Value) : Except DecodeError UInt32 := do
    let n ← Dialect.json.decodeUnsigned 32 "u32" value
    return n.toUInt32
  match value.sorted with
  | .object fields => do
    let stop ← (fields.lookup "end").mapM offset
    let start ← (fields.lookup "start").mapM offset
    match start, stop with
    | none, _ => throw (.missingField "start")
    | _, none => throw (.missingField "end")
    | some start, some stop => return ⟨start, stop⟩
  | .array [] => .error (.invalidLength 0 "struct Span with 2 elements")
  | .array [start] => do
    let _ ← offset start
    throw (.invalidLength 1 "struct Span with 2 elements")
  | .array (start :: stop :: rest) => do
    let start ← offset start
    let stop ← offset stop
    if rest.isEmpty then return ⟨start, stop⟩
    else throw (.invalidLength (rest.length + 2) "fewer elements in array")
  | other => Dialect.json.mismatch other "struct Span"

def Span.toValue (s : Span) : Value :=
  .object [("start", .integer s.start.toNat), ("end", .integer s.stop.toNat)]

end LijsCompiler
