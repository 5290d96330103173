import LijsCompiler.Options.Decode
import LijsCompiler.Toml.Reader

/-!
# Configuration files

The text of `lijs.toml` sets the options of a project.
-/

namespace LijsCompiler

namespace Configuration

def fileName : String := "lijs.toml"

end Configuration

inductive ConfigurationError where
  | notToml
  | invalid (e : DecodeError)
deriving DecidableEq, Repr

namespace ConfigurationError

def code : String := "driver::config"

def help : String := "see the `[lowering]` section of lijs.toml"

def message : ConfigurationError → String
  | notToml => "invalid configuration: not a TOML document"
  | invalid e => "invalid configuration: " ++ e.message

end ConfigurationError

def Configuration.ofToml (text : String) : Except ConfigurationError Configuration :=
  match Toml.read? text with
  | none => .error .notToml
  | some value => (Dialect.toml.decodeConfiguration value).mapError .invalid

end LijsCompiler
