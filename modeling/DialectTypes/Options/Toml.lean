import DialectTypes.Options.Json
import DialectTypes.Toml.Document

/-!
# Options as TOML

Configuration in TOML is read like configuration in JSON, but only once the
whole text is known to be without a fault, and its entries are taken in
ascending order of their keys. A number that is out of range counts where it is
met, as a value or within one that is passed over.
-/

namespace DialectTypes

namespace Toml

/-- Why configuration cannot be read. -/
structure ConfigError where
  cause : ReadError
deriving DecidableEq

/-- What messages put before the cause. -/
def ConfigError.label : String := "Parse error"

/-- Read the document of a text. -/
def read {α : Type} (reader : Reader α) (text : String) : Except ConfigError α :=
  match document? text with
  | none => .error ⟨.malformed⟩
  | some d =>
    match reader d with
    | .ok a => .ok a
    | .error e => .error ⟨e⟩

end Toml

/-- The options of a TOML text. -/
def Options.ofToml {α : Type} [Options α] (text : String) : Except Toml.ConfigError (Traced α) :=
  Toml.read read text

end DialectTypes
