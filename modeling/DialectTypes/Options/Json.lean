import DialectTypes.Event
import DialectTypes.Json.Document
import DialectTypes.Json.Value
import DialectTypes.Options.Basic
import DialectTypes.Reading

/-!
# Options as JSON

Written options are an object with one member for each setting. Reading takes
the settings in text order, or the values of all options in an array. A parser that is not recognized is not an error: it
is reported and left unset.
-/

namespace DialectTypes

open Json (Value)

/-- A value of an option as it is written. -/
def Choice.read {α : Type} [Choice α] : Reader α :=
  Reader.variant ofSpelled? (listed α)

def Setting.toJson : Setting → Value
  | dateParser p => .string (Choice.spelled p)
  | defaultSchemas schemas => .array (schemas.map .string)
  | domains enabled => .bool enabled
  | numericParser p => .string (Choice.spelled p)
  | partitions enabled => .bool enabled
  | timestampParser p => .string (Choice.spelled p)

/-- A choice, which stays open if it is null or not recognized. -/
def readChoice {α : Type} [Choice α] (setting : α → Setting) :
    Reader (Traced (Option Setting)) := fun d => do
  match ← Reader.optional Reader.string d with
  | none => return ⟨none, []⟩
  | some s =>
    match Choice.ofName? s with
    | some a => return ⟨some (setting a), []⟩
    | none => return ⟨none, [.ignored (Choice.option α) s]⟩

/-- The setting of an option, unless the option stays open. -/
def OptionName.read : OptionName → Reader (Traced (Option Setting))
  | dateParser => readChoice Setting.dateParser
  | defaultSchemas => fun d => do
    let schemas ← Reader.optional (Reader.list Reader.string) d
    return ⟨schemas.map .defaultSchemas, []⟩
  | domains => fun d => do return ⟨some (.domains (← Reader.bool d)), []⟩
  | numericParser => readChoice Setting.numericParser
  | partitions => fun d => do return ⟨some (.partitions (← Reader.bool d)), []⟩
  | timestampParser => readChoice Setting.timestampParser

/-- The settings read so far, with the options that have been met. -/
structure SettingLog where
  met : List OptionName := []
  settings : List Setting := []
  events : List Event := []

/-- Take one member; only the listed options are known. -/
def SettingLog.take (keys : List OptionName) (log : SettingLog) (key : String) :
    Reader SettingLog := fun d =>
  match (OptionName.ofText? key).filter (· ∈ keys) with
  | none => Reader.skip d log
  | some name =>
    if name ∈ log.met then .error (.duplicateField key)
    else do
      let s ← name.read d
      return ⟨log.met ++ [name], log.settings ++ s.value.toList, log.events ++ s.events⟩

namespace Options

variable {α : Type} [Options α]

def toJson (o : α) : Value :=
  .object ((settings o).map fun s => (s.key.text, s.toJson))

/-- The text of options. -/
def text (o : α) : String :=
  (toJson o).text

variable (α) in
def form : Form where
  title := title α
  fields := (keys α).map OptionName.text

/-- Options, with what is reported of values that are not recognized. -/
def read : Reader (Traced α) := fun d => do
  let log ← Reader.fields .text (form α) (SettingLog.take (keys α)) {} d
  return ⟨ofSettings log.settings, log.events⟩

/-- The options of a JSON text. -/
def ofJson (text : String) : Except ReadError (Traced α) :=
  Reader.whole read (Json.source text)

end Options

end DialectTypes
