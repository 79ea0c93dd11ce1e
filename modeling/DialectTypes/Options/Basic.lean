import DialectTypes.Representation

/-!
# Options

A user configures the introspector, which reads the schema of a database, and
the adapter, which types its columns. Options are a set of settings: setting an
option that is already set replaces its value. The options of a PostgreSQL run
are those of its introspector and those of its adapter together.
-/

namespace DialectTypes

/-- The name of an option, as configuration spells it. -/
inductive OptionName where
  | dateParser
  | defaultSchemas
  | domains
  | numericParser
  | partitions
  | timestampParser
deriving DecidableEq

namespace OptionName

def all : List OptionName :=
  [dateParser, defaultSchemas, domains, numericParser, partitions, timestampParser]

def text : OptionName → String
  | dateParser => "dateParser"
  | defaultSchemas => "defaultSchemas"
  | domains => "domains"
  | numericParser => "numericParser"
  | partitions => "partitions"
  | timestampParser => "timestampParser"

def ofText? (s : String) : Option OptionName :=
  all.find? fun k => k.text = s

@[simp] theorem ofText?_text (k : OptionName) : ofText? k.text = some k := by
  cases k <;> decide

theorem ofText?_eq_some_iff {s : String} {k : OptionName} : ofText? s = some k ↔ k.text = s := by
  constructor
  · intro h
    simpa using List.find?_some h
  · rintro rfl
    exact ofText?_text k

end OptionName

/-- A value for one option. -/
inductive Setting where
  | dateParser (parser : DateParser)
  | defaultSchemas (schemas : List String)
  | domains (enabled : Bool)
  | numericParser (parser : NumericParser)
  | partitions (enabled : Bool)
  | timestampParser (parser : TimestampParser)
deriving DecidableEq

/-- The option for which a setting is. -/
def Setting.key : Setting → OptionName
  | dateParser _ => .dateParser
  | defaultSchemas _ => .defaultSchemas
  | domains _ => .domains
  | numericParser _ => .numericParser
  | partitions _ => .partitions
  | timestampParser _ => .timestampParser

/-- A type whose values are settings of some of the options. -/
class Options (α : Type) where
  /-- What messages call a value of the type. -/
  title : String
  keys : List OptionName
  /-- Nothing is set. -/
  initial : α
  /-- The options after one more setting; a setting of an option that is not
  among `keys` changes nothing. -/
  set : α → Setting → α
  /-- Settings that make the options from `initial`, in the order of `keys`. -/
  settings : α → List Setting

/-- The options that a list of settings makes, where the last setting of an
option counts. -/
def Options.ofSettings {α : Type} [Options α] (settings : List Setting) : α :=
  settings.foldl set initial

/-- What the introspector is told. -/
structure IntrospectorOptions where
  defaultSchemas : Option (List String) := none
  domains : Bool := false
  partitions : Bool := false
deriving DecidableEq

namespace IntrospectorOptions

def set (o : IntrospectorOptions) : Setting → IntrospectorOptions
  | .defaultSchemas schemas => { o with defaultSchemas := some schemas }
  | .domains enabled => { o with domains := enabled }
  | .partitions enabled => { o with partitions := enabled }
  | _ => o

instance : Options IntrospectorOptions where
  title := "IntrospectorOptions"
  keys := [.defaultSchemas, .domains, .partitions]
  initial := {}
  set := set
  settings o :=
    (o.defaultSchemas.map .defaultSchemas).toList ++ [.domains o.domains, .partitions o.partitions]

/-- The schemas to read: those that are set, even if the list is empty, or else
the given ones. -/
def schemasOr (o : IntrospectorOptions) (fallback : List String) : List String :=
  o.defaultSchemas.getD fallback

end IntrospectorOptions

/-- How the driver is told to represent values, as far as the user says. -/
structure PostgresAdapterOptions where
  dateParser : Option DateParser := none
  numericParser : Option NumericParser := none
  timestampParser : Option TimestampParser := none
deriving DecidableEq

namespace PostgresAdapterOptions

def set (o : PostgresAdapterOptions) : Setting → PostgresAdapterOptions
  | .dateParser parser => { o with dateParser := some parser }
  | .numericParser parser => { o with numericParser := some parser }
  | .timestampParser parser => { o with timestampParser := some parser }
  | _ => o

instance : Options PostgresAdapterOptions where
  title := "PostgresAdapterOptions"
  keys := [.dateParser, .numericParser, .timestampParser]
  initial := {}
  set := set
  settings o :=
    (o.dateParser.map .dateParser).toList ++ (o.numericParser.map .numericParser).toList ++
      (o.timestampParser.map .timestampParser).toList

end PostgresAdapterOptions

/-- Everything that a user can set for a PostgreSQL run. -/
structure PostgresOptions where
  dateParser : Option DateParser := none
  defaultSchemas : Option (List String) := none
  domains : Bool := false
  numericParser : Option NumericParser := none
  partitions : Bool := false
  timestampParser : Option TimestampParser := none
deriving DecidableEq

namespace PostgresOptions

def set (o : PostgresOptions) : Setting → PostgresOptions
  | .dateParser parser => { o with dateParser := some parser }
  | .defaultSchemas schemas => { o with defaultSchemas := some schemas }
  | .domains enabled => { o with domains := enabled }
  | .numericParser parser => { o with numericParser := some parser }
  | .partitions enabled => { o with partitions := enabled }
  | .timestampParser parser => { o with timestampParser := some parser }

instance : Options PostgresOptions where
  title := "PostgresDialectOptions"
  keys := OptionName.all
  initial := {}
  set := set
  settings o :=
    (o.dateParser.map .dateParser).toList ++ (o.defaultSchemas.map .defaultSchemas).toList ++
      [.domains o.domains] ++ (o.numericParser.map .numericParser).toList ++
      [.partitions o.partitions] ++ (o.timestampParser.map .timestampParser).toList

/-- The introspector's share. -/
def introspector (o : PostgresOptions) : IntrospectorOptions where
  defaultSchemas := o.defaultSchemas
  domains := o.domains
  partitions := o.partitions

/-- The adapter's share. -/
def adapter (o : PostgresOptions) : PostgresAdapterOptions where
  dateParser := o.dateParser
  numericParser := o.numericParser
  timestampParser := o.timestampParser

/-- Both shares. -/
def split (o : PostgresOptions) : IntrospectorOptions × PostgresAdapterOptions :=
  (o.introspector, o.adapter)

/-- A setting goes to the share to which its option belongs. -/
theorem split_set (o : PostgresOptions) (s : Setting) :
    (o.set s).split = (o.introspector.set s, o.adapter.set s) := by
  cases s <;> rfl

end PostgresOptions

end DialectTypes
