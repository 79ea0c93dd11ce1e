/-!
# SQL dialects

A dialect is known by its own name and by the names of the servers that speak
it. A dialect that is asked for by name is found under any of these, in any case.
Where a dialect is written or read as data, it is always the name itself.
-/

namespace DialectTypes

inductive Dialect where
  | postgresql
  | sqlite
deriving DecidableEq

namespace Dialect

def all : List Dialect := [postgresql, sqlite]

/-- The dialect that is assumed when none is named. -/
def initial : Dialect := postgresql

def name : Dialect → String
  | postgresql => "postgresql"
  | sqlite => "sqlite"

/-- The names, in the order in which messages list them. -/
def listed : List String :=
  [sqlite.name, postgresql.name]

/-- Everything that a dialect is called, in lower case. -/
def aliases : Dialect → List String
  | postgresql => ["postgresql", "postgres", "pg"]
  | sqlite => ["sqlite", "turso", "libsql"]

/-- The dialect of exactly this name. -/
def ofName? (s : String) : Option Dialect :=
  all.find? fun d => d.name = s

/-- The dialect of which this is an alias, where the case of ASCII letters does
not count. -/
def ofAlias? (s : String) : Option Dialect :=
  all.find? fun d => s.toLower ∈ d.aliases

@[simp] theorem ofName?_name (d : Dialect) : ofName? d.name = some d := by
  cases d <;> decide

theorem ofName?_eq_some_iff {s : String} {d : Dialect} : ofName? s = some d ↔ d.name = s := by
  constructor
  · intro h
    simpa using List.find?_some h
  · rintro rfl
    exact ofName?_name d

end Dialect

/-- Text that names no dialect. -/
inductive DialectError where
  | unknown
deriving DecidableEq

def DialectError.message : DialectError → String
  | unknown => "unknown dialect"

def Dialect.parse (s : String) : Except DialectError Dialect :=
  match ofAlias? s with
  | some d => .ok d
  | none => .error .unknown

end DialectTypes
