import LogCatalog.Settings.Basic
import LogCatalog.Settings.Error
import LogCatalog.Text.Blank

/-!
# Assignments

An assignment names a field and brings a value for it. Whether there is such a field, and whether it takes
the value, is a question of its own.
-/
namespace LogCatalog

/-- Where the value of a field comes from. -/
inductive Source where
  | builtin
  | file
  | env
deriving DecidableEq

def Source.name : Source → String
  | .builtin => "Builtin"
  | .file => "File"
  | .env => "Env"

structure Assignment where
  field : String
  value : Json
  source : Source

namespace Assignment

/-- Names of fields are read without blanks around them and in any ASCII case. -/
def fieldName (written : String) : String := (Text.trim written).toLower

/-- One assignment for each member of a mapping. Null has none. -/
def ofJson (value : Json) (source : Source) : Except SettingsError (List Assignment) :=
  match value with
  | .null => .ok []
  | .object members => .ok (members.map fun (key, value) => ⟨fieldName key, value, source⟩)
  | other => .error (.invalid (.notMapping other))

end Assignment

/-- The number that a field takes from a value. -/
def Field.accept (f : Field) (value : Json) : Except ValueFailure UInt64 :=
  match value.natural? with
  | none => .error (.notNatural f.name value)
  | some n =>
    match f with
    | .cacheHours => if n.toNat < UInt32.size then .ok n else .error (.exceedsWord f.name n)
    | .fetchTimeoutMs => if n = 0 then .error (.zero f.name) else .ok n
    | .fetchWorkers =>
      if n ≤ Settings.maxWorkers then .ok n
      else .error (.exceedsWorkers f.name n Settings.maxWorkers)
    | .sweepSeconds => .ok n

end LogCatalog
