import LogCatalog.Json.Reader
import LogCatalog.Settings.Assignment

/-!
# Settings from the environment

A variable whose name starts with the field mark sets the field that the rest names. A further variable
may hold a JSON text with members for several fields; they come after all single variables.
-/
namespace LogCatalog

/-- Variables in the order in which they were first set. -/
structure Environment where
  bindings : List (String × String) := []

namespace Environment

/-- A variable that is set again keeps its place. -/
def set (e : Environment) (name value : String) : Environment :=
  if e.bindings.any (·.1 == name) then
    ⟨e.bindings.map fun v => if v.1 = name then (name, value) else v⟩
  else ⟨e.bindings ++ [(name, value)]⟩

def ofList (bindings : List (String × String)) : Environment :=
  bindings.foldl (fun e v => e.set v.1 v.2) {}

def get? (e : Environment) (name : String) : Option String := e.bindings.lookup name

def fieldMark : String := "AMBARI_LOGSEARCH__"

def overrideName : String := "AMBARI_LOGSEARCH_OVERRIDE_JSON"

/-- The rest of a name that starts with the field mark. -/
def fieldPart? (name : String) : Option String :=
  if fieldMark.toList.isPrefixOf name.toList then
    some (String.ofList (name.toList.drop fieldMark.length))
  else none

/-- A value is JSON if it can be read as such, and a text otherwise. An empty one is null. -/
def readValue (raw : String) : Json :=
  if raw.isEmpty then .null
  else match Json.read? raw with
  | some value => value.canonical
  | none => .text raw

/-- The assignment of one variable. A blank field name does not count. -/
def assignment? (v : String × String) : Option Assignment :=
  match fieldPart? v.1 with
  | none => none
  | some part =>
    let field := Assignment.fieldName part
    if field.isEmpty then none else some ⟨field, readValue v.2, .env⟩

/-- The assignments of the variable that holds a JSON text. A blank text does not count. -/
def overrides (e : Environment) : Except SettingsError (List Assignment) :=
  match e.get? overrideName with
  | none => .ok []
  | some raw =>
    if (Text.trim raw).isEmpty then .ok []
    else match Json.read? raw with
    | some value => Assignment.ofJson value.canonical .env
    | none => .error (.invalid .unparsed)

def assignments (e : Environment) : Except SettingsError (List Assignment) :=
  match e.overrides with
  | .ok last => .ok (e.bindings.filterMap assignment? ++ last)
  | .error cause => .error cause

end Environment
end LogCatalog
