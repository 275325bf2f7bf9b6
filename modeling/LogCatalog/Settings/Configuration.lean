import LogCatalog.Settings.Environment
import LogCatalog.Settings.File

/-!
# Configurations

A configuration is what the assignments of files and of the environment make of the defaults. The
assignments are made in order: those of every file that is there, file by file, and after them those of
the environment. The last one that names a field decides it, but every one of them has to name a field
and to bring a value that the field takes. A file is read only after all assignments before it were
accepted, and the first refusal is final.
-/
namespace LogCatalog

/-- Settings and where each field was set last. -/
structure Configuration where
  settings : Settings := {}
  provenance : Field → Source := fun _ => .builtin

namespace Configuration

def set (c : Configuration) (f : Field) (n : UInt64) (source : Source) : Configuration :=
  { settings := c.settings.set f n
    provenance := fun g => if g = f then source else c.provenance g }

def assign (c : Configuration) (a : Assignment) : Except SettingsError Configuration :=
  match Field.ofName? a.field with
  | none => .error (.invalid (.unknownField a.field))
  | some f =>
    match f.accept a.value with
    | .ok n => .ok (c.set f n a.source)
    | .error e => .error (.invalidValue e)

/-- Makes the assignments in order, up to the first one that is refused. -/
def assignAll (c : Configuration) : List Assignment → Except SettingsError Configuration
  | [] => .ok c
  | a :: as =>
    match c.assign a with
    | .ok c => c.assignAll as
    | .error e => .error e

/-- A file that is not there changes nothing. -/
def addFile (c : Configuration) : Option File → Except SettingsError Configuration
  | none => .ok c
  | some f =>
    match f.assignments with
    | .ok assignments => c.assignAll assignments
    | .error e => .error e

def addFiles (c : Configuration) : List (Option File) → Except SettingsError Configuration
  | [] => .ok c
  | f :: fs =>
    match c.addFile f with
    | .ok c => c.addFiles fs
    | .error e => .error e

/-- The environment may be left out. -/
def addEnvironment (c : Configuration) : Option Environment → Except SettingsError Configuration
  | none => .ok c
  | some env =>
    match env.assignments with
    | .ok assignments => c.assignAll assignments
    | .error e => .error e

def load (files : List (Option File)) (env : Option Environment) : Except SettingsError Configuration :=
  match ({} : Configuration).addFiles files with
  | .ok c => c.addEnvironment env
  | .error e => .error e

end Configuration
end LogCatalog
