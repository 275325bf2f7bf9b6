import LogCatalog.Settings.Assignment
import LogCatalog.Yaml.Read

/-!
# Settings from files

A file holds one YAML document that is null or a mapping from field names to values.
-/
namespace LogCatalog

/-- What stands at a path. -/
inductive File where
  | directory
  | content (bytes : ByteArray)

namespace File

def ofText (text : String) : File := .content text.toUTF8

def text : File → Except ReadFailure String
  | .directory => .error .directory
  | .content bytes =>
    match String.fromUTF8? bytes with
    | some text => .ok text
    | none => .error .notText

def assignments (f : File) : Except SettingsError (List Assignment) :=
  match f.text with
  | .error cause => .error (.unreadable cause)
  | .ok text =>
    match Yaml.read? text with
    | some value => Assignment.ofJson value.canonical .file
    | none => .error (.invalid .unparsed)

end File
end LogCatalog
