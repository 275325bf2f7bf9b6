import LogCatalog.Json.Reader
import LogCatalog.Settings.Basic

/-!
# Settings read directly

Reads the settings from one JSON text, without assignments: an object whose keys are fields, each at most
once, or an array that fills the fields in the order of their declaration. The rest keep their
defaults. Every number that the type of a field holds is taken.
-/
namespace LogCatalog

def Field.fits (f : Field) (n : UInt64) : Bool :=
  match f with
  | .cacheHours => n.toNat < UInt32.size
  | _ => true

def Field.read? (f : Field) (value : Json) : Option UInt64 :=
  value.natural?.filter f.fits

namespace Settings

def ofMembers? (s : Settings) (seen : List Field) : Json.Members → Option Settings
  | [] => some s
  | (key, value) :: rest => do
    let f ← Field.ofName? key
    let n ← f.read? value
    if f ∈ seen then none else (s.set f n).ofMembers? (f :: seen) rest

def ofItems? (s : Settings) : List Field → List Json → Option Settings
  | _, [] => some s
  | [], _ :: _ => none
  | f :: fields, value :: rest => do
    let n ← f.read? value
    (s.set f n).ofItems? fields rest

def ofJson? : Json → Option Settings
  | .object members => ({} : Settings).ofMembers? [] members
  | .array items => ({} : Settings).ofItems? Field.all items
  | _ => none

def read? (text : String) : Option Settings := (Json.read? text).bind ofJson?

end Settings
end LogCatalog
