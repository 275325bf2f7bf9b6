import LogCatalog.Text.Digit
import LogCatalog.Yaml.Spot

/-!
# Tags

A tag is written in full, or as a handle that stands for the beginning of tags and the rest after it.
Within a tag any octet can be written with a percent sign; a tag ends before the first octet that is
zero. The octets need not be those of any text.
-/
namespace LogCatalog.Yaml

abbrev Octets := List UInt8

def Octets.ofText (s : String) : Octets := s.toUTF8.toList

inductive Tag where
  | named (name : String)
  /-- The octets are not those of a text; `isLocal` tells whether they begin with an exclamation mark. -/
  | unreadable (isLocal : Bool)
deriving DecidableEq

namespace Tag

def ofOctets (os : Octets) : Tag :=
  match String.fromUTF8? os.toByteArray with
  | some name => .named name
  | none => .unreadable (os.head? == some 0x21)

/-- The handles that need not be declared. -/
def standardHandles : List (String × Octets) :=
  [("!", Octets.ofText "!"), ("!!", Octets.ofText "tag:yaml.org,2002:")]

/-- How many octets follow the first octet of a character. -/
def following? (o : UInt8) : Option Nat :=
  if o < 0x80 then some 0
  else if 0xC0 ≤ o && o < 0xE0 then some 1
  else if 0xE0 ≤ o && o < 0xF0 then some 2
  else if 0xF0 ≤ o && o < 0xF8 then some 3
  else none

/-- How many octets of a character are still to come after this one. -/
def pending? (pending : Nat) (o : UInt8) : Option Nat :=
  match pending with
  | 0 => following? o
  | n + 1 => if 0x80 ≤ o && o < 0xC0 then some n else none

/-- The characters of tags; commas and brackets count only where nothing else can follow. -/
def isTagChar (brackets : Bool) (c : Char) : Bool :=
  isWord c || ";/?:@&=+$.!~*'()".toList.contains c || (brackets && ",[]".toList.contains c)

/-- Reads octets, of which `pending` belong to a character that has begun. -/
def octets (brackets : Bool) (pending : Nat) : List Spot → Option (Octets × List Spot)
  | s :: h :: l :: r =>
    if s.char = '%' then do
      let o := UInt8.ofNat (← Text.natural? 16 [h.char, l.char])
      let pending ← pending? pending o
      (octets brackets pending r).map fun (os, rest) => (o :: os, rest)
    else if pending ≠ 0 then none
    else if isTagChar brackets s.char then
      (octets brackets 0 (h :: l :: r)).map fun (os, rest) => (s.char.toUInt8 :: os, rest)
    else some ([], s :: h :: l :: r)
  | s :: r =>
    if pending ≠ 0 || s.char == '%' then none
    else if isTagChar brackets s.char then
      (octets brackets 0 r).map fun (os, rest) => (s.char.toUInt8 :: os, rest)
    else some ([], s :: r)
  | [] => if pending = 0 then some ([], []) else none

/-- Reads at least one octet. -/
def octets? (brackets : Bool) (rest : List Spot) : Option (Octets × List Spot) := do
  let (os, next) ← octets brackets 0 rest
  if os.isEmpty then none else some (os.takeWhile (· != 0), next)

/-- Reads a name between exclamation marks, after the first of them: the name, and whether it is closed. -/
def handleName (rest : List Spot) : String × Bool × List Spot :=
  let name := String.ofList (Spot.chars (rest.takeWhile (isWord ·.char)))
  let next := rest.dropWhile (isWord ·.char)
  if Spot.startsWith (· == '!') next then (name, true, next.drop 1) else (name, false, next)

/-- A tag as it is written: a handle, which is empty for a tag in full, and the rest. -/
structure Shorthand where
  handle : String
  suffix : Octets
deriving DecidableEq

/-- Reads a tag in full, after the bracket that opens it. -/
def verbatim (rest : List Spot) : Option (Shorthand × List Spot) := do
  let (os, next) ← octets? true rest
  if Spot.startsWith (· == '>') next then some (⟨"", os⟩, next.drop 1) else none

/-- Reads a handle and what follows it. A lone exclamation mark is a tag in full. -/
def shorthand (rest : List Spot) : Option (Shorthand × List Spot) :=
  match handleName rest with
  | (name, true, next) => do
    let (os, next) ← octets? false next
    some (⟨"!" ++ name ++ "!", os⟩, next)
  | (name, false, next) => do
    let (os, next) ← octets false 0 next
    let suffix := (Octets.ofText name ++ os).takeWhile (· != 0)
    some (if suffix.isEmpty then ⟨"", Octets.ofText "!"⟩ else ⟨"!", suffix⟩, next)

/-- Reads a tag after its exclamation mark. Within brackets a comma can follow it, and else only a gap. -/
def read (inFlow : Bool) (rest : List Spot) : Option (Shorthand × List Spot) := do
  let (tag, next) ←
    if Spot.startsWith (· == '<') rest then verbatim (rest.drop 1) else shorthand rest
  if Spot.endsWord next || (inFlow && Spot.startsWith (· == ',') next) then some (tag, next) else none

/-- The tag that is written, given what the handles stand for. -/
def Shorthand.tag? (handles : List (String × Octets)) (t : Shorthand) : Option Tag :=
  if t.handle.isEmpty then some (ofOctets t.suffix)
  else (handles.lookup t.handle).map fun start => ofOctets (start ++ t.suffix)

end Tag
end LogCatalog.Yaml
