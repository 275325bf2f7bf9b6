import LogCatalog.Json.Numeral
import LogCatalog.Text.Digit

/-!
# Reading JSON text

Reads one value with blanks around it. Arrays and objects nest at most 127 deep. Inside a text value a
control character is refused, and so is half of a surrogate pair.
-/
namespace LogCatalog.Json

def isBlank (c : Char) : Bool := c == ' ' || c == '\t' || c == '\n' || c == '\r'

def skipBlank (cs : List Char) : List Char := cs.dropWhile isBlank

def maxDepth : Nat := 127

/-- Reads four hexadecimal digits. -/
def hexUnit : List Char → Option (Nat × List Char)
  | a :: b :: c :: d :: r => (Text.natural? 16 [a, b, c, d]).map (·, r)
  | _ => none

/-- The character that stands for itself or for a control character after a backslash. -/
def simpleEscape? : Char → Option Char
  | '"' => some '"'
  | '\\' => some '\\'
  | '/' => some '/'
  | 'b' => some '\x08'
  | 'f' => some '\x0c'
  | 'n' => some '\n'
  | 'r' => some '\r'
  | 't' => some '\t'
  | _ => none

/-- Reads the character of one or two escaped units, after the first letter of the escape. -/
def unicodeEscape (cs : List Char) : Option (Char × List Char) := do
  let (unit, rest) ← hexUnit cs
  if 0xDC00 ≤ unit ∧ unit ≤ 0xDFFF then none
  else if 0xD800 ≤ unit ∧ unit ≤ 0xDBFF then
    match rest with
    | '\\' :: 'u' :: more =>
      let (low, rest) ← hexUnit more
      if 0xDC00 ≤ low ∧ low ≤ 0xDFFF then
        some (Char.ofNat (0x10000 + (unit - 0xD800) * 0x400 + (low - 0xDC00)), rest)
      else none
    | _ => none
  else some (Char.ofNat unit, rest)

/-- Reads a text value after its first quote; each step reads one character of the value. -/
def textBody : Nat → List Char → Option (List Char × List Char)
  | 0, _ => none
  | _ + 1, [] => none
  | _ + 1, '"' :: r => some ([], r)
  | n + 1, '\\' :: 'u' :: r => do
    let (c, rest) ← unicodeEscape r
    let (cs, rest) ← textBody n rest
    some (c :: cs, rest)
  | n + 1, '\\' :: e :: r => do
    let c ← simpleEscape? e
    let (cs, rest) ← textBody n r
    some (c :: cs, rest)
  | n + 1, c :: r =>
    if c.toNat < 0x20 ∨ c = '\\' then none
    else do
      let (cs, rest) ← textBody n r
      some (c :: cs, rest)

def quoted (cs : List Char) : Option (String × List Char) :=
  match cs with
  | '"' :: r => (textBody (r.length + 1) r).map fun (cs, rest) => (String.ofList cs, rest)
  | _ => none

/-- Drops the expected character after blanks. -/
def expect (c : Char) (cs : List Char) : Option (List Char) :=
  match skipBlank cs with
  | d :: r => if d = c then some r else none
  | [] => none

mutual

/-- Reads a value; the first number bounds the steps, the second the depth. -/
def value : Nat → Nat → List Char → Option (Json × List Char)
  | 0, _, _ => none
  | n + 1, depth, cs =>
    match skipBlank cs with
    | 'n' :: 'u' :: 'l' :: 'l' :: r => some (.null, r)
    | 't' :: 'r' :: 'u' :: 'e' :: r => some (.bool true, r)
    | 'f' :: 'a' :: 'l' :: 's' :: 'e' :: r => some (.bool false, r)
    | '"' :: r => (quoted ('"' :: r)).map fun (s, rest) => (.text s, rest)
    | '[' :: r =>
      match depth with
      | 0 => none
      | depth + 1 =>
        match expect ']' r with
        | some rest => some (.array [], rest)
        | none => (items n depth r).map fun (vs, rest) => (.array vs, rest)
    | '\x7b' :: r =>
      match depth with
      | 0 => none
      | depth + 1 =>
        match expect '\x7d' r with
        | some rest => some (.object [], rest)
        | none => (members n depth r).map fun (ms, rest) => (.object ms, rest)
    | cs => Numeral.read cs

/-- Reads the values up to the end of an array, of which there is at least one. -/
def items : Nat → Nat → List Char → Option (List Json × List Char)
  | 0, _, _ => none
  | n + 1, depth, cs => do
    let (v, rest) ← value n depth cs
    match skipBlank rest with
    | ']' :: rest => some ([v], rest)
    | ',' :: rest =>
      let (vs, rest) ← items n depth rest
      some (v :: vs, rest)
    | _ => none

/-- Reads the members up to the end of an object, of which there is at least one. -/
def members : Nat → Nat → List Char → Option (Members × List Char)
  | 0, _, _ => none
  | n + 1, depth, cs => do
    let (k, rest) ← quoted (skipBlank cs)
    let rest ← expect ':' rest
    let (v, rest) ← value n depth rest
    match skipBlank rest with
    | '\x7d' :: rest => some ([(k, v)], rest)
    | ',' :: rest =>
      let (ms, rest) ← members n depth rest
      some ((k, v) :: ms, rest)
    | _ => none

end

/-- The value that the text writes. Each character takes at most two steps. -/
def read? (s : String) : Option Json := do
  let cs := s.toList
  let (v, rest) ← value (2 * cs.length + 2) maxDepth cs
  if (skipBlank rest).isEmpty then some v else none

end LogCatalog.Json
