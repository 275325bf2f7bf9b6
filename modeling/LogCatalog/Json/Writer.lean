import LogCatalog.Decimal.Shortest
import LogCatalog.Json.Basic

/-!
# Compact JSON text

A text value escapes the quote, the backslash and the control characters, and nothing else. A float
has the shortest digits that read back as it.
-/
namespace LogCatalog.Json

/-- Numbers from 1e-5 up to 1e16 are written by position. -/
def numberLayout : Decimal.Layout := ⟨-5, 16⟩

def floatText (x : Float) : String :=
  let bits := x.toBits.toNat
  let sign := if bits < Nat.pow 2 63 then "" else "-"
  let magnitude := bits % Nat.pow 2 63
  sign ++
    if magnitude = 0 then "0.0" else numberLayout.render (Decimal.Target.ofBits magnitude).shortest

def hexDigit (n : Nat) : Char := (Nat.digitChar n).toLower

def escapeChar (c : Char) : List Char :=
  match c with
  | '"' => ['\\', '"']
  | '\\' => ['\\', '\\']
  | '\n' => ['\\', 'n']
  | '\r' => ['\\', 'r']
  | '\t' => ['\\', 't']
  | '\x08' => ['\\', 'b']
  | '\x0c' => ['\\', 'f']
  | c =>
    if c.toNat < 0x20 then ['\\', 'u', '0', '0', hexDigit (c.toNat / 16), hexDigit (c.toNat % 16)]
    else [c]

def quote (s : String) : String :=
  String.ofList ('"' :: s.toList.flatMap escapeChar ++ ['"'])

mutual

def compact : Json → String
  | null => "null"
  | bool true => "true"
  | bool false => "false"
  | natural n => toString n.toNat
  | negative magnitude => "-" ++ toString magnitude
  | float x => floatText x
  | text s => quote s
  | array items => "[" ++ compactItems items ++ "]"
  | object members => "\x7b" ++ compactMembers members ++ "\x7d"

def compactItems : List Json → String
  | [] => ""
  | [v] => v.compact
  | v :: w :: r => v.compact ++ "," ++ compactItems (w :: r)

def compactMembers : Members → String
  | [] => ""
  | [(k, v)] => quote k ++ ":" ++ v.compact
  | (k, v) :: m :: r => quote k ++ ":" ++ v.compact ++ "," ++ compactMembers (m :: r)

end

end LogCatalog.Json
