import Std.Data.ExtTreeSet

/-!
# Keys

A key names a component on a host. Its text is the component, a separator and the host, where a
separator or an escape character inside either name is written with an escape character before it.
Reading a key back accepts every text: an escape makes the next character part of the name, the
first separator that is not escaped ends the component, and a last lone escape is dropped.
-/
namespace LogCatalog

/-- Keys are ordered as their texts, by code point. -/
structure Key where
  text : String
deriving DecidableEq, Inhabited

namespace Key

instance : Ord Key := ⟨fun a b => compare a.text b.text⟩

instance : Std.TransOrd Key where
  eq_swap {a b} := @Std.OrientedCmp.eq_swap String compare _ a.text b.text
  isLE_trans {a b c} := @Std.TransCmp.isLE_trans String compare _ a.text b.text c.text

instance : Std.LawfulEqOrd Key where
  compare_self {a} := @Std.ReflCmp.compare_self String compare _ a.text
  eq_of_compare {a b} h := by
    cases a; cases b
    exact congrArg Key.mk (@Std.LawfulEqCmp.eq_of_compare String compare _ _ _ h)

def separator : Char := '+'

def escapeChar : Char := '\\'

/-- The characters that cannot stand for themselves inside a name. -/
def isReserved (c : Char) : Bool := c == separator || c == escapeChar

/-- A name as it is written inside a key. -/
def escape : List Char → List Char
  | [] => []
  | c :: r => if isReserved c then escapeChar :: c :: escape r else c :: escape r

/-- Drops each escape and keeps the character after it. -/
def unescape : List Char → List Char
  | [] => []
  | [c] => if c = escapeChar then [] else [c]
  | c :: d :: r => if c = escapeChar then d :: unescape r else c :: unescape (d :: r)

/-- The component up to the first separator that is not escaped, and the host after it. -/
def splitChars : List Char → List Char × List Char
  | [] => ([], [])
  | [c] => if c = escapeChar ∨ c = separator then ([], []) else ([c], [])
  | c :: d :: r =>
    if c = escapeChar then
      let (component, host) := splitChars r
      (d :: component, host)
    else if c = separator then ([], unescape (d :: r))
    else
      let (component, host) := splitChars (d :: r)
      (c :: component, host)

def ofPair (component host : String) : Key :=
  ⟨String.ofList (escape component.toList ++ separator :: escape host.toList)⟩

def split (k : Key) : String × String :=
  let (component, host) := splitChars k.text.toList
  (String.ofList component, String.ofList host)

/-- The key of the pair that `k` reads as. -/
def rebuild (k : Key) : Key := ofPair k.split.1 k.split.2

/-- The keys by increasing text, each of them once. -/
def sortDistinct (keys : List Key) : List Key := (Std.ExtTreeSet.ofList keys).toList

end Key
end LogCatalog
