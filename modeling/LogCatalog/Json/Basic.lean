/-!
# JSON values

A tree of values as a text writes it: the members of an object stand in the order of the text and a
key may stand there twice. In canonical form the keys of every object increase strictly; of two
members with one key the later one stays.
-/
namespace LogCatalog

inductive Json where
  | null
  | bool (b : Bool)
  | natural (n : UInt64)
  /-- The negative number with this magnitude, which is positive and at most 2^63. -/
  | negative (magnitude : Nat)
  | float (x : Float)
  | text (s : String)
  | array (items : List Json)
  | object (members : List (String × Json))
deriving Inhabited

namespace Json

abbrev Members := List (String × Json)

/-- Adds a member at its place, over a member with that key. -/
def Members.insert (key : String) (value : Json) : Members → Members
  | [] => [(key, value)]
  | (k, v) :: r =>
    if key < k then (key, value) :: (k, v) :: r
    else if key = k then (key, value) :: r
    else (k, v) :: Members.insert key value r

/-- The members by increasing key, the last one of each key. -/
def Members.canonical (ms : Members) : Members :=
  ms.foldl (fun sorted m => sorted.insert m.1 m.2) []

mutual

def canonical : Json → Json
  | array items => array (canonicalItems items)
  | object members => object (canonicalMembers members).canonical
  | other => other

def canonicalItems : List Json → List Json
  | [] => []
  | v :: r => v.canonical :: canonicalItems r

def canonicalMembers : Members → Members
  | [] => []
  | (k, v) :: r => (k, v.canonical) :: canonicalMembers r

end

/-- The value as a natural number below 2^64, if it is one. -/
def natural? : Json → Option UInt64
  | natural n => some n
  | _ => none

end Json
end LogCatalog
