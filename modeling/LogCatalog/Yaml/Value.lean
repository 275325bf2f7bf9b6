import LogCatalog.Json.Writer
import LogCatalog.Yaml.Node
import LogCatalog.Yaml.Scalar.Meaning

/-!
# Values of nodes

Aliases are replaced by what their anchors stand on, tags are heeded, and scalars mean what they mean.
Collections nest at most 128 deep, and a document can follow its aliases a hundred times for each of
its nodes and ends; so every document has a value after finitely many steps, or none.
-/
namespace LogCatalog.Yaml

namespace Tag

def standard (name : String) : Tag := .named ("tag:yaml.org,2002:" ++ name)

/-- The name that a local tag gives to the one member of the mapping it stands for. The exclamation mark
in front is written once. -/
def localName? : Tag → Option String
  | .named name =>
    match name.toList with
    | ['!'] => some "!!"
    | ['!', '!'] => some "!!"
    | '!' :: '!' :: r => some (String.ofList ('!' :: r))
    | '!' :: _ => some name
    | _ => none
  | .unreadable _ => none

/-- Wraps the value of a node with a local tag. -/
def wrap (t : Option Tag) (v : Json) : Json :=
  match t.bind localName? with
  | some name => .object [(name, v)]
  | none => v

end Tag

namespace Scalar

/-- The value of a text under one of the standard tags, which it has to fit, if the tag is one of them. -/
def forced? (t : Tag) (s : String) : Option (Option Json) :=
  if t = .standard "bool" then some ((bool? s).map .bool)
  else if t = .standard "int" then
    some (match (integer? s.toList).map Size.ofInt with
      | some (.number v) => some v
      | _ => none)
  else if t = .standard "float" then some (float? s.toList)
  else if t = .standard "null" then some (if isNull s then some .null else none)
  else none

/-- The value of a scalar. Other tags than the local ones make a text of it. -/
def value? (t : Option Tag) (plain : Bool) (s : String) : Option Json :=
  let untagged := if plain then meaning? s else some (.text s)
  match t with
  | none => untagged
  | some t =>
    match forced? t s with
    | some v => v
    | none => if t.localName?.isSome || t = .unreadable true then untagged else some (.text s)

end Scalar

namespace Node

mutual

/-- The anchored nodes with their numbers, in the order of the text. -/
def anchored : Node → List (Nat × Node)
  | reference _ => []
  | scalar p plain text => (p.anchor.map (·, scalar p plain text)).toList
  | sequence p items => (p.anchor.map (·, sequence p items)).toList ++ anchoredItems items
  | mapping p members => (p.anchor.map (·, mapping p members)).toList ++ anchoredMembers members

def anchoredItems : List Node → List (Nat × Node)
  | [] => []
  | x :: xs => x.anchored ++ anchoredItems xs

def anchoredMembers : List (Node × Node) → List (Nat × Node)
  | [] => []
  | (k, v) :: r => k.anchored ++ v.anchored ++ anchoredMembers r

end

mutual

/-- The number of nodes and of ends of collections. -/
def size : Node → Nat
  | reference _ => 1
  | scalar _ _ _ => 1
  | sequence _ items => 2 + sizeItems items
  | mapping _ members => 2 + sizeMembers members

def sizeItems : List Node → Nat
  | [] => 0
  | x :: xs => x.size + sizeItems xs

def sizeMembers : List (Node × Node) → Nat
  | [] => 0
  | (k, v) :: r => k.size + v.size + sizeMembers r

end

/-- Computations that have so many more aliases to follow. -/
abbrev Following := StateT Nat Option

/-- The node that an alias leads to; of the anchors with one number the last one counts. -/
def target (anchors : List (Nat × Node)) : Node → Following Node
  | reference number => fun left =>
    match left, anchors.reverse.lookup number with
    | left + 1, some n => some (n, left)
    | _, _ => none
  | n => pure n

/-- The text of a scalar key. Other keys cannot be written in JSON. -/
def keyText? : Json → Option String
  | .text s => some s
  | .bool b => some (Json.bool b).compact
  | .natural n => some (Json.natural n).compact
  | .negative n => some (Json.negative n).compact
  | .float x => some (Json.float x).compact
  | _ => none

/-- Whether two keys are of one kind and equal. -/
def sameKey : Json → Json → Bool
  | .text s, .text t => s == t
  | .bool a, .bool b => a == b
  | .natural m, .natural n => m == n
  | .negative m, .negative n => m == n
  | .float x, .float y => x == y
  | _, _ => false

/-- The members of a mapping, if no key is there twice. -/
def members? : List (Json × Json) → Option Json.Members
  | [] => some []
  | (k, v) :: r => do
    if r.any fun m => sameKey k m.1 then none
    else some ((← keyText? k, v) :: (← members? r))

/-- The value of a node in which collections nest at most as deep as the number says. -/
def value (anchors : List (Nat × Node)) : Nat → Node → Following Json
  | 0, n => do
    match ← target anchors n with
    | scalar p plain text => (Scalar.value? p.tag plain text).map (Tag.wrap p.tag)
    | _ => failure
  | depth + 1, n => do
    match ← target anchors n with
    | scalar p plain text => (Scalar.value? p.tag plain text).map (Tag.wrap p.tag)
    | sequence p items => do
      let vs ← items.mapM (value anchors depth)
      pure (Tag.wrap p.tag (.array vs))
    | mapping p members => do
      let ms ← members.mapM fun m => do pure (← value anchors depth m.1, ← value anchors depth m.2)
      pure (Tag.wrap p.tag (.object (← members? ms)))
    | reference _ => failure

def maxDepth : Nat := 128

/-- How often a document follows an alias for each of its nodes and ends. -/
def maxFollowing : Nat := 100

def json? (n : Node) : Option Json :=
  (value n.anchored maxDepth n (maxFollowing * n.size)).map Prod.fst

end Node

end LogCatalog.Yaml
