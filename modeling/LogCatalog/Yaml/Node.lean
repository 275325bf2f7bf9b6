import LogCatalog.Yaml.Token

/-!
# Nodes

The tree that the tokens of a text spell out. A text holds at most one document, and a value that is
left out is an empty scalar. A key cannot be left out.
-/
namespace LogCatalog.Yaml

/-- What may stand before the content of a node. -/
structure Properties where
  anchor : Option Nat := none
  tag : Option Tag := none
deriving DecidableEq

inductive Node where
  | reference (number : Nat)
  | scalar (p : Properties) (plain : Bool) (text : String)
  | sequence (p : Properties) (items : List Node)
  | mapping (p : Properties) (members : List (Node × Node))
deriving Inhabited

/-- What the handles of tags stand for. -/
abbrev Handles := List (String × Octets)

/-- Reads an anchor and a tag in either order. -/
def Properties.read (handles : Handles) : List Token → Option (Properties × List Token)
  | .anchor a :: .tag t :: r => (t.tag? handles).map fun t => (⟨some a, some t⟩, r)
  | .tag t :: .anchor a :: r => (t.tag? handles).map fun t => (⟨some a, some t⟩, r)
  | .anchor a :: r => some (⟨some a, none⟩, r)
  | .tag t :: r => (t.tag? handles).map fun t => (⟨none, some t⟩, r)
  | r => some ({}, r)

namespace Node

/-- Where a node stands: within brackets, in a block, or in a block mapping, where a sequence needs no
indentation of its own. -/
inductive Context where
  | flow
  | block
  | member
deriving DecidableEq

def empty : Node := .scalar {} true ""

/-- A node without content has properties at least. -/
def withoutContent (p : Properties) (rest : List Token) : Option (Node × List Token) :=
  if p = {} then none else some (.scalar p true "", rest)

def startsWith (ts : List Token) (rest : List Token) : Bool := rest.head?.any ts.contains

/-- Goes on to the next item or member within brackets. -/
def next? (first : Bool) (rest : List Token) : Option (List Token) :=
  if first then some rest else if startsWith [.comma] rest then some (rest.drop 1) else none

mutual

/-- Reads a node. The number bounds the steps, of which there are at most three for each token. -/
def read (handles : Handles) : Nat → Context → List Token → Option (Node × List Token)
  | 0, _, _ => none
  | _ + 1, _, .reference number :: r => some (.reference number, r)
  | n + 1, context, tokens => do
    let (p, rest) ← Properties.read handles tokens
    match rest, context with
    | .scalar plain text :: r, _ => some (.scalar p plain text, r)
    | .openSequence :: r, _ =>
      (flowItems handles n true r).map fun (items, rest) => (.sequence p items, rest)
    | .openMapping :: r, _ =>
      (flowMembers handles n true r).map fun (members, rest) => (.mapping p members, rest)
    | rest, .flow => withoutContent p rest
    | .dash :: _, .member =>
      (looseItems handles n rest).map fun (items, rest) => (.sequence p items, rest)
    | .openBlockSequence :: r, _ =>
      (blockItems handles n r).map fun (items, rest) => (.sequence p items, rest)
    | .openBlockMapping :: r, _ =>
      (blockMembers handles n r).map fun (members, rest) => (.mapping p members, rest)
    | rest, _ => withoutContent p rest

/-- Reads a node, unless one of these tokens comes at once. -/
def readUnless (handles : Handles) : Nat → List Token → Context → List Token →
    Option (Node × List Token)
  | 0, _, _, _ => none
  | n + 1, ends, context, rest =>
    if startsWith ends rest then some (empty, rest) else read handles n context rest

/-- Reads the value of a member, if it has one. -/
def readValue (handles : Handles) : Nat → List Token → Context → List Token →
    Option (Node × List Token)
  | 0, _, _, _ => none
  | n + 1, ends, context, .value :: r => readUnless handles n ends context r
  | _ + 1, _, _, rest => some (empty, rest)

/-- Reads the items of a block up to its end. -/
def blockItems (handles : Handles) : Nat → List Token → Option (List Node × List Token)
  | n + 1, .dash :: r => do
    let (item, rest) ← readUnless handles n [.dash, .closeBlock] .block r
    let (items, rest) ← blockItems handles n rest
    some (item :: items, rest)
  | _ + 1, .closeBlock :: r => some ([], r)
  | _, _ => none

/-- Reads the items of a sequence without indentation of its own. -/
def looseItems (handles : Handles) : Nat → List Token → Option (List Node × List Token)
  | 0, _ => none
  | n + 1, .dash :: r => do
    let (item, rest) ← readUnless handles n [.dash, .key, .value, .closeBlock] .block r
    let (items, rest) ← looseItems handles n rest
    some (item :: items, rest)
  | _ + 1, rest => some ([], rest)

/-- Reads the members of a block up to its end. -/
def blockMembers (handles : Handles) : Nat → List Token → Option (List (Node × Node) × List Token)
  | n + 1, .key :: r => do
    let (key, rest) ← read handles n .member r
    let (value, rest) ← readValue handles n [.key, .value, .closeBlock] .member rest
    let (members, rest) ← blockMembers handles n rest
    some ((key, value) :: members, rest)
  | _ + 1, .closeBlock :: r => some ([], r)
  | _, _ => none

/-- Reads the items up to the closing bracket. A key makes a mapping of one member. -/
def flowItems (handles : Handles) : Nat → Bool → List Token → Option (List Node × List Token)
  | 0, _, _ => none
  | _ + 1, _, .closeSequence :: r => some ([], r)
  | n + 1, first, tokens => do
    let rest ← next? first tokens
    match rest with
    | .closeSequence :: r => some ([], r)
    | .key :: r =>
      let (key, rest) ← read handles n .flow r
      let (value, rest) ← readValue handles n [.comma, .closeSequence] .flow rest
      let (items, rest) ← flowItems handles n false rest
      some (.mapping {} [(key, value)] :: items, rest)
    | rest =>
      let (item, rest) ← read handles n .flow rest
      let (items, rest) ← flowItems handles n false rest
      some (item :: items, rest)

/-- Reads the members up to the closing bracket. A node without a key mark is a key without a value. -/
def flowMembers (handles : Handles) : Nat → Bool → List Token → Option (List (Node × Node) × List Token)
  | 0, _, _ => none
  | _ + 1, _, .closeMapping :: r => some ([], r)
  | n + 1, first, tokens => do
    let rest ← next? first tokens
    match rest with
    | .closeMapping :: r => some ([], r)
    | .key :: r =>
      let (key, rest) ← read handles n .flow r
      let (value, rest) ← readValue handles n [.comma, .closeMapping] .flow rest
      let (members, rest) ← flowMembers handles n false rest
      some ((key, value) :: members, rest)
    | rest =>
      let (key, rest) ← read handles n .flow rest
      let (members, rest) ← flowMembers handles n false rest
      some ((key, empty) :: members, rest)

end

/-- Reads directives up to the mark that begins the document. None of them is given twice. -/
def directives (versioned : Bool) (own : Handles) : List Token → Option (Handles × List Token)
  | .version :: r => if versioned then none else directives true own r
  | .handle name start :: r =>
    if own.any (·.1 == name) then none else directives versioned (own ++ [(name, start)]) r
  | .documentStart :: r => some (own ++ Tag.standardHandles, r)
  | _ => none

/-- Whether a document with a mark at its beginning is preceded or followed by this token. -/
def isOutside : Token → Bool
  | .version | .handle _ _ | .documentStart | .documentEnd => true
  | _ => false

/-- Reads the content of a document. -/
def content (handles : Handles) (rest : List Token) : Option (Node × List Token) :=
  read handles (3 * rest.length + 3) .block rest

/-- The node of the only document, after which documents may only end. -/
def ofTokens? (tokens : List Token) : Option Node := do
  let (n, rest) ← match tokens with
    | [] => some (empty, [])
    | .documentEnd :: _ => none
    | t :: _ =>
      if isOutside t then do
        let (handles, rest) ← directives false [] tokens
        if rest.head?.all isOutside then some (empty, rest) else content handles rest
      else content Tag.standardHandles tokens
  if rest.all (· == .documentEnd) then some n else none

end Node
end LogCatalog.Yaml
