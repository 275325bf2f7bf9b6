import LogCatalog.Yaml.Token

/-!
# Indentation and simple keys

The state in which a text is turned into tokens. Blocks open and close with the indentation. What might
turn out to be a key without a mark of its own is remembered, so that the mark can be put in front of it
when its colon comes; that has to be on the same line and not too far away.
-/
namespace LogCatalog.Yaml

/-- Where a key may have begun, the number of tokens before it, and whether it has to be a key. -/
structure SimpleKey where
  start : Spot
  after : Nat
  required : Bool

structure Scan where
  /-- The tokens so far, the last one first. -/
  tokens : List Token := []
  count : Nat := 0
  /-- The columns of the open blocks, the innermost first. -/
  indents : List Nat := []
  simpleKey : Option SimpleKey := none
  /-- The possible keys around each open bracket, the innermost first. -/
  outerKeys : List (Option SimpleKey) := []
  keyAllowed : Bool := true
  /-- The numbers of the anchors, by name. -/
  anchors : List (String × Nat) := []

namespace Scan

/-- How many octets there are at most from the beginning of a simple key to its colon. -/
def maxKeyLength : Nat := 1024

def inFlow (s : Scan) : Bool := !s.outerKeys.isEmpty

/-- The least column of what belongs to the innermost block. -/
def least (s : Scan) : Nat :=
  match s.indents with
  | [] => 0
  | column :: _ => column + 1

def emit (s : Scan) (t : Token) : Scan := { s with tokens := t :: s.tokens, count := s.count + 1 }

/-- Puts a token behind the first `after` ones. -/
def emitAfter (s : Scan) (after : Nat) (t : Token) : Scan :=
  let later := s.count - after
  { s with tokens := s.tokens.take later ++ t :: s.tokens.drop later, count := s.count + 1 }

def allowKey (s : Scan) (allowed : Bool) : Scan := { s with keyAllowed := allowed }

/-- Closes the blocks whose column the predicate takes, from the innermost one on. -/
def closeWhile (s : Scan) (p : Nat → Bool) : Scan :=
  if s.inFlow then s
  else
    let closed := s.indents.takeWhile p
    { s with
      tokens := closed.map (fun _ => .closeBlock) ++ s.tokens
      count := s.count + closed.length
      indents := s.indents.dropWhile p }

def closeBlocks (s : Scan) : Scan := s.closeWhile fun _ => true

/-- Whether a block begins at this column. -/
def opensAt (s : Scan) (column : Nat) : Bool := !s.inFlow && s.least ≤ column

def openBlock (s : Scan) (column : Nat) (t : Token) : Scan :=
  if s.opensAt column then { s.emit t with indents := column :: s.indents } else s

/-- A key that has to be one cannot be given up. -/
def forget? (k : Option SimpleKey) : Option Unit :=
  if k.any SimpleKey.required then none else some ()

def dropKey (s : Scan) : Option Scan := do
  forget? s.simpleKey
  some { s with simpleKey := none }

/-- What begins here might be a key. -/
def saveKey (s : Scan) (here : Spot) : Option Scan :=
  if s.keyAllowed then do
    let s ← s.dropKey
    let required := !s.inFlow && s.indents.head? == some here.column
    some { s with simpleKey := some ⟨here, s.count, required⟩ }
  else some s

/-- A key whose colon can still come. -/
def expireKey (here : Spot) (k : Option SimpleKey) : Option (Option SimpleKey) :=
  match k with
  | none => some none
  | some key =>
    if key.start.line < here.line || key.start.offset + maxKeyLength < here.offset then do
      forget? k
      some none
    else some k

/-- Gives up the keys whose colon can no longer come. -/
def expireKeys (s : Scan) (here : Spot) : Option Scan := do
  let simpleKey ← expireKey here s.simpleKey
  let outerKeys ← s.outerKeys.mapM (expireKey here)
  some { s with simpleKey, outerKeys }

/-- Ends every block at the beginning or the end of a document. -/
def endDocument (s : Scan) : Option Scan := do
  let s ← s.closeBlocks.dropKey
  some (s.allowKey false)

def openBracket (s : Scan) (here : Spot) (t : Token) : Option Scan := do
  let s ← s.saveKey here
  some (({ s with simpleKey := none, outerKeys := s.simpleKey :: s.outerKeys }.allowKey true).emit t)

def closeBracket (s : Scan) (t : Token) : Option Scan := do
  let s ← s.dropKey
  let s := match s.outerKeys with
    | [] => s
    | key :: outer => { s with simpleKey := key, outerKeys := outer }
  some ((s.allowKey false).emit t)

def comma (s : Scan) : Option Scan := do
  let s ← s.dropKey
  some ((s.allowKey true).emit .comma)

/-- A mark in block context stands where a key could stand, and opens its block. -/
def enterBlock (s : Scan) (here : Spot) (t : Token) : Option Scan :=
  if s.inFlow then some s
  else if s.keyAllowed then some (s.openBlock here.column t)
  else none

def dash (s : Scan) (here : Spot) : Option Scan := do
  let s ← s.enterBlock here .openBlockSequence
  let s ← s.dropKey
  some ((s.allowKey true).emit .dash)

def key (s : Scan) (here : Spot) : Option Scan := do
  let s ← s.enterBlock here .openBlockMapping
  let s ← s.dropKey
  some ((s.allowKey !s.inFlow).emit .key)

/-- A colon makes a key of what might be one. -/
def value (s : Scan) (here : Spot) : Option Scan :=
  match s.simpleKey with
  | some k =>
    let s := { s with simpleKey := none, keyAllowed := false }.emitAfter k.after .key
    let s :=
      if s.opensAt k.start.column then
        { s.emitAfter k.after .openBlockMapping with indents := k.start.column :: s.indents }
      else s
    some (s.emit .value)
  | none => do
    let s ← s.enterBlock here .openBlockMapping
    some ((s.allowKey !s.inFlow).emit .value)

/-- A word that might begin a key. -/
def content (s : Scan) (here : Spot) (t : Token) : Option Scan := do
  let s ← s.saveKey here
  some ((s.allowKey false).emit t)

/-- An anchor gets the number of names that are known; a name keeps only its last number. -/
def nameAnchor (s : Scan) (name : String) : Nat × Scan :=
  let number := s.anchors.length
  (number, { s with anchors :=
    if s.anchors.any (·.1 == name) then s.anchors.map fun a => if a.1 = name then (name, number) else a
    else s.anchors ++ [(name, number)] })

end Scan
end LogCatalog.Yaml
