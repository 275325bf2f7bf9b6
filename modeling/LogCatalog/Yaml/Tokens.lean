import LogCatalog.Yaml.Scalar.Block
import LogCatalog.Yaml.Scalar.Quoted
import LogCatalog.Yaml.Scalar.Unquoted
import LogCatalog.Yaml.Scan

/-!
# The tokens of a text
-/
namespace LogCatalog.Yaml.Scan

/-- Goes on to the next token, over blanks, comments and line breaks, and over a mark of byte order that
begins a line, which takes up a column. A tab does not stand where a block could begin. After a line
break there can be a key. -/
def skip (s : Scan) (inComment : Bool) : List Spot → Scan × List Spot
  | [] => (s, [])
  | here :: r =>
    if isBreak here.char then (s.allowKey (s.keyAllowed || !s.inFlow)).skip false r
    else if inComment || here.char == '#' then s.skip true r
    else if here.isByteOrderMark then s.skip false r
    else if here.char == ' ' || (here.char == '\t' && (s.inFlow || !s.keyAllowed)) then s.skip false r
    else (s, here :: r)

/-- Reads the two numbers of a version and takes those that are known. -/
def version (s : Scan) (rest : List Spot) : Option (Scan × List Spot) := do
  let digits (rest : List Spot) := Spot.chars (rest.takeWhile (·.char.isDigit))
  let major := digits rest
  let next := rest.drop major.length
  if Spot.startsWith (· == '.') next then
    let next := next.drop 1
    let minor := digits next
    if major.length ≤ 9 ∧ minor.length ≤ 9 ∧ Text.natural? 10 major = some 1 ∧
        (Text.natural? 10 minor = some 1 ∨ Text.natural? 10 minor = some 2) then
      some (s.emit .version, next.drop minor.length)
    else none
  else none

/-- Reads a handle and what it stands for. -/
def handle (s : Scan) (rest : List Spot) : Option (Scan × List Spot) := do
  if Spot.startsWith (· == '!') rest then
    let (name, closed, next) := Tag.handleName (rest.drop 1)
    if (closed || name.isEmpty) && Spot.startsWith isBlank next then
      let (start, next) ← Tag.octets? true (next.dropWhile (isBlank ·.char))
      if Spot.endsWord next then
        some (s.emit (.handle ("!" ++ name ++ if closed then "!" else "") start), next)
      else none
    else none
  else none

/-- Reads a directive after its percent sign. -/
def directive (s : Scan) (rest : List Spot) : Option (Scan × List Spot) := do
  let s ← s.endDocument
  let name := Spot.chars (rest.takeWhile (isWord ·.char))
  let next := rest.drop name.length
  if Spot.endsWord next then
    let next := next.dropWhile (isBlank ·.char)
    let (s, next) ←
      if name = "YAML".toList then s.version next
      else if name = "TAG".toList then s.handle next
      else none
    some (s, ← Spot.finishLine? next)
  else none

/-- The characters that can follow the name of an anchor, apart from gaps. -/
def endsName (rest : List Spot) : Bool :=
  Spot.endsWord rest || Spot.startsWith (fun c => "?:,]\x7d%@\x60".toList.contains c) rest

/-- Reads the name of an anchor. -/
def name (rest : List Spot) : Option (String × List Spot) :=
  let cs := Spot.chars (rest.takeWhile (isWord ·.char))
  let next := rest.drop cs.length
  if cs.isEmpty || !endsName next then none else some (String.ofList cs, next)

def anchor (s : Scan) (here : Spot) (rest : List Spot) : Option (Scan × List Spot) := do
  let (name, next) ← name rest
  let (number, s) := s.nameAnchor name
  some (← s.content here (.anchor number), next)

/-- An alias has to have an anchor before it. -/
def reference (s : Scan) (here : Spot) (rest : List Spot) : Option (Scan × List Spot) := do
  let (name, next) ← name rest
  some (← s.content here (.reference (← s.anchors.lookup name)), next)

def tag (s : Scan) (here : Spot) (rest : List Spot) : Option (Scan × List Spot) := do
  let (tag, next) ← Tag.read s.inFlow rest
  some (← s.content here (.tag tag), next)

def block (s : Scan) (folded : Bool) (rest : List Spot) : Option (Scan × List Spot) := do
  let s ← s.dropKey
  let (text, next) ← Block.read folded s.indents.head? rest
  some ((s.allowKey true).emit (.scalar false (String.ofList text)), next)

def quoted (s : Scan) (here : Spot) (rest : List Spot) : Option (Scan × List Spot) := do
  let (text, next) ← Quoted.read here.char rest
  some (← s.content here (.scalar false (String.ofList text)), next)

/-- After unquoted text there can be a key only if a line ended there. -/
def unquoted (s : Scan) (here : Spot) (rest : List Spot) : Option (Scan × List Spot) := do
  let found ← Unquoted.read s.inFlow s.least (here :: rest)
  let s ← s.content here (.scalar true (String.ofList found.text))
  some (s.allowKey found.broken, found.rest)

/-- The characters with which unquoted text does not begin in general. -/
def isMark (c : Char) : Bool := "-?:,[]\x7b\x7d#&*!|>'\"%@\x60".toList.contains c

def beginsUnquoted (s : Scan) (here : Spot) (rest : List Spot) : Bool :=
  !(isGap here.char || isMark here.char) ||
    (here.char == '-' && !Spot.startsWith isBlank rest) ||
    (!s.inFlow && (here.char == '?' || here.char == ':') && !Spot.endsWord rest)

/-- Reads the token that begins here. -/
def token (s : Scan) (here : Spot) (rest : List Spot) : Option (Scan × List Spot) :=
  let alone := Spot.endsWord rest
  if here.column == 0 && here.char == '%' then s.directive rest
  else if Spot.isMark '-' (here :: rest) then
    s.endDocument.map fun s => (s.emit .documentStart, rest.drop 2)
  else if Spot.isMark '.' (here :: rest) then
    s.endDocument.map fun s => (s.emit .documentEnd, rest.drop 2)
  else match here.char with
  | '[' => (s.openBracket here .openSequence).map (·, rest)
  | '\x7b' => (s.openBracket here .openMapping).map (·, rest)
  | ']' => (s.closeBracket .closeSequence).map (·, rest)
  | '\x7d' => (s.closeBracket .closeMapping).map (·, rest)
  | ',' => s.comma.map (·, rest)
  | '*' => s.reference here rest
  | '&' => s.anchor here rest
  | '!' => s.tag here rest
  | '\'' => s.quoted here rest
  | '"' => s.quoted here rest
  | c =>
    if c == '-' && alone then (s.dash here).map (·, rest)
    else if c == '?' && (s.inFlow || alone) then (s.key here).map (·, rest)
    else if c == ':' && (s.inFlow || alone) then (s.value here).map (·, rest)
    else if c == '|' && !s.inFlow then s.block false rest
    else if c == '>' && !s.inFlow then s.block true rest
    else if s.beginsUnquoted here rest then s.unquoted here rest
    else none

/-- Reads token after token; each takes at least one character. -/
def run : Nat → Scan → List Spot → Option Scan
  | 0, s, _ => s.endDocument
  | n + 1, s, rest =>
    match s.skip false rest with
    | (s, []) => s.endDocument
    | (s, here :: r) => do
      let s ← s.expireKeys here
      let (s, next) ← (s.closeWhile (here.column < ·)).token here r
      run n s next

end Scan

/-- The tokens of a text, if it can be divided into any. -/
def Token.ofText? (text : String) : Option (List Token) := do
  let spots ← Spot.ofText? text
  let s ← Scan.run spots.length {} spots
  some s.tokens.reverse

end LogCatalog.Yaml
