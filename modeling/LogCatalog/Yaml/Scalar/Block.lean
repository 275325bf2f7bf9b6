import LogCatalog.Text.Digit
import LogCatalog.Yaml.Spot

/-!
# Block text

Lines with a common indentation after a header. The header says how the text ends and may give the
indentation; else the first line with text gives it. In folded text a break between two lines that do
not begin with a blank counts as a space.
-/
namespace LogCatalog.Yaml.Block

/-- What is left of the breaks at the end: nothing, one break or all of them. -/
inductive Ending where
  | strip
  | clip
  | keep

def takeEnding (rest : List Spot) : Option Ending × List Spot :=
  if Spot.startsWith (· == '+') rest then (some .keep, rest.drop 1)
  else if Spot.startsWith (· == '-') rest then (some .strip, rest.drop 1)
  else (none, rest)

def takeDigit (rest : List Spot) : Option Nat × List Spot :=
  match rest.head?.bind fun s => Text.digitValue? 10 s.char with
  | some n => (some n, rest.drop 1)
  | none => (none, rest)

/-- Reads the header, whose two parts may come in either order. -/
def header (rest : List Spot) : Option (Ending × Option Nat × List Spot) := do
  let (first, rest) := takeEnding rest
  let (indent, rest) := takeDigit rest
  let (ending, rest) := if first.isSome then (first, rest) else takeEnding rest
  let rest ← Spot.finishLine? rest
  if indent = some 0 then none else some (ending.getD .clip, indent, rest)

/-- Reads indentation and empty lines: the breaks, the widest indentation seen, and what follows. A tab
cannot indent. -/
def lead (indent : Option Nat) (widest : Nat) : List Spot → Option (List Char × Nat × List Spot)
  | [] => some ([], widest, [])
  | s :: r =>
    let inside := indent.all (s.column < ·)
    if inside && s.char == ' ' then lead indent (max widest (s.column + 1)) r
    else if inside && s.char == '\t' then none
    else if isBreak s.char then (lead indent widest r).map fun (breaks, more) => (s.char :: breaks, more)
    else some ([], widest, s :: r)

/-- A line with text, the break that ends it, and the breaks of the empty lines after it. -/
structure Line where
  text : List Char
  ending : List Char
  empty : List Char

def Line.startsBlank (l : Line) : Bool := l.text.head?.any isBlank

/-- Reads the lines with this indentation. -/
def lines (indent : Nat) : Nat → List Spot → Option (List Line × List Spot)
  | 0, rest => some ([], rest)
  | n + 1, rest =>
    if rest.head?.any (·.column == indent) then do
      let text := rest.takeWhile (!isBreak ·.char)
      let next := rest.dropWhile (!isBreak ·.char)
      let (empty, _, after) ← lead (some indent) 0 (next.drop 1)
      let (more, rest) ← lines indent n after
      some (⟨Spot.chars text, Spot.chars (next.take 1), empty⟩ :: more, rest)
    else some ([], rest)

/-- What stands between two lines. -/
def between (folded : Bool) (l m : Line) : List Char :=
  if folded && l.ending == ['\n'] && !l.startsBlank && !m.startsBlank then
    if l.empty.isEmpty then [' '] else l.empty
  else l.ending ++ l.empty

def join (folded : Bool) (ending : Ending) : List Line → List Char
  | [] => []
  | [l] =>
    match ending with
    | .strip => l.text
    | .clip => l.text ++ l.ending
    | .keep => l.text ++ l.ending ++ l.empty
  | l :: m :: r => l.text ++ between folded l m ++ join folded ending (m :: r)

/-- Reads text after the mark that begins it, within blocks of which the innermost is indented by
`outer`. -/
def read (folded : Bool) (outer : Option Nat) (rest : List Spot) : Option (List Char × List Spot) := do
  let (ending, given, rest) ← header rest
  let given := given.map (outer.getD 0 + ·)
  let (first, widest, rest) ← lead given 0 rest
  let least := max 1 (match outer with
    | some n => n + 1
    | none => 0)
  let indent := given.getD (max widest least)
  let (found, rest) ← lines indent rest.length rest
  match found, ending with
  | [], .keep => some (first, rest)
  | [], _ => some ([], rest)
  | _, _ => some (first ++ join folded ending found, rest)

end LogCatalog.Yaml.Block
