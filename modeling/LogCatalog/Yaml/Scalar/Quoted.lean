import LogCatalog.Text.Digit
import LogCatalog.Yaml.Spot

/-!
# Quoted text

Between single quotes a quote is written twice. Between double quotes a backslash begins an escape, and
a backslash at the end of a line takes the break away. Line breaks fold in both.
-/
namespace LogCatalog.Yaml.Quoted

/-- The characters that a letter after a backslash stands for. -/
def escapes : List (Char × Char) :=
  [('0', '\x00'), ('a', '\x07'), ('b', '\x08'), ('t', '\t'), ('\t', '\t'), ('n', '\n'), ('v', '\x0b'),
    ('f', '\x0c'), ('r', '\r'), ('e', '\x1b'), (' ', ' '), ('"', '"'), ('/', '/'), ('\\', '\\'),
    ('N', '\u0085'), ('_', '\u00a0'), ('L', '\u2028'), ('P', '\u2029')]

/-- How many hexadecimal digits follow a letter after a backslash. -/
def codeLength? : Char → Option Nat
  | 'x' => some 2
  | 'u' => some 4
  | 'U' => some 8
  | _ => none

def codePoint? (n : Nat) : Option Char := if n.isValidChar then some (Char.ofNat n) else none

/-- The character with the code that these digits write. -/
def code? (length : Nat) (digits : List Char) : Option Char :=
  if digits.length = length then (Text.natural? 16 digits).bind codePoint? else none

/-- Reads up to a gap or a quote that stands alone. -/
def singleWord : List Spot → List Char × List Spot
  | [] => ([], [])
  | s :: r =>
    if isGap s.char then ([], s :: r)
    else if s.char = '\'' then
      match r with
      | [] => ([], [s])
      | t :: r =>
        if t.char = '\'' then
          let (cs, rest) := singleWord r
          ('\'' :: cs, rest)
        else ([], s :: t :: r)
    else
      let (cs, rest) := singleWord r
      (s.char :: cs, rest)

/-- Reads up to a gap, a quote or an escaped break, of which it tells. -/
def doubleWord : List Spot → Option (List Char × Bool × List Spot)
  | [] => some ([], false, [])
  | [s] => if isGap s.char || s.char == '"' then some ([], false, [s])
    else if s.char = '\\' then none else some ([s.char], false, [])
  | s :: t :: r =>
    if isGap s.char || s.char == '"' then some ([], false, s :: t :: r)
    else if s.char = '\\' then
      if isBreak t.char then some ([], true, r)
      else
        match escapes.lookup t.char, codeLength? t.char with
        | some c, _ => (doubleWord r).map fun (cs, rest) => (c :: cs, rest)
        | none, some k => do
          let c ← code? k (Spot.chars (r.take k))
          (doubleWord (r.drop k)).map fun (cs, rest) => (c :: cs, rest)
        | none, none => none
    else (doubleWord (t :: r)).map fun (cs, rest) => (s.char :: cs, rest)
termination_by rest => rest.length
decreasing_by all_goals simp; try omega

def word (quote : Char) (rest : List Spot) : Option (List Char × Bool × List Spot) :=
  if quote = '"' then doubleWord rest
  else
    let (cs, rest) := singleWord rest
    some (cs, false, rest)

/-- Reads the text up to the closing quote. Each step reads a word and a gap. -/
def body (quote : Char) : Nat → List Spot → Option (List Char × List Spot)
  | 0, _ => none
  | n + 1, rest => do
    let (cs, escaped, next) ← word quote rest
    if Spot.startsWith (· == quote) next then some (cs, next.drop 1)
    else
      let (gap, next) := Gap.read next
      if next.isEmpty || Spot.isDocumentMark next then none
      else
        let (more, rest) ← body quote n next
        some (cs ++ (if escaped then gap.breaks else gap.text) ++ more, rest)

/-- Reads text after the quote that opens it. -/
def read (quote : Char) (rest : List Spot) : Option (List Char × List Spot) :=
  body quote (rest.length + 1) rest

end LogCatalog.Yaml.Quoted
