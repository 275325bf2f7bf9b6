/-!
# Characters in their places

A text as its characters, each with its line and column and the octets before it on that line. Every
way to end a line counts as one line feed, except that the two Unicode separators stay what they are.
-/
namespace LogCatalog.Yaml

structure Spot where
  char : Char
  line : Nat
  column : Nat
  /-- How many octets its line has before it. -/
  offset : Nat

/-- The ranges of characters that a text may hold. -/
def allowedRanges : List (Nat × Nat) :=
  [(0x09, 0x0A), (0x0D, 0x0D), (0x20, 0x7E), (0x85, 0x85), (0xA0, 0xD7FF), (0xE000, 0xFFFD),
    (0x10000, 0x10FFFF)]

def isAllowed (c : Char) : Bool := allowedRanges.any fun (first, last) => first ≤ c.toNat && c.toNat ≤ last

def isBlank (c : Char) : Bool := c == ' ' || c == '\t'

def isBreak (c : Char) : Bool := c == '\n' || c == '\u2028' || c == '\u2029'

def isGap (c : Char) : Bool := isBlank c || isBreak c

/-- The characters of names: letters and digits of ASCII, the hyphen and the underscore. -/
def isWord (c : Char) : Bool := c.isAlphanum || c == '-' || c == '_'

def unifyBreaks : List Char → List Char
  | '\r' :: '\n' :: r => '\n' :: unifyBreaks r
  | '\r' :: r => '\n' :: unifyBreaks r
  | '\u0085' :: r => '\n' :: unifyBreaks r
  | c :: r => c :: unifyBreaks r
  | [] => []

namespace Spot

def place (line column offset : Nat) : List Char → List Spot
  | [] => []
  | c :: r =>
    ⟨c, line, column, offset⟩ ::
      (if isBreak c then place (line + 1) 0 0 r else place line (column + 1) (offset + c.utf8Size) r)

/-- The characters of a text in their places, if all of them are allowed. -/
def ofText? (text : String) : Option (List Spot) :=
  if text.toList.all isAllowed then some (place 0 0 0 (unifyBreaks text.toList)) else none

def chars (spots : List Spot) : List Char := spots.map Spot.char

/-- Whether a character of these comes next. -/
def startsWith (p : Char → Bool) (rest : List Spot) : Bool := rest.head?.any fun s => p s.char

/-- Whether a word cannot go on. -/
def endsWord (rest : List Spot) : Bool := rest.head?.all fun s => isGap s.char

/-- Whether this is a mark of byte order at the beginning of a line. -/
def isByteOrderMark (s : Spot) : Bool := s.column == 0 && s.char == '\ufeff'

/-- Whether the line begins with three of this character and nothing more in that word. -/
def isMark (c : Char) : List Spot → Bool
  | s :: t :: u :: r => s.column == 0 && s.char == c && t.char == c && u.char == c && endsWord r
  | _ => false

/-- Whether a line that begins or ends a document comes next. -/
def isDocumentMark (rest : List Spot) : Bool := isMark '-' rest || isMark '.' rest

/-- What follows the rest of a line that holds nothing but blanks and a comment. -/
def finishLine? (rest : List Spot) : Option (List Spot) :=
  let rest := rest.dropWhile (isBlank ·.char)
  let rest := if startsWith (· == '#') rest then rest.dropWhile (!isBreak ·.char) else rest
  match rest with
  | [] => some []
  | s :: r => if isBreak s.char then some r else none

end Spot

/-- A row of blanks and line breaks inside a text. -/
structure Gap where
  spots : List Spot

namespace Gap

def read (rest : List Spot) : Gap × List Spot :=
  (⟨rest.takeWhile (isGap ·.char)⟩, rest.dropWhile (isGap ·.char))

def isEmpty (g : Gap) : Bool := g.spots.isEmpty

def breaks (g : Gap) : List Char := (Spot.chars g.spots).filter isBreak

def isBroken (g : Gap) : Bool := g.spots.any (isBreak ·.char)

/-- A single line feed counts as a space, and the first of several does not count. -/
def fold : List Char → List Char
  | ['\n'] => [' ']
  | '\n' :: more => more
  | breaks => breaks

/-- The text that the gap stands for. Blanks count only on one line. -/
def text (g : Gap) : List Char := if g.isBroken then fold g.breaks else Spot.chars g.spots

/-- Whether a line of the gap, but for the first, has a tab before the column. -/
def tabsBefore (g : Gap) (column : Nat) : Bool :=
  (g.spots.dropWhile (isBlank ·.char)).any fun s => s.char == '\t' && s.column < column

end Gap
end LogCatalog.Yaml
