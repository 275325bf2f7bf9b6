import LogCatalog.Yaml.Spot

/-!
# Unquoted text

Words with gaps between them. Text ends before a colon that ends a word, before a comment, before a
line that is not indented far enough and, within brackets, before every bracket and comma.
-/
namespace LogCatalog.Yaml.Unquoted

/-- The characters that structure what stands within brackets. -/
def isFlow (c : Char) : Bool := [',', '[', ']', '\x7b', '\x7d'].contains c

/-- Reads up to the end of a word. Within brackets a colon right before one of them is refused. -/
def word (inFlow : Bool) : List Spot → Option (List Char × List Spot)
  | [] => some ([], [])
  | s :: r =>
    if isGap s.char then some ([], s :: r)
    else if inFlow && s.char == ':' && Spot.startsWith (fun c => isFlow c || c == '?') r then none
    else if s.char == ':' && Spot.endsWord r then some ([], s :: r)
    else if inFlow && isFlow s.char then some ([], s :: r)
    else (word inFlow r).map fun (cs, rest) => (s.char :: cs, rest)

/-- Whether the text ends here, after a gap. -/
def endsAt (inFlow : Bool) (indent : Nat) (rest : List Spot) : Bool :=
  (!inFlow && rest.head?.any (·.column < indent)) || Spot.isDocumentMark rest ||
    Spot.startsWith (· == '#') rest

/-- The text that was read, whether a line ended after it, and what follows. -/
structure Result where
  text : List Char
  broken : Bool
  rest : List Spot

/-- Reads on after a word. Each step reads a gap and a word. -/
def more (inFlow : Bool) (indent : Nat) : Nat → List Spot → Option Result
  | 0, rest => some ⟨[], false, rest⟩
  | n + 1, rest =>
    let (gap, next) := Gap.read rest
    if gap.isEmpty then some ⟨[], false, rest⟩
    else if gap.tabsBefore indent then none
    else if endsAt inFlow indent next then some ⟨[], gap.isBroken, next⟩
    else do
      let (cs, next) ← word inFlow next
      if cs.isEmpty then some ⟨[], gap.isBroken, next⟩
      else
        let found ← more inFlow indent n next
        some { found with text := gap.text ++ cs ++ found.text }

/-- Reads text whose further lines are indented by `indent` at least. -/
def read (inFlow : Bool) (indent : Nat) (rest : List Spot) : Option Result := do
  let (cs, next) ← word inFlow rest
  let found ← more inFlow indent next.length next
  some { found with text := cs ++ found.text }

end LogCatalog.Yaml.Unquoted
