import LogCatalog.Proofs.Key.Codec

/-!
# Well-formed keys

Every text can be read as a key, and different texts can be read as one pair. The text that a pair is
written as is the only well-formed one among them: each of its escapes is needed, and one separator has
none. So writing the pair that was read leaves a well-formed text as it is, makes any other text
well-formed, and has nothing left to do the second time.
-/
namespace LogCatalog.Key

/-- Read from the left, each escape is followed by a separator or an escape, which it consumes, and so many
separators are not consumed. -/
inductive Escaped : Nat → List Char → Prop
  | nil : Escaped 0 []
  | escape {bare : Nat} {c : Char} {r : List Char} (reserved : isReserved c) (rest : Escaped bare r) :
      Escaped bare (escapeChar :: c :: r)
  | separator {bare : Nat} {r : List Char} (rest : Escaped bare r) : Escaped (bare + 1) (separator :: r)
  | plain {bare : Nat} {c : Char} {r : List Char} (unreserved : ¬isReserved c) (rest : Escaped bare r) :
      Escaped bare (c :: r)

def WellFormed (k : Key) : Prop := Escaped 1 k.text.toList

variable {m n : Nat} {s t : List Char} {k : Key}

theorem escaped_escape (s : List Char) : Escaped 0 (Key.escape s) := by
  induction s with
  | nil => exact .nil
  | cons c s ih =>
    rw [Key.escape]
    split
    · next reserved => exact .escape reserved ih
    · next unreserved => exact .plain unreserved ih

theorem Escaped.append (hs : Escaped m s) (ht : Escaped n t) : Escaped (n + m) (s ++ t) := by
  induction hs with
  | nil => exact ht
  | escape reserved _ ih => exact .escape reserved ih
  | separator _ ih => exact .separator ih
  | plain unreserved _ ih => exact .plain unreserved ih

theorem wellFormed_ofPair (component host : String) : (ofPair component host).WellFormed := by
  have hhost := (escaped_escape host.toList).separator
  have htext := (escaped_escape component.toList).append hhost
  rwa [WellFormed, ofPair, String.toList_ofList]

/-- The host of a well-formed key is written as it stands there. -/
theorem Escaped.escape_unescape (h : Escaped 0 s) : Key.escape (unescape s) = s := by
  generalize hn : 0 = n at h
  induction h with
  | nil => rfl
  | escape reserved _ ih => simp [unescape, Key.escape, reserved, ih hn]
  | separator => cases hn
  | @plain _ c _ unreserved _ ih =>
    have hc : c ≠ escapeChar := fun e => unreserved (isReserved_iff.2 (.inr e))
    rw [unescape_cons_of_ne hc, Key.escape, if_neg unreserved, ih hn]

/-- A well-formed key is written as it stands there: up to the one bare separator each escape is needed for
the component, and behind it for the host. -/
theorem Escaped.escape_splitChars (h : Escaped 1 s) :
    Key.escape (splitChars s).1 ++ Key.separator :: Key.escape (splitChars s).2 = s := by
  generalize hn : 1 = n at h
  induction h with
  | nil => cases hn
  | escape reserved _ ih =>
    rw [splitChars_escaped, Key.escape, if_pos reserved, List.cons_append, List.cons_append, ih hn]
  | separator rest =>
    obtain rfl := Nat.succ.inj hn
    rw [splitChars_separator, rest.escape_unescape]
    rfl
  | plain unreserved _ ih =>
    rw [splitChars_cons_of_plain unreserved, Key.escape, if_neg unreserved, List.cons_append, ih hn]

theorem rebuild_eq_self_iff : k.rebuild = k ↔ k.WellFormed := by
  constructor
  · intro h
    rw [← h]
    exact wellFormed_ofPair k.split.1 k.split.2
  · intro h
    obtain ⟨text⟩ := k
    have htext := Escaped.escape_splitChars h
    simp only [rebuild, ofPair, split, String.toList_ofList, htext, String.ofList_toList]

instance (k : Key) : Decidable k.WellFormed := decidable_of_iff (k.rebuild = k) rebuild_eq_self_iff

/-- Writing the pair that a key is read as gives the key back if and only if the key is well-formed. What is
written is always well-formed and is written the same way again, and two keys come to one key exactly when
they are read as one pair. -/
theorem rebuild_normalizes :
    (∀ k : Key, k.rebuild = k ↔ k.WellFormed) ∧
    (∀ k : Key, k.rebuild.WellFormed ∧ k.rebuild.rebuild = k.rebuild) ∧
    ∀ k k' : Key, k.rebuild = k'.rebuild ↔ k.split = k'.split := by
  refine ⟨fun k => rebuild_eq_self_iff, fun k => ?_, fun k k' => ?_⟩
  · have hform : k.rebuild.WellFormed := wellFormed_ofPair k.split.1 k.split.2
    exact ⟨hform, rebuild_eq_self_iff.2 hform⟩
  · rw [rebuild, rebuild, ofPair_inj, Prod.ext_iff]

/-- A lone escape at the end, an escape that is not needed, a second bare separator, none at all. -/
example : ∀ text ∈ ["a+b\\", "\\a+b", "a+b+c", "ab"], ¬WellFormed ⟨text⟩ := by decide

end LogCatalog.Key
