import LogCatalog.Key

/-!
# Reading keys back

Splitting the text of a key gives back the component and the host that it was made of, whatever
characters they hold. Two pairs therefore never have one key.
-/
namespace LogCatalog.Key

theorem unescape_cons_of_ne {c : Char} (h : c ≠ escapeChar) (r : List Char) :
    unescape (c :: r) = c :: unescape r := by
  cases r with
  | nil => simp [unescape, h]
  | cons d r => simp [unescape, h]

theorem isReserved_iff {c : Char} : isReserved c ↔ c = separator ∨ c = escapeChar := by
  simp [isReserved]

theorem unescape_escape (s : List Char) : unescape (escape s) = s := by
  induction s with
  | nil => rfl
  | cons c s ih =>
    by_cases h : isReserved c
    · simp [escape, h, unescape, ih]
    · have hc : c ≠ escapeChar := fun e => h (isReserved_iff.2 (.inr e))
      rw [escape, if_neg h, unescape_cons_of_ne hc, ih]

theorem splitChars_separator (r : List Char) : splitChars (separator :: r) = ([], unescape r) := by
  have hs : separator ≠ escapeChar := by decide
  cases r with
  | nil => rfl
  | cons d r => simp [splitChars, hs]

theorem splitChars_escaped (c : Char) (r : List Char) :
    splitChars (escapeChar :: c :: r) = (c :: (splitChars r).1, (splitChars r).2) := by
  simp [splitChars]

theorem splitChars_cons_of_plain {c : Char} (h : ¬isReserved c) (r : List Char) :
    splitChars (c :: r) = (c :: (splitChars r).1, (splitChars r).2) := by
  have hs : c ≠ separator := fun e => h (isReserved_iff.2 (.inl e))
  have he : c ≠ escapeChar := fun e => h (isReserved_iff.2 (.inr e))
  cases r with
  | nil => simp [splitChars, hs, he]
  | cons d r => simp [splitChars, hs, he]

/-- The separator that ends the component is found behind any escaped text. -/
theorem splitChars_escape (s t : List Char) :
    splitChars (escape s ++ separator :: t) = (s, unescape t) := by
  induction s with
  | nil => exact splitChars_separator t
  | cons c s ih =>
    by_cases h : isReserved c
    · simp only [escape, h, if_true, List.cons_append]
      rw [splitChars_escaped, ih]
    · rw [escape, if_neg h, List.cons_append, splitChars_cons_of_plain h, ih]

theorem split_ofPair (component host : String) : (ofPair component host).split = (component, host) := by
  simp only [split, ofPair, String.toList_ofList, splitChars_escape, unescape_escape,
    String.ofList_toList]

theorem ofPair_inj {c h c' h' : String} : ofPair c h = ofPair c' h' ↔ c = c' ∧ h = h' := by
  constructor
  · intro e
    have hsplit := congrArg split e
    rw [split_ofPair, split_ofPair] at hsplit
    exact Prod.mk.inj hsplit
  · rintro ⟨rfl, rfl⟩
    rfl

/-- Two pairs of names have one key only if they are the same pair: splitting a key gives back the names it was
made of, and neither the texts of keys nor the order that tables keep them in takes two pairs for one. -/
theorem ofPair_decodes (component host : String) :
    (ofPair component host).split = (component, host) ∧
    ∀ component' host',
      (ofPair component host = ofPair component' host' ↔ component = component' ∧ host = host') ∧
      ((ofPair component host).text = (ofPair component' host').text ↔
        component = component' ∧ host = host') ∧
      (compare (ofPair component host) (ofPair component' host') = .eq ↔
        component = component' ∧ host = host') := by
  refine ⟨split_ofPair component host, fun component' host' => ?_⟩
  have htext : (ofPair component host).text = (ofPair component' host').text ↔
      ofPair component host = ofPair component' host' := by
    rw [Key.mk.injEq]
  have hcompare : compare (ofPair component host) (ofPair component' host') = .eq ↔
      ofPair component host = ofPair component' host' := Std.LawfulEqCmp.compare_eq_iff_eq
  exact ⟨ofPair_inj, htext.trans ofPair_inj, hcompare.trans ofPair_inj⟩

end LogCatalog.Key
