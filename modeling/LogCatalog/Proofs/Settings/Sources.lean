import LogCatalog.Proofs.Json.Canonical
import LogCatalog.Settings.Configuration

/-!
# What files and the environment assign

A value at the top of a text assigns its entries if it is a mapping, nothing if it is null, and is refused
otherwise. A file is read before it is parsed, and parsed before its value is looked at. The variables come
before the entries of the text that a variable holds, but that text is refused before they are looked at.
-/
namespace LogCatalog

/-- What a value at the top of a text comes to. -/
inductive Assignment.Listed (source : Source) : Json → Except SettingsError (List Assignment) → Prop
  | null : Listed source .null (.ok [])
  | object {ms entries : Json.Members} (listed : Json.Entries ms entries) :
      Listed source (.object ms) (.ok (entries.map fun m => ⟨fieldName m.1, m.2, source⟩))
  | other {value : Json} (present : value ≠ .null) (flat : ∀ ms, value ≠ .object ms) :
      Listed source value (.error (.invalid (.notMapping value.canonical)))

theorem Assignment.listed_iff {source : Source} {value : Json} {r : Except SettingsError (List Assignment)} :
    Listed source value r ↔ ofJson value.canonical source = r := by
  constructor
  · rintro (_ | listed | ⟨present, flat⟩)
    · rfl
    · rw [← Json.entries_iff.1 listed]
      rfl
    · cases value with
      | null => exact absurd rfl present
      | object ms => exact absurd rfl (flat ms)
      | _ => rfl
  · rintro rfl
    cases value with
    | null => exact .null
    | object ms => exact .object (Json.entries_canonical ms)
    | _ => exact .other nofun nofun

namespace File

/-- What a file comes to. -/
inductive Reads (f : File) : Except SettingsError (List Assignment) → Prop
  | unreadable {cause : ReadFailure} (broken : f.text = .error cause) : Reads f (.error (.unreadable cause))
  | unparsed {text : String} (readable : f.text = .ok text) (broken : Yaml.read? text = none) :
      Reads f (.error (.invalid .unparsed))
  | parsed {text : String} {value : Json} {r : Except SettingsError (List Assignment)}
      (readable : f.text = .ok text) (parses : Yaml.read? text = some value)
      (listed : Assignment.Listed .file value r) : Reads f r

theorem reads_iff {f : File} {r : Except SettingsError (List Assignment)} :
    f.Reads r ↔ f.assignments = r := by
  constructor
  · rintro (broken | ⟨readable, broken⟩ | ⟨readable, parses, listed⟩)
    · rw [assignments, broken]
    · simp only [assignments, readable, broken]
    · simp only [assignments, readable, parses]
      exact Assignment.listed_iff.1 listed
  · rintro rfl
    unfold assignments
    split
    · next broken => exact .unreadable broken
    · next readable =>
      split
      · next parses => exact .parsed readable parses (Assignment.listed_iff.2 rfl)
      · next broken => exact .unparsed readable broken

end File

namespace Environment

/-- What an environment comes to. -/
inductive Reads (e : Environment) : Except SettingsError (List Assignment) → Prop
  | plain (blank : ∀ raw, e.get? overrideName = some raw → Text.trim raw = "") :
      Reads e (.ok (e.bindings.filterMap assignment?))
  | unparsed {raw : String} (written : e.get? overrideName = some raw) (text : Text.trim raw ≠ "")
      (broken : Json.read? raw = none) : Reads e (.error (.invalid .unparsed))
  | refused {raw : String} {value : Json} {cause : SettingsError}
      (written : e.get? overrideName = some raw) (text : Text.trim raw ≠ "")
      (parses : Json.read? raw = some value) (listed : Assignment.Listed .env value (.error cause)) :
      Reads e (.error cause)
  | extended {raw : String} {value : Json} {last : List Assignment}
      (written : e.get? overrideName = some raw) (text : Text.trim raw ≠ "")
      (parses : Json.read? raw = some value) (listed : Assignment.Listed .env value (.ok last)) :
      Reads e (.ok (e.bindings.filterMap assignment? ++ last))

theorem reads_iff {e : Environment} {r : Except SettingsError (List Assignment)} :
    e.Reads r ↔ e.assignments = r := by
  constructor
  · rintro (blank | ⟨written, text, broken⟩ | ⟨written, text, parses, listed⟩ |
      ⟨written, text, parses, listed⟩)
    · have hoverrides : e.overrides = .ok [] := by
        unfold overrides
        split
        · rfl
        · next raw written => rw [if_pos (String.isEmpty_iff.2 (blank raw written))]
      simp only [assignments, hoverrides, List.append_nil]
    · simp [assignments, overrides, written, text, broken]
    · simp [assignments, overrides, written, text, parses, Assignment.listed_iff.1 listed]
    · simp [assignments, overrides, written, text, parses, Assignment.listed_iff.1 listed]
  · rintro rfl
    cases written : e.get? overrideName with
    | none =>
      have hread := Reads.plain (e := e) fun raw h => nomatch written.symm.trans h
      simpa [assignments, overrides, written] using hread
    | some raw =>
      by_cases text : Text.trim raw = ""
      · have hread := Reads.plain (e := e) fun other h => by
          rwa [← Option.some.inj (written.symm.trans h)]
        simpa [assignments, overrides, written, text] using hread
      · cases parses : Json.read? raw with
        | none => simpa [assignments, overrides, written, text, parses] using .unparsed written text parses
        | some value =>
          cases listed : Assignment.ofJson value.canonical .env with
          | error cause =>
            have hread := Reads.refused written text parses (Assignment.listed_iff.2 listed)
            simpa [assignments, overrides, written, text, parses, listed] using hread
          | ok last =>
            have hread := Reads.extended written text parses (Assignment.listed_iff.2 listed)
            simpa [assignments, overrides, written, text, parses, listed] using hread

theorem fieldPart?_eq_some_iff {written name : String} :
    fieldPart? written = some name ↔ written = fieldMark ++ name := by
  rw [fieldPart?, ← String.length_toList, ← String.toList_inj, String.toList_append]
  constructor
  · intro h
    split at h
    · next marked =>
      obtain ⟨rest, hrest⟩ := List.isPrefixOf_iff_prefix.1 marked
      rw [← hrest, List.drop_left, Option.some.injEq] at h
      rw [← hrest, ← h, String.toList_ofList]
    · exact nomatch h
  · intro h
    rw [h, if_pos (List.isPrefixOf_iff_prefix.2 (List.prefix_append _ _)), List.drop_left,
      String.ofList_toList]

theorem isEmpty_fieldName {name : String} :
    (Assignment.fieldName name).isEmpty ↔ Text.trim name = "" := by
  rw [String.isEmpty_iff]
  change (Text.trim name).map Char.toLower = "" ↔ Text.trim name = ""
  rw [← String.toList_inj, ← String.toList_inj]
  simp

/-- A variable assigns when its name is the field mark and a rest that is not blank. -/
theorem assignment?_eq_some_iff {v : String × String} {a : Assignment} :
    assignment? v = some a ↔
      ∃ name, v.1 = fieldMark ++ name ∧ Text.trim name ≠ "" ∧
        a = ⟨Assignment.fieldName name, readValue v.2, .env⟩ := by
  rw [assignment?]
  cases hpart : fieldPart? v.1 with
  | none =>
    refine ⟨nofun, ?_⟩
    rintro ⟨name, hname, -⟩
    exact nomatch hpart.symm.trans (fieldPart?_eq_some_iff.2 hname)
  | some part =>
    have hname {name : String} : v.1 = fieldMark ++ name ↔ part = name := by
      rw [← fieldPart?_eq_some_iff, hpart, Option.some.injEq]
    simp only [hname, exists_eq_left']
    by_cases blank : Text.trim part = ""
    · rw [if_pos (isEmpty_fieldName.2 blank)]
      exact ⟨nofun, fun h => absurd blank h.1⟩
    · rw [if_neg (mt isEmpty_fieldName.1 blank), Option.some.injEq]
      exact ⟨fun h => ⟨blank, h.symm⟩, fun h => h.2.symm⟩

end Environment

end LogCatalog
