import LogCatalog.Proofs.Settings.Fields
import LogCatalog.Proofs.Settings.Sources

/-!
# The layers of a configuration

A load lays one layer on the other: the assignments of each file, file by file, and then those of the
environment. What cannot be read is a layer of its own, which is refused. The first refused layer decides
the error. If there is none, each field has the value and the source of the last assignment to it, or else
its default.
-/
namespace LogCatalog

/-- The assignment sets this field to this number. -/
structure Assignment.Sets (a : Assignment) (f : Field) (n : UInt64) : Prop where
  field : Field.ofName? a.field = some f
  value : a.value = .natural n
  range : f.InRange n

namespace Configuration

/-- One thing that a load comes across. -/
inductive Layer where
  | broken (cause : SettingsError)
  | assignment (a : Assignment)

namespace Layer

def ofResult : Except SettingsError (List Assignment) → List Layer
  | .ok assignments => assignments.map assignment
  | .error cause => [broken cause]

/-- Why a layer is refused, whatever it is laid on. -/
def refusal? : Layer → Option SettingsError
  | broken cause => some cause
  | assignment a =>
    match Field.ofName? a.field with
    | none => some (.invalid (.unknownField a.field))
    | some f =>
      match f.accept a.value with
      | .ok _ => none
      | .error cause => some (.invalidValue cause)

end Layer

/-- The layers of the files that are there and of the environment, in order. -/
def layers (files : List (Option File)) (env : Option Environment) : List Layer :=
  (files.flatMap fun file => (file.map fun f => Layer.ofResult f.assignments).getD []) ++
    (env.map fun e => Layer.ofResult e.assignments).getD []

def lay (c : Configuration) : Layer → Except SettingsError Configuration
  | .broken cause => .error cause
  | .assignment a => c.assign a

/-- The last of the assignments to a field. -/
def lastFor (assignments : List Assignment) (f : Field) : Option Assignment :=
  assignments.reverse.find? fun a => Field.ofName? a.field = some f

/-- Where each name was set last: all fields at first by default, then the names as they are assigned. -/
def sources (assignments : List Assignment) : Std.ExtTreeMap String Source :=
  assignments.foldl (fun table a => table.insert a.field a.source)
    (Field.all.foldl (fun table f => table.insert f.name .builtin) ∅)

variable {c c' : Configuration} {a : Assignment} {assignments : List Assignment} {l : Layer}
  {ls : List Layer} {e : SettingsError}

theorem foldlM_assignments (c : Configuration) (assignments : List Assignment) :
    (assignments.map Layer.assignment).foldlM lay c = c.assignAll assignments := by
  induction assignments generalizing c with
  | nil => rfl
  | cons a assignments ih =>
    rw [List.map_cons, List.foldlM_cons, assignAll, lay]
    cases c.assign a with
    | error cause => rfl
    | ok next => exact ih next

theorem foldlM_ofResult (c : Configuration) (r : Except SettingsError (List Assignment)) :
    (Layer.ofResult r).foldlM lay c =
      match r with
      | .ok assignments => c.assignAll assignments
      | .error cause => .error cause := by
  cases r with
  | ok assignments => exact foldlM_assignments c assignments
  | error cause => rfl

theorem addFiles_eq_foldlM (c : Configuration) (files : List (Option File)) :
    c.addFiles files =
      (files.flatMap fun file => (file.map fun f => Layer.ofResult f.assignments).getD []).foldlM lay c := by
  induction files generalizing c with
  | nil => rfl
  | cons file files ih =>
    have hfile : c.addFile file =
        ((file.map fun f => Layer.ofResult f.assignments).getD []).foldlM lay c := by
      cases file with
      | none => rfl
      | some f => exact (foldlM_ofResult c f.assignments).symm
    rw [addFiles, hfile, List.flatMap_cons, List.foldlM_append]
    cases ((file.map fun f => Layer.ofResult f.assignments).getD []).foldlM lay c with
    | error cause => rfl
    | ok next => exact ih next

/-- A load is a fold over the layers. -/
theorem load_eq_foldlM (files : List (Option File)) (env : Option Environment) :
    load files env = (layers files env).foldlM lay {} := by
  rw [load, layers, List.foldlM_append, addFiles_eq_foldlM]
  generalize List.foldlM lay {} _ = r
  cases r with
  | error cause => rfl
  | ok c =>
    cases env with
    | none => rfl
    | some env => exact (foldlM_ofResult c env.assignments).symm

/-- A layer is refused, or it sets one field. -/
theorem lay_cases (c : Configuration) (l : Layer) :
    (∃ cause, l.refusal? = some cause ∧ c.lay l = .error cause) ∨
      l.refusal? = none ∧ ∃ a f n, l = .assignment a ∧ a.Sets f n ∧ c.lay l = .ok (c.set f n a.source) := by
  cases l with
  | broken cause => exact .inl ⟨cause, rfl, rfl⟩
  | assignment a =>
    cases hf : Field.ofName? a.field with
    | none =>
      exact .inl ⟨.invalid (.unknownField a.field), by simp [Layer.refusal?, hf], by simp [lay, assign, hf]⟩
    | some f =>
      cases hn : f.accept a.value with
      | error cause =>
        exact .inl ⟨.invalidValue cause, by simp [Layer.refusal?, hf, hn], by simp [lay, assign, hf, hn]⟩
      | ok n =>
        obtain ⟨hvalue, hrange⟩ := Field.accept_eq_ok_iff.1 hn
        exact .inr ⟨by simp [Layer.refusal?, hf, hn], a, f, n, rfl, ⟨hf, hvalue, hrange⟩,
          by simp [lay, assign, hf, hn]⟩

theorem refusal?_assignment_eq_none_iff : (Layer.assignment a).refusal? = none ↔ ∃ f n, a.Sets f n := by
  constructor
  · intro h
    rcases lay_cases {} (.assignment a) with ⟨cause, hcause, -⟩ | ⟨-, b, f, n, hb, hsets, -⟩
    · exact nomatch h.symm.trans hcause
    · cases hb
      exact ⟨f, n, hsets⟩
  · rintro ⟨f, n, hsets⟩
    have haccept := Field.accept_eq_ok_iff.2 ⟨hsets.value, hsets.range⟩
    simp only [Layer.refusal?, hsets.field, haccept]

/-- The first layer that is refused decides the error. -/
theorem foldlM_eq_error_iff : ls.foldlM lay c = .error e ↔ ls.findSome? Layer.refusal? = some e := by
  induction ls generalizing c with
  | nil => exact ⟨nofun, nofun⟩
  | cons l ls ih =>
    rw [List.foldlM_cons, List.findSome?_cons]
    rcases lay_cases c l with ⟨cause, hcause, hlay⟩ | ⟨hnone, a, f, n, -, -, hlay⟩
    · rw [hlay, hcause]
      exact ⟨fun h => congrArg some (Except.error.inj h), fun h => congrArg Except.error (Option.some.inj h)⟩
    · rw [hlay, hnone]
      exact ih

theorem exists_foldlM_eq_ok_iff : (∃ c', ls.foldlM lay c = .ok c') ↔ ∀ l ∈ ls, l.refusal? = none := by
  rw [← List.findSome?_eq_none_iff, Option.eq_none_iff_forall_ne_some]
  simp only [ne_eq, ← foldlM_eq_error_iff (c := c)]
  cases ls.foldlM lay c with
  | error cause => exact ⟨nofun, fun h => absurd rfl (h cause)⟩
  | ok c' => exact ⟨fun _ => nofun, fun _ => ⟨c', rfl⟩⟩

/-- The configuration after the assignments, laid on the defaults. -/
structure Holds (c : Configuration) (assignments : List Assignment) : Prop where
  unnamed (f : Field) : lastFor assignments f = none →
    c.settings.get f = ({} : Settings).get f ∧ c.provenance f = .builtin
  named (f : Field) (a : Assignment) : lastFor assignments f = some a →
    a.value = .natural (c.settings.get f) ∧ c.provenance f = a.source
  table (name : String) : (sources assignments)[name]? = (Field.ofName? name).map c.provenance

theorem holds_default : Holds {} [] where
  unnamed _ _ := ⟨rfl, rfl⟩
  named _ _ h := nomatch h
  table name := by
    cases hname : Field.ofName? name with
    | some f =>
      obtain rfl := Field.ofName?_eq_some_iff.1 hname
      cases f <;> rfl
    | none =>
      have hne (f : Field) : f.name ≠ name := fun e =>
        nomatch hname.symm.trans (Field.ofName?_eq_some_iff.2 e.symm)
      simp [sources, Field.all, hne]

theorem lastFor_eq_none_iff {f : Field} :
    lastFor assignments f = none ↔ ∀ a ∈ assignments, Field.ofName? a.field ≠ some f := by
  simp [lastFor]

theorem mem_of_lastFor_eq_some {f : Field} (h : lastFor assignments f = some a) :
    a ∈ assignments ∧ Field.ofName? a.field = some f :=
  ⟨List.mem_reverse.1 (List.mem_of_find?_eq_some h), by simpa using List.find?_some h⟩

theorem lastFor_concat (assignments : List Assignment) (a : Assignment) (f : Field) :
    lastFor (assignments ++ [a]) f =
      if Field.ofName? a.field = some f then some a else lastFor assignments f := by
  rw [lastFor, List.reverse_concat, List.find?_cons]
  split <;> simp_all [lastFor]

theorem sources_concat (assignments : List Assignment) (a : Assignment) :
    sources (assignments ++ [a]) = (sources assignments).insert a.field a.source := by
  rw [sources, List.foldl_append]
  rfl

theorem Holds.concat (h : Holds c assignments) {f : Field} {n : UInt64} (hsets : a.Sets f n) :
    Holds (c.set f n a.source) (assignments ++ [a]) where
  unnamed g hg := by
    rw [lastFor_concat, hsets.field] at hg
    split at hg
    · exact nomatch hg
    · next hne =>
      have hgf : g ≠ f := fun e => hne (e ▸ rfl)
      obtain ⟨hvalue, hsource⟩ := h.unnamed g hg
      exact ⟨(Settings.get_set_of_ne c.settings hgf n).trans hvalue, (if_neg hgf).trans hsource⟩
  named g b hb := by
    rw [lastFor_concat, hsets.field] at hb
    split at hb
    · next heq =>
      obtain rfl := Option.some.inj heq
      obtain rfl := Option.some.inj hb
      refine ⟨?_, if_pos rfl⟩
      rw [hsets.value, set, Settings.get_set c.settings hsets.range]
    · next hne =>
      have hgf : g ≠ f := fun e => hne (e ▸ rfl)
      obtain ⟨hvalue, hsource⟩ := h.named g b hb
      rw [set, Settings.get_set_of_ne c.settings hgf n]
      exact ⟨hvalue, (if_neg hgf).trans hsource⟩
  table name := by
    have hfield : a.field = f.name := Field.ofName?_eq_some_iff.1 hsets.field
    rw [sources_concat, Std.ExtTreeMap.getElem?_insert, h.table]
    split
    · next heq =>
      rw [← Std.LawfulEqCmp.eq_of_compare heq, hsets.field]
      exact congrArg some (if_pos rfl).symm
    · next hne =>
      cases hname : Field.ofName? name with
      | none => rfl
      | some g =>
        have hgf : g ≠ f := by
          rintro rfl
          rw [hfield, ← Field.ofName?_eq_some_iff.1 hname] at hne
          exact hne Std.ReflCmp.compare_self
        exact congrArg some (if_neg hgf).symm

/-- Layers that are all accepted are assignments, and the configuration is what they make of it. -/
theorem Holds.foldlM (h : Holds c assignments) (hl : ls.foldlM lay c = .ok c') :
    ∃ more, ls = more.map .assignment ∧ Holds c' (assignments ++ more) := by
  induction ls generalizing c assignments with
  | nil =>
    obtain rfl := Except.ok.inj hl
    exact ⟨[], rfl, by rwa [List.append_nil]⟩
  | cons l ls ih =>
    rw [List.foldlM_cons] at hl
    rcases lay_cases c l with ⟨cause, -, hlay⟩ | ⟨-, a, f, n, rfl, hsets, hlay⟩
    · rw [hlay] at hl
      exact nomatch hl
    · rw [hlay] at hl
      obtain ⟨more, rfl, hmore⟩ := ih (h.concat hsets) hl
      rw [List.append_assoc] at hmore
      exact ⟨a :: more, rfl, hmore⟩

variable {files : List (Option File)} {env : Option Environment}

theorem broken_mem_ofResult {r : Except SettingsError (List Assignment)} :
    .broken e ∈ Layer.ofResult r ↔ r = .error e := by
  cases r <;> simp [Layer.ofResult, eq_comm]

theorem mem_layers :
    l ∈ layers files env ↔
      (∃ f, some f ∈ files ∧ l ∈ Layer.ofResult f.assignments) ∨
        ∃ e, env = some e ∧ l ∈ Layer.ofResult e.assignments := by
  rw [layers, List.mem_append, List.mem_flatMap]
  refine or_congr ⟨?_, ?_⟩ ?_
  · rintro ⟨file, hfile, hl⟩
    cases file with
    | none => exact nomatch hl
    | some f => exact ⟨f, hfile, hl⟩
  · rintro ⟨f, hf, hl⟩
    exact ⟨some f, hf, hl⟩
  · cases env <;> simp

/-- No layer is refused if and only if all sources come to assignments and all of these set a field. -/
theorem layers_accepted_iff :
    (∀ l ∈ layers files env, l.refusal? = none) ↔
      (∀ f, some f ∈ files → ∃ assignments, File.Reads f (.ok assignments)) ∧
      (∀ e, env = some e → ∃ assignments, Environment.Reads e (.ok assignments)) ∧
      ∀ a, .assignment a ∈ layers files env → ∃ f n, a.Sets f n := by
  constructor
  · intro h
    have hread {r : Except SettingsError (List Assignment)}
        (hr : ∀ l ∈ Layer.ofResult r, l ∈ layers files env) : ∃ assignments, r = .ok assignments := by
      cases r with
      | ok assignments => exact ⟨assignments, rfl⟩
      | error cause => exact nomatch h _ (hr _ (broken_mem_ofResult.2 rfl))
    refine ⟨fun f hf => ?_, fun e he => ?_, fun a ha => refusal?_assignment_eq_none_iff.1 (h _ ha)⟩
    · obtain ⟨assignments, hr⟩ := hread fun l hl => mem_layers.2 (.inl ⟨f, hf, hl⟩)
      exact ⟨assignments, File.reads_iff.2 hr⟩
    · obtain ⟨assignments, hr⟩ := hread fun l hl => mem_layers.2 (.inr ⟨e, he, hl⟩)
      exact ⟨assignments, Environment.reads_iff.2 hr⟩
  · rintro ⟨hfiles, henv, hsets⟩ l hl
    cases l with
    | assignment a => exact refusal?_assignment_eq_none_iff.2 (hsets a hl)
    | broken cause =>
      rcases mem_layers.1 hl with ⟨f, hf, hl⟩ | ⟨e, he, hl⟩
      · obtain ⟨assignments, hr⟩ := hfiles f hf
        exact nomatch (File.reads_iff.1 hr).symm.trans (broken_mem_ofResult.1 hl)
      · obtain ⟨assignments, hr⟩ := henv e he
        exact nomatch (Environment.reads_iff.1 hr).symm.trans (broken_mem_ofResult.1 hl)

/-- Whatever files and environment hold, the fields of a loaded configuration are in their ranges. -/
theorem inRange_of_load (h : load files env = .ok c) (f : Field) : f.InRange (c.settings.get f) := by
  rw [load_eq_foldlM] at h
  obtain ⟨assignments, hlayers, hholds⟩ := holds_default.foldlM h
  cases ha : lastFor assignments f with
  | none =>
    rw [(hholds.unnamed f ha).1]
    exact Field.inRange_default f
  | some a =>
    obtain ⟨hassigned, hfield⟩ := mem_of_lastFor_eq_some ha
    have hmem : .assignment a ∈ layers files env := hlayers ▸ List.mem_map_of_mem hassigned
    obtain ⟨g, n, hsets⟩ := refusal?_assignment_eq_none_iff.1 (exists_foldlM_eq_ok_iff.1 ⟨c, h⟩ _ hmem)
    obtain rfl := Option.some.inj (hsets.field.symm.trans hfield)
    have hn : n = c.settings.get g := Json.natural.inj (hsets.value.symm.trans (hholds.named g a ha).1)
    exact hn ▸ hsets.range

/-- A load lays the layers on the defaults, one on the other. What a file and an environment come to is
determined: a mapping assigns its entries in the code-point order of their keys, the last value under each
key, to names that are trimmed and in lower case; the variables with the field mark assign in their order
and before the entries of the further text. A load succeeds if and only if every file and that text come to
assignments and every assignment, also one that is overridden, sets a field to a number in its range. Then
each field has the value and the source of the last assignment to it, or else its default, and just the
names of the fields have a source. Otherwise the error is that of the first layer that is refused. A file or
an environment that comes to no assignments is refused as a whole, in place of all it would assign. -/
theorem load_layers (files : List (Option File)) (env : Option Environment) :
    (∀ f r, File.Reads f r ↔ f.assignments = r) ∧
    (∀ e r, Environment.Reads e r ↔ e.assignments = r) ∧
    (∀ v a, Environment.assignment? v = some a ↔
      ∃ name, v.1 = Environment.fieldMark ++ name ∧ Text.trim name ≠ "" ∧
        a = ⟨Assignment.fieldName name, Environment.readValue v.2, .env⟩) ∧
    load files env = (layers files env).foldlM lay {} ∧
    ((∃ c, load files env = .ok c) ↔
      (∀ f, some f ∈ files → ∃ assignments, File.Reads f (.ok assignments)) ∧
      (∀ e, env = some e → ∃ assignments, Environment.Reads e (.ok assignments)) ∧
      ∀ a, .assignment a ∈ layers files env → ∃ f n, a.Sets f n) ∧
    (∀ c, load files env = .ok c →
      ∃ assignments, layers files env = assignments.map .assignment ∧
        (∀ f, lastFor assignments f = none →
          c.settings.get f = ({} : Settings).get f ∧ c.provenance f = .builtin) ∧
        (∀ f a, lastFor assignments f = some a →
          a.value = .natural (c.settings.get f) ∧ c.provenance f = a.source) ∧
        ∀ name, (sources assignments)[name]? = (Field.ofName? name).map c.provenance) ∧
    ∀ cause, load files env = .error cause ↔ (layers files env).findSome? Layer.refusal? = some cause := by
  rw [load_eq_foldlM]
  refine ⟨fun _ _ => File.reads_iff, fun _ _ => Environment.reads_iff,
    fun _ _ => Environment.assignment?_eq_some_iff, rfl, ?_, fun c hc => ?_, fun _ => foldlM_eq_error_iff⟩
  · rw [exists_foldlM_eq_ok_iff, layers_accepted_iff]
  · obtain ⟨assignments, hlayers, hholds⟩ := holds_default.foldlM hc
    exact ⟨assignments, hlayers, hholds.unnamed, hholds.named, hholds.table⟩

end Configuration
end LogCatalog
